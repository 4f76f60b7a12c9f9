import Kruspix.Kernel.Devicetree.FdtMemory
import Kruspix.Kernel.Devicetree.Encoding

/-!
# The pairs of `reg`

The value of `reg` is cut into pairs of an address and a size, each a big-endian number of
one or two cells.
-/

namespace Kruspix.Kernel.Devicetree

open Lib.Bytes Lib.Result

/-- The numbers of cells that a pair of `usize` can be made of. -/
def IsCells (cells : Nat) : Prop := cells = 1 ∨ cells = 2

/-- The cells of one number are its big-endian bytes. -/
theorem cellsNumber_beWords {bs : List UInt8} {size : Nat} (hsize : IsCells size)
    (hlength : bs.length = size * 4) : cellsNumber (beWords bs) = beNat bs := by
  rcases hsize with rfl | rfl
  · rw [beWords_singleton (by omega)]
    simp only [cellsNumber, List.foldl_cons, List.foldl_nil]
    omega
  · have htake : (bs.take 4).length = 4 := List.length_take_of_le (by omega)
    have hdrop : (bs.drop 4).length = 4 := by
      rw [List.length_drop]
      omega
    have hwords : beWords bs = [beNat (bs.take 4), beNat (bs.drop 4)] := by
      rw [beWords, chunksExact_eq_cons (by omega), List.map_cons, ← beWords,
        beWords_singleton hdrop]
    have hnat : beNat bs = beNat (bs.take 4) * 256 ^ 4 + beNat (bs.drop 4) := by
      have happend := beNat_append (bs.take 4) (bs.drop 4)
      rw [List.take_append_drop, hdrop] at happend
      exact happend
    have hhigh := beNat_lt (bs.take 4)
    rw [htake] at hhigh
    rw [hwords, hnat]
    simp only [cellsNumber, List.foldl_cons, List.foldl_nil]
    omega

namespace RawProp

/-- The pairs of the value. -/
def pairs (prop : RawProp) (addressCells sizeCells : Nat) : List (Nat × Nat) :=
  (chunksExact ((addressCells + sizeCells) * 4) prop.value).map fun pair =>
    (beNat (pair.take (addressCells * 4)), beNat (pair.drop (addressCells * 4)))

/-- The value is made of whole pairs. -/
def Whole (prop : RawProp) (addressCells sizeCells : Nat) : Prop :=
  (addressCells + sizeCells) * 4 ∣ prop.value.length

instance (prop : RawProp) (addressCells sizeCells : Nat) :
    Decidable (prop.Whole addressCells sizeCells) :=
  inferInstanceAs (Decidable (_ ∣ _))

variable {prop : RawProp} {addressCells sizeCells : Nat}

theorem cutCells_pair {chunk : List UInt8} (haddress : IsCells addressCells)
    (hsize : IsCells sizeCells) (hlength : chunk.length = (addressCells + sizeCells) * 4) :
    cutCells [addressCells, sizeCells] (beWords chunk) =
      [beNat (chunk.take (addressCells * 4)), beNat (chunk.drop (addressCells * 4))] := by
  have htake : (chunk.take (addressCells * 4)).length = addressCells * 4 :=
    List.length_take_of_le (by omega)
  have hdrop : (chunk.drop (addressCells * 4)).length = sizeCells * 4 := by
    rw [List.length_drop]
    omega
  have hwhole : ((beWords chunk).drop addressCells).take sizeCells =
      (beWords chunk).drop addressCells := by
    rw [← beWords_drop, ← beWords_take, List.take_of_length_le (Nat.le_of_eq hdrop)]
  rw [cutCells, cutCells, cutCells, hwhole, ← beWords_take, ← beWords_drop,
    cellsNumber_beWords haddress htake, cellsNumber_beWords hsize hdrop]

/-- The iterator over the pairs of a value of whole pairs yields them. -/
theorem cellsPairs_eq (haddress : IsCells addressCells) (hsize : IsCells sizeCells)
    (hwhole : prop.Whole addressCells sizeCells) :
    prop.cellsPairs addressCells sizeCells = .ok (prop.pairs addressCells sizeCells) := by
  have hcells : ¬(addressCells = 0 ∨ addressCells > 2 ∨ sizeCells = 0 ∨ sizeCells > 2) := by
    simp only [IsCells] at haddress hsize
    omega
  rw [cellsPairs, if_neg hcells, cellsChunks,
    if_neg (not_not_intro (Nat.mod_eq_zero_of_dvd hwhole)), except_ok_bind, except_pure, pairs,
    List.map_map]
  congr 1
  apply List.map_congr_left
  intro chunk hchunk
  have hlength := length_of_mem_chunksExact hchunk
  simp only [Function.comp_apply, cutCells_pair haddress hsize hlength, List.getD_cons_zero,
    List.getD_cons_succ]

/-- A value without bytes has no pairs. -/
theorem pairs_eq_nil (h : prop.value = []) : prop.pairs addressCells sizeCells = [] := by
  rw [pairs, h, chunksExact_eq_nil, List.map_nil]
  rw [List.length_nil]
  omega

end RawProp

end Kruspix.Kernel.Devicetree
