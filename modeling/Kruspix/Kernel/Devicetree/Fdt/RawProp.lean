import Kruspix.Kernel.Devicetree.Fdt.StructureBlock
import Mathlib.Algebra.Group.Nat.Even

/-!
# Properties of the flattened device tree

A raw property is a name and the bytes of its value, with the address where they stand.
That address is a multiple of four, as the iterators assert it of the pointer behind the
value, so a word is read as it is; two words are read as one only at a multiple of eight.
The iterator over the properties of a node stops at the first token that is not a
property.
-/

namespace Kruspix.Kernel.Devicetree

open Lib.Bytes Lib.Iterator Lib.Result

/-- `CStr::from_bytes_with_nul`. -/
def cStrWithNul? (bs : List UInt8) : Option (List UInt8) :=
  if bs.getLast? = some 0 ∧ 0 ∉ bs.dropLast then some bs.dropLast else none

/-- The number that `result <<= 32` and `result += part` make of the cells. -/
def cellsNumber (cells : List Nat) : Nat :=
  cells.foldl (fun result part => result * 2 ^ 32 % 2 ^ 64 + part) 0

namespace RawProp

variable (prop : RawProp)

/-- The value as a word of four bytes. -/
def valueAsU32 : Option Nat := if prop.value.length * 8 ≠ 32 then none else some (beNat prop.value)

/-- `*value_ptr` of a `*const u64` faults at an address that is not a multiple of eight. -/
def valueAsU64 : Except Fault (Option Nat) :=
  if prop.value.length * 8 ≠ 64 then .ok none
  else if prop.addr % 8 ≠ 0 then .error .misaligned
  else .ok (some (beNat prop.value))

/-- The value as a string: UTF-8 with one NUL, at its end. -/
def valueAsString : Option String :=
  if prop.value = [] then none else (cStrWithNul? prop.value).bind str?

def valueAsPhandle : Option Nat := prop.valueAsU32

/-- `StringListIter`. -/
def stringList (bs : List UInt8) : List (Option String) :=
  if bs = [] then []
  else
    match cStr? bs with
    | some s => str? s :: stringList (bs.drop (s.length + 1))
    | none => [none]
termination_by bs.length
decreasing_by
  have hpos := List.length_pos_iff.mpr ‹bs ≠ []›
  simp only [List.length_drop]
  omega

def valueAsStringListIter : List (Option String) := stringList prop.value

/-- A chunk of cells, cut at the sizes of its numbers. -/
def cutCells (sizes : List Nat) (cells : List Nat) : List Nat :=
  match sizes with
  | [] => []
  | size :: sizes => cellsNumber (cells.take size) :: cutCells sizes (cells.drop size)

/-- The numbers of each chunk, if the value is made of whole chunks. -/
def cellsChunks (sizes : List Nat) (size : Nat) : Except Fault (List (List Nat)) :=
  if prop.value.length % (size * 4) ≠ 0 then .error .assertion
  else .ok ((chunksExact (size * 4) prop.value).map fun chunk => cutCells sizes (beWords chunk))

/-- `value_as_prop_encoded_array_cells_pair_iter`. -/
def cellsPairs (size1 size2 : Nat) : Except Fault (List (Nat × Nat)) :=
  if size1 = 0 ∨ size1 > 2 ∨ size2 = 0 ∨ size2 > 2 then .error .assertion
  else do
    let chunks ← prop.cellsChunks [size1, size2] (size1 + size2)
    return chunks.map fun chunk => (chunk.getD 0 0, chunk.getD 1 0)

/-- `value_as_prop_encoded_array_cells_triplet_iter`. -/
def cellsTriplets (size1 size2 size3 : Nat) : Except Fault (List (Nat × Nat × Nat)) :=
  if size1 = 0 ∨ size2 = 0 ∨ size3 = 0 then .error .assertion
  else if size1 + size2 + size3 ≥ 2 ^ 32 then .error .overflow
  else do
    let chunks ← prop.cellsChunks [size1, size2, size3] (size1 + size2 + size3)
    return chunks.map fun chunk => (chunk.getD 0 0, chunk.getD 1 0, chunk.getD 2 0)

end RawProp

/-- The pointer that `next_prop_token` leaves. -/
def nextPropToken (c : Cursor) : Except Fault Cursor :=
  match _h : c.readBe32 with
  | .error e => .error e
  | .ok token =>
      if token = fdtProp then .ok c
      else if token = fdtNop then nextPropToken (c.skip 4)
      else .ok .null
termination_by c.bytes.length
decreasing_by
  have hlen := Cursor.readBe32_ok _h
  simp only [Cursor.skip_bytes, List.length_drop]
  omega

theorem nextPropToken_eq (c : Cursor) :
    nextPropToken c = (do
      let token ← c.readBe32
      if token = fdtProp then .ok c
      else if token = fdtNop then nextPropToken (c.skip 4)
      else .ok .null) := by
  rw [nextPropToken]
  split <;> rename_i h <;> simp only [h, except_ok_bind, except_error_bind]

/-- The token that is not the null pointer has been read. -/
theorem nextPropToken_length {c d : Cursor} (h : nextPropToken c = .ok d)
    (hnull : d.isNull = false) : 4 ≤ d.bytes.length ∧ d.bytes.length ≤ c.bytes.length := by
  induction c using nextPropToken.induct with
  | case1 c e he =>
      rw [nextPropToken_eq, he] at h
      cases h
  | case2 c hread =>
      rw [nextPropToken_eq, hread, except_ok_bind, if_pos rfl] at h
      cases h
      exact ⟨Cursor.readBe32_ok hread, le_rfl⟩
  | case3 c hread hne ih =>
      rw [nextPropToken_eq, hread, except_ok_bind, if_neg hne, if_pos rfl] at h
      have hih := ih h
      simp only [Cursor.skip_bytes, List.length_drop] at hih
      omega
  | case4 c token hread hne hne' =>
      rw [nextPropToken_eq, hread, except_ok_bind, if_neg hne, if_neg hne'] at h
      cases h
      cases hnull

/-- An iterator over the properties of one node. -/
structure PropIter where
  propToken : Cursor
  stringsBlock : Cursor
  deriving DecidableEq

namespace PropIter

def new (prop stringsBlock : Cursor) : PropIter := ⟨prop, stringsBlock⟩

/-- The next property; at a token that is none the iterator ends. -/
def next (s : PropIter) : Except Fault (Option RawProp × PropIter) := do
  let c ← nextPropToken s.propToken
  if c.isNull then return (none, { s with propToken := c })
  else
    let (prop, d) ← readProp s.stringsBlock c
    return (some prop, { s with propToken := d })

theorem next_length {s t : PropIter} {prop : RawProp} (h : s.next = .ok (some prop, t)) :
    t.propToken.bytes.length < s.propToken.bytes.length := by
  obtain ⟨c, hc, h⟩ := except_bind_eq_ok.mp h
  split at h
  · cases h
  · rename_i hnull
    have hlen := nextPropToken_length hc (Bool.eq_false_iff.mpr hnull)
    obtain ⟨⟨prop', d⟩, hprop, h⟩ := except_bind_eq_ok.mp h
    cases h
    have hread := readProp_length hprop
    change d.bytes.length < _
    omega

/-- `impl Iterator`. -/
def iter : Iter Fault PropIter RawProp where
  next := next
  size s := s.propToken.bytes.length
  size_lt := next_length

end PropIter

namespace Fdt

/-- The standard properties that the kernel knows by name. -/
inductive StandardProperty
  | compatible
  | model
  | phandle
  | status
  | addressCells
  | sizeCells
  | reg
  | virtualReg
  | ranges
  | dmaRanges
  | dmaCoherent
  | dmaNoncoherent
  deriving DecidableEq, Repr

/-- `TryFrom<&str>`. -/
def StandardProperty.tryFrom (value : String) : Option StandardProperty :=
  match value with
  | "compatible" => some .compatible
  | "model" => some .model
  | "phandle" => some .phandle
  | "status" => some .status
  | "#address-cells" => some .addressCells
  | "#size-cells" => some .sizeCells
  | "reg" => some .reg
  | "virtual-reg" => some .virtualReg
  | "ranges" => some .ranges
  | "dma-ranges" => some .dmaRanges
  | "dma-coherent" => some .dmaCoherent
  | "dma-noncoherent" => some .dmaNoncoherent
  | _ => none

end Fdt

end Kruspix.Kernel.Devicetree
