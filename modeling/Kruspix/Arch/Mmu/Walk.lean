import Kruspix.Arch.Mmu.Map
import Kruspix.Lib.Radix
import Mathlib.Data.Set.Lattice
import Mathlib.Order.CompletePartialOrder

/-!
# The translation of addresses

`walk` is the translation the hardware makes of a kernel address: four levels
of tables from the level 0 table, with blocks of 1 GiB and 2 MiB. `Tables` is
what `setup_page_tables` establishes and every mapping keeps. Creating a table
is a link in a radix tree and changes no translation.
-/

namespace Kruspix.Arch.Mmu

open Lib.WordMemory Lib.Result Lib.Radix Mm.Layout Mm.PageFrames

/-- The entries of the tables in memory. -/
def entries (phys : Words) (t : Nat) (i : Fin 512) : BitVec 64 := phys (t + 8 * i)

/-- The table a descriptor above level 3 links to. -/
def nextTable (desc : BitVec 64) : Option Nat :=
  if desc &&& 0b11#64 = 0b11#64 then some (desc &&& addrMask).toNat else none

/-- The indices of an address, one a level. -/
def path (va : Nat) : List (Fin 512) :=
  [level0Index va, level1Index va, level2Index va, level3Index va]

/-- The result of a translation: the address and the descriptor it comes from. -/
structure Translation where
  addr : Nat
  desc : BitVec 64
  deriving DecidableEq

/-- What a descriptor gives where the walk stops, by the levels left below it. -/
def output (va : Nat) : BitVec 64 × List (Fin 512) → Option Translation
  -- a page at level 3
  | (desc, []) =>
      if desc &&& 0b11#64 = 0b11#64 then
        some ⟨(desc &&& addrMask).toNat + va % 2 ^ 12, desc⟩
      else none
  -- a block of 2 MiB at level 2
  | (desc, [_]) =>
      if desc &&& 0b11#64 = 0b01#64 then
        some ⟨(desc &&& 0x0000_ffff_ffe0_0000#64).toNat + va % 2 ^ 21, desc⟩
      else none
  -- a block of 1 GiB at level 1
  | (desc, [_, _]) =>
      if desc &&& 0b11#64 = 0b01#64 then
        some ⟨(desc &&& 0x0000_ffff_c000_0000#64).toNat + va % 2 ^ 30, desc⟩
      else none
  | _ => none

/-- The walk from the level 0 table at `root`. -/
def walk (phys : Words) (root va : Nat) : Option Translation :=
  (resolve nextTable (entries phys) root (path va)).bind (output va)

/-- The table at the end of a path from `root`. -/
def tableAt (phys : Words) (root : Nat) (p : List (Fin 512)) : Option Nat :=
  descend nextTable (entries phys) root p

/-- A frame is a table of the tree. -/
def IsTable (phys : Words) (root t : Nat) : Prop :=
  ∃ p : List (Fin 512), p.length < 4 ∧ tableAt phys root p = some t

/-- The state of the kernel's tables. The linear map is one table of blocks, and
outside of it an entry above level 3 that is no link is 0. -/
structure Tables (phys : Words) (root : Nat) (out : Set Nat) : Prop where
  tree : Tree nextTable (entries phys) root 4
  owned : ∀ t, IsTable phys root t → t ∈ out
  linear : ∃ t, tableAt phys root [level0LinearIndex] = some t ∧
    ∀ i, entries phys t i = identityBlock .normalWriteBackNonTransientReadWriteAlloc i
  heap : ∃ t, tableAt phys root [level0HeapIndex] = some t
  io : ∃ t, tableAt phys root [level0IoIndex] = some t
  blank : ∀ (p : List (Fin 512)) (t : Nat) (i : Fin 512), p.length < 3 →
    p.head? ≠ some level0LinearIndex → tableAt phys root p = some t →
    nextTable (entries phys t i) = none → entries phys t i = 0#64

theorem nextTable_zero : nextTable 0#64 = none := by decide

theorem output_zero (va : Nat) (is : List (Fin 512)) : output va (0#64, is) = none := by
  match is with
  | [] => rfl
  | [_] => rfl
  | [_, _] => rfl
  | _ :: _ :: _ :: _ => rfl

section Frames

variable {t u f : Nat} {i j : Fin 512} {phys phys' : Words}

/-- An entry of a table is a word of its frame. -/
theorem entry_lt (t : Nat) (i : Fin 512) : t + 8 * i < t + pageSize := by
  have := i.isLt
  rw [pageSize]
  omega

/-- Two entries at one address are the same entry of one table. -/
theorem entry_inj (ht : IsFrame t) (hu : IsFrame u) (h : u + 8 * j.val = t + 8 * i.val) :
    u = t ∧ j = i := by
  have htu : u = t := hu.eq_of_mem ht (by omega) (entry_lt u j) (by omega) (h ▸ entry_lt t i)
  exact ⟨htu, Fin.ext (by omega)⟩

theorem entries_store_same (phys : Words) (t : Nat) (i : Fin 512) (e : BitVec 64) :
    entries (store phys (t + 8 * i) e) t i = e :=
  store_same _ _ _

theorem entries_store_other (ht : IsFrame t) (hu : IsFrame u) (h : ¬ (u = t ∧ j = i))
    (e : BitVec 64) : entries (store phys (t + 8 * i) e) u j = entries phys u j :=
  store_other _ _ fun heq => h (entry_inj ht hu heq)

/-- The words of a frame outside a range that lies in another frame. -/
theorem storeEach_eq_of_ne (ht : IsFrame t) (hu : IsFrame u) (h : u ≠ t) (w : Nat → BitVec 64)
    {a : Nat} (ha : u ≤ a) (ha' : a < u + pageSize) :
    storeEach phys t pageTableEntries w a = phys a := by
  refine storeEach_out _ _ ?_
  by_contra hin
  have hrange : 8 * pageTableEntries = pageSize := by decide
  exact h (hu.eq_of_mem ht ha ha' (by omega) (by omega))

theorem entries_storeEach (phys : Words) (t : Nat) (w : Nat → BitVec 64) (i : Fin 512) :
    entries (storeEach phys t pageTableEntries w) t i = w i :=
  storeEach_in _ _ _ i.isLt

end Frames

section Congr

variable {phys phys' : Words} {root : Nat} {out out' : Set Nat}
  (hsame : ∀ t, IsTable phys root t → ∀ i, entries phys' t i = entries phys t i)

include hsame

/-- A change outside the tables moves no table. -/
theorem tableAt_congr {q : List (Fin 512)} (hq : q.length ≤ 4) :
    tableAt phys' root q = tableAt phys root q :=
  descend_congr (fun p u j hp hu => hsame u ⟨p, hp, hu⟩ j) hq

theorem isTable_congr {t : Nat} : IsTable phys' root t ↔ IsTable phys root t :=
  exists_congr fun p => and_congr_right fun hp => by
    rw [tableAt_congr hsame (q := p) (by omega)]

/-- A change outside the tables changes no translation. -/
theorem walk_congr (va : Nat) : walk phys' root va = walk phys root va := by
  have hres : resolve nextTable (entries phys') root (path va) =
      resolve nextTable (entries phys) root (path va) :=
    resolve_congr (fun p u j hp hu => hsame u ⟨p, hp, hu⟩ j) (le_of_eq rfl) (by simp [path])
  rw [walk, walk, hres]

theorem Tables.congr (htab : Tables phys root out) (hout : ∀ t, IsTable phys root t → t ∈ out') :
    Tables phys' root out' := by
  have hat : ∀ q : List (Fin 512), q.length ≤ 4 → tableAt phys' root q = tableAt phys root q :=
    fun q hq => tableAt_congr hsame hq
  refine ⟨fun p q t hp hq hpt hqt => ?_, fun t ht => hout t ((isTable_congr hsame).mp ht), ?_, ?_,
    ?_, fun p t i hp hhead ht hnone => ?_⟩
  · exact htab.tree p q t hp hq ((hat p (by omega)).symm.trans hpt)
      ((hat q (by omega)).symm.trans hqt)
  · obtain ⟨l, hl, hblocks⟩ := htab.linear
    refine ⟨l, (hat _ (by simp)).trans hl, fun i => ?_⟩
    rw [hsame l ⟨_, by simp, hl⟩, hblocks]
  · obtain ⟨t, ht⟩ := htab.heap
    exact ⟨t, (hat _ (by simp)).trans ht⟩
  · obtain ⟨t, ht⟩ := htab.io
    exact ⟨t, (hat _ (by simp)).trans ht⟩
  · rw [hat p (by omega)] at ht
    rw [hsame t ⟨p, by omega, ht⟩] at hnone ⊢
    exact htab.blank p t i hp hhead ht hnone

end Congr

/-- A descriptor of a table links to it. -/
theorem nextTable_tableDescriptor {f : Nat} (hf : IsFrame f) :
    nextTable (BitVec.ofNat 64 f ||| 0b11#64) = some f := by
  have htype : (BitVec.ofNat 64 f ||| 0b11#64) &&& 0b11#64 = 0b11#64 :=
    Lib.Masks.or_and_eq_right (by decide)
  have hlt : f < 2 ^ 48 := by
    have := hf.reachable
    simp only [pageSize, slotSize] at this
    omega
  rw [nextTable, if_pos htype, tableDescriptor_addr hf.aligned hlt]

/-- Frames are within reach of the linear map. -/
theorem physToVirt_frame {f : Nat} (hf : IsFrame f) :
    physToVirt f = .ok (f + linearMapOffset) := by
  have := hf.reachable
  simp only [pageSize, slotSize] at this
  rw [physToVirt, if_pos (by rw [linearMapOffset]; omega)]

end Kruspix.Arch.Mmu
