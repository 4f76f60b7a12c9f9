import Mathlib.Data.List.Sort
import Mathlib.Algebra.Group.Nat.Even
import Mathlib.Data.Set.Lattice
import Mathlib.Order.CompletePartialOrder
import Mathlib.Order.Interval.Set.Basic

/-!
# Available physical memory

`calcAvailableMem` subtracts the reserved regions and the kernel image from
the memory regions of the device tree. Every slot is trimmed in place. When a
reserved region lies strictly inside a slot, the upper half is queued and the
next round checks it against all reserved regions again.

An address or size is a `usize`. Sums are checked, as in the development
profile, and a panic is the result `none`.
-/

namespace Kruspix.Mm.Memory

/-- A region `(addr, size)` of physical memory. -/
structure Region where
  addr : Nat
  size : Nat
  deriving DecidableEq, Repr

namespace Region

/-- The entry `(0, 0)` of an unused slot. -/
def empty : Region := ⟨0, 0⟩

/-- The bytes of a region. -/
def bytes (r : Region) : Set Nat := Set.Ico r.addr (r.addr + r.size)

/-- The sum of address and size does not overflow `usize`. -/
def Fits (r : Region) : Prop := r.addr + r.size < 2 ^ 64

instance (r : Region) : Decidable r.Fits := inferInstanceAs (Decidable (_ < _))

@[simp] theorem mem_bytes {r : Region} {b : Nat} :
    b ∈ r.bytes ↔ r.addr ≤ b ∧ b < r.addr + r.size := Iff.rfl

theorem bytes_eq_empty {r : Region} (h : r.size = 0) : r.bytes = ∅ := by
  simp [bytes, h]

end Region

/-- Checked `usize` addition. -/
def checkedAdd (a b : Nat) : Option Nat :=
  if a + b < 2 ^ 64 then some (a + b) else none

theorem checkedAdd_eq_some {a b c : Nat} :
    checkedAdd a b = some c ↔ a + b < 2 ^ 64 ∧ c = a + b := by
  unfold checkedAdd
  split <;> simp_all [eq_comm]

/-- What remains of `m` without `r`: the part that stays in the slot and the
upper half of a split. -/
def regionDiff (m r : Region) : Option (Region × Region) := do
  let rsvEnd ← checkedAdd r.addr r.size
  if rsvEnd ≤ m.addr then
    return (m, .empty)
  let memEnd ← checkedAdd m.addr m.size
  if memEnd ≤ r.addr then
    return (m, .empty)
  if r.addr ≤ m.addr ∧ rsvEnd < memEnd then
    return (⟨rsvEnd, m.size - (rsvEnd - m.addr)⟩, .empty)
  if r.addr ≤ m.addr then
    return (.empty, .empty)
  if memEnd ≤ rsvEnd then
    return (⟨m.addr, r.addr - m.addr⟩, .empty)
  return (⟨m.addr, r.addr - m.addr⟩, ⟨rsvEnd, memEnd - rsvEnd⟩)

/-- A difference keeps exactly the bytes of `m` outside `r`, each of them once. -/
theorem regionDiff_bytes {m r lo hi : Region} (h : regionDiff m r = some (lo, hi)) :
    lo.bytes ∪ hi.bytes = m.bytes \ r.bytes ∧ Disjoint lo.bytes hi.bytes := by
  simp only [regionDiff, Option.bind_eq_bind, Option.bind_eq_some_iff,
    checkedAdd_eq_some] at h
  obtain ⟨rsvEnd, ⟨_, rfl⟩, h⟩ := h
  rw [Set.disjoint_left, Set.ext_iff]
  simp only [Set.mem_union, Set.mem_sdiff, Region.mem_bytes]
  split at h
  · cases h
    simp only [Region.empty]
    constructor <;> intro b <;> omega
  simp only [Option.bind_eq_some_iff, checkedAdd_eq_some] at h
  obtain ⟨memEnd, ⟨_, rfl⟩, h⟩ := h
  split_ifs at h <;> cases h <;> simp only [Region.empty] <;>
    constructor <;> intro b <;> omega

/-- Store the upper half of a split at `new_mem[new_mem_index]`; index 32 panics. -/
def pushNew (newMem : List Region) (upper : Region) : Option (List Region) :=
  if upper.size = 0 then some newMem
  else if newMem.length < 32 then some (newMem ++ [upper])
  else none

/-- Trim one slot by every reserved entry in order and queue the upper halves. -/
def trimSlot : List Region → Region → List Region → Option (Region × List Region)
  | [], m, newMem => some (m, newMem)
  | r :: rsvs, m, newMem => do
      let diff ← regionDiff m r
      let newMem ← pushNew newMem diff.2
      trimSlot rsvs diff.1 newMem

/-- One pass over the slots: empty slots are filtered out, then `skip` of the
remaining ones are passed over and the rest are trimmed. -/
def trimSlots (rsvs : List Region) :
    Nat → List Region → List Region → Option (List Region × List Region)
  | _, [], newMem => some ([], newMem)
  | skip, m :: ms, newMem =>
      if m.size = 0 then do
        let (ms, newMem) ← trimSlots rsvs skip ms newMem
        return (m :: ms, newMem)
      else if 0 < skip then do
        let (ms, newMem) ← trimSlots rsvs (skip - 1) ms newMem
        return (m :: ms, newMem)
      else do
        let (m, newMem) ← trimSlot rsvs m newMem
        let (ms, newMem) ← trimSlots rsvs 0 ms newMem
        return (m :: ms, newMem)

/-- The variables of the outer loop at the start of a round. -/
structure LoopState where
  mem : List Region
  memSkip : Nat
  memIndex : Nat
  deriving DecidableEq, Repr

/-- `mem[mem_index..32].copy_from_slice(&new_mem[0..32 - mem_index])`. -/
def copyNew (mem : List Region) (memIndex : Nat) (newMem : List Region) : List Region :=
  mem.take memIndex ++
    (newMem ++ List.replicate (32 - newMem.length) Region.empty).take (32 - memIndex)

/-- One round of the outer loop: the final slots, or the next state. -/
def round (rsvs : List Region) (s : LoopState) : Option (List Region ⊕ LoopState) := do
  let (mem, newMem) ← trimSlots rsvs s.memSkip s.mem []
  if newMem.length = 0 ∨ 32 ≤ s.memIndex then
    return .inl mem
  return .inr
    { mem := copyNew mem s.memIndex newMem
      memSkip := s.memIndex
      memIndex := s.memIndex + newMem.length }

/-- What a round does: it trims the slots, and either stops or copies the
queued halves behind the slots in use. -/
theorem round_eq_some {rsvs : List Region} {s : LoopState}
    {res : List Region ⊕ LoopState} (h : round rsvs s = some res) :
    ∃ mem newMem, trimSlots rsvs s.memSkip s.mem [] = some (mem, newMem) ∧
      ((newMem.length = 0 ∨ 32 ≤ s.memIndex) ∧ res = .inl mem ∨
        0 < newMem.length ∧ s.memIndex < 32 ∧
          res = .inr ⟨copyNew mem s.memIndex newMem, s.memIndex,
            s.memIndex + newMem.length⟩) := by
  simp only [round, Option.bind_eq_bind, Option.bind_eq_some_iff] at h
  obtain ⟨⟨mem, newMem⟩, htrim, h⟩ := h
  refine ⟨mem, newMem, htrim, ?_⟩
  by_cases hstop : newMem.length = 0 ∨ 32 ≤ s.memIndex
  · simp only [if_pos hstop, pure, Option.some.injEq] at h
    exact Or.inl ⟨hstop, h.symm⟩
  · simp only [if_neg hstop, pure, Option.some.injEq] at h
    exact Or.inr ⟨by omega, by omega, h.symm⟩

/-- A further round starts with a larger `mem_index`. -/
theorem round_memIndex_lt {rsvs : List Region} {s t : LoopState}
    (h : round rsvs s = some (.inr t)) : s.memIndex < t.memIndex ∧ s.memIndex < 32 := by
  obtain ⟨mem, newMem, _, ⟨_, he⟩ | ⟨hnew, hlt, he⟩⟩ := round_eq_some h
  · cases he
  · cases he
    exact ⟨Nat.lt_add_of_pos_right hnew, hlt⟩

/-- The outer loop. -/
def loop (rsvs : List Region) (s : LoopState) : Option (List Region) :=
  match _h : round rsvs s with
  | none => none
  | some (.inl mem) => some mem
  | some (.inr t) => loop rsvs t
  termination_by 32 - s.memIndex
  decreasing_by
    have := round_memIndex_lt _h
    omega

theorem loop_done {rsvs : List Region} {s : LoopState} {mem : List Region}
    (h : round rsvs s = some (.inl mem)) : loop rsvs s = some mem := by
  rw [loop, h]

theorem loop_next {rsvs : List Region} {s t : LoopState}
    (h : round rsvs s = some (.inr t)) : loop rsvs s = loop rsvs t := by
  rw [loop, h]

/-- The reserved entries of non-zero size, then the kernel image. -/
def reservedEntries (reservedMem : Vector Region 32) (kernelRegion : Region) : List Region :=
  reservedMem.toList.filter (fun r => r.size ≠ 0) ++ [kernelRegion]

/-- The state before the first round. -/
def startState (mem : Vector Region 32) : LoopState :=
  { mem := mem.toList
    memSkip := 0
    memIndex := (mem.toList.findIdx? (fun r => r.size = 0)).getD 32 }

/-- `sort_unstable_by(|a, b| b.1.cmp(&a.1))`. -/
def sortBySize (out : List Region) : List Region :=
  out.mergeSort (fun a b => decide (b.size ≤ a.size))

@[simp] theorem mem_sortBySize {out : List Region} {m : Region} :
    m ∈ sortBySize out ↔ m ∈ out := List.mem_mergeSort

/-- The available regions, sorted by decreasing size. -/
def calcAvailableMem (mem reservedMem : Vector Region 32) (kernelRegion : Region) :
    Option (List Region) := do
  let out ← loop (reservedEntries reservedMem kernelRegion) (startState mem)
  return sortBySize out

/-- An array of 32 slots that starts with the given regions. -/
def slots (rs : List Region) : Vector Region 32 :=
  Vector.ofFn fun i => rs.getD i .empty

end Kruspix.Mm.Memory
