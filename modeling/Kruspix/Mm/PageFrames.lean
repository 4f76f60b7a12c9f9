import Kruspix.Mm.FrameSet
import Kruspix.Mm.Layout
import Mathlib.Data.Finset.Card

/-!
# Page frames

The rest of the kernel sees the frame allocator through `alloc_frame` and
`dealloc_frame`. `Contract` says what it relies on: a frame is handed out to one
client at a time, and the allocator leaves the words of the frames that are
handed out alone. The bitmap allocator keeps this contract.
-/

namespace Kruspix.Mm.PageFrames

open Lib.WordMemory Layout FrameAllocator FrameAllocator.BitMapFrameAllocator FrameSet

/-- The trait `PageFrameAllocator`. The null pointer is 0. A call may fault, and
the return of a pointer that is no frame panics. -/
structure PageFrameAllocator where
  allocFrame : Words → Option (Nat × Words)
  deallocFrame : Words → Nat → Option Words

/-- The addresses inside the frames of `out`. -/
def frameWords (out : Set Nat) : Set Nat := {a | ∃ f ∈ out, f ≤ a ∧ a < f + pageSize}

@[simp] theorem mem_frameWords {out : Set Nat} {a : Nat} :
    a ∈ frameWords out ↔ ∃ f ∈ out, f ≤ a ∧ a < f + pageSize := Iff.rfl

/-- A page frame the linear map reaches. -/
structure IsFrame (p : Nat) : Prop where
  aligned : pageSize ∣ p
  pos : 0 < p
  reachable : p + pageSize ≤ slotSize

/-- Frames that share an address are the same frame. -/
theorem IsFrame.eq_of_mem {t u : Nat} (ht : IsFrame t) (hu : IsFrame u) {a : Nat}
    (hat : t ≤ a) (hat' : a < t + pageSize) (hau : u ≤ a) (hau' : a < u + pageSize) : t = u := by
  obtain ⟨x, rfl⟩ := ht.aligned
  obtain ⟨y, rfl⟩ := hu.aligned
  simp only [pageSize] at *
  omega

/-- What clients rely on. `Owns phys out` says that the frames of `out` are
handed out, and `free phys` counts the frames that are left. -/
structure Contract (fr : PageFrameAllocator) (Owns : Words → Set Nat → Prop)
    (free : Words → Nat) : Prop where
  frame : ∀ {phys out p}, Owns phys out → p ∈ out → IsFrame p
  alloc_none : ∀ {phys out}, Owns phys out → free phys = 0 → fr.allocFrame phys = some (0, phys)
  alloc_some : ∀ {phys out}, Owns phys out → 0 < free phys → ∃ p phys',
    fr.allocFrame phys = some (p, phys') ∧ p ∉ out ∧ Owns phys' (insert p out) ∧
      free phys' + 1 = free phys ∧ Set.EqOn phys' phys (frameWords (insert p out))
  dealloc : ∀ {phys out p}, Owns phys out → p ∈ out → ∃ phys',
    fr.deallocFrame phys p = some phys' ∧ Owns phys' (out \ {p}) ∧
      free phys' = free phys + 1 ∧ Set.EqOn phys' phys (frameWords out)
  congr : ∀ {phys phys' out}, Owns phys out → Set.EqOn phys' phys (frameWords out)ᶜ →
    Owns phys' out ∧ free phys' = free phys

/-- The bitmap allocator behind the trait. -/
def bitmapFrames (fa : BitMapFrameAllocator) : PageFrameAllocator :=
  { allocFrame := fa.allocFrame
    deallocFrame := fa.deallocFrame }

/-- The number of frames whose bit is clear. -/
def freeFrames (fa : BitMapFrameAllocator) (phys : Words) : Nat :=
  ((Finset.range fa.totalFrames).filter fun i => fa.bit phys i = false).card

/-- What the kernel's instance of the allocator adds to well-formedness: frames
are pages, and the linear map reaches all of them. -/
structure Pages (fa : BitMapFrameAllocator) : Prop where
  wellFormed : fa.WellFormed
  frameSize : fa.frameSize = pageSize
  reachable : fa.start + fa.totalFrames * fa.frameSize ≤ slotSize

section Bitmap

variable {fa : BitMapFrameAllocator} {phys phys' : Words} {out : Set Nat}

theorem freeFrames_eq_zero_iff (h : Represents fa phys out) :
    freeFrames fa phys = 0 ↔ available fa out = ∅ := by
  rw [freeFrames, Finset.card_eq_zero, Finset.filter_eq_empty_iff, Set.eq_empty_iff_forall_notMem]
  simp only [h.mem_available_iff, Finset.mem_range, not_and]

/-- Handing out a frame takes one from the free frames. -/
theorem freeFrames_alloc {i : Nat} (h : Represents fa phys out)
    (h' : Represents fa phys' (insert (fa.frameAddr i) out)) (hwf : fa.WellFormed)
    (hi : i ∈ available fa out) : freeFrames fa phys' + 1 = freeFrames fa phys := by
  have herase : ((Finset.range fa.totalFrames).filter fun j => fa.bit phys' j = false) =
      ((Finset.range fa.totalFrames).filter fun j => fa.bit phys j = false).erase i := by
    ext j
    simp only [Finset.mem_erase, Finset.mem_filter, Finset.mem_range, ← h.mem_available_iff,
      ← h'.mem_available_iff, mem_available, Set.mem_insert_iff, not_or,
      (frameAddr_injective hwf).eq_iff]
    constructor
    · rintro ⟨hB, hT, hne, hout⟩
      exact ⟨hne, hB, hT, hout⟩
    · rintro ⟨hne, hB, hT, hout⟩
      exact ⟨hB, hT, hne, hout⟩
  have hmem : i ∈ (Finset.range fa.totalFrames).filter fun j => fa.bit phys j = false := by
    rw [Finset.mem_filter, Finset.mem_range]
    exact h.mem_available_iff.mp hi
  rw [freeFrames, freeFrames, herase, Finset.card_erase_add_one hmem]

/-- Frames that are handed out lie behind the bitmap. -/
theorem disjoint_bitmap (h : Represents fa phys out) (hp : Pages fa) :
    ∀ a ∈ frameWords out, a ∉ fa.bitmapAddrs := by
  rintro a ⟨f, hf, hle, hlt⟩
  obtain ⟨i, hB, hT, rfl⟩ := h.frames f hf
  exact hp.wellFormed.not_mem_bitmapAddrs hB hle

theorem isFrame_frameAddr (hp : Pages fa) {i : Nat} (hB : fa.bitmapFrames ≤ i)
    (hT : i < fa.totalFrames) : IsFrame (fa.frameAddr i) := by
  have hreach := hp.reachable
  have hmul : (i + 1) * fa.frameSize ≤ fa.totalFrames * fa.frameSize := Nat.mul_le_mul_right _ hT
  rw [Nat.add_mul, Nat.one_mul] at hmul
  refine ⟨?_, frameAddr_pos hp.wellFormed hB, ?_⟩
  · rw [← hp.frameSize]
    exact Nat.dvd_add hp.wellFormed.dvd_start (Nat.dvd_mul_left _ _)
  · rw [frameAddr, ← hp.frameSize]
    omega

/-- The bitmap allocator keeps the contract, if its bitmap is not at the null pointer. -/
theorem bitmap_contract (hp : Pages fa) (hstart : 0 < fa.start) :
    Contract (bitmapFrames fa) (Represents fa) (freeFrames fa) := by
  have hwf := hp.wellFormed
  refine ⟨?_, ?_, ?_, ?_, ?_⟩
  · intro phys out p h hmem
    obtain ⟨i, hB, hT, rfl⟩ := h.frames p hmem
    exact isFrame_frameAddr hp hB hT
  · intro phys out h hfree
    rcases allocFrame_spec hwf hstart h with ⟨_, hres⟩ | ⟨i, _, hleast, _⟩
    · exact hres
    · exact absurd hleast.1 ((freeFrames_eq_zero_iff h).mp hfree ▸ Set.notMem_empty i)
  · intro phys out h hfree
    rcases allocFrame_spec hwf hstart h with ⟨hnone, _⟩ | ⟨i, phys', hleast, hres, hrep, hother⟩
    · exact absurd ((freeFrames_eq_zero_iff h).mpr hnone) hfree.ne'
    · exact ⟨_, phys', hres, hleast.1.2.2, hrep, freeFrames_alloc h hrep hwf hleast.1,
        hother.mono (disjoint_bitmap hrep hp)⟩
  · intro phys out p h hmem
    obtain ⟨phys', hres, hrep, hother⟩ := deallocFrame_spec hwf hstart h hmem
    obtain ⟨i, hB, hT, rfl⟩ := h.frames p hmem
    have hinsert : insert (fa.frameAddr i) (out \ {fa.frameAddr i}) = out :=
      Set.insert_sdiff_self_of_mem hmem
    have hback : Represents fa phys (insert (fa.frameAddr i) (out \ {fa.frameAddr i})) :=
      hinsert.symm ▸ h
    exact ⟨phys', hres, hrep,
      (freeFrames_alloc hrep hback hwf ⟨hB, hT, fun hin => hin.2 rfl⟩).symm,
      hother.mono (disjoint_bitmap h hp)⟩
  · intro phys phys' out h heq
    have hbits : Set.EqOn phys' phys fa.bitmapAddrs :=
      heq.mono fun a ha hin => disjoint_bitmap h hp a hin ha
    refine ⟨h.congr hwf hbits, ?_⟩
    rw [freeFrames, freeFrames]
    congr 1
    apply Finset.filter_congr
    intro i hi
    rw [bit_congr hwf hbits (Finset.mem_range.mp hi)]

end Bitmap

end Kruspix.Mm.PageFrames
