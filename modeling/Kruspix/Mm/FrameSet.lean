import Kruspix.Lib.Transition
import Kruspix.Mm.FrameAllocator
import Mathlib.Data.Finset.Basic

/-!
# The frame allocator as a set of frames

The bitmap in memory stands for the set of frames that are handed out. Each
call of the allocator is a step on that set, and a run of calls from `new`
keeps the bitmap and the set in agreement.
-/

namespace Kruspix.Mm.FrameSet

open Lib.Alignment Lib.WordMemory Lib.Bitmap Lib.Transition FrameAllocator
open FrameAllocator.BitMapFrameAllocator

variable {fa : BitMapFrameAllocator} {phys phys' : Words} {out : Set Nat}

/-- The frames a client can get while the frames of `out` are handed out. -/
def available (fa : BitMapFrameAllocator) (out : Set Nat) : Set Nat :=
  {i | fa.bitmapFrames ≤ i ∧ i < fa.totalFrames ∧ fa.frameAddr i ∉ out}

@[simp] theorem mem_available {i : Nat} : i ∈ available fa out ↔
    fa.bitmapFrames ≤ i ∧ i < fa.totalFrames ∧ fa.frameAddr i ∉ out := Iff.rfl

/-- The bitmap in memory stands for the set of frames that are handed out. -/
structure Represents (fa : BitMapFrameAllocator) (phys : Words) (out : Set Nat) : Prop where
  frames : ∀ p ∈ out, ∃ i, fa.bitmapFrames ≤ i ∧ i < fa.totalFrames ∧ p = fa.frameAddr i
  bits : ∀ i < fa.totalFrames,
    fa.bit phys i = true ↔ i < fa.bitmapFrames ∨ fa.frameAddr i ∈ out

theorem frameAddr_injective (hwf : fa.WellFormed) : Function.Injective fa.frameAddr := by
  intro i j h
  have hmul : i * fa.frameSize = j * fa.frameSize := Nat.add_left_cancel h
  exact Nat.eq_of_mul_eq_mul_right hwf.frameSize_pos hmul

/-- Frames with different numbers share no address. -/
theorem frameAddr_add_le {i j : Nat} (h : i < j) :
    fa.frameAddr i + fa.frameSize ≤ fa.frameAddr j := by
  have hmul : (i + 1) * fa.frameSize ≤ j * fa.frameSize := Nat.mul_le_mul_right _ h
  rw [Nat.add_mul, Nat.one_mul] at hmul
  simp only [frameAddr]
  omega

/-- A frame behind the bitmap is not the null pointer. -/
theorem frameAddr_pos (hwf : fa.WellFormed) {i : Nat} (h : fa.bitmapFrames ≤ i) :
    0 < fa.frameAddr i := by
  have hi : 0 < i := lt_of_lt_of_le hwf.bitmapFrames_pos h
  exact Nat.add_pos_right _ (Nat.mul_pos hi hwf.frameSize_pos)

/-- A fresh bitmap stands for the empty set. -/
theorem represents_initBitmap (hwf : fa.WellFormed) (phys : Words) :
    Represents fa (fa.initBitmap phys) ∅ := by
  refine ⟨fun p hp => hp.elim, fun i hi => ?_⟩
  rw [bit_initBitmap hwf phys hi, decide_eq_true_iff]
  exact (or_iff_left (Set.notMem_empty _)).symm

/-- Memory outside the bitmap is free to change. -/
theorem Represents.congr {phys' : Words} (h : Represents fa phys out) (hwf : fa.WellFormed)
    (heq : Set.EqOn phys' phys fa.bitmapAddrs) : Represents fa phys' out := by
  refine ⟨h.frames, fun i hi => ?_⟩
  rw [bit_congr hwf heq hi]
  exact h.bits i hi

/-- A frame is available when its bit is clear. -/
theorem Represents.mem_available_iff (h : Represents fa phys out) {i : Nat} :
    i ∈ available fa out ↔ i < fa.totalFrames ∧ fa.bit phys i = false := by
  rw [mem_available]
  constructor
  · rintro ⟨hB, hT, hout⟩
    refine ⟨hT, Bool.eq_false_iff.mpr fun hbit => ?_⟩
    rcases (h.bits i hT).mp hbit with hlt | hmem
    · omega
    · exact hout hmem
  · rintro ⟨hT, hbit⟩
    have hnot := mt (h.bits i hT).mpr (Bool.eq_false_iff.mp hbit)
    exact ⟨by omega, hT, fun hmem => hnot (.inr hmem)⟩

theorem bit_set (phys : Words) (i j : Nat) :
    fa.bit (store phys (fa.start + 8 * (i / 64))
      (fa.words phys (i / 64) ||| (1#64 <<< (i % 64)))) j =
        (decide (j = i) || fa.bit phys j) :=
  @testBit_set 64 (by omega) (fa.words phys) (fa.words (store phys _ _)) i
    (store_same _ _ _) (fun _ hk => store_other _ _ (by omega)) j

theorem bit_clear (phys : Words) (i j : Nat) :
    fa.bit (store phys (fa.start + 8 * (i / 64))
      (fa.words phys (i / 64) &&& ~~~(1#64 <<< (i % 64)))) j =
        (decide (j ≠ i) && fa.bit phys j) :=
  @testBit_clear 64 (by omega) (fa.words phys) (fa.words (store phys _ _)) i
    (store_same _ _ _) (fun _ hk => store_other _ _ (by omega)) j

/-- Writing bit `i` changes the bitmap words only. -/
theorem store_bit_eqOn (hwf : fa.WellFormed) (phys : Words) {i : Nat} (hi : i < fa.totalFrames)
    (w : BitVec 64) :
    Set.EqOn (store phys (fa.start + 8 * (i / 64)) w) phys fa.bitmapAddrsᶜ := by
  refine store_eqOn phys w (fun hmem => hmem ?_)
  have := hwf.bitmap_covers
  rw [mem_bitmapAddrs]
  omega

/-- `alloc_frame` hands out the first available frame, and null if there is none. -/
theorem allocFrame_spec (hwf : fa.WellFormed) (hstart : 0 < fa.start)
    (h : Represents fa phys out) :
    (available fa out = ∅ ∧ fa.allocFrame phys = some (0, phys)) ∨
      ∃ i phys', IsLeast (available fa out) i ∧
        fa.allocFrame phys = some (fa.frameAddr i, phys') ∧
        Represents fa phys' (insert (fa.frameAddr i) out) ∧
        Set.EqOn phys' phys fa.bitmapAddrsᶜ := by
  have hscan := scan_spec hwf hstart phys (show 0 + fa.bitmapSize = fa.bitmapSize by omega)
    (fun j hj => by omega)
  rcases hscan with ⟨hres, hfull⟩ | ⟨i, hi, hclear, hbelow, hres⟩
  · left
    refine ⟨Set.eq_empty_of_forall_notMem fun i hi => ?_, hres⟩
    obtain ⟨hT, hbit⟩ := h.mem_available_iff.mp hi
    exact Bool.eq_false_iff.mp hbit (hfull i hT)
  · right
    have hmem : i ∈ available fa out := h.mem_available_iff.mpr ⟨hi, hclear⟩
    refine ⟨i, _, ⟨hmem, fun j hj => ?_⟩, hres, ⟨?_, fun j hj => ?_⟩,
      store_bit_eqOn hwf phys hi _⟩
    · obtain ⟨_, hbit⟩ := h.mem_available_iff.mp hj
      exact Nat.le_of_not_lt fun hlt => Bool.eq_false_iff.mp hbit (hbelow j hlt)
    · rintro p (rfl | hp)
      · exact ⟨i, hmem.1, hi, rfl⟩
      · exact h.frames p hp
    · rw [bit_set, Bool.or_eq_true, decide_eq_true_iff, h.bits j hj, Set.mem_insert_iff,
        (frameAddr_injective hwf).eq_iff]
      exact or_left_comm

/-- `dealloc_frame` of a frame that is handed out takes exactly it out of the set. -/
theorem deallocFrame_spec (hwf : fa.WellFormed) (hstart : 0 < fa.start)
    (h : Represents fa phys out) {p : Nat} (hp : p ∈ out) :
    ∃ phys', fa.deallocFrame phys p = some phys' ∧ Represents fa phys' (out \ {p}) ∧
      Set.EqOn phys' phys fa.bitmapAddrsᶜ := by
  obtain ⟨i, hB, hi, rfl⟩ := h.frames p hp
  have hindex : (fa.frameAddr i - fa.start) / fa.frameSize = i := by
    rw [frameAddr, Nat.add_sub_cancel_left, Nat.mul_div_cancel _ hwf.frameSize_pos]
  have hres : fa.deallocFrame phys (fa.frameAddr i) =
      some (store phys (fa.start + 8 * (i / 64))
        (fa.words phys (i / 64) &&& ~~~(1#64 <<< (i % 64)))) := by
    have hge : ¬ fa.frameAddr i < fa.start := Nat.not_lt.mpr (Nat.le_add_right _ _)
    have hnull : ¬ fa.start + 8 * (i / 64) = 0 := by omega
    simp only [deallocFrame, if_neg hge, hindex, if_neg hnull, words]
  refine ⟨_, hres, ⟨fun q hq => h.frames q hq.1, fun j hj => ?_⟩, store_bit_eqOn hwf phys hi _⟩
  rw [bit_clear, Bool.and_eq_true, decide_eq_true_iff, h.bits j hj, Set.mem_sdiff,
    Set.mem_singleton_iff, (frameAddr_injective hwf).eq_iff]
  constructor
  · rintro ⟨hne, hlt | hmem⟩
    · exact .inl hlt
    · exact .inr ⟨hmem, hne⟩
  · rintro (hlt | ⟨hmem, hne⟩)
    · exact ⟨by omega, .inl hlt⟩
    · exact ⟨hne, .inr hmem⟩

/-- The allocator among its clients. `outstanding` records the frames they hold. -/
structure State where
  phys : Words
  outstanding : Finset Nat

/-- A client's call, or its write to a frame. -/
inductive Event where
  | alloc
  | dealloc (p : Nat)
  | write (a : Nat) (w : BitVec 64)

/-- One event. -/
def step (fa : BitMapFrameAllocator) (s : State) : Event → Option State
  | .alloc =>
      (fa.allocFrame s.phys).map fun (p, phys) =>
        ⟨phys, if p = 0 then s.outstanding else insert p s.outstanding⟩
  | .dealloc p =>
      (fa.deallocFrame s.phys p).map fun phys => ⟨phys, s.outstanding.erase p⟩
  | .write a w => some { s with phys := store s.phys a w }

/-- Clients return and write only frames they hold. -/
def Allowed (fa : BitMapFrameAllocator) (s : State) : Event → Prop
  | .alloc => True
  | .dealloc p => p ∈ s.outstanding
  | .write a _ => ∃ p ∈ s.outstanding, p ≤ a ∧ a < p + fa.frameSize

instance (fa : BitMapFrameAllocator) (s : State) (e : Event) : Decidable (Allowed fa s e) :=
  match e with
  | .alloc => .isTrue trivial
  | .dealloc p => inferInstanceAs (Decidable (p ∈ s.outstanding))
  | .write a _ =>
      inferInstanceAs (Decidable (∃ p ∈ s.outstanding, p ≤ a ∧ a < p + fa.frameSize))

/-- The allocator of `[start, start + size)` implements the set of outstanding
frames: what its next call returns, and what a returned frame changes. -/
structure Implements (start size : Nat) (fa : BitMapFrameAllocator) (s : State) : Prop where
  bits : Represents fa s.phys s.outstanding
  alloc_returns : (fa.allocFrame s.phys).isSome
  alloc_least : ∀ i, IsLeast (available fa s.outstanding) i →
    (fa.allocFrame s.phys).map Prod.fst = some (fa.frameAddr i)
  alloc_null : (fa.allocFrame s.phys).map Prod.fst = some 0 ↔ available fa s.outstanding = ∅
  alloc_sound : ∀ p, (fa.allocFrame s.phys).map Prod.fst = some p → p ≠ 0 →
    fa.frameSize ∣ p ∧ start ≤ p ∧ p + fa.frameSize ≤ start + size ∧
      fa.start + fa.bitmapFrames * fa.frameSize ≤ p ∧
      ∀ q ∈ s.outstanding, q + fa.frameSize ≤ p ∨ p + fa.frameSize ≤ q
  dealloc_exact : ∀ p ∈ s.outstanding, ∃ i t, p = fa.frameAddr i ∧
    step fa s (.dealloc p) = some t ∧
      available fa t.outstanding = insert i (available fa s.outstanding) ∧
      ∀ j < fa.totalFrames, fa.bit t.phys j = false ↔ j = i ∨ fa.bit s.phys j = false

/-- A step keeps the bitmap and the set in agreement. -/
theorem Represents.step (hwf : fa.WellFormed) (hstart : 0 < fa.start) {s t : State} {e : Event}
    (h : Represents fa s.phys s.outstanding) (hallowed : Allowed fa s e)
    (hstep : FrameSet.step fa s e = some t) : Represents fa t.phys t.outstanding := by
  cases e with
  | alloc =>
      rcases allocFrame_spec hwf hstart h with ⟨_, hres⟩ | ⟨i, phys', hleast, hres, hrep, _⟩
      · simp only [FrameSet.step, hres, Option.map_some, if_pos, Option.some.injEq] at hstep
        exact hstep ▸ h
      · have hne : fa.frameAddr i ≠ 0 := (frameAddr_pos hwf hleast.1.1).ne'
        simp only [FrameSet.step, hres, Option.map_some, if_neg hne, Option.some.injEq] at hstep
        subst hstep
        rw [Finset.coe_insert]
        exact hrep
  | dealloc p =>
      obtain ⟨phys', hres, hrep, _⟩ := deallocFrame_spec hwf hstart h hallowed
      simp only [FrameSet.step, hres, Option.map_some, Option.some.injEq] at hstep
      subst hstep
      rw [Finset.coe_erase]
      exact hrep
  | write a w =>
      cases hstep
      obtain ⟨p, hp, hle, _⟩ := hallowed
      obtain ⟨i, hB, _, rfl⟩ := h.frames p hp
      exact h.congr hwf (store_eqOn _ _ (hwf.not_mem_bitmapAddrs hB hle))

/-- A frame of the region behind the bitmap. -/
theorem frame_within {start size frameSize : Nat} (h : Accepts size frameSize)
    (hfa : layout start size frameSize = fa) {i : Nat} (hB : fa.bitmapFrames ≤ i)
    (hT : i < fa.totalFrames) :
    fa.frameSize ∣ fa.frameAddr i ∧ start ≤ fa.frameAddr i ∧
      fa.frameAddr i + fa.frameSize ≤ start + size ∧
      fa.start + fa.bitmapFrames * fa.frameSize ≤ fa.frameAddr i := by
  have hregion := layout_region start (Nat.pos_of_isPowerOfTwo h.1) h.2.2
  have hF : fa.frameSize = frameSize := by
    rw [← hfa]
    rfl
  rw [hfa, ← hF] at hregion
  obtain ⟨hstart, hend, hdvd, _⟩ := hregion
  have hmul : (i + 1) * fa.frameSize ≤ fa.totalFrames * fa.frameSize := Nat.mul_le_mul_right _ hT
  have hmulB : fa.bitmapFrames * fa.frameSize ≤ i * fa.frameSize := Nat.mul_le_mul_right _ hB
  rw [Nat.add_mul, Nat.one_mul] at hmul
  refine ⟨Nat.dvd_add hdvd (Nat.dvd_mul_left _ _), ?_, ?_, ?_⟩ <;> simp only [frameAddr] <;> omega

/-- While bitmap and set agree, the allocator implements the set. -/
theorem Represents.implements {start size frameSize : Nat} (h : Accepts size frameSize)
    (hfa : layout start size frameSize = fa) (hstart : 0 < fa.start) {s : State}
    (hrep : Represents fa s.phys s.outstanding) : Implements start size fa s := by
  have hwf : fa.WellFormed := hfa ▸ layout_wellFormed start h
  refine ⟨hrep, ?_, fun i hi => ?_, ?_, ?_, fun p hp => ?_⟩
  · rcases allocFrame_spec hwf hstart hrep with ⟨_, hres⟩ | ⟨_, _, _, hres, _⟩
    · rw [hres]
      rfl
    · rw [hres]
      rfl
  · rcases allocFrame_spec hwf hstart hrep with ⟨hnone, _⟩ | ⟨j, phys', hleast, hres, _⟩
    · exact absurd hi.1 (hnone ▸ Set.notMem_empty i)
    · rw [hres, hi.unique hleast]
      rfl
  · rcases allocFrame_spec hwf hstart hrep with ⟨hnone, hres⟩ | ⟨j, phys', hleast, hres, _⟩
    · simp [hnone, hres]
    · have hpos := frameAddr_pos hwf hleast.1.1
      rw [hres]
      refine iff_of_false (fun hnull => ?_) (Set.nonempty_iff_ne_empty.mp ⟨j, hleast.1⟩)
      exact hpos.ne' (Option.some.inj hnull)
  · rintro p hp hne
    rcases allocFrame_spec hwf hstart hrep with ⟨_, hres⟩ | ⟨j, phys', hleast, hres, _⟩
    · rw [hres] at hp
      exact absurd (Option.some.inj hp).symm hne
    · rw [hres] at hp
      obtain rfl := Option.some.inj hp
      obtain ⟨hdvd, hstart, hend, hbitmap⟩ := frame_within h hfa hleast.1.1 hleast.1.2.1
      refine ⟨hdvd, hstart, hend, hbitmap, fun q hq => ?_⟩
      obtain ⟨k, _, _, rfl⟩ := hrep.frames q hq
      have hjk : j ≠ k := fun hjk => hleast.1.2.2 (hjk ▸ hq)
      rcases Nat.lt_or_gt_of_ne hjk with hlt | hlt
      · exact .inr (frameAddr_add_le hlt)
      · exact .inl (frameAddr_add_le hlt)
  · obtain ⟨phys', hres, hrep', _⟩ := deallocFrame_spec hwf hstart hrep hp
    obtain ⟨i, hB, hT, hpi⟩ := hrep.frames p hp
    have hstep : FrameSet.step fa s (.dealloc p) = some ⟨phys', s.outstanding.erase p⟩ := by
      simp only [FrameSet.step, hres, Option.map_some]
    have havail : available fa (s.outstanding.erase p : Finset Nat) =
        insert i (available fa s.outstanding) := by
      ext j
      simp only [mem_available, Set.mem_insert_iff, Finset.coe_erase, Set.mem_sdiff, not_and_or,
        Set.mem_singleton_iff, not_not, hpi, (frameAddr_injective hwf).eq_iff]
      constructor
      · rintro ⟨hBj, hTj, hj | rfl⟩
        · exact .inr ⟨hBj, hTj, hj⟩
        · exact .inl rfl
      · rintro (rfl | ⟨hBj, hTj, hj⟩)
        · exact ⟨hB, hT, .inr rfl⟩
        · exact ⟨hBj, hTj, .inl hj⟩
    refine ⟨i, _, hpi, hstep, havail, fun j hj => ?_⟩
    rw [← Finset.coe_erase] at hrep'
    have hfree := @Represents.mem_available_iff _ _ _ hrep' j
    have hfree' := @Represents.mem_available_iff _ _ _ hrep j
    rw [havail, Set.mem_insert_iff] at hfree
    simp only [hj, true_and] at hfree hfree'
    rw [← hfree, hfree']

/-- The aligned start is null for a region that starts at 0, and for no other. -/
theorem layout_start_pos_iff {start size frameSize : Nat} (hpos : 0 < frameSize) :
    0 < (layout start size frameSize).start ↔ 0 < start := by
  obtain ⟨_, hle, hlt⟩ := nextMultipleOf_spec start hpos
  refine ⟨fun h => Nat.pos_of_ne_zero fun hzero => ?_, fun h => h.trans_le hle⟩
  have hzero' : (layout start size frameSize).start = 0 := by
    rw [hzero] at hlt ⊢
    refine Nat.eq_zero_of_dvd_of_lt (nextMultipleOf_spec 0 hpos).1 ?_
    rwa [Nat.zero_add] at hlt
  exact h.ne' hzero'

/-- The allocator of a region implements the set of outstanding frames in every state that calls
reach from `new`, exactly if the region does not start at the null pointer. -/
theorem reachable_implements_iff {start size frameSize : Nat} {phys : Words}
    (hnew : new start size frameSize phys = some (fa, phys')) :
    (∀ s, Reachable (· = ⟨phys', ∅⟩) (Step (step fa) (Allowed fa)) s →
      Implements start size fa s) ↔ 0 < start := by
  simp only [new, Option.ite_none_right_eq_some, Option.some.injEq, Prod.mk.injEq] at hnew
  obtain ⟨⟨haccepts, _⟩, hfa, hphys⟩ := hnew
  have hwf : fa.WellFormed := hfa ▸ layout_wellFormed start haccepts
  rw [← @layout_start_pos_iff start size frameSize (Nat.pos_of_isPowerOfTwo haccepts.1), hfa]
  constructor
  · intro h
    refine Nat.pos_of_ne_zero fun hstart => ?_
    have hreturns := (h _ (.start rfl)).alloc_returns
    rw [allocFrame_null hwf hstart] at hreturns
    cases hreturns
  · intro hstart s hs
    refine Represents.implements haccepts hfa hstart
      (hs.invariant (P := fun s => Represents fa s.phys s.outstanding) ?_ ?_)
    · rintro s rfl
      rw [Finset.coe_empty, ← hphys, hfa]
      exact represents_initBitmap hwf phys
    · rintro s t _ h ⟨e, hallowed, hstep⟩
      exact h.step hwf hstart hallowed hstep

/-- 24 frames of 8 bytes from an unaligned start: after two allocations and the
return of the first frame, the allocator still implements the set. -/
theorem reachable_implements_unaligned :
    ∃ phys' s, new 100 200 8 (fun _ => 0) = some (layout 100 200 8, phys') ∧
      run (step (layout 100 200 8)) (Allowed (layout 100 200 8)) ⟨phys', ∅⟩
        [.alloc, .alloc, .dealloc 112] = some s ∧
      s.outstanding = {120} ∧ Implements 100 200 (layout 100 200 8) s := by
  have hnew : new 100 200 8 (fun _ => 0) =
      some (layout 100 200 8, (layout 100 200 8).initBitmap (fun _ => 0)) :=
    if_pos (by decide +kernel)
  have hrun : (run (step (layout 100 200 8)) (Allowed (layout 100 200 8))
      ⟨(layout 100 200 8).initBitmap (fun _ => 0), ∅⟩
        [.alloc, .alloc, .dealloc 112]).map State.outstanding = some {120} := by
    decide +kernel
  obtain ⟨s, hs, hout⟩ := Option.map_eq_some_iff.mp hrun
  exact ⟨_, s, hnew, hs, hout, (reachable_implements_iff hnew).mpr (by decide) s
    ⟨_, rfl, reflTransGen_of_run _ hs⟩⟩

/-- The first call of `alloc_frame` faults if the region starts at 0. -/
theorem not_implements_null :
    ∃ fa phys', new 0 200 8 (fun _ => 0) = some (fa, phys') ∧
      Reachable (· = ⟨phys', ∅⟩) (Step (step fa) (Allowed fa)) ⟨phys', ∅⟩ ∧
      fa.allocFrame phys' = none ∧ (available fa ∅).Nonempty ∧
      ¬ Implements 0 200 fa ⟨phys', ∅⟩ := by
  have hnew : new 0 200 8 (fun _ => 0) =
      some (layout 0 200 8, (layout 0 200 8).initBitmap (fun _ => 0)) :=
    if_pos (by decide +kernel)
  have hnone : (layout 0 200 8).allocFrame ((layout 0 200 8).initBitmap (fun _ => 0)) = none :=
    allocFrame_null (layout_wellFormed 0 (by decide +kernel)) (by decide +kernel) _
  refine ⟨_, _, hnew, .start rfl, hnone, ⟨1, by decide +kernel, by decide +kernel,
    Set.notMem_empty _⟩, fun h => ?_⟩
  have hreturns := h.alloc_returns
  rw [hnone] at hreturns
  cases hreturns

end Kruspix.Mm.FrameSet
