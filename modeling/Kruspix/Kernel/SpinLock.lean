import Kruspix.Lib.SavedSetting
import Kruspix.Lib.Transition
import Mathlib.Logic.Function.Basic

/-!
# Spin locks and the interrupt mask

A guard of `lock_irq` saves the interrupt mask that it finds, and restores it when it is
dropped. The mask of the guard that came first is not masked as a rule, and has to be
restored last.
-/

namespace Kruspix.Kernel.SpinLock

open Lib.SavedSetting Lib.Transition

/-- `daifset #0b11`: the bits of IRQ and FIQ. -/
def maskIrqFiq (daif : BitVec 64) : BitVec 64 := daif ||| 0xC0#64

/-- IRQ and FIQ are masked. -/
def Masked (daif : BitVec 64) : Prop := daif &&& 0xC0#64 = 0xC0#64

instance (daif : BitVec 64) : Decidable (Masked daif) := inferInstanceAs (Decidable (_ = _))

theorem maskIrqFiq_idem (daif : BitVec 64) : maskIrqFiq (maskIrqFiq daif) = maskIrqFiq daif := by
  rw [maskIrqFiq, maskIrqFiq, BitVec.or_assoc, BitVec.or_self]

theorem masked_iff {daif : BitVec 64} : Masked daif ↔ maskIrqFiq daif = daif := by
  rw [Masked, maskIrqFiq]
  constructor
  · intro h
    rw [← h, BitVec.or_comm]
    ext i hi
    rw [BitVec.getElem_or, BitVec.getElem_and]
    cases daif[i] <;> cases (0xC0#64)[i] <;> rfl
  · intro h
    rw [← h]
    ext i hi
    rw [BitVec.getElem_and, BitVec.getElem_or]
    cases daif[i] <;> cases (0xC0#64)[i] <;> rfl

/-- A held lock and the interrupt masks that are restored with it. -/
structure SpinLockGuard (L : Type) where
  lock : L
  irqHandle : Option (BitVec 64)
  deriving DecidableEq, Repr

/-- A core with the locks and the guards that it has. `spinning` is a call of `lock_irq` that
has not got its lock yet, with its handle. -/
structure Core (L : Type) where
  daif : BitVec 64
  locks : L → Bool
  guards : List (SpinLockGuard L)
  spinning : Option (L × BitVec 64)

/-- The calls of the core, the tries of a call that spins, and what other cores do. -/
inductive Event (L : Type)
  | lock (l : L)
  | lockIrq (l : L)
  | tryLock (l : L)
  | tryLockIrq (l : L)
  | drop (i : Nat)
  | spin
  | remote (l : L) (locked : Bool)
  deriving DecidableEq, Repr

variable {L : Type} [DecidableEq L]

namespace Core

/-- A core that holds no lock. -/
def new (daif : BitVec 64) (locks : L → Bool) : Core L := ⟨daif, locks, [], none⟩

variable (s : Core L)

/-- Mask interrupts; the masks before are handed out. -/
def localDisableIrqFiq : BitVec 64 × Core L := (s.daif, { s with daif := maskIrqFiq s.daif })

/-- Put masks back. -/
def localRestoreInterrupts (handle : BitVec 64) : Core L := { s with daif := handle }

/-- `swap(true)` of a lock. -/
def swap (l : L) : Bool × Core L := (s.locks l, { s with locks := Function.update s.locks l true })

/-- A further guard is held. -/
def withGuard (l : L) (irqHandle : Option (BitVec 64)) : Core L :=
  { s with guards := s.guards ++ [⟨l, irqHandle⟩] }

/-- A call that spins leaves the core as it is, and tries again later. -/
def lock (l : L) : Core L :=
  let (locked, s) := s.swap l
  if locked then s else s.withGuard l none

/-- `try_lock`: one attempt, no guard if the lock was held. -/
def tryLock (l : L) : Core L :=
  let (locked, s) := s.swap l
  if locked then s else s.withGuard l none

/-- The loop of `lock_irq`, once. -/
def spin : Core L :=
  match s.spinning with
  | none => s
  | some (l, handle) =>
      let (locked, s) := s.swap l
      if locked then s else { s.withGuard l (some handle) with spinning := none }

/-- `lock_irq`: mask interrupts, then spin. -/
def lockIrq (l : L) : Core L :=
  let (handle, s) := s.localDisableIrqFiq
  spin { s with spinning := some (l, handle) }

/-- `try_lock_irq`: mask interrupts and try once; the masks come back if the lock was held. -/
def tryLockIrq (l : L) : Core L :=
  let (handle, s) := s.localDisableIrqFiq
  let (locked, s) := s.swap l
  if locked then s.localRestoreInterrupts handle else s.withGuard l (some handle)

/-- The drop of the guard at a place. -/
def drop (i : Nat) : Core L :=
  match s.guards[i]? with
  | none => s
  | some guard =>
      let s := { s with
        locks := Function.update s.locks guard.lock false
        guards := s.guards.eraseIdx i }
      match guard.irqHandle with
      | none => s
      | some handle => s.localRestoreInterrupts handle

/-- Another core changes a lock that no guard of this core has. -/
def remote (l : L) (locked : Bool) : Core L :=
  if s.guards.any (·.lock == l) then s
  else { s with locks := Function.update s.locks l locked }

/-- While `lock_irq` spins the core does nothing else. -/
def step : Event L → Core L
  | .spin => s.spin
  | .remote l locked => s.remote l locked
  | .lock l => if s.spinning.isSome then s else s.lock l
  | .lockIrq l => if s.spinning.isSome then s else s.lockIrq l
  | .tryLock l => if s.spinning.isSome then s else s.tryLock l
  | .tryLockIrq l => if s.spinning.isSome then s else s.tryLockIrq l
  | .drop i => if s.spinning.isSome then s else s.drop i

/-- The masks that are still to be restored. -/
def saved : List (BitVec 64) :=
  s.guards.filterMap SpinLockGuard.irqHandle ++ s.spinning.toList.map Prod.snd

/-- Interrupts are masked while a guard has a handle, and no such guard leaves a trace. -/
structure Guarded (before : BitVec 64) (s : Core L) : Prop where
  masked : ∀ guard ∈ s.guards, guard.irqHandle.isSome → Masked s.daif
  restored : (∀ guard ∈ s.guards, guard.irqHandle = none) → s.spinning = none → s.daif = before

/-- A handle that does not mask interrupts is restored by the last guard with a handle. -/
def Nested (s : Core L) : Event L → Prop
  | .drop i => s.spinning = none → ∀ guard handle, s.guards[i]? = some guard →
      guard.irqHandle = some handle →
        Masked handle ∨ ∀ other ∈ s.guards.eraseIdx i, other.irqHandle = none
  | _ => True

variable {s : Core L} {before : BitVec 64} {l : L} {i : Nat}

omit [DecidableEq L] in
theorem saved_eq_nil : s.saved = [] ↔
    (∀ guard ∈ s.guards, guard.irqHandle = none) ∧ s.spinning = none := by
  rw [saved, List.append_eq_nil_iff, List.filterMap_eq_nil_iff, List.map_eq_nil_iff,
    Option.toList_eq_nil_iff]

/-- A guard without a handle changes nothing that is saved. -/
theorem lock_saved : (s.lock l).saved = s.saved ∧ (s.lock l).daif = s.daif := by
  rw [lock, swap]
  cases s.locks l with
  | true => exact ⟨rfl, rfl⟩
  | false =>
      refine ⟨?_, rfl⟩
      change List.filterMap _ (s.guards ++ [⟨l, none⟩]) ++ _ = _
      rw [List.filterMap_append]
      exact congrArg (· ++ _) (List.append_nil _)

/-- The handle of a call that spins becomes that of its guard. -/
theorem spin_saved : s.spin.saved = s.saved ∧ s.spin.daif = s.daif := by
  rw [spin]
  split
  · exact ⟨rfl, rfl⟩
  · rename_i l handle hspinning
    rw [swap]
    cases s.locks l with
    | true => exact ⟨rfl, rfl⟩
    | false =>
        refine ⟨?_, rfl⟩
        change List.filterMap _ (s.guards ++ [⟨l, some handle⟩]) ++ [] = _
        rw [saved, hspinning, List.filterMap_append, List.append_nil]
        rfl

theorem lockIrq_saved (h : s.spinning = none) :
    (s.lockIrq l).saved.Perm (s.daif :: s.saved) ∧ (s.lockIrq l).daif = maskIrqFiq s.daif := by
  have hspin := spin_saved (s := { s with daif := maskIrqFiq s.daif, spinning := some (l, s.daif) })
  simp only [lockIrq, localDisableIrqFiq]
  rw [hspin.1, hspin.2]
  refine ⟨?_, rfl⟩
  simp only [saved, h, Option.toList_none, List.map_nil, List.append_nil]
  exact List.perm_append_singleton s.daif _

/-- A try that fails leaves the mask as it was. -/
theorem tryLockIrq_locked (h : s.locks l = true) :
    (s.tryLockIrq l).saved = s.saved ∧ (s.tryLockIrq l).daif = s.daif := by
  simp only [tryLockIrq, localDisableIrqFiq, swap, h, if_true]
  exact ⟨rfl, rfl⟩

theorem tryLockIrq_free (h : s.locks l = false) (hspinning : s.spinning = none) :
    (s.tryLockIrq l).saved.Perm (s.daif :: s.saved) ∧
      (s.tryLockIrq l).daif = maskIrqFiq s.daif := by
  simp only [tryLockIrq, localDisableIrqFiq, swap, h, Bool.false_eq_true, if_false]
  refine ⟨?_, rfl⟩
  simp only [saved, withGuard, hspinning, List.filterMap_append, Option.toList_none, List.map_nil,
    List.append_nil]
  exact List.perm_append_singleton s.daif _

/-- The drop of a guard takes its handle from those that are saved. -/
theorem drop_saved {guard : SpinLockGuard L} (h : s.guards[i]? = some guard) :
    match guard.irqHandle with
    | none => (s.drop i).saved = s.saved ∧ (s.drop i).daif = s.daif
    | some handle => s.saved.Perm (handle :: (s.drop i).saved) ∧ (s.drop i).daif = handle := by
  obtain ⟨hi, hguard⟩ := List.getElem?_eq_some_iff.mp h
  have hguards : s.guards = s.guards.take i ++ guard :: s.guards.drop (i + 1) := by
    rw [← hguard, ← List.drop_eq_getElem_cons hi, List.take_append_drop]
  have herase : s.guards.eraseIdx i = s.guards.take i ++ s.guards.drop (i + 1) :=
    List.eraseIdx_eq_take_drop_succ s.guards i
  cases hhandle : guard.irqHandle with
  | none =>
      simp only [drop, h, hhandle, saved, herase]
      refine ⟨?_, trivial⟩
      conv_rhs => rw [hguards]
      simp only [List.filterMap_append, List.filterMap_cons, hhandle]
  | some handle =>
      simp only [drop, h, hhandle, saved, localRestoreInterrupts, herase]
      refine ⟨?_, trivial⟩
      conv_lhs => rw [hguards]
      simp only [List.filterMap_append, List.filterMap_cons, hhandle, List.append_assoc,
        List.cons_append]
      exact List.perm_middle

omit [DecidableEq L] in
theorem guarded_of_kept (h : Kept maskIrqFiq before s.daif s.saved) : s.Guarded before := by
  refine ⟨fun guard hguard hhandle => masked_iff.mpr (h.mask_value maskIrqFiq_idem fun hnil => ?_),
    fun hguards hspinning => h.restored (saved_eq_nil.mpr ⟨hguards, hspinning⟩)⟩
  rw [(saved_eq_nil.mp hnil).1 guard hguard] at hhandle
  cases hhandle

/-- What one event does to the saved masks. -/
theorem kept_step {e : Event L} (h : Kept maskIrqFiq before s.daif s.saved) (hn : s.Nested e) :
    Kept maskIrqFiq before (s.step e).daif (s.step e).saved := by
  have hsame : ∀ {t : Core L}, t.saved = s.saved ∧ t.daif = s.daif →
      Kept maskIrqFiq before t.daif t.saved := by
    rintro t ⟨hsaved, hdaif⟩
    rwa [hsaved, hdaif]
  have hsave : ∀ {t : Core L}, t.saved.Perm (s.daif :: s.saved) ∧ t.daif = maskIrqFiq s.daif →
      Kept maskIrqFiq before t.daif t.saved := by
    rintro t ⟨hperm, hdaif⟩
    rw [hdaif]
    exact h.save maskIrqFiq_idem hperm
  cases hspinning : s.spinning with
  | some call =>
      -- only the tries and the other cores go on
      cases e with
      | spin => exact hsame spin_saved
      | remote l locked =>
          simp only [step, remote]
          split <;> exact h
      | lock | lockIrq | tryLock | tryLockIrq | drop =>
          simp only [step, hspinning, Option.isSome_some, if_true]
          exact h
  | none =>
      simp only [step, hspinning, Option.isSome_none, Bool.false_eq_true, if_false]
      cases e with
      | spin => exact hsame spin_saved
      | remote l locked =>
          simp only [remote]
          split <;> exact h
      | lock l => exact hsame lock_saved
      | tryLock l => exact hsame lock_saved
      | lockIrq l => exact hsave (lockIrq_saved hspinning)
      | tryLockIrq l =>
          cases hl : s.locks l with
          | true => exact hsame (tryLockIrq_locked hl)
          | false => exact hsave (tryLockIrq_free hl hspinning)
      | drop i =>
          cases hguard : s.guards[i]? with
          | none =>
              simp only [drop, hguard]
              exact h
          | some guard =>
              have hdrop := drop_saved hguard
              cases hhandle : guard.irqHandle with
              | none =>
                  simp only [hhandle] at hdrop
                  exact hsame hdrop
              | some handle =>
                  simp only [hhandle] at hdrop
                  rw [hdrop.2]
                  refine h.restore hdrop.1 ?_
                  rcases hn hspinning guard handle hguard hhandle with hmasked | hlast
                  · exact .inl (masked_iff.mp hmasked)
                  · right
                    rw [saved_eq_nil]
                    simp only [drop, hguard, hhandle, localRestoreInterrupts]
                    exact ⟨hlast, hspinning⟩

/-- A handle that is restored too early shows at once. -/
theorem nested_of_guarded {e : Event L} (h : (s.step e).Guarded before) : s.Nested e := by
  cases e with
  | drop i =>
      intro hspinning guard handle hguard hhandle
      simp only [step, drop, hspinning, hguard, hhandle, localRestoreInterrupts,
        Option.isSome_none, Bool.false_eq_true, if_false] at h
      by_cases hothers : ∀ other ∈ s.guards.eraseIdx i, other.irqHandle = none
      · exact .inr hothers
      · push Not at hothers
        obtain ⟨other, hother, hsome⟩ := hothers
        exact .inl (h.masked other hother (Option.isSome_iff_ne_none.mpr hsome))
  | spin | remote | lock | lockIrq | tryLock | tryLockIrq => trivial

/-- Along any events from a core without guards, interrupts are masked while a guard has a
handle, and the mask is as before when none has, exactly if every handle that does not mask
interrupts is restored by the last guard with a handle. A try that fails changes no mask. -/
theorem guarded_along_iff (daif : BitVec 64) (locks : L → Bool) (es : List (Event L)) :
    ((∀ t ∈ states step (new daif locks) es, t.Guarded daif) ↔
      Along step Nested (new daif locks) es) ∧
    ∀ t ∈ states step (new daif locks) es, ∀ l, t.locks l = true →
      (t.step (.tryLockIrq l)).daif = t.daif := by
  refine ⟨forall_states_iff_of_invariant (I := fun s => Kept maskIrqFiq daif s.daif s.saved)
    (fun _ => guarded_of_kept) (fun _ _ => kept_step) (fun _ _ _ => nested_of_guarded)
    (kept_nil maskIrqFiq daif) es, fun t _ l hl => ?_⟩
  rw [step]
  split
  · rfl
  · exact (tryLockIrq_locked hl).2

/-- Two locks are taken with `lock_irq`, and the first one is dropped. -/
def crossingEvents : List (Event Bool) := [.lockIrq false, .lockIrq true, .drop 0]

/-- Interrupts are on while the second guard is alive. -/
theorem not_guarded_crossing :
    ¬ ∀ t ∈ states step (new 0#64 fun _ => false) crossingEvents, t.Guarded 0#64 := by
  intro h
  have hdropped := h _ (.tail _ (.tail _ (.tail _ (.head _))))
  have hmasked := hdropped.masked ⟨true, some 0xC0#64⟩ (.head _) rfl
  revert hmasked
  decide

end Core

end Kruspix.Kernel.SpinLock
