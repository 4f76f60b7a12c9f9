import Kruspix.Kernel.SpinLock
import Kruspix.Lib.TestAndSet
import Mathlib.Data.List.Induction
import Mathlib.Data.List.Perm.Basic

/-!
# Spin locks on many cores

The cores share the words of the locks and the values that the locks protect. An exchange is one
access, and the accesses of the cores come in any order.
-/

namespace Kruspix.Kernel.SpinLock

open Lib.TestAndSet

/-- What a core does itself. -/
def Event.own {L : Type} : Event L → Bool
  | .remote _ _ => false
  | _ => true

/-- The words of the locks that the cores keep are of no use here. -/
structure Machine (C L T : Type) where
  locks : L → Bool
  data : L → T
  cores : C → Core L

/-- A core makes a step, or writes through one of its guards. -/
inductive MachineEvent (C L T : Type)
  | core (c : C) (e : { e : Event L // e.own })
  | derefMut (c : C) (i : Nat) (value : T)

variable {C L T : Type} [DecidableEq C] [DecidableEq L]

namespace MachineEvent

/-- The core of an event. -/
def origin : MachineEvent C L T → C
  | .core c _ => c
  | .derefMut c _ _ => c

/-- The step of this core, if it is one. -/
def own? (c : C) : MachineEvent C L T → Option (Event L)
  | .core d e => if d = c then some e else none
  | .derefMut _ _ _ => none

end MachineEvent

namespace Machine

/-- All locks free, and no core holds a guard. -/
def new (daif : C → BitVec 64) (data : L → T) : Machine C L T :=
  ⟨fun _ => false, data, fun c => .new (daif c) fun _ => false⟩

variable (m : Machine C L T)

/-- A core with the words of the locks. -/
def view (c : C) : Core L := { m.cores c with locks := m.locks }

/-- The locks that a core holds. -/
def held (c : C) : List L := (m.cores c).guards.map SpinLockGuard.lock

/-- While `lock_irq` spins the core writes nothing. -/
def step : MachineEvent C L T → Machine C L T
  | .core c e =>
      let s := (m.view c).step e
      { m with locks := s.locks, cores := Function.update m.cores c s }
  | .derefMut c i value =>
      match (m.cores c).spinning, (m.cores c).guards[i]? with
      | none, some guard => { m with data := Function.update m.data guard.lock value }
      | _, _ => m

end Machine

section Core

variable {s : Core L} {l : L}

/-- What a step does to the words of the locks and to the guards. -/
inductive Core.Changes (s t : Core L) : Prop
  | kept (hlocks : t.locks = s.locks) (hguards : t.guards = s.guards)
  | taken (guard : SpinLockGuard L) (hfree : s.locks guard.lock = false)
      (hlocks : t.locks = Function.update s.locks guard.lock true)
      (hguards : t.guards = s.guards ++ [guard])
  | dropped (i : Nat) (guard : SpinLockGuard L) (hguard : s.guards[i]? = some guard)
      (hlocks : t.locks = Function.update s.locks guard.lock false)
      (hguards : t.guards = s.guards.eraseIdx i)

theorem update_locked (hl : s.locks l = true) : Function.update s.locks l true = s.locks := by
  rw [← hl, Function.update_eq_self]

theorem Core.lock_changes : Core.Changes s (s.lock l) := by
  cases hl : s.locks l with
  | true =>
      simp only [lock, swap, hl, if_true]
      exact .kept (update_locked hl) rfl
  | false =>
      simp only [lock, swap, hl, Bool.false_eq_true, if_false]
      exact .taken ⟨l, none⟩ hl rfl rfl

theorem Core.spin_changes : Core.Changes s s.spin := by
  simp only [spin]
  split
  · exact .kept rfl rfl
  · rename_i l handle hspinning
    cases hl : s.locks l with
    | true =>
        simp only [swap, hl, if_true]
        exact .kept (update_locked hl) rfl
    | false =>
        simp only [swap, hl, Bool.false_eq_true, if_false]
        exact .taken ⟨l, some handle⟩ hl rfl rfl

theorem Core.tryLockIrq_changes : Core.Changes s (s.tryLockIrq l) := by
  cases hl : s.locks l with
  | true =>
      simp only [tryLockIrq, localDisableIrqFiq, swap, hl, if_true]
      exact .kept (update_locked hl) rfl
  | false =>
      simp only [tryLockIrq, localDisableIrqFiq, swap, hl, Bool.false_eq_true, if_false]
      exact .taken ⟨l, some s.daif⟩ hl rfl rfl

theorem Core.drop_changes (i : Nat) : Core.Changes s (s.drop i) := by
  simp only [drop]
  cases hguard : s.guards[i]? with
  | none => exact .kept rfl rfl
  | some guard =>
      cases hhandle : guard.irqHandle with
      | none =>
          simp only [hhandle]
          exact .dropped i guard hguard rfl rfl
      | some handle =>
          simp only [hhandle]
          exact .dropped i guard hguard rfl rfl

theorem Core.step_changes (s : Core L) (e : Event L) (he : e.own) : Core.Changes s (s.step e) := by
  have hguarded {t : Core L} (h : Core.Changes s t) :
      Core.Changes s (if s.spinning.isSome then s else t) := by
    split
    · exact .kept rfl rfl
    · exact h
  cases e with
  | spin => exact spin_changes
  | remote => cases he
  | lock | tryLock => exact hguarded lock_changes
  | tryLockIrq => exact hguarded tryLockIrq_changes
  | drop i => exact hguarded (drop_changes i)
  | lockIrq l =>
      apply hguarded
      -- the mask is of no account for the locks
      have hspin := spin_changes (s := { s with
        daif := maskIrqFiq s.daif
        spinning := some (l, s.daif) })
      cases hspin with
      | kept hlocks hguards => exact .kept hlocks hguards
      | taken guard hfree hlocks hguards => exact .taken guard hfree hlocks hguards
      | dropped i guard hguard hlocks hguards => exact .dropped i guard hguard hlocks hguards

end Core

namespace Machine

variable {m : Machine C L T}

theorem held_step (c d : C) (e : { e : Event L // e.own }) :
    (m.step (.core c e)).held d =
      Function.update m.held c (((m.view c).step e).guards.map SpinLockGuard.lock) d := by
  by_cases hd : d = c
  · rw [hd, held, step, Function.update_self]
    dsimp only
    rw [Function.update_self]
  · rw [held, step, Function.update_of_ne hd]
    dsimp only
    rw [Function.update_of_ne hd, held]

/-- What one event does to the locks. -/
theorem exclusive_step (h : Exclusive m.locks m.held) (e : MachineEvent C L T) :
    Exclusive (m.step e).locks (m.step e).held := by
  cases e with
  | derefMut c i value =>
      simp only [step]
      split
      · exact h
      · exact h
  | core c e =>
      have hheld := funext fun d => held_step (m := m) c d e
      have hlocks : (m.step (.core c e)).locks = ((m.view c).step e).locks := rfl
      rw [hheld, hlocks]
      cases Core.step_changes (m.view c) e e.2 with
      | kept hlocks hguards =>
          rw [hlocks, hguards]
          change Exclusive m.locks (Function.update m.held c (m.held c))
          rwa [Function.update_eq_self]
      | taken guard hfree hlocks hguards =>
          rw [hlocks, hguards, List.map_append]
          refine (h.acquire (c := c) hfree).congr fun d => ?_
          by_cases hd : d = c
          · rw [hd, Function.update_self, Function.update_self]
            exact List.perm_append_singleton _ _
          · rw [Function.update_of_ne hd, Function.update_of_ne hd]
      | dropped i guard hguard hlocks hguards =>
          rw [hlocks, hguards]
          apply h.release
          obtain ⟨hi, hget⟩ := List.getElem?_eq_some_iff.mp hguard
          have hperm := (List.getElem_cons_eraseIdx_perm hi).map SpinLockGuard.lock
          rw [hget] at hperm
          exact hperm.symm

/-- A word that another core sets or clears is not that of a lock which this core has. -/
theorem remote_step {s : Core L} {l : L} {locked : Bool}
    (h : l ∉ s.guards.map SpinLockGuard.lock) :
    s.step (.remote l locked) = { s with locks := Function.update s.locks l locked } := by
  have hany : s.guards.any (·.lock == l) = false := by
    rw [List.any_eq_false]
    intro guard hguard heq
    exact h (List.mem_map.mpr ⟨guard, hguard, eq_of_beq heq⟩)
  rw [Core.step, Core.remote, hany]
  rfl

/-- The other cores see a change of one word at most. -/
theorem view_other (h : Exclusive m.locks m.held) {c d : C} (hne : d ≠ c)
    (e : { e : Event L // e.own }) : (m.step (.core c e)).view d = m.view d ∨
      ∃ l locked, (m.step (.core c e)).view d = (m.view d).step (.remote l locked) := by
  have hview : (m.step (.core c e)).view d =
      { m.view d with locks := ((m.view c).step e).locks } := by
    rw [view, step]
    dsimp only
    rw [Function.update_of_ne hne]
    rfl
  rw [hview]
  cases Core.step_changes (m.view c) e e.2 with
  | kept hlocks hguards =>
      left
      rw [hlocks]
      rfl
  | taken guard hfree hlocks hguards =>
      right
      refine ⟨guard.lock, true, ?_⟩
      rw [hlocks, remote_step]
      · rfl
      · intro hmem
        have htaken := (h.taken guard.lock).mpr ⟨d, hmem⟩
        exact Bool.false_ne_true (hfree.symm.trans htaken)
  | dropped i guard hguard hlocks hguards =>
      right
      refine ⟨guard.lock, false, ?_⟩
      rw [hlocks, remote_step]
      · rfl
      · intro hmem
        have hmine : guard.lock ∈ m.held c :=
          List.mem_map.mpr ⟨guard, List.mem_of_getElem? hguard, rfl⟩
        exact hne (h.alone d c guard.lock hmem hmine)

/-- A core makes its own steps, and those of the others between them are `remote`. -/
theorem view_step (h : Exclusive m.locks m.held) (e : MachineEvent C L T) (c : C) :
    ∃ es : List (Event L), (m.step e).view c = es.foldl Core.step (m.view c) ∧
      es.filter Event.own = (e.own? c).toList := by
  cases e with
  | derefMut d i value =>
      refine ⟨[], ?_, rfl⟩
      simp only [step]
      split
      · rfl
      · rfl
  | core d e =>
      by_cases hd : d = c
      · refine ⟨[e.1], ?_, ?_⟩
        · rw [← hd, view, step]
          dsimp only
          rw [Function.update_self]
          rfl
        · rw [MachineEvent.own?, if_pos hd, List.filter_singleton, e.2]
          rfl
      · rw [MachineEvent.own?, if_neg hd]
        rcases view_other h (Ne.symm hd) e with hsame | ⟨l, locked, hremote⟩
        · exact ⟨[], hsame, rfl⟩
        · exact ⟨[Event.remote l locked], hremote, rfl⟩

/-- What a lock protects is written by the core that has its guard. -/
theorem data_step (e : MachineEvent C L T) {l : L} (h : (m.step e).data l ≠ m.data l) :
    l ∈ m.held e.origin := by
  cases e with
  | core c e => exact absurd rfl h
  | derefMut c i value =>
      simp only [step] at h
      split at h
      · rename_i guard hspinning hguard
        by_cases hl : l = guard.lock
        · rw [hl]
          exact List.mem_map.mpr ⟨guard, List.mem_of_getElem? hguard, rfl⟩
        · exact absurd (Function.update_of_ne hl _ _) h
      · exact absurd rfl h

/-- The state after these events. -/
def run (daif : C → BitVec 64) (data : L → T) (es : List (MachineEvent C L T)) : Machine C L T :=
  es.foldl step (new daif data)

variable (daif : C → BitVec 64) (data : L → T) (es : List (MachineEvent C L T))

theorem run_concat (e : MachineEvent C L T) :
    run daif data (es ++ [e]) = (run daif data es).step e := by
  rw [run, List.foldl_append]
  rfl

theorem exclusive_run : Exclusive (run daif data es).locks (run daif data es).held := by
  induction es using List.reverseRecOn with
  | nil => exact exclusive_free
  | append_singleton es e ih =>
      rw [run_concat]
      exact exclusive_step ih e

theorem view_run (c : C) : ∃ own : List (Event L), (run daif data es).view c =
    own.foldl Core.step (.new (daif c) fun _ => false) ∧
      own.filter Event.own = es.filterMap (MachineEvent.own? c) := by
  induction es using List.reverseRecOn with
  | nil => exact ⟨[], rfl, rfl⟩
  | append_singleton es e ih =>
      obtain ⟨own, hview, hown⟩ := ih
      obtain ⟨last, hstep, hlast⟩ := view_step (exclusive_run daif data es) e c
      refine ⟨own ++ last, ?_, ?_⟩
      · rw [run_concat, hstep, hview, List.foldl_append]
      · rw [List.filter_append, hown, hlast, List.filterMap_append]
        cases h : e.own? c <;> simp [h]

/-- In any order of the accesses of any number of cores, a lock has one guard at most, the word
of the lock is set exactly while it has one, only the core with the guard changes what the lock
protects, and each core by itself runs as a core with `remote` events. -/
theorem exclusive_along :
    Exclusive (run daif data es).locks (run daif data es).held ∧
    (∀ e l, ((run daif data es).step e).data l ≠ (run daif data es).data l →
      l ∈ (run daif data es).held e.origin) ∧
    ∀ c, ∃ own : List (Event L), (run daif data es).view c =
        own.foldl Core.step (.new (daif c) fun _ => false) ∧
      own.filter Event.own = es.filterMap (MachineEvent.own? c) :=
  ⟨exclusive_run daif data es, fun e _ => data_step e, view_run daif data es⟩

end Machine

end Kruspix.Kernel.SpinLock
