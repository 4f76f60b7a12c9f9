import Mathlib.Data.List.DropRight
import Kruspix.Lib.Simulation

/-!
# Bounded queues that drop their oldest item

A queue keeps the last `N` items. It is drained into the front of a list that has room for it.
-/

namespace Kruspix.Lib.DroppingQueue

open Simulation

variable {T : Type*} {N : Nat}

theorem length_rtake (N : Nat) (l : List T) : (l.rtake N).length = min N l.length := by
  rw [List.rtake, List.length_drop]
  omega

/-- Only the last items matter for what is kept later. -/
theorem rtake_rtake_append (N : Nat) (l m : List T) :
    (l.rtake N ++ m).rtake N = (l ++ m).rtake N := by
  simp only [List.rtake, List.drop_append, List.drop_drop, List.length_append, List.length_drop]
  congr 2 <;> omega

/-- A queue of at most `N` items, the oldest first. -/
structure Queue (T : Type*) (N : Nat) where
  items : List T
  length_le : items.length ≤ N

/-- What is done with a queue. -/
inductive Op (T : Type*)
  | push (item : T)
  | clear
  | drain (dst : List T)

namespace Queue

def empty : Queue T N := ⟨[], Nat.zero_le N⟩

/-- Append an item; a full queue drops its oldest one. -/
def push (q : Queue T N) (item : T) : Queue T N where
  items := (q.items ++ [item]).rtake N
  length_le := by
    rw [length_rtake]
    exact Nat.min_le_left _ _

theorem items_push (q : Queue T N) (item : T) :
    (q.push item).items = (q.items ++ [item]).rtake N := rfl

/-- The output of a drain is the number of items and the list they are written to. -/
def step (q : Queue T N) : Op T → Option (Queue T N × Option (Nat × List T))
  | .push item => some (q.push item, none)
  | .clear => some (empty, none)
  | .drain dst =>
      if q.items.length ≤ dst.length then
        some (empty, some (q.items.length, q.items ++ dst.drop q.items.length))
      else none

end Queue

/-- The items that are pushed after the last clear or drain, behind those in `pushed`. -/
def recent (pushed : List T) : List (Op T) → List T
  | [] => pushed
  | .push item :: ops => recent (pushed ++ [item]) ops
  | .clear :: ops => recent [] ops
  | .drain _ :: ops => recent [] ops

/-- The queue holds the last `N` items pushed since the last clear or drain. -/
theorem run_items {q q' : Queue T N} {pushed : List T} {ops : List (Op T)}
    {outputs : List (Option (Nat × List T))} (h : q.items = pushed.rtake N)
    (hrun : run Queue.step q ops = some (q', outputs)) :
    q'.items = (recent pushed ops).rtake N := by
  have hlast := run_invariant (I := fun q rest =>
    ∃ pushed', q.items = pushed'.rtake N ∧ recent pushed' rest = recent pushed ops) ?_
    ⟨pushed, h, rfl⟩ hrun
  · obtain ⟨pushed', hitems, hrecent⟩ := hlast
    rw [hitems, ← hrecent]
    rfl
  rintro q op rest q' output ⟨pushed', hitems, hrecent⟩ hstep
  cases op with
  | push item =>
      cases hstep
      refine ⟨pushed' ++ [item], ?_, hrecent⟩
      rw [Queue.items_push, hitems, rtake_rtake_append]
  | clear =>
      cases hstep
      exact ⟨[], (List.rtake_nil N).symm, hrecent⟩
  | drain dst =>
      simp only [Queue.step] at hstep
      split at hstep
      · cases hstep
        exact ⟨[], (List.rtake_nil N).symm, hrecent⟩
      · cases hstep

end Kruspix.Lib.DroppingQueue
