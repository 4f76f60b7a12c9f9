import Mathlib.Data.List.Basic
import Mathlib.Logic.Function.Basic

/-!
# Histories of operations

An operation starts, takes effect at one moment, and finishes. Operations that run at the same
time are those whose marks in the history are mixed. The state that they leave is that of their
effects, one after the other.
-/

namespace Kruspix.Lib.History

variable {V : Type*}

/-- A call starts, takes effect or finishes. -/
inductive Mark (V : Type*)
  | start (id : Nat)
  | effect (id : Nat) (v : V)
  | finish (id : Nat)

namespace Mark

/-- The call that a mark belongs to. -/
def id : Mark V → Nat
  | .start id => id
  | .effect id _ => id
  | .finish id => id

/-- The effect of a mark, if it is one. -/
def effect? : Mark V → Option V
  | .effect _ v => some v
  | _ => none

end Mark

/-- The effects in their order. -/
def effects (history : List (Mark V)) : List V := history.filterMap Mark.effect?

/-- The marks of one operation. -/
def marksOf (id : Nat) (history : List (Mark V)) : List (Mark V) :=
  history.filter (·.id == id)

/-- How far an operation is that has not finished. -/
inductive Stage (V : Type*)
  | started
  | done (v : V)

/-- The marks of a call that has not finished. -/
def Stage.marks (id : Nat) : Stage V → List (Mark V)
  | .started => [.start id]
  | .done v => [.start id, .effect id v]

/-- The operations below `next` have started. Each one that is in progress has the marks of its
stage, and each other one has all three marks. -/
structure Recorded (stage : Nat → Option (Stage V)) (next : Nat) (history : List (Mark V)) :
    Prop where
  fresh : ∀ id, next ≤ id → stage id = none ∧ marksOf id history = []
  pending : ∀ id st, stage id = some st → marksOf id history = st.marks id
  complete : ∀ id, id < next → stage id = none →
    ∃ v, marksOf id history = [.start id, .effect id v, .finish id]

variable {stage stage' : Nat → Option (Stage V)} {next id : Nat} {history : List (Mark V)} {v : V}

theorem recorded_nil : Recorded (fun _ => none) 0 ([] : List (Mark V)) := by
  refine ⟨fun id _ => ⟨rfl, rfl⟩, ?_, ?_⟩
  · intro id st hst
    cases hst
  · intro id hid
    exact absurd hid (Nat.not_lt_zero id)

@[simp] theorem effects_concat (mark : Mark V) :
    effects (history ++ [mark]) = effects history ++ mark.effect?.toList := by
  rw [effects, List.filterMap_append]
  cases h : mark.effect? with
  | none => simp [effects, h]
  | some v => simp [effects, h]

theorem marksOf_concat_same {mark : Mark V} (h : mark.id = id) :
    marksOf id (history ++ [mark]) = marksOf id history ++ [mark] := by
  rw [marksOf, List.filter_append, List.filter_singleton, h, beq_self_eq_true]
  rfl

theorem marksOf_concat_other {mark : Mark V} (h : mark.id ≠ id) :
    marksOf id (history ++ [mark]) = marksOf id history := by
  rw [marksOf, List.filter_append, List.filter_singleton, beq_eq_false_iff_ne.mpr h]
  exact List.append_nil _

theorem Recorded.lt (h : Recorded stage next history) {st : Stage V} (hst : stage id = some st) :
    id < next := by
  by_contra hge
  rw [(h.fresh id (Nat.le_of_not_lt hge)).1] at hst
  cases hst

theorem Recorded.congr (h : Recorded stage next history) (hstage : ∀ id, stage' id = stage id) :
    Recorded stage' next history := by
  rwa [funext hstage]

theorem Recorded.start (h : Recorded stage next history) :
    Recorded (Function.update stage next (some .started)) (next + 1)
      (history ++ [.start next]) := by
  have hmine : marksOf next (history ++ [.start next]) = marksOf next history ++ [.start next] :=
    marksOf_concat_same rfl
  have hother {id : Nat} (hne : id ≠ next) :
      Function.update stage next (some .started) id = stage id ∧
        marksOf id (history ++ [.start next]) = marksOf id history :=
    ⟨Function.update_of_ne hne _ _, marksOf_concat_other hne.symm⟩
  refine ⟨fun id hid => ?_, fun id st hst => ?_, fun id hid hnone => ?_⟩
  · obtain ⟨hstage, hmarks⟩ := hother (Nat.ne_of_gt hid)
    rw [hstage, hmarks]
    exact h.fresh id (Nat.le_of_succ_le hid)
  · by_cases hid : id = next
    · rw [hid, Function.update_self] at hst
      cases hst
      rw [hid, hmine, (h.fresh next (Nat.le_refl _)).2]
      rfl
    · obtain ⟨hstage, hmarks⟩ := hother hid
      rw [hstage] at hst
      rw [hmarks]
      exact h.pending id st hst
  · by_cases heq : id = next
    · rw [heq, Function.update_self] at hnone
      cases hnone
    · obtain ⟨hstage, hmarks⟩ := hother heq
      rw [hstage] at hnone
      rw [hmarks]
      exact h.complete id (by omega) hnone

/-- A mark of an operation in progress. -/
theorem Recorded.mark (h : Recorded stage next history) {st : Stage V} {st' : Option (Stage V)}
    {mark : Mark V} (hst : stage id = some st) (hmark : mark.id = id)
    (hpending : ∀ s, st' = some s → st.marks id ++ [mark] = s.marks id)
    (hcomplete : st' = none →
      ∃ v, st.marks id ++ [mark] = [.start id, .effect id v, .finish id]) :
    Recorded (Function.update stage id st') next (history ++ [mark]) := by
  have hmine : marksOf id (history ++ [mark]) = st.marks id ++ [mark] := by
    rw [marksOf_concat_same hmark, h.pending id st hst]
  have hother {k : Nat} (hne : k ≠ id) : Function.update stage id st' k = stage k ∧
      marksOf k (history ++ [mark]) = marksOf k history :=
    ⟨Function.update_of_ne hne _ _, marksOf_concat_other (hmark ▸ hne.symm)⟩
  refine ⟨fun k hk => ?_, fun k s hs => ?_, fun k hk hnone => ?_⟩
  · obtain ⟨hstage, hmarks⟩ := hother (Nat.ne_of_gt (Nat.lt_of_lt_of_le (h.lt hst) hk))
    rw [hstage, hmarks]
    exact h.fresh k hk
  · by_cases heq : k = id
    · rw [heq, Function.update_self] at hs
      rw [heq, hmine]
      exact hpending s hs
    · obtain ⟨hstage, hmarks⟩ := hother heq
      rw [hstage] at hs
      rw [hmarks]
      exact h.pending k s hs
  · by_cases heq : k = id
    · rw [heq, Function.update_self] at hnone
      rw [heq, hmine]
      exact hcomplete hnone
    · obtain ⟨hstage, hmarks⟩ := hother heq
      rw [hstage] at hnone
      rw [hmarks]
      exact h.complete k hk hnone

theorem Recorded.effect (h : Recorded stage next history) (hst : stage id = some .started) :
    Recorded (Function.update stage id (some (.done v))) next (history ++ [.effect id v]) := by
  apply h.mark hst rfl
  · rintro s ⟨⟩
    rfl
  · intro hnone
    cases hnone

theorem Recorded.finish (h : Recorded stage next history) (hst : stage id = some (.done v)) :
    Recorded (Function.update stage id none) next (history ++ [.finish id]) := by
  apply h.mark hst rfl
  · intro s hs
    cases hs
  · exact fun _ => ⟨v, rfl⟩

end Kruspix.Lib.History
