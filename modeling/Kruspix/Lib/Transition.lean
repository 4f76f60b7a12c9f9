import Mathlib.Logic.Relation

/-!
# Reachable states of a transition relation

The induction over a run is stated once here. A safety result about a system
is then a base case and one lemma about a single step.
-/

namespace Kruspix.Lib.Transition

variable {S : Type*}

/-- The states that finitely many steps reach from an initial state. -/
def Reachable (init : S → Prop) (step : S → S → Prop) (s : S) : Prop :=
  ∃ s₀, init s₀ ∧ Relation.ReflTransGen step s₀ s

theorem Reachable.start {init : S → Prop} {step : S → S → Prop} {s : S}
    (h : init s) : Reachable init step s :=
  ⟨s, h, .refl⟩

theorem Reachable.next {init : S → Prop} {step : S → S → Prop} {s t : S}
    (h : Reachable init step s) (hst : step s t) : Reachable init step t := by
  obtain ⟨s₀, h₀, hrun⟩ := h
  exact ⟨s₀, h₀, hrun.tail hst⟩

/-- A property that holds initially and survives every step holds in every
reachable state. The step may use that its source is reachable. -/
theorem Reachable.invariant {init : S → Prop} {step : S → S → Prop}
    {P : S → Prop} (base : ∀ s, init s → P s)
    (pres : ∀ s t, Reachable init step s → P s → step s t → P t)
    {s : S} (h : Reachable init step s) : P s := by
  obtain ⟨s₀, h₀, hrun⟩ := h
  induction hrun with
  | refl => exact base s₀ h₀
  | @tail t u htail hstep ih => exact pres t u ⟨s₀, h₀, htail⟩ ih hstep

/-- Every path of `step` from here reaches a state with `P`, and none stops before. -/
inductive Inevitable (step : S → S → Prop) (P : S → Prop) : S → Prop
  | now {s : S} (h : P s) : Inevitable step P s
  | next {s : S} (hprogress : ∃ t, step s t) (h : ∀ t, step s t → Inevitable step P t) :
      Inevitable step P s

/-- A measure that every step lowers, as long as `I` holds and `P` does not. -/
theorem Inevitable.of_measure {step : S → S → Prop} {P : S → Prop} (I : S → Prop) (m : S → Nat)
    (hprogress : ∀ s, I s → ∃ t, step s t)
    (hstep : ∀ s t, I s → step s t → P t ∨ (I t ∧ m t < m s)) {s : S} (h : I s) :
    Inevitable step P s := by
  generalize hn : m s = n
  induction n using Nat.strongRecOn generalizing s with
  | _ n ih =>
      refine .next (hprogress s h) fun t hst => ?_
      rcases hstep s t h hst with hP | ⟨hI, hlt⟩
      · exact .now hP
      · exact ih (m t) (hn ▸ hlt) hI rfl

/-- There is such a state on a path. -/
theorem Inevitable.exists_reached {step : S → S → Prop} {P : S → Prop} {s : S}
    (h : Inevitable step P s) : ∃ t, Relation.ReflTransGen step s t ∧ P t := by
  induction h with
  | now hP => exact ⟨_, .refl, hP⟩
  | next hprogress _ ih =>
      obtain ⟨t, hst⟩ := hprogress
      obtain ⟨u, hrun, hP⟩ := ih t hst
      exact ⟨u, .head hst hrun, hP⟩

variable {E : Type*}

/-- The step relation of a partial step function on events, restricted to the
events that are allowed in the state they happen in. -/
def Step (step : S → E → Option S) (allowed : S → E → Prop) (s t : S) : Prop :=
  ∃ e, allowed s e ∧ step s e = some t

/-- A run is a run under every weaker condition. -/
theorem Reachable.weaken {init : S → Prop} {step : S → E → Option S} {allowed weaker : S → E → Prop}
    {s : S} (h : Reachable init (Step step allowed) s)
    (hweaker : ∀ s e, allowed s e → weaker s e) : Reachable init (Step step weaker) s := by
  obtain ⟨s₀, h₀, hrun⟩ := h
  refine ⟨s₀, h₀, Relation.ReflTransGen.mono ?_ _ _ hrun⟩
  rintro s t ⟨e, hallowed, hst⟩
  exact ⟨e, hweaker s e hallowed, hst⟩

/-- The state after a list of allowed events. -/
def run (step : S → E → Option S) (allowed : S → E → Prop)
    [∀ s e, Decidable (allowed s e)] : S → List E → Option S
  | s, [] => some s
  | s, e :: es =>
      if allowed s e then
        match step s e with
        | none => none
        | some t => run step allowed t es
      else none

/-- An executed run is a chain of allowed steps. -/
theorem reflTransGen_of_run {step : S → E → Option S} {allowed : S → E → Prop}
    [∀ s e, Decidable (allowed s e)] {s t : S} (es : List E)
    (h : run step allowed s es = some t) :
    Relation.ReflTransGen (Step step allowed) s t := by
  induction es generalizing s with
  | nil =>
      cases h
      exact .refl
  | cons e es ih =>
      simp only [run] at h
      split at h
      · rename_i hallowed
        split at h
        · cases h
        · rename_i u hu
          exact .head ⟨e, hallowed, hu⟩ (ih h)
      · cases h

/-- The states along the events of a step function that accepts each event. -/
def states (step : S → E → S) : S → List E → List S
  | s, [] => [s]
  | s, e :: es => s :: states step (step s e) es

/-- A condition on each event and the state it happens in. -/
def Along (step : S → E → S) (condition : S → E → Prop) : S → List E → Prop
  | _, [] => True
  | s, e :: es => condition s e ∧ Along step condition (step s e) es

/-- A property that follows from an invariant holds all along exactly if a condition does that
preserves the invariant and that the property needs. -/
theorem forall_states_iff_of_invariant {step : S → E → S} {I P : S → Prop}
    {condition : S → E → Prop} (hP : ∀ s, I s → P s)
    (hstep : ∀ s e, I s → condition s e → I (step s e))
    (hback : ∀ s e, I s → P (step s e) → condition s e) {s : S} (h : I s) (es : List E) :
    (∀ t ∈ states step s es, P t) ↔ Along step condition s es := by
  induction es generalizing s with
  | nil => exact iff_of_true (fun t ht => List.mem_singleton.mp ht ▸ hP s h) trivial
  | cons e es ih =>
      rw [states, List.forall_mem_cons, Along]
      constructor
      · rintro ⟨-, hrest⟩
        have hnext : P (step s e) := by
          apply hrest
          cases es with
          | nil => exact List.mem_singleton_self _
          | cons e' es => exact List.mem_cons_self
        have hcondition := hback s e h hnext
        exact ⟨hcondition, (ih (hstep s e h hcondition)).mp hrest⟩
      · rintro ⟨hcondition, hrest⟩
        exact ⟨hP s h, (ih (hstep s e h hcondition)).mpr hrest⟩

/-- If a condition says when a step preserves a property, the property holds all along exactly
if the condition does. -/
theorem forall_states_iff {step : S → E → S} {P : S → Prop} {condition : S → E → Prop}
    (hstep : ∀ s e, P s → (P (step s e) ↔ condition s e)) {s : S} (h : P s) (es : List E) :
    (∀ t ∈ states step s es, P t) ↔ Along step condition s es :=
  forall_states_iff_of_invariant (fun _ h => h) (fun s e h => (hstep s e h).mpr)
    (fun s e h => (hstep s e h).mp) h es

/-- The same for the runs in which each event is allowed. -/
theorem forall_states_iff_along {step : S → E → S} {P : S → Prop} {allowed condition : S → E → Prop}
    (hstep : ∀ s e, P s → allowed s e → (P (step s e) ↔ condition s e)) {s : S} (h : P s)
    {es : List E} (hallowed : Along step allowed s es) :
    (∀ t ∈ states step s es, P t) ↔ Along step condition s es := by
  induction es generalizing s with
  | nil => exact iff_of_true (fun t ht => List.mem_singleton.mp ht ▸ h) trivial
  | cons e es ih =>
      obtain ⟨hfirst, hrest⟩ := hallowed
      rw [states, List.forall_mem_cons, Along, ← hstep s e h hfirst]
      constructor
      · rintro ⟨-, hstates⟩
        have hnext : P (step s e) := by
          apply hstates
          cases es with
          | nil => exact List.mem_singleton_self _
          | cons e' es => exact List.mem_cons_self
        exact ⟨hnext, (ih hnext hrest).mp hstates⟩
      · rintro ⟨hnext, halong⟩
        exact ⟨h, (ih hnext hrest).mpr halong⟩

end Kruspix.Lib.Transition
