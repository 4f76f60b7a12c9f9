import Mathlib.Data.Option.Basic

/-!
# Machines with outputs

A machine answers each event with an output and a next state, or refuses it. Two machines
that answer alike step by step answer alike over whole runs.
-/

namespace Kruspix.Lib.Simulation

variable {S T E O : Type*}

/-- The state after the events and the outputs on the way. `none` is a refused event. -/
def run (step : S → E → Option (S × O)) : S → List E → Option (S × List O)
  | s, [] => some (s, [])
  | s, e :: es => do
      let answer ← step s e
      let rest ← run step answer.1 es
      return (rest.1, answer.2 :: rest.2)

/-- Both refuse, or both give the same output and related states. -/
def Alike (R : S → T → Prop) {A : Type*} : Option (S × A) → Option (T × A) → Prop :=
  Option.Rel fun answer answer' => R answer.1 answer'.1 ∧ answer.2 = answer'.2

theorem Alike.cases {R : S → T → Prop} {A : Type*} {answer : Option (S × A)}
    {answer' : Option (T × A)} (h : Alike R answer answer') :
    (answer = none ∧ answer' = none) ∨
      ∃ s t a, answer = some (s, a) ∧ answer' = some (t, a) ∧ R s t := by
  cases h with
  | none => exact .inl ⟨rfl, rfl⟩
  | @some a b h =>
      obtain ⟨s, output⟩ := a
      obtain ⟨t, output'⟩ := b
      obtain ⟨hrel, houtput⟩ := h
      dsimp only at hrel houtput
      subst houtput
      exact .inr ⟨s, t, output, rfl, rfl, hrel⟩

theorem run_alike {step : S → E → Option (S × O)} {step' : T → E → Option (T × O)}
    {R : S → T → Prop} (hstep : ∀ s t e, R s t → Alike R (step s e) (step' t e))
    {s : S} {t : T} (h : R s t) (es : List E) : Alike R (run step s es) (run step' t es) := by
  induction es generalizing s t with
  | nil => exact .some ⟨h, rfl⟩
  | cons e es ih =>
      simp only [run, Option.bind_eq_bind, Option.pure_def]
      rcases (hstep s t e h).cases with ⟨hs, ht⟩ | ⟨s', t', output, hs, ht, hnext⟩
      · rw [hs, ht]
        exact .none
      · rw [hs, ht, Option.bind_some, Option.bind_some]
        rcases (ih hnext).cases with ⟨hs, ht⟩ | ⟨s'', t'', outputs, hs, ht, hlast⟩
        · rw [hs, ht]
          exact .none
        · rw [hs, ht]
          exact .some ⟨hlast, rfl⟩

/-- What a step preserves, a run preserves. -/
theorem run_invariant {step : S → E → Option (S × O)} {I : S → List E → Prop}
    (hstep : ∀ s e es s' o, I s (e :: es) → step s e = some (s', o) → I s' es)
    {s t : S} {es : List E} {outputs : List O} (h : I s es)
    (hrun : run step s es = some (t, outputs)) : I t [] := by
  induction es generalizing s outputs with
  | nil =>
      cases hrun
      exact h
  | cons e es ih =>
      simp only [run, Option.bind_eq_bind, Option.pure_def, Option.bind_eq_some_iff] at hrun
      obtain ⟨⟨s', output⟩, hs, ⟨u, rest⟩, hrest, heq⟩ := hrun
      cases heq
      exact ih (hstep s e es s' output h hs) hrest

end Kruspix.Lib.Simulation
