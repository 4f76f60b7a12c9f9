/-!
# Loops

A loop over a range runs its body for each number of the range. The body may fail, or
stop the loop before the end of the range. A loop without a range goes on until its
body stops it, and is run for as many turns as it is given.
-/

namespace Kruspix.Lib.Loop

variable {ε σ : Type}

/-- What comes after a turn of a loop: the next turn, or the end by a `break`. -/
inductive Turn (σ : Type)
  | next (s : σ)
  | stop (s : σ)

/-- The `n` turns from `i` on. -/
def turns (body : Nat → σ → Except ε (Turn σ)) : Nat → Nat → σ → Except ε σ
  | _, 0, s => .ok s
  | i, n + 1, s =>
      match body i s with
      | .error e => .error e
      | .ok (.next s) => turns body (i + 1) n s
      | .ok (.stop s) => .ok s

/-- `for i in start..stop`. -/
def forRange (start stop : Nat) (s : σ) (body : Nat → σ → Except ε (Turn σ)) : Except ε σ :=
  turns body start (stop - start) s

theorem turns_spec {body : Nat → σ → Except ε (Turn σ)} {i n : Nat} {I : Nat → σ → Prop}
    {Q : σ → Prop}
    (hbody : ∀ j s, i ≤ j → j < i + n → I j s → ∃ t,
      (body j s = .ok (.next t) ∧ I (j + 1) t) ∨ (body j s = .ok (.stop t) ∧ Q t))
    (hend : ∀ s, I (i + n) s → Q s) {s : σ} (h : I i s) :
    ∃ t, turns body i n s = .ok t ∧ Q t := by
  induction n generalizing i s with
  | zero => exact ⟨s, rfl, hend s h⟩
  | succ n ih =>
      obtain ⟨t, ⟨hturn, ht⟩ | ⟨hturn, ht⟩⟩ := hbody i s (Nat.le_refl i) (by omega) h
      · rw [turns, hturn]
        refine ih (fun j s hij hj => hbody j s (by omega) (by omega)) (fun s hs => hend s ?_) ht
        rw [Nat.add_right_comm, Nat.add_assoc] at hs
        exact hs
      · rw [turns, hturn]
        exact ⟨t, rfl, ht⟩

/-- The rule of a loop with an invariant, which counts the turns that are done. -/
theorem forRange_spec {body : Nat → σ → Except ε (Turn σ)} {start stop : Nat}
    {I : Nat → σ → Prop} {Q : σ → Prop} (hle : start ≤ stop)
    (hbody : ∀ i s, start ≤ i → i < stop → I i s → ∃ t,
      (body i s = .ok (.next t) ∧ I (i + 1) t) ∨ (body i s = .ok (.stop t) ∧ Q t))
    (hend : ∀ s, I stop s → Q s) {s : σ} (h : I start s) :
    ∃ t, forRange start stop s body = .ok t ∧ Q t := by
  have hstop : start + (stop - start) = stop := by omega
  refine turns_spec (fun j s hj hlt => hbody j s hj (by omega)) (fun s hs => hend s ?_) h
  rw [hstop] at hs
  exact hs

/-- A loop that is stopped at a number, if it gets there, ends before it. -/
theorem forRange_cut {body : Nat → σ → Except ε (Turn σ)} {start stop cut : Nat} (hcut : cut ≤ stop)
    (hstop : cut < stop → ∀ s, body cut s = .ok (.stop s)) (s : σ) (hle : start ≤ cut) :
    forRange start stop s body = forRange start cut s body := by
  unfold forRange
  generalize hn : cut - start = n
  induction n generalizing start s with
  | zero =>
      obtain rfl : cut = start := by omega
      rcases Nat.lt_or_eq_of_le hcut with hlt | rfl
      · have hturns : turns body cut (stop - cut - 1 + 1) s = .ok s := by rw [turns, hstop hlt]
        rw [show stop - cut = stop - cut - 1 + 1 by omega, hturns, turns]
      · rw [Nat.sub_self]
  | succ n ih =>
      rw [show stop - start = stop - (start + 1) + 1 by omega, turns, turns]
      split
      · rfl
      · exact ih _ (by omega) (by omega)
      · rfl

/-- The rule of a loop that is never stopped. -/
theorem forRange_next {body : Nat → σ → Except ε (Turn σ)} {start stop : Nat}
    {I : Nat → σ → Prop} (hle : start ≤ stop)
    (hbody : ∀ i s, start ≤ i → i < stop → I i s → ∃ t, body i s = .ok (.next t) ∧ I (i + 1) t)
    {s : σ} (h : I start s) : ∃ t, forRange start stop s body = .ok t ∧ I stop t := by
  refine forRange_spec hle (fun i s hi hlt hs => ?_) (fun _ => id) h
  obtain ⟨t, ht⟩ := hbody i s hi hlt hs
  exact ⟨t, .inl ht⟩

/-- A loop that is never stopped fails if one of its turns fails. -/
theorem forRange_error {body : Nat → σ → Except ε (Turn σ)} {start stop k : Nat}
    (hbody : ∀ i s t, start ≤ i → i < stop → body i s ≠ .ok (.stop t)) (hk : start ≤ k)
    (hlt : k < stop) (hfail : ∀ s, ∃ e, body k s = .error e) (s : σ) :
    ∃ e, forRange start stop s body = .error e := by
  unfold forRange
  generalize hn : k - start = n
  induction n generalizing start s with
  | zero =>
      obtain rfl : k = start := by omega
      obtain ⟨e, he⟩ := hfail s
      rw [show stop - k = stop - k - 1 + 1 by omega, turns, he]
      exact ⟨e, rfl⟩
  | succ n ih =>
      rw [show stop - start = stop - (start + 1) + 1 by omega, turns]
      cases hturn : body start s with
      | error e => exact ⟨e, rfl⟩
      | ok t =>
          cases t with
          | next t => exact ih (fun i s t hi => hbody i s t (by omega)) (by omega) t (by omega)
          | stop t => exact absurd hturn (hbody start s t (Nat.le_refl _) (by omega))

/-- A loop that its body ends, if that happens within the turns that are given. -/
def loopFor (body : σ → Turn σ) : Nat → σ → Option σ
  | 0, _ => none
  | n + 1, s =>
      match body s with
      | .next t => loopFor body n t
      | .stop t => some t

/-- The rule of a loop with an invariant and a number that every turn makes smaller. -/
theorem loopFor_spec {body : σ → Turn σ} {I Q : σ → Prop} (size : σ → Nat)
    (hbody : ∀ s, I s → (∃ t, body s = .next t ∧ I t ∧ size t < size s) ∨
      ∃ t, body s = .stop t ∧ Q t) {s : σ} (h : I s) :
    ∃ fuel t, loopFor body fuel s = some t ∧ Q t := by
  generalize hn : size s = n
  induction n using Nat.strongRecOn generalizing s with
  | _ n ih =>
      rcases hbody s h with ⟨t, hturn, ht, hlt⟩ | ⟨t, hturn, ht⟩
      · obtain ⟨fuel, u, hu, hQ⟩ := ih (size t) (hn ▸ hlt) ht rfl
        refine ⟨fuel + 1, u, ?_, hQ⟩
        rw [loopFor, hturn]
        exact hu
      · refine ⟨1, t, ?_, ht⟩
        rw [loopFor, hturn]

/-- A body that never stops the loop. -/
theorem loopFor_eq_none {body : σ → Turn σ} {I : σ → Prop}
    (hbody : ∀ s, I s → ∃ t, body s = .next t ∧ I t) (fuel : Nat) {s : σ} (h : I s) :
    loopFor body fuel s = none := by
  induction fuel generalizing s with
  | zero => rfl
  | succ fuel ih =>
      obtain ⟨t, hturn, ht⟩ := hbody s h
      rw [loopFor, hturn]
      exact ih ht

end Kruspix.Lib.Loop
