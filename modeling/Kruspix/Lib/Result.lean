/-!
# Computations that fail

`EStateM` returns a state with a result and with an error, `Except` returns the
error alone. The rules below peel one step off a computation.
-/

namespace Kruspix.Lib.Result

variable {ε σ α β : Type}

@[simp] theorem ofExcept_ok {a : α} {s : σ} :
    (ofExcept (.ok a : Except ε α) : EStateM ε σ α) s = .ok a s := rfl

@[simp] theorem ofExcept_error {e : ε} {s : σ} :
    (ofExcept (.error e) : EStateM ε σ α) s = .error e s := rfl

@[simp] theorem pure_apply {a : α} {s : σ} : (pure a : EStateM ε σ α) s = .ok a s := rfl

@[simp] theorem throw_apply {e : ε} {s : σ} : (throw e : EStateM ε σ α) s = .error e s := rfl

@[simp] theorem modify_apply {f : σ → σ} {s : σ} :
    (modify f : EStateM ε σ PUnit) s = .ok ⟨⟩ (f s) := rfl

@[simp] theorem modifyGet_apply {f : σ → α × σ} {s : σ} :
    (modifyGet f : EStateM ε σ α) s = .ok (f s).1 (f s).2 := rfl

@[simp] theorem get_apply {s : σ} : (get : EStateM ε σ σ) s = .ok s s := rfl

theorem bind_ok {x : EStateM ε σ α} {f : α → EStateM ε σ β} {s t : σ} {a : α}
    (h : x s = .ok a t) : (x >>= f) s = f a t := by
  simp only [bind, EStateM.bind, h]

theorem bind_error {x : EStateM ε σ α} {f : α → EStateM ε σ β} {s t : σ} {e : ε}
    (h : x s = .error e t) : (x >>= f) s = .error e t := by
  simp only [bind, EStateM.bind, h]

/-- A sequence that succeeds succeeds in both parts. -/
theorem bind_eq_ok {x : EStateM ε σ α} {f : α → EStateM ε σ β} {s u : σ} {b : β}
    (h : (x >>= f) s = .ok b u) : ∃ a t, x s = .ok a t ∧ f a t = .ok b u := by
  cases hx : x s with
  | ok a t => exact ⟨a, t, rfl, by rw [bind_ok hx] at h; exact h⟩
  | error e t =>
      rw [bind_error hx] at h
      cases h

/-- A sequence that fails fails in one of its parts. -/
theorem bind_eq_error {x : EStateM ε σ α} {f : α → EStateM ε σ β} {s u : σ} {e : ε}
    (h : (x >>= f) s = .error e u) :
    x s = .error e u ∨ ∃ a t, x s = .ok a t ∧ f a t = .error e u := by
  cases hx : x s with
  | ok a t => exact .inr ⟨a, t, rfl, by rw [bind_ok hx] at h; exact h⟩
  | error e' t =>
      rw [bind_error hx] at h
      cases h
      exact .inl rfl

/-- The state moves along a relation, with a result and with an error. -/
def Moves (r : σ → σ → Prop) (x : EStateM ε σ α) (s : σ) : Prop :=
  match x s with
  | .ok _ t => r s t
  | .error _ t => r s t

section Moves

variable {r : σ → σ → Prop} {x : EStateM ε σ α} {f : α → EStateM ε σ β} {s t : σ}

theorem Moves.ok {a : α} (h : Moves r x s) (hx : x s = .ok a t) : r s t := by
  rw [Moves, hx] at h
  exact h

theorem Moves.error {e : ε} (h : Moves r x s) (hx : x s = .error e t) : r s t := by
  rw [Moves, hx] at h
  exact h

theorem moves_of (hok : ∀ a t, x s = .ok a t → r s t) (herror : ∀ e t, x s = .error e t → r s t) :
    Moves r x s := by
  rw [Moves]
  split
  · rename_i a t hx
    exact hok a t hx
  · rename_i e t hx
    exact herror e t hx

theorem Moves.get (hrefl : r s s) : Moves r (get : EStateM ε σ σ) s := hrefl

theorem Moves.ofExcept (hrefl : r s s) {x : Except ε α} :
    Moves r (ofExcept x : EStateM ε σ α) s := by
  cases x with
  | ok a => exact hrefl
  | error e => exact hrefl

theorem Moves.bind (htrans : ∀ s t u, r s t → r t u → r s u) (hx : Moves r x s)
    (hf : ∀ a t, x s = .ok a t → Moves r (f a) t) : Moves r (x >>= f) s := by
  cases hrun : x s with
  | ok a t =>
      apply moves_of
      · intro b u hb
        rw [bind_ok hrun] at hb
        exact htrans _ _ _ (hx.ok hrun) ((hf a t hrun).ok hb)
      · intro e u he
        rw [bind_ok hrun] at he
        exact htrans _ _ _ (hx.ok hrun) ((hf a t hrun).error he)
  | error e t =>
      rw [Moves, bind_error hrun]
      exact hx.error hrun

end Moves

/-- The value and the state of a computation that succeeded. -/
def okResult : EStateM.Result ε σ α → Option (α × σ)
  | .ok a s => some (a, s)
  | .error _ _ => none

/-- The error and the state of a computation that failed. -/
def errorResult : EStateM.Result ε σ α → Option (ε × σ)
  | .ok _ _ => none
  | .error e s => some (e, s)

theorem okResult_eq_some {r : EStateM.Result ε σ α} {a : α × σ} (h : okResult r = some a) :
    r = .ok a.1 a.2 := by
  cases r with
  | ok _ _ =>
      cases h
      rfl
  | error _ _ => cases h

theorem errorResult_eq_some {r : EStateM.Result ε σ α} {e : ε × σ}
    (h : errorResult r = some e) : r = .error e.1 e.2 := by
  cases r with
  | ok _ _ => cases h
  | error _ _ =>
      cases h
      rfl

@[simp] theorem except_ok_bind {a : α} {f : α → Except ε β} :
    ((.ok a : Except ε α) >>= f) = f a := rfl

@[simp] theorem except_error_bind {e : ε} {f : α → Except ε β} :
    ((.error e : Except ε α) >>= f) = .error e := rfl

@[simp] theorem except_pure {a : α} : (pure a : Except ε α) = .ok a := rfl

/-- A sequence that succeeds succeeds in both parts. -/
theorem except_bind_eq_ok {x : Except ε α} {f : α → Except ε β} {b : β} :
    (x >>= f) = .ok b ↔ ∃ a, x = .ok a ∧ f a = .ok b := by
  cases x with
  | ok a => simp
  | error e => simp

theorem except_map_eq_ok {x : Except ε α} {f : α → β} {b : β} :
    x.map f = .ok b ↔ ∃ a, x = .ok a ∧ f a = b := by
  cases x with
  | ok a => simp [Except.map]
  | error e => simp [Except.map]

theorem except_toOption_eq_some {x : Except ε α} {a : α} : x.toOption = some a ↔ x = .ok a := by
  cases x with
  | ok a => simp [Except.toOption]
  | error e => simp [Except.toOption]

end Kruspix.Lib.Result
