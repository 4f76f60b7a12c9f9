/-!
# Programs that take locks

A program runs with the locks that its callers hold, and with those it has taken itself
until their guards are dropped. One that takes a lock of either kind never gets it.
-/

namespace Kruspix.Lib.Locking

/-- Why a program does not return. -/
inductive Halt (L : Type)
  | panic
  | deadlock (lock : L)
  deriving DecidableEq, Repr

/-- Programs over the held locks and a state. -/
abbrev Prog (L S : Type) := ReaderT (List L) (StateT S (Except (Halt L)))

variable {L S α β : Type}

def panic : Prog L S α := fun _ _ => .error .panic

/-- `unwrap`, and other operations that fail. -/
def unwrap : Option α → Prog L S α
  | none => panic
  | some a => pure a

/-- Panic if the condition fails. -/
def assert (p : Prop) [Decidable p] : Prog L S Unit := if p then pure () else panic

/-- The guard is dropped when `x` returns. -/
def withLock [DecidableEq L] (lock : L) (x : Prog L S α) : Prog L S α := fun held s =>
  if lock ∈ held then .error (.deadlock lock) else x (lock :: held) s

/-- The program returns a value in a state with `Q`. -/
def Returns (x : Prog L S α) (held : List L) (s : S) (Q : α → S → Prop) : Prop :=
  ∃ a t, x held s = .ok (a, t) ∧ Q a t

/-- The program panics with these locks held. -/
def Panics (x : Prog L S α) (held : List L) (s : S) : Prop := x held s = .error .panic

variable {x : Prog L S α} {f : α → Prog L S β} {held : List L} {s : S} {Q R : α → S → Prop}

theorem bind_apply : (x >>= f) held s = x held s >>= fun p => f p.1 held p.2 := rfl

theorem Returns.pure {a : α} (h : Q a s) : Returns (Pure.pure a : Prog L S α) held s Q :=
  ⟨a, s, rfl, h⟩

theorem Returns.get {Q : S → S → Prop} (h : Q s s) :
    Returns (MonadState.get : Prog L S S) held s Q :=
  ⟨s, s, rfl, h⟩

theorem Returns.modify {g : S → S} {Q : PUnit → S → Prop} (h : Q ⟨⟩ (g s)) :
    Returns (MonadState.modifyGet fun s => (⟨⟩, g s) : Prog L S PUnit) held s Q :=
  ⟨⟨⟩, g s, rfl, h⟩

theorem Returns.bind {Q' : β → S → Prop} (h : Returns x held s Q)
    (hf : ∀ a t, Q a t → Returns (f a) held t Q') : Returns (x >>= f) held s Q' := by
  obtain ⟨a, t, hx, hQ⟩ := h
  obtain ⟨b, u, hfa, hQ'⟩ := hf a t hQ
  exact ⟨b, u, by rw [bind_apply, hx]; exact hfa, hQ'⟩

theorem Returns.withLock [DecidableEq L] {lock : L} (hfree : lock ∉ held)
    (h : Returns x (lock :: held) s Q) : Returns (withLock lock x) held s Q := by
  obtain ⟨a, t, hx, hQ⟩ := h
  exact ⟨a, t, by rw [Locking.withLock, if_neg hfree]; exact hx, hQ⟩

/-- A loop over a list, with an invariant of the state. -/
theorem Returns.forM {I : S → Prop} {l : List α} {g : α → Prog L S PUnit}
    (hg : ∀ a ∈ l, ∀ t, I t → Returns (g a) held t fun _ => I) (hs : I s) :
    Returns (l.forM g) held s fun _ => I := by
  induction l generalizing s with
  | nil => exact .pure hs
  | cons a l ih =>
      change Returns (g a >>= fun _ => l.forM g) held s _
      refine (hg a List.mem_cons_self s hs).bind fun _ t ht => ?_
      exact ih (fun b hb => hg b (List.mem_cons_of_mem a hb)) ht

theorem Panics.bind (h : Panics x held s) : Panics (x >>= f) held s := by
  rw [Panics, bind_apply, h]
  rfl

/-- What is done first returns. -/
theorem Returns.bind_panics (h : Returns x held s Q)
    (hf : ∀ a t, Q a t → Panics (f a) held t) : Panics (x >>= f) held s := by
  obtain ⟨a, t, hx, hQ⟩ := h
  rw [Panics, bind_apply, hx]
  exact hf a t hQ

theorem Panics.withLock [DecidableEq L] {lock : L} (hfree : lock ∉ held)
    (h : Panics x (lock :: held) s) : Panics (withLock lock x) held s := by
  rw [Panics, Locking.withLock, if_neg hfree]
  exact h

end Kruspix.Lib.Locking
