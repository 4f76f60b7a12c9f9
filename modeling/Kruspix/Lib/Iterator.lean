import Mathlib.Data.List.Forall2

/-!
# Iterators that may fault

An iterator is a step that ends, yields an item or faults, and a size that each
item decreases, so that every loop over it ends. `Yields` says which items come
before the end. A search or a loop over an iterator is then the same search or
loop over a list, also through `filter` and through `flat_map`.
-/

namespace Kruspix.Lib.Iterator

variable {ε σ τ α β γ δ : Type}

/-- A step on states with a size that every item decreases. -/
structure Iter (ε σ α : Type) where
  next : σ → Except ε (Option α × σ)
  size : σ → Nat
  size_lt : ∀ {s t : σ} {a : α}, next s = .ok (some a, t) → size t < size s

namespace Iter

/-- `Iterator::find`. -/
def find (it : Iter ε σ α) (p : α → Bool) (s : σ) : Except ε (Option α) :=
  match _h : it.next s with
  | .error e => .error e
  | .ok (none, _) => .ok none
  | .ok (some a, t) => if p a then .ok (some a) else it.find p t
termination_by it.size s
decreasing_by exact it.size_lt _h

/-- A `for` loop whose body may return early. -/
def forEach (it : Iter ε σ α) (f : β → α → Except ε (β ⊕ γ)) (b : β) (s : σ) :
    Except ε (β ⊕ γ) :=
  match _h : it.next s with
  | .error e => .error e
  | .ok (none, _) => .ok (.inl b)
  | .ok (some a, t) =>
      match f b a with
      | .error e => .error e
      | .ok (.inr c) => .ok (.inr c)
      | .ok (.inl b') => it.forEach f b' t
termination_by it.size s
decreasing_by exact it.size_lt _h

/-- `Iterator::collect`. -/
def collect (it : Iter ε σ α) (s : σ) : Except ε (List α) :=
  match _h : it.next s with
  | .error e => .error e
  | .ok (none, _) => .ok []
  | .ok (some a, t) => (it.collect t).map (a :: ·)
termination_by it.size s
decreasing_by exact it.size_lt _h

/-- The next item that passes a test. -/
def nextWhere (it : Iter ε σ α) (p : α → Bool) (s : σ) : Except ε (Option α × σ) :=
  match _h : it.next s with
  | .error e => .error e
  | .ok (none, t) => .ok (none, t)
  | .ok (some a, t) => if p a then .ok (some a, t) else it.nextWhere p t
termination_by it.size s
decreasing_by exact it.size_lt _h

theorem nextWhere_size {it : Iter ε σ α} {p : α → Bool} {s t : σ} {a : α}
    (h : it.nextWhere p s = .ok (some a, t)) : it.size t < it.size s := by
  fun_induction it.nextWhere p s with
  | case1 s e he => cases h
  | case2 s u hu => cases h
  | case3 s b u hu hp =>
      cases h
      exact it.size_lt hu
  | case4 s b u hu hp ih => exact Nat.lt_trans (ih h) (it.size_lt hu)

/-- `Iterator::filter`. -/
def filter (it : Iter ε σ α) (p : α → Bool) : Iter ε σ α where
  next := it.nextWhere p
  size := it.size
  size_lt := nextWhere_size

/-- `Iterator::find_map`. -/
def findMap (it : Iter ε σ α) (f : α → Option γ) (s : σ) : Except ε (Option γ) :=
  (it.forEach (fun _ a => .ok ((f a).elim (.inl ()) .inr)) () s).map Sum.getRight?

/-- A `for` loop over `flat_map`, whose body may leave the loop. -/
def forEachFlat (it : Iter ε σ α) (inner : α → Except ε τ) (it' : Iter ε τ δ)
    (f : β → δ → Except ε (β ⊕ γ)) (b : β) (s : σ) : Except ε (β ⊕ γ) :=
  it.forEach (fun b a => do it'.forEach f b (← inner a)) b s

/-- The items that come before the end. -/
inductive Yields (it : Iter ε σ α) : σ → List α → Prop
  | done {s t : σ} : it.next s = .ok (none, t) → Yields it s []
  | more {s t : σ} {a : α} {as : List α} : it.next s = .ok (some a, t) → Yields it t as →
      Yields it s (a :: as)

/-- The items between two states. -/
inductive Steps (it : Iter ε σ α) : σ → List α → σ → Prop
  | nil {s : σ} : Steps it s [] s
  | cons {s t u : σ} {a : α} {as : List α} : it.next s = .ok (some a, t) → Steps it t as u →
      Steps it s (a :: as) u

/-- The loop of `forEach` over a list. -/
def forList (f : β → α → Except ε (β ⊕ γ)) : β → List α → Except ε (β ⊕ γ)
  | b, [] => .ok (.inl b)
  | b, a :: as =>
      match f b a with
      | .error e => .error e
      | .ok (.inr c) => .ok (.inr c)
      | .ok (.inl b') => forList f b' as

variable {it : Iter ε σ α} {s t u : σ} {as bs : List α}

theorem Steps.append (h : Steps it s as t) (h' : Steps it t bs u) : Steps it s (as ++ bs) u := by
  induction h with
  | nil => exact h'
  | cons hnext _ ih => exact .cons hnext (ih h')

theorem Steps.yields (h : Steps it s as t) (h' : Yields it t bs) : Yields it s (as ++ bs) := by
  induction h with
  | nil => exact h'
  | cons hnext _ ih => exact .more hnext (ih h')

/-- States with the same step yield the same items. -/
theorem Yields.congr (h : Yields it t as) (hnext : it.next s = it.next t) : Yields it s as := by
  cases h with
  | done h => exact .done (hnext.trans h)
  | more h hrest => exact .more (hnext.trans h) hrest

/-- A search fails where the iterator does. -/
theorem find_error {e : ε} (h : it.next s = .error e) (p : α → Bool) :
    it.find p s = .error e := by
  rw [Iter.find]
  split <;> simp_all

/-- A search sees the items that are yielded. -/
theorem Yields.find (h : Yields it s as) (p : α → Bool) : it.find p s = .ok (as.find? p) := by
  induction h with
  | done hnext =>
      rw [Iter.find]
      split <;> simp_all
  | more hnext _ ih =>
      rw [Iter.find]
      split <;> simp_all [List.find?_cons]
      split <;> simp_all

/-- A loop sees the items that are yielded. -/
theorem Yields.forEach (h : Yields it s as) (f : β → α → Except ε (β ⊕ γ)) (b : β) :
    it.forEach f b s = forList f b as := by
  induction h generalizing b with
  | done hnext =>
      rw [Iter.forEach]
      split <;> simp_all [forList]
  | more hnext _ ih =>
      rw [Iter.forEach, forList]
      split <;> simp_all

/-- A filter yields the items that pass the test. -/
theorem Yields.filter (h : Yields it s as) (p : α → Bool) :
    Yields (it.filter p) s (as.filter p) := by
  induction h with
  | @done s t hnext =>
      apply Yields.done (t := t)
      change it.nextWhere p s = _
      rw [nextWhere]
      split <;> simp_all
  | @more s t a as hnext _ ih =>
      have hwhere : it.nextWhere p s =
          if p a then .ok (some a, t) else it.nextWhere p t := by
        rw [nextWhere]
        split <;> simp_all
      by_cases hp : p a = true
      · rw [List.filter_cons_of_pos hp]
        rw [if_pos hp] at hwhere
        exact .more hwhere ih
      · rw [List.filter_cons_of_neg hp]
        rw [if_neg hp] at hwhere
        exact ih.congr hwhere

/-- `collect` returns the items that are yielded. -/
theorem Yields.collect (h : Yields it s as) : it.collect s = .ok as := by
  induction h with
  | done hnext =>
      rw [Iter.collect]
      split <;> simp_all
  | more hnext _ ih =>
      rw [Iter.collect]
      split <;> simp_all [Except.map]

theorem Yields.findMap (h : Yields it s as) (f : α → Option γ) :
    it.findMap f s = .ok (as.findSome? f) := by
  rw [Iter.findMap, h.forEach]
  clear h
  induction as with
  | nil => rfl
  | cons a as ih =>
      rw [forList, List.findSome?_cons]
      cases f a with
      | none => exact ih
      | some c => rfl

/-! ## Loops over lists -/

/-- What comes behind a loop, if the loop has not been left. -/
def proceed (result : Except ε (β ⊕ γ)) (next : β → Except ε (β ⊕ γ)) : Except ε (β ⊕ γ) :=
  match result with
  | .error e => .error e
  | .ok (.inl b) => next b
  | .ok (.inr c) => .ok (.inr c)

theorem forList_cons (f : β → α → Except ε (β ⊕ γ)) (b : β) (a : α) (as : List α) :
    forList f b (a :: as) = proceed (f b a) fun b => forList f b as := by
  rw [forList]
  cases f b a with
  | error e => rfl
  | ok result =>
      cases result with
      | inl b => rfl
      | inr c => rfl

theorem forList_append (f : β → α → Except ε (β ⊕ γ)) (b : β) (as bs : List α) :
    forList f b (as ++ bs) = proceed (forList f b as) fun b => forList f b bs := by
  induction as generalizing b with
  | nil => rfl
  | cons a as ih =>
      rw [List.cons_append, forList_cons, forList_cons]
      cases f b a with
      | error e => rfl
      | ok result =>
          cases result with
          | inl b => exact ih b
          | inr c => rfl

/-- Loops whose bodies agree on related items agree. -/
theorem forList_congr {R : α → δ → Prop} {f : β → α → Except ε (β ⊕ γ)}
    {g : β → δ → Except ε (β ⊕ γ)} {as : List α} {ds : List δ} (h : List.Forall₂ R as ds)
    (hfg : ∀ b a d, R a d → f b a = g b d) (b : β) : forList f b as = forList g b ds := by
  induction h generalizing b with
  | nil => rfl
  | @cons a d as ds had _ ih =>
      rw [forList, forList, hfg b a d had]
      simp only [ih]

/-- A loop of loops is one loop over all the items. -/
theorem forList_flatten (f : β → δ → Except ε (β ⊕ γ)) (b : β) (items : List (List δ)) :
    forList (forList f) b items = forList f b items.flatten := by
  induction items generalizing b with
  | nil => rfl
  | cons ds items ih =>
      rw [List.flatten_cons, forList_append, forList_cons]
      cases forList f b ds with
      | error e => rfl
      | ok result =>
          cases result with
          | inl b => exact ih b
          | inr c => rfl

/-- A loop over `flat_map` sees the items of the inner iterators, one after the other. -/
theorem Yields.forEachFlat {it' : Iter ε τ δ} {inner : α → Except ε τ} {items : List (List δ)}
    (h : Yields it s as)
    (hitems : List.Forall₂ (fun a ds => ∃ t, inner a = .ok t ∧ Yields it' t ds) as items)
    (f : β → δ → Except ε (β ⊕ γ)) (b : β) :
    it.forEachFlat inner it' f b s = forList f b items.flatten := by
  rw [Iter.forEachFlat, h.forEach, ← forList_flatten]
  apply forList_congr hitems
  rintro b a ds ⟨t, ht, hyields⟩
  rw [ht]
  exact hyields.forEach f b

end Iter

end Kruspix.Lib.Iterator
