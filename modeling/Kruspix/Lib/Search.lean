import Mathlib.Data.List.Forall2

/-!
# Searches in related lists

Two lists whose items are related, and on which the tests agree, give related results.
-/

namespace Kruspix.Lib.Search

variable {ε α β : Type} {R : α → β → Prop} {as : List α} {bs : List β}

theorem rel_some {a? : Option α} {b : β} (h : Option.Rel R a? (some b)) :
    ∃ a, a? = some a ∧ R a b := by
  cases h with
  | some h => exact ⟨_, rfl, h⟩

theorem find?_rel {p : α → Bool} {q : β → Bool} (h : List.Forall₂ R as bs)
    (hpq : ∀ a b, R a b → p a = q b) : Option.Rel R (as.find? p) (bs.find? q) := by
  induction h with
  | nil => exact .none
  | @cons a b as bs hab _ ih =>
      rw [List.find?_cons, List.find?_cons, hpq a b hab]
      cases q b with
      | true => exact .some hab
      | false => exact ih

theorem forall₂_exists_right {a : α} (h : List.Forall₂ R as bs) (ha : a ∈ as) :
    ∃ b ∈ bs, R a b := by
  induction h with
  | nil => cases ha
  | cons hab _ ih =>
      rcases List.mem_cons.mp ha with rfl | ha
      · exact ⟨_, List.mem_cons_self, hab⟩
      · obtain ⟨b, hb, hab⟩ := ih ha
        exact ⟨b, List.mem_cons_of_mem _ hb, hab⟩

/-- What `findM?` returns is the first item that passes the test. -/
theorem findM?_eq_some_iff {p : α → Except ε Bool} {a : α} :
    as.findM? p = .ok (some a) ↔ ∃ before after, as = before ++ a :: after ∧
      (∀ b ∈ before, p b = .ok false) ∧ p a = .ok true := by
  induction as with
  | nil =>
      constructor
      · intro h
        cases h
      · rintro ⟨before, after, h, -⟩
        cases before <;> cases h
  | cons a' as ih =>
      rw [List.findM?]
      constructor
      · intro h
        cases hp : p a' with
        | error e =>
            rw [hp] at h
            cases h
        | ok found =>
            rw [hp] at h
            cases found with
            | true =>
                cases h
                exact ⟨[], as, rfl, fun _ hb => absurd hb List.not_mem_nil, hp⟩
            | false =>
                obtain ⟨before, after, rfl, hbefore, ha⟩ := ih.mp h
                exact ⟨a' :: before, after, rfl, List.forall_mem_cons.mpr ⟨hp, hbefore⟩, ha⟩
      · rintro ⟨before, after, has, hbefore, ha⟩
        cases before with
        | nil =>
            cases has
            rw [ha]
            rfl
        | cons b before =>
            cases has
            obtain ⟨hb, hbefore⟩ := List.forall_mem_cons.mp hbefore
            rw [hb]
            exact ih.mpr ⟨before, after, rfl, hbefore, ha⟩

theorem findM?_eq_none_iff {p : α → Except ε Bool} :
    as.findM? p = .ok none ↔ ∀ a ∈ as, p a = .ok false := by
  induction as with
  | nil => exact iff_of_true rfl fun _ ha => absurd ha List.not_mem_nil
  | cons a as ih =>
      rw [List.findM?, List.forall_mem_cons]
      cases hp : p a with
      | error e =>
          constructor
          · intro h
            cases h
          · rintro ⟨h, -⟩
            cases h
      | ok found =>
          cases found with
          | true =>
              constructor
              · intro h
                cases h
              · rintro ⟨h, -⟩
                cases h
          | false => exact ih.trans (and_iff_right rfl).symm

theorem findM?_rel {p : α → Except ε Bool} {q : β → Except ε Bool} {a? : Option α}
    {b? : Option β} (h : List.Forall₂ R as bs) (hpq : ∀ a b, R a b → p a = q b)
    (ha : as.findM? p = .ok a?) (hb : bs.findM? q = .ok b?) : Option.Rel R a? b? := by
  induction h with
  | nil =>
      cases ha
      cases hb
      exact .none
  | @cons a b as bs hab _ ih =>
      rw [List.findM?, hpq a b hab] at ha
      rw [List.findM?] at hb
      cases hq : q b with
      | error e =>
          rw [hq] at hb
          cases hb
      | ok found =>
          rw [hq] at ha hb
          cases found with
          | true =>
              cases ha
              cases hb
              exact .some hab
          | false => exact ih ha hb

end Kruspix.Lib.Search
