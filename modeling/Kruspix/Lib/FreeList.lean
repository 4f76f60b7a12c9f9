import Mathlib.Data.List.Nodup

/-!
# Linked lists in memory

A list in memory is a pointer to its first node, and every node holds the
pointer to the next one. The last node holds the null pointer.
-/

namespace Kruspix.Lib.FreeList

variable {A : Type*} {null : A} {next next' : A → A}

/-- The nodes of the list that starts at a pointer. -/
def Chain (null : A) (next : A → A) : A → List A → Prop
  | p, [] => p = null
  | p, b :: bs => p = b ∧ b ≠ null ∧ Chain null next (next b) bs

theorem chain_null : Chain null next null [] := rfl

/-- A list depends on the pointers its nodes hold. -/
theorem Chain.congr {p : A} {bs : List A} (h : Chain null next p bs)
    (heq : ∀ b ∈ bs, next' b = next b) : Chain null next' p bs := by
  induction bs generalizing p with
  | nil => exact h
  | cons b bs ih =>
      obtain ⟨rfl, hne, hrest⟩ := h
      refine ⟨rfl, hne, ?_⟩
      rw [heq p List.mem_cons_self]
      exact ih hrest fun c hc => heq c (List.mem_cons_of_mem p hc)

/-- A node that points to the head of a list makes a longer list. -/
theorem Chain.push {p b : A} {bs : List A} (h : Chain null next p bs) (hb : b ≠ null)
    (hnext : next b = p) : Chain null next b (b :: bs) :=
  ⟨rfl, hb, hnext.symm ▸ h⟩

/-- The list behind the first node. -/
theorem Chain.tail {p b : A} {bs : List A} (h : Chain null next p (b :: bs)) :
    Chain null next (next p) bs := by
  obtain ⟨rfl, _, hrest⟩ := h
  exact hrest

/-- A list that does not start with null has a first node. -/
theorem Chain.exists_cons {p : A} {bs : List A} (h : Chain null next p bs) (hp : p ≠ null) :
    ∃ rest, bs = p :: rest := by
  cases bs with
  | nil => exact absurd h hp
  | cons b rest =>
      obtain ⟨rfl, _, _⟩ := h
      exact ⟨rest, rfl⟩

/-- A list is empty exactly if it starts with null. -/
theorem Chain.eq_null_iff {p : A} {bs : List A} (h : Chain null next p bs) :
    p = null ↔ bs = [] := by
  constructor
  · intro hp
    cases bs with
    | nil => rfl
    | cons b rest =>
        obtain ⟨rfl, hne, _⟩ := h
        exact absurd hp hne
  · rintro rfl
    exact h

end Kruspix.Lib.FreeList
