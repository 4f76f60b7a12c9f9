import Mathlib.Data.Set.Lattice
import Mathlib.Order.Bounds.Basic

/-!
# The least closed set of a dependency relation

A set is closed when it holds each live element whose dependencies it holds. A list
whose elements come after their dependencies stays inside every closed set, so it lists
the least one as soon as it is closed itself. The relation may have cycles.
-/

namespace Kruspix.Lib.LeastClosed

variable {α : Type*} {dep : α → α → Prop} {live : α → Prop} {l : List α}

/-- Every live element all of whose dependencies are in the set is in it. -/
def Closed (dep : α → α → Prop) (live : α → Prop) (s : Set α) : Prop :=
  ∀ a, live a → (∀ b, dep a b → b ∈ s) → a ∈ s

/-- Each element is live and comes after all that it depends on. -/
inductive Grounded (dep : α → α → Prop) (live : α → Prop) : List α → Prop
  | nil : Grounded dep live []
  | snoc {l : List α} {a : α} (h : Grounded dep live l) (hlive : live a)
      (hdep : ∀ b, dep a b → b ∈ l) : Grounded dep live (l ++ [a])

/-- The induction along the list: a closed set has the dependencies of an element
before it has the element. -/
theorem Grounded.subset {s : Set α} (h : Grounded dep live l) (hs : Closed dep live s) :
    ∀ a ∈ l, a ∈ s := by
  induction h with
  | nil => simp
  | snoc h hlive hdep ih =>
      intro b hb
      rcases List.mem_append.mp hb with hb | hb
      · exact ih b hb
      · rw [List.mem_singleton.mp hb]
        exact hs _ hlive fun c hc => ih c (hdep c hc)

theorem Grounded.isLeast (h : Grounded dep live l) (hl : Closed dep live {a | a ∈ l}) :
    IsLeast {s | Closed dep live s} {a | a ∈ l} :=
  ⟨hl, fun _ hs a ha => h.subset hs a ha⟩

end Kruspix.Lib.LeastClosed
