import Mathlib.Data.List.Nodup
import Mathlib.Logic.Function.Basic

/-!
# Locks that are taken by an exchange

A lock is a word that the holder has set. Who finds it clear and sets it in one access has the
lock until it clears the word.
-/

namespace Kruspix.Lib.TestAndSet

variable {C L : Type*} [DecidableEq C] [DecidableEq L]

/-- The words of the locks, and the locks that each core has. -/
structure Exclusive (locks : L → Bool) (held : C → List L) : Prop where
  taken : ∀ l, locks l = true ↔ ∃ c, l ∈ held c
  once : ∀ c, (held c).Nodup
  alone : ∀ c d l, l ∈ held c → l ∈ held d → c = d

variable {locks : L → Bool} {held held' : C → List L} {c : C} {l : L}

omit [DecidableEq C] [DecidableEq L] in
theorem exclusive_free : Exclusive (fun _ : L => false) (fun _ : C => []) := by
  refine ⟨fun l => iff_of_false Bool.false_ne_true ?_, fun c => List.nodup_nil, fun c d l hc => ?_⟩
  · rintro ⟨c, hc⟩
    cases hc
  · cases hc

omit [DecidableEq C] [DecidableEq L] in
/-- The order in which a core has its locks does not matter. -/
theorem Exclusive.congr (h : Exclusive locks held) (hperm : ∀ c, (held' c).Perm (held c)) :
    Exclusive locks held' := by
  refine ⟨fun l => ?_, fun c => (hperm c).nodup_iff.mpr (h.once c), fun c d l hc hd => ?_⟩
  · rw [h.taken]
    exact exists_congr fun c => (hperm c).mem_iff.symm
  · exact h.alone c d l ((hperm c).mem_iff.mp hc) ((hperm d).mem_iff.mp hd)

theorem Exclusive.acquire (h : Exclusive locks held) (hl : locks l = false) :
    Exclusive (Function.update locks l true) (Function.update held c (l :: held c)) := by
  have hfree : ∀ d, l ∉ held d := fun d hd => by
    have htaken := (h.taken l).mpr ⟨d, hd⟩
    rw [hl] at htaken
    cases htaken
  have hmem : ∀ d k, k ∈ Function.update held c (l :: held c) d ↔
      (d = c ∧ k = l) ∨ k ∈ held d := by
    intro d k
    by_cases hd : d = c
    · rw [hd, Function.update_self, List.mem_cons]
      simp only [true_and]
    · rw [Function.update_of_ne hd]
      simp only [hd, false_and, false_or]
  refine ⟨fun k => ?_, fun d => ?_, fun d e k => ?_⟩
  · by_cases hk : k = l
    · rw [hk, Function.update_self]
      exact iff_of_true rfl ⟨c, (hmem c l).mpr (.inl ⟨rfl, rfl⟩)⟩
    · rw [Function.update_of_ne hk, h.taken]
      refine exists_congr fun d => ?_
      rw [hmem]
      simp only [hk, and_false, false_or]
  · by_cases hd : d = c
    · rw [hd, Function.update_self]
      exact List.nodup_cons.mpr ⟨hfree c, h.once c⟩
    · rw [Function.update_of_ne hd]
      exact h.once d
  · rw [hmem, hmem]
    rintro (⟨rfl, rfl⟩ | hd) (⟨rfl, heq⟩ | he)
    · rfl
    · exact absurd he (hfree e)
    · exact absurd (heq ▸ hd) (hfree d)
    · exact h.alone d e k hd he

theorem Exclusive.release {rest : List L} (h : Exclusive locks held)
    (hc : (held c).Perm (l :: rest)) :
    Exclusive (Function.update locks l false) (Function.update held c rest) := by
  have hmine : l ∈ held c := hc.mem_iff.mpr List.mem_cons_self
  have hnodup := hc.nodup_iff.mp (h.once c)
  obtain ⟨hrest, hnodup⟩ := List.nodup_cons.mp hnodup
  have hmem : ∀ d k, k ∈ Function.update held c rest d ↔ k ∈ held d ∧ k ≠ l := by
    intro d k
    by_cases hd : d = c
    · rw [hd, Function.update_self, hc.mem_iff, List.mem_cons]
      constructor
      · intro hk
        exact ⟨.inr hk, fun heq => hrest (heq ▸ hk)⟩
      · rintro ⟨rfl | hk, hne⟩
        · exact absurd rfl hne
        · exact hk
    · rw [Function.update_of_ne hd]
      exact ⟨fun hk => ⟨hk, fun heq => hd (h.alone d c l (heq ▸ hk) hmine)⟩, And.left⟩
  refine ⟨fun k => ?_, fun d => ?_, fun d e k => ?_⟩
  · by_cases hk : k = l
    · rw [hk, Function.update_self]
      refine iff_of_false Bool.false_ne_true ?_
      rintro ⟨d, hd⟩
      exact ((hmem d l).mp hd).2 rfl
    · rw [Function.update_of_ne hk, h.taken]
      refine exists_congr fun d => ?_
      rw [hmem]
      exact (and_iff_left hk).symm
  · by_cases hd : d = c
    · rw [hd, Function.update_self]
      exact hnodup
    · rw [Function.update_of_ne hd]
      exact h.once d
  · rw [hmem, hmem]
    rintro ⟨hd, -⟩ ⟨he, -⟩
    exact h.alone d e k hd he

end Kruspix.Lib.TestAndSet
