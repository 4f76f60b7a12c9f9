import Mathlib.Data.List.Basic

/-!
# A setting that is saved and restored

Each user of a setting saves its value, masks it, and restores the value later. The users may
end in any order. The setting stays masked until the last of them ends, and has its first
value then, unless a value that was not masked is restored too early.
-/

namespace Kruspix.Lib.SavedSetting

variable {σ : Type*} {mask : σ → σ} {before value v : σ} {saved rest : List σ}

/-- The setting with the saved values that are still to be restored. -/
structure Kept (mask : σ → σ) (before value : σ) (saved : List σ) : Prop where
  restored : saved = [] → value = before
  masked : saved ≠ [] → value = mask before
  first : saved ≠ [] → before ∈ saved
  values : ∀ v ∈ saved, v = before ∨ v = mask before

theorem kept_nil (mask : σ → σ) (before : σ) : Kept mask before before [] :=
  ⟨fun _ => rfl, fun h => absurd rfl h, fun h => absurd rfl h, nofun⟩

/-- A masked value can be restored at any time, another one by the last user only. -/
theorem Kept.restore (h : Kept mask before value saved) (hperm : saved.Perm (v :: rest))
    (hv : mask v = v ∨ rest = []) : Kept mask before v rest := by
  have hmem : ∀ w, w ∈ saved ↔ w ∈ v :: rest := fun w => hperm.mem_iff
  have hsaved : saved ≠ [] := List.ne_nil_of_mem ((hmem v).mpr List.mem_cons_self)
  have hvalue := h.values v ((hmem v).mpr List.mem_cons_self)
  have hfirst := List.mem_cons.mp ((hmem before).mp (h.first hsaved))
  have hvalues : ∀ w ∈ rest, w = before ∨ w = mask before := fun w hw =>
    h.values w ((hmem w).mpr (List.mem_cons_of_mem v hw))
  by_cases hrest : rest = []
  · subst hrest
    refine ⟨fun _ => ?_, fun hne => absurd rfl hne, fun hne => absurd rfl hne, nofun⟩
    rcases hfirst with hfirst | hfirst
    · exact hfirst.symm
    · cases hfirst
  · have hvmask : v = mask before := by
      rcases hvalue with rfl | hvalue
      · exact (hv.resolve_right hrest).symm
      · exact hvalue
    refine ⟨fun hnil => absurd hnil hrest, fun _ => hvmask, fun _ => ?_, hvalues⟩
    rcases hfirst with rfl | hfirst
    · -- the first value is masked, and so are all others
      obtain ⟨w, hw⟩ := List.exists_mem_of_ne_nil rest hrest
      rcases hvalues w hw with rfl | hmasked
      · exact hw
      · rwa [hmasked, ← hvmask] at hw
    · exact hfirst

section Idempotent

variable (hmask : ∀ v, mask (mask v) = mask v)

include hmask

theorem Kept.mask_value (h : Kept mask before value saved) (hsaved : saved ≠ []) :
    mask value = value := by
  rw [h.masked hsaved, hmask]

/-- One more user. -/
theorem Kept.save (h : Kept mask before value saved) (hperm : rest.Perm (value :: saved)) :
    Kept mask before (mask value) rest := by
  have hvalue : mask value = mask before := by
    by_cases hsaved : saved = []
    · rw [h.restored hsaved]
    · rw [h.mask_value hmask hsaved, h.masked hsaved]
  have hne : rest ≠ [] := by
    rintro rfl
    exact List.cons_ne_nil _ _ hperm.symm.eq_nil
  refine ⟨fun hrest => absurd hrest hne, fun _ => hvalue, fun _ => hperm.mem_iff.mpr ?_,
    fun v hv => ?_⟩
  · by_cases hsaved : saved = []
    · rw [h.restored hsaved]
      exact List.mem_cons_self
    · exact List.mem_cons_of_mem value (h.first hsaved)
  · rcases List.mem_cons.mp (hperm.mem_iff.mp hv) with rfl | hv
    · by_cases hsaved : saved = []
      · exact .inl (h.restored hsaved)
      · exact .inr (h.masked hsaved)
    · exact h.values v hv

end Idempotent

end Kruspix.Lib.SavedSetting
