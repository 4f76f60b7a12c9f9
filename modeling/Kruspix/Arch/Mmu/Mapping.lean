import Kruspix.Arch.Mmu.Create

/-!
# Mapping a page

`map_page` creates the tables that are missing and writes one descriptor at
level 3. It changes the translation of the addresses of its page only.
-/

namespace Kruspix.Arch.Mmu

open Lib.WordMemory Lib.Result Lib.Radix Mm.Layout Mm.PageFrames

variable {fr : PageFrameAllocator} {Owns : Words → Set Nat → Prop} {free : Words → Nat}
  {phys phys' : Words} {root va pa : Nat} {out out' : Set Nat} {key : List (Fin 512)}
  {n : Nat} {desc : BitVec 64}

/-- What mapping a page with `n` new tables changes. -/
structure Mapped (Owns : Words → Set Nat → Prop) (free : Words → Nat) (root va : Nat)
    (desc : BitVec 64) (phys : Words) (out : Set Nat) (phys' : Words) (out' : Set Nat)
    (n : Nat) : Prop where
  owns : Owns phys' out'
  sub : out ⊆ out'
  tables : Tables phys' root out'
  resolve_page : resolve nextTable (entries phys') root (path va) = some (desc, [])
  walk_other : ∀ va', path va' ≠ path va → walk phys' root va' = walk phys root va'
  kept : ∀ (p : List (Fin 512)) (t : Nat), p.length < 4 → tableAt phys root p = some t →
    tableAt phys' root p = some t
  added : ∀ (p : List (Fin 512)) (t : Nat), p.length < 4 → tableAt phys' root p = some t →
    tableAt phys root p = some t ∨ (p <+: path va ∧ t ∉ out)
  created : ∀ p : List (Fin 512), p.length < 4 → p <+: path va → (tableAt phys' root p).isSome
  others : ∀ f ∈ out, ¬ IsTable phys root f → ∀ a, f ≤ a → a < f + pageSize → phys' a = phys a
  cost : free phys' + n = free phys

/-- The tables that mapping a page has to create. -/
def missingTables (phys : Words) (root va : Nat) : Nat :=
  (if (tableAt phys root [level0Index va, level1Index va]).isSome then 0 else 1) +
    (if (tableAt phys root [level0Index va, level1Index va, level2Index va]).isSome then 0 else 1)

/-- Tables off the way to the key are there as before. -/
theorem Grown.isSome_iff (h : Grown Owns free root key phys out phys' out' n)
    {q : List (Fin 512)} (hq : q.length < 4) (hkey : ¬ q <+: key) :
    (tableAt phys' root q).isSome = (tableAt phys root q).isSome := by
  rw [Bool.eq_iff_iff, Option.isSome_iff_exists, Option.isSome_iff_exists]
  constructor
  · rintro ⟨t, ht⟩
    exact ⟨t, (h.added q t hq ht).resolve_right fun hnew => hkey hnew.1⟩
  · rintro ⟨t, ht⟩
    exact ⟨t, h.kept q t hq ht⟩

section Leaf

variable (hc : Contract fr Owns free)

include hc

/-- The last step: the descriptor is written into the table of level 3. -/
theorem Grown.mapped {t : Nat} (h : Grown Owns free root (path va) phys out phys' out' n)
    (ht : tableAt phys' root [level0Index va, level1Index va, level2Index va] = some t) :
    Mapped Owns free root va desc phys out
      (store phys' (t + 8 * (level3Index va)) desc) out' n := by
  have htab := h.tables
  have htable : IsTable phys' root t := ⟨_, by simp, ht⟩
  have htout : t ∈ out' := htab.owned t htable
  have htframe : IsFrame t := hc.frame h.owns htout
  have hwrites : Writes nextTable (entries phys')
      (entries (store phys' (t + 8 * (level3Index va)) desc)) root 4 t (level3Index va) desc :=
    ⟨entries_store_same _ _ _ _, fun q u j hq hu hne =>
      entries_store_other htframe (hc.frame h.owns (htab.owned u ⟨q, hq, hu⟩)) hne desc⟩
  have hdesc : ∀ q : List (Fin 512), q.length < 4 →
      tableAt (store phys' (t + 8 * (level3Index va)) desc) root q = tableAt phys' root q :=
    fun q hq => descend_write htab.tree ht rfl hwrites hq
  -- a table on a shorter path is another table
  have hupper : ∀ (q : List (Fin 512)) (u : Nat), q.length < 4 → tableAt phys' root q = some u →
      q ≠ [level0Index va, level1Index va, level2Index va] → ∀ j,
        entries (store phys' (t + 8 * (level3Index va)) desc) u j = entries phys' u j := by
    intro q u hq hu hne j
    refine hwrites.other q u j hq hu ?_
    rintro ⟨rfl, -⟩
    exact hne (htab.tree q _ u hq (by simp) hu ht)
  have hstore : Set.EqOn (store phys' (t + 8 * (level3Index va)) desc) phys' (frameWords out')ᶜ :=
    store_eqOn _ _ fun hmem => hmem ⟨t, htout, by omega, entry_lt t _⟩
  obtain ⟨hown, hfree⟩ := hc.congr h.owns hstore
  have htables : Tables (store phys' (t + 8 * (level3Index va)) desc) root out' := by
    refine ⟨tree_write htab.tree ht rfl hwrites, ?_, ?_, ?_, ?_, ?_⟩
    · rintro u ⟨q, hq, hu⟩
      exact htab.owned u ⟨q, hq, (hdesc q hq).symm.trans hu⟩
    · obtain ⟨l, hl, hblocks⟩ := htab.linear
      refine ⟨l, (hdesc _ (by simp)).trans hl, fun j => ?_⟩
      rw [hupper _ l (by simp) hl (by simp), hblocks]
    · obtain ⟨u, hu⟩ := htab.heap
      exact ⟨u, (hdesc _ (by simp)).trans hu⟩
    · obtain ⟨u, hu⟩ := htab.io
      exact ⟨u, (hdesc _ (by simp)).trans hu⟩
    · intro q u j hq hqhead hu hnone
      rw [hdesc q (by omega)] at hu
      have hne : q ≠ [level0Index va, level1Index va, level2Index va] := by
        rintro rfl
        simp at hq
      rw [hupper q u (by omega) hu hne] at hnone ⊢
      exact htab.blank q u j hq hqhead hu hnone
  refine ⟨hown, h.sub, htables, ?_, fun va' hva' => ?_, fun q u hq hu => ?_, fun q u hq hu => ?_,
    fun q hq hpre => ?_, fun f hf hft a ha ha' => ?_, ?_⟩
  · exact resolve_write_same htab.tree ht rfl hwrites
  · rw [← h.walk va', Mmu.walk, Mmu.walk, resolve_write_other htab.tree ht rfl hwrites rfl hva']
  · exact (hdesc q hq).trans (h.kept q u hq hu)
  · exact h.added q u hq ((hdesc q hq).symm.trans hu)
  · rw [hdesc q hq]
    have hpre3 : q <+: [level0Index va, level1Index va, level2Index va] := by
      refine List.prefix_of_prefix_length_le hpre ⟨[level3Index va], rfl⟩ ?_
      simp only [List.length_cons, List.length_nil]
      omega
    obtain ⟨r, hr⟩ := hpre3
    rw [← hr] at ht
    change descend _ _ _ _ = _ at ht
    rw [descend_append] at ht
    cases hq' : tableAt phys' root q with
    | some u => rfl
    | none =>
        change descend _ _ _ _ = _ at hq'
        rw [hq'] at ht
        cases ht
  · have hne : a ≠ t + 8 * (level3Index va) := by
      rintro rfl
      have hft' : f = t :=
        (hc.frame h.owns (h.sub hf)).eq_of_mem htframe ha ha' (by omega) (entry_lt t _)
      exact (h.isTable (hft' ▸ htable)).elim hft fun hnot => hnot hf
    rw [store_other _ _ hne]
    exact h.others f hf hft a ha ha'
  · rw [hfree, h.cost]

end Leaf

section MapPage

variable (hc : Contract fr Owns free) (hown : Owns phys out) (htab : Tables phys root out)
  (hva : 0xffff_0000_0000_0000 ≤ va) (hlin : level0Index va ≠ level0LinearIndex)
  (hslot : (tableAt phys root [level0Index va]).isSome)
  (hregion : regionDescriptor va pa = .ok desc)

include hc hown htab hva hlin hslot hregion

/-- `map_page` maps the page, or it panics because a table is missing and no
frame is free for it. -/
theorem mapPage_spec :
    (∃ phys' out' n, mapPage fr (root + linearMapOffset) va pa phys = .error .nullPointer phys' ∧
      Grown Owns free root (path va) phys out phys' out' n ∧
      free phys < missingTables phys root va ∧ free phys' = 0) ∨
    ∃ phys' out', mapPage fr (root + linearMapOffset) va pa phys = .ok () phys' ∧
      Mapped Owns free root va desc phys out phys' out' (missingTables phys root va) := by
  have hroot : tableAt phys root [] = some root := rfl
  have hkernel : root + linearMapOffset ≠ 0 := by simp [linearMapOffset]
  have hhead : [level0Index va].head? ≠ some level0LinearIndex := by simpa using hlin
  -- level 0: the slot's table is there
  rcases getOrCreate_spec hc hown htab (by simp) hroot (by simp) .level0 (by decide)
    (i := level0Index va) (by simpa using hlin) with ⟨hnone, _⟩ | ⟨t₁, phys₁, out₁, n₁, hres₁, ht₁,
    hgrown₁, hn₁⟩
  · rw [List.nil_append] at hnone
    rw [hnone] at hslot
    cases hslot
  rw [List.nil_append] at ht₁ hgrown₁ hn₁
  rw [if_pos hslot] at hn₁
  subst hn₁
  have hkey₁ : [level0Index va] <+: path va := ⟨_, rfl⟩
  have hkey₂ : [level0Index va, level1Index va] <+: path va := ⟨_, rfl⟩
  have hkey₃ : [level0Index va, level1Index va, level2Index va] <+: path va := ⟨_, rfl⟩
  have hrun : mapPage fr (root + linearMapOffset) va pa phys = (do
      let level2Table ← getOrCreateNextLevelTable fr (t₁ + linearMapOffset) (level1Index va) .level1
      let level3Table ← getOrCreateNextLevelTable fr level2Table (level2Index va) .level2
      PageTable.setDescriptor level3Table (level3Index va) desc : Mem Unit) phys₁ := by
    rw [mapPage, if_neg (by omega), hregion, bind_ok ofExcept_ok, if_neg hkernel, bind_ok hres₁]
  have hmiss₂ := hgrown₁.isSome_iff (q := [level0Index va, level1Index va]) (by simp)
    (fun h => by simpa using h.length_le)
  have hmiss₃ := hgrown₁.isSome_iff (q := [level0Index va, level1Index va, level2Index va])
    (by simp) (fun h => by simpa using h.length_le)
  have hfree₁ := hgrown₁.cost
  -- level 1
  rcases getOrCreate_spec hc hgrown₁.owns hgrown₁.tables (by simp) ht₁
    hhead .level1 (by decide) (i := level1Index va) (by simp) with ⟨hnone, hzero, hres₂⟩ |
    ⟨t₂, phys₂, out₂, n₂, hres₂, ht₂, hgrown₂, hn₂⟩
  · left
    refine ⟨phys₁, out₁, 0, by rw [hrun, bind_error hres₂], hgrown₁.mono hkey₁, ?_⟩
    change tableAt phys₁ root [level0Index va, level1Index va] = none at hnone
    rw [hnone] at hmiss₂
    rw [missingTables, ← hmiss₂, if_neg (by simp)]
    exact ⟨by omega, hzero⟩
  change tableAt phys₂ root [level0Index va, level1Index va] = some t₂ at ht₂
  change Grown _ _ _ [level0Index va, level1Index va] _ _ _ _ _ at hgrown₂
  change n₂ = if (tableAt phys₁ root [level0Index va, level1Index va]).isSome then 0 else 1 at hn₂
  rw [hmiss₂] at hn₂
  have hgrown₂' := (hgrown₁.mono hkey₁).trans (hgrown₂.mono hkey₂)
  have hmiss₃' := hgrown₂.isSome_iff (q := [level0Index va, level1Index va, level2Index va])
    (by simp) (fun h => by simpa using h.length_le)
  have hfree₂ := hgrown₂.cost
  -- level 2
  rcases getOrCreate_spec hc hgrown₂.owns hgrown₂.tables (by simp) ht₂
    (by simpa using hlin) .level2 (by decide) (i := level2Index va) (by simp) with ⟨hnone, hzero, hres₃⟩ |
    ⟨t₃, phys₃, out₃, n₃, hres₃, ht₃, hgrown₃, hn₃⟩
  · left
    refine ⟨phys₂, out₂, _, by rw [hrun, bind_ok hres₂, bind_error hres₃], hgrown₂', ?_⟩
    change tableAt phys₂ root [level0Index va, level1Index va, level2Index va] = none at hnone
    rw [hnone] at hmiss₃'
    rw [missingTables, ← hmiss₃, ← hmiss₃', ← hn₂, if_neg (by simp)]
    exact ⟨by omega, hzero⟩
  · right
    change tableAt phys₃ root [level0Index va, level1Index va, level2Index va] = some t₃ at ht₃
    change Grown _ _ _ [level0Index va, level1Index va, level2Index va] _ _ _ _ _ at hgrown₃
    change n₃ = if (tableAt phys₂ root [level0Index va, level1Index va, level2Index va]).isSome
      then 0 else 1 at hn₃
    rw [hmiss₃', hmiss₃] at hn₃
    have hmapped : Mapped Owns free root va desc phys out _ out₃ (0 + n₂ + n₃) :=
      (hgrown₂'.trans (hgrown₃.mono hkey₃)).mapped hc ht₃
    have hcost : 0 + n₂ + n₃ = missingTables phys root va := by
      rw [missingTables, hn₂, hn₃, Nat.zero_add]
    rw [hcost] at hmapped
    refine ⟨_, _, ?_, hmapped⟩
    rw [hrun, bind_ok hres₂, bind_ok hres₃, PageTable.setDescriptor, virtToPhys_linear]
    rfl

end MapPage

end Kruspix.Arch.Mmu
