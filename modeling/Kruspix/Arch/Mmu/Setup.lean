import Kruspix.Arch.Mmu.Create

/-!
# The first page tables

`setup_page_tables` takes six frames and builds the kernel's level 0 table with
three tables of level 1: blocks for the linear map, and empty tables for the
heap and the peripherals.
-/

namespace Kruspix.Arch.Mmu

open Lib.WordMemory Lib.Result Lib.Radix Mm.Layout Mm.PageFrames

variable {fr : PageFrameAllocator} {Owns : Words → Set Nat → Prop} {free : Words → Nat}
  {phys phys' : Words} {root l h o : Nat} {out : Set Nat}

/-- A write inside a frame that is handed out. -/
structure WritesFrame (t : Nat) (phys phys' : Words) : Prop where
  out : ∀ a, ¬ (t ≤ a ∧ a < t + pageSize) → phys' a = phys a

theorem writesFrame_store (phys : Words) (t : Nat) (i : Fin 512) (e : BitVec 64) :
    WritesFrame t phys (store phys (t + 8 * i) e) := by
  refine ⟨fun a ha => store_other _ _ ?_⟩
  rintro rfl
  exact ha ⟨by omega, entry_lt t i⟩

theorem writesFrame_storeEach (phys : Words) (t : Nat) (w : Nat → BitVec 64) :
    WritesFrame t phys (storeEach phys t pageTableEntries w) := by
  refine ⟨fun a ha => storeEach_out _ _ ?_⟩
  have hrange : 8 * pageTableEntries = pageSize := by decide
  omega

section Contract

variable (hc : Contract fr Owns free) (hown : Owns phys out)

include hc hown

/-- The allocator does not see such a write. -/
theorem WritesFrame.owns {t : Nat} (hw : WritesFrame t phys phys') (ht : t ∈ out) :
    Owns phys' out ∧ free phys' = free phys :=
  hc.congr hown fun a ha => hw.out a fun hin => ha ⟨t, ht, hin⟩

/-- Other frames keep their entries. -/
theorem WritesFrame.entries {t u : Nat} (hw : WritesFrame t phys phys') (ht : t ∈ out)
    (hu : u ∈ out) (hne : u ≠ t) (i : Fin 512) : entries phys' u i = entries phys u i := by
  refine hw.out _ fun hin => hne ?_
  exact (hc.frame hown hu).eq_of_mem (hc.frame hown ht) (by omega) (entry_lt u i) hin.1 hin.2

end Contract

/-- The entries of frames that are handed out survive a change elsewhere. -/
theorem entries_of_eqOn (heq : Set.EqOn phys' phys (frameWords out)) {u : Nat} (hu : u ∈ out)
    (i : Fin 512) : entries phys' u i = entries phys u i :=
  heq ⟨u, hu, by omega, entry_lt u i⟩

/-- The three links of the level 0 table. -/
structure FirstTables (phys : Words) (root l h o : Nat) : Prop where
  distinct : l ≠ root ∧ h ≠ root ∧ o ≠ root ∧ l ≠ h ∧ l ≠ o ∧ h ≠ o
  frames : IsFrame l ∧ IsFrame h ∧ IsFrame o
  root_entries : ∀ i, entries phys root i =
    if i = level0IoIndex then BitVec.ofNat 64 o ||| 0b11#64
    else if i = level0HeapIndex then BitVec.ofNat 64 h ||| 0b11#64
    else if i = level0LinearIndex then BitVec.ofNat 64 l ||| 0b11#64
    else 0#64
  linear : ∀ i, entries phys l i = identityBlock .normalWriteBackNonTransientReadWriteAlloc i
  heap : ∀ i, entries phys h i = 0#64
  io : ∀ i, entries phys o i = 0#64

theorem nextTable_identityBlock (attr : MemoryRegionAttrIndex) (index : Nat) :
    nextTable (identityBlock attr index) = none := by
  rw [nextTable, if_neg]
  rw [identityBlock_type]
  decide

/-- The paths of the first tables. -/
theorem FirstTables.tableAt_iff (h₁ : FirstTables phys root l h o) (p : List (Fin 512)) (t : Nat) :
    tableAt phys root p = some t ↔ (p = [] ∧ t = root) ∨ (p = [level0LinearIndex] ∧ t = l) ∨
      (p = [level0HeapIndex] ∧ t = h) ∨ (p = [level0IoIndex] ∧ t = o) := by
  have hio : level0IoIndex ≠ level0HeapIndex ∧ level0IoIndex ≠ level0LinearIndex ∧
      level0HeapIndex ≠ level0LinearIndex := by decide
  have hroot : ∀ i, nextTable (entries phys root i) =
      if i = level0IoIndex then some o else if i = level0HeapIndex then some h
      else if i = level0LinearIndex then some l else none := by
    intro i
    rw [h₁.root_entries]
    split_ifs
    · exact nextTable_tableDescriptor h₁.frames.2.2
    · exact nextTable_tableDescriptor h₁.frames.2.1
    · exact nextTable_tableDescriptor h₁.frames.1
    · exact nextTable_zero
  have hstop : ∀ i u, nextTable (entries phys root i) = some u →
      ∀ j, nextTable (entries phys u j) = none := by
    intro i u hu j
    rw [hroot] at hu
    split_ifs at hu with hi hi hi
    · cases hu
      rw [h₁.io, nextTable_zero]
    · cases hu
      rw [h₁.heap, nextTable_zero]
    · cases hu
      rw [h₁.linear, nextTable_identityBlock]
  match p with
  | [] => simp [tableAt, eq_comm]
  | [i] =>
      have hone : tableAt phys root [i] = nextTable (entries phys root i) := by
        simp [tableAt, descend]
      rw [hone, hroot]
      split_ifs with hi hi' hi''
      · simpa [hi, hio.1, hio.2.1] using eq_comm
      · simpa [hi', hio.1.symm, hio.2.2] using eq_comm
      · simpa [hi'', hio.2.1.symm, hio.2.2.symm] using eq_comm
      · simp [hi, hi', hi'']
  | i :: j :: q =>
      have hnone : tableAt phys root (i :: j :: q) = none := by
        simp only [tableAt, descend]
        cases hu : nextTable (entries phys root i) with
        | none => rfl
        | some u => rw [Option.bind_some, hstop i u hu j, Option.bind_none]
      simp [hnone]

/-- The first tables are a state of the kernel's tables. -/
theorem FirstTables.tables (h₁ : FirstTables phys root l h o) (hroot : root ∈ out) (hl : l ∈ out)
    (hh : h ∈ out) (ho : o ∈ out) : Tables phys root out := by
  obtain ⟨hlr, hhr, hor, hlh, hlo, hho⟩ := h₁.distinct
  have hiff := h₁.tableAt_iff
  refine ⟨fun p q t _ _ hpt hqt => ?_, ?_, ⟨l, (hiff _ _).mpr (by simp), h₁.linear⟩,
    ⟨h, (hiff _ _).mpr (by simp)⟩, ⟨o, (hiff _ _).mpr (by simp)⟩, ?_⟩
  · rcases (hiff p t).mp hpt with ⟨rfl, rfl⟩ | ⟨rfl, rfl⟩ | ⟨rfl, rfl⟩ | ⟨rfl, rfl⟩ <;>
      rcases (hiff q _).mp hqt with ⟨rfl, heq⟩ | ⟨rfl, heq⟩ | ⟨rfl, heq⟩ | ⟨rfl, heq⟩ <;>
        first
          | rfl
          | (subst heq; contradiction)
  · rintro t ⟨p, _, hpt⟩
    rcases (hiff p t).mp hpt with ⟨_, rfl⟩ | ⟨_, rfl⟩ | ⟨_, rfl⟩ | ⟨_, rfl⟩
    · exact hroot
    · exact hl
    · exact hh
    · exact ho
  · intro p t i _ hhead hpt hnone
    rcases (hiff p t).mp hpt with ⟨_, rfl⟩ | ⟨rfl, _⟩ | ⟨_, rfl⟩ | ⟨_, rfl⟩
    · rw [h₁.root_entries] at hnone ⊢
      split_ifs at hnone ⊢
      · rw [nextTable_tableDescriptor h₁.frames.2.2] at hnone
        cases hnone
      · rw [nextTable_tableDescriptor h₁.frames.2.1] at hnone
        cases hnone
      · rw [nextTable_tableDescriptor h₁.frames.1] at hnone
        cases hnone
      · rfl
    · exact absurd rfl hhead
    · exact h₁.heap i
    · exact h₁.io i

section Run

variable (hc : Contract fr Owns free)

include hc

/-- What a successful `PageTable::new` returns. -/
theorem new_ok {table : Nat} (hown : Owns phys out)
    (h : PageTable.new fr phys = .ok table phys') :
    ∃ f, table = f + linearMapOffset ∧ f ∉ out ∧ IsFrame f ∧ Owns phys' (insert f out) ∧
      free phys' + 1 = free phys ∧ (∀ i, entries phys' f i = 0#64) ∧
      ∀ u ∈ out, ∀ i, entries phys' u i = entries phys u i := by
  rcases Nat.eq_zero_or_pos (free phys) with hfree | hfree
  · rw [new_none hc hown hfree] at h
    cases h
  · obtain ⟨f, phys₁, hres, hfresh, hframe, hown₁, hfree₁, hzero, heq⟩ := new_some hc hown hfree
    rw [hres] at h
    cases h
    exact ⟨f, rfl, hfresh, hframe, hown₁, hfree₁, hzero, fun u hu => entries_of_eqOn heq hu⟩

omit hc in
theorem tableDescriptor_ok {f : Nat} {desc : BitVec 64} (hf : IsFrame f)
    (h : (ofExcept (TableDescriptor.new (PageTable.physAddr (f + linearMapOffset))) :
      Mem (BitVec 64)) phys = .ok desc phys') :
    desc = BitVec.ofNat 64 f ||| 0b11#64 ∧ phys = phys' := by
  rw [PageTable.physAddr, virtToPhys_linear, TableDescriptor.new,
    if_pos (Nat.mod_eq_zero_of_dvd hf.aligned), ofExcept_ok] at h
  cases h
  exact ⟨rfl, rfl⟩

omit hc in
theorem setDescriptor_ok {t : Nat} {i : Fin 512} {e : BitVec 64} {a : Unit} (ht : IsFrame t)
    (h : PageTable.setDescriptor (t + linearMapOffset) i e phys = .ok a phys') :
    WritesFrame t phys phys' ∧
      ∀ j, entries phys' t j = if j = i then e else entries phys t j := by
  rw [PageTable.setDescriptor, virtToPhys_linear, modify_apply] at h
  cases h
  refine ⟨writesFrame_store _ _ _ _, fun j => ?_⟩
  split_ifs with hj
  · rw [hj, entries_store_same]
  · exact entries_store_other ht ht (fun h => hj h.2) e

omit hc in
theorem fillIdentity_ok {t : Nat} {attr : MemoryRegionAttrIndex} {a : Unit}
    (h : PageTable.fillIdentity (t + linearMapOffset) attr phys = .ok a phys') :
    WritesFrame t phys phys' ∧ ∀ j, entries phys' t j = identityBlock attr j := by
  rw [PageTable.fillIdentity, virtToPhys_linear, modify_apply] at h
  cases h
  exact ⟨writesFrame_storeEach _ _ _, fun j => entries_storeEach _ _ _ j⟩

/-- `setup_page_tables` builds the first tables from six fresh frames. -/
theorem setupPageTables_ok {user kernel : Nat} (hown : Owns phys out)
    (h : setupPageTables fr phys = .ok (user, kernel) phys') :
    ∃ root l h o out', kernel = root + linearMapOffset ∧ FirstTables phys' root l h o ∧
      Tables phys' root out' ∧ Owns phys' out' ∧ out ⊆ out' ∧ free phys' + 6 = free phys := by
  -- the user's tables and the level 0 table of the kernel
  obtain ⟨_, m₁, h₁, h⟩ := bind_eq_ok h
  obtain ⟨u₀, rfl, hu₀, hu₀F, hown₁, hfree₁, _, _⟩ := new_ok hc hown h₁
  obtain ⟨_, m₂, h₂, h⟩ := bind_eq_ok h
  obtain ⟨root, rfl, hroot, hrootF, hown₂, hfree₂, hroot₂, _⟩ := new_ok hc hown₁ h₂
  obtain ⟨_, m₃, h₃, h⟩ := bind_eq_ok h
  obtain ⟨u₁, rfl, hu₁, hu₁F, hown₃, hfree₃, _, hkeep₃⟩ := new_ok hc hown₂ h₃
  obtain ⟨_, m₄, h₄, h⟩ := bind_eq_ok h
  obtain ⟨hw₄, _⟩ := fillIdentity_ok h₄
  obtain ⟨hown₄, hfree₄⟩ := hw₄.owns hc hown₃ (by simp)
  obtain ⟨_, _, h₅, h⟩ := bind_eq_ok h
  obtain ⟨rfl, rfl⟩ := tableDescriptor_ok hu₁F h₅
  obtain ⟨_, m₆, h₆, h⟩ := bind_eq_ok h
  obtain ⟨hw₆, _⟩ := setDescriptor_ok hu₀F h₆
  obtain ⟨hown₆, hfree₆⟩ := hw₆.owns hc hown₄ (by simp)
  have hroot₆ : ∀ i, entries m₆ root i = 0#64 := by
    intro i
    rw [hw₆.entries hc hown₄ (by simp) (by simp) (fun heq => hroot (by simp [heq])),
      hw₄.entries hc hown₃ (by simp) (by simp) (fun heq => hu₁ (by simp [heq])),
      hkeep₃ root (by simp), hroot₂]
  -- the three tables of level 1
  obtain ⟨_, m₇, h₇, h⟩ := bind_eq_ok h
  obtain ⟨l, rfl, hl, hlF, hown₇, hfree₇, _, hkeep₇⟩ := new_ok hc hown₆ h₇
  obtain ⟨_, _, h₈, h⟩ := bind_eq_ok h
  obtain ⟨rfl, rfl⟩ := tableDescriptor_ok hlF h₈
  obtain ⟨_, m₉, h₉, h⟩ := bind_eq_ok h
  obtain ⟨hp, rfl, hhp, hhpF, hown₉, hfree₉, hheap₉, hkeep₉⟩ := new_ok hc hown₇ h₉
  obtain ⟨_, _, h₁₀, h⟩ := bind_eq_ok h
  obtain ⟨rfl, rfl⟩ := tableDescriptor_ok hhpF h₁₀
  obtain ⟨_, m₁₁, h₁₁, h⟩ := bind_eq_ok h
  obtain ⟨o, rfl, ho, hoF, hown₁₁, hfree₁₁, hio₁₁, hkeep₁₁⟩ := new_ok hc hown₉ h₁₁
  obtain ⟨_, _, h₁₂, h⟩ := bind_eq_ok h
  obtain ⟨rfl, rfl⟩ := tableDescriptor_ok hoF h₁₂
  have hlr : l ≠ root := fun heq => hl (by simp [heq])
  have hhr : hp ≠ root := fun heq => hhp (by simp [heq])
  have hor : o ≠ root := fun heq => ho (by simp [heq])
  have hhl : hp ≠ l := fun heq => hhp (by simp [heq])
  have hol : o ≠ l := fun heq => ho (by simp [heq])
  have hoh : o ≠ hp := fun heq => ho (by simp [heq])
  have hroot₁₁ : ∀ i, entries m₁₁ root i = 0#64 := by
    intro i
    rw [hkeep₁₁ root (by simp), hkeep₉ root (by simp), hkeep₇ root (by simp), hroot₆]
  have hheap₁₁ : ∀ i, entries m₁₁ hp i = 0#64 := by
    intro i
    rw [hkeep₁₁ hp (by simp), hheap₉]
  -- the three links and the blocks of the linear map
  obtain ⟨_, m₁₃, h₁₃, h⟩ := bind_eq_ok h
  obtain ⟨hw₁₃, hroot₁₃⟩ := setDescriptor_ok hrootF h₁₃
  obtain ⟨hown₁₃, hfree₁₃⟩ := hw₁₃.owns hc hown₁₁ (by simp)
  obtain ⟨_, m₁₄, h₁₄, h⟩ := bind_eq_ok h
  obtain ⟨hw₁₄, hroot₁₄⟩ := setDescriptor_ok hrootF h₁₄
  obtain ⟨hown₁₄, hfree₁₄⟩ := hw₁₄.owns hc hown₁₃ (by simp)
  obtain ⟨_, m₁₅, h₁₅, h⟩ := bind_eq_ok h
  obtain ⟨hw₁₅, hroot₁₅⟩ := setDescriptor_ok hrootF h₁₅
  obtain ⟨hown₁₅, hfree₁₅⟩ := hw₁₅.owns hc hown₁₄ (by simp)
  obtain ⟨_, m₁₆, h₁₆, h⟩ := bind_eq_ok h
  obtain ⟨hw₁₆, hlinear⟩ := fillIdentity_ok h₁₆
  obtain ⟨hown₁₆, hfree₁₆⟩ := hw₁₆.owns hc hown₁₅ (by simp)
  cases h
  have hfirst : FirstTables phys' root l hp o := by
    refine ⟨⟨hlr, hhr, hor, hhl.symm, hol.symm, hoh.symm⟩, ⟨hlF, hhpF, hoF⟩, fun i => ?_, hlinear,
      fun i => ?_, fun i => ?_⟩
    · rw [hw₁₆.entries hc hown₁₅ (by simp) (by simp) hlr.symm, hroot₁₅, hroot₁₄, hroot₁₃, hroot₁₁]
    · rw [hw₁₆.entries hc hown₁₅ (by simp) (by simp) hhl,
        hw₁₅.entries hc hown₁₄ (by simp) (by simp) hhr,
        hw₁₄.entries hc hown₁₃ (by simp) (by simp) hhr,
        hw₁₃.entries hc hown₁₁ (by simp) (by simp) hhr, hheap₁₁]
    · rw [hw₁₆.entries hc hown₁₅ (by simp) (by simp) hol,
        hw₁₅.entries hc hown₁₄ (by simp) (by simp) hor,
        hw₁₄.entries hc hown₁₃ (by simp) (by simp) hor,
        hw₁₃.entries hc hown₁₁ (by simp) (by simp) hor, hio₁₁]
  refine ⟨root, l, hp, o, _, rfl, hfirst,
    hfirst.tables (by simp) (by simp) (by simp) (by simp), hown₁₆, ?_, by omega⟩
  intro f hf
  simp [hf]

end Run

end Kruspix.Arch.Mmu
