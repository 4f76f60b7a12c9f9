import Kruspix.Arch.Mmu.Walk

/-!
# Creating tables on the way to a page

`get_or_create_next_leve_table` either follows a link or links a fresh table.
`Grown` says what a sequence of such calls on the way to one key changes: some
tables are new, they lie on that way, and no address is translated differently.
-/

namespace Kruspix.Arch.Mmu

open Lib.WordMemory Lib.Result Lib.Radix Mm.Layout Mm.PageFrames

variable {fr : PageFrameAllocator} {Owns : Words → Set Nat → Prop} {free : Words → Nat}
  {phys phys' phys'' : Words} {root t : Nat} {out out' out'' : Set Nat}
  {p key : List (Fin 512)} {i : Fin 512} {n m : Nat}

/-- What creating `n` tables on the way to `key` changes. -/
structure Grown (Owns : Words → Set Nat → Prop) (free : Words → Nat) (root : Nat)
    (key : List (Fin 512)) (phys : Words) (out : Set Nat) (phys' : Words) (out' : Set Nat)
    (n : Nat) : Prop where
  owns : Owns phys' out'
  sub : out ⊆ out'
  tables : Tables phys' root out'
  walk : ∀ va, walk phys' root va = walk phys root va
  kept : ∀ (p : List (Fin 512)) (t : Nat), p.length < 4 → tableAt phys root p = some t →
    tableAt phys' root p = some t
  added : ∀ (p : List (Fin 512)) (t : Nat), p.length < 4 → tableAt phys' root p = some t →
    tableAt phys root p = some t ∨ (p <+: key ∧ t ∉ out)
  others : ∀ f ∈ out, ¬ IsTable phys root f → ∀ a, f ≤ a → a < f + pageSize → phys' a = phys a
  cost : free phys' + n = free phys

theorem Grown.refl (hown : Owns phys out) (htab : Tables phys root out) :
    Grown Owns free root key phys out phys out 0 :=
  ⟨hown, subset_rfl, htab, fun _ => rfl, fun _ _ _ h => h, fun _ _ _ h => .inl h,
    fun _ _ _ _ _ _ => rfl, rfl⟩

/-- A new table is not one of the frames that were handed out before. -/
theorem Grown.isTable (h : Grown Owns free root key phys out phys' out' n) {f : Nat}
    (hf : IsTable phys' root f) : IsTable phys root f ∨ f ∉ out := by
  obtain ⟨p, hp, hpf⟩ := hf
  rcases h.added p f hp hpf with hold | ⟨_, hnew⟩
  · exact .inl ⟨p, hp, hold⟩
  · exact .inr hnew

theorem Grown.trans (h : Grown Owns free root key phys out phys' out' n)
    (h' : Grown Owns free root key phys' out' phys'' out'' m) :
    Grown Owns free root key phys out phys'' out'' (n + m) := by
  refine ⟨h'.owns, h.sub.trans h'.sub, h'.tables, fun va => (h'.walk va).trans (h.walk va),
    fun p t hp ht => h'.kept p t hp (h.kept p t hp ht), fun p t hp ht => ?_,
    fun f hf hft a ha ha' => ?_, ?_⟩
  · rcases h'.added p t hp ht with hold | ⟨hpre, hnew⟩
    · exact h.added p t hp hold
    · exact .inr ⟨hpre, fun hmem => hnew (h.sub hmem)⟩
  · have hft' : ¬ IsTable phys' root f := fun htab =>
      (h.isTable htab).elim hft fun hnot => hnot hf
    rw [h'.others f (h.sub hf) hft' a ha ha', h.others f hf hft a ha ha']
  · rw [← h.cost, ← h'.cost]
    omega

theorem Grown.mono {key' : List (Fin 512)} (h : Grown Owns free root key phys out phys' out' n)
    (hkey : key <+: key') : Grown Owns free root key' phys out phys' out' n :=
  { h with
    added := fun p t hp ht => (h.added p t hp ht).imp_right fun hnew =>
      ⟨hnew.1.trans hkey, hnew.2⟩ }

section New

variable (hc : Contract fr Owns free)

include hc

/-- Without a free frame the reference to the new table is null. -/
theorem new_none (hown : Owns phys out) (hfree : free phys = 0) :
    PageTable.new fr phys = .error .nullPointer phys := by
  have hres := hc.alloc_none hown hfree
  have hpage : allocPage fr phys = .ok 0 phys := by
    rw [allocPage, bind_ok (allocFrame_ok hres)]
    rfl
  rw [PageTable.new, bind_ok hpage, if_pos rfl]
  rfl

/-- A new table is a fresh frame of zeros. -/
theorem new_some (hown : Owns phys out) (hfree : 0 < free phys) :
    ∃ f phys', PageTable.new fr phys = .ok (f + linearMapOffset) phys' ∧ f ∉ out ∧
      IsFrame f ∧ Owns phys' (insert f out) ∧ free phys' + 1 = free phys ∧
      (∀ i, entries phys' f i = 0#64) ∧ Set.EqOn phys' phys (frameWords out) := by
  obtain ⟨f, phys₁, hres, hfresh, hown₁, hfree₁, heq⟩ := hc.alloc_some hown hfree
  have hframe : IsFrame f := hc.frame hown₁ (Set.mem_insert f out)
  have hpage : allocPage fr phys = .ok (f + linearMapOffset) phys₁ := by
    rw [allocPage, bind_ok (allocFrame_ok hres)]
    simp only [if_neg hframe.pos.ne', physToVirt_frame hframe, ofExcept_ok]
  have hnew : PageTable.new fr phys = .ok (f + linearMapOffset)
      (storeRange phys₁ f pageTableEntries 0#64) := by
    have hne : f + linearMapOffset ≠ 0 := by
      have := hframe.pos
      omega
    rw [PageTable.new, bind_ok hpage, if_neg hne, bind_ok modify_apply, virtToPhys_linear]
    rfl
  have hout : Set.EqOn (storeRange phys₁ f pageTableEntries 0#64) phys₁
      (frameWords (insert f out))ᶜ := by
    intro a ha
    refine storeEach_out _ _ ?_
    by_contra hin
    have hrange : 8 * pageTableEntries = pageSize := by decide
    exact ha ⟨f, Set.mem_insert f out, by omega, by omega⟩
  obtain ⟨hown₂, hfree₂⟩ := hc.congr hown₁ hout
  refine ⟨f, _, hnew, hfresh, hframe, hown₂, by rw [hfree₂, hfree₁],
    fun i => entries_storeEach _ _ _ i, fun a ha => ?_⟩
  obtain ⟨u, hu, hle, hlt⟩ := ha
  have hne : u ≠ f := fun h => hfresh (h ▸ hu)
  have hframe' : IsFrame u := hc.frame hown₁ (Set.mem_insert_of_mem f hu)
  rw [storeRange, storeEach_eq_of_ne hframe hframe' hne _ hle hlt]
  exact heq ⟨u, Set.mem_insert_of_mem f hu, hle, hlt⟩

end New

/-- The first table is a frame, so the allocator is not at the null pointer. -/
theorem contract_of_setup {fa : Mm.FrameAllocator.BitMapFrameAllocator} (hp : Pages fa)
    {tables : Nat × Nat}
    (hsetup : setupPageTables (bitmapFrames fa) phys = .ok tables phys') :
    Contract (bitmapFrames fa) (Mm.FrameSet.Represents fa) (freeFrames fa) := by
  refine bitmap_contract hp (Nat.pos_of_ne_zero fun hstart => ?_)
  have hnone : (bitmapFrames fa).allocFrame phys = none :=
    Mm.FrameAllocator.BitMapFrameAllocator.allocFrame_null hp.wellFormed hstart phys
  have halloc : allocFrame (bitmapFrames fa) phys = .error .nullPointer phys := by
    rw [allocFrame, hnone]
  have hpage : allocPage (bitmapFrames fa) phys = .error .nullPointer phys := by
    rw [allocPage, bind_error halloc]
  have hnew : PageTable.new (bitmapFrames fa) phys = .error .nullPointer phys := by
    rw [PageTable.new, bind_error hpage]
  rw [setupPageTables, bind_error hnew] at hsetup
  cases hsetup

section Create

variable (hc : Contract fr Owns free) (hown : Owns phys out) (htab : Tables phys root out)
  (hp : p.length < 3) (ht : tableAt phys root p = some t)
  (hhead : p.head? ≠ some level0LinearIndex)

include hc hown htab in
theorem Tables.isFrame (ht : IsTable phys root t) : IsFrame t :=
  hc.frame hown (htab.owned t ht)

include hc hown htab hp ht hhead in
/-- Linking a fresh table of zeros. -/
theorem grown_link {f : Nat} (hlin : p ++ [i] ≠ [level0LinearIndex])
    (hnone : nextTable (entries phys t i) = none)
    (hfresh : f ∉ out) (hframe : IsFrame f) (hown' : Owns phys' (insert f out))
    (hfree : free phys' + 1 = free phys) (hzero : ∀ i, entries phys' f i = 0#64)
    (heq : Set.EqOn phys' phys (frameWords out)) :
    let phys'' := store phys' (t + 8 * i) (BitVec.ofNat 64 f ||| 0b11#64)
    Grown Owns free root (p ++ [i]) phys out phys'' (insert f out) 1 ∧
      tableAt phys'' root (p ++ [i]) = some f := by
  intro phys''
  have htable : IsTable phys root t := ⟨p, by omega, ht⟩
  have htout : t ∈ out := htab.owned t htable
  have htframe : IsFrame t := hc.frame hown htout
  have hft : f ≠ t := fun h => hfresh (h ▸ htout)
  have hsame : ∀ u ∈ out, ∀ j, ¬ (u = t ∧ j = i) → entries phys'' u j = entries phys u j := by
    intro u hu j hne
    rw [entries_store_other htframe (hc.frame hown hu) hne]
    exact heq ⟨u, hu, by omega, entry_lt u j⟩
  have hwrites : Writes nextTable (entries phys) (entries phys'') root 4 t i
      (BitVec.ofNat 64 f ||| 0b11#64) :=
    ⟨entries_store_same _ _ _ _, fun q u j hq hu hne => hsame u (htab.owned u ⟨q, hq, hu⟩) j hne⟩
  have hlink := nextTable_tableDescriptor hframe
  have hzero' : ∀ j, entries phys'' f j = 0#64 := by
    intro j
    rw [entries_store_other htframe hframe fun h => hft h.1, hzero]
  have hempty : ∀ j, nextTable (entries phys'' f j) = none := by
    intro j
    rw [hzero', nextTable_zero]
  have hnot : Fresh nextTable (entries phys) root 4 f :=
    fun q hq hqf => hfresh (htab.owned f ⟨q, hq, hqf⟩)
  have hdesc : ∀ q : List (Fin 512), q.length < 4 →
      tableAt phys'' root q = if q = p ++ [i] then some f else tableAt phys root q :=
    fun q hq => descend_link htab.tree ht (by omega) hnone hwrites hlink hempty hq
  have hnotable : tableAt phys root (p ++ [i]) = none := by
    change descend _ _ _ _ = none
    rw [descend_concat]
    change (tableAt phys root p).bind _ = none
    rw [ht, Option.bind_some, hnone]
  have hkept : ∀ (q : List (Fin 512)) (u : Nat), q.length < 4 → tableAt phys root q = some u →
      tableAt phys'' root q = some u := by
    intro q u hq hu
    rw [hdesc q hq, if_neg, hu]
    rintro rfl
    exact Option.some_ne_none u (hu.symm.trans hnotable)
  have hadded : ∀ (q : List (Fin 512)) (u : Nat), q.length < 4 → tableAt phys'' root q = some u →
      tableAt phys root q = some u ∨ (q = p ++ [i] ∧ u = f) := by
    intro q u hq hu
    rw [hdesc q hq] at hu
    split_ifs at hu with hqp
    · exact .inr ⟨hqp, (Option.some.inj hu).symm⟩
    · exact .inl hu
  have hstore : Set.EqOn phys'' phys' (frameWords (insert f out))ᶜ :=
    store_eqOn _ _ fun hmem =>
      hmem ⟨t, Set.mem_insert_of_mem f htout, by omega, entry_lt t i⟩
  obtain ⟨hown'', hfree''⟩ := hc.congr hown' hstore
  have hnew : tableAt phys'' root (p ++ [i]) = some f := by
    rw [hdesc _ (by simp; omega), if_pos rfl]
  refine ⟨⟨hown'', Set.subset_insert f out, ?_, fun va => ?_, hkept, ?_, ?_, by omega⟩, hnew⟩
  · refine ⟨tree_link htab.tree ht (by omega) hnone hwrites hlink hempty hnot, ?_, ?_, ?_, ?_, ?_⟩
    · rintro u ⟨q, hq, hu⟩
      rcases hadded q u hq hu with hold | ⟨_, rfl⟩
      · exact Set.mem_insert_of_mem f (htab.owned u ⟨q, hq, hold⟩)
      · exact Set.mem_insert u out
    · obtain ⟨l, hl, hblocks⟩ := htab.linear
      refine ⟨l, hkept _ l (by simp) hl, fun j => ?_⟩
      rw [hsame l (htab.owned l ⟨_, by simp, hl⟩) j ?_, hblocks]
      rintro ⟨rfl, rfl⟩
      have hpl := htab.tree p _ l (by omega) (by simp) ht hl
      exact hhead (by rw [hpl]; rfl)
    · obtain ⟨u, hu⟩ := htab.heap
      exact ⟨u, hkept _ u (by simp) hu⟩
    · obtain ⟨u, hu⟩ := htab.io
      exact ⟨u, hkept _ u (by simp) hu⟩
    · intro q u j hq hqhead hu hunone
      rcases hadded q u (by omega) hu with hold | ⟨_, rfl⟩
      · by_cases hut : u = t ∧ j = i
        · obtain ⟨rfl, rfl⟩ := hut
          rw [hwrites.same, hlink] at hunone
          cases hunone
        · rw [hsame u (htab.owned u ⟨q, by omega, hold⟩) j hut] at hunone ⊢
          exact htab.blank q u j hq hqhead hold hunone
      · exact hzero' j
  · refine resolve_link_bind htab.tree ht (by omega) hnone hwrites hlink hempty (output va)
      (fun is => ?_) (fun j is => ?_) rfl
    · rw [htab.blank p t i hp hhead ht hnone, output_zero]
    · rw [hzero', output_zero]
  · intro q u hq hu
    rcases hadded q u hq hu with hold | ⟨rfl, rfl⟩
    · exact .inl hold
    · exact .inr ⟨List.prefix_rfl, hfresh⟩
  · intro g hg hgt a ha ha'
    have hne : a ≠ t + 8 * i := by
      rintro rfl
      have hgt' : g = t := (hc.frame hown hg).eq_of_mem htframe ha ha' (by omega) (entry_lt t i)
      exact hgt (hgt' ▸ htable)
    rw [show phys'' a = phys' a from store_other _ _ hne]
    exact heq ⟨g, hg, ha, ha'⟩

/-- An entry above level 3 is a link or 0, so no type of descriptor panics. -/
theorem ofValue_table {value : BitVec 64} {level : TranslationLevel} (hlevel : level ≠ .level3)
    (h : value &&& 0b11#64 = 0b11#64) : Descriptor.ofValue value level = .ok .table := by
  cases level with
  | level0 | level1 | level2 => simp only [Descriptor.ofValue, if_pos h]
  | level3 => exact absurd rfl hlevel

theorem ofValue_zero (level : TranslationLevel) :
    Descriptor.ofValue 0#64 level = .ok .invalid := by
  cases level <;> rfl

include hc hown htab hp ht hhead in
/-- `get_or_create_next_leve_table` returns the table at the end of the longer
path, and panics only when a new table is needed and no frame is free. -/
theorem getOrCreate_spec (level : TranslationLevel) (hlevel : level ≠ .level3)
    (hlin : p ++ [i] ≠ [level0LinearIndex]) :
    (tableAt phys root (p ++ [i]) = none ∧ free phys = 0 ∧
      getOrCreateNextLevelTable fr (t + linearMapOffset) i level phys =
        .error .nullPointer phys) ∨
    ∃ u phys' out' n,
      getOrCreateNextLevelTable fr (t + linearMapOffset) i level phys =
        .ok (u + linearMapOffset) phys' ∧
      tableAt phys' root (p ++ [i]) = some u ∧
      Grown Owns free root (p ++ [i]) phys out phys' out' n ∧
      n = if (tableAt phys root (p ++ [i])).isSome then 0 else 1 := by
  have hnext : tableAt phys root (p ++ [i]) = nextTable (entries phys t i) := by
    change descend _ _ _ _ = _
    rw [descend_concat]
    change (tableAt phys root p).bind _ = _
    rw [ht, Option.bind_some]
  have hread : PageTable.getDescriptor (t + linearMapOffset) i phys =
      .ok (entries phys t i) phys := by
    rw [PageTable.getDescriptor, virtToPhys_linear]
    rfl
  cases hentry : nextTable (entries phys t i) with
  | some u =>
      right
      rw [hentry] at hnext
      have htype : entries phys t i &&& 0b11#64 = 0b11#64 := by
        by_contra hne
        rw [nextTable, if_neg hne] at hentry
        cases hentry
      have haddr : (entries phys t i &&& addrMask).toNat = u := by
        rw [nextTable, if_pos htype] at hentry
        exact Option.some.inj hentry
      have hframe : IsFrame u := htab.isFrame hc hown ⟨p ++ [i], by simp; omega, hnext⟩
      have hres : getOrCreateNextLevelTable fr (t + linearMapOffset) i level phys =
          .ok (u + linearMapOffset) phys := by
        rw [getOrCreateNextLevelTable, bind_ok hread, ofValue_table hlevel htype,
          bind_ok ofExcept_ok]
        dsimp only
        rw [bind_ok hread, TableDescriptor.nextLevelTable, haddr, physToVirt_frame hframe,
          ofExcept_ok]
      exact ⟨u, phys, out, 0, hres, hnext, .refl hown htab, by rw [hnext]; rfl⟩
  | none =>
      rw [hentry] at hnext
      have hzero := htab.blank p t i hp hhead ht hentry
      rw [hzero] at hread
      rcases Nat.eq_zero_or_pos (free phys) with hfree | hfree
      · left
        refine ⟨hnext, hfree, ?_⟩
        rw [getOrCreateNextLevelTable, bind_ok hread, ofValue_zero, bind_ok ofExcept_ok]
        dsimp only
        rw [bind_error (new_none hc hown hfree)]
      · right
        obtain ⟨f, phys₁, hnew, hfresh, hframe, hown₁, hfree₁, hzero₁, heq⟩ :=
          new_some hc hown hfree
        obtain ⟨hgrown, htable⟩ := grown_link hc hown htab hp ht hhead hlin hentry hfresh hframe
          hown₁ hfree₁ hzero₁ heq
        refine ⟨f, _, _, 1, ?_, htable, hgrown, by rw [hnext]; rfl⟩
        have haligned : f % pageSize = 0 := Nat.mod_eq_zero_of_dvd hframe.aligned
        have haddr := nextTable_tableDescriptor hframe
        have hlt : f < 2 ^ 48 := by
          have := hframe.reachable
          simp only [pageSize, slotSize] at this
          omega
        rw [getOrCreateNextLevelTable, bind_ok hread, ofValue_zero, bind_ok ofExcept_ok]
        dsimp only
        rw [bind_ok hnew, PageTable.physAddr, virtToPhys_linear, TableDescriptor.new,
          if_pos haligned, bind_ok ofExcept_ok, PageTable.setDescriptor, virtToPhys_linear,
          bind_ok modify_apply]
        have hread' : PageTable.getDescriptor (t + linearMapOffset) i
            (store phys₁ (t + 8 * i) (BitVec.ofNat 64 f ||| 0b11#64)) =
              .ok (BitVec.ofNat 64 f ||| 0b11#64)
                (store phys₁ (t + 8 * i) (BitVec.ofNat 64 f ||| 0b11#64)) := by
          rw [PageTable.getDescriptor, virtToPhys_linear, bind_ok get_apply, store_same]
          rfl
        rw [bind_ok hread', TableDescriptor.nextLevelTable,
          tableDescriptor_addr hframe.aligned hlt, physToVirt_frame hframe, ofExcept_ok]

end Create

end Kruspix.Arch.Mmu
