import Kruspix.Mm.HeapMemory

/-!
# Accesses to the heap and its fresh pages

While the heap is backed, its words can be read and written. `alloc_heap_page`
adds a page when the frames for it are there. Otherwise it stops at a missing
table, or, when only the data frame is missing, it maps the page to frame 0.
-/

namespace Kruspix.Mm.HeapPages

open Lib.WordMemory Lib.Result Lib.Radix Layout PageFrames Arch.Mmu HeapAllocator HeapMemory

variable {fr : PageFrameAllocator} {Owns : Words → Set Nat → Prop} {free : Words → Nat}
  {phys phys' : Words} {root size n : Nat} {out out' ext : Set Nat} {F : Nat → Nat} {s : Machine}

section OnMem

variable {α : Type} {x : Mem α}

theorem onMem_ok {a : α} (h : x s.phys = .ok a phys') :
    onMem x s = .ok a { s with phys := phys' } := by
  rw [onMem, h]

theorem onMem_error {e : Panic} (h : x s.phys = .error e phys') :
    onMem x s = .error e { s with phys := phys' } := by
  rw [onMem, h]

end OnMem

section Access

variable (hb : Backed Owns root s.phys size ext out F)

include hb

theorem readWord_heap {x : Nat} (hx : x < size) :
    readWord (root + linearMapOffset) (heapMapOffset + x) s =
      .ok (heapWords F s.phys (heapMapOffset + x)) s := by
  obtain ⟨desc, hw⟩ := hb.page x hx
  rw [readWord, virtToPhys_linear, hw]
  rfl

theorem writeWord_heap {x : Nat} (hx : x < size) (w : BitVec 64) :
    writeWord (root + linearMapOffset) (heapMapOffset + x) w s =
      .ok () { s with phys := store s.phys (physAddr F (heapMapOffset + x)) w } := by
  obtain ⟨desc, hw⟩ := hb.page x hx
  rw [writeWord, virtToPhys_linear, hw]

end Access

/-- The frames with that of a fresh page. -/
def addPage (F : Nat → Nat) (size f : Nat) : Nat → Nat := Function.update F (size / pageSize) f

theorem addPage_old (F : Nat → Nat) {size f k : Nat} (hal : pageSize ∣ size)
    (hk : k * pageSize < size) : addPage F size f k = F k := by
  refine Function.update_of_ne ?_ _ _
  rintro rfl
  rw [Nat.div_mul_cancel hal] at hk
  omega

theorem addPage_new (F : Nat → Nat) (size f : Nat) : addPage F size f (size / pageSize) = f :=
  Function.update_self _ _ _

/-- A page is an old one or the fresh one. -/
theorem page_cases {size k : Nat} (hal : pageSize ∣ size) (hk : k * pageSize < size + pageSize) :
    k * pageSize < size ∨ k = size / pageSize := by
  obtain ⟨q, rfl⟩ := hal
  rw [Nat.mul_div_cancel_left _ (by decide)]
  simp only [pageSize] at *
  omega

/-- The tables on the way to a page are there once it is mapped. -/
theorem table_isSome_iff {va : Nat} {desc : BitVec 64}
    (hm : Mapped Owns free root va desc phys out phys' out' n) {p : List (Fin 512)}
    (hp : p.length < 4) :
    (tableAt phys' root p).isSome ↔ (tableAt phys root p).isSome ∨ p <+: path va := by
  constructor
  · intro h
    obtain ⟨t, ht⟩ := Option.isSome_iff_exists.mp h
    rcases hm.added p t hp ht with hold | ⟨hpre, _⟩
    · exact .inl (Option.isSome_iff_exists.mpr ⟨t, hold⟩)
    · exact .inr hpre
  · rintro (h | hpre)
    · obtain ⟨t, ht⟩ := Option.isSome_iff_exists.mp h
      exact Option.isSome_iff_exists.mpr ⟨t, hm.kept p t hp ht⟩
    · exact hm.created p hp hpre

/-- Two heap addresses in the same GiB share their level 1 index. -/
theorem prefix2_iff {x y : Nat} (hx : x < slotSize) (hy : y < slotSize) :
    [level0HeapIndex, level1Index (heapMapOffset + x)] <+: path (heapMapOffset + y) ↔
      x / 2 ^ 30 = y / 2 ^ 30 := by
  rw [path, (level0Index_heap hy).1]
  simp only [List.cons_prefix_cons, List.nil_prefix, and_true, true_and, level1Index, Fin.ext_iff,
    levelIndex_val, level1Shift, level2Shift, level3Shift, pageShift, heapMapOffset, slotSize] at *
  omega

/-- Two heap addresses in the same 2 MiB share their indices of level 1 and 2. -/
theorem prefix3_iff {x y : Nat} (hx : x < slotSize) (hy : y < slotSize) :
    [level0HeapIndex, level1Index (heapMapOffset + x), level2Index (heapMapOffset + x)] <+:
      path (heapMapOffset + y) ↔ x / 2 ^ 21 = y / 2 ^ 21 := by
  rw [path, (level0Index_heap hy).1]
  simp only [List.cons_prefix_cons, List.nil_prefix, and_true, true_and, level1Index, level2Index,
    Fin.ext_iff, levelIndex_val, level1Shift, level2Shift, level3Shift, pageShift, heapMapOffset,
    slotSize] at *
  omega

section NewPage

variable (hc : Contract fr Owns free)

/-- Frames that are handed out elsewhere do not touch the heap. -/
theorem backed_handOut (hb : Backed Owns root phys size ext out F) {f : Nat}
    (hown : Owns phys' (insert f out)) (heq : Set.EqOn phys' phys (frameWords (insert f out))) :
    Backed Owns root phys' size ext (insert f out) F ∧
      ∀ x < size, heapWords F phys' (heapMapOffset + x) = heapWords F phys (heapMapOffset + x) := by
  have hsame : ∀ t, IsTable phys root t → ∀ i, entries phys' t i = entries phys t i :=
    fun t ht => entries_of_eqOn heq (Set.mem_insert_of_mem f (hb.tables.owned t ht))
  constructor
  · refine hb.congr hown hsame (fun t ht => Set.mem_insert_of_mem f (hb.tables.owned t ht))
      (fun k hk => ?_) fun g hg => ?_
    · exact ⟨Set.mem_insert_of_mem f (hb.data k hk).1, (hb.data k hk).2.1⟩
    · exact ⟨Set.mem_insert_of_mem f (hb.others g hg).1, (hb.others g hg).2⟩
  · intro x hx
    obtain ⟨hl, hu⟩ := physAddr_mem F x
    exact heq ⟨_, Set.mem_insert_of_mem f (hb.data _ (page_lt hx)).1, hl, hu⟩

/-- A frame that another client takes. -/
theorem backed_take (hb : Backed Owns root phys size ext out F) {f : Nat} (hfresh : f ∉ out)
    (hown : Owns phys' (insert f out)) (heq : Set.EqOn phys' phys (frameWords (insert f out))) :
    Backed Owns root phys' size (insert f ext) (insert f out) F := by
  obtain ⟨hb', _⟩ := backed_handOut hb hown heq
  have hsame : ∀ t, IsTable phys root t → ∀ i, entries phys' t i = entries phys t i :=
    fun t ht => entries_of_eqOn heq (Set.mem_insert_of_mem f (hb.tables.owned t ht))
  refine hb'.withClients (fun k hk => ?_) fun g hg => ?_
  · rintro (hkf | hext)
    · exact hfresh (hkf ▸ (hb.data k hk).1)
    · exact (hb.data k hk).2.1 hext
  · rcases hg with rfl | hg
    · exact ⟨Set.mem_insert g out,
        fun ht => hfresh (hb.tables.owned g ((isTable_congr hsame).mp ht))⟩
    · exact hb'.others g hg

/-- A frame that another client gives back. -/
theorem backed_giveBack (hb : Backed Owns root phys size ext out F) {f : Nat} (hf : f ∈ ext)
    (hown : Owns phys' (out \ {f})) (heq : Set.EqOn phys' phys (frameWords out)) :
    Backed Owns root phys' size (ext \ {f}) (out \ {f}) F ∧
      ∀ x < size, heapWords F phys' (heapMapOffset + x) = heapWords F phys (heapMapOffset + x) := by
  have hne : ∀ t, IsTable phys root t → t ≠ f := fun t ht htf => (hb.others f hf).2 (htf ▸ ht)
  constructor
  · refine hb.congr hown (fun t ht => entries_of_eqOn heq (hb.tables.owned t ht))
      (fun t ht => ⟨hb.tables.owned t ht, hne t ht⟩) (fun k hk => ?_) fun g hg => ?_
    · obtain ⟨hmem, hnot, _⟩ := hb.data k hk
      exact ⟨⟨hmem, fun hkf => hnot (hkf ▸ hf)⟩, fun hin => hnot hin.1⟩
    · exact ⟨⟨(hb.others g hg.1).1, hg.2⟩, (hb.others g hg.1).2⟩
  · intro x hx
    obtain ⟨hl, hu⟩ := physAddr_mem F x
    exact heq ⟨_, (hb.data _ (page_lt hx)).1, hl, hu⟩

include hc

/-- The heap with a page that was mapped to a fresh frame. -/
theorem backed_mapped {f : Nat} {desc : BitVec 64}
    (hb : Backed Owns root phys size ext out F) (hf : f ∈ out) (hfext : f ∉ ext)
    (hftable : ¬ IsTable phys root f) (hfnew : ∀ k, k * pageSize < size → F k ≠ f)
    (hm : Mapped Owns free root (heapMapOffset + size) desc phys out phys' out' n)
    (hpage : ∀ i < pageSize, ∃ desc,
      walk phys' root (heapMapOffset + size + i) = some ⟨f + i, desc⟩) :
    Backed Owns root phys' (size + pageSize) ext out' (addPage F size f) ∧
      ∀ x < size, heapWords (addPage F size f) phys' (heapMapOffset + x) =
        heapWords F phys (heapMapOffset + x) := by
  have hlt := hb.size_lt hc
  have hal := hb.aligned
  have hpos : 0 < pageSize := by decide
  have hold : ∀ x < size, physAddr (addPage F size f) (heapMapOffset + x) =
      physAddr F (heapMapOffset + x) := by
    intro x hx
    rw [physAddr_heap, physAddr_heap, addPage_old F hal (page_lt hx)]
  have hnotable : ∀ g ∈ out, ¬ IsTable phys root g → ¬ IsTable phys' root g := by
    rintro g hg hnot ⟨p, hp, hpg⟩
    rcases hm.added p g hp hpg with h | ⟨_, h⟩
    · exact hnot ⟨p, hp, h⟩
    · exact h hg
  have hwalk : ∀ x < slotSize, x < size ∨ size + pageSize ≤ x →
      walk phys' root (heapMapOffset + x) = walk phys root (heapMapOffset + x) := by
    intro x hslot hx
    refine hm.walk_other _ ?_
    rw [ne_eq, path_eq_iff (level0Index_heap (by omega)).2 (level0Index_heap hslot).2]
    obtain ⟨q, rfl⟩ := hal
    simp only [pageSize, heapMapOffset] at *
    omega
  constructor
  · refine ⟨hm.owns, hm.tables, Nat.dvd_add hal (Nat.dvd_refl _), fun x hx => ?_,
      fun x hx hle => ?_, fun k hk => ?_, fun k k' hk hk' heq => ?_, fun g hg => ?_,
      fun x hx => ?_, fun x hx => ?_⟩
    · rcases Nat.lt_or_ge x size with hxs | hxs
      · obtain ⟨desc, hw⟩ := hb.page x hxs
        exact ⟨desc, by rw [hwalk x (by omega) (.inl hxs), hold x hxs, hw]⟩
      · obtain ⟨i, rfl⟩ := Nat.exists_eq_add_of_le hxs
        obtain ⟨desc, hw⟩ := hpage i (by omega)
        have hdiv : (size + i) / pageSize = size / pageSize ∧ (size + i) % pageSize = i := by
          obtain ⟨q, rfl⟩ := hal
          simp only [pageSize] at *
          omega
        exact ⟨desc, by rw [physAddr_heap, hdiv.1, hdiv.2, addPage_new, ← Nat.add_assoc, hw]⟩
    · rw [hwalk x hx (.inr hle)]
      exact hb.unmapped x hx (by omega)
    · rcases page_cases hal hk with hk | rfl
      · rw [addPage_old F hal hk]
        obtain ⟨hmem, hnot, htab⟩ := hb.data k hk
        exact ⟨hm.sub hmem, hnot, hnotable _ hmem htab⟩
      · rw [addPage_new]
        exact ⟨hm.sub hf, hfext, hnotable f hf hftable⟩
    · rcases page_cases hal hk with hk | rfl <;> rcases page_cases hal hk' with hk' | rfl
      · rw [addPage_old F hal hk, addPage_old F hal hk'] at heq
        exact hb.inj k k' hk hk' heq
      · rw [addPage_old F hal hk, addPage_new] at heq
        exact absurd heq (hfnew k hk)
      · rw [addPage_old F hal hk', addPage_new] at heq
        exact absurd heq.symm (hfnew k' hk')
      · rfl
    · obtain ⟨hmem, hnot⟩ := hb.others g hg
      exact ⟨hm.sub hmem, hnotable g hmem hnot⟩
    · have hstep := table_isSome_iff hm (p := [level0HeapIndex, level1Index (heapMapOffset + x)])
        (by simp)
      rw [hstep, hb.level2 x hx, prefix2_iff hx (by omega)]
      obtain ⟨q, rfl⟩ := hal
      simp only [pageSize] at *
      omega
    · have hstep := table_isSome_iff hm (p := [level0HeapIndex, level1Index (heapMapOffset + x),
        level2Index (heapMapOffset + x)]) (by simp)
      rw [hstep, hb.level3 x hx, prefix3_iff hx (by omega)]
      obtain ⟨q, rfl⟩ := hal
      simp only [pageSize] at *
      omega
  · intro x hx
    obtain ⟨hmem, _, hnot⟩ := hb.data _ (page_lt hx)
    obtain ⟨hl, hu⟩ := physAddr_mem F x
    rw [heapWords, hold x hx]
    exact hm.others _ hmem hnot _ hl hu

/-- What `alloc_heap_page` does on a backed heap, by the frames that are left. -/
inductive PageOutcome (fr : PageFrameAllocator) (Owns : Words → Set Nat → Prop)
    (free : Words → Nat) (root : Nat) (ext out : Set Nat) (F : Nat → Nat) (s : Machine) :
    Prop where
  /-- The frames for the page and its tables are there. -/
  | served (phys' : Words) (out' : Set Nat) (f : Nat)
      (enough : pageCost s.heapSize ≤ free s.phys)
      (result : allocHeapPage fr (root + linearMapOffset) s = .ok (heapMapOffset + s.heapSize)
        { s with phys := phys', heapSize := s.heapSize + pageSize })
      (backed : Backed Owns root phys' (s.heapSize + pageSize) ext out' (addPage F s.heapSize f))
      (cost : free phys' + pageCost s.heapSize = free s.phys)
      (words : ∀ x < s.heapSize, heapWords (addPage F s.heapSize f) phys' (heapMapOffset + x) =
        heapWords F s.phys (heapMapOffset + x))
  /-- A table is missing, and there is no frame for it. -/
  | stopped (phys' : Words) (out' : Set Nat) (short : free s.phys < pageCost s.heapSize)
      (table : 2 ≤ pageCost s.heapSize)
      (result : allocHeapPage fr (root + linearMapOffset) s =
        .error .nullPointer { s with phys := phys' })
      (owns : Owns phys' out') (sub : out ⊆ out')
      (walk_same : ∀ va, walk phys' root va = walk s.phys root va)
  /-- All tables are there, and the null pointer is mapped as the page's frame. -/
  | mappedNull (phys' : Words) (out' : Set Nat) (none_free : free s.phys = 0)
      (cost : pageCost s.heapSize = 1)
      (result : allocHeapPage fr (root + linearMapOffset) s = .ok (heapMapOffset + s.heapSize)
        { s with phys := phys', heapSize := s.heapSize + pageSize })
      (tables : Tables phys' root out') (owns : Owns phys' out')
      (null : ∀ i < pageSize, ∃ desc,
        walk phys' root (heapMapOffset + s.heapSize + i) = some ⟨i, desc⟩)

/-- The outcome is one of the three. -/
theorem allocHeapPage_outcome
    (hb : Backed Owns root s.phys s.heapSize ext out F) :
    PageOutcome fr Owns free root ext out F s := by
  have hlt := hb.size_lt hc
  have hpos : 0 < pageSize := by decide
  obtain ⟨hslot, hkernel⟩ := level0Index_heap (x := s.heapSize) (by omega)
  have hva : ¬ 2 ^ 64 ≤ heapMapOffset + s.heapSize := by
    have := hkernel.upper
    omega
  have hpaged : Paged (heapMapOffset + s.heapSize) := .inl hslot
  have hcost := hb.missingTables_eq hc
  have hrun : ∀ {f phys₁}, fr.allocFrame s.phys = some (f, phys₁) →
      allocHeapPage fr (root + linearMapOffset) s = (do
        onMem (mapPage fr (root + linearMapOffset) (heapMapOffset + s.heapSize) f)
        modify fun s => { s with heapSize := s.heapSize + pageSize }
        return heapMapOffset + s.heapSize : HeapM Nat) { s with phys := phys₁ } := by
    intro f phys₁ hres
    have hmem : onMem (allocFrame fr) s = .ok f { s with phys := phys₁ } :=
      onMem_ok (allocFrame_ok hres)
    rw [allocHeapPage, bind_ok get_apply, if_neg hva, bind_ok hmem]
  -- the page's addresses, once it is mapped
  have hpage : ∀ {f phys₁ out₁ phys₂ out₂ n}, pageSize ∣ f → f < 2 ^ 48 →
      Mapped Owns free root (heapMapOffset + s.heapSize)
        (pageAttributes .normalWriteBackNonTransientReadWriteAlloc (BitVec.ofNat 64 f ||| 0b11#64))
        phys₁ out₁ phys₂ out₂ n → ∀ i < pageSize, ∃ desc,
          walk phys₂ root (heapMapOffset + s.heapSize + i) = some ⟨f + i, desc⟩ := by
    intro f phys₁ out₁ phys₂ out₂ n hf hf48 hm i hi
    have hkerneli : IsKernel (heapMapOffset + s.heapSize + i) := by
      rw [Nat.add_assoc]
      exact (level0Index_heap (by omega)).2
    obtain ⟨q, hq⟩ := hb.aligned
    have hpath : path (heapMapOffset + s.heapSize + i) = path (heapMapOffset + s.heapSize) := by
      rw [path_eq_iff hkernel hkerneli, hq]
      simp only [pageSize, heapMapOffset] at *
      omega
    have hoff : (heapMapOffset + s.heapSize + i) % pageSize = i := by
      rw [hq]
      simp only [pageSize, heapMapOffset] at *
      omega
    obtain ⟨desc, hw, _⟩ := walk_of_resolve hf hf48 (hpath ▸ hm.resolve_page)
    exact ⟨desc, by rw [hw, hoff]⟩
  rcases Nat.eq_zero_or_pos (free s.phys) with hfree | hfree
  · have hstep := hrun (hc.alloc_none hb.owns hfree)
    rcases mapPage_spec hc hb.owns hb.tables hkernel.lower hpaged.ne_linear
      (hb.tables.isSome_of_paged hpaged) (regionDescriptor_heap hslot (Nat.dvd_zero pageSize)) with
      ⟨phys', out', _, hres, hgrown, hshort, _⟩ | ⟨phys', out', hres, hm⟩
    · refine .stopped phys' out' (by omega) (by omega) ?_ hgrown.owns hgrown.sub hgrown.walk
      rw [hstep, bind_error (onMem_error hres)]
    · have hmcost := hm.cost
      refine .mappedNull phys' out' hfree (by omega) ?_ hm.tables hm.owns ?_
      · rw [hstep, bind_ok (onMem_ok hres)]
        rfl
      · intro i hi
        obtain ⟨desc, hw⟩ := hpage (Nat.dvd_zero pageSize) (by decide) hm i hi
        exact ⟨desc, by rw [hw, Nat.zero_add]⟩
  · obtain ⟨f, phys₁, hres₁, hfresh, hown₁, hfree₁, heq⟩ := hc.alloc_some hb.owns hfree
    have hstep := hrun hres₁
    obtain ⟨hb₁, hwords₁⟩ := backed_handOut hb hown₁ heq
    have hframe : IsFrame f := hc.frame hown₁ (Set.mem_insert f out)
    have hf48 : f < 2 ^ 48 := by
      have := hframe.reachable
      simp only [slotSize, pageSize] at this
      omega
    have hcost₁ := hb₁.missingTables_eq hc
    rcases mapPage_spec hc hown₁ hb₁.tables hkernel.lower hpaged.ne_linear
      (hb₁.tables.isSome_of_paged hpaged) (regionDescriptor_heap hslot hframe.aligned) with
      ⟨phys', out', _, hres, hgrown, hshort, _⟩ | ⟨phys', out', hres, hm⟩
    · refine .stopped phys' out' (by omega) (by omega) ?_ hgrown.owns
        ((Set.subset_insert f out).trans hgrown.sub) fun va => ?_
      · rw [hstep, bind_error (onMem_error hres)]
      · have hsame : ∀ t, IsTable s.phys root t → ∀ i, entries phys₁ t i = entries s.phys t i :=
          fun t ht => entries_of_eqOn heq (Set.mem_insert_of_mem f (hb.tables.owned t ht))
        exact (hgrown.walk va).trans (walk_congr hsame va)
    · have hmcost := hm.cost
      have hnotable : ¬ IsTable phys₁ root f := by
        rintro ⟨p, hp, hpf⟩
        have hsame : ∀ t, IsTable s.phys root t → ∀ i, entries phys₁ t i = entries s.phys t i :=
          fun t ht => entries_of_eqOn heq (Set.mem_insert_of_mem f (hb.tables.owned t ht))
        exact hfresh (hb.tables.owned f ⟨p, hp, (tableAt_congr hsame (by omega)).symm.trans hpf⟩)
      obtain ⟨hb₂, hwords₂⟩ := backed_mapped hc hb₁ (Set.mem_insert f out)
        (fun hext => hfresh (hb.others f hext).1) hnotable
        (fun k hk hkf => hfresh (hkf ▸ (hb.data k hk).1)) hm (hpage hframe.aligned hf48 hm)
      refine .served phys' out' f (by omega) ?_ hb₂ (by omega) fun x hx => ?_
      · rw [hstep, bind_ok (onMem_ok hres)]
        rfl
      · rw [hwords₂ x hx, hwords₁ x hx]

end NewPage

end Kruspix.Mm.HeapPages
