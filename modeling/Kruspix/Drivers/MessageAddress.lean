import Kruspix.Drivers.RpiFirmware
import Kruspix.Mm.HeapPages

/-!
# The address of a message

`virt_to_phys` takes every address from the linear map on for one of the linear map. The
addresses of the heap and of the peripherals are mapped page by page, to frames and registers
that lie below 512 GiB, and the heap begins more than that behind the linear map.
-/

namespace Kruspix.Drivers.MessageAddress

open Lib.Masks Lib.Radix Lib.Result Lib.Transition Lib.WordMemory Mm.Layout Mm.PageFrames
open Mm.HeapAllocator Mm.HeapPages Arch.Mmu RpiFirmware
open Mailbox (Word)

variable {fr : PageFrameAllocator} {Owns : Words → Set Nat → Prop} {free : Words → Nat}
  {phys phys' : Words} {root va pa : Nat} {out : Set Nat} {s t : Machine}

/-! ## Addresses -/

/-- An address of the linear map. -/
def LinearMap (va : Nat) : Prop := linearMapOffset ≤ va ∧ va < linearMapOffset + linearMapSize

theorem level0Index_eq_linear (hva : IsKernel va) (h : level0Index va = level0LinearIndex) :
    ∃ x < slotSize, va = linearMapOffset + x := by
  have hlower := hva.lower
  have hupper := hva.upper
  have hindex := congrArg Fin.val h
  simp only [level0LinearIndex, level0Index, levelIndex_val, level0Shift, level1Shift, level2Shift,
    level3Shift, pageShift, linearMapOffset] at hindex
  refine ⟨va - linearMapOffset, ?_, ?_⟩ <;> simp only [slotSize, linearMapOffset] <;> omega

theorem heapMapOffset_le (h : Paged va) (hva : IsKernel va) : heapMapOffset ≤ va := by
  have hlower := hva.lower
  have hupper := hva.upper
  rcases h with h | h <;> have hindex := congrArg Fin.val h <;>
    simp only [level0HeapIndex, level0IoIndex, level0Index, levelIndex_val, level0Shift,
      level1Shift, level2Shift, level3Shift, pageShift, heapMapOffset,
      ioPeripheralsMapOffset] at hindex ⊢ <;> omega

/-- The peripherals have one slot. -/
theorem lt_slotSize_of_paged {x : Nat} (h : Paged (ioPeripheralsMapOffset + x))
    (hlt : ioPeripheralsMapOffset + x < 2 ^ 64) : x < slotSize := by
  rcases h with h | h <;> have hindex := congrArg Fin.val h <;>
    simp only [level0HeapIndex, level0IoIndex, level0Index, levelIndex_val, level0Shift,
      level1Shift, level2Shift, level3Shift, pageShift, heapMapOffset,
      ioPeripheralsMapOffset] at hindex hlt <;> simp only [slotSize] <;> omega

/-- `map_page` maps into these slots only. -/
theorem paged_of_regionDescriptor {desc : BitVec 64} (h : regionDescriptor va pa = .ok desc) :
    Paged va ∧ pageSize ∣ pa ∧
      ∃ attr, desc = pageAttributes attr (BitVec.ofNat 64 pa ||| 0b11#64) := by
  have hpage : ∀ {attr}, (PageDescriptor.new pa).map (pageAttributes attr) = .ok desc →
      pageSize ∣ pa ∧ ∃ attr, desc = pageAttributes attr (BitVec.ofNat 64 pa ||| 0b11#64) := by
    intro attr hdesc
    rw [PageDescriptor.new] at hdesc
    split at hdesc
    · rename_i hal
      cases hdesc
      exact ⟨Nat.dvd_of_mod_eq_zero hal, attr, rfl⟩
    · cases hdesc
  rw [regionDescriptor] at h
  split_ifs at h with hlin hheap hio
  · exact ⟨.inl hheap, hpage h⟩
  · exact ⟨.inr hio, hpage h⟩

/-- `map_page` looks at its arguments first. -/
theorem regionDescriptor_of_mapPage {kernelTable : Nat}
    (h : mapPage fr kernelTable va pa phys = .ok () phys') :
    0xffff_0000_0000_0000 ≤ va ∧ ∃ desc, regionDescriptor va pa = .ok desc := by
  rw [mapPage] at h
  split at h
  · cases h
  · rename_i hlower
    obtain ⟨desc, m, hdesc, -⟩ := bind_eq_ok h
    cases hregion : regionDescriptor va pa with
    | ok desc => exact ⟨by omega, desc, rfl⟩
    | error e =>
        rw [hregion] at hdesc
        cases hdesc

/-! ## Calls -/

/-- Outside of the linear map, the slots of the heap and of the peripherals are mapped, to
addresses below 512 GiB. -/
def Placed (phys : Words) (root : Nat) : Prop :=
  ∀ va t, level0Index va ≠ level0LinearIndex → walk phys root va = some t →
    Paged va ∧ t.addr < slotSize

/-- What holds between two calls. -/
structure Invariant (Owns : Words → Set Nat → Prop) (root : Nat) (phys : Words) : Prop where
  tables : ∃ out, Owns phys out ∧ Tables phys root out
  placed : Placed phys root

section Calls

variable (hc : Contract fr Owns free)

include hc

theorem Invariant.allocFrame {frame : Nat} (h : Invariant Owns root phys)
    (hframe : allocFrame fr phys = .ok frame phys') :
    Invariant Owns root phys' ∧ (frame = 0 ∨ IsFrame frame) := by
  obtain ⟨out, hown, htab⟩ := h.tables
  rcases Nat.eq_zero_or_pos (free phys) with hfree | hfree
  · rw [allocFrame_ok (hc.alloc_none hown hfree)] at hframe
    cases hframe
    exact ⟨h, .inl rfl⟩
  · obtain ⟨f, phys₁, hres, -, hown', -, heq⟩ := hc.alloc_some hown hfree
    rw [allocFrame_ok hres] at hframe
    cases hframe
    have hsame : ∀ t, IsTable phys root t → ∀ i, entries phys' t i = entries phys t i :=
      fun t ht => entries_of_eqOn heq (Set.mem_insert_of_mem _ (htab.owned t ht))
    refine ⟨⟨⟨_, hown', htab.congr hsame fun t ht => Set.mem_insert_of_mem _ (htab.owned t ht)⟩,
      fun va t hlin hwalk => h.placed va t hlin ?_⟩, .inr (hc.frame hown' (Set.mem_insert _ out))⟩
    rwa [walk_congr hsame va] at hwalk

/-- A page that is mapped below 512 GiB. -/
theorem Invariant.mapPage (h : Invariant Owns root phys)
    (hpa : Paged va → pa + pageSize ≤ slotSize)
    (hres : mapPage fr (root + linearMapOffset) va pa phys = .ok () phys') :
    Invariant Owns root phys' := by
  obtain ⟨out, hown, htab⟩ := h.tables
  obtain ⟨hlower, desc, hregion⟩ := regionDescriptor_of_mapPage hres
  obtain ⟨hpaged, hal, attr, rfl⟩ := paged_of_regionDescriptor hregion
  rcases mapPage_spec hc hown htab hlower hpaged.ne_linear (htab.isSome_of_paged hpaged) hregion with
    ⟨phys₁, -, -, herror, -⟩ | ⟨phys₁, out₁, hok, hmapped⟩
  · rw [herror] at hres
    cases hres
  · rw [hok] at hres
    cases hres
    refine ⟨⟨out₁, hmapped.owns, hmapped.tables⟩, fun va' t hlin hwalk => ?_⟩
    by_cases hpath : path va' = path va
    · have hfit := hpa hpaged
      have hlt : pa < 2 ^ 48 := by
        simp only [slotSize] at hfit
        omega
      obtain ⟨desc, hwalk', -⟩ := walk_of_resolve hal hlt (hpath ▸ hmapped.resolve_page)
      rw [hwalk'] at hwalk
      cases hwalk
      have hslot : level0Index va' = level0Index va := (List.cons.inj hpath).1
      have hoff : va' % pageSize < pageSize := Nat.mod_lt _ (by decide)
      refine ⟨?_, by dsimp only; omega⟩
      rwa [Paged, hslot]
    · rw [hmapped.walk_other va' hpath] at hwalk
      exact h.placed va' t hlin hwalk

theorem Invariant.mapPages {pages : Nat} (h : Invariant Owns root phys) (hal : pageSize ∣ pa)
    (hlt : ioPeripheralsMapOffset + (pa + pages * pageSize) < 2 ^ 64)
    (hres : mapPages fr (root + linearMapOffset) pages (ioPeripheralsMapOffset + pa) pa phys =
      .ok () phys') : Invariant Owns root phys' := by
  induction pages generalizing pa phys with
  | zero =>
      cases hres
      exact h
  | succ pages ih =>
      rw [Nat.succ_mul] at hlt
      have hpos : 0 < pageSize := by decide
      obtain ⟨_, phys₁, hpage, hrest⟩ := bind_eq_ok hres
      have h₁ := h.mapPage hc (fun hpaged => by
        have hslot := lt_slotSize_of_paged hpaged (by omega)
        obtain ⟨q, rfl⟩ := hal
        simp only [pageSize, slotSize] at *
        omega) hpage
      rw [Nat.add_assoc] at hrest
      exact ih h₁ (Nat.dvd_add hal (Nat.dvd_refl _)) (by omega) hrest

theorem Invariant.mapIoRegion {size va : Nat} (h : Invariant Owns root phys)
    (hres : mapIoRegion fr (root + linearMapOffset) pa size phys = .ok va phys') :
    Invariant Owns root phys' := by
  rw [Arch.Mmu.mapIoRegion] at hres
  split at hres
  · cases hres
  · split at hres
    · cases hres
    · rename_i hlt hend
      obtain ⟨_, phys₁, hpages, hrest⟩ := bind_eq_ok hres
      cases hrest
      refine h.mapPages hc (Nat.dvd_mul_left _ _) ?_ hpages
      simp only [ioPeripheralsMapOffset, ioPeripheralsMapSize, pageSize] at hend ⊢
      omega

end Calls

/-! ## Runs -/

/-- The calls that map pages or take frames. -/
inductive Event
  | heapGrowth
  | mapIoRegion (pa size : Nat)
  | allocFrame

/-- The machine after code that does not panic. -/
def after {α : Type} (x : HeapM α) (s : Machine) : Option Machine :=
  match x s with
  | .ok _ t => some t
  | .error _ _ => none

/-- One call. A panic ends the run. -/
def step (fr : PageFrameAllocator) (kernelTable : Nat) (s : Machine) : Event → Option Machine
  | .heapGrowth => after (allocHeapPage fr kernelTable) s
  | .mapIoRegion pa size => after (onMem (mapIoRegion fr kernelTable pa size)) s
  | .allocFrame => after (onMem (allocFrame fr)) s

theorem after_eq_some {α : Type} {x : HeapM α} (h : after x s = some t) : ∃ a, x s = .ok a t := by
  rw [after] at h
  split at h
  · rename_i a u hx
    cases h
    exact ⟨a, hx⟩
  · cases h

theorem onMem_eq_ok {α : Type} {x : Mem α} {a : α} (h : onMem x s = .ok a t) :
    x s.phys = .ok a t.phys := by
  rw [onMem] at h
  split at h
  · rename_i b phys hx
    cases h
    exact hx
  · cases h

section Steps

variable (hc : Contract fr Owns free)

include hc

theorem Invariant.allocHeapPage {va : Nat} (h : Invariant Owns root s.phys)
    (hres : allocHeapPage fr (root + linearMapOffset) s = .ok va t) :
    Invariant Owns root t.phys := by
  rw [Mm.HeapAllocator.allocHeapPage, bind_ok get_apply] at hres
  split at hres
  · cases hres
  · obtain ⟨frame, s₁, hframe, hres⟩ := bind_eq_ok hres
    obtain ⟨_, s₂, hpage, hres⟩ := bind_eq_ok hres
    cases hres
    obtain ⟨h₁, hkind⟩ := h.allocFrame hc (onMem_eq_ok hframe)
    have hfit : frame + pageSize ≤ slotSize := by
      rcases hkind with rfl | hkind
      · decide
      · exact hkind.reachable
    have h₂ : Invariant Owns root s₂.phys := h₁.mapPage hc (fun _ => hfit) (onMem_eq_ok hpage)
    exact h₂

theorem Invariant.step {e : Event} (h : Invariant Owns root s.phys)
    (hst : MessageAddress.step fr (root + linearMapOffset) s e = some t) :
    Invariant Owns root t.phys := by
  cases e with
  | heapGrowth =>
      rw [MessageAddress.step] at hst
      obtain ⟨va, hres⟩ := after_eq_some hst
      exact h.allocHeapPage hc hres
  | mapIoRegion pa size =>
      rw [MessageAddress.step] at hst
      obtain ⟨va, hres⟩ := after_eq_some hst
      exact h.mapIoRegion hc (onMem_eq_ok hres)
  | allocFrame =>
      rw [MessageAddress.step] at hst
      obtain ⟨f, hres⟩ := after_eq_some hst
      exact (h.allocFrame hc (onMem_eq_ok hres)).1

end Steps

/-- The first tables map the linear map only. -/
theorem placed_first {l h o : Nat} (hfirst : FirstTables phys root l h o) : Placed phys root := by
  intro va t hlin hwalk
  exfalso
  have hzero : ∀ {p i is u}, path va = p ++ i :: is → tableAt phys root p = some u →
      entries phys u i = 0#64 → walk phys root va = none := by
    intro p i is u hpath hu hentry
    have hres : resolve nextTable (entries phys) root (p ++ i :: is) = _ :=
      resolve_of_descend hu (.inr (by rw [hentry, nextTable_zero]))
    rw [walk, hpath, hres, hentry, Option.bind_some, output_zero]
  have hnone : walk phys root va = none := by
    by_cases hpaged : Paged va
    · rcases hpaged with hslot | hslot
      · refine hzero (p := [level0HeapIndex]) (u := h) (by rw [path, hslot]; rfl) ?_ (hfirst.heap _)
        exact (hfirst.tableAt_iff _ _).mpr (by simp)
      · refine hzero (p := [level0IoIndex]) (u := o) (by rw [path, hslot]; rfl) ?_ (hfirst.io _)
        exact (hfirst.tableAt_iff _ _).mpr (by simp)
    · refine hzero (p := []) (u := root) (by rw [path]; rfl) rfl ?_
      rw [hfirst.root_entries, if_neg fun hio => hpaged (.inr hio),
        if_neg fun hheap => hpaged (.inl hheap), if_neg hlin]
  rw [hnone] at hwalk
  cases hwalk

theorem reachable_invariant (hc : Contract fr Owns free) {user kernel : Nat} (hown : Owns phys ∅)
    (hsetup : setupPageTables fr phys = .ok (user, kernel) phys')
    (hs : Reachable (· = ⟨phys', Heap.new, 0⟩) (Step (step fr kernel) fun _ _ => True) s) :
    ∃ root, kernel = root + linearMapOffset ∧ Invariant Owns root s.phys := by
  obtain ⟨root, l, h, o, out, rfl, hfirst, htab, hown', -, -⟩ := setupPageTables_ok hc hown hsetup
  refine ⟨root, rfl, hs.invariant (P := fun s => Invariant Owns root s.phys) ?_ ?_⟩
  · rintro s rfl
    exact ⟨⟨out, hown', htab⟩, placed_first hfirst⟩
  · rintro s t - hinv ⟨e, -, hst⟩
    exact hinv.step hc hst

/-! ## Translations -/

/-- What the firmware takes for the address of a message: all bits but those of the channel. -/
def bufferAddress (word : Word) : Nat := (word &&& 0xFFFFFFF0#32).toNat

theorem bufferAddress_requestWord (hal : 16 ∣ virtToPhys va) (hlt : virtToPhys va < 2 ^ 32) :
    bufferAddress (requestWord va) = virtToPhys va := by
  rw [bufferAddress, requestWord, MBOX_0_CH_8_ARM_VC_TAGS, or_and_of_disjoint (by decide)]
  exact toNat_ofNat_and (n := 4) (m := 32) hal hlt (Nat.le_refl _) (by decide) (by decide)

theorem Invariant.virtToPhys_eq_iff (h : Invariant Owns root phys) {t : Translation}
    (hva : IsKernel va) (hwalk : walk phys root va = some t) :
    virtToPhys va = t.addr ↔ LinearMap va := by
  by_cases hlin : level0Index va = level0LinearIndex
  · obtain ⟨x, hx, rfl⟩ := level0Index_eq_linear hva hlin
    obtain ⟨out, -, htab⟩ := h.tables
    obtain ⟨desc, hlinear⟩ := htab.walk_linear hx
    rw [hlinear] at hwalk
    cases hwalk
    rw [Nat.add_comm, virtToPhys_linear]
    refine iff_of_true rfl ?_
    simp only [slotSize] at hx
    simp only [LinearMap, linearMapSize]
    omega
  · obtain ⟨hpaged, haddr⟩ := h.placed va t hlin hwalk
    have hlower := heapMapOffset_le hpaged hva
    simp only [heapMapOffset] at hlower
    simp only [slotSize] at haddr
    rw [virtToPhys, LinearMap, linearMapOffset, linearMapSize]
    refine iff_of_false ?_ (by omega)
    rw [if_pos (by omega)]
    omega

/-- After any calls that follow `setup_page_tables`, `virt_to_phys` gives the translation of an
address that is mapped exactly in the linear map. A message there, below 4 GiB, is handed to
the firmware at its place. -/
theorem reachable_virtToPhys_iff {fa : Mm.FrameAllocator.BitMapFrameAllocator} (hp : Pages fa)
    {mem : Words} {user kernel : Nat}
    (hsetup : setupPageTables (bitmapFrames fa) (fa.initBitmap mem) = .ok (user, kernel) phys)
    (hs : Reachable (· = ⟨phys, Heap.new, 0⟩)
      (Step (step (bitmapFrames fa) kernel) fun _ _ => True) s)
    {t : Translation} (hva : IsKernel va) (hwalk : walk s.phys (virtToPhys kernel) va = some t) :
    (virtToPhys va = t.addr ↔ LinearMap va) ∧
      (LinearMap va → 64 ∣ va → t.addr < 2 ^ 32 → bufferAddress (requestWord va) = t.addr) := by
  obtain ⟨root, rfl, hinv⟩ := reachable_invariant (contract_of_setup hp hsetup)
    (Mm.FrameSet.represents_initBitmap hp.wellFormed mem) hsetup hs
  rw [virtToPhys_linear] at hwalk
  have hiff := hinv.virtToPhys_eq_iff hva hwalk
  refine ⟨hiff, fun hlin hal hlt => ?_⟩
  have haddr := hiff.mpr hlin
  rw [← haddr] at hlt ⊢
  refine bufferAddress_requestWord ?_ hlt
  obtain ⟨q, rfl⟩ := hal
  have hle := hlin.1
  rw [virtToPhys, if_pos hle, linearMapOffset]
  omega

/-- A message in the linear map, after a page was mapped for the heap and one for a device. -/
theorem reachable_virtToPhys_iff_stack :
    ∃ s : Machine, s.heapSize = pageSize ∧ ∃ kernel,
      walk s.phys (virtToPhys kernel) stackMessage = some ⟨0x80000, identityBlock
        .normalWriteBackNonTransientReadWriteAlloc 0⟩ ∧
      virtToPhys stackMessage = 0x80000 ∧ bufferAddress (requestWord stackMessage) = 0x80000 := by
  have hrun : (match setupPageTables (bitmapFrames smallRegion)
      (smallRegion.initBitmap fun _ => 0) with
    | .ok (_, kernel) phys => (run (step (bitmapFrames smallRegion) kernel) (fun _ _ => True)
        ⟨phys, Heap.new, 0⟩ [.heapGrowth, .allocFrame, .mapIoRegion 0x3f200ffc 0x10]).map
        fun s : Machine => (s.heapSize, walk s.phys (virtToPhys kernel) stackMessage)
    | .error _ _ => none) = some (pageSize, some ⟨0x80000, identityBlock
        .normalWriteBackNonTransientReadWriteAlloc 0⟩) := by
    decide +kernel
  split at hrun
  · rename_i user kernel phys hsetup
    obtain ⟨s, hs, heq⟩ := Option.map_eq_some_iff.mp hrun
    rw [Prod.mk.injEq] at heq
    obtain ⟨hiff, hbuffer⟩ := reachable_virtToPhys_iff smallRegion_pages hsetup
      ⟨_, rfl, reflTransGen_of_run _ hs⟩ ⟨by decide, by decide⟩ heq.2
    have hlin : LinearMap stackMessage := ⟨by decide, by decide⟩
    exact ⟨s, heq.1, kernel, heq.2, hiff.mpr hlin,
      hbuffer hlin ⟨stackMessage / 64, by decide⟩ (by decide)⟩
  · cases hrun

/-- A message on a stack in the first page of the heap, and one that lies in the linear map
at 4 GiB. -/
theorem reachable_other_address :
    ∃ tables phys s t t', setupPageTables (bitmapFrames smallRegion)
        (smallRegion.initBitmap fun _ => 0) = .ok tables phys ∧
      Reachable (· = ⟨phys, Heap.new, 0⟩)
        (Step (step (bitmapFrames smallRegion) tables.2) fun _ _ => True) s ∧
      (walk s.phys (virtToPhys tables.2) heapMapOffset = some t ∧
        virtToPhys heapMapOffset ≠ t.addr ∧ bufferAddress (requestWord heapMapOffset) ≠ t.addr) ∧
      walk s.phys (virtToPhys tables.2) (linearMapOffset + 2 ^ 32) = some t' ∧
        bufferAddress (requestWord (linearMapOffset + 2 ^ 32)) ≠ t'.addr := by
  have hrun : (match setupPageTables (bitmapFrames smallRegion)
      (smallRegion.initBitmap fun _ => 0) with
    | .ok tables phys => (run (step (bitmapFrames smallRegion) tables.2) (fun _ _ => True)
        ⟨phys, Heap.new, 0⟩ [.heapGrowth]).map fun s : Machine =>
          ((walk s.phys (virtToPhys tables.2) heapMapOffset).map Translation.addr,
            (walk s.phys (virtToPhys tables.2) (linearMapOffset + 2 ^ 32)).map Translation.addr)
    | .error _ _ => none) = some (some 0x107000, some 0x100000000) := by
    decide +kernel
  split at hrun
  · rename_i tables phys hsetup
    obtain ⟨s, hs, heq⟩ := Option.map_eq_some_iff.mp hrun
    rw [Prod.mk.injEq] at heq
    obtain ⟨t, ht, haddr⟩ := Option.map_eq_some_iff.mp heq.1
    obtain ⟨t', ht', haddr'⟩ := Option.map_eq_some_iff.mp heq.2
    refine ⟨tables, phys, s, t, t', hsetup, ⟨_, rfl, reflTransGen_of_run _ hs⟩,
      ⟨ht, ?_, ?_⟩, ht', ?_⟩
    · rw [haddr]
      decide
    · rw [haddr]
      decide
    · rw [haddr']
      decide
  · cases hrun

end Kruspix.Drivers.MessageAddress
