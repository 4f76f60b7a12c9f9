import Kruspix.Arch.Mmu.Mapping
import Kruspix.Arch.Mmu.Setup
import Kruspix.Lib.Transition

/-!
# Runs of mappings

After `setup_page_tables`, calls of `map_io_region` and of `map_page` for heap
pages follow each other in any order. Every peripheral that was mapped and every
heap page keeps its translation, whatever is mapped later.
-/

namespace Kruspix.Arch.Mmu

open Lib.WordMemory Lib.Result Lib.Radix Lib.Transition Mm.Layout Mm.PageFrames

variable {fr : PageFrameAllocator} {Owns : Words → Set Nat → Prop} {free : Words → Nat}
  {phys phys' : Words} {root va pa : Nat} {out out' : Set Nat}

section Addresses

/-- An address of the kernel's half. -/
structure IsKernel (va : Nat) : Prop where
  lower : 0xffff_0000_0000_0000 ≤ va
  upper : va < 2 ^ 64

/-- Two kernel addresses have the same path when they lie in the same page. -/
theorem path_eq_iff {va va' : Nat} (h : IsKernel va) (h' : IsKernel va') :
    path va' = path va ↔ va' / pageSize = va / pageSize := by
  have hl := h.lower
  have hu := h.upper
  have hl' := h'.lower
  have hu' := h'.upper
  simp only [path, List.cons.injEq, and_true, level0Index, level1Index, level2Index, level3Index,
    Fin.ext_iff, levelIndex_val, level0Shift, level1Shift, level2Shift, level3Shift, pageShift,
    pageSize]
  constructor
  · rintro ⟨h0, h1, h2, h3⟩
    omega
  · intro hpage
    refine ⟨?_, ?_, ?_, ?_⟩ <;> omega

/-- The addresses of the heap's level 0 slot. -/
theorem level0Index_heap {x : Nat} (hx : x < slotSize) :
    level0Index (heapMapOffset + x) = level0HeapIndex ∧ IsKernel (heapMapOffset + x) := by
  simp only [slotSize] at hx
  refine ⟨Fin.ext ?_, ?_, ?_⟩
  · simp only [level0HeapIndex, level0Index, levelIndex_val, level0Shift, level1Shift, level2Shift,
      level3Shift, pageShift, heapMapOffset]
    omega
  · simp only [heapMapOffset]
    omega
  · simp only [heapMapOffset]
    omega

/-- The addresses of the peripherals' level 0 slot. -/
theorem level0Index_io {x : Nat} (hx : x < slotSize) :
    level0Index (ioPeripheralsMapOffset + x) = level0IoIndex ∧
      IsKernel (ioPeripheralsMapOffset + x) := by
  simp only [slotSize] at hx
  refine ⟨Fin.ext ?_, ?_, ?_⟩
  · simp only [level0IoIndex, level0Index, levelIndex_val, level0Shift, level1Shift, level2Shift,
      level3Shift, pageShift, ioPeripheralsMapOffset]
    omega
  · simp only [ioPeripheralsMapOffset]
    omega
  · simp only [ioPeripheralsMapOffset]
    omega

/-- The first 512 GiB of the linear map. -/
theorem path_linear {x : Nat} (hx : x < slotSize) :
    level0Index (linearMapOffset + x) = level0LinearIndex ∧
      (level1Index (linearMapOffset + x)).val = x / 2 ^ 30 ∧ IsKernel (linearMapOffset + x) := by
  simp only [slotSize] at hx
  refine ⟨Fin.ext ?_, ?_, ?_, ?_⟩
  · simp only [level0LinearIndex, level0Index, levelIndex_val, level0Shift, level1Shift,
      level2Shift, level3Shift, pageShift, linearMapOffset]
    omega
  · simp only [level1Index, levelIndex_val, level1Shift, level2Shift, level3Shift, pageShift,
      linearMapOffset]
    omega
  · simp only [linearMapOffset]
    omega
  · simp only [linearMapOffset]
    omega

/-- An address in the slot of the heap or in that of the peripherals. -/
def Paged (va : Nat) : Prop := level0Index va = level0HeapIndex ∨ level0Index va = level0IoIndex

theorem Paged.ne_linear {va : Nat} (h : Paged va) : level0Index va ≠ level0LinearIndex := by
  rcases h with h | h <;> rw [h] <;> decide

/-- The table of such a slot is always there. -/
theorem Tables.isSome_of_paged {va : Nat} (htab : Tables phys root out) (h : Paged va) :
    (tableAt phys root [level0Index va]).isSome := by
  rcases h with h | h
  · obtain ⟨t, ht⟩ := htab.heap
    rw [h, ht]
    rfl
  · obtain ⟨t, ht⟩ := htab.io
    rw [h, ht]
    rfl

end Addresses

/-- What `map_page` writes for a heap page. -/
theorem regionDescriptor_heap (hva : level0Index va = level0HeapIndex) (hpa : pageSize ∣ pa) :
    regionDescriptor va pa = .ok (pageAttributes .normalWriteBackNonTransientReadWriteAlloc
      (BitVec.ofNat 64 pa ||| 0b11#64)) := by
  rw [regionDescriptor, hva, if_neg (by decide), if_pos rfl, PageDescriptor.new,
    if_pos (Nat.mod_eq_zero_of_dvd hpa)]
  rfl

/-- What `map_page` writes for a page of a peripheral. -/
theorem regionDescriptor_io (hva : level0Index va = level0IoIndex) (hpa : pageSize ∣ pa) :
    regionDescriptor va pa =
      .ok (pageAttributes .deviceNgnRnE (BitVec.ofNat 64 pa ||| 0b11#64)) := by
  rw [regionDescriptor, hva, if_neg (by decide), if_neg (by decide), if_pos rfl,
    PageDescriptor.new, if_pos (Nat.mod_eq_zero_of_dvd hpa)]
  rfl

/-- The addresses of a mapped page translate to its frame. -/
theorem walk_of_resolve {attr : MemoryRegionAttrIndex} (hpa : pageSize ∣ pa) (hlt : pa < 2 ^ 48)
    {va' : Nat} (h : resolve nextTable (entries phys) root (path va') =
      some (pageAttributes attr (BitVec.ofNat 64 pa ||| 0b11#64), [])) :
    ∃ desc, walk phys root va' = some ⟨pa + va' % pageSize, desc⟩ ∧ IsPage desc attr := by
  have hpage := isPage_pageAttributes attr pa
  refine ⟨_, ?_, hpage⟩
  rw [walk, h, Option.bind_some, output, if_pos hpage.page, pageAttributes_addr attr hpa hlt]
  rfl

/-- The linear map translates an address to its offset. -/
theorem Tables.walk_linear (htab : Tables phys root out) {x : Nat} (hx : x < slotSize) :
    ∃ desc, walk phys root (linearMapOffset + x) = some ⟨x, desc⟩ := by
  obtain ⟨l, hl, hblocks⟩ := htab.linear
  obtain ⟨h0, h1, _⟩ := path_linear hx
  have hstop : nextTable (entries phys l (level1Index (linearMapOffset + x))) = none := by
    rw [hblocks, nextTable_identityBlock]
  have hres : resolve nextTable (entries phys) root ([level0LinearIndex] ++
      level1Index (linearMapOffset + x) ::
        [level2Index (linearMapOffset + x), level3Index (linearMapOffset + x)]) = _ :=
    resolve_of_descend hl (.inr hstop)
  have hpath : path (linearMapOffset + x) = [level0LinearIndex] ++
      level1Index (linearMapOffset + x) ::
        [level2Index (linearMapOffset + x), level3Index (linearMapOffset + x)] := by
    rw [path, h0]
    rfl
  have hindex : x / 2 ^ 30 < 2 ^ 18 := by
    simp only [slotSize] at hx
    omega
  have haddr : x / 2 ^ 30 * 2 ^ level1Shift + (linearMapOffset + x) % 2 ^ 30 = x := by
    simp only [level1Shift, level2Shift, level3Shift, pageShift, linearMapOffset]
    omega
  refine ⟨identityBlock .normalWriteBackNonTransientReadWriteAlloc (x / 2 ^ 30), ?_⟩
  rw [walk, hpath, hres, hblocks, h1, Option.bind_some, output, if_pos (identityBlock_type _ _),
    identityBlock_addr _ hindex, haddr]

/-- A peripheral's address translates to its offset, with device attributes. -/
def IoMapped (phys : Words) (root x : Nat) : Prop :=
  ∃ desc, walk phys root (ioPeripheralsMapOffset + x) = some ⟨x, desc⟩ ∧ IsPage desc .deviceNgnRnE

theorem IoMapped.of_walk_eq {x : Nat} (h : IoMapped phys root x)
    (hwalk : walk phys' root (ioPeripheralsMapOffset + x) =
      walk phys root (ioPeripheralsMapOffset + x)) : IoMapped phys' root x := by
  obtain ⟨desc, hw, hattr⟩ := h
  exact ⟨desc, hwalk.trans hw, hattr⟩

/-- The addresses of the pages that `map_io_region` maps. -/
def ioPages (pa size : Nat) : Set Nat :=
  {va | ioPeripheralsMapOffset + pa / pageSize * pageSize ≤ va ∧
    va < ioPeripheralsMapOffset + (pa + size + (pageSize - 1)) / pageSize * pageSize}

@[simp] theorem mem_ioPages {pa size va : Nat} : va ∈ ioPages pa size ↔
    ioPeripheralsMapOffset + pa / pageSize * pageSize ≤ va ∧
      va < ioPeripheralsMapOffset + (pa + size + (pageSize - 1)) / pageSize * pageSize := Iff.rfl

section MapPages

variable (hc : Contract fr Owns free)

include hc

/-- The loop of `map_io_region` maps its pages and changes no other translation. It
panics only when no frame is free for a table. -/
theorem mapPages_spec {pages : Nat} (hown : Owns phys out) (htab : Tables phys root out)
    (hpa : pageSize ∣ pa) (hend : pa + pages * pageSize ≤ slotSize) :
    (∃ phys', mapPages fr (root + linearMapOffset) pages (ioPeripheralsMapOffset + pa) pa phys =
        .error .nullPointer phys' ∧ free phys' = 0) ∨
    ∃ phys' out', mapPages fr (root + linearMapOffset) pages (ioPeripheralsMapOffset + pa) pa phys =
        .ok () phys' ∧ Owns phys' out' ∧ Tables phys' root out' ∧
      (∀ x, pa ≤ x → x < pa + pages * pageSize → IoMapped phys' root x) ∧
      ∀ va, IsKernel va → (va < ioPeripheralsMapOffset + pa ∨
        ioPeripheralsMapOffset + (pa + pages * pageSize) ≤ va) →
        walk phys' root va = walk phys root va := by
  induction pages generalizing pa phys out with
  | zero =>
      right
      refine ⟨phys, out, rfl, hown, htab, fun x hle hlt => ?_, fun _ _ _ => rfl⟩
      omega
  | succ pages ih =>
      have hsucc : (pages + 1) * pageSize = pages * pageSize + pageSize := by
        rw [Nat.add_mul, Nat.one_mul]
      have hpos : 0 < pageSize := by decide
      rw [hsucc] at hend ⊢
      obtain ⟨hslot, hkernel⟩ := level0Index_io (x := pa) (by omega)
      have hregion := regionDescriptor_io hslot hpa
      have hpaged : Paged (ioPeripheralsMapOffset + pa) := .inr hslot
      have hlt48 : pa < 2 ^ 48 := by
        simp only [slotSize] at hend
        omega
      rcases mapPage_spec hc hown htab hkernel.lower hpaged.ne_linear
        (htab.isSome_of_paged hpaged) hregion with
        ⟨phys₁, _, _, hres, _, _, hfree⟩ | ⟨phys₁, out₁, hres, hmapped⟩
      · left
        exact ⟨phys₁, by rw [mapPages, bind_error hres], hfree⟩
      -- the page that was just mapped
      have hpage : ∀ x, pa ≤ x → x < pa + pageSize → IoMapped phys₁ root x := by
        intro x hle hlt
        obtain ⟨_, hkernelx⟩ := level0Index_io (x := x) (by omega)
        have hpath : path (ioPeripheralsMapOffset + x) = path (ioPeripheralsMapOffset + pa) := by
          rw [path_eq_iff hkernel hkernelx]
          obtain ⟨k, rfl⟩ := hpa
          simp only [pageSize, ioPeripheralsMapOffset] at *
          omega
        obtain ⟨desc, hwalk, hattr⟩ :=
          walk_of_resolve hpa hlt48 (hpath ▸ hmapped.resolve_page)
        have haddr : pa + (ioPeripheralsMapOffset + x) % pageSize = x := by
          obtain ⟨k, rfl⟩ := hpa
          simp only [pageSize, ioPeripheralsMapOffset] at *
          omega
        exact ⟨desc, by rw [hwalk, haddr], hattr⟩
      have hnext : pageSize ∣ pa + pageSize := Nat.dvd_add hpa (Nat.dvd_refl _)
      have hrun : mapPages fr (root + linearMapOffset) (pages + 1) (ioPeripheralsMapOffset + pa) pa
          phys = mapPages fr (root + linearMapOffset) pages
            (ioPeripheralsMapOffset + (pa + pageSize)) (pa + pageSize) phys₁ := by
        rw [mapPages, bind_ok hres, Nat.add_assoc]
      rcases ih hmapped.owns hmapped.tables hnext (by omega) with ⟨phys₂, hres₂, hfree⟩ |
        ⟨phys₂, out₂, hres₂, hown₂, htab₂, hio, hwalk⟩
      · left
        exact ⟨phys₂, by rw [hrun, hres₂], hfree⟩
      · right
        refine ⟨phys₂, out₂, by rw [hrun, hres₂], hown₂, htab₂, fun x hle hlt => ?_,
          fun va hva hout => ?_⟩
        · rcases Nat.lt_or_ge x (pa + pageSize) with hx | hx
          · obtain ⟨_, hkernelx⟩ := level0Index_io (x := x) (by omega)
            exact (hpage x hle hx).of_walk_eq (hwalk _ hkernelx (.inl (by omega)))
          · exact hio x hx (by omega)
        · rw [hwalk va hva (by omega)]
          refine hmapped.walk_other va ?_
          rw [ne_eq, path_eq_iff hkernel hva]
          obtain ⟨k, rfl⟩ := hpa
          simp only [pageSize, ioPeripheralsMapOffset] at *
          omega

/-- `map_io_region` maps the pages of `[pa, pa + size)` and returns the address
of `pa` in the peripherals' region. -/
theorem mapIoRegion_spec {size : Nat} (hown : Owns phys out) (htab : Tables phys root out)
    (hend : pa + size ≤ slotSize) :
    (∃ phys', mapIoRegion fr (root + linearMapOffset) pa size phys = .error .nullPointer phys' ∧
      free phys' = 0) ∨
    ∃ phys' out', mapIoRegion fr (root + linearMapOffset) pa size phys =
        .ok (ioPeripheralsMapOffset + pa) phys' ∧ Owns phys' out' ∧ Tables phys' root out' ∧
      (∀ x, pa ≤ x → x < pa + size → IoMapped phys' root x) ∧
      (∀ x, x < slotSize → IoMapped phys root x → IoMapped phys' root x) ∧
      ∀ va, IsKernel va → va ∉ ioPages pa size → walk phys' root va = walk phys root va := by
  have hlayout : ¬ 2 ^ 64 ≤ ioPeripheralsMapOffset + pa + size ∧
      ¬ ioPeripheralsMapOffset + ioPeripheralsMapSize < ioPeripheralsMapOffset + pa + size := by
    simp only [slotSize, ioPeripheralsMapOffset, ioPeripheralsMapSize] at hend ⊢
    omega
  obtain ⟨hbase, hpages⟩ : pa / pageSize * pageSize ≤ pa ∧ pa / pageSize * pageSize +
      (size + (pa - pa / pageSize * pageSize) + (pageSize - 1)) / pageSize * pageSize =
        (pa + size + (pageSize - 1)) / pageSize * pageSize := by
    simp only [pageSize]
    omega
  have hfit : (pa + size + (pageSize - 1)) / pageSize * pageSize ≤ slotSize := by
    simp only [slotSize, pageSize] at hend ⊢
    omega
  have hcover : pa + size ≤ (pa + size + (pageSize - 1)) / pageSize * pageSize := by
    simp only [pageSize]
    omega
  rcases mapPages_spec hc hown htab (Nat.dvd_mul_left pageSize (pa / pageSize))
    (hpages.trans_le hfit) with ⟨phys', hres, hfree⟩ | ⟨phys', out', hres, hown', htab', hio, hwalk⟩
  · left
    refine ⟨phys', ?_, hfree⟩
    rw [mapIoRegion, if_neg hlayout.1, if_neg hlayout.2, bind_error hres]
  · right
    rw [hpages] at hio hwalk
    have hother : ∀ va, IsKernel va → va ∉ ioPages pa size →
        walk phys' root va = walk phys root va := by
      intro va hva hnot
      refine hwalk va hva ?_
      rw [mem_ioPages] at hnot
      omega
    refine ⟨phys', out', ?_, hown', htab', fun x hle hlt => hio x (by omega) (by omega),
      fun x hx hmapped => ?_, hother⟩
    · rw [mapIoRegion, if_neg hlayout.1, if_neg hlayout.2, bind_ok hres]
      rfl
    · by_cases hin : ioPeripheralsMapOffset + x ∈ ioPages pa size
      · rw [mem_ioPages] at hin
        exact hio x (by omega) (by omega)
      · exact hmapped.of_walk_eq (hother _ (level0Index_io hx).2 hin)

end MapPages

/-- A result of `map_io_region`. -/
structure IoRegion where
  va : Nat
  pa : Nat
  size : Nat

/-- The memory, with the regions mapped so far and the frame last mapped at each
heap page. -/
structure State where
  phys : Words
  regions : List IoRegion
  heapPages : Nat → Option Nat

/-- The calls that change the kernel tables after boot. -/
inductive Event where
  | mapIoRegion (pa size : Nat)
  | mapPage (va pa : Nat)

variable (fr) (kernelTable : Nat)

/-- One call. A panic ends the run. -/
def step (s : State) : Event → Option State
  | .mapIoRegion pa size =>
      match mapIoRegion fr kernelTable pa size s.phys with
      | .ok va phys => some { s with phys := phys, regions := ⟨va, pa, size⟩ :: s.regions }
      | .error _ _ => none
  | .mapPage va pa =>
      match mapPage fr kernelTable va pa s.phys with
      | .ok _ phys =>
          some { s with
            phys := phys
            heapPages := fun v => if v = va then some pa else s.heapPages v }
      | .error _ _ => none

/-- A call panics on the null pointer that stands for a missing frame. -/
def RunsOut (free : Words → Nat) (s : State) : Event → Prop
  | .mapIoRegion pa size => ∃ phys, mapIoRegion fr kernelTable pa size s.phys =
      .error .nullPointer phys ∧ free phys = 0
  | .mapPage va pa => ∃ phys, mapPage fr kernelTable va pa s.phys =
      .error .nullPointer phys ∧ free phys = 0

/-- Regions lie in the first 512 GiB, and heap pages in the heap's level 0 slot. -/
def Allowed (_ : State) : Event → Prop
  | .mapIoRegion pa size => pa + size ≤ slotSize
  | .mapPage va pa => heapMapOffset ≤ va ∧ va < heapMapOffset + slotSize ∧ pageSize ∣ va ∧
      pageSize ∣ pa

/-- The addresses whose translation a call may change. -/
def touched : Event → Set Nat
  | .mapIoRegion pa size => ioPages pa size
  | .mapPage va _ => {a | va ≤ a ∧ a < va + pageSize}

instance (s : State) (e : Event) : Decidable (Allowed s e) :=
  match e with
  | .mapIoRegion pa size => inferInstanceAs (Decidable (pa + size ≤ slotSize))
  | .mapPage va pa => inferInstanceAs (Decidable (heapMapOffset ≤ va ∧
      va < heapMapOffset + slotSize ∧ pageSize ∣ va ∧ pageSize ∣ pa))

/-- A heap page translates to its frame, if that is a physical address. -/
def HeapMapped (phys : Words) (root va pa : Nat) : Prop :=
  pa < 2 ^ 48 → ∀ i < pageSize, ∃ desc, walk phys root (va + i) = some ⟨pa + i, desc⟩ ∧
    IsPage desc .normalWriteBackNonTransientReadWriteAlloc

theorem HeapMapped.of_walk_eq {va pa : Nat} (h : HeapMapped phys root va pa)
    (hwalk : ∀ i < pageSize, walk phys' root (va + i) = walk phys root (va + i)) :
    HeapMapped phys' root va pa := by
  intro hlt i hi
  obtain ⟨desc, hw, hattr⟩ := h hlt i hi
  exact ⟨desc, (hwalk i hi).trans hw, hattr⟩

/-- The addresses of a page of the heap. -/
theorem isKernel_heapPage {va i : Nat} (hge : heapMapOffset ≤ va)
    (hlt : va < heapMapOffset + slotSize) (hdvd : pageSize ∣ va) (hi : i < pageSize) :
    IsKernel (va + i) := by
  constructor <;> simp only [slotSize, heapMapOffset, pageSize] at * <;> omega

/-- What holds between two calls. -/
structure Invariant (Owns : Words → Set Nat → Prop) (root : Nat) (s : State) : Prop where
  tables : ∃ out, Owns s.phys out ∧ Tables s.phys root out
  regions : ∀ r ∈ s.regions, r.va = ioPeripheralsMapOffset + r.pa ∧ r.pa + r.size ≤ slotSize ∧
    ∀ x, r.pa ≤ x → x < r.pa + r.size → IoMapped s.phys root x
  heapPages : ∀ va pa, s.heapPages va = some pa → Allowed s (.mapPage va pa) ∧
    HeapMapped s.phys root va pa

/-- Every mapping translates, and a call changes the translation of the pages it
maps only. The last clause says that a call has no other way to fail than a
missing frame. -/
structure Translates (fr : PageFrameAllocator) (free : Words → Nat) (kernelTable : Nat)
    (s : State) : Prop where
  regions : ∀ r ∈ s.regions, r.va = ioPeripheralsMapOffset + r.pa ∧ ∀ i < r.size, ∃ desc,
    walk s.phys (virtToPhys kernelTable) (r.va + i) = some ⟨r.pa + i, desc⟩ ∧
      IsPage desc .deviceNgnRnE
  heapPages : ∀ va pa, s.heapPages va = some pa → HeapMapped s.phys (virtToPhys kernelTable) va pa
  linear : ∀ x < slotSize, ∃ desc,
    walk s.phys (virtToPhys kernelTable) (linearMapOffset + x) = some ⟨x, desc⟩
  others : ∀ e t, Allowed s e → step fr kernelTable s e = some t → ∀ va, IsKernel va →
    va ∉ touched e →
      walk t.phys (virtToPhys kernelTable) va = walk s.phys (virtToPhys kernelTable) va
  total : ∀ e, Allowed s e → step fr kernelTable s e = none → RunsOut fr kernelTable free s e

section Steps

variable {fr} {s t : State} (hc : Contract fr Owns free) (hinv : Invariant Owns root s)

include hc hinv

/-- What a call does: it fails for want of a frame, or it keeps the invariant
and the translation of the other pages. -/
theorem Invariant.step {e : Event} (hallowed : Allowed s e) :
    (Mmu.step fr (root + linearMapOffset) s e = none ∧
      RunsOut fr (root + linearMapOffset) free s e) ∨
    ∃ t, Mmu.step fr (root + linearMapOffset) s e = some t ∧ Invariant Owns root t ∧
      ∀ va, IsKernel va → va ∉ touched e → walk t.phys root va = walk s.phys root va := by
  obtain ⟨out, hown, htab⟩ := hinv.tables
  cases e with
  | mapIoRegion pa size =>
      rcases mapIoRegion_spec hc hown htab hallowed with ⟨phys', hres, hfree⟩ |
        ⟨phys', out', hres, hown', htab', hnew, hkept, hwalk⟩
      · exact .inl ⟨by simp only [Mmu.step, hres], phys', hres, hfree⟩
      · right
        have hstep : Mmu.step fr (root + linearMapOffset) s (.mapIoRegion pa size) =
            some { s with
              phys := phys'
              regions := ⟨ioPeripheralsMapOffset + pa, pa, size⟩ :: s.regions } := by
          simp only [Mmu.step, hres]
        refine ⟨_, hstep, ⟨⟨out', hown', htab'⟩, ?_, ?_⟩, hwalk⟩
        · intro r hr
          rcases List.mem_cons.mp hr with rfl | hr
          · exact ⟨rfl, hallowed, hnew⟩
          · obtain ⟨hva, hend, hmapped⟩ := hinv.regions r hr
            exact ⟨hva, hend, fun x hle hlt => hkept x (by omega) (hmapped x hle hlt)⟩
        · intro va pa' hva
          obtain ⟨hpage, hmapped⟩ := hinv.heapPages va pa' hva
          refine ⟨hpage, hmapped.of_walk_eq fun i hi => ?_⟩
          obtain ⟨hge, hend, hdvd, _⟩ := hpage
          apply hwalk _ (isKernel_heapPage hge hend hdvd hi)
          rw [mem_ioPages]
          simp only [slotSize, heapMapOffset, ioPeripheralsMapOffset, pageSize] at hend hi ⊢
          omega
  | mapPage va pa =>
      have hpage := hallowed
      obtain ⟨hge, hend, hdvd, hpa⟩ := hallowed
      obtain ⟨x, rfl⟩ := Nat.exists_eq_add_of_le hge
      obtain ⟨hslot, hkernel⟩ := level0Index_heap (x := x) (by omega)
      have hpaged : Paged (heapMapOffset + x) := .inl hslot
      rcases mapPage_spec hc hown htab hkernel.lower hpaged.ne_linear (htab.isSome_of_paged hpaged)
        (regionDescriptor_heap hslot hpa) with ⟨phys', _, _, hres, _, _, hfree⟩ |
        ⟨phys', out', hres, hmapped⟩
      · exact .inl ⟨by simp only [Mmu.step, hres], phys', hres, hfree⟩
      · right
        have hwalk : ∀ va, IsKernel va → va ∉ touched (.mapPage (heapMapOffset + x) pa) →
            walk phys' root va = walk s.phys root va := by
          intro va hva hnot
          refine hmapped.walk_other va ?_
          rw [ne_eq, path_eq_iff hkernel hva]
          intro hsame
          refine hnot ?_
          change _ ≤ va ∧ va < _
          simp only [pageSize] at *
          omega
        have hstep : Mmu.step fr (root + linearMapOffset) s (.mapPage (heapMapOffset + x) pa) =
            some { s with
              phys := phys'
              heapPages := fun v => if v = heapMapOffset + x then some pa else s.heapPages v } := by
          simp only [Mmu.step, hres]
        refine ⟨_, hstep, ⟨⟨out', hmapped.owns, hmapped.tables⟩, ?_, ?_⟩, hwalk⟩
        · intro r hr
          obtain ⟨hva, hrend, hio⟩ := hinv.regions r hr
          refine ⟨hva, hrend, fun y hle hlt => (hio y hle hlt).of_walk_eq ?_⟩
          apply hwalk _ (level0Index_io (by omega)).2
          change ¬ (_ ≤ _ ∧ _ < _)
          simp only [slotSize, heapMapOffset, ioPeripheralsMapOffset, pageSize] at *
          omega
        · intro va' pa' hva'
          simp only at hva'
          split_ifs at hva' with heq
          · subst heq
            cases hva'
            refine ⟨hpage, fun hlt i hi => ?_⟩
            have hkerneli := isKernel_heapPage hge hend hdvd hi
            have hpath : path (heapMapOffset + x + i) = path (heapMapOffset + x) := by
              rw [path_eq_iff hkernel hkerneli]
              simp only [pageSize] at *
              omega
            obtain ⟨desc, hw, hattr⟩ := walk_of_resolve hpa hlt (hpath ▸ hmapped.resolve_page)
            have hoff : (heapMapOffset + x + i) % pageSize = i := by
              simp only [pageSize] at *
              omega
            rw [hoff] at hw
            exact ⟨desc, hw, hattr⟩
          · obtain ⟨hpage', hold⟩ := hinv.heapPages va' pa' hva'
            refine ⟨hpage', hold.of_walk_eq fun i hi => ?_⟩
            obtain ⟨hge', hend', hdvd', _⟩ := hpage'
            apply hwalk _ (isKernel_heapPage hge' hend' hdvd' hi)
            change ¬ (_ ≤ _ ∧ _ < _)
            simp only [pageSize] at *
            omega

/-- Between two calls every mapping translates. -/
theorem Invariant.translates : Translates fr free (root + linearMapOffset) s := by
  obtain ⟨out, _, htab⟩ := hinv.tables
  refine ⟨?_, ?_, ?_, ?_, ?_⟩
  · intro r hr
    rw [virtToPhys_linear]
    obtain ⟨hva, _, hmapped⟩ := hinv.regions r hr
    refine ⟨hva, fun i hi => ?_⟩
    rw [hva, Nat.add_assoc]
    exact hmapped (r.pa + i) (by omega) (by omega)
  · intro va pa hva
    rw [virtToPhys_linear]
    exact (hinv.heapPages va pa hva).2
  · intro x hx
    rw [virtToPhys_linear]
    exact htab.walk_linear hx
  · intro e t hallowed hstep va hva hnot
    rw [virtToPhys_linear]
    rcases hinv.step hc hallowed with ⟨hnone, _⟩ | ⟨t', hstep', _, hwalk⟩
    · rw [hnone] at hstep
      cases hstep
    · rw [hstep'] at hstep
      cases hstep
      exact hwalk va hva hnot
  · intro e hallowed hnone
    rcases hinv.step hc hallowed with ⟨_, hout⟩ | ⟨t', hstep', _⟩
    · exact hout
    · rw [hstep'] at hnone
      cases hnone

end Steps

/-- After any calls that follow `setup_page_tables`, every mapping translates. -/
theorem reachable_translates {fr : PageFrameAllocator} (hc : Contract fr Owns free)
    {user kernel : Nat} (hown : Owns phys ∅)
    (hsetup : setupPageTables fr phys = .ok (user, kernel) phys') {s : State}
    (hs : Reachable (· = ⟨phys', [], fun _ => none⟩) (Step (step fr kernel) Allowed) s) :
    Translates fr free kernel s := by
  obtain ⟨root, _, _, _, out, rfl, _, htab, hown', _, _⟩ := setupPageTables_ok hc hown hsetup
  refine Invariant.translates hc (hs.invariant (P := Invariant Owns root) ?_ ?_)
  · rintro s rfl
    exact ⟨⟨out, hown', htab⟩, fun r hr => (List.not_mem_nil hr).elim, fun va pa h => by cases h⟩
  · rintro s t _ hinv ⟨e, hallowed, hstep⟩
    rcases hinv.step hc hallowed with ⟨hnone, _⟩ | ⟨t', hstep', hinv', _⟩
    · rw [hnone] at hstep
      cases hstep
    · rw [hstep'] at hstep
      cases hstep
      exact hinv'

/-- 64 frames from 1 MiB on. -/
def smallRegion : Mm.FrameAllocator.BitMapFrameAllocator :=
  .layout 0x100000 0x40000 pageSize

theorem smallRegion_pages : Pages smallRegion :=
  ⟨Mm.FrameAllocator.BitMapFrameAllocator.layout_wellFormed _ (by decide +kernel), rfl, by decide⟩

theorem smallRegion_contract : Contract (bitmapFrames smallRegion)
    (Mm.FrameSet.Represents smallRegion) (freeFrames smallRegion) :=
  bitmap_contract smallRegion_pages (by decide)

/-- Two overlapping regions and a heap page on the bitmap allocator. -/
theorem reachable_translates_overlap :
    ∃ kernel s, s.regions.length = 2 ∧ s.heapPages heapMapOffset = some 0x200000 ∧
      Translates (bitmapFrames smallRegion) (freeFrames smallRegion) kernel s := by
  have hrun : (match setupPageTables (bitmapFrames smallRegion)
      (smallRegion.initBitmap fun _ => 0) with
    | .ok (_, kernel) phys => (run (step (bitmapFrames smallRegion) kernel) Allowed
        ⟨phys, [], fun _ => none⟩ [.mapIoRegion 0x3f201000 0x200,
          .mapPage heapMapOffset 0x200000, .mapIoRegion 0x3f200ffc 0x10]).map
        fun s : State => (s.regions.length, s.heapPages heapMapOffset)
    | .error _ _ => none) = some (2, some 0x200000) := by
    decide +kernel
  split at hrun
  · rename_i user kernel phys hsetup
    obtain ⟨s, hs, heq⟩ := Option.map_eq_some_iff.mp hrun
    rw [Prod.mk.injEq] at heq
    exact ⟨kernel, s, heq.1, heq.2, reachable_translates smallRegion_contract
      (Mm.FrameSet.represents_initBitmap smallRegion_pages.wellFormed _) hsetup
      ⟨_, rfl, reflTransGen_of_run _ hs⟩⟩
  · cases hrun

/-- A region of four bytes at `0x1800` also maps the start of its page, which is
an address outside the region. -/
theorem mapIoRegion_changes_page_start :
    ∃ kernel s t,
      (∃ phys, setupPageTables (bitmapFrames smallRegion) (smallRegion.initBitmap fun _ => 0) =
        .ok kernel phys ∧ s = ⟨phys, [], fun _ => none⟩) ∧
      Allowed s (.mapIoRegion 0x1800 4) ∧
      step (bitmapFrames smallRegion) kernel.2 s (.mapIoRegion 0x1800 4) = some t ∧
      t.regions.map IoRegion.va = [ioPeripheralsMapOffset + 0x1800] ∧
      (walk s.phys (virtToPhys kernel.2) (ioPeripheralsMapOffset + 0x1000)).isNone ∧
      (walk t.phys (virtToPhys kernel.2) (ioPeripheralsMapOffset + 0x1000)).isSome := by
  have hrun : (match setupPageTables (bitmapFrames smallRegion)
      (smallRegion.initBitmap fun _ => 0) with
    | .ok kernel phys =>
        (step (bitmapFrames smallRegion) kernel.2 ⟨phys, [], fun _ => none⟩
          (.mapIoRegion 0x1800 4)).map fun t : State =>
            (t.regions.map IoRegion.va,
              (walk phys (virtToPhys kernel.2) (ioPeripheralsMapOffset + 0x1000)).isNone,
              (walk t.phys (virtToPhys kernel.2) (ioPeripheralsMapOffset + 0x1000)).isSome)
    | .error _ _ => none) = some ([ioPeripheralsMapOffset + 0x1800], true, true) := by
    decide +kernel
  split at hrun
  · rename_i kernel phys hsetup
    obtain ⟨t, ht, heq⟩ := Option.map_eq_some_iff.mp hrun
    simp only [Prod.mk.injEq] at heq
    exact ⟨kernel, _, t, ⟨phys, hsetup, rfl⟩, of_decide_eq_true rfl, ht, heq.1, heq.2.1, heq.2.2⟩
  · cases hrun

end Kruspix.Arch.Mmu
