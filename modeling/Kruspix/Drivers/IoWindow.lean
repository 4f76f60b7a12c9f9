import Kruspix.Drivers.MessageAddress

/-!
# The window of the peripherals

The window has the size of 32 slots of the level 0 table, but `map_page` knows the first of
them only. A region that `map_io_region` admits and that leaves this slot panics at the first
page behind it, when the pages before are mapped. A region whose end is no address panics
in the sum of the assertion.
-/

namespace Kruspix.Drivers.IoWindow

open Lib.Result Lib.Transition Lib.WordMemory Mm.Layout Mm.PageFrames
open Mm.HeapAllocator Arch.Mmu MessageAddress

variable {fr : PageFrameAllocator} {Owns : Words → Set Nat → Prop} {free : Words → Nat}
  {phys phys' : Words} {root pa size pages kernelTable : Nat} {out : Set Nat}

/-- What the assertion of `map_io_region` admits. -/
def Admitted (pa size : Nat) : Prop :=
  ioPeripheralsMapOffset + pa + size ≤ ioPeripheralsMapOffset + ioPeripheralsMapSize

/-- The region lies in the first slot, or it has no page. -/
def InSlot (pa size : Nat) : Prop := pa + size ≤ slotSize ∨ (size = 0 ∧ pageSize ∣ pa)

/-- The end of the region is an address of the kernel, as the assertion computes it. -/
def EndFits (pa size : Nat) : Prop := ioPeripheralsMapOffset + pa + size < 2 ^ 64

theorem Admitted.endFits (h : Admitted pa size) : EndFits pa size := by
  rw [Admitted] at h
  rw [EndFits]
  simp only [ioPeripheralsMapOffset, ioPeripheralsMapSize] at h ⊢
  omega

/-- The pages that overlap the region are mapped, or the assertion fails and nothing is
changed. -/
structure Serves (fr : PageFrameAllocator) (kernelTable : Nat) (phys : Words) (pa size : Nat) :
    Prop where
  maps : Admitted pa size → ∃ phys',
    mapIoRegion fr kernelTable pa size phys = .ok (ioPeripheralsMapOffset + pa) phys' ∧
      ∀ x, (∃ y, pa ≤ y ∧ y < pa + size ∧ y / pageSize = x / pageSize) →
        IoMapped phys' (virtToPhys kernelTable) x
  refuses : ¬ Admitted pa size → mapIoRegion fr kernelTable pa size phys = .error .assertion phys

/-- A frame for a page table is missing. -/
def OutOfFrames (fr : PageFrameAllocator) (kernelTable : Nat) (phys : Words) (pa size : Nat) :
    Prop :=
  ∃ phys', mapIoRegion fr kernelTable pa size phys = .error .nullPointer phys'

section Pages

/-- Behind the first slot there is no slot that `map_page` knows. -/
theorem regionDescriptor_beyond (hlow : slotSize ≤ pa) (hhigh : pa < ioPeripheralsMapSize) :
    regionDescriptor (ioPeripheralsMapOffset + pa) pa = .error .unsupportedRegion := by
  have hindex : (level0Index (ioPeripheralsMapOffset + pa)).val = 416 + pa / slotSize := by
    simp only [slotSize, ioPeripheralsMapSize] at hlow hhigh ⊢
    simp only [level0Index, levelIndex_val, level0Shift, level1Shift, level2Shift, level3Shift,
      pageShift, ioPeripheralsMapOffset]
    omega
  have hpos : 0 < pa / slotSize := Nat.div_pos hlow (by decide)
  have hne {i : Fin 512} (hi : i.val ≤ 416) :
      level0Index (ioPeripheralsMapOffset + pa) ≠ i := by
    rintro rfl
    omega
  rw [regionDescriptor, if_neg (hne (by decide)), if_neg (hne (by decide)),
    if_neg (hne (by decide))]

theorem mapPage_beyond (hlow : slotSize ≤ pa) (hhigh : pa < ioPeripheralsMapSize) :
    mapPage fr kernelTable (ioPeripheralsMapOffset + pa) pa phys =
      .error .unsupportedRegion phys := by
  rw [mapPage, if_neg (by simp only [ioPeripheralsMapOffset]; omega),
    regionDescriptor_beyond hlow hhigh]
  exact bind_error ofExcept_error

variable (hc : Contract fr Owns free) (hown : Owns phys out) (htab : Tables phys root out)
  (hpa : pageSize ∣ pa) (hend : pa + pages * pageSize ≤ ioPeripheralsMapSize)

include hc hown htab hpa

/-- A page of the first slot, or a page table without a frame. -/
theorem mapPage_slot (hlt : pa < slotSize) :
    (∃ phys', mapPage fr (root + linearMapOffset) (ioPeripheralsMapOffset + pa) pa phys =
        .error .nullPointer phys' ∧ free phys < 2) ∨
    ∃ phys' out', mapPage fr (root + linearMapOffset) (ioPeripheralsMapOffset + pa) pa phys =
        .ok () phys' ∧ Owns phys' out' ∧ Tables phys' root out' ∧ free phys ≤ free phys' + 2 := by
  obtain ⟨hslot, hkernel⟩ := level0Index_io hlt
  have hpaged : Paged (ioPeripheralsMapOffset + pa) := .inr hslot
  have hmissing : missingTables phys root (ioPeripheralsMapOffset + pa) ≤ 2 := by
    rw [missingTables]
    split <;> split <;> omega
  rcases mapPage_spec hc hown htab hkernel.lower hpaged.ne_linear (htab.isSome_of_paged hpaged)
    (regionDescriptor_io hslot hpa) with ⟨phys', -, -, hres, -, hfree, -⟩ | ⟨phys', out', hres, h⟩
  · exact .inl ⟨phys', hres, by omega⟩
  · have hcost := h.cost
    exact .inr ⟨phys', out', hres, h.owns, h.tables, by omega⟩

include hend

/-- Two frames for each page are enough. -/
theorem free_lt_of_mapPages (h : mapPages fr (root + linearMapOffset) pages
    (ioPeripheralsMapOffset + pa) pa phys = .error .nullPointer phys') :
    free phys < 2 * pages := by
  induction pages generalizing pa phys out with
  | zero => cases h
  | succ pages ih =>
      rw [Nat.succ_mul] at hend
      by_cases hlt : pa < slotSize
      · rcases mapPage_slot hc hown htab hpa hlt with
          ⟨phys₁, hres, hfree⟩ | ⟨phys₁, out₁, hres, hown₁, htab₁, hfree⟩
        · omega
        · rw [mapPages, bind_ok hres, Nat.add_assoc] at h
          have hrest := ih hown₁ htab₁ (Nat.dvd_add hpa (Nat.dvd_refl _)) (by omega) h
          omega
      · have hres := @mapPage_beyond fr phys pa (root + linearMapOffset) (Nat.le_of_not_lt hlt)
          (by simp only [pageSize] at hend; omega)
        rw [mapPages, bind_error hres] at h
        cases h

/-- Pages that leave the first slot are not all mapped. -/
theorem mapPages_beyond (hpos : 0 < pages) (hout : slotSize < pa + pages * pageSize) :
    ∃ fault phys', mapPages fr (root + linearMapOffset) pages (ioPeripheralsMapOffset + pa) pa
      phys = .error fault phys' := by
  induction pages generalizing pa phys out with
  | zero => cases hpos
  | succ pages ih =>
      rw [Nat.succ_mul] at hend hout
      by_cases hlt : pa < slotSize
      · -- the next page begins in the slot or right behind it
        have hnext : pa + pageSize ≤ slotSize := by
          obtain ⟨k, rfl⟩ := hpa
          simp only [pageSize, slotSize] at hlt ⊢
          omega
        rcases mapPage_slot hc hown htab hpa hlt with
          ⟨phys₁, hres, -⟩ | ⟨phys₁, out₁, hres, hown₁, htab₁, -⟩
        · exact ⟨_, phys₁, by rw [mapPages, bind_error hres]⟩
        · have hmore : 0 < pages := by
            rcases Nat.eq_zero_or_pos pages with rfl | hmore
            · omega
            · exact hmore
          obtain ⟨fault, phys', hrest⟩ := ih hown₁ htab₁ (Nat.dvd_add hpa (Nat.dvd_refl _))
            (by omega) hmore (by omega)
          exact ⟨fault, phys', by rw [mapPages, bind_ok hres, Nat.add_assoc, hrest]⟩
      · exact ⟨_, phys, by rw [mapPages, bind_error
          (mapPage_beyond (Nat.le_of_not_lt hlt) (by simp only [pageSize] at hend; omega))]⟩

end Pages

/-! ## Regions -/

/-- The pages of a region. -/
def regionPages (pa size : Nat) : Nat :=
  (size + (pa - pa / pageSize * pageSize) + (pageSize - 1)) / pageSize

theorem mapIoRegion_admitted (h : Admitted pa size) :
    mapIoRegion fr kernelTable pa size phys =
      (do
        mapPages fr kernelTable (regionPages pa size)
          (ioPeripheralsMapOffset + pa / pageSize * pageSize) (pa / pageSize * pageSize)
        return ioPeripheralsMapOffset + pa : Mem Nat) phys := by
  rw [mapIoRegion, if_neg (Nat.not_le.mpr h.endFits), if_neg (Nat.not_lt.mpr h)]
  rfl

/-- The assertion refuses a region whose end it can compute, and leaves the memory as it is. -/
theorem mapIoRegion_refused_iff (h : ¬ Admitted pa size) :
    mapIoRegion fr kernelTable pa size phys = .error .assertion phys ↔ EndFits pa size := by
  rw [mapIoRegion, EndFits]
  split
  · rename_i hoverflow
    apply iff_of_false
    · intro hno
      cases hno
    · exact Nat.not_lt.mpr hoverflow
  · rename_i hfits
    rw [if_pos (Nat.lt_of_not_le h)]
    exact iff_of_true rfl (Nat.lt_of_not_le hfits)

theorem regionPages_end :
    pa / pageSize * pageSize + regionPages pa size * pageSize =
      (pa + size + (pageSize - 1)) / pageSize * pageSize := by
  simp only [regionPages, pageSize]
  omega

theorem inSlot_iff : InSlot pa size ↔ regionPages pa size = 0 ∨
    pa / pageSize * pageSize + regionPages pa size * pageSize ≤ slotSize := by
  rw [regionPages_end, InSlot]
  simp only [regionPages, slotSize, pageSize]
  omega

theorem pages_window (h : Admitted pa size) :
    pa / pageSize * pageSize + regionPages pa size * pageSize ≤ ioPeripheralsMapSize := by
  rw [regionPages_end]
  simp only [Admitted, ioPeripheralsMapOffset, ioPeripheralsMapSize] at h
  simp only [ioPeripheralsMapSize, pageSize]
  omega

section Region

variable (hc : Contract fr Owns free) (hown : Owns phys out) (htab : Tables phys root out)

include hc hown htab

/-- Two free frames for each page of a region leave none missing. -/
theorem not_outOfFrames (hfree : 2 * regionPages pa size ≤ free phys) :
    ¬ OutOfFrames fr (root + linearMapOffset) phys pa size := by
  rintro ⟨phys', h⟩
  by_cases hadmitted : Admitted pa size
  · rw [mapIoRegion_admitted hadmitted] at h
    rcases bind_eq_error h with hpages | ⟨_, _, _, hrest⟩
    · have hlt := free_lt_of_mapPages hc hown htab (Nat.dvd_mul_left pageSize (pa / pageSize))
        (pages_window hadmitted) hpages
      omega
    · cases hrest
  · rw [mapIoRegion] at h
    split at h
    · cases h
    · rw [if_pos (Nat.lt_of_not_le hadmitted)] at h
      cases h

/-- The regions of the first slot are mapped. -/
theorem serves_of_inSlot (hframes : ¬ OutOfFrames fr (root + linearMapOffset) phys pa size)
    (hend : EndFits pa size) (hslot : Admitted pa size → InSlot pa size) :
    Serves fr (root + linearMapOffset) phys pa size := by
  refine ⟨fun hadmitted => ?_, fun hrefused => (mapIoRegion_refused_iff hrefused).mpr hend⟩
  rw [virtToPhys_linear]
  rcases inSlot_iff.mp (hslot hadmitted) with hnone | hfit
  · refine ⟨phys, ?_, ?_⟩
    · rw [mapIoRegion_admitted hadmitted, hnone]
      rfl
    · rintro x ⟨y, hle, hlt, -⟩
      simp only [regionPages, pageSize] at hnone
      omega
  · rcases mapPages_spec hc hown htab (Nat.dvd_mul_left pageSize (pa / pageSize)) hfit with
      ⟨phys', hres, -⟩ | ⟨phys', -, hres, -, -, hio, -⟩
    · exact absurd ⟨phys', by rw [mapIoRegion_admitted hadmitted, bind_error hres]⟩ hframes
    · refine ⟨phys', by rw [mapIoRegion_admitted hadmitted, bind_ok hres]; rfl, ?_⟩
      rintro x ⟨y, hle, hlt, hpage⟩
      rw [regionPages_end] at hio
      apply hio <;> simp only [pageSize] at hpage ⊢ <;> omega

theorem inSlot_of_serves (h : Serves fr (root + linearMapOffset) phys pa size)
    (hadmitted : Admitted pa size) : InSlot pa size := by
  obtain ⟨phys', hres, -⟩ := h.maps hadmitted
  rw [mapIoRegion_admitted hadmitted] at hres
  rw [inSlot_iff]
  by_contra hout
  rw [not_or] at hout
  obtain ⟨fault, phys₁, herror⟩ := mapPages_beyond hc hown htab
    (Nat.dvd_mul_left pageSize (pa / pageSize)) (pages_window hadmitted)
    (Nat.pos_of_ne_zero hout.1) (Nat.lt_of_not_le hout.2)
  rw [bind_error herror] at hres
  cases hres

omit hc hown htab in
/-- What is served has an end. -/
theorem endFits_of_serves (h : Serves fr kernelTable phys pa size) : EndFits pa size := by
  by_cases hadmitted : Admitted pa size
  · exact hadmitted.endFits
  · exact (mapIoRegion_refused_iff hadmitted).mp (h.refuses hadmitted)

end Region

/-! ## Runs -/

/-- After any calls, with the frames that the tables need, a region is served exactly if its end
is an address and the assertion refuses it or the first slot holds it. -/
theorem reachable_serves_iff (hc : Contract fr Owns free) {user kernel : Nat} (hown : Owns phys ∅)
    (hsetup : setupPageTables fr phys = .ok (user, kernel) phys') {s : Machine}
    (hs : Reachable (· = ⟨phys', Heap.new, 0⟩)
      (Step (MessageAddress.step fr kernel) fun _ _ => True) s)
    (pa size : Nat) (hframes : ¬ OutOfFrames fr kernel s.phys pa size) :
    Serves fr kernel s.phys pa size ↔
      EndFits pa size ∧ (Admitted pa size → InSlot pa size) := by
  obtain ⟨root, rfl, hinv⟩ := reachable_invariant hc hown hsetup hs
  obtain ⟨out, hown', htab⟩ := hinv.tables
  constructor
  · intro h
    exact ⟨endFits_of_serves h, inSlot_of_serves hc hown' htab h⟩
  · rintro ⟨hend, hslot⟩
    exact serves_of_inSlot hc hown' htab hframes hend hslot

/-- A region of two pages, after a page was mapped for the heap. -/
theorem reachable_serves_two_pages :
    ∃ kernel, ∃ s : Machine, s.heapSize = pageSize ∧
      Serves (bitmapFrames smallRegion) kernel s.phys 0x3f200ffc 0x10 := by
  have hrun : ((okResult (setupPageTables (bitmapFrames smallRegion)
      (smallRegion.initBitmap fun _ => 0))).bind fun r =>
        (run (MessageAddress.step (bitmapFrames smallRegion) r.1.2) (fun _ _ => True)
          ⟨r.2, Heap.new, 0⟩ [.heapGrowth]).map fun s : Machine => (s.heapSize,
            (okResult (mapIoRegion (bitmapFrames smallRegion) r.1.2 0x3f200ffc 0x10
              s.phys)).isSome)) = some (pageSize, true) := by
    decide +kernel
  obtain ⟨⟨⟨user, kernel⟩, phys⟩, hsetup, hmap⟩ := Option.bind_eq_some_iff.mp hrun
  obtain ⟨s, hs, heq⟩ := Option.map_eq_some_iff.mp hmap
  rw [Prod.mk.injEq] at heq
  refine ⟨kernel, s, heq.1, (reachable_serves_iff smallRegion_contract
    (Mm.FrameSet.represents_initBitmap smallRegion_pages.wellFormed _) (okResult_eq_some hsetup)
    ⟨_, rfl, reflTransGen_of_run _ hs⟩ 0x3f200ffc 0x10 ?_).mpr
      ⟨by rw [EndFits]; decide, fun _ => .inl (by decide)⟩⟩
  rintro ⟨phys', herror⟩
  rw [herror] at heq
  cases heq.2

/-- A region of two pages around the end of the first slot: the first page is mapped, and the
second one panics. -/
theorem not_serves_half_mapped :
    ∃ tables phys, setupPageTables (bitmapFrames smallRegion)
        (smallRegion.initBitmap fun _ => 0) = .ok tables phys ∧
      ¬ OutOfFrames (bitmapFrames smallRegion) tables.2 phys (slotSize - pageSize) 0x2000 ∧
      ¬ Serves (bitmapFrames smallRegion) tables.2 phys (slotSize - pageSize) 0x2000 ∧
      ∃ fault phys', mapIoRegion (bitmapFrames smallRegion) tables.2 (slotSize - pageSize) 0x2000
          phys = .error fault phys' ∧
        walk phys (virtToPhys tables.2) (ioPeripheralsMapOffset + (slotSize - pageSize)) = none ∧
        (walk phys' (virtToPhys tables.2)
          (ioPeripheralsMapOffset + (slotSize - pageSize))).isSome := by
  have hrun : ((okResult (setupPageTables (bitmapFrames smallRegion)
      (smallRegion.initBitmap fun _ => 0))).bind fun r =>
        (errorResult (mapIoRegion (bitmapFrames smallRegion) r.1.2 (slotSize - pageSize) 0x2000
          r.2)).map fun r' => (r'.1,
            (walk r.2 (virtToPhys r.1.2)
              (ioPeripheralsMapOffset + (slotSize - pageSize))).isNone,
            (walk r'.2 (virtToPhys r.1.2)
              (ioPeripheralsMapOffset + (slotSize - pageSize))).isSome)) =
      some (.unsupportedRegion, true, true) := by
    decide +kernel
  obtain ⟨⟨tables, phys⟩, hsetup, hmap⟩ := Option.bind_eq_some_iff.mp hrun
  obtain ⟨⟨fault, phys'⟩, herror, heq⟩ := Option.map_eq_some_iff.mp hmap
  have hres := errorResult_eq_some herror
  simp only [Prod.mk.injEq] at heq
  obtain ⟨rfl, hbefore, hafter⟩ := heq
  refine ⟨tables, phys, okResult_eq_some hsetup, ?_, fun h => ?_, _, phys', hres,
    Option.isNone_iff_eq_none.mp hbefore, hafter⟩
  · rintro ⟨phys₁, hnull⟩
    rw [hres] at hnull
    cases hnull
  · obtain ⟨phys₁, hok, -⟩ := h.maps (by rw [Admitted]; decide)
    rw [hres] at hok
    cases hok

end Kruspix.Drivers.IoWindow
