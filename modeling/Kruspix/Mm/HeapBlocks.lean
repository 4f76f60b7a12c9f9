import Kruspix.Mm.HeapLists
import Kruspix.Mm.HeapPages

/-!
# Blocks in use

`Valid` joins the two halves of the heap's invariant: the pages are backed by
frames, and the lists hold the blocks that are not in use. `alloc` moves a block
into use and `dealloc` moves it back. A request for new pages is served when the
frames for all of them are there.
-/

namespace Kruspix.Mm.HeapBlocks

open scoped List
open Lib.Blocks Lib.FreeList Lib.Radix Lib.Result Lib.WordMemory Layout PageFrames Arch.Mmu HeapAllocator
open HeapMemory HeapPages HeapLists

variable {fr : PageFrameAllocator} {Owns : Words → Set Nat → Prop} {free : Words → Nat}
  {root : Nat} {out ext : Set Nat} {F : Nat → Nat} {s : Machine} {used : List Block}
  {lists : Fin headCount → List Nat} {index : Fin headCount} {layout : HeapAllocator.Layout}

/-- The invariant of the heap while the blocks of `used` are in use. -/
def Valid (Owns : Words → Set Nat → Prop) (root : Nat) (ext : Set Nat) (s : Machine)
    (used : List Block) : Prop :=
  ∃ out F lists multi, Backed Owns root s.phys s.heapSize ext out F ∧
    Lists (heapWords F s.phys) s.heap s.heapSize lists multi used

/-- The invariant of the heap with the blocks of `lists` on the free lists. -/
def Listed (Owns : Words → Set Nat → Prop) (root : Nat) (ext : Set Nat) (s : Machine)
    (lists : Fin headCount → List Nat) (used : List Block) : Prop :=
  ∃ out F multi, Backed Owns root s.phys s.heapSize ext out F ∧
    Lists (heapWords F s.phys) s.heap s.heapSize lists multi used

theorem Listed.valid (hv : Listed Owns root ext s lists used) : Valid Owns root ext s used := by
  obtain ⟨out, F, multi, hb, hl⟩ := hv
  exact ⟨out, F, lists, multi, hb, hl⟩

theorem Valid.exists_listed (hv : Valid Owns root ext s used) :
    ∃ lists, Listed Owns root ext s lists used := by
  obtain ⟨out, F, lists, multi, hb, hl⟩ := hv
  exact ⟨lists, out, F, multi, hb, hl⟩

theorem Listed.perm {used' : List Block} (hv : Listed Owns root ext s lists used)
    (hp : used.Perm used') : Listed Owns root ext s lists used' := by
  obtain ⟨out, F, multi, hb, hl⟩ := hv
  exact ⟨out, F, multi, hb, hl.perm hp⟩

/-- The head of a list is null exactly if the list is empty. -/
theorem Listed.head_eq_zero_iff (hv : Listed Owns root ext s lists used) :
    s.heap.heads index = 0 ↔ lists index = [] := by
  obtain ⟨_, _, _, _, hl⟩ := hv
  exact (hl.chains index).eq_null_iff

/-- The frames that fresh pages from `x` on take. -/
def pagesCost (x : Nat) : Nat → Nat
  | 0 => 0
  | pages + 1 => pageCost x + pagesCost (x + pageSize) pages

/-- The fresh pages a request takes. -/
def newPages (s : Machine) (layout : HeapAllocator.Layout) : Nat :=
  if pageSize < layout.align then 0
  else if h : layout.headIndex < headCount then
    if s.heap.heads ⟨layout.headIndex, h⟩ = 0 then 1 else 0
  else layout.pages

/-- The blocks of a page that is cut for a list. -/
def pageBlocks (index : Fin headCount) (page : Nat) : List Nat :=
  (cut page (classSize index) ((pageSize + (classSize index - 1)) / classSize index)).map
    Block.start

theorem length_pageBlocks (index : Fin headCount) (page : Nat) :
    (pageBlocks index page).length = pageSize / classSize index := by
  rw [pageBlocks, List.length_map, cut, List.length_map, List.length_range]
  exact Nat.eq_div_of_mul_eq_left (classSize_pos index).ne' (blocks_mul index)

theorem pageBlocks_ne_nil (index : Fin headCount) (page : Nat) : pageBlocks index page ≠ [] := by
  apply List.ne_nil_of_length_pos
  rw [length_pageBlocks]
  exact blocks_per_page_pos index

/-- The pages that are mapped while the heap grows. -/
def mappedPages (size size' : Nat) : List Nat :=
  (List.range ((size' - size) / pageSize)).map fun k => heapMapOffset + size + k * pageSize

/-- The pages that `init_heap` maps for a list. -/
def initPages (fr : PageFrameAllocator) (kernelTable : Nat) :
    List (Fin headCount) → Machine → Fin headCount → List Nat
  | [], _, _ => []
  | index :: rest, s, j =>
      match refillHead fr kernelTable index (classSize index) s with
      | .ok _ s' => (if j = index then mappedPages s.heapSize s'.heapSize else []) ++
          initPages fr kernelTable rest s' j
      | .error _ _ => []

theorem mappedPages_zero (size : Nat) : mappedPages size size = [] := by
  rw [mappedPages, Nat.sub_self]
  rfl

theorem mappedPages_one (size : Nat) :
    mappedPages size (size + pageSize) = [heapMapOffset + size] := by
  rw [mappedPages, Nat.add_sub_cancel_left]
  rfl

theorem initPages_cons {kernelTable : Nat} {rest : List (Fin headCount)} {s s' : Machine}
    {j : Fin headCount} (h : refillHead fr kernelTable index (classSize index) s = .ok () s') :
    initPages fr kernelTable (index :: rest) s j =
      (if j = index then mappedPages s.heapSize s'.heapSize else []) ++
        initPages fr kernelTable rest s' j := by
  rw [initPages, h]

/-- The alignment of a block that `alloc` takes for a layout. -/
def blockAlign (layout : HeapAllocator.Layout) : Nat :=
  if layout.headIndex < headCount then layout.blockSize else pageSize

/-- A request takes a block of its list, which is that of a new page if it was empty. -/
structure Taken (s : Machine) (layout : HeapAllocator.Layout) (lists : Fin headCount → List Nat)
    (ptr : Nat) (lists' : Fin headCount → List Nat) : Prop where
  listed : ∀ j, layout.headIndex = j.val → lists j ≠ [] → (lists j).Perm (ptr :: lists' j)
  page : ∀ j, layout.headIndex = j.val → lists j = [] →
    (pageBlocks j (heapMapOffset + s.heapSize)).Perm (ptr :: lists' j)
  others : ∀ j, layout.headIndex ≠ j.val → lists' j = lists j

/-- The free lists when a block comes back. -/
def givenBack (layout : HeapAllocator.Layout) (ptr : Nat) (lists : Fin headCount → List Nat) :
    Fin headCount → List Nat :=
  fun j => if layout.headIndex = j.val then ptr :: lists j else lists j

theorem Taken.of_update {ptr : Nat} {rest : List Nat} (h : layout.headIndex < headCount)
    (hlisted : lists ⟨layout.headIndex, h⟩ ≠ [] →
      (lists ⟨layout.headIndex, h⟩).Perm (ptr :: rest))
    (hpage : lists ⟨layout.headIndex, h⟩ = [] →
      (pageBlocks ⟨layout.headIndex, h⟩ (heapMapOffset + s.heapSize)).Perm (ptr :: rest)) :
    Taken s layout lists ptr (Function.update lists ⟨layout.headIndex, h⟩ rest) := by
  refine ⟨fun j hj => ?_, fun j hj => ?_, fun j hj => ?_⟩
  · obtain rfl : (⟨layout.headIndex, h⟩ : Fin headCount) = j := Fin.ext hj
    rwa [Function.update_self]
  · obtain rfl : (⟨layout.headIndex, h⟩ : Fin headCount) = j := Fin.ext hj
    rwa [Function.update_self]
  · refine Function.update_of_ne ?_ _ _
    rintro rfl
    exact hj rfl

/-- A request for several pages takes no block of a list. -/
theorem Taken.of_large {ptr : Nat} (h : ¬ layout.headIndex < headCount) :
    Taken s layout lists ptr lists :=
  ⟨fun j hj => absurd (hj ▸ j.isLt) h, fun j hj => absurd (hj ▸ j.isLt) h, fun _ _ => rfl⟩

theorem givenBack_small {ptr : Nat} (h : layout.headIndex < headCount) :
    givenBack layout ptr lists = Function.update lists ⟨layout.headIndex, h⟩
      (ptr :: lists ⟨layout.headIndex, h⟩) := by
  funext j
  by_cases hj : layout.headIndex = j.val
  · obtain rfl : (⟨layout.headIndex, h⟩ : Fin headCount) = j := Fin.ext hj
    rw [Function.update_self]
    exact if_pos rfl
  · have hne : j ≠ ⟨layout.headIndex, h⟩ := by
      rintro rfl
      exact hj rfl
    rw [Function.update_of_ne hne]
    exact if_neg hj

theorem givenBack_large {ptr : Nat} (h : ¬ layout.headIndex < headCount) :
    givenBack layout ptr lists = lists := by
  funext j
  refine if_neg fun hj => h ?_
  rw [hj]
  exact j.isLt

theorem align_dvd_blockAlign (halign : layout.align ≤ pageSize) :
    layout.align ∣ blockAlign layout := by
  rw [blockAlign]
  split_ifs with h
  · rw [layout.blockSize_eq_classSize halign h]
    exact (layout.small_spec halign h).2
  · exact (layout.large_spec halign h).2.1

theorem size_le_blockLen (halign : layout.align ≤ pageSize) : layout.size ≤ layout.blockLen := by
  by_cases h : layout.headIndex < headCount
  · exact (layout.small_spec halign h).1
  · exact (layout.large_spec halign h).1

theorem allocHeapPage_va {kernelTable va : Nat} {s' : Machine}
    (h : allocHeapPage fr kernelTable s = .ok va s') : va = heapMapOffset + s.heapSize := by
  rw [allocHeapPage, bind_ok get_apply] at h
  split_ifs at h
  · cases h
  · obtain ⟨_, _, _, h⟩ := bind_eq_ok h
    obtain ⟨_, _, _, h⟩ := bind_eq_ok h
    obtain ⟨_, _, _, h⟩ := bind_eq_ok h
    cases h
    rfl

section Specs

variable (hc : Contract fr Owns free)

include hc

/-- Storing a word of the heap. -/
theorem writeWord_spec (hb : Backed Owns root s.phys s.heapSize ext out F) {va : Nat}
    (hlo : heapMapOffset ≤ va) (hhi : va < heapMapOffset + s.heapSize) (w : BitVec 64) :
    ∃ phys', writeWord (root + linearMapOffset) va w s = .ok () { s with phys := phys' } ∧
      Backed Owns root phys' s.heapSize ext out F ∧ free phys' = free s.phys ∧
      heapWords F phys' va = w ∧ ∀ a, heapMapOffset ≤ a → a < heapMapOffset + s.heapSize →
        a ≠ va → heapWords F phys' a = heapWords F s.phys a := by
  obtain ⟨x, rfl⟩ := Nat.exists_eq_add_of_le hlo
  have hx : x < s.heapSize := by omega
  obtain ⟨hb', hfree⟩ := hb.store hc hx w
  refine ⟨_, writeWord_heap hb hx w, hb', hfree, ?_, fun a hal hau hne => ?_⟩
  · rw [hb.heapWords_store hc hx hx, if_pos rfl]
  · obtain ⟨y, rfl⟩ := Nat.exists_eq_add_of_le hal
    rw [hb.heapWords_store hc hx (by omega), if_neg (fun h => hne (by rw [h]))]

theorem Listed.size_le (hv : Listed Owns root ext s lists used) :
    s.heapSize + pageSize ≤ slotSize := by
  obtain ⟨_, _, _, hb, _⟩ := hv
  exact hb.size_lt hc

/-- A block in use goes to its list. -/
theorem pushNode_spec {node : Nat}
    (hv : Listed Owns root ext s lists (⟨node, classSize index⟩ :: used))
    (hal : classSize index ∣ node) :
    ∃ s', pushNode (root + linearMapOffset) index node s = .ok () s' ∧
      Listed Owns root ext s' (Function.update lists index (node :: lists index)) used ∧
      free s'.phys = free s.phys ∧ s'.heapSize = s.heapSize := by
  have hsize := hv.size_le hc
  obtain ⟨out, F, multi, hb, hl⟩ := hv
  obtain ⟨hlo, hhi⟩ := hl.packed.inside _ (mem_used List.mem_cons_self)
  have hpos := classSize_pos index
  dsimp only at hlo hhi
  obtain ⟨phys', hres, hb', hfree, hword, hother⟩ := writeWord_spec hc hb hlo (by omega)
    (BitVec.ofNat 64 (s.heap.heads index))
  refine ⟨{ s with phys := phys', heap := s.heap.setHead index node }, ?_,
    ⟨out, F, multi, hb', hl.push hal hword (by omega) hother⟩, hfree, rfl⟩
  rw [pushNode, bind_ok get_apply, bind_ok hres, modify_apply]

/-- The blocks of a run of addresses go to their list. -/
theorem pushNodes_spec {blocks node : Nat}
    (hv : Listed Owns root ext s lists (cut node (classSize index) blocks ++ used))
    (hal : classSize index ∣ node) :
    ∃ s' nodes, pushNodes (root + linearMapOffset) index (classSize index) blocks node s =
        .ok () s' ∧
      Listed Owns root ext s' (Function.update lists index nodes) used ∧
      nodes.Perm ((cut node (classSize index) blocks).map Block.start ++ lists index) ∧
      free s'.phys = free s.phys ∧ s'.heapSize = s.heapSize := by
  induction blocks generalizing node s lists with
  | zero =>
      refine ⟨s, lists index, rfl, ?_, .refl _, rfl, rfl⟩
      rw [Function.update_eq_self]
      exact hv
  | succ blocks ih =>
      rw [cut_succ, List.cons_append] at hv
      obtain ⟨s₁, hres₁, hv₁, hfree₁, hsize₁⟩ := pushNode_spec hc hv hal
      obtain ⟨s₂, nodes, hres₂, hv₂, hnodes, hfree₂, hsize₂⟩ :=
        ih hv₁ (Nat.dvd_add hal (Nat.dvd_refl _))
      rw [Function.update_idem] at hv₂
      rw [Function.update_self] at hnodes
      refine ⟨s₂, nodes, ?_, hv₂, ?_, hfree₂.trans hfree₁, hsize₂.trans hsize₁⟩
      · rw [pushNodes, bind_ok hres₁, hres₂]
      · rw [cut_succ, List.map_cons, List.cons_append]
        exact hnodes.trans List.perm_middle

omit hc in
/-- The first block of a list comes into use. -/
theorem popNode_spec (hv : Listed Owns root ext s lists used) (hne : s.heap.heads index ≠ 0) :
    ∃ s' rest, popNode (root + linearMapOffset) index s = .ok (s.heap.heads index) s' ∧
      lists index = s.heap.heads index :: rest ∧
      Listed Owns root ext s' (Function.update lists index rest)
        (⟨s.heap.heads index, classSize index⟩ :: used) ∧
      classSize index ∣ s.heap.heads index ∧ s'.phys = s.phys ∧ s'.heapSize = s.heapSize := by
  obtain ⟨out, F, multi, hb, hl⟩ := hv
  obtain ⟨rest, hrest⟩ := (hl.chains index).exists_cons hne
  have hmem : s.heap.heads index ∈ lists index := by simp [hrest]
  obtain ⟨hlo, hhi⟩ := hl.node_lt hmem
  obtain ⟨x, hx⟩ := Nat.exists_eq_add_of_le hlo
  have hread : readWord (root + linearMapOffset) (s.heap.heads index) s =
      .ok (heapWords F s.phys (s.heap.heads index)) s := by
    rw [hx]
    exact readWord_heap hb (by omega)
  refine ⟨{ s with
    heap := s.heap.setHead index (nodeNext (heapWords F s.phys) (s.heap.heads index)) }, rest, ?_,
    hrest, ⟨out, F, multi, hb, hl.pop hrest⟩, hl.freeAligned index _ hmem, rfl, rfl⟩
  rw [popNode, bind_ok get_apply, bind_ok hread]
  rfl

/-- Fresh pages are served when the frames for all of them are there. -/
theorem allocHeapPages_spec {pages : Nat} (hb : Backed Owns root s.phys s.heapSize ext out F)
    (henough : pagesCost s.heapSize pages ≤ free s.phys) :
    ∃ phys' out' F', allocHeapPages fr (root + linearMapOffset) pages s =
        .ok () { s with phys := phys', heapSize := s.heapSize + pages * pageSize } ∧
      Backed Owns root phys' (s.heapSize + pages * pageSize) ext out' F' ∧
      free phys' + pagesCost s.heapSize pages = free s.phys ∧
      ∀ x < s.heapSize, heapWords F' phys' (heapMapOffset + x) =
        heapWords F s.phys (heapMapOffset + x) := by
  induction pages generalizing s out F with
  | zero =>
      rw [Nat.zero_mul, Nat.add_zero]
      exact ⟨s.phys, out, F, rfl, hb, rfl, fun _ _ => rfl⟩
  | succ pages ih =>
      rw [pagesCost] at henough ⊢
      cases allocHeapPage_outcome hc hb with
      | stopped _ _ short _ _ _ _ _ => omega
      | mappedNull _ _ none_free cost _ _ _ _ => omega
      | served phys₁ out₁ f _ hres₁ hb₁ hcost₁ hwords₁ =>
          obtain ⟨phys₂, out₂, F₂, hres₂, hb₂, hcost₂, hwords₂⟩ :=
            @ih _ _ { s with phys := phys₁, heapSize := s.heapSize + pageSize } hb₁
              (by dsimp only; omega)
          have hsum : s.heapSize + (pages + 1) * pageSize =
              s.heapSize + pageSize + pages * pageSize := by
            rw [Nat.succ_mul]
            omega
          rw [hsum]
          refine ⟨phys₂, out₂, F₂, ?_, hb₂, ?_, fun x hx => ?_⟩
          · rw [allocHeapPages, bind_ok hres₁, hres₂]
          · dsimp only at hcost₂
            omega
          · rw [hwords₂ x (Nat.lt_add_right _ hx), hwords₁ x hx]

/-- A page is cut into the blocks of a list. -/
theorem refillHead_spec (index : Fin headCount) (hv : Listed Owns root ext s lists used)
    (henough : pageCost s.heapSize ≤ free s.phys) :
    ∃ s' nodes, refillHead fr (root + linearMapOffset) index (classSize index) s = .ok () s' ∧
      Listed Owns root ext s' (Function.update lists index nodes) used ∧
      nodes.Perm (pageBlocks index (heapMapOffset + s.heapSize) ++ lists index) ∧
      s'.heap.heads index ≠ 0 ∧ free s'.phys + pageCost s.heapSize = free s.phys ∧
      s'.heapSize = s.heapSize + pageSize := by
  obtain ⟨out, F, multi, hb, hl⟩ := hv
  cases allocHeapPage_outcome hc hb with
  | stopped _ _ short _ _ _ _ _ => omega
  | mappedNull _ _ none_free cost _ _ _ _ =>
      rw [cost] at henough
      omega
  | served phys₁ out₁ f _ hres₁ hb₁ hcost₁ hwords₁ =>
      have hpacked := packed_cut (heapMapOffset + s.heapSize) (classSize index)
        ((pageSize + (classSize index - 1)) / classSize index)
      rw [blocks_mul, Nat.add_assoc] at hpacked
      have hl₁ := hl.grow (Nat.le_add_right _ pageSize) hpacked fun a hal hau => by
        obtain ⟨x, rfl⟩ := Nat.exists_eq_add_of_le hal
        exact hwords₁ x (by omega)
      have hal : classSize index ∣ heapMapOffset + s.heapSize :=
        Nat.dvd_trans (classSize_dvd index) (Nat.dvd_add (by decide) hb.aligned)
      have hv₁ : Listed Owns root ext
          { s with phys := phys₁, heapSize := s.heapSize + pageSize } lists
          (cut (heapMapOffset + s.heapSize) (classSize index)
            ((pageSize + (classSize index - 1)) / classSize index) ++ used) :=
        ⟨out₁, _, multi, hb₁, hl₁⟩
      obtain ⟨s₂, nodes, hres₂, hv₂, hnodes, hfree₂, hsize₂⟩ := pushNodes_spec hc hv₁ hal
      refine ⟨s₂, nodes, ?_, hv₂, hnodes, ?_, ?_, hsize₂⟩
      · rw [refillHead, bind_ok hres₁, hres₂]
      · rw [Ne, hv₂.head_eq_zero_iff, Function.update_self]
        rintro rfl
        exact pageBlocks_ne_nil index _ (List.append_eq_nil_iff.mp hnodes.nil_eq.symm).1
      · rw [hfree₂]
        exact hcost₁

/-- `alloc` takes a block when the frames for the new pages are there. -/
theorem alloc_spec (hv : Listed Owns root ext s lists used) (halign : layout.align ≤ pageSize)
    (henough : pagesCost s.heapSize (newPages s layout) ≤ free s.phys) :
    ∃ ptr s' lists', alloc fr (root + linearMapOffset) layout s = .ok ptr s' ∧
      Listed Owns root ext s' lists' (⟨ptr, layout.blockLen⟩ :: used) ∧
      Taken s layout lists ptr lists' ∧ blockAlign layout ∣ ptr ∧
      free s'.phys + pagesCost s.heapSize (newPages s layout) = free s.phys ∧
      s'.heapSize = s.heapSize + newPages s layout * pageSize := by
  rw [alloc, if_neg (by omega), newPages, if_neg (by omega), blockAlign, Layout.blockLen] at *
  by_cases h : layout.headIndex < headCount
  · have hblock := layout.blockSize_eq_classSize halign h
    simp only [dif_pos h, if_pos h] at henough ⊢
    rw [bind_ok get_apply, hblock]
    by_cases hempty : s.heap.heads ⟨layout.headIndex, h⟩ = 0
    · have hone : pagesCost s.heapSize 1 = pageCost s.heapSize := rfl
      simp only [if_pos hempty, hone, Nat.one_mul] at henough ⊢
      obtain ⟨s₁, nodes, hres₁, hv₁, hnodes, hne, hfree₁, hsize₁⟩ :=
        refillHead_spec hc _ hv henough
      have hlist := hv.head_eq_zero_iff.mp hempty
      rw [hlist, List.append_nil] at hnodes
      obtain ⟨s₂, rest, hres₂, hrest, hv₂, hal, hphys, hsize₂⟩ := popNode_spec hv₁ hne
      rw [Function.update_self] at hrest
      rw [Function.update_idem] at hv₂
      refine ⟨_, s₂, _, ?_, hv₂, .of_update h (fun hsome => absurd hlist hsome)
        (fun _ => hrest ▸ hnodes.symm), hal, hphys ▸ hfree₁, hsize₂.trans hsize₁⟩
      rw [bind_ok hres₁, bind_ok get_apply, if_neg hne, hres₂]
    · simp only [if_neg hempty] at henough ⊢
      obtain ⟨s₂, rest, hres₂, hrest, hv₂, hal, hphys, hsize₂⟩ := popNode_spec hv hempty
      refine ⟨_, s₂, _, hres₂, hv₂, .of_update h (fun _ => hrest ▸ .refl _)
        (fun hnone => absurd (hv.head_eq_zero_iff.mpr hnone) hempty), hal, by rw [hphys]; rfl, ?_⟩
      rw [hsize₂, Nat.zero_mul, Nat.add_zero]
  · simp only [dif_neg h, if_neg h] at henough ⊢
    obtain ⟨_, _, hpages⟩ := layout.large_spec halign h
    obtain ⟨rest, hrest⟩ := Nat.exists_eq_add_of_le' (show 1 ≤ layout.pages by omega)
    obtain ⟨out, F, multi, hb, hl⟩ := hv
    obtain ⟨phys', out', F', hres, hb', hcost, hwords⟩ := allocHeapPages_spec hc hb henough
    have hpacked := packed_singleton (heapMapOffset + s.heapSize) (layout.pages * pageSize)
    rw [Nat.add_assoc] at hpacked
    have hl' := hl.grow (Nat.le_add_right _ (layout.pages * pageSize)) hpacked fun a hal hau => by
      obtain ⟨x, rfl⟩ := Nat.exists_eq_add_of_le hal
      exact hwords x (by omega)
    refine ⟨heapMapOffset + s.heapSize,
      { s with phys := phys', heapSize := s.heapSize + layout.pages * pageSize }, lists, ?_,
      ⟨out', F', multi, hb', hl'⟩, .of_large h, Nat.dvd_add (by decide) hb.aligned, hcost, rfl⟩
    rw [hrest] at hres ⊢
    obtain ⟨va, s₁, hres₁, hres₂⟩ := bind_eq_ok hres
    rw [Nat.add_sub_cancel, bind_ok hres₁, bind_ok hres₂, allocHeapPage_va hres₁]
    rfl

/-- `dealloc` moves a block back to its list. -/
theorem dealloc_spec {ptr : Nat}
    (hv : Listed Owns root ext s lists (⟨ptr, layout.blockLen⟩ :: used))
    (halign : layout.align ≤ pageSize) (hal : blockAlign layout ∣ ptr) :
    ∃ s', dealloc (root + linearMapOffset) ptr layout s = .ok () s' ∧
      Listed Owns root ext s' (givenBack layout ptr lists) used ∧ free s'.phys = free s.phys ∧
      s'.heapSize = s.heapSize := by
  rw [dealloc, if_neg (by omega)]
  by_cases h : layout.headIndex < headCount
  · rw [Layout.blockLen, if_pos h, layout.blockSize_eq_classSize halign h] at hv
    rw [blockAlign, if_pos h, layout.blockSize_eq_classSize halign h] at hal
    rw [dif_pos h, givenBack_small h]
    exact pushNode_spec hc hv hal
  · have hsize := hv.size_le hc
    rw [Layout.blockLen, if_neg h] at hv
    rw [blockAlign, if_neg h] at hal
    rw [dif_neg h, givenBack_large h]
    obtain ⟨_, _, hpages⟩ := layout.large_spec halign h
    obtain ⟨out, F, multi, hb, hl⟩ := hv
    obtain ⟨hlo, hhi⟩ := hl.packed.inside _ (mem_used List.mem_cons_self)
    have hlen : pageSize ≤ layout.pages * pageSize := Nat.le_mul_of_pos_left _ (by omega)
    have h8 : 8 < pageSize := by decide
    dsimp only at hlo hhi
    obtain ⟨phys₁, hres₁, hb₁, hfree₁, hword₁, hother₁⟩ := writeWord_spec hc hb hlo (by omega)
      (BitVec.ofNat 64 layout.pages)
    obtain ⟨phys₂, hres₂, hb₂, hfree₂, hword₂, hother₂⟩ :=
      writeWord_spec (s := { s with phys := phys₁ }) hc hb₁ (show heapMapOffset ≤ ptr + 8 by omega)
        (by dsimp only; omega) (BitVec.ofNat 64 s.heap.multiPageList)
    refine ⟨{ s with phys := phys₂, heap := { s.heap with multiPageList := ptr } }, ?_,
      ⟨out, F, _, hb₂, hl.pushMulti hlen (by omega) ?_ hword₂ fun a hal hau hne hne8 => ?_⟩,
      hfree₂.trans hfree₁, rfl⟩
    · rw [bind_ok hres₁, bind_ok get_apply, bind_ok hres₂, modify_apply]
    · have hlt : ptr < heapMapOffset + s.heapSize := by omega
      have hsame := (hother₂ ptr hlo hlt (by omega)).trans hword₁
      simp only [slotSize, pageSize] at hsize hlen hhi ⊢
      rw [hsame, BitVec.toNat_ofNat, Nat.mod_eq_of_lt (by omega)]
    · exact (hother₂ a hal hau hne8).trans (hother₁ a hal hau hne)

/-- The owner of a block writes to it. -/
theorem write_spec {e : Block} {va : Nat} (hv : Listed Owns root ext s lists used) (he : e ∈ used)
    (hlo : e.start ≤ va) (hhi : va < e.start + e.len) (w : BitVec 64) :
    ∃ s', writeWord (root + linearMapOffset) va w s = .ok () s' ∧
      Listed Owns root ext s' lists used ∧ free s'.phys = free s.phys ∧
      s'.heapSize = s.heapSize := by
  obtain ⟨out, F, multi, hb, hl⟩ := hv
  obtain ⟨hin, hend⟩ := hl.packed.inside _ (mem_used he)
  obtain ⟨phys', hres, hb', hfree, _, hother⟩ :=
    writeWord_spec hc hb (show heapMapOffset ≤ va by omega) (by omega) w
  exact ⟨_, hres, ⟨out, F, multi, hb', hl.write he hlo hhi hother⟩, hfree, rfl⟩

/-- A frame goes to another client. -/
theorem allocFrame_spec (hv : Listed Owns root ext s lists used) :
    (free s.phys = 0 ∧ fr.allocFrame s.phys = some (0, s.phys)) ∨
      ∃ f phys', fr.allocFrame s.phys = some (f, phys') ∧ f ≠ 0 ∧
        Listed Owns root (insert f ext) { s with phys := phys' } lists used ∧
        free phys' + 1 = free s.phys := by
  obtain ⟨out, F, multi, hb, hl⟩ := hv
  rcases Nat.eq_zero_or_pos (free s.phys) with hfree | hfree
  · exact .inl ⟨hfree, hc.alloc_none hb.owns hfree⟩
  · obtain ⟨f, phys', hres, hfresh, hown, hcost, heq⟩ := hc.alloc_some hb.owns hfree
    obtain ⟨_, hwords⟩ := backed_handOut hb hown heq
    have hpos := (hc.frame hown (Set.mem_insert f out)).pos
    refine .inr ⟨f, phys', hres, by omega, ⟨_, F, multi, backed_take hb hfresh hown heq,
      hl.congr fun a hal hau => ?_⟩, hcost⟩
    obtain ⟨x, rfl⟩ := Nat.exists_eq_add_of_le hal
    exact hwords x (by omega)

/-- Another client gives a frame back. -/
theorem deallocFrame_spec (hv : Listed Owns root ext s lists used) {f : Nat} (hf : f ∈ ext) :
    ∃ phys', fr.deallocFrame s.phys f = some phys' ∧
      Listed Owns root (ext \ {f}) { s with phys := phys' } lists used ∧
      free phys' = free s.phys + 1 := by
  obtain ⟨out, F, multi, hb, hl⟩ := hv
  obtain ⟨phys', hres, hown, hfree, heq⟩ := hc.dealloc hb.owns (hb.others f hf).1
  obtain ⟨hb', hwords⟩ := backed_giveBack hb hf hown heq
  refine ⟨phys', hres, ⟨_, F, multi, hb', hl.congr fun a hal hau => ?_⟩, hfree⟩
  obtain ⟨x, rfl⟩ := Nat.exists_eq_add_of_le hal
  exact hwords x (by omega)

/-- A request stops at a missing table of its first page and leaves the lists
and the size of the heap as they were. -/
theorem alloc_stopped (hv : Valid Owns root ext s used) (hnew : 0 < newPages s layout)
    (htable : 2 ≤ pageCost s.heapSize) (hshort : free s.phys < pageCost s.heapSize) :
    ∃ phys' out', alloc fr (root + linearMapOffset) layout s =
        .error .nullPointer { s with phys := phys' } ∧
      Owns phys' out' ∧ HeapFrames phys' root out' := by
  obtain ⟨out, F, lists, multi, hb, hl⟩ := hv
  cases allocHeapPage_outcome hc hb with
  | served _ _ _ enough _ _ _ _ => omega
  | mappedNull _ _ _ cost _ _ _ _ => omega
  | stopped phys' out' _ _ hres hown hsub hwalk =>
      have hframes : HeapFrames phys' root out' := by
        have hsame : ∀ n, heapFrame phys' root n = heapFrame s.phys root n := fun n => by
          rw [heapFrame, heapFrame, hwalk]
        refine ⟨fun n f hn h => hsub (hb.heapFrames.handedOut n f hn (hsame n ▸ h)), ?_⟩
        intro m n f hm hn hmf hnf
        exact hb.heapFrames.distinct m n f hm hn (hsame m ▸ hmf) (hsame n ▸ hnf)
      refine ⟨phys', out', ?_, hown, hframes⟩
      rw [newPages] at hnew
      split_ifs at hnew with halign h hempty
      · exact absurd hnew (Nat.lt_irrefl 0)
      · rw [alloc, if_neg halign, dif_pos h, bind_ok get_apply, if_pos hempty, refillHead]
        exact bind_error (bind_error hres)
      · exact absurd hnew (Nat.lt_irrefl 0)
      · rw [alloc, if_neg halign, dif_neg h, bind_error hres]

/-- The lists are filled one after the other, each from the pages that are mapped for it. -/
theorem initHeads_spec (indices : List (Fin headCount)) (hv : Listed Owns root ext s lists used)
    (henough : pagesCost s.heapSize indices.length ≤ free s.phys) :
    ∃ s' lists', initHeads fr (root + linearMapOffset) indices s = .ok () s' ∧
      Listed Owns root ext s' lists' used ∧
      (∀ j, (initPages fr (root + linearMapOffset) indices s j).length = indices.count j ∧
        (lists' j).Perm ((initPages fr (root + linearMapOffset) indices s j).flatMap
          (pageBlocks j) ++ lists j)) ∧
      free s'.phys + pagesCost s.heapSize indices.length = free s.phys ∧
      s'.heapSize = s.heapSize + indices.length * pageSize := by
  induction indices generalizing s lists with
  | nil => exact ⟨s, lists, rfl, hv, fun j => ⟨rfl, .refl _⟩, rfl, rfl⟩
  | cons index rest ih =>
      rw [List.length_cons, pagesCost] at henough ⊢
      obtain ⟨s₁, nodes, hres₁, hv₁, hnodes, _, hfree₁, hsize₁⟩ :=
        refillHead_spec hc index hv (by omega)
      rw [← hsize₁] at henough ⊢
      obtain ⟨s₂, lists₂, hres₂, hv₂, hlists₂, hfree₂, hsize₂⟩ := ih hv₁ (by omega)
      refine ⟨s₂, lists₂, (bind_ok hres₁).trans hres₂, hv₂, fun j => ?_, by omega, ?_⟩
      · obtain ⟨hlength, hperm⟩ := hlists₂ j
        rw [initPages_cons hres₁, hsize₁, mappedPages_one, List.count_cons]
        by_cases hj : j = index
        · subst hj
          rw [Function.update_self] at hperm
          rw [if_pos rfl, if_pos (beq_self_eq_true j), List.length_append, hlength,
            List.flatMap_append, List.flatMap_singleton]
          refine ⟨Nat.add_comm _ _, hperm.trans ?_⟩
          calc (initPages fr (root + linearMapOffset) rest s₁ j).flatMap (pageBlocks j) ++ nodes
              _ ~ (initPages fr (root + linearMapOffset) rest s₁ j).flatMap (pageBlocks j) ++
                  (pageBlocks j (heapMapOffset + s.heapSize) ++ lists j) := hnodes.append_left _
              _ ~ pageBlocks j (heapMapOffset + s.heapSize) ++
                  ((initPages fr (root + linearMapOffset) rest s₁ j).flatMap (pageBlocks j) ++
                    lists j) := List.perm_append_comm_assoc _ _ _
              _ = _ := (List.append_assoc _ _ _).symm
        · rw [Function.update_of_ne hj] at hperm
          rw [if_neg hj, if_neg fun heq => hj (beq_iff_eq.mp heq).symm, List.nil_append]
          exact ⟨hlength, hperm⟩
      · rw [hsize₂, hsize₁, Nat.succ_mul]
        omega

end Specs

section Init

variable {phys : Words} {l h o : Nat} (hfirst : FirstTables phys root l h o)

include hfirst

/-- Nothing is mapped in the heap's slot at first. -/
theorem walk_first {x : Nat} (hx : x < slotSize) : walk phys root (heapMapOffset + x) = none := by
  have hslot := (level0Index_heap hx).1
  have hheap : tableAt phys root [level0HeapIndex] = some h :=
    (hfirst.tableAt_iff _ _).mpr (by simp)
  have hstop : nextTable (entries phys h (level1Index (heapMapOffset + x))) = none := by
    rw [hfirst.heap, nextTable_zero]
  have hres : resolve nextTable (entries phys) root ([level0HeapIndex] ++
      level1Index (heapMapOffset + x) ::
        [level2Index (heapMapOffset + x), level3Index (heapMapOffset + x)]) = _ :=
    resolve_of_descend hheap (.inr hstop)
  have hpath : path (heapMapOffset + x) = [level0HeapIndex] ++ level1Index (heapMapOffset + x) ::
      [level2Index (heapMapOffset + x), level3Index (heapMapOffset + x)] := by
    rw [path, hslot]
    rfl
  rw [walk, hpath, hres, Option.bind_some, hfirst.heap, output_zero]

/-- The empty heap. -/
theorem listed_first (htab : Tables phys root out) (hown : Owns phys out) :
    Listed Owns root ∅ ⟨phys, Heap.new, 0⟩ (fun _ => []) [] := by
  have hdeep : ∀ (i j : Fin 512) (p : List (Fin 512)),
      (tableAt phys root (i :: j :: p)).isSome ↔ False := by
    intro i j p
    rw [Option.isSome_iff_exists, iff_false]
    rintro ⟨t, ht⟩
    simpa using (hfirst.tableAt_iff _ _).mp ht
  refine ⟨out, fun _ => 0, [], ?_, ?_⟩
  · refine ⟨hown, htab, Nat.dvd_zero _, fun x hx => (Nat.not_lt_zero x hx).elim,
      fun x hx _ => walk_first hfirst hx, fun k hk => (Nat.not_lt_zero _ hk).elim,
      fun k k' hk _ => (Nat.not_lt_zero _ hk).elim, fun f hf => (Set.notMem_empty f hf).elim,
      fun x _ => ?_, fun x _ => ?_⟩
    · exact (hdeep _ _ _).trans (iff_false_intro (Nat.not_lt_zero _)).symm
    · exact (hdeep _ _ _).trans (iff_false_intro (Nat.not_lt_zero _)).symm
  · refine ⟨fun _ => chain_null, chain_null, ?_, fun _ b hb => (List.not_mem_nil hb).elim,
      fun b hb => (List.not_mem_nil hb).elim⟩
    have hnil : allBlocks (fun _ => []) [] [] = [] := by
      rw [allBlocks, freeBlocks, List.nil_append, List.nil_append, List.flatMap_eq_nil_iff]
      exact fun _ _ => rfl
    rw [hnil]
    exact packed_nil

end Init

end Kruspix.Mm.HeapBlocks
