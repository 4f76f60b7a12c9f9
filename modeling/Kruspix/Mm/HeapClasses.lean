import Kruspix.Lib.BlockPool
import Kruspix.Mm.HeapRuns

/-!
# Pages of the size classes

Each size class is a pool of blocks. A run is recorded with the pages that were mapped for each
class and the most blocks of it that were in use at a time. No block is lost or goes to another
class, so the pages of a class are those that its peak needs.
-/

namespace Kruspix.Mm.HeapClasses

open scoped List
open Lib.Blocks Lib.BlockPool Lib.Result Lib.Transition Lib.WordMemory Layout PageFrames Arch.Mmu
open HeapAllocator HeapBlocks HeapRuns FrameAllocator FrameSet

/-- The blocks of a class that are in use. -/
def liveOf (live : List (Nat × HeapAllocator.Layout)) (index : Fin headCount) : List Nat :=
  (live.filter fun b => b.2.blockSize = classSize index).map Prod.fst

/-- The pages that a call maps for a class. -/
def mappedFor (s s' : HeapRuns.State) (index : Fin headCount) : HeapRuns.Event → List Nat
  | .alloc layout =>
      if layout.blockSize = classSize index then
        mappedPages s.machine.heapSize s'.machine.heapSize
      else []
  | _ => []

/-- The heap, the pages mapped so far for each class, and the most of its blocks in use. -/
structure Tracked where
  heap : HeapRuns.State
  pages : Fin headCount → List Nat
  peak : Fin headCount → Nat

/-- One event of a run, and what it maps and uses of every class. -/
def Tracked.step (fr : PageFrameAllocator) (kernelTable : Nat) (t : Tracked)
    (e : HeapRuns.Event) : Tracked :=
  let heap := HeapRuns.step fr kernelTable t.heap e
  { heap
    pages := fun index => t.pages index ++ mappedFor t.heap heap index e
    peak := fun index => max (t.peak index) (liveOf heap.live index).length }

/-- After `init_heap` each class has the pages that were mapped for it, and no block in use. -/
structure Booted (fr : PageFrameAllocator) (free : Words → Nat) (phys₀ : Words)
    (kernelTable : Nat) (t : Tracked) : Prop where
  boot : Boot fr free phys₀ kernelTable t.heap
  pages : ∃ user phys, setupPageTables fr phys₀ = .ok (user, kernelTable) phys ∧
    t.pages = initPages fr kernelTable (List.finRange headCount) ⟨phys, Heap.new, 0⟩
  peak : t.peak = fun _ => 0

/-- Calls for which the frames are there. An alignment beyond a page still panics. -/
def TrackedRun (fr : PageFrameAllocator) (kernelTable : Nat) (free : Words → Nat) :
    Tracked → Tracked → Prop :=
  Step (fun t e => some (t.step fr kernelTable e)) fun t e =>
    t.heap.panicked = false ∧ Called t.heap e ∧
      ∀ layout, e = .alloc layout → Served free t.heap layout

/-- Each class has as many pages as its peak needs, each of their blocks is in use or on the list
of the class, and a page is mapped only if all of them are in use. -/
structure Conserved (fr : PageFrameAllocator) (kernelTable : Nat) (t : Tracked) : Prop where
  pages : ∀ index, (t.pages index).length =
    max 1 (t.peak index ⌈/⌉ (pageSize / classSize index))
  lists : ∃ free multi, ListsApart (virtToPhys kernelTable) t.heap free multi ∧ ∀ index,
    (free index ++ liveOf t.heap.live index).Perm ((t.pages index).flatMap (pageBlocks index))
  reused : ∀ (layout : HeapAllocator.Layout) (index : Fin headCount), layout.align ≤ pageSize →
    layout.blockSize = classSize index →
      (liveOf t.heap.live index).length < (t.pages index).length * (pageSize / classSize index) →
        (t.step fr kernelTable (.alloc layout)).pages = t.pages

/-- A class as a pool. -/
def Tracked.pool (t : Tracked) (lists : Fin headCount → List Nat) (index : Fin headCount) :
    Pool Nat Nat :=
  ⟨t.pages index, lists index, liveOf t.heap.live index, t.peak index⟩

/-- The invariant of a run, of the heap and of each of its classes. -/
structure Accounted (Owns : Words → Set Nat → Prop) (root : Nat)
    (lists : Fin headCount → List Nat) (t : Tracked) : Prop where
  running : RunningWith Owns root lists t.heap
  balanced : ∀ index,
    Balanced (pageBlocks index) (pageSize / classSize index) (t.pool lists index)

variable {fr : PageFrameAllocator} {Owns : Words → Set Nat → Prop} {free : Words → Nat}
  {phys₀ : Words} {root kernelTable : Nat} {t : Tracked} {layout : HeapAllocator.Layout}
  {lists : Fin headCount → List Nat} {index : Fin headCount}

theorem mappedFor_alloc (s s' : HeapRuns.State) :
    mappedFor s s' index (.alloc layout) =
      if layout.blockSize = classSize index then
        mappedPages s.machine.heapSize s'.machine.heapSize
      else [] := rfl

theorem mappedFor_dealloc (s s' : HeapRuns.State) (ptr : Nat) :
    mappedFor s s' index (.dealloc ptr layout) = [] := rfl

section Live

variable {live live' : List (Nat × HeapAllocator.Layout)} {ptr : Nat}

theorem liveOf_cons_same (h : layout.blockSize = classSize index) :
    liveOf ((ptr, layout) :: live) index = ptr :: liveOf live index := by
  rw [liveOf, List.filter_cons, if_pos (decide_eq_true h)]
  rfl

theorem liveOf_cons_other (h : layout.blockSize ≠ classSize index) :
    liveOf ((ptr, layout) :: live) index = liveOf live index := by
  rw [liveOf, List.filter_cons, if_neg fun heq => h (of_decide_eq_true heq)]
  rfl

theorem liveOf_perm (h : live.Perm live') : (liveOf live index).Perm (liveOf live' index) :=
  (h.filter _).map _

end Live

/-- A request of a class maps a page if the list is empty. -/
theorem newPages_of_class {s : Machine} (halign : layout.align ≤ pageSize)
    (h : layout.headIndex = index.val) :
    newPages s layout = if s.heap.heads index = 0 then 1 else 0 := by
  have hlt : layout.headIndex < headCount := h ▸ index.isLt
  obtain rfl : (⟨layout.headIndex, hlt⟩ : Fin headCount) = index := Fin.ext h
  rw [newPages, if_neg (Nat.not_lt.mpr halign), dif_pos hlt]

section Steps

variable (h : Accounted Owns root lists t)

include h

/-- A call that takes no block and gives none back. -/
theorem Accounted.of_live_eq {e : HeapRuns.Event}
    (hlive : (HeapRuns.step fr kernelTable t.heap e).live = t.heap.live)
    (hmapped : ∀ index,
      mappedFor t.heap (HeapRuns.step fr kernelTable t.heap e) index e = [])
    (hrunning : RunningWith Owns root lists (HeapRuns.step fr kernelTable t.heap e)) :
    Accounted Owns root lists (t.step fr kernelTable e) := by
  refine ⟨hrunning, fun index => ?_⟩
  have hpool : (t.step fr kernelTable e).pool lists index =
      { t.pool lists index with
        peak := max (t.peak index) (liveOf t.heap.live index).length } := by
    simp only [Tracked.pool, Tracked.step, hlive, hmapped, List.append_nil]
  rw [hpool]
  exact (h.balanced index).record

/-- A list that is empty has the null pointer as its head. -/
theorem Accounted.newPages_eq (halign : layout.align ≤ pageSize)
    (hclass : layout.blockSize = classSize index) :
    newPages t.heap.machine layout = if lists index = [] then 1 else 0 := by
  rw [newPages_of_class halign ((layout.blockSize_eq_iff halign index).mp hclass)]
  exact if_congr h.running.listed.head_eq_zero_iff rfl rfl

/-- A request takes a block of its class and leaves the others as they are. -/
theorem Accounted.alloc (hc : Contract fr Owns free) (halign : layout.align ≤ pageSize)
    (hserved : Served free t.heap layout) :
    ∃ lists', Accounted Owns root lists' (t.step fr (root + linearMapOffset) (.alloc layout)) := by
  obtain ⟨ptr, lists', hlive, _, hrunning, htaken, hsize, _⟩ :=
    h.running.alloc hc halign hserved
  refine ⟨lists', hrunning, fun index => ?_⟩
  have hbalanced := h.balanced index
  rw [Tracked.pool, Tracked.step]
  dsimp only
  rw [hlive, mappedFor_alloc, hsize]
  by_cases hclass : layout.blockSize = classSize index
  · have hindex := (layout.blockSize_eq_iff halign index).mp hclass
    rw [if_pos hclass, liveOf_cons_same hclass, h.newPages_eq halign hclass]
    by_cases hlist : lists index = []
    · rw [if_pos hlist, Nat.one_mul, mappedPages_one]
      exact hbalanced.refill (length_pageBlocks index) (blocks_per_page_pos index) hlist
        (htaken.page index hindex hlist)
    · rw [if_neg hlist, Nat.zero_mul, Nat.add_zero, mappedPages_zero, List.append_nil]
      exact hbalanced.take (length_pageBlocks index) (blocks_per_page_pos index)
        (htaken.listed index hindex hlist)
  · have hindex := mt (layout.blockSize_eq_iff halign index).mpr hclass
    rw [if_neg hclass, liveOf_cons_other hclass, htaken.others index hindex, List.append_nil]
    exact hbalanced.record

/-- A block goes back to its class. -/
theorem Accounted.dealloc (hc : Contract fr Owns free) {ptr : Nat}
    (hmem : (ptr, layout) ∈ t.heap.live) :
    Accounted Owns root (givenBack layout ptr lists)
      (t.step fr (root + linearMapOffset) (.dealloc ptr layout)) := by
  obtain ⟨hlive, _, hrunning⟩ := h.running.dealloc hc hmem
  refine ⟨hrunning, fun index => ?_⟩
  have hbalanced := h.balanced index
  have hperm := @liveOf_perm index _ _ (List.perm_cons_erase hmem)
  have halign := (h.running.aligned _ hmem).1
  rw [Tracked.pool, Tracked.step]
  dsimp only
  rw [hlive, mappedFor_dealloc, List.append_nil, givenBack]
  by_cases hclass : layout.blockSize = classSize index
  · rw [liveOf_cons_same hclass] at hperm
    rw [if_pos ((layout.blockSize_eq_iff halign index).mp hclass)]
    exact (hbalanced.give hperm).record
  · rw [liveOf_cons_other hclass] at hperm
    rw [if_neg (mt (layout.blockSize_eq_iff halign index).mpr hclass)]
    exact (hbalanced.perm (.refl _) hperm).record

/-- A request for an alignment beyond a page panics before it changes anything. -/
theorem Accounted.alloc_panics (halign : pageSize < layout.align) :
    Accounted Owns root lists (t.step fr kernelTable (.alloc layout)) := by
  have hres : HeapAllocator.alloc fr kernelTable layout t.heap.machine =
      .error .requestTooLarge t.heap.machine := by
    rw [HeapAllocator.alloc, if_pos halign, throw_apply]
  have hstep : HeapRuns.step fr kernelTable t.heap (.alloc layout) =
      { t.heap with panicked := true } := by
    simp only [HeapRuns.step, hres]
  apply h.of_live_eq
  · rw [hstep]
  · intro index
    rw [hstep, mappedFor_alloc, mappedPages_zero, ite_self]
  · rw [hstep]
    exact ⟨h.running.listed, h.running.aligned⟩

end Steps

/-- Every call of a run keeps the classes accounted. -/
theorem Accounted.step (hc : Contract fr Owns free) (h : Accounted Owns root lists t)
    {e : HeapRuns.Event} (hcalled : Called t.heap e)
    (hserved : ∀ layout, e = .alloc layout → Served free t.heap layout) :
    ∃ lists', Accounted Owns root lists' (t.step fr (root + linearMapOffset) e) := by
  cases e with
  | alloc layout =>
      rcases Nat.lt_or_ge pageSize layout.align with halign | halign
      · exact ⟨lists, h.alloc_panics halign⟩
      · exact h.alloc hc halign (hserved layout rfl)
  | dealloc ptr layout => exact ⟨_, h.dealloc hc hcalled⟩
  | write va w =>
      obtain ⟨hlive, _, hrunning⟩ := h.running.write hc hcalled.2 w
      exact ⟨lists, h.of_live_eq hlive (fun _ => rfl) hrunning⟩
  | allocFrame =>
      obtain ⟨hlive, _, hrunning, _⟩ := h.running.allocFrame hc
      exact ⟨lists, h.of_live_eq hlive (fun _ => rfl) hrunning⟩
  | deallocFrame frame =>
      obtain ⟨hlive, _, hrunning⟩ := h.running.deallocFrame hc hcalled
      exact ⟨lists, h.of_live_eq hlive (fun _ => rfl) hrunning⟩

/-- The record of a run starts with what `init_heap` mapped. -/
theorem exists_booted {s : HeapRuns.State} (hboot : Boot fr free phys₀ kernelTable s) :
    ∃ t, Booted fr free phys₀ kernelTable t ∧ t.heap = s := by
  obtain ⟨user, phys, hsetup, _⟩ := hboot.tables
  generalize hpages : initPages fr kernelTable (List.finRange headCount) ⟨phys, Heap.new, 0⟩ = pages
  exact ⟨⟨s, pages, fun _ => 0⟩, ⟨hboot, ⟨user, phys, hsetup, hpages.symm⟩, rfl⟩, rfl⟩

/-- After `init_heap` each class has one page, and all its blocks are free. -/
theorem Booted.accounted (hc : Contract fr Owns free) (hown : Owns phys₀ ∅)
    (hbooted : Booted fr free phys₀ kernelTable t) :
    ∃ root lists, kernelTable = root + linearMapOffset ∧ Accounted Owns root lists t := by
  obtain ⟨user, phys, hsetup, hpages⟩ := hbooted.pages
  obtain ⟨root, lists, hkernel, hrunning, hlists, _⟩ :=
    hbooted.boot.exists_lists hc hown hsetup
  refine ⟨root, lists, hkernel, hrunning, fun index => ?_⟩
  obtain ⟨page, hpage, hperm⟩ := hlists index
  rw [Tracked.pool, hpages, hpage, hbooted.boot.fresh.1, hbooted.peak]
  exact balanced_start hperm

theorem reachable_accounted (hc : Contract fr Owns free) (hown : Owns phys₀ ∅)
    (ht : Reachable (Booted fr free phys₀ kernelTable) (TrackedRun fr kernelTable free) t) :
    ∃ root lists, kernelTable = root + linearMapOffset ∧ Accounted Owns root lists t := by
  apply ht.invariant
  · intro s hbooted
    exact hbooted.accounted hc hown
  · intro s u _ hinv hstep
    obtain ⟨root, lists, rfl, h⟩ := hinv
    obtain ⟨e, ⟨_, hcalled, hserved⟩, heq⟩ := hstep
    cases heq
    obtain ⟨lists', h'⟩ := h.step hc hcalled hserved
    exact ⟨root, lists', rfl, h'⟩

/-- While a block of a class is free, a request of the class maps no page. -/
theorem Accounted.pages_step_eq (hc : Contract fr Owns free) (h : Accounted Owns root lists t)
    (halign : layout.align ≤ pageSize) (hclass : layout.blockSize = classSize index)
    (hfree : (liveOf t.heap.live index).length <
      (t.pages index).length * (pageSize / classSize index)) :
    (t.step fr (root + linearMapOffset) (.alloc layout)).pages = t.pages := by
  have hlength := (h.balanced index).length (length_pageBlocks index)
  have hlist : lists index ≠ [] := by
    intro hnil
    simp only [Tracked.pool, hnil, List.length_nil, Nat.zero_add] at hlength
    rw [hlength, Nat.mul_comm] at hfree
    exact Nat.lt_irrefl _ hfree
  have hnone : newPages t.heap.machine layout = 0 := by
    rw [h.newPages_eq halign hclass, if_neg hlist]
  have hserved : Served free t.heap layout := by
    rw [Served, hnone]
    exact Nat.zero_le _
  obtain ⟨_, _, _, _, _, _, hsize, _⟩ := h.running.alloc hc halign hserved
  funext index'
  rw [Tracked.step]
  dsimp only
  rw [mappedFor_alloc, hsize, hnone, Nat.zero_mul, Nat.add_zero, mappedPages_zero, ite_self,
    List.append_nil]

theorem Accounted.conserved (hc : Contract fr Owns free) (h : Accounted Owns root lists t) :
    Conserved fr (root + linearMapOffset) t := by
  obtain ⟨multi, hlists⟩ := h.running.listsApart
  refine ⟨fun index => (h.balanced index).pages, ⟨lists, multi, ?_, fun index =>
    (h.balanced index).conserved⟩, fun layout index halign hclass hfree =>
      h.pages_step_eq hc halign hclass hfree⟩
  rw [virtToPhys_linear]
  exact hlists

/-- In every state of a run in which the frames are there, each class has the pages that its peak
needs, and each of their blocks is in use or on the list of the class. -/
theorem reachable_conserved {fa : BitMapFrameAllocator} (hp : Pages fa) {mem : Words}
    (ht : Reachable (Booted (bitmapFrames fa) (freeFrames fa) (fa.initBitmap mem) kernelTable)
      (TrackedRun (bitmapFrames fa) kernelTable (freeFrames fa)) t) :
    Conserved (bitmapFrames fa) kernelTable t := by
  obtain ⟨_, hbooted, -⟩ := id ht
  obtain ⟨user, phys, hsetup, -⟩ := hbooted.pages
  have hc := contract_of_setup hp hsetup
  obtain ⟨root, lists, rfl, h⟩ :=
    reachable_accounted hc (represents_initBitmap hp.wellFormed mem) ht
  exact h.conserved hc

/-- A request for a small block after the start. -/
theorem reachable_conserved_small : ∃ kernelTable t, t.heap.live.length = 1 ∧
    Conserved (bitmapFrames smallRegion) kernelTable t := by
  have hc := smallRegion_contract
  obtain ⟨kernelTable, s, hboot, hfree⟩ := exists_boot_small
  obtain ⟨t, hbooted, rfl⟩ := exists_booted hboot
  obtain ⟨root, lists, rfl, h⟩ := hbooted.accounted hc
    (represents_initBitmap smallRegion_pages.wellFormed fun _ => 0)
  have hserved : Served (freeFrames smallRegion) t.heap smallBlock :=
    (pagesCost_smallBlock _).trans (by omega)
  obtain ⟨ptr, _, hlive, _⟩ := h.running.alloc hc (by decide) hserved
  have hstep : TrackedRun (bitmapFrames smallRegion) (root + linearMapOffset)
      (freeFrames smallRegion) t
      (t.step (bitmapFrames smallRegion) (root + linearMapOffset) (.alloc smallBlock)) := by
    refine ⟨.alloc smallBlock, ⟨hboot.fresh.2.2, trivial, fun layout heq => ?_⟩, rfl⟩
    cases heq
    exact hserved
  refine ⟨_, _, ?_, reachable_conserved smallRegion_pages ((Reachable.start hbooted).next hstep)⟩
  rw [Tracked.step]
  dsimp only
  rw [hlive, hboot.fresh.1, List.length_singleton]

end Kruspix.Mm.HeapClasses
