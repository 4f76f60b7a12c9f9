import Kruspix.Lib.Transition
import Kruspix.Mm.HeapBlocks

/-!
# Runs of the heap

After `init_heap` the kernel calls `alloc` and `dealloc` in any order and writes
to the blocks it holds, while other clients take frames and give them back. Two
results hold in every state of such a run. While the frames do not run out, the
blocks in use and the free lists are well placed. And a heap page has a frame of
its own, as long as a request that is short of frames stops at a missing table.
-/

namespace Kruspix.Mm.HeapRuns

open Lib.Blocks Lib.FreeList Lib.Result Lib.Transition Lib.WordMemory Layout PageFrames Arch.Mmu
open HeapAllocator HeapMemory HeapLists HeapBlocks FrameAllocator FrameSet

/-- The machine, the blocks that `alloc` returned and `dealloc` did not get back,
and the frames that other clients hold. -/
structure State where
  machine : Machine
  live : List (Nat × HeapAllocator.Layout)
  clients : Set Nat
  panicked : Bool

/-- The calls of the kernel. -/
inductive Event
  | alloc (layout : HeapAllocator.Layout)
  | dealloc (ptr : Nat) (layout : HeapAllocator.Layout)
  | write (va : Nat) (w : BitVec 64)
  | allocFrame
  | deallocFrame (frame : Nat)

/-- The state after a call. A panic ends the run. -/
def step (fr : PageFrameAllocator) (kernelTable : Nat) (s : State) : Event → State
  | .alloc layout =>
      match alloc fr kernelTable layout s.machine with
      | .ok ptr machine =>
          { s with
            machine := machine
            live := if ptr = 0 then s.live else (ptr, layout) :: s.live }
      | .error _ machine => { s with machine := machine, panicked := true }
  | .dealloc ptr layout =>
      match dealloc kernelTable ptr layout s.machine with
      | .ok _ machine => { s with machine := machine, live := s.live.erase (ptr, layout) }
      | .error _ machine => { s with machine := machine, panicked := true }
  | .write va w =>
      match writeWord kernelTable va w s.machine with
      | .ok _ machine => { s with machine := machine }
      | .error _ machine => { s with machine := machine, panicked := true }
  | .allocFrame =>
      match fr.allocFrame s.machine.phys with
      | some (frame, phys) =>
          { s with
            machine := { s.machine with phys := phys }
            clients := if frame = 0 then s.clients else insert frame s.clients }
      | none => { s with panicked := true }
  | .deallocFrame frame =>
      match fr.deallocFrame s.machine.phys frame with
      | some phys =>
          { s with
            machine := { s.machine with phys := phys }
            clients := s.clients \ {frame} }
      | none => { s with panicked := true }

/-- What the callers keep to: they give back what they hold, and write to it. -/
def Called (s : State) : Event → Prop
  | .alloc _ => True
  | .dealloc ptr layout => (ptr, layout) ∈ s.live
  | .write va _ => 8 ∣ va ∧ ∃ b ∈ s.live, b.1 ≤ va ∧ va < b.1 + b.2.size
  | .allocFrame => True
  | .deallocFrame frame => frame ∈ s.clients

/-- The frames for all new pages of a request are there. -/
def Served (free : Words → Nat) (s : State) (layout : HeapAllocator.Layout) : Prop :=
  pagesCost s.machine.heapSize (newPages s.machine layout) ≤ free s.machine.phys

/-- The request finds that a table of its first page is missing and that there
are not enough frames for the page and its tables. -/
def StopsAtTable (free : Words → Nat) (s : State) (layout : HeapAllocator.Layout) : Prop :=
  0 < newPages s.machine layout ∧ 2 ≤ pageCost s.machine.heapSize ∧
    free s.machine.phys < pageCost s.machine.heapSize

/-- Steps of a run in which the calls meet a condition. -/
def Run (fr : PageFrameAllocator) (kernelTable : Nat) (cond : State → Event → Prop) :
    State → State → Prop :=
  Step (fun s e => some (step fr kernelTable s e))
    fun s e => s.panicked = false ∧ Called s e ∧ cond s e

/-- The state after `setup_page_tables` and `init_heap`, which finds the frames it
needs. -/
structure Boot (fr : PageFrameAllocator) (free : Words → Nat) (phys₀ : Words) (kernelTable : Nat)
    (s : State) : Prop where
  tables : ∃ user phys, setupPageTables fr phys₀ = .ok (user, kernelTable) phys ∧
    pagesCost 0 headCount ≤ free phys ∧
    initHeap fr kernelTable ⟨phys, Heap.new, 0⟩ = .ok () s.machine
  fresh : s.live = [] ∧ s.clients = ∅ ∧ s.panicked = false

/-- The block of a pointer. -/
def liveBlock (b : Nat × HeapAllocator.Layout) : Block := ⟨b.1, b.2.blockLen⟩

@[simp] theorem liveBlock_start (b : Nat × HeapAllocator.Layout) : (liveBlock b).start = b.1 := rfl

@[simp] theorem liveBlock_len (b : Nat × HeapAllocator.Layout) :
    (liveBlock b).len = b.2.blockLen := by
  rw [liveBlock]

/-- The invariant of a run that goes on. -/
structure Running (Owns : Words → Set Nat → Prop) (root : Nat) (s : State) : Prop where
  valid : Valid Owns root s.clients s.machine (s.live.map liveBlock)
  aligned : ∀ b ∈ s.live, b.2.align ≤ pageSize ∧ blockAlign b.2 ∣ b.1

/-- The invariant with the blocks of `lists` on the free lists. -/
structure RunningWith (Owns : Words → Set Nat → Prop) (root : Nat)
    (lists : Fin headCount → List Nat) (s : State) : Prop where
  listed : Listed Owns root s.clients s.machine lists (s.live.map liveBlock)
  aligned : ∀ b ∈ s.live, b.2.align ≤ pageSize ∧ blockAlign b.2 ∣ b.1

variable {fr : PageFrameAllocator} {Owns : Words → Set Nat → Prop} {free : Words → Nat}
  {phys₀ : Words} {root kernelTable : Nat} {s : State} {layout : HeapAllocator.Layout}
  {lists : Fin headCount → List Nat}

theorem RunningWith.running (h : RunningWith Owns root lists s) : Running Owns root s :=
  ⟨h.listed.valid, h.aligned⟩

theorem Running.exists_lists (h : Running Owns root s) : ∃ lists, RunningWith Owns root lists s := by
  obtain ⟨lists, hlisted⟩ := h.valid.exists_listed
  exact ⟨lists, hlisted, h.aligned⟩

section Steps

variable (hc : Contract fr Owns free)

include hc

/-- The free lists after `init_heap` hold the blocks of the pages that are mapped for them. -/
theorem Boot.exists_lists (hown : Owns phys₀ ∅) (hboot : Boot fr free phys₀ kernelTable s)
    {user : Nat} {phys : Words} (hsetup : setupPageTables fr phys₀ = .ok (user, kernelTable) phys) :
    ∃ root lists, kernelTable = root + linearMapOffset ∧ RunningWith Owns root lists s ∧
      (∀ j, ∃ page, initPages fr kernelTable (List.finRange headCount) ⟨phys, Heap.new, 0⟩ j =
        [page] ∧ (lists j).Perm (pageBlocks j page)) ∧
      s.machine.heapSize = headCount * pageSize := by
  obtain ⟨user', phys', hsetup', henough, hinit⟩ := hboot.tables
  cases hsetup.symm.trans hsetup'
  obtain ⟨root, l, hp, o, out, rfl, hfirst, htab, hown', _, hfree⟩ :=
    setupPageTables_ok hc hown hsetup
  have hlen : (List.finRange headCount).length = headCount := List.length_finRange
  obtain ⟨s', lists, hres, hv, hlists, _, hsize⟩ := initHeads_spec hc (List.finRange headCount)
    (listed_first hfirst htab hown') (by rw [hlen]; exact henough)
  have hmachine : s' = s.machine := by
    rw [initHeap, hres] at hinit
    cases hinit
    rfl
  obtain ⟨hlive, hclients, _⟩ := hboot.fresh
  subst hmachine
  refine ⟨root, lists, rfl, ⟨?_, ?_⟩, fun j => ?_, ?_⟩
  · rw [hlive, hclients]
    exact hv
  · rw [hlive]
    exact fun b hb => (List.not_mem_nil hb).elim
  · obtain ⟨hcount, hperm⟩ := hlists j
    rw [List.count_eq_one_of_mem (List.nodup_finRange headCount) (List.mem_finRange j)] at hcount
    obtain ⟨page, hpage⟩ := List.length_eq_one_iff.mp hcount
    rw [hpage, List.flatMap_singleton, List.append_nil] at hperm
    exact ⟨page, hpage, hperm⟩
  · rw [hsize, hlen, Nat.zero_add]

theorem Boot.running (hown : Owns phys₀ ∅) (hboot : Boot fr free phys₀ kernelTable s) :
    ∃ root, kernelTable = root + linearMapOffset ∧ Running Owns root s ∧
      s.machine.heapSize = headCount * pageSize := by
  obtain ⟨_, _, hsetup, _⟩ := hboot.tables
  obtain ⟨root, _, hkernel, hrunning, _, hsize⟩ := hboot.exists_lists hc hown hsetup
  exact ⟨root, hkernel, hrunning.running, hsize⟩

section Listed

variable (h : RunningWith Owns root lists s)

include h

/-- A request that is served. -/
theorem RunningWith.alloc (halign : layout.align ≤ pageSize) (hserved : Served free s layout) :
    ∃ ptr lists', (step fr (root + linearMapOffset) s (.alloc layout)).live =
        (ptr, layout) :: s.live ∧
      (step fr (root + linearMapOffset) s (.alloc layout)).panicked = s.panicked ∧
      RunningWith Owns root lists' (step fr (root + linearMapOffset) s (.alloc layout)) ∧
      Taken s.machine layout lists ptr lists' ∧
      (step fr (root + linearMapOffset) s (.alloc layout)).machine.heapSize =
        s.machine.heapSize + newPages s.machine layout * pageSize ∧
      free (step fr (root + linearMapOffset) s (.alloc layout)).machine.phys +
        pagesCost s.machine.heapSize (newPages s.machine layout) = free s.machine.phys := by
  obtain ⟨ptr, machine, lists', hres, hv, htaken, hal, hfree, hsize⟩ :=
    alloc_spec hc h.listed halign hserved
  have hne : ptr ≠ 0 := by
    obtain ⟨_, _, _, _, hl⟩ := hv
    have hlo := (hl.packed.inside _ (mem_used List.mem_cons_self)).1
    simp only [heapMapOffset] at hlo
    omega
  simp only [step, hres, if_neg hne]
  refine ⟨ptr, lists', rfl, trivial, ⟨hv, fun b hb => ?_⟩, htaken, hsize, hfree⟩
  rcases List.mem_cons.mp hb with rfl | hb
  · exact ⟨halign, hal⟩
  · exact h.aligned b hb

theorem RunningWith.dealloc {ptr : Nat} (hlive : (ptr, layout) ∈ s.live) :
    (step fr (root + linearMapOffset) s (.dealloc ptr layout)).live = s.live.erase (ptr, layout) ∧
      (step fr (root + linearMapOffset) s (.dealloc ptr layout)).panicked = s.panicked ∧
      RunningWith Owns root (givenBack layout ptr lists)
        (step fr (root + linearMapOffset) s (.dealloc ptr layout)) := by
  obtain ⟨halign, hal⟩ := h.aligned _ hlive
  have hperm := (List.perm_cons_erase hlive).map liveBlock
  obtain ⟨machine, hres, hv, _, _⟩ := dealloc_spec hc (h.listed.perm hperm) halign hal
  simp only [step, hres]
  exact ⟨trivial, trivial, hv, fun b hb => h.aligned b (List.mem_of_mem_erase hb)⟩

theorem RunningWith.write {va : Nat} (hlive : ∃ b ∈ s.live, b.1 ≤ va ∧ va < b.1 + b.2.size)
    (w : BitVec 64) :
    (step fr (root + linearMapOffset) s (.write va w)).live = s.live ∧
      (step fr (root + linearMapOffset) s (.write va w)).panicked = s.panicked ∧
      RunningWith Owns root lists (step fr (root + linearMapOffset) s (.write va w)) := by
  obtain ⟨b, hb, hlo, hhi⟩ := hlive
  have hlen := size_le_blockLen (h.aligned b hb).1
  have hmem : liveBlock b ∈ s.live.map liveBlock := List.mem_map_of_mem hb
  have hend : va < (liveBlock b).start + (liveBlock b).len := by
    rw [liveBlock_start, liveBlock_len]
    omega
  obtain ⟨machine, hres, hv, _, _⟩ := write_spec hc h.listed hmem hlo hend w
  simp only [step, hres]
  exact ⟨trivial, trivial, hv, h.aligned⟩

theorem RunningWith.allocFrame :
    (step fr (root + linearMapOffset) s .allocFrame).live = s.live ∧
      (step fr (root + linearMapOffset) s .allocFrame).panicked = s.panicked ∧
      RunningWith Owns root lists (step fr (root + linearMapOffset) s .allocFrame) ∧
      free (step fr (root + linearMapOffset) s .allocFrame).machine.phys = free s.machine.phys - 1 ∧
      (step fr (root + linearMapOffset) s .allocFrame).machine.heapSize = s.machine.heapSize := by
  rcases HeapBlocks.allocFrame_spec hc h.listed with
    ⟨hfree, hres⟩ | ⟨f, phys, hres, hne, hv, hfree⟩
  · simp only [step, hres, if_pos]
    exact ⟨trivial, trivial, ⟨h.listed, h.aligned⟩, by omega, trivial⟩
  · simp only [step, hres, if_neg hne]
    exact ⟨trivial, trivial, ⟨hv, h.aligned⟩, by omega, trivial⟩

theorem RunningWith.deallocFrame {frame : Nat} (hmem : frame ∈ s.clients) :
    (step fr (root + linearMapOffset) s (.deallocFrame frame)).live = s.live ∧
      (step fr (root + linearMapOffset) s (.deallocFrame frame)).panicked = s.panicked ∧
      RunningWith Owns root lists (step fr (root + linearMapOffset) s (.deallocFrame frame)) := by
  obtain ⟨phys, hres, hv, _⟩ := HeapBlocks.deallocFrame_spec hc h.listed hmem
  simp only [step, hres]
  exact ⟨trivial, trivial, hv, h.aligned⟩

end Listed

variable (h : Running Owns root s)

include h

theorem Running.alloc (halign : layout.align ≤ pageSize) (hserved : Served free s layout) :
    ∃ ptr, (step fr (root + linearMapOffset) s (.alloc layout)).live = (ptr, layout) :: s.live ∧
      (step fr (root + linearMapOffset) s (.alloc layout)).panicked = s.panicked ∧
      Running Owns root (step fr (root + linearMapOffset) s (.alloc layout)) ∧
      free (step fr (root + linearMapOffset) s (.alloc layout)).machine.phys +
        pagesCost s.machine.heapSize (newPages s.machine layout) = free s.machine.phys := by
  obtain ⟨lists, hlists⟩ := h.exists_lists
  obtain ⟨ptr, _, hlive, hpanic, hrunning, _, _, hfree⟩ := hlists.alloc hc halign hserved
  exact ⟨ptr, hlive, hpanic, hrunning.running, hfree⟩

theorem Running.dealloc {ptr : Nat} (hlive : (ptr, layout) ∈ s.live) :
    (step fr (root + linearMapOffset) s (.dealloc ptr layout)).live = s.live.erase (ptr, layout) ∧
      (step fr (root + linearMapOffset) s (.dealloc ptr layout)).panicked = s.panicked ∧
      Running Owns root (step fr (root + linearMapOffset) s (.dealloc ptr layout)) := by
  obtain ⟨lists, hlists⟩ := h.exists_lists
  obtain ⟨herase, hpanic, hrunning⟩ := hlists.dealloc hc hlive
  exact ⟨herase, hpanic, hrunning.running⟩

theorem Running.allocFrame :
    (step fr (root + linearMapOffset) s .allocFrame).live = s.live ∧
      (step fr (root + linearMapOffset) s .allocFrame).panicked = s.panicked ∧
      Running Owns root (step fr (root + linearMapOffset) s .allocFrame) ∧
      free (step fr (root + linearMapOffset) s .allocFrame).machine.phys = free s.machine.phys - 1 ∧
      (step fr (root + linearMapOffset) s .allocFrame).machine.heapSize = s.machine.heapSize := by
  obtain ⟨lists, hlists⟩ := h.exists_lists
  obtain ⟨hlive, hpanic, hrunning, hfree, hsize⟩ := hlists.allocFrame hc
  exact ⟨hlive, hpanic, hrunning.running, hfree, hsize⟩

/-- Every call but a request that is short of frames keeps the invariant. -/
theorem Running.step {e : Event} (hcalled : Called s e)
    (halloc : ∀ layout, e = .alloc layout → layout.align ≤ pageSize ∧ Served free s layout) :
    (HeapRuns.step fr (root + linearMapOffset) s e).panicked = s.panicked ∧
      Running Owns root (HeapRuns.step fr (root + linearMapOffset) s e) := by
  obtain ⟨lists, hlists⟩ := h.exists_lists
  cases e with
  | alloc layout =>
      obtain ⟨halign, hserved⟩ := halloc layout rfl
      obtain ⟨_, _, hpanic, hrunning, _⟩ := h.alloc hc halign hserved
      exact ⟨hpanic, hrunning⟩
  | dealloc ptr layout => exact (h.dealloc hc hcalled).2
  | write va w =>
      obtain ⟨_, hpanic, hrunning⟩ := hlists.write hc hcalled.2 w
      exact ⟨hpanic, hrunning.running⟩
  | allocFrame =>
      obtain ⟨_, hpanic, hrunning, _⟩ := h.allocFrame hc
      exact ⟨hpanic, hrunning⟩
  | deallocFrame frame =>
      obtain ⟨_, hpanic, hrunning⟩ := hlists.deallocFrame hc hcalled
      exact ⟨hpanic, hrunning.running⟩

end Steps

/-- The word the hardware finds at an address. -/
def loadWord (phys : Words) (root va : Nat) : Nat :=
  match walk phys root va with
  | some t => (phys t.addr).toNat
  | none => 0

/-- Every list ends, and neither a block in use nor a block on a list overlaps
another one. `free` are the nodes of the nine lists. A block of `multi` starts
with the number of its pages. -/
structure ListsApart (root : Nat) (s : State) (free : Fin headCount → List Nat)
    (multi : List Block) : Prop where
  chains : ∀ j, Chain 0 (loadWord s.machine.phys root) (s.machine.heap.heads j) (free j)
  acyclic : ∀ j, (free j).Nodup
  multiChain : Chain 0 (fun b => loadWord s.machine.phys root (b + 8))
    s.machine.heap.multiPageList (multi.map Block.start)
  multiAcyclic : (multi.map Block.start).Nodup
  multiPages : ∀ b ∈ multi, loadWord s.machine.phys root b.start * pageSize = b.len
  packed : Packed heapMapOffset (heapMapOffset + s.machine.heapSize)
    (s.live.map liveBlock ++ (multi ++ freeBlocks free))

/-- The blocks in use and the lists of a state. -/
structure WellPlaced (root : Nat) (s : State) : Prop where
  going : s.panicked = false
  disjoint : s.live.Pairwise fun a b => Apart (liveBlock a) (liveBlock b)
  aligned : ∀ b ∈ s.live, b.2.align ∣ b.1
  size : ∀ b ∈ s.live, b.2.size ≤ b.2.blockLen
  inside : ∀ b ∈ s.live, heapMapOffset ≤ b.1 ∧
    b.1 + b.2.blockLen ≤ heapMapOffset + s.machine.heapSize
  lists : ∃ free multi, ListsApart root s free multi

theorem loadWord_heap {phys : Words} {size : Nat} {ext out : Set Nat} {F : Nat → Nat}
    (hb : Backed Owns root phys size ext out F) {va : Nat} (hlo : heapMapOffset ≤ va)
    (hhi : va < heapMapOffset + size) :
    loadWord phys root va = (heapWords F phys va).toNat := by
  obtain ⟨x, rfl⟩ := Nat.exists_eq_add_of_le hlo
  obtain ⟨desc, hw⟩ := hb.page x (by omega)
  rw [loadWord, hw]
  rfl

theorem RunningWith.listsApart (h : RunningWith Owns root lists s) :
    ∃ multi, ListsApart root s lists multi := by
  obtain ⟨out, F, multi, hb, hl⟩ := h.listed
  have hfree : Packed heapMapOffset (heapMapOffset + s.machine.heapSize)
      (multi ++ freeBlocks lists) := hl.packed.right
  have hmultiSize : ∀ b ∈ multi, heapMapOffset ≤ b.start ∧
      b.start + pageSize ≤ heapMapOffset + s.machine.heapSize := by
    intro b hb
    obtain ⟨hlo, hhi⟩ := hl.packed.inside b (mem_multi hb)
    have hlen := (hl.multiPages b hb).1
    omega
  have hpos : ∀ b ∈ multi ++ freeBlocks lists, 0 < b.len := by
    intro b hb
    rcases List.mem_append.mp hb with hb | hb
    · exact Nat.lt_of_lt_of_le (by decide) (hl.multiPages b hb).1
    · obtain ⟨j, _, hlen⟩ := mem_freeBlocks.mp hb
      exact hlen ▸ classSize_pos j
  have hnodup := hfree.nodup_start hpos
  rw [List.map_append, List.nodup_append] at hnodup
  refine ⟨multi, fun j => (hl.chains j).congr fun b hmem => ?_, fun j => ?_,
    hl.multiChain.congr fun a hmem => ?_, ?_, fun b hmem => ?_, hl.packed⟩
  · obtain ⟨hlo, hhi⟩ := hl.node_lt hmem
    exact loadWord_heap hb hlo hhi
  · exact ((List.nodup_flatMap.mp (hnodup.2.1.of_map _)).1 j (List.mem_finRange j)).of_map _
  · obtain ⟨b, hmulti, rfl⟩ := List.mem_map.mp hmem
    obtain ⟨hlo, hhi⟩ := hmultiSize b hmulti
    simp only [pageSize] at hhi
    exact loadWord_heap hb (by omega) (by omega)
  · exact hnodup.1
  · obtain ⟨hlo, hhi⟩ := hmultiSize b hmem
    simp only [pageSize] at hhi
    rw [loadWord_heap hb hlo (by omega)]
    exact (hl.multiPages b hmem).2

theorem Running.wellPlaced (h : Running Owns root s) (hgoing : s.panicked = false) :
    WellPlaced root s := by
  obtain ⟨free, hrunning⟩ := h.exists_lists
  obtain ⟨multi, hlists⟩ := hrunning.listsApart
  refine ⟨hgoing, ?_, fun b hb => ?_, fun b hb => size_le_blockLen (h.aligned b hb).1,
    fun b hb => ?_, free, multi, hlists⟩
  · exact List.pairwise_map.mp (List.pairwise_append.mp hlists.packed.apart).1
  · exact Nat.dvd_trans (align_dvd_blockAlign (h.aligned b hb).1) (h.aligned b hb).2
  · have hin := hlists.packed.inside (liveBlock b)
      (List.mem_append_left _ (List.mem_map_of_mem hb))
    rwa [liveBlock_start, liveBlock_len] at hin

/-- `init_heap` succeeds when the frames for it are there. -/
theorem exists_boot (hc : Contract fr Owns free) (hown : Owns phys₀ ∅) {user : Nat} {phys : Words}
    (hsetup : setupPageTables fr phys₀ = .ok (user, kernelTable) phys)
    (henough : pagesCost 0 headCount ≤ free phys) :
    ∃ s, Boot fr free phys₀ kernelTable s ∧
      free s.machine.phys + pagesCost 0 headCount = free phys := by
  obtain ⟨root, l, hp, o, out, rfl, hfirst, htab, hown', _, _⟩ := setupPageTables_ok hc hown hsetup
  have hlen : (List.finRange headCount).length = headCount := List.length_finRange
  obtain ⟨machine, _, hres, _, _, hfree, _⟩ := initHeads_spec hc (List.finRange headCount)
    (listed_first hfirst htab hown') (by rw [hlen]; exact henough)
  rw [hlen] at hfree
  exact ⟨⟨machine, [], ∅, false⟩, ⟨⟨user, phys, hsetup, henough, hres⟩, rfl, rfl, rfl⟩, hfree⟩

/-- A boot with 64 frames. The bitmap takes one of them, the first page tables
take six, and the heap takes eleven. -/
theorem exists_boot_small : ∃ kernelTable s,
    Boot (bitmapFrames smallRegion) (freeFrames smallRegion) (smallRegion.initBitmap fun _ => 0)
      kernelTable s ∧ freeFrames smallRegion s.machine.phys = 46 := by
  have hc := smallRegion_contract
  have hown := represents_initBitmap smallRegion_pages.wellFormed fun _ => 0
  have hfree : freeFrames smallRegion (smallRegion.initBitmap fun _ => 0) = 63 := by
    decide +kernel
  have hcost : pagesCost 0 headCount = 11 := by
    rw [headCount_eq]
    decide
  have hrun : (match setupPageTables (bitmapFrames smallRegion)
      (smallRegion.initBitmap fun _ => 0) with
    | .ok _ _ => true
    | .error _ _ => false) = true := by
    decide +kernel
  split at hrun
  · rename_i tables phys hsetup
    obtain ⟨_, _, _, _, _, _, _, _, _, _, hsetupFree⟩ := setupPageTables_ok hc hown hsetup
    obtain ⟨s, hboot, hbootFree⟩ := exists_boot hc hown hsetup (by omega)
    exact ⟨tables.2, s, hboot, by omega⟩
  · cases hrun

/-- A request for two pages. -/
def twoPages : HeapAllocator.Layout := ⟨8192, 8, ⟨3, rfl⟩, by decide⟩

/-- A request that a list serves. -/
def smallBlock : HeapAllocator.Layout := ⟨24, 8, ⟨3, rfl⟩, by decide⟩

theorem newPages_twoPages (machine : Machine) : newPages machine twoPages = 2 := by
  have hindex : ¬ twoPages.headIndex < headCount := by decide +kernel
  rw [newPages, if_neg (by decide), dif_neg hindex]
  decide

theorem pagesCost_smallBlock (machine : Machine) :
    pagesCost machine.heapSize (newPages machine smallBlock) ≤ 3 := by
  have hindex : smallBlock.headIndex < headCount := by decide +kernel
  rw [newPages, if_neg (by decide), dif_pos hindex]
  split_ifs
  · rw [pagesCost, pagesCost, pageCost]
    split_ifs <;> omega
  · exact Nat.zero_le 3

/-- The requests of a run in which the frames do not run out. -/
def Supplied (free : Words → Nat) (s : State) (e : Event) : Prop :=
  ∀ layout, e = .alloc layout → layout.align ≤ pageSize ∧ Served free s layout

theorem reachable_running (hc : Contract fr Owns free) (hown : Owns phys₀ ∅)
    (hs : Reachable (Boot fr free phys₀ kernelTable) (Run fr kernelTable (Supplied free)) s) :
    ∃ root, kernelTable = root + linearMapOffset ∧ Running Owns root s ∧ s.panicked = false := by
  refine hs.invariant (P := fun s => ∃ root, kernelTable = root + linearMapOffset ∧
    Running Owns root s ∧ s.panicked = false) (fun s hboot => ?_) fun s t _ hinv hstep => ?_
  · obtain ⟨root, hkernel, hrunning, _⟩ := hboot.running hc hown
    exact ⟨root, hkernel, hrunning, hboot.fresh.2.2⟩
  · obtain ⟨root, rfl, hrunning, hgoing⟩ := hinv
    obtain ⟨e, ⟨_, hcalled, hsupplied⟩, heq⟩ := hstep
    cases heq
    obtain ⟨hpanic, hrunning'⟩ := hrunning.step hc hcalled hsupplied
    exact ⟨root, rfl, hrunning', hpanic.trans hgoing⟩

/-- A run begins with a boot, for which the allocator has handed out frames. -/
theorem contract_of_boot {fa : BitMapFrameAllocator} (hp : Pages fa) {phys₀ : Words}
    {next : State → State → Prop}
    (hs : Reachable (Boot (bitmapFrames fa) (freeFrames fa) phys₀ kernelTable) next s) :
    Contract (bitmapFrames fa) (Represents fa) (freeFrames fa) := by
  obtain ⟨_, hboot, -⟩ := hs
  obtain ⟨user, phys, hsetup, -⟩ := hboot.tables
  exact contract_of_setup hp hsetup

/-- While the frames do not run out, the blocks in use and the lists are well
placed in every state of a run. -/
theorem reachable_wellPlaced {fa : BitMapFrameAllocator} (hp : Pages fa) {mem : Words}
    (hs : Reachable (Boot (bitmapFrames fa) (freeFrames fa) (fa.initBitmap mem) kernelTable)
      (Run (bitmapFrames fa) kernelTable (Supplied (freeFrames fa))) s) :
    WellPlaced (virtToPhys kernelTable) s := by
  obtain ⟨root, rfl, hrunning, hgoing⟩ := reachable_running (contract_of_boot hp hs)
    (represents_initBitmap hp.wellFormed mem) hs
  rw [virtToPhys_linear]
  exact hrunning.wellPlaced hgoing

/-- Two requests, of which the larger is given back. -/
theorem reachable_wellPlaced_small : ∃ kernelTable s, s.live.length = 1 ∧
    WellPlaced (virtToPhys kernelTable) s := by
  have hc := smallRegion_contract
  obtain ⟨kernelTable, s₀, hboot, hfree₀⟩ := exists_boot_small
  obtain ⟨root, rfl, hrun₀, hsize₀⟩ := hboot.running hc
    (represents_initBitmap smallRegion_pages.wellFormed fun _ => 0)
  have hcost₀ : pagesCost s₀.machine.heapSize (newPages s₀.machine twoPages) = 2 := by
    rw [newPages_twoPages, hsize₀, headCount_eq]
    decide
  have hserved₀ : Served (freeFrames smallRegion) s₀ twoPages := by
    rw [Served, hcost₀]
    omega
  obtain ⟨ptr₁, hlive₁, hpanic₁, hrun₁, hfree₁⟩ := hrun₀.alloc hc (by decide) hserved₀
  have hserved₁ : Served (freeFrames smallRegion) (step (bitmapFrames smallRegion)
      (root + linearMapOffset) s₀ (.alloc twoPages)) smallBlock :=
    (pagesCost_smallBlock _).trans (by omega)
  obtain ⟨ptr₂, hlive₂, hpanic₂, hrun₂, _⟩ := hrun₁.alloc hc (by decide) hserved₁
  have hgoing₀ := hboot.fresh.2.2
  rw [hlive₁, hboot.fresh.1] at hlive₂
  have hmem : (ptr₁, twoPages) ∈ (step (bitmapFrames smallRegion) (root + linearMapOffset)
      (step (bitmapFrames smallRegion) (root + linearMapOffset) s₀ (.alloc twoPages))
        (.alloc smallBlock)).live := by
    rw [hlive₂]
    simp
  obtain ⟨hlive₃, _⟩ := hrun₂.dealloc hc hmem
  have hreach₁ : Reachable _ (Run (bitmapFrames smallRegion) (root + linearMapOffset)
      (Supplied (freeFrames smallRegion))) _ :=
    (Reachable.start hboot).next ⟨.alloc twoPages, ⟨hgoing₀, trivial, fun layout heq => by
      cases heq
      exact ⟨by decide, hserved₀⟩⟩, rfl⟩
  have hreach₂ := hreach₁.next ⟨.alloc smallBlock, ⟨hpanic₁.trans hgoing₀, trivial,
    fun layout heq => by
      cases heq
      exact ⟨by decide, hserved₁⟩⟩, rfl⟩
  have hreach₃ := hreach₂.next ⟨.dealloc ptr₁ twoPages, ⟨(hpanic₂.trans hpanic₁).trans hgoing₀, hmem,
    fun layout heq => by cases heq⟩, rfl⟩
  refine ⟨root + linearMapOffset, _, ?_, reachable_wellPlaced smallRegion_pages hreach₃⟩
  rw [hlive₃, List.length_erase_of_mem hmem, hlive₂, List.length_cons, List.length_singleton]

/-- The invariant of a run that may have panicked. -/
structure Kept (Owns : Words → Set Nat → Prop) (root : Nat) (s : State) : Prop where
  running : s.panicked = false → Running Owns root s
  frames : ∃ out, Owns s.machine.phys out ∧ HeapFrames s.machine.phys root out

theorem Running.kept (h : Running Owns root s) : Kept Owns root s := by
  obtain ⟨out, _, _, _, hb, _⟩ := h.valid
  exact ⟨fun _ => h, out, hb.owns, hb.heapFrames⟩

/-- The requests that are served, and those that stop at a missing table. -/
def ServedOrStops (free : Words → Nat) (s : State) (e : Event) : Prop :=
  ∀ layout, e = .alloc layout → Served free s layout ∨ StopsAtTable free s layout

/-- A heap page has a frame of its own that is handed out, and a request that is
short of frames returns null or panics and leaves the heap as it was. -/
structure Isolated (fa : BitMapFrameAllocator) (kernelTable : Nat)
    (cond : State → Event → Prop) (s : State) : Prop where
  frames : ∃ out, Represents fa s.machine.phys out ∧
    HeapFrames s.machine.phys (virtToPhys kernelTable) out
  short : s.panicked = false → ∀ layout, cond s (.alloc layout) →
    ¬ Served (freeFrames fa) s layout →
      ((step (bitmapFrames fa) kernelTable s (.alloc layout)).live = s.live ∨
        (step (bitmapFrames fa) kernelTable s (.alloc layout)).panicked = true) ∧
      (step (bitmapFrames fa) kernelTable s (.alloc layout)).machine.heap = s.machine.heap ∧
      (step (bitmapFrames fa) kernelTable s (.alloc layout)).machine.heapSize =
        s.machine.heapSize

/-- A request that does not fit the page size panics at once, and one that stops
at a missing table leaves the heap as it was. -/
theorem Running.alloc_stops (hc : Contract fr Owns free) (h : Running Owns root s)
    (hstops : ¬ layout.align ≤ pageSize ∨ StopsAtTable free s layout) :
    Kept Owns root (HeapRuns.step fr (root + linearMapOffset) s (.alloc layout)) ∧
      (HeapRuns.step fr (root + linearMapOffset) s (.alloc layout)).panicked = true ∧
      (HeapRuns.step fr (root + linearMapOffset) s (.alloc layout)).machine.heap =
        s.machine.heap ∧
      (HeapRuns.step fr (root + linearMapOffset) s (.alloc layout)).machine.heapSize =
        s.machine.heapSize := by
  rcases hstops with halign | ⟨hnew, htable, hshort⟩
  · have hres : HeapAllocator.alloc fr (root + linearMapOffset) layout s.machine =
        .error .requestTooLarge s.machine := by
      rw [HeapAllocator.alloc, if_pos (by omega), throw_apply]
    simp only [HeapRuns.step, hres]
    exact ⟨⟨fun hgoing => absurd hgoing (by simp), h.kept.frames⟩, trivial, trivial, trivial⟩
  · obtain ⟨phys, out, hres, hown, hframes⟩ := alloc_stopped hc h.valid hnew htable hshort
    simp only [HeapRuns.step, hres]
    exact ⟨⟨fun hgoing => absurd hgoing (by simp), out, hown, hframes⟩, trivial, trivial, trivial⟩

theorem Running.step_kept (hc : Contract fr Owns free) (h : Running Owns root s) {e : Event}
    (hcalled : Called s e) (hcond : ServedOrStops free s e) :
    Kept Owns root (HeapRuns.step fr (root + linearMapOffset) s e) := by
  by_cases hok : ∀ layout, e = .alloc layout → layout.align ≤ pageSize ∧ Served free s layout
  · exact (h.step hc hcalled hok).2.kept
  · push Not at hok
    obtain ⟨layout, rfl, hbad⟩ := hok
    refine (h.alloc_stops hc ?_).1
    by_cases halign : layout.align ≤ pageSize
    · exact .inr ((hcond layout rfl).resolve_left (hbad halign))
    · exact .inl halign

theorem reachable_kept (hc : Contract fr Owns free) (hown : Owns phys₀ ∅)
    (hs : Reachable (Boot fr free phys₀ kernelTable) (Run fr kernelTable (ServedOrStops free)) s) :
    ∃ root, kernelTable = root + linearMapOffset ∧ Kept Owns root s := by
  refine hs.invariant (P := fun s => ∃ root, kernelTable = root + linearMapOffset ∧
    Kept Owns root s) (fun s hboot => ?_) fun s t _ hinv hstep => ?_
  · obtain ⟨root, hkernel, hrunning, _⟩ := hboot.running hc hown
    exact ⟨root, hkernel, hrunning.kept⟩
  · obtain ⟨root, rfl, hkept⟩ := hinv
    obtain ⟨e, ⟨hgoing, hcalled, hcond⟩, heq⟩ := hstep
    cases heq
    exact ⟨root, rfl, (hkept.running hgoing).step_kept hc hcalled hcond⟩

/-- When every request is served or stops at a missing table, heap pages keep
frames of their own and a request that stops leaves the heap as it was. -/
theorem reachable_isolated {fa : BitMapFrameAllocator} (hp : Pages fa) {mem : Words}
    (hs : Reachable (Boot (bitmapFrames fa) (freeFrames fa) (fa.initBitmap mem) kernelTable)
      (Run (bitmapFrames fa) kernelTable (ServedOrStops (freeFrames fa))) s) :
    Isolated fa kernelTable (ServedOrStops (freeFrames fa)) s := by
  have hc := contract_of_boot hp hs
  obtain ⟨root, rfl, hkept⟩ := reachable_kept hc (represents_initBitmap hp.wellFormed mem) hs
  refine ⟨?_, fun hgoing layout hcond hshort => ?_⟩
  · rw [virtToPhys_linear]
    exact hkept.frames
  · obtain ⟨_, hpanic, hheap, hsize⟩ := (hkept.running hgoing).alloc_stops hc
      (.inr ((hcond layout rfl).resolve_left hshort))
    exact ⟨.inr hpanic, hheap, hsize⟩

/-- Other clients take frames until `k` are left. -/
theorem exists_drained (hc : Contract fr Owns free) (cond : State → Event → Prop)
    (hcond : ∀ s, cond s .allocFrame) {n : Nat} (k : Nat) (h : Running Owns root s)
    (hgoing : s.panicked = false) (hfree : free s.machine.phys = n + k) :
    ∃ t, Relation.ReflTransGen (Run fr (root + linearMapOffset) cond) s t ∧ Running Owns root t ∧
      t.panicked = false ∧ free t.machine.phys = k ∧
      t.machine.heapSize = s.machine.heapSize ∧ t.live = s.live := by
  induction n generalizing s with
  | zero => exact ⟨s, .refl, h, hgoing, by omega, rfl, rfl⟩
  | succ n ih =>
      obtain ⟨hlive, hpanic, hrunning, hless, hsize⟩ := h.allocFrame hc
      obtain ⟨t, hsteps, ht, hgoing', hk, hsize', hlive'⟩ :=
        ih hrunning (hpanic.trans hgoing) (by omega)
      exact ⟨t, .head ⟨.allocFrame, ⟨hgoing, trivial, hcond s⟩, rfl⟩ hsteps, ht, hgoing', hk,
        hsize'.trans hsize, hlive'.trans hlive⟩

/-- A state without free frames is reached and its heap is isolated. -/
theorem reachable_isolated_drained : ∃ kernelTable s, freeFrames smallRegion s.machine.phys = 0 ∧
    Isolated smallRegion kernelTable (ServedOrStops (freeFrames smallRegion)) s := by
  have hc := smallRegion_contract
  obtain ⟨kernelTable, s, hboot, hfree⟩ := exists_boot_small
  obtain ⟨root, rfl, hrunning, _⟩ := hboot.running hc
    (represents_initBitmap smallRegion_pages.wellFormed fun _ => 0)
  obtain ⟨t, hsteps, _, _, hzero, _⟩ := exists_drained hc
    (ServedOrStops (freeFrames smallRegion)) (fun s layout heq => by cases heq) 0 hrunning
    hboot.fresh.2.2 hfree
  exact ⟨_, t, hzero, reachable_isolated smallRegion_pages ⟨s, hboot, hsteps⟩⟩

/-- With one frame left, the second page of a request is mapped to frame 0. -/
theorem alloc_mapsNull (hc : Contract fr Owns free) (h : Running Owns root s)
    (hfirst : pageCost s.machine.heapSize = 1)
    (hsecond : pageCost (s.machine.heapSize + pageSize) = 1) (hfree : free s.machine.phys = 1) :
    ∃ machine, HeapAllocator.alloc fr (root + linearMapOffset) twoPages s.machine =
        .ok (heapMapOffset + s.machine.heapSize) machine ∧
      ∃ desc, walk machine.phys root (heapMapOffset + (s.machine.heapSize + pageSize)) =
        some ⟨0, desc⟩ := by
  obtain ⟨out, F, _, _, hb, _⟩ := h.valid
  cases HeapPages.allocHeapPage_outcome hc hb with
  | stopped _ _ _ table _ _ _ _ => omega
  | mappedNull _ _ none_free _ _ _ _ _ => omega
  | served phys₁ out₁ f _ hres₁ hb₁ hcost₁ _ =>
      have houtcome := HeapPages.allocHeapPage_outcome
        (s := ⟨phys₁, s.machine.heap, s.machine.heapSize + pageSize⟩) hc hb₁
      cases houtcome with
      | served _ _ _ enough _ _ _ _ =>
          dsimp only at enough
          omega
      | stopped _ _ _ table _ _ _ _ =>
          dsimp only at table
          omega
      | mappedNull phys₂ _ _ _ hres₂ _ _ hnull =>
          obtain ⟨desc, hw⟩ := hnull 0 (by decide)
          rw [Nat.add_zero] at hw
          refine ⟨⟨phys₂, s.machine.heap, s.machine.heapSize + pageSize + pageSize⟩, ?_, desc, hw⟩
          have hindex : ¬ twoPages.headIndex < headCount := by decide +kernel
          have hpages : twoPages.pages - 1 = 1 := by decide
          have hrest : allocHeapPages fr (root + linearMapOffset) 1
              ⟨phys₁, s.machine.heap, s.machine.heapSize + pageSize⟩ = .ok ()
                ⟨phys₂, s.machine.heap, s.machine.heapSize + pageSize + pageSize⟩ := by
            rw [allocHeapPages, bind_ok hres₂]
            rfl
          rw [HeapAllocator.alloc, if_neg (by decide), dif_neg hindex, bind_ok hres₁, hpages,
            bind_ok hrest, pure_apply]

/-- A heap page is mapped to frame 0, which nobody handed out. -/
theorem alloc_notIsolated : ∃ kernelTable s,
    Reachable (Boot (bitmapFrames smallRegion) (freeFrames smallRegion)
        (smallRegion.initBitmap fun _ => 0) kernelTable)
      (Run (bitmapFrames smallRegion) kernelTable fun _ _ => True) s ∧
    s.panicked = false ∧ s.live.length = 1 ∧
    heapFrame s.machine.phys (virtToPhys kernelTable) 10 = some 0 ∧
    ¬ Isolated smallRegion kernelTable (fun _ _ => True) s := by
  have hc := smallRegion_contract
  obtain ⟨kernelTable, s, hboot, hfree⟩ := exists_boot_small
  obtain ⟨root, rfl, hrunning, hsize⟩ := hboot.running hc
    (represents_initBitmap smallRegion_pages.wellFormed fun _ => 0)
  obtain ⟨t, hsteps, ht, hgoing, hone, htsize, hlive⟩ := exists_drained hc
    (fun _ _ => True) (fun _ => trivial) 1 hrunning hboot.fresh.2.2
    (hfree : _ = 45 + 1)
  rw [hsize, headCount_eq] at htsize
  obtain ⟨machine, hres, desc, hw⟩ := alloc_mapsNull hc ht (by rw [htsize]; decide)
    (by rw [htsize]; decide) hone
  rw [htsize] at hres hw
  have hnull : heapFrame machine.phys root 10 = some 0 := by
    have hpages : 10 * pageSize = 9 * pageSize + pageSize := rfl
    rw [heapFrame, hpages, hw, Option.map_some]
  have hstep : step (bitmapFrames smallRegion) (root + linearMapOffset) t (.alloc twoPages) =
      { t with machine := machine, live := (heapMapOffset + 9 * pageSize, twoPages) :: t.live } := by
    simp only [step, hres]
    rfl
  refine ⟨root + linearMapOffset, _, (show Reachable _ _ t from ⟨s, hboot, hsteps⟩).next
    ⟨.alloc twoPages, ⟨hgoing, trivial, trivial⟩, congrArg some hstep⟩, hgoing, ?_, ?_, ?_⟩
  · rw [hlive, hboot.fresh.1]
    rfl
  · rw [virtToPhys_linear]
    exact hnull
  · rintro ⟨⟨out, hrep, hframes⟩, _⟩
    rw [virtToPhys_linear] at hframes
    exact absurd (hc.frame hrep (hframes.handedOut 10 0 (by decide) hnull)).pos (by decide)

end Kruspix.Mm.HeapRuns
