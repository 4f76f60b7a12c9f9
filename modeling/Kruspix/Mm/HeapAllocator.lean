import Kruspix.Arch.Mmu.Walk

/-!
# The heap allocator

Nine free lists hold blocks of 16 to 4096 bytes, one list for each power of two.
A node of a list lies in the free block itself. Larger requests take consecutive
fresh pages, and their blocks go to a list of their own when they are freed.

The heap's memory is virtual: a node is read and written at the physical address
that the page tables give for it.
-/

namespace Kruspix.Mm.HeapAllocator

open Lib.WordMemory Lib.Result Layout PageFrames Arch.Mmu

/-- `usize::next_power_of_two`. -/
def nextPowerOfTwo (n : Nat) : Nat := if n ≤ 1 then 1 else 2 ^ (Nat.log2 (n - 1) + 1)

/-- `usize::trailing_zeros`. -/
def trailingZeros (n : Nat) : Nat := (BitVec.ofNat 64 n).ctz.toNat

def minBlockSize : Nat := 16

/-- The number of block sizes, from the smallest to a page. -/
def headCount : Nat := trailingZeros pageSize - trailingZeros minBlockSize + 1

/-- `core::alloc::Layout`: an alignment that is a power of two, and a size that
does not exceed `isize::MAX` when it is rounded up to the alignment. -/
structure Layout where
  size : Nat
  align : Nat
  align_pow : align.isPowerOfTwo
  size_le : (size + (align - 1)) / align * align < 2 ^ 63
  deriving DecidableEq

/-- The size of the block for a request. -/
def Layout.blockSize (layout : Layout) : Nat :=
  nextPowerOfTwo (max (max layout.size layout.align) minBlockSize)

/-- The list of the free blocks of this size. -/
def Layout.headIndex (layout : Layout) : Nat :=
  trailingZeros layout.blockSize - trailingZeros minBlockSize

/-- The pages that the layout needs. -/
def Layout.pages (layout : Layout) : Nat := (layout.size + pageSize - 1) / pageSize

/-- The free lists. A null pointer is 0. -/
structure Heap where
  heads : Fin headCount → Nat
  multiPageList : Nat

def Heap.new : Heap := ⟨fun _ => 0, 0⟩

/-- Replace the head of one list. -/
def Heap.setHead (heap : Heap) (index : Fin headCount) (ptr : Nat) : Heap :=
  { heap with heads := fun i => if i = index then ptr else heap.heads i }

/-- The memory, `HEAP_MANAGER` and `HEAP_SIZE`. -/
structure Machine where
  phys : Words
  heap : Heap
  heapSize : Nat

/-- Code that runs on the machine and may stop. -/
abbrev HeapM := EStateM Panic Machine

/-- Code that runs on the memory only. -/
def onMem {α : Type} (x : Mem α) : HeapM α := fun s =>
  match x s.phys with
  | .ok a phys => .ok a { s with phys := phys }
  | .error e phys => .error e { s with phys := phys }

section Access

variable (kernelTable : Nat)

/-- Load a word. -/
def readWord (va : Nat) : HeapM (BitVec 64) := fun s =>
  match walk s.phys (virtToPhys kernelTable) va with
  | some t => .ok (s.phys t.addr) s
  | none => .error .translationFault s

/-- Store a word. -/
def writeWord (va : Nat) (w : BitVec 64) : HeapM Unit := fun s =>
  match walk s.phys (virtToPhys kernelTable) va with
  | some t => .ok () { s with phys := store s.phys t.addr w }
  | none => .error .translationFault s

end Access

variable (fr : PageFrameAllocator) (kernelTable : Nat)

/-- `alloc_heap_page`. -/
def allocHeapPage : HeapM Nat := do
  let s ← get
  let va := heapMapOffset + s.heapSize
  if 2 ^ 64 ≤ va then throw .overflow
  else do
    let frame ← onMem (allocFrame fr)
    onMem (mapPage fr kernelTable va frame)
    modify fun s => { s with heapSize := s.heapSize + pageSize }
    return va

/-- `(1..pages).for_each(|_| { alloc_heap_page(); })`, by the number of pages. -/
def allocHeapPages : Nat → HeapM Unit
  | 0 => return ()
  | pages + 1 => do
      let _ ← allocHeapPage fr kernelTable
      allocHeapPages pages

/-- Put a node at the head of a list. -/
def pushNode (index : Fin headCount) (node : Nat) : HeapM Unit := do
  let s ← get
  writeWord kernelTable node (BitVec.ofNat 64 (s.heap.heads index))
  modify fun s => { s with heap := s.heap.setHead index node }

/-- The loop of `refill_head` over the blocks from `node` on. -/
def pushNodes (index : Fin headCount) (blockSize : Nat) : Nat → Nat → HeapM Unit
  | 0, _ => return ()
  | blocks + 1, node => do
      pushNode kernelTable index node
      pushNodes index blockSize blocks (node + blockSize)

/-- `refill_head`: a fresh page is cut into blocks. -/
def refillHead (index : Fin headCount) (blockSize : Nat) : HeapM Unit := do
  let page ← allocHeapPage fr kernelTable
  pushNodes kernelTable index blockSize ((pageSize + (blockSize - 1)) / blockSize) page

/-- The loop of `init_heap` over the lists. -/
def initHeads : List (Fin headCount) → HeapM Unit
  | [] => return ()
  | index :: rest => do
      refillHead fr kernelTable index (minBlockSize <<< index.val)
      initHeads rest

/-- `init_heap`. -/
def initHeap : HeapM Unit := initHeads fr kernelTable (List.finRange headCount)

/-- The last step of `alloc`: take the first node of a list that is not empty. -/
def popNode (index : Fin headCount) : HeapM Nat := do
  let s ← get
  let allocPtr := s.heap.heads index
  let next ← readWord kernelTable allocPtr
  modify fun s => { s with heap := s.heap.setHead index next.toNat }
  return allocPtr

/-- `alloc`. -/
def alloc (layout : Layout) : HeapM Nat :=
  if pageSize < layout.align then throw .requestTooLarge
  else if h : layout.headIndex < headCount then do
    let s ← get
    if s.heap.heads ⟨layout.headIndex, h⟩ = 0 then do
      refillHead fr kernelTable ⟨layout.headIndex, h⟩ layout.blockSize
      let s ← get
      if s.heap.heads ⟨layout.headIndex, h⟩ = 0 then return 0
      else popNode kernelTable ⟨layout.headIndex, h⟩
    else popNode kernelTable ⟨layout.headIndex, h⟩
  else do
    let va ← allocHeapPage fr kernelTable
    allocHeapPages fr kernelTable (layout.pages - 1)
    return va

/-- `dealloc`. -/
def dealloc (ptr : Nat) (layout : Layout) : HeapM Unit :=
  if pageSize < layout.align then throw .requestTooLarge
  else if h : layout.headIndex < headCount then pushNode kernelTable ⟨layout.headIndex, h⟩ ptr
  else do
    writeWord kernelTable ptr (BitVec.ofNat 64 layout.pages)
    let s ← get
    writeWord kernelTable (ptr + 8) (BitVec.ofNat 64 s.heap.multiPageList)
    modify fun s => { s with heap := { s.heap with multiPageList := ptr } }

end Kruspix.Mm.HeapAllocator
