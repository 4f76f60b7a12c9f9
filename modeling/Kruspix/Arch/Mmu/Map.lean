import Kruspix.Arch.Mmu.Descriptor
import Kruspix.Lib.Result
import Kruspix.Mm.PageFrames

/-!
# Page tables

A page table is a page of 512 descriptors. The kernel reaches it at its virtual
address in the linear map. Page tables are pages from the frame allocator and
are created when a mapping needs them.

The functions below run on physical memory. A panic keeps the memory it finds.
The frame allocator is a parameter, and so is the address of the kernel's level
0 table once `setup_page_tables` has published it.
-/

namespace Kruspix.Arch.Mmu

open Lib.WordMemory Lib.Result Mm.Layout Mm.PageFrames

/-- Code that runs on physical memory and may panic. -/
abbrev Mem := EStateM Panic Words

/-- `phys_to_virt`. -/
def physToVirt (pa : Nat) : Except Panic Nat :=
  if pa + linearMapOffset < 2 ^ 64 then .ok (pa + linearMapOffset) else .error .overflow

variable (fr : PageFrameAllocator)

/-- The function `alloc_frame`: a frame, or null. The allocator may fault at a null pointer of
its own. -/
def allocFrame : Mem Nat := fun phys =>
  match fr.allocFrame phys with
  | some (frame, phys) => .ok frame phys
  | none => .error .nullPointer phys

variable {fr} in
theorem allocFrame_ok {phys phys' : Words} {frame : Nat}
    (h : fr.allocFrame phys = some (frame, phys')) : allocFrame fr phys = .ok frame phys' := by
  rw [allocFrame, h]

/-- `alloc_page`: the linear address of a frame, or null. -/
def allocPage : Mem Nat := do
  let frame ← allocFrame fr
  if frame = 0 then return 0
  else ofExcept (physToVirt frame)

def pageTableEntries : Nat := pageSize / 8

namespace PageTable

/-- `PageTable::new`: a page of zeros. The reference to a null page panics. -/
def new : Mem Nat := do
  let table ← allocPage fr
  if table = 0 then throw .nullPointer
  else do
    modify fun phys => storeRange phys (virtToPhys table) pageTableEntries 0#64
    return table

/-- The physical address of a table. -/
def physAddr (table : Nat) : Nat := virtToPhys table

/-- Read an entry of a table through the linear map. -/
def getDescriptor (table : Nat) (index : Fin 512) : Mem (BitVec 64) := do
  let phys ← get
  return phys (virtToPhys table + 8 * index)

/-- Write an entry of a table through the linear map. -/
def setDescriptor (table : Nat) (index : Fin 512) (desc : BitVec 64) : Mem Unit :=
  modify fun phys => store phys (virtToPhys table + 8 * index) desc

/-- The loop that maps the first 512 GiB to themselves by blocks. -/
def fillIdentity (table : Nat) (attr : MemoryRegionAttrIndex) : Mem Unit :=
  modify fun phys => storeEach phys (virtToPhys table) pageTableEntries (identityBlock attr)

end PageTable

/-- `TableDescriptor::next_level_table`. -/
def TableDescriptor.nextLevelTable (desc : BitVec 64) : Except Panic Nat :=
  physToVirt (desc &&& addrMask).toNat

/-- `get_or_create_next_leve_table`. -/
def getOrCreateNextLevelTable (table : Nat) (index : Fin 512) (level : TranslationLevel) :
    Mem Nat := do
  let value ← PageTable.getDescriptor table index
  let descriptor ← ofExcept (Descriptor.ofValue value level)
  let tableDesc ← match descriptor with
    | .invalid => do
        let newTable ← PageTable.new fr
        let newDesc ← ofExcept (TableDescriptor.new (PageTable.physAddr newTable))
        PageTable.setDescriptor table index newDesc
        PageTable.getDescriptor table index
    | .table => PageTable.getDescriptor table index
    | _ => throw .unexpectedDescriptor
  ofExcept (TableDescriptor.nextLevelTable tableDesc)

/-- The page descriptor of `map_page`, by the region of the virtual address. -/
def regionDescriptor (va pa : Nat) : Except Panic (BitVec 64) :=
  if level0Index va = level0LinearIndex then .error .linearRegion
  else if level0Index va = level0HeapIndex then
    (PageDescriptor.new pa).map (pageAttributes .normalWriteBackNonTransientReadWriteAlloc)
  else if level0Index va = level0IoIndex then
    (PageDescriptor.new pa).map (pageAttributes .deviceNgnRnE)
  else .error .unsupportedRegion

/-- `map_page`. -/
def mapPage (kernelTable va pa : Nat) : Mem Unit :=
  if va < 0xffff_0000_0000_0000 then throw .userAddress
  else do
    let pageDesc ← ofExcept (regionDescriptor va pa)
    if kernelTable = 0 then throw .nullPointer
    else do
      let level1Table ← getOrCreateNextLevelTable fr kernelTable (level0Index va) .level0
      let level2Table ← getOrCreateNextLevelTable fr level1Table (level1Index va) .level1
      let level3Table ← getOrCreateNextLevelTable fr level2Table (level2Index va) .level2
      PageTable.setDescriptor level3Table (level3Index va) pageDesc

/-- The loop of `map_io_region` over the pages from `va` and `pa`. -/
def mapPages (kernelTable : Nat) : Nat → Nat → Nat → Mem Unit
  | 0, _, _ => return ()
  | pages + 1, va, pa => do
      mapPage fr kernelTable va pa
      mapPages kernelTable pages (va + pageSize) (pa + pageSize)

/-- `map_io_region`. -/
def mapIoRegion (kernelTable pa size : Nat) : Mem Nat :=
  if 2 ^ 64 ≤ ioPeripheralsMapOffset + pa + size then throw .overflow
  else if ioPeripheralsMapOffset + ioPeripheralsMapSize < ioPeripheralsMapOffset + pa + size then
    throw .assertion
  else do
    let va := ioPeripheralsMapOffset + pa
    -- `pa & !(PAGE_SIZE - 1)`
    let paAligned := pa / pageSize * pageSize
    let vaAligned := ioPeripheralsMapOffset + paAligned
    let sizeAdjusted := size + (pa - paAligned)
    mapPages fr kernelTable ((sizeAdjusted + (pageSize - 1)) / pageSize) vaAligned paAligned
    return va

/-- `setup_page_tables`: the addresses of the user's and the kernel's table. -/
def setupPageTables : Mem (Nat × Nat) := do
  let userTable0 ← PageTable.new fr
  let kernelTable0 ← PageTable.new fr
  let userTable1 ← PageTable.new fr
  PageTable.fillIdentity userTable1 .deviceNgnRnE
  let descUserTable1 ← ofExcept (TableDescriptor.new (PageTable.physAddr userTable1))
  PageTable.setDescriptor userTable0 (level0Index userMapOffset) descUserTable1
  let kernelTable1Linear ← PageTable.new fr
  let descKernelTable1Linear ←
    ofExcept (TableDescriptor.new (PageTable.physAddr kernelTable1Linear))
  let kernelTable1Heap ← PageTable.new fr
  let descKernelTable1Heap ← ofExcept (TableDescriptor.new (PageTable.physAddr kernelTable1Heap))
  let kernelTable1Io ← PageTable.new fr
  let descKernelTable1Io ← ofExcept (TableDescriptor.new (PageTable.physAddr kernelTable1Io))
  PageTable.setDescriptor kernelTable0 level0LinearIndex descKernelTable1Linear
  PageTable.setDescriptor kernelTable0 level0HeapIndex descKernelTable1Heap
  PageTable.setDescriptor kernelTable0 level0IoIndex descKernelTable1Io
  PageTable.fillIdentity kernelTable1Linear .normalWriteBackNonTransientReadWriteAlloc
  return (userTable0, kernelTable0)

end Kruspix.Arch.Mmu
