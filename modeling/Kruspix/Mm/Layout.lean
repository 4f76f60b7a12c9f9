import Mathlib.Algebra.Group.Nat.Even

/-!
# The kernel's memory layout

Addresses are numbers below 2^64. The linear map gives every physical address
below 512 GiB a virtual address at a fixed offset.
-/

namespace Kruspix.Mm.Layout

/-- The size of a page and of a page frame. -/
def pageSize : Nat := 4096

def userMapOffset : Nat := 0x0000_0000_0000_0000

/-- The linear mapping of physical memory. -/
def linearMapOffset : Nat := 0xffff_8000_0000_0000

def linearMapSize : Nat := 0x0000_1000_0000_0000

/-- The kernel heap. -/
def heapMapOffset : Nat := 0xffff_a000_0000_0000

/-- The memory-mapped peripherals. -/
def ioPeripheralsMapOffset : Nat := 0xffff_d000_0000_0000

def ioPeripheralsMapSize : Nat := 0x0000_1000_0000_0000

/-- The size of the region that one entry of a level 0 table covers. -/
def slotSize : Nat := 2 ^ 39

/-- `virt_to_phys`. -/
def virtToPhys (va : Nat) : Nat :=
  if linearMapOffset ≤ va then va - linearMapOffset else va

@[simp] theorem virtToPhys_linear (pa : Nat) : virtToPhys (pa + linearMapOffset) = pa := by
  simp [virtToPhys]

end Kruspix.Mm.Layout
