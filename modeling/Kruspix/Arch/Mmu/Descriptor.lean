import Kruspix.Lib.Masks
import Kruspix.Mm.Layout

/-!
# Translation table descriptors

A descriptor is a word. Its low two bits tell its type at a level, its address
field names a table, a block or a page frame, and the other bits are attributes.
-/

namespace Kruspix.Arch.Mmu

open Lib.Masks Mm.Layout

/-- The address field of a table or page descriptor. -/
def addrMask : BitVec 64 := 0x0000_ffff_ffff_f000#64

/-- The lowest bit of the index of each level. -/
def pageShift : Nat := 12
def level3Shift : Nat := pageShift
def level2Shift : Nat := level3Shift + 9
def level1Shift : Nat := level2Shift + 9
def level0Shift : Nat := level1Shift + 9

/-- The ways in which the memory code stops: its panics, and the fault of an
access to an address that has no translation. -/
inductive Panic where
  /-- A null pointer is dereferenced. -/
  | nullPointer
  /-- An `assert!` does not hold. -/
  | assertion
  /-- An addition overflows. -/
  | overflow
  /-- A block descriptor at level 0 or 3. -/
  | invalidBlock
  /-- `Unexpected descriptor type`. -/
  | unexpectedDescriptor
  /-- `Mapping pages in linear region is not supported`. -/
  | linearRegion
  /-- `Unsupported virtual address region for mapping`. -/
  | unsupportedRegion
  /-- `todo!()` for user addresses. -/
  | userAddress
  /-- `allocation request too large`. -/
  | requestTooLarge
  /-- A translation fault. -/
  | translationFault
  deriving DecidableEq, Repr

/-- The four levels of a translation with pages of 4 KiB. -/
inductive TranslationLevel where
  | level0
  | level1
  | level2
  | level3
  deriving DecidableEq, Repr

/-- `(va >> shift) & 0x1FF`, an index into a table of 512 entries. -/
def levelIndex (shift va : Nat) : Fin 512 :=
  ⟨(va >>> shift) &&& 0x1FF, Nat.and_lt_two_pow _ (n := 9) (by decide)⟩

/-- The index in the table of each level. -/
def level0Index (va : Nat) : Fin 512 := levelIndex level0Shift va
def level1Index (va : Nat) : Fin 512 := levelIndex level1Shift va
def level2Index (va : Nat) : Fin 512 := levelIndex level2Shift va
def level3Index (va : Nat) : Fin 512 := levelIndex level3Shift va

theorem levelIndex_val (shift va : Nat) : (levelIndex shift va).val = va / 2 ^ shift % 512 := by
  change (va >>> shift) &&& (2 ^ 9 - 1) = _
  rw [Nat.and_two_pow_sub_one_eq_mod, Nat.shiftRight_eq_div_pow]

def level0LinearIndex : Fin 512 := level0Index linearMapOffset
def level0HeapIndex : Fin 512 := level0Index heapMapOffset
def level0IoIndex : Fin 512 := level0Index ioPeripheralsMapOffset

/-- The type of a descriptor. -/
inductive Descriptor where
  | table
  | block
  | page
  | invalid
  deriving DecidableEq, Repr

/-- `Descriptor::from`. -/
def Descriptor.ofValue (value : BitVec 64) (level : TranslationLevel) : Except Panic Descriptor :=
  if value &&& 0b11#64 = 0b11#64 then
    match level with
    | .level0 | .level1 | .level2 => .ok .table
    | .level3 => .ok .page
  else if value &&& 0b11#64 = 0b01#64 then
    match level with
    | .level0 | .level3 => .error .invalidBlock
    | .level1 | .level2 => .ok .block
  else .ok .invalid

/-- The fields of a descriptor. -/
def executeNever : BitVec 64 := 1#64 <<< 54
def accessFlag : BitVec 64 := 1#64 <<< 10
def shareability : BitVec 64 := 3#64 <<< 8
def attrIndex : BitVec 64 := 7#64 <<< 2

/-- Who shares a mapped page. -/
inductive ShareabilityAttribute where
  | nonShareable
  | outerShareable
  | innerShareable
  deriving DecidableEq, Repr

/-- The two bits of the SH field. -/
def ShareabilityAttribute.value : ShareabilityAttribute → BitVec 64
  | .nonShareable => 0b00#64
  | .outerShareable => 0b10#64
  | .innerShareable => 0b11#64

/-- The kinds of memory, as the entries of MAIR_EL1. -/
inductive MemoryRegionAttrIndex where
  | deviceNgnRnE
  | normalNonCacheable
  | normalWriteBackNonTransientReadWriteAlloc
  deriving DecidableEq, Repr

/-- The index of the entry in MAIR_EL1. -/
def MemoryRegionAttrIndex.value : MemoryRegionAttrIndex → BitVec 64
  | .deviceNgnRnE => 0b000#64
  | .normalNonCacheable => 0b001#64
  | .normalWriteBackNonTransientReadWriteAlloc => 0b010#64

/-- Set or clear the bit that forbids execution. -/
def setExecuteNever (desc : BitVec 64) (xn : Bool) : BitVec 64 :=
  if xn then desc ||| executeNever else desc &&& ~~~executeNever

/-- Set or clear the access flag. -/
def setAccessed (desc : BitVec 64) (accessed : Bool) : BitVec 64 :=
  if accessed then desc ||| accessFlag else desc &&& ~~~accessFlag

/-- Replace the SH field. -/
def setShareability (desc : BitVec 64) (attr : ShareabilityAttribute) : BitVec 64 :=
  desc &&& ~~~shareability ||| attr.value <<< 8

/-- Replace the index of the memory attributes. -/
def setMemAttrIndex (desc : BitVec 64) (index : MemoryRegionAttrIndex) : BitVec 64 :=
  desc &&& ~~~attrIndex ||| index.value <<< 2

/-- `BlockDescriptor::new_level_1` of an aligned address, as its assertion demands. -/
def BlockDescriptor.newLevel1 (outputAddr : Nat) (_ : 2 ^ level1Shift ∣ outputAddr) : BitVec 64 :=
  BitVec.ofNat 64 outputAddr ||| 0b01#64

/-- `PageDescriptor::new`. -/
def PageDescriptor.new (outputAddr : Nat) : Except Panic (BitVec 64) :=
  if outputAddr % pageSize = 0 then .ok (BitVec.ofNat 64 outputAddr ||| 0b11#64)
  else .error .assertion

/-- `TableDescriptor::new`. -/
def TableDescriptor.new (nextLevelTableAddr : Nat) : Except Panic (BitVec 64) :=
  if nextLevelTableAddr % pageSize = 0 then .ok (BitVec.ofNat 64 nextLevelTableAddr ||| 0b11#64)
  else .error .assertion

/-- The block of 1 GiB that entry `index` of a level 1 table maps to itself. -/
def identityBlock (attr : MemoryRegionAttrIndex) (index : Nat) : BitVec 64 :=
  setMemAttrIndex
    (setExecuteNever
      (setAccessed
        (setShareability
          (BlockDescriptor.newLevel1 (index * 2 ^ level1Shift) (Nat.dvd_mul_left _ _))
          .innerShareable) true) false) attr

/-- The attributes `map_page` gives to a page. -/
def pageAttributes (attr : MemoryRegionAttrIndex) (desc : BitVec 64) : BitVec 64 :=
  setMemAttrIndex
    (setExecuteNever (setAccessed (setShareability desc .innerShareable) true) true) attr

section Setters

variable {d k : BitVec 64}

/-! Each setter leaves the fields alone that it does not name. -/

theorem setExecuteNever_and {xn : Bool} (h : executeNever &&& k = 0#64) :
    setExecuteNever d xn &&& k = d &&& k := by
  cases xn with
  | false => exact and_not_and_of_disjoint h
  | true => exact or_and_of_disjoint h

theorem setAccessed_and {accessed : Bool} (h : accessFlag &&& k = 0#64) :
    setAccessed d accessed &&& k = d &&& k := by
  cases accessed with
  | false => exact and_not_and_of_disjoint h
  | true => exact or_and_of_disjoint h

theorem setShareability_and {attr : ShareabilityAttribute} (h : shareability &&& k = 0#64) :
    setShareability d attr &&& k = d &&& k := by
  have hv : attr.value <<< 8 &&& k = 0#64 := by
    have hsub : attr.value <<< 8 &&& shareability = attr.value <<< 8 := by cases attr <;> decide
    rw [← hsub, BitVec.and_assoc, h, BitVec.and_zero]
  rw [setShareability, or_and_of_disjoint hv, and_not_and_of_disjoint h]

theorem MemoryRegionAttrIndex.value_and (attr : MemoryRegionAttrIndex) :
    attr.value <<< 2 &&& attrIndex = attr.value <<< 2 := by
  cases attr <;> decide

theorem setMemAttrIndex_and {attr : MemoryRegionAttrIndex} (h : attrIndex &&& k = 0#64) :
    setMemAttrIndex d attr &&& k = d &&& k := by
  have hv : attr.value <<< 2 &&& k = 0#64 := by
    rw [← attr.value_and, BitVec.and_assoc, h, BitVec.and_zero]
  rw [setMemAttrIndex, or_and_of_disjoint hv, and_not_and_of_disjoint h]

end Setters

/-- A page descriptor that is accessed, execute-never and of a memory type. -/
structure IsPage (desc : BitVec 64) (attr : MemoryRegionAttrIndex) : Prop where
  page : desc &&& 0b11#64 = 0b11#64
  accessed : desc &&& accessFlag = accessFlag
  executeNever : desc &&& executeNever = executeNever
  memAttr : desc &&& attrIndex = attr.value <<< 2

/-- `map_page` writes such a descriptor. -/
theorem isPage_pageAttributes (attr : MemoryRegionAttrIndex) (pa : Nat) :
    IsPage (pageAttributes attr (BitVec.ofNat 64 pa ||| 0b11#64)) attr := by
  refine ⟨?_, ?_, ?_, replace_and_same attr.value_and⟩
  · rw [pageAttributes, setMemAttrIndex_and (by decide), setExecuteNever_and (by decide),
      setAccessed_and (by decide), setShareability_and (by decide)]
    exact or_and_eq_right (by decide)
  · rw [pageAttributes, setMemAttrIndex_and (by decide), setExecuteNever_and (by decide)]
    exact or_and_eq_right (by decide)
  · rw [pageAttributes, setMemAttrIndex_and (by decide)]
    exact or_and_eq_right (by decide)

/-- Its address field holds the frame. -/
theorem pageAttributes_addr (attr : MemoryRegionAttrIndex) {pa : Nat} (h : pageSize ∣ pa)
    (hlt : pa < 2 ^ 48) :
    (pageAttributes attr (BitVec.ofNat 64 pa ||| 0b11#64) &&& addrMask).toNat = pa := by
  rw [pageAttributes, setMemAttrIndex_and (by decide), setExecuteNever_and (by decide),
    setAccessed_and (by decide), setShareability_and (by decide), or_and_of_disjoint (by decide)]
  exact toNat_ofNat_and (n := 12) h hlt (by decide) (by decide) (by decide)

/-- The address field of a table descriptor holds the table. -/
theorem tableDescriptor_addr {pa : Nat} (h : pageSize ∣ pa) (hlt : pa < 2 ^ 48) :
    ((BitVec.ofNat 64 pa ||| 0b11#64) &&& addrMask).toNat = pa := by
  rw [or_and_of_disjoint (by decide)]
  exact toNat_ofNat_and (n := 12) h hlt (by decide) (by decide) (by decide)

/-- An identity block is a block. -/
theorem identityBlock_type (attr : MemoryRegionAttrIndex) (index : Nat) :
    identityBlock attr index &&& 0b11#64 = 0b01#64 := by
  have hlow : BitVec.ofNat 64 (index * 2 ^ level1Shift) &&& 0b11#64 = 0#64 :=
    ofNat_and_eq_zero (n := 30) (Nat.dvd_mul_left _ _) (by decide)
  rw [identityBlock, setMemAttrIndex_and (by decide), setExecuteNever_and (by decide),
    setAccessed_and (by decide), setShareability_and (by decide), BlockDescriptor.newLevel1,
    BitVec.and_comm, BitVec.and_or_distrib_left, BitVec.and_comm (0b11#64), hlow]
  decide

/-- Its address field holds the address of the block. -/
theorem identityBlock_addr (attr : MemoryRegionAttrIndex) {index : Nat} (h : index < 2 ^ 18) :
    (identityBlock attr index &&& 0x0000_ffff_c000_0000#64).toNat = index * 2 ^ level1Shift := by
  have hlt : index * 2 ^ level1Shift < 2 ^ 48 := by
    simp only [level1Shift, level2Shift, level3Shift, pageShift]
    omega
  rw [identityBlock, setMemAttrIndex_and (by decide), setExecuteNever_and (by decide),
    setAccessed_and (by decide), setShareability_and (by decide), BlockDescriptor.newLevel1,
    or_and_of_disjoint (by decide)]
  exact toNat_ofNat_and (n := 30) (Nat.dvd_mul_left _ _) hlt (by decide) (by decide) (by decide)

end Kruspix.Arch.Mmu
