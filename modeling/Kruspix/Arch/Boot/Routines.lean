import Kruspix.Arch.Mmu.Walk
import Kruspix.Lib.A64.Line

/-!
# The start of the kernel

The routines of `entry.rs` that run before `start_kernel`, on a core that starts in one of the
exception levels 1 to 3 with its memory management unit turned off. Addresses are physical. The
kernel is linked for the linear map, which the first page tables provide.
-/

namespace Kruspix.Arch.Boot

open Lib.A64 Lib.WordMemory Mm.Layout Mm.PageFrames

namespace Routine

/-- `_start`. -/
def start (park primary : Word) : List Instr := [.bl park, .b primary]

/-- `_park_secondary_cores`. -/
def parkSecondaryCores : List Instr :=
  [.mrs 4 .mpidrEl1, .andImm 4 4 0xff, .cbz 4 12, .wfe, .b (-4), .ret]

/-- `_start_primary`. -/
def startPrimary (el3 el2 el1 : Word) : List Instr :=
  [.mrsCurrentEl 4, .lsrImm 4 4 2, .cmpImm 4 3, .bCond .eq el3, .cmpImm 4 2, .bCond .eq el2,
    .cmpImm 4 1, .bCond .eq el1, .wfe, .b (-4)]

/-- The changes to the system control register of exception levels 2 and 3. -/
def resetControl (sctlr : SysReg) : List Instr :=
  [.mrs 4 sctlr, .bicImm 4 4 (1 <<< 0), .orrImm 4 4 (1 <<< 1), .bicImm 4 4 (1 <<< 2),
    .orrImm 4 4 (1 <<< 3), .bicImm 4 4 (1 <<< 12), .orrImm 4 4 (1 <<< 19),
    .bicImm 4 4 (1 <<< 25), .msr sctlr 4]

/-- `_start_el3`. -/
def startEl3 (primary : Word) : List Instr :=
  resetControl .sctlrEl3 ++
  [.movImm 4 (1 <<< 10 ||| 1 <<< 8 ||| 1 <<< 0), .msr .scrEl3 4, .movImm 4 (1 <<< 31),
    .msr .hcrEl2 4, .movImm 4 0, .msr .cptrEl3 4, .msr .cptrEl2 4,
    .movImm 4 (0b1111 <<< 6 ||| 0b0101), .msr .spsrEl3 4, .adr 4 primary, .msr .elrEl3 4] ++ [.eret]

/-- `_start_el2`. -/
def startEl2 (primary : Word) : List Instr :=
  resetControl .sctlrEl2 ++
  [.movImm 4 (1 <<< 31), .msr .hcrEl2 4, .movImm 4 0, .msr .cptrEl2 4,
    .movImm 4 (0b1111 <<< 6 ||| 0b0101), .msr .spsrEl2 4, .adr 5 primary, .msr .elrEl2 5] ++ [.eret]

/-- `_start_el1` up to the first call. -/
def configureEl1 (vectors : Word) : List Instr :=
  [.mov 20 0, .adr 0 vectors, .msr .vbarEl1 0, .mrs 4 .sctlrEl1, .bicImm 4 4 (1 <<< 0),
    .orrImm 4 4 (1 <<< 1), .bicImm 4 4 (1 <<< 2), .orrImm 4 4 (1 <<< 3), .orrImm 4 4 (1 <<< 4),
    .bicImm 4 4 (1 <<< 19), .bicImm 4 4 (1 <<< 24), .bicImm 4 4 (1 <<< 25),
    .bicImm 4 4 (1 <<< 26), .msr .sctlrEl1 4, .mrs 4 .cpacrEl1, .orrImm 4 4 (0b11 <<< 20),
    .msr .cpacrEl1 4]

/-- The part at `mmu_enabled`, up to the second call. -/
def mmuEnabled (vectors stackTop : Word) : List Instr :=
  [.adr 0 vectors, .msr .vbarEl1 0, .adr 0 stackTop, .movToSp 0, .movImm 29 0, .movImm 30 0]

/-- Keep the address of the device tree. -/
def keepFdtAddress (fdtAddress : Word) : List Instr := [.adr 0 fdtAddress, .str 20 (.x 0) 0]

/-- `_enable_early_mmu`. -/
def enableEarlyMmu (table0 block0 table1 block1 : Word) : List Instr :=
  [.movImm 7 0xffff800000000000, .addReg 30 30 7, .ldrLit 2 0xb5103510, .msr .tcrEl1 2,
    .adr 0 table0, .msr .ttbr0El1 0, .adr 3 block0, .orrImm 3 3 0b11, .str 3 (.x 0) 0,
    .adr 1 table1, .msr .ttbr1El1 1, .addImm 1 1 0x800, .adr 3 block1, .orrImm 3 3 0b11,
    .str 3 (.x 1) 0, .ldrLit 0 0xff4400, .msr .mairEl1 0, .isb, .mrs 0 .sctlrEl1,
    .orrImm 0 0 (1 <<< 2), .orrImm 0 0 (1 <<< 12), .orrImm 0 0 1, .msr .sctlrEl1 0] ++ [.isb, .ret]

/-- `_zero_bss`, with the values of the two symbols. -/
def zeroBss (bssStart bssEnd : Word) : List Instr :=
  [.ldrLit 4 bssStart, .ldrLit 5 bssEnd, .movImm 6 0, .cmpReg 4 5, .bCond .ge 12, .strPost 6 4 8,
    .b (-12), .ret]

end Routine

/-- Physical addresses of the image. -/
structure Symbols where
  start : Word
  parkSecondaryCores : Word
  startPrimary : Word
  startEl3 : Word
  startEl2 : Word
  startEl1 : Word
  enableEarlyMmu : Word
  zeroBss : Word
  startKernel : Word
  fdtAddress : Word
  stackTop : Word
  earlyVectorTable : Word
  level0Table0 : Word
  level0Table1 : Word
  level1Block0 : Word
  level1Block1 : Word
  bssStart : Word
  bssEnd : Word

/-- The virtual address that a symbol is linked for. -/
def linked (a : Word) : Word := a + 0xffff800000000000

/-- Instructions at a place in the first 4 GiB. -/
structure Placed (code : Code) (a : Word) (is : List Instr) : Prop where
  found : At code a.toNat is
  fits : a.toNat + 4 * is.length ≤ 2 ^ 32

namespace Symbols

/-- `_start_el1`, which calls three routines. -/
def startEl1Code (sym : Symbols) : List Instr :=
  Routine.configureEl1 (sym.earlyVectorTable - (sym.startEl1 + 4)) ++
    .bl (sym.enableEarlyMmu - (sym.startEl1 + 68)) ::
    (Routine.mmuEnabled (sym.earlyVectorTable - (sym.startEl1 + 72))
      (sym.stackTop - (sym.startEl1 + 80)) ++
    .bl (sym.zeroBss - (sym.startEl1 + 96)) ::
    (Routine.keepFdtAddress (sym.fdtAddress - (sym.startEl1 + 100)) ++
    [.bl (sym.startKernel - (sym.startEl1 + 108)), .wfe, .b (-4)]))

/-- The first level 0 table has its link at its start, the second one at index 256. -/
structure Placement (sym : Symbols) : Prop where
  frames : ∀ t ∈ [sym.level0Table0, sym.level0Table1, sym.level1Block0, sym.level1Block1],
    IsFrame t.toNat ∧ t.toNat + pageSize ≤ sym.bssStart.toNat ∧
      (sym.fdtAddress.toNat + 8 ≤ t.toNat ∨ t.toNat + pageSize ≤ sym.fdtAddress.toNat)
  distinct : [sym.level0Table0, sym.level0Table1, sym.level1Block0, sym.level1Block1].Nodup
  fdt : sym.fdtAddress.toNat % 8 = 0 ∧ sym.fdtAddress.toNat + 8 ≤ sym.bssStart.toNat
  bss : sym.bssStart.toNat % 8 = 0 ∧ sym.bssStart.toNat ≤ sym.bssEnd.toNat
  bss_fits : sym.bssEnd.toNat + 8 ≤ 2 ^ 32
  others : sym.earlyVectorTable.toNat < 2 ^ 32 ∧ sym.stackTop.toNat < 2 ^ 32 ∧
    sym.startKernel.toNat < 2 ^ 32

end Symbols

/-- The code is where the symbols say. -/
structure Loaded (sym : Symbols) (code : Code) : Prop where
  placement : sym.Placement
  start : Placed code sym.start
    (Routine.start (sym.parkSecondaryCores - sym.start) (sym.startPrimary - (sym.start + 4)))
  park : Placed code sym.parkSecondaryCores Routine.parkSecondaryCores
  primary : Placed code sym.startPrimary
    (Routine.startPrimary (sym.startEl3 - (sym.startPrimary + 12))
      (sym.startEl2 - (sym.startPrimary + 20)) (sym.startEl1 - (sym.startPrimary + 28)))
  el3 : Placed code sym.startEl3 (Routine.startEl3 (sym.startPrimary - (sym.startEl3 + 72)))
  el2 : Placed code sym.startEl2 (Routine.startEl2 (sym.startPrimary - (sym.startEl2 + 60)))
  el1 : Placed code sym.startEl1 sym.startEl1Code
  enableMmu : Placed code sym.enableEarlyMmu
    (Routine.enableEarlyMmu (sym.level0Table0 - (sym.enableEarlyMmu + 16))
      (sym.level1Block0 - (sym.enableEarlyMmu + 24)) (sym.level0Table1 - (sym.enableEarlyMmu + 36))
      (sym.level1Block1 - (sym.enableEarlyMmu + 48)))
  zeroBss : Placed code sym.zeroBss
    (Routine.zeroBss (linked sym.bssStart) (linked sym.bssEnd))

end Kruspix.Arch.Boot
