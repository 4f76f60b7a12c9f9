import Kruspix.Arch.Boot.Routines

/-!
# The first page tables

Two level 0 tables with one link each, and two level 1 tables of blocks of 1 GiB. They map the
physical addresses to themselves, and to the linear map of the kernel. The control register
limits physical addresses to 32 bits.
-/

namespace Kruspix.Arch.Boot

open Lib.A64 Lib.Masks Lib.WordMemory Lib.Radix Mm.Layout Mm.PageFrames Mmu

/-- The bits of physical addresses that `tcr_el1` allows for. -/
def physBits (tcr : Word) : Nat :=
  match (tcr.extractLsb' 32 3).toNat with
  | 0 => 32
  | 1 => 36
  | 2 => 40
  | 3 => 42
  | 4 => 44
  | 5 => 48
  | _ => 52

/-- The level 0 table for an address. Only pages of 4 KiB and addresses of 48 bits are modelled. -/
def level0Table (s : Cpu) (a : Word) : Option Word :=
  let tcr := s.sys .tcrEl1
  if a.extractLsb' 48 16 = 0x0000#16 ∧ tcr.extractLsb' 0 6 = 16#6 ∧ tcr.extractLsb' 14 2 = 0b00#2 ∧
      tcr.getLsbD 7 = false then some (s.sys .ttbr0El1)
  else if a.extractLsb' 48 16 = 0xffff#16 ∧ tcr.extractLsb' 16 6 = 16#6 ∧
      tcr.extractLsb' 30 2 = 0b10#2 ∧ tcr.getLsbD 23 = false then some (s.sys .ttbr1El1)
  else none

/-- A translation in exception level 1. An entry without the access flag faults, and so does an
address that is too large. -/
def translate (s : Cpu) (a : Word) : Option Nat := do
  let table ← level0Table s a
  let translation ← walk s.mem (table &&& addrMask).toNat a.toNat
  if translation.desc.getLsbD 10 ∧ translation.addr < 2 ^ physBits (s.sys .tcrEl1) then
    return translation.addr
  else none

/-- The translations of exception levels 2 and 3 are not modelled, and neither are those where
what can be written cannot be executed. -/
def mmu : Cpu.Mmu := fun s a =>
  let sctlr := match s.pstate.el with
    | 1 => s.sys .sctlrEl1
    | 2 => s.sys .sctlrEl2
    | _ => s.sys .sctlrEl3
  if sctlr.getLsbD 0 = false then some a.toNat
  else if s.pstate.el = 1 ∧ sctlr.getLsbD 19 = false then translate s a
  else none

/-- The block at an index, with the attributes in its lower bits. -/
def earlyBlock (attributes : Word) (i : Nat) : Word := BitVec.ofNat 64 (i * 2 ^ 30) ||| attributes

/-- The tables in the image. -/
structure InitialTables (sym : Symbols) (m : Words) : Prop where
  table0 : ∀ i, entries m sym.level0Table0.toNat i = 0
  table1 : ∀ i, entries m sym.level0Table1.toNat i = 0
  blocks0 : ∀ i, entries m sym.level1Block0.toNat i = earlyBlock 0x701 i
  blocks1 : ∀ i, entries m sym.level1Block1.toNat i = earlyBlock 0x709 i

/-- The tables as `_enable_early_mmu` leaves them. -/
structure EarlyTables (sym : Symbols) (m : Words) : Prop where
  table0 : ∀ i, entries m sym.level0Table0.toNat i =
    if i = 0 then sym.level1Block0 ||| 0b11 else 0
  table1 : ∀ i, entries m sym.level0Table1.toNat i =
    if i = 256 then sym.level1Block1 ||| 0b11 else 0
  blocks0 : ∀ i, entries m sym.level1Block0.toNat i = earlyBlock 0x701 i
  blocks1 : ∀ i, entries m sym.level1Block1.toNat i = earlyBlock 0x709 i

/-- The early translation is turned on. -/
structure Enabled (sym : Symbols) (s : Cpu) : Prop where
  level : s.pstate.el = 1
  on : (s.sys .sctlrEl1).getLsbD 0 = true
  executable : (s.sys .sctlrEl1).getLsbD 19 = false
  tcr : s.sys .tcrEl1 = 0xb5103510
  ttbr0 : s.sys .ttbr0El1 = sym.level0Table0
  ttbr1 : s.sys .ttbr1El1 = sym.level0Table1
  tables : EarlyTables sym s.mem

section Blocks

variable {m : Words} {root t : Nat} {attributes : Word} {link : Fin 512}

theorem earlyBlock_spec (i : Fin 512) (h : attributes = 0x701 ∨ attributes = 0x709) :
    earlyBlock attributes i &&& 0b11#64 = 0b01#64 ∧
      (earlyBlock attributes i &&& 0x0000_ffff_c000_0000#64).toNat = i * 2 ^ 30 ∧
      (earlyBlock attributes i).getLsbD 10 = true := by
  have hlow : BitVec.ofNat 64 (i * 2 ^ 30) &&& 0b11#64 = 0#64 :=
    ofNat_and_eq_zero (n := 30) (Nat.dvd_mul_left _ _) (by decide)
  have hlt : i.val * 2 ^ 30 < 2 ^ 48 := by omega
  refine ⟨?_, ?_, ?_⟩
  · rw [earlyBlock, BitVec.and_comm, BitVec.and_or_distrib_left, BitVec.and_comm (0b11#64), hlow]
    rcases h with rfl | rfl <;> decide
  · rw [earlyBlock, or_and_of_disjoint (by rcases h with rfl | rfl <;> decide)]
    exact toNat_ofNat_and (n := 30) (Nat.dvd_mul_left _ _) hlt (by decide) (by decide) (by decide)
  · rw [earlyBlock, BitVec.getLsbD_or]
    rcases h with rfl | rfl <;> simp

/-- One link and a table of blocks map 512 GiB. -/
theorem walk_blocks {va : Nat} (h : attributes = 0x701 ∨ attributes = 0x709)
    (hindex : level0Index va = link) (hlink : nextTable (entries m root link) = some t)
    (hblocks : ∀ i, entries m t i = earlyBlock attributes i) :
    ∃ desc, walk m root va = some ⟨va % 2 ^ 39, desc⟩ ∧ desc.getLsbD 10 = true := by
  obtain ⟨htype, haddr, haccess⟩ := earlyBlock_spec (level1Index va) h
  have hnone : nextTable (entries m t (level1Index va)) = none := by
    rw [hblocks, nextTable, if_neg]
    rw [htype]
    decide
  have hresolve : resolve nextTable (entries m) root (path va) =
      some (earlyBlock attributes (level1Index va), [level2Index va, level3Index va]) := by
    rw [path, hindex, resolve, hlink]
    simp only [resolve, hnone]
    rw [hblocks]
  refine ⟨_, ?_, haccess⟩
  rw [walk, hresolve, Option.bind_some, output, if_pos htype, haddr, level1Index, levelIndex_val]
  congr 2
  have hshift : level1Shift = 30 := rfl
  rw [hshift]
  omega

end Blocks

section Frames

variable {t : Word}

theorem frame_and (h : IsFrame t.toNat) : (t &&& addrMask).toNat = t.toNat := by
  have hlt : t.toNat < 2 ^ 48 := by
    have hreachable := h.reachable
    rw [slotSize] at hreachable
    rw [pageSize] at hreachable
    omega
  have hand : (BitVec.ofNat 64 t.toNat &&& addrMask).toNat = t.toNat :=
    toNat_ofNat_and (n := 12) h.aligned hlt (by decide) (by decide) (by decide)
  rw [BitVec.ofNat_toNat, BitVec.setWidth_eq] at hand
  exact hand

theorem nextTable_link (h : IsFrame t.toNat) : nextTable (t ||| 0b11) = some t.toNat := by
  have hlink := nextTable_tableDescriptor h
  rw [BitVec.ofNat_toNat, BitVec.setWidth_eq] at hlink
  exact hlink

end Frames

section Translate

variable {p : Nat}

theorem extract_low (hlt : p < 2 ^ 39) :
    (BitVec.ofNat 64 p : Word).extractLsb' 48 16 = 0#16 := by
  apply BitVec.eq_of_toNat_eq
  rw [BitVec.extractLsb'_toNat, BitVec.toNat_ofNat, Nat.shiftRight_eq_div_pow,
    Nat.mod_eq_of_lt (by omega : p < 2 ^ 64), Nat.div_eq_of_lt (by omega)]
  rfl

theorem linked_toNat (hlt : p < 2 ^ 39) :
    (linked (BitVec.ofNat 64 p)).toNat = linearMapOffset + p := by
  rw [linked, BitVec.toNat_add, BitVec.toNat_ofNat, Nat.mod_eq_of_lt (by omega : p < 2 ^ 64),
    Nat.add_comm]
  exact Nat.mod_eq_of_lt (by simp; omega)

theorem extract_linked (hlt : p < 2 ^ 39) :
    (linked (BitVec.ofNat 64 p)).extractLsb' 48 16 = 0xffff#16 := by
  apply BitVec.eq_of_toNat_eq
  rw [BitVec.extractLsb'_toNat, linked_toNat hlt, Nat.shiftRight_eq_div_pow, linearMapOffset]
  simp only [BitVec.toNat_ofNat]
  omega

theorem level0Index_low (hlt : p < 2 ^ 39) : level0Index p = 0 := by
  apply Fin.ext
  rw [level0Index, levelIndex_val, show level0Shift = 39 from rfl, Nat.div_eq_of_lt hlt]
  rfl

theorem level0Index_linked (hlt : p < 2 ^ 39) : level0Index (linearMapOffset + p) = 256 := by
  apply Fin.ext
  rw [level0Index, levelIndex_val, show level0Shift = 39 from rfl, linearMapOffset]
  show _ = 256
  omega

/-- What the tables say of an address, by the part of the address space it is in. -/
theorem translate_eq {table a : Word} {s : Cpu} (htable : level0Table s a = some table)
    (hframe : IsFrame table.toNat) (hwalk : ∃ desc,
      walk s.mem table.toNat a.toNat = some ⟨p, desc⟩ ∧ desc.getLsbD 10 = true)
    (htcr : s.sys .tcrEl1 = 0xb5103510) :
    translate s a = if p < 2 ^ 32 then some p else none := by
  obtain ⟨desc, hwalk, haccess⟩ := hwalk
  have hbits : physBits (s.sys .tcrEl1) = 32 := by
    rw [htcr]
    decide
  simp only [translate, htable, Option.bind_eq_bind, Option.bind_some, frame_and hframe, hwalk,
    haccess, hbits, true_and]
  rfl

end Translate

section Enabled

variable {sym : Symbols} {s : Cpu}

theorem mmu_enabled (h : Enabled sym s) (a : Word) : mmu s a = translate s a := by
  simp only [mmu, h.level, h.on, h.executable]
  simp

/-- Physical addresses are mapped to themselves and from the linear map, if they have 32 bits. -/
theorem mmu_early (h : Enabled sym s) (hplacement : sym.Placement) {p : Nat} (hlt : p < 2 ^ 39) :
    mmu s (BitVec.ofNat 64 p) = (if p < 2 ^ 32 then some p else none) ∧
      mmu s (linked (BitVec.ofNat 64 p)) = (if p < 2 ^ 32 then some p else none) := by
  have hframes := hplacement.frames
  simp only [List.forall_mem_cons] at hframes
  obtain ⟨⟨hframe0, -⟩, ⟨hframe1, -⟩, ⟨hblock0, -⟩, ⟨hblock1, -⟩, -⟩ := hframes
  rw [mmu_enabled h, mmu_enabled h]
  constructor
  · have htable : level0Table s (BitVec.ofNat 64 p) = some sym.level0Table0 := by
      rw [level0Table, h.tcr, extract_low hlt, h.ttbr0]
      exact if_pos (by decide)
    refine translate_eq htable hframe0 ?_ h.tcr
    have hlow : (BitVec.ofNat 64 p : Word).toNat = p := Nat.mod_eq_of_lt (by omega)
    have hlink := h.tables.table0 0
    rw [if_pos rfl] at hlink
    have hwalk := walk_blocks (.inl rfl) (level0Index_low hlt)
      ((congrArg nextTable hlink).trans (nextTable_link hblock0)) h.tables.blocks0
    rw [Nat.mod_eq_of_lt hlt] at hwalk
    rw [hlow]
    exact hwalk
  · have htable : level0Table s (linked (BitVec.ofNat 64 p)) = some sym.level0Table1 := by
      rw [level0Table, h.tcr, extract_linked hlt, h.ttbr1, if_neg (by decide)]
      exact if_pos (by decide)
    refine translate_eq htable hframe1 ?_ h.tcr
    have hlink := h.tables.table1 256
    rw [if_pos rfl] at hlink
    have hwalk := walk_blocks (.inr rfl) (level0Index_linked hlt)
      ((congrArg nextTable hlink).trans (nextTable_link hblock1)) h.tables.blocks1
    have hmod : (linearMapOffset + p) % 2 ^ 39 = p := by
      rw [linearMapOffset]
      omega
    rw [hmod] at hwalk
    rw [linked_toNat hlt]
    exact hwalk

end Enabled

end Kruspix.Arch.Boot
