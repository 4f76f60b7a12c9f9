import Kruspix.Arch.Boot.Start

/-!
# Turning the first translation on

`_start_el1` configures the core and calls `_enable_early_mmu`, which returns to the linear map.
-/

namespace Kruspix.Arch.Boot

open Lib.A64 Lib.Masks Lib.WordMemory Mm.Layout Mm.PageFrames Mmu

section Configure

variable {sym : Symbols} {code : Code} {s : Cpu}

/-- The first argument of the firmware is kept, and the system control register is read. -/
theorem line_readControl (vectors : Word) (hlevel : s.pstate.el = 1) :
    ∃ t, s.line flat ((Routine.configureEl1 vectors).take 4) = some t ∧ t.x 20 = s.x 0 ∧
      t.mem = s.mem ∧ t.pstate = s.pstate := by
  have hsys (r : SysReg) (hr : r.level ≤ 1) : r.level ≤ s.pstate.el := hlevel ▸ hr
  simp (disch := exact hsys _ (by decide)) only [Routine.configureEl1, List.take_succ_cons,
    List.take_zero, line_mov, line_adr, line_msr, line_mrs, line_nil, Option.some.injEq,
    exists_eq_left']
  refine ⟨?_, trivial, trivial⟩
  simp

/-- The bits of the value for the system control register. -/
theorem line_controlBits (vectors : Word) :
    ∃ t, s.line flat (((Routine.configureEl1 vectors).drop 4).take 9) = some t ∧
      t.x 20 = s.x 20 ∧ (t.x 4).getLsbD 0 = false ∧ (t.x 4).getLsbD 19 = false ∧
      t.mem = s.mem ∧ t.pstate = s.pstate := by
  simp only [Routine.configureEl1, List.drop_succ_cons, List.drop_zero, List.take_succ_cons,
    List.take_zero, line_bicImm, line_orrImm, line_nil, Option.some.injEq, exists_eq_left',
    Function.update_self, Function.update_idem]
  refine ⟨?_, ?_, ?_, trivial, trivial⟩
  · simp
  · simp
  · simp

/-- The value for the system control register is put together. -/
theorem line_configureEl1 {vectors : Word} (hlevel : s.pstate.el = 1) :
    ∃ t, s.line flat ((Routine.configureEl1 vectors).take 13) = some t ∧ t.x 20 = s.x 0 ∧
      (t.x 4).getLsbD 0 = false ∧ (t.x 4).getLsbD 19 = false ∧ t.mem = s.mem ∧
      t.pstate = s.pstate := by
  obtain ⟨u, hread, hu20, humem, hupstate⟩ := line_readControl vectors hlevel
  obtain ⟨t, hbits, ht20, ht0, ht19, htmem, htpstate⟩ := line_controlBits (s := u) vectors
  have hline := Cpu.line_append flat s ((Routine.configureEl1 vectors).take 4)
    (((Routine.configureEl1 vectors).drop 4).take 9)
  rw [hread, Option.bind_some, hbits] at hline
  exact ⟨t, hline, ht20.trans hu20, ht0, ht19, htmem.trans humem, htpstate.trans hupstate⟩

/-- Access to the floating point registers. -/
theorem line_cpacr (vectors : Word) (hlevel : s.pstate.el = 1) :
    ∃ t, s.line flat ((Routine.configureEl1 vectors).drop 14) = some t ∧ t.x 20 = s.x 20 ∧
      t.sys .sctlrEl1 = s.sys .sctlrEl1 ∧ t.mem = s.mem ∧ t.pstate = s.pstate := by
  have hsys (r : SysReg) (hr : r.level ≤ 1) : r.level ≤ s.pstate.el := hlevel ▸ hr
  simp (disch := exact hsys _ (by decide)) only [Routine.configureEl1, List.drop_succ_cons,
    List.drop_zero, line_msr, line_mrs, line_orrImm, line_nil,
    Option.some.injEq, exists_eq_left', Function.update_self]
  refine ⟨?_, ?_, trivial, trivial⟩
  · simp
  · simp

/-- The core is configured, and what the firmware passes first is in `x20`. -/
theorem boots_configured (hl : Loaded sym code) (h : Ready sym.startEl1 s)
    (hlevel : s.pstate.el = 1) :
    ∃ t, Boots code s t ∧ Ready sym.enableEarlyMmu t ∧ t.x 20 = s.x 0 ∧
      t.x 30 = slot sym.startEl1 18 ∧ (t.sys .sctlrEl1).getLsbD 19 = false ∧ t.mem = s.mem ∧
      t.pstate.el = 1 := by
  obtain ⟨u, hline, hu20, hubit, huwxn, humem, hupstate⟩ := line_configureEl1 hlevel
  obtain ⟨hcontrol, hu⟩ := (ready_slot h).line hline hl.el1 ⟨_, rfl⟩ rfl rfl
  obtain ⟨v, hwrite, hv, hvx, hvmem, hvsys, hvpstate⟩ :=
    hu.write hl.el1 rfl (hupstate ▸ hlevel.ge) hubit
  have hvlevel : v.pstate.el = 1 := by rw [hvpstate, hupstate, hlevel]
  obtain ⟨w, hline', hw20, hwsys, hwmem, hwpstate⟩ := line_cpacr 0 hvlevel
  obtain ⟨hcpacr, hw⟩ := hv.line hline' hl.el1 ⟨_, rfl⟩ rfl rfl
  obtain ⟨t, hcall, ht, ht30, htx, htmem, htsys, htpstate⟩ := hw.call hl.el1 rfl
  refine ⟨t, ((hcontrol.trans hwrite).trans hcpacr).trans hcall, ht, ?_, ht30, ?_, ?_, ?_⟩
  · rw [htx 20 (by decide), hw20, hvx, hu20]
  · rw [htsys, hwsys, hvsys, Function.update_self]
    exact huwxn
  · rw [htmem, hwmem, hvmem, humem]
  · rw [htpstate, hwpstate, hvlevel]

end Configure

section Enable

variable {s : Cpu} {a : Word}

/-- The control of the translation, the first level 0 table and the link in it. -/
theorem line_table0 (table block : Word) (hlevel : s.pstate.el = 1) (hpc : s.pc = a) :
    ∃ t, s.line flat [.movImm 7 0xffff800000000000, .addReg 30 30 7, .ldrLit 2 0xb5103510,
        .msr .tcrEl1 2, .adr 0 (table - (a + 16)), .msr .ttbr0El1 0, .adr 3 (block - (a + 24)),
        .orrImm 3 3 0b11] = some t ∧
      t.x 0 = table ∧ t.x 3 = block ||| 0b11 ∧ t.x 20 = s.x 20 ∧ t.x 30 = linked (s.x 30) ∧
      t.sys .tcrEl1 = 0xb5103510 ∧ t.sys .ttbr0El1 = table ∧
      t.sys .sctlrEl1 = s.sys .sctlrEl1 ∧ t.mem = s.mem ∧ t.pstate = s.pstate := by
  have hsys (r : SysReg) (hr : r.level ≤ 1) : r.level ≤ s.pstate.el := hlevel ▸ hr
  have h4 : a + 4 + 4 + 4 + 4 = a + 16 := by
    simp only [BitVec.add_assoc]
    rfl
  have h6 : a + 16 + 4 + 4 = a + 24 := by
    simp only [BitVec.add_assoc]
    rfl
  simp (disch := exact hsys _ (by decide)) only [line_movImm, line_addReg, line_ldrLit, line_msr,
    line_adr, line_orrImm, line_nil, hpc, h4, h6, add_sub_target, Option.some.injEq,
    exists_eq_left', Function.update_self]
  simp [linked]

/-- The second level 0 table and the link in the middle of it. -/
theorem line_table1 (table block : Word) (hlevel : s.pstate.el = 1) (hpc : s.pc = a + 36) :
    ∃ t, s.line flat [.adr 1 (table - (a + 36)), .msr .ttbr1El1 1, .addImm 1 1 0x800,
        .adr 3 (block - (a + 48)), .orrImm 3 3 0b11] = some t ∧
      t.x 1 = table + 0x800 ∧ t.x 3 = block ||| 0b11 ∧ t.x 20 = s.x 20 ∧ t.x 30 = s.x 30 ∧
      t.sys .ttbr1El1 = table ∧ (∀ r, r ≠ .ttbr1El1 → t.sys r = s.sys r) ∧ t.mem = s.mem ∧
      t.pstate = s.pstate := by
  have hsys : SysReg.ttbr1El1.level ≤ s.pstate.el := hlevel.ge
  have h12 : a + 36 + 4 + 4 + 4 = a + 48 := by
    simp only [BitVec.add_assoc]
    rfl
  simp (disch := exact hsys) only [line_addImm, line_msr, line_adr, line_orrImm, line_nil, hpc,
    h12, add_sub_target, Option.some.injEq, exists_eq_left', Function.update_self]
  refine ⟨by simp, trivial, by simp, by simp, trivial, fun r hr => ?_, trivial, trivial⟩
  exact Function.update_of_ne hr _ _

/-- The memory attributes, and the value that turns the translation on. -/
theorem line_control1 (hlevel : s.pstate.el = 1) :
    ∃ t, s.line flat [.ldrLit 0 0xff4400, .msr .mairEl1 0, .isb, .mrs 0 .sctlrEl1,
        .orrImm 0 0 (1 <<< 2), .orrImm 0 0 (1 <<< 12), .orrImm 0 0 1] = some t ∧
      (t.x 0).getLsbD 0 = true ∧ (t.x 0).getLsbD 19 = (s.sys .sctlrEl1).getLsbD 19 ∧
      t.x 20 = s.x 20 ∧ t.x 30 = s.x 30 ∧ (∀ r, r ≠ .mairEl1 → t.sys r = s.sys r) ∧
      t.mem = s.mem ∧ t.pstate = s.pstate := by
  have hsys (r : SysReg) (hr : r.level ≤ 1) : r.level ≤ s.pstate.el := hlevel ▸ hr
  simp (disch := exact hsys _ (by decide)) only [line_ldrLit, line_msr, line_isb, line_mrs,
    line_orrImm, line_nil, Option.some.injEq, exists_eq_left', Function.update_self]
  refine ⟨by simp, by simp, by simp, by simp, fun r hr => ?_, trivial, trivial⟩
  exact Function.update_of_ne hr _ _

end Enable

/-- The memory with the links in the two level 0 tables. -/
def linkTables (sym : Symbols) (m : Words) : Words :=
  store (store m sym.level0Table0.toNat (sym.level1Block0 ||| 0b11))
    (sym.level0Table1 + 0x800).toNat (sym.level1Block1 ||| 0b11)

section Run

variable {sym : Symbols} {code : Code} {s : Cpu}

theorem table_toNat (hplacement : sym.Placement) : sym.level0Table0.toNat % 8 = 0 ∧
    (sym.level0Table1 + 0x800).toNat = sym.level0Table1.toNat + 8 * 256 ∧
    (sym.level0Table1 + 0x800).toNat % 8 = 0 := by
  have hframes := hplacement.frames
  simp only [List.forall_mem_cons] at hframes
  obtain ⟨⟨hframe0, -⟩, ⟨hframe1, -⟩, -⟩ := hframes
  obtain ⟨n, hn⟩ := hframe0.aligned
  obtain ⟨m, hm⟩ := hframe1.aligned
  have hreachable := hframe1.reachable
  rw [pageSize] at hn hm hreachable
  rw [slotSize] at hreachable
  have hadd : (sym.level0Table1 + 0x800).toNat = sym.level0Table1.toNat + 8 * 256 := by
    rw [BitVec.toNat_add]
    exact Nat.mod_eq_of_lt (by simp; omega)
  refine ⟨by omega, hadd, by omega⟩

theorem boots_linked (hl : Loaded sym code) (h : Ready sym.enableEarlyMmu s)
    (hlevel : s.pstate.el = 1) :
    ∃ t, Boots code s t ∧ Ready (slot sym.enableEarlyMmu 22) t ∧ t.x 20 = s.x 20 ∧
      t.x 30 = linked (s.x 30) ∧ (t.x 0).getLsbD 0 = true ∧
      (t.x 0).getLsbD 19 = (s.sys .sctlrEl1).getLsbD 19 ∧ t.sys .tcrEl1 = 0xb5103510 ∧
      t.sys .ttbr0El1 = sym.level0Table0 ∧ t.sys .ttbr1El1 = sym.level0Table1 ∧
      t.mem = linkTables sym s.mem ∧ t.pstate.el = 1 := by
  obtain ⟨halign0, -, halign1⟩ := table_toNat hl.placement
  obtain ⟨u, hline, hu0, hu3, hu20, hu30, hutcr, huttbr, husctlr, humem, hupstate⟩ :=
    line_table0 sym.level0Table0 sym.level1Block0 hlevel h.pc
  obtain ⟨hrun1, hu⟩ := (ready_slot h).line hline hl.enableMmu ⟨_, rfl⟩ rfl rfl
  obtain ⟨v, hrun2, hv, hvx, hvmem, hvsys, hvpstate⟩ :=
    hu.storeWord hl.enableMmu rfl hu0 halign0
  have hvlevel : v.pstate.el = 1 := by rw [hvpstate, hupstate, hlevel]
  obtain ⟨w, hline, hw1, hw3, hw20, hw30, hwttbr, hwsys, hwmem, hwpstate⟩ :=
    line_table1 sym.level0Table1 sym.level1Block1 hvlevel hv.pc
  obtain ⟨hrun3, hw⟩ := hv.line hline hl.enableMmu ⟨_, rfl⟩ rfl rfl
  obtain ⟨y, hrun4, hy, hyx, hymem, hysys, hypstate⟩ :=
    hw.storeWord hl.enableMmu rfl hw1 halign1
  have hylevel : y.pstate.el = 1 := by rw [hypstate, hwpstate, hvlevel]
  obtain ⟨t, hline, ht0, ht19, ht20, ht30, htsys, htmem, htpstate⟩ := line_control1 hylevel
  obtain ⟨hrun5, ht⟩ := hy.line hline hl.enableMmu ⟨_, rfl⟩ rfl rfl
  refine ⟨t, (((hrun1.trans hrun2).trans hrun3).trans hrun4).trans hrun5, ht, ?_, ?_, ht0, ?_, ?_,
    ?_, ?_, ?_, ?_⟩
  · rw [ht20, hyx, hw20, hvx, hu20]
  · rw [ht30, hyx, hw30, hvx, hu30]
  · rw [ht19, hysys, hwsys _ (by decide), hvsys, husctlr]
  · rw [htsys _ (by decide), hysys, hwsys _ (by decide), hvsys, hutcr]
  · rw [htsys _ (by decide), hysys, hwsys _ (by decide), hvsys, huttbr]
  · rw [htsys _ (by decide), hysys, hwttbr]
  · rw [htmem, hymem, hwmem, hvmem, humem, hu3, hw3]
    rfl
  · rw [htpstate, hylevel]

end Run

/-- The links make the tables of the image those of the first translation. -/
theorem earlyTables_link {sym : Symbols} {m : Words} (hplacement : sym.Placement)
    (h : InitialTables sym m) : EarlyTables sym (linkTables sym m) := by
  obtain ⟨-, hmiddle, -⟩ := table_toNat hplacement
  have hframes := hplacement.frames
  have hdistinct := hplacement.distinct
  simp only [List.forall_mem_cons] at hframes
  obtain ⟨⟨hframe0, -⟩, ⟨hframe1, -⟩, ⟨hblock0, -⟩, ⟨hblock1, -⟩, -⟩ := hframes
  simp only [List.nodup_cons, List.mem_cons, List.not_mem_nil, or_false, not_or] at hdistinct
  obtain ⟨⟨h01, h0b, h0c⟩, ⟨h1b, h1c⟩, -⟩ := hdistinct
  rw [linkTables, hmiddle]
  have hfirst (t : Nat) (ht : IsFrame t) (i : Fin 512)
      (hne : ¬ (t = sym.level0Table0.toNat ∧ i = 0)) :
      entries (store m sym.level0Table0.toNat (sym.level1Block0 ||| 0b11)) t i = entries m t i :=
    entries_store_other (i := 0) hframe0 ht hne _
  have hsecond (t : Nat) (ht : IsFrame t) (i : Fin 512) (m : Words)
      (hne : ¬ (t = sym.level0Table1.toNat ∧ i = 256)) :
      entries (store m (sym.level0Table1.toNat + 8 * 256) (sym.level1Block1 ||| 0b11)) t i =
        entries m t i :=
    entries_store_other (i := 256) hframe1 ht hne _
  have hne {a b : Word} (hab : a ≠ b) : a.toNat ≠ b.toNat := fun heq => hab (BitVec.eq_of_toNat_eq heq)
  refine ⟨fun i => ?_, fun i => ?_, fun i => ?_, fun i => ?_⟩
  · rw [hsecond _ hframe0 _ _ fun heq => hne h01 heq.1]
    by_cases hi : i = 0
    · rw [if_pos hi, hi]
      exact store_same _ _ _
    · rw [if_neg hi, hfirst _ hframe0 _ fun heq => hi heq.2]
      exact h.table0 i
  · by_cases hi : i = 256
    · rw [if_pos hi, hi]
      exact store_same _ _ _
    · rw [if_neg hi, hsecond _ hframe1 _ _ fun heq => hi heq.2,
        hfirst _ hframe1 _ fun heq => hne h01 heq.1.symm]
      exact h.table1 i
  · rw [hsecond _ hblock0 _ _ fun heq => hne h1b heq.1.symm,
      hfirst _ hblock0 _ fun heq => hne h0b heq.1.symm]
    exact h.blocks0 i
  · rw [hsecond _ hblock1 _ _ fun heq => hne h1c heq.1.symm,
      hfirst _ hblock1 _ fun heq => hne h0c heq.1.symm]
    exact h.blocks1 i

/-- The core is at an instruction, and the first translation is turned on. -/
structure Live (sym : Symbols) (a : Word) (s : Cpu) : Prop where
  pc : s.pc = a
  enabled : Enabled sym s
  masked : s.pstate.Masked

section Live

variable {sym : Symbols} {code : Code} {s t : Cpu} {a b : Word} {i : Instr} {is js : List Instr}
  {k : Nat}

theorem linked_add (a d : Word) : linked a + d = linked (a + d) := by
  rw [linked, linked, BitVec.add_assoc, BitVec.add_assoc, BitVec.add_comm d]

/-- Instructions are fetched at their physical and at their linked addresses. -/
theorem fetch_enabled (h : Enabled sym s) (hplacement : sym.Placement) (hp : Placed code a is)
    (hi : is[k]? = some i) (hpc : s.pc = slot a k ∨ s.pc = linked (slot a k)) :
    fetch mmu code s = some i := by
  obtain ⟨hk, -⟩ := List.getElem?_eq_some_iff.mp hi
  have hfits := hp.fits
  have htoNat := hp.toNat hk.le
  obtain ⟨hlow, hlinked⟩ := mmu_early h hplacement (p := (slot a k).toNat) (by omega)
  rw [BitVec.ofNat_toNat, BitVec.setWidth_eq, if_pos (by omega)] at hlow hlinked
  have hcode := hp.getElem hi
  rcases hpc with hpc | hpc
  · rw [fetch, hpc, hlow, Option.bind_some, hcode]
  · rw [fetch, hpc, hlinked, Option.bind_some, hcode]

theorem Live.one (h : Live sym (linked (slot a k)) s) (hplacement : sym.Placement)
    (hp : Placed code a is) (hi : is[k]? = some i) (hst : s.exec mmu i = some t) :
    Boots code s t :=
  ⟨1, .single h.masked ((step_of_fetch
    (fetch_enabled h.enabled hplacement hp hi (.inr h.pc))).trans hst)⟩

end Live

section Run

variable {sym : Symbols} {code : Code} {s : Cpu}

/-- The translation is turned on at a physical address, and the return goes to the linear map. -/
theorem boots_enabled (hl : Loaded sym code) (h : Ready (slot sym.enableEarlyMmu 22) s)
    (hlevel : s.pstate.el = 1) (hon : (s.x 0).getLsbD 0 = true)
    (hexecutable : (s.x 0).getLsbD 19 = false) (htcr : s.sys .tcrEl1 = 0xb5103510)
    (httbr0 : s.sys .ttbr0El1 = sym.level0Table0) (httbr1 : s.sys .ttbr1El1 = sym.level0Table1)
    (htables : EarlyTables sym s.mem) :
    ∃ t, Boots code s t ∧ Live sym (s.x 30) t ∧ t.x 20 = s.x 20 ∧ t.mem = s.mem := by
  obtain ⟨u, hwrite, hupc, hux, humem, husys, hupstate⟩ :
      ∃ u, s.exec mmu (.msr .sctlrEl1 0) = some u ∧ u.pc = s.pc + 4 ∧ u.x = s.x ∧
        u.mem = s.mem ∧ u.sys = Function.update s.sys .sctlrEl1 (s.x 0) ∧ u.pstate = s.pstate :=
    ⟨_, if_pos hlevel.ge, rfl, rfl, rfl, rfl, rfl⟩
  have hrun := h.one hl.enableMmu rfl hwrite
  have hcontrol : u.sys .sctlrEl1 = s.x 0 := by rw [husys, Function.update_self]
  have hsys (r : SysReg) (hr : r ≠ .sctlrEl1) : u.sys r = s.sys r := by
    rw [husys, Function.update_of_ne hr]
  have henabled : Enabled sym u := by
    refine ⟨hupstate ▸ hlevel, hcontrol ▸ hon, hcontrol ▸ hexecutable, ?_, ?_, ?_, humem ▸ htables⟩
    · rw [hsys _ (by decide), htcr]
    · rw [hsys _ (by decide), httbr0]
    · rw [hsys _ (by decide), httbr1]
  have hmasked : u.pstate.Masked := hupstate ▸ h.masked
  -- the core is still at the physical address
  have hpc23 : u.pc = slot sym.enableEarlyMmu 23 := by
    rw [hupc, h.pc]
    exact slot_add _ 22 1
  have hisb := fetch_enabled henabled hl.placement hl.enableMmu (k := 23) rfl (.inl hpc23)
  have hpc24 : u.next.pc = slot sym.enableEarlyMmu 24 := by
    rw [Cpu.next, hpc23]
    exact slot_add _ 23 1
  have hret := fetch_enabled (s := u.next) ⟨henabled.level, henabled.on, henabled.executable,
    henabled.tcr, henabled.ttbr0, henabled.ttbr1, henabled.tables⟩ hl.placement hl.enableMmu
    (k := 24) rfl (.inl hpc24)
  have hlast : Runs mmu code (fun v => v.pstate.Masked) 2 u { u.next with pc := s.x 30 } := by
    refine .step hmasked (step_of_fetch hisb) (.single hmasked ?_)
    rw [step_of_fetch hret, ← hux]
    rfl
  exact ⟨_, hrun.trans ⟨2, hlast⟩, ⟨rfl, ⟨henabled.level, henabled.on, henabled.executable,
    henabled.tcr, henabled.ttbr0, henabled.ttbr1, henabled.tables⟩, hmasked⟩, congrFun hux 20,
    humem⟩

end Run

end Kruspix.Arch.Boot
