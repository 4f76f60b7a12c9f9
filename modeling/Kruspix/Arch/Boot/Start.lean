import Kruspix.Arch.Boot.EarlyTables

/-!
# From the entry point to `start_kernel`

A run with the memory management unit turned off up to `_enable_early_mmu`, and behind it one
at the addresses of the linear map.
-/

namespace Kruspix.Arch.Boot

open Lib.A64 Lib.Masks Lib.WordMemory Mm.Layout Mm.PageFrames Mmu

/-- The address of the instruction `k` of a routine. -/
def slot (a : Word) (k : Nat) : Word := a + BitVec.ofNat 64 (4 * k)

theorem slot_zero (a : Word) : slot a 0 = a := BitVec.add_zero a

theorem slot_add (a : Word) (k n : Nat) : slot a k + BitVec.ofNat 64 (4 * n) = slot a (k + n) := by
  rw [slot, slot, BitVec.add_assoc, ← BitVec.ofNat_add, Nat.mul_add]

section Placed

variable {code : Code} {a : Word} {is js : List Instr} {i : Instr} {k : Nat}

theorem Placed.toNat (h : Placed code a is) (hk : k ≤ is.length) :
    (slot a k).toNat = a.toNat + 4 * k := by
  have hfits := h.fits
  rw [slot, BitVec.toNat_add, BitVec.toNat_ofNat, Nat.mod_eq_of_lt (by omega : 4 * k < 2 ^ 64)]
  exact Nat.mod_eq_of_lt (by omega)

theorem Placed.getElem (h : Placed code a is) (hi : is[k]? = some i) :
    code (slot a k).toNat = some i := by
  obtain ⟨hk, rfl⟩ := List.getElem?_eq_some_iff.mp hi
  rw [h.toNat hk.le]
  exact h.found k hk

theorem Placed.part (h : Placed code a is) (hjs : js <+: is.drop k) (hk : k ≤ is.length) :
    Placed code (slot a k) js := by
  obtain ⟨rest, hrest⟩ := hjs
  have hfits := h.fits
  have hlength := congrArg List.length hrest
  rw [List.length_append, List.length_drop] at hlength
  have hfound := h.found
  rw [← List.take_append_drop k is, ← hrest, At.append, List.length_take, Nat.min_eq_left hk,
    At.append] at hfound
  refine ⟨?_, ?_⟩
  · rw [h.toNat hk]
    exact hfound.2.1
  · rw [h.toNat hk]
    omega

end Placed

/-- The core runs with all translations turned off. -/
structure Off (s : Cpu) : Prop where
  level : 1 ≤ s.pstate.el ∧ s.pstate.el ≤ 3
  el1 : (s.sys .sctlrEl1).getLsbD 0 = false
  el2 : (s.sys .sctlrEl2).getLsbD 0 = false
  el3 : (s.sys .sctlrEl3).getLsbD 0 = false

theorem mmu_off {s : Cpu} (h : Off s) : mmu s = flat s := by
  funext a
  have hlevel := h.level
  simp only [mmu, flat]
  split
  · exact if_pos h.el1
  · exact if_pos h.el2
  · exact if_pos h.el3

/-- The instructions that do not turn a translation on, nor store two words. -/
def KeepsOff (i : Instr) : Bool :=
  i.KeepsMasks && !i.WritesSys .sctlrEl1 && !i.WritesSys .sctlrEl2 && !i.WritesSys .sctlrEl3 &&
    match i with
    | .stp _ _ _ _ => false
    | _ => true

theorem KeepsOff.keepsMasks {i : Instr} (h : KeepsOff i) : i.KeepsMasks := by
  simp only [KeepsOff, Bool.and_eq_true] at h
  exact h.1.1.1.1

section Off

variable {code : Code} {s t : Cpu} {a : Word} {i : Instr} {is : List Instr}

theorem Off.exec (h : Off s) (hi : KeepsOff i) (hst : s.exec mmu i = some t) : Off t := by
  simp only [KeepsOff, Bool.and_eq_true, Bool.not_eq_true'] at hi
  obtain ⟨⟨⟨⟨hkeeps, h1⟩, h2⟩, h3⟩, -⟩ := hi
  have heffect := Cpu.exec_effect (Instr.KeepsMasks.straight hkeeps) hst
  refine ⟨?_, ?_, ?_, ?_⟩
  · rw [PState.el, heffect.mode]
    exact h.level
  · rw [heffect.sys _ h1]
    exact h.el1
  · rw [heffect.sys _ h2]
    exact h.el2
  · rw [heffect.sys _ h3]
    exact h.el3

theorem exec_off (h : Off s) (hi : KeepsOff i) : s.exec mmu i = s.exec flat i := by
  refine Cpu.exec_congr (mmu_off h) fun t t' base imm heq => ?_
  rw [heq] at hi
  cases hi

/-- As long as nothing is turned on, addresses are physical. -/
theorem line_off (h : Off s) (his : ∀ i ∈ is, KeepsOff i) (hline : s.line flat is = some t) :
    s.line mmu is = some t ∧ Off t := by
  induction is generalizing s with
  | nil =>
      cases hline
      exact ⟨rfl, h⟩
  | cons i is ih =>
      have hi := his i List.mem_cons_self
      rw [Cpu.line, Option.bind_eq_some_iff] at hline
      obtain ⟨u, hexec, hline⟩ := hline
      rw [← exec_off h hi] at hexec
      rw [Cpu.line, hexec, Option.bind_some]
      exact ih (h.exec hi hexec) (fun j hj => his j (List.mem_cons_of_mem i hj)) hline

theorem fetch_off (h : Off s) (hpc : s.pc = a) (hcode : code a.toNat = some i) :
    fetch mmu code s = some i := by
  rw [fetch, mmu_off h, flat, hpc, Option.bind_some, hcode]

/-- A straight line with all translations turned off. -/
theorem runs_off (hp : Placed code a is) (hpc : s.pc = a) (h : Off s) (hmasked : s.pstate.Masked)
    (his : ∀ i ∈ is, KeepsOff i) (hline : s.line flat is = some t) :
    Runs mmu code (fun u => u.pstate.Masked) is.length s t ∧
      t.pc = a + BitVec.ofNat 64 (4 * is.length) ∧ Off t ∧ t.pstate.Masked := by
  obtain ⟨hmmu, hoff⟩ := line_off h his hline
  have hkeeps (i : Instr) (hi : i ∈ is) : i.KeepsMasks := KeepsOff.keepsMasks (his i hi)
  have hfetch (k : Nat) (hk : k < is.length) (u : Cpu) (hu : s.line mmu (is.take k) = some u) :
      mmu u (s.pc + BitVec.ofNat 64 (4 * k)) = some (a.toNat + 4 * k) ∧ u.pstate.Masked := by
    have htake (i : Instr) (hi : i ∈ is.take k) := his i (List.mem_of_mem_take hi)
    have huoff : Off u := Cpu.line_invariant
      (fun i hi v w hv hst => hv.exec (htake i hi) hst) h hu
    have hdaif := Cpu.line_daif (fun i hi => KeepsOff.keepsMasks (htake i hi)) hu
    refine ⟨?_, ?_⟩
    · rw [mmu_off huoff, flat, hpc]
      exact congrArg some (hp.toNat hk.le)
    · rw [PState.Masked, hdaif]
      exact hmasked
  obtain ⟨hruns, htpc⟩ := Runs.line hp.found
    (fun i hi => Instr.KeepsMasks.straight (hkeeps i hi)) hmmu hfetch
  refine ⟨hruns, hpc ▸ htpc, hoff, ?_⟩
  rw [PState.Masked, Cpu.line_daif hkeeps hmmu]
  exact hmasked

theorem Off.congr (h : Off s) (hlevel : t.pstate.el = s.pstate.el) (hsys : t.sys = s.sys) :
    Off t := by
  refine ⟨hlevel ▸ h.level, ?_, ?_, ?_⟩
  · rw [hsys]
    exact h.el1
  · rw [hsys]
    exact h.el2
  · rw [hsys]
    exact h.el3

end Off

/-- A run in which no interrupt is taken. -/
def Boots (code : Code) (s t : Cpu) : Prop :=
  ∃ n, Runs mmu code (fun u => u.pstate.Masked) n s t

theorem Boots.trans {code : Code} {s t u : Cpu} (h : Boots code s t) (h' : Boots code t u) :
    Boots code s u := by
  obtain ⟨m, h⟩ := h
  obtain ⟨n, h'⟩ := h'
  exact ⟨n + m, h.trans h'⟩

/-- The core is at an instruction. -/
structure Ready (a : Word) (s : Cpu) : Prop where
  pc : s.pc = a
  off : Off s
  masked : s.pstate.Masked

section Ready

variable {code : Code} {s t : Cpu} {a b : Word} {i : Instr} {is js : List Instr} {k : Nat}

theorem Ready.line (h : Ready (slot a k) s) (hline : s.line flat js = some t)
    (hp : Placed code a is) (hjs : js <+: is.drop k) (hk : k.ble is.length)
    (hkeeps : js.all KeepsOff) :
    Boots code s t ∧ Ready (slot a (k + js.length)) t := by
  obtain ⟨hruns, hpc, hoff, hmasked⟩ :=
    runs_off (hp.part hjs (Nat.le_of_ble_eq_true hk)) h.pc h.off h.masked (List.all_eq_true.mp hkeeps) hline
  rw [slot_add] at hpc
  exact ⟨⟨_, hruns⟩, hpc, hoff, hmasked⟩

theorem Ready.one (h : Ready (slot a k) s) (hp : Placed code a is) (hi : is[k]? = some i)
    (hst : s.exec mmu i = some t) : Boots code s t :=
  ⟨1, .single h.masked ((step_of_fetch (fetch_off h.off h.pc (hp.getElem hi))).trans hst)⟩

/-- A branch. -/
theorem Ready.jump (h : Ready (slot a k) s) (hp : Placed code a is) (hi : is[k]? = some i)
    (hst : s.exec mmu i = some { s with pc := b }) :
    Boots code s { s with pc := b } ∧ Ready b { s with pc := b } :=
  ⟨h.one hp hi hst, rfl, h.off.congr rfl rfl, h.masked⟩

/-- A call has the next instruction in the link register. -/
theorem Ready.call (h : Ready (slot a k) s) (hp : Placed code a is)
    (hi : is[k]? = some (.bl (b - slot a k))) :
    ∃ t, Boots code s t ∧ Ready b t ∧ t.x 30 = slot a (k + 1) ∧ (∀ r, r ≠ 30 → t.x r = s.x r) ∧
      t.mem = s.mem ∧ t.sys = s.sys ∧ t.pstate = s.pstate := by
  refine ⟨_, h.one hp hi (exec_bl h.pc), ⟨rfl, h.off.congr rfl rfl, h.masked⟩, ?_, fun r hr => ?_,
    rfl, rfl, rfl⟩
  · rw [← slot_add a k 1]
    exact Function.update_self (30 : Reg) _ s.x
  · exact Function.update_of_ne hr _ _

/-- A comparison and a branch. -/
theorem Ready.test {n : Reg} {imm : Word} {c : Prop} [Decidable c] (h : Ready (slot a k) s)
    (hp : Placed code a is) (hc : s.x n = imm ↔ c) (hcmp : [.cmpImm n imm] <+: is.drop k) (hk : k.ble is.length)
    (hi : is[k + 1]? = some (.bCond .eq (b - slot a (k + 1)))) :
    ∃ t, Boots code s t ∧ Ready (if c then b else slot a (k + 2)) t ∧ t.x = s.x ∧
      t.mem = s.mem ∧ t.sys = s.sys ∧ t.pstate.el = s.pstate.el := by
  obtain ⟨u, hline, hflags, hx, hmem, hsys, hlevel⟩ : ∃ u, s.line flat [.cmpImm n imm] = some u ∧
      u.pstate.nzcv = subFlags (s.x n) imm ∧ u.x = s.x ∧ u.mem = s.mem ∧ u.sys = s.sys ∧
      u.pstate.el = s.pstate.el := ⟨_, rfl, rfl, rfl, rfl, rfl, rfl⟩
  obtain ⟨hcompare, hu⟩ := h.line hline hp hcmp hk rfl
  have hupc : u.pc = slot a (k + 1) := hu.pc
  have hbranch : u.exec mmu (.bCond .eq (b - slot a (k + 1))) =
      some { u with pc := if c then b else slot a (k + 2) } := by
    rw [exec_bCond hupc, hflags, subFlags_eq, ← slot_add a (k + 1) 1]
    simp only [decide_eq_true_eq, hc]
    rfl
  obtain ⟨hjump, ht⟩ := hu.jump hp hi hbranch
  exact ⟨_, hcompare.trans hjump, ht, hx, hmem, hsys, hlevel⟩

/-- A write to a system register, after which the core is still where nothing is translated. -/
theorem Ready.write {r : SysReg} {n : Reg} (h : Ready (slot a k) s) (hp : Placed code a is)
    (hi : is[k]? = some (.msr r n)) (hlevel : r.level ≤ s.pstate.el)
    (hoff : (s.x n).getLsbD 0 = false) :
    ∃ t, Boots code s t ∧ Ready (slot a (k + 1)) t ∧ t.x = s.x ∧ t.mem = s.mem ∧
      t.sys = Function.update s.sys r (s.x n) ∧ t.pstate = s.pstate := by
  obtain ⟨t, hst, hpc, hx, hmem, hsys, hpstate⟩ : ∃ t, s.exec mmu (.msr r n) = some t ∧
      t.pc = s.pc + 4 ∧ t.x = s.x ∧ t.mem = s.mem ∧ t.sys = Function.update s.sys r (s.x n) ∧
      t.pstate = s.pstate := ⟨_, if_pos hlevel, rfl, rfl, rfl, rfl, rfl⟩
  have hbit (r' : SysReg) (hr : (s.sys r').getLsbD 0 = false) : (t.sys r').getLsbD 0 = false := by
    rw [hsys, Function.update_apply]
    split
    · exact hoff
    · exact hr
  refine ⟨t, h.one hp hi hst, ⟨?_, ⟨hpstate ▸ h.off.level, hbit _ h.off.el1, hbit _ h.off.el2,
    hbit _ h.off.el3⟩, hpstate ▸ h.masked⟩, hx, hmem, hsys, hpstate⟩
  rw [hpc, h.pc]
  exact slot_add a k 1

/-- A store to a physical address. -/
theorem Ready.storeWord {n n' : Reg} (h : Ready (slot a k) s) (hp : Placed code a is)
    (hi : is[k]? = some (.str n (.x n') 0)) (hx : s.x n' = b) (h8 : b.toNat % 8 = 0) :
    ∃ t, Boots code s t ∧ Ready (slot a (k + 1)) t ∧ t.x = s.x ∧
      t.mem = store s.mem b.toNat (s.x n) ∧ t.sys = s.sys ∧ t.pstate = s.pstate := by
  have hst : s.store mmu b (s.x n) =
      some { s with mem := store s.mem b.toNat (s.x n) } := by
    rw [Cpu.store, if_pos h8, mmu_off h.off]
    rfl
  obtain ⟨t, hexec, hpc, hx, hmem, hsys, hpstate⟩ : ∃ t, s.exec mmu (.str n (.x n') 0) = some t ∧
      t.pc = s.pc + 4 ∧ t.x = s.x ∧ t.mem = store s.mem b.toNat (s.x n) ∧
      t.sys = s.sys ∧ t.pstate = s.pstate := by
    simp only [Cpu.exec, Cpu.base, hx, Option.bind_eq_bind, Option.bind_some]
    rw [show b + 0 = b from BitVec.add_zero b, hst]
    exact ⟨_, rfl, rfl, rfl, rfl, rfl, rfl⟩
  refine ⟨t, h.one hp hi hexec, ⟨?_, h.off.congr (congrArg PState.el hpstate) hsys,
    hpstate ▸ h.masked⟩, hx, hmem, hsys, hpstate⟩
  rw [hpc, h.pc]
  exact slot_add a k 1

theorem ready_slot (h : Ready a s) : Ready (slot a 0) s := by
  rw [slot_zero]
  exact h

end Ready

/-- What the firmware passes is still there. -/
structure Passed (s t : Cpu) : Prop where
  x : ∀ r : Reg, r.val < 4 → t.x r = s.x r
  mem : t.mem = s.mem

theorem Passed.trans {s t u : Cpu} (h : Passed s t) (h' : Passed t u) : Passed s u :=
  ⟨fun r hr => (h'.x r hr).trans (h.x r hr), h'.mem.trans h.mem⟩

/-- The registers from `x4` on are all that is changed. -/
structure Kept (s t : Cpu) : Prop extends Passed s t where
  sys : t.sys = s.sys
  level : t.pstate.el = s.pstate.el

theorem Kept.trans {s t u : Cpu} (h : Kept s t) (h' : Kept t u) : Kept s u :=
  ⟨h.toPassed.trans h'.toPassed, h'.sys.trans h.sys, h'.level.trans h.level⟩

section Stages

variable {sym : Symbols} {code : Code} {s : Cpu}

theorem line_affinity (hlevel : SysReg.mpidrEl1.level ≤ s.pstate.el) :
    ∃ t, s.line flat [.mrs 4 .mpidrEl1, .andImm 4 4 0xff] = some t ∧
      t.x 4 = s.sys .mpidrEl1 &&& 0xff ∧ t.x 30 = s.x 30 ∧ Kept s t := by
  simp only [line_mrs hlevel, line_andImm, line_nil, Option.some.injEq, exists_eq_left',
    Function.update_self, true_and]
  refine ⟨rfl, ⟨fun r hr => ?_, rfl⟩, rfl, rfl⟩
  have hne : r ≠ 4 := Fin.ne_of_val_ne (by simp; omega)
  simp only [Function.update_of_ne hne]

/-- The primary core returns from `_park_secondary_cores`. -/
theorem boots_primary (hl : Loaded sym code) (h : Ready sym.start s)
    (hcore : s.sys .mpidrEl1 &&& 0xff = 0) :
    ∃ t, Boots code s t ∧ Ready sym.startPrimary t ∧ Kept s t := by
  obtain ⟨u, hcall, hu, hu30, hux, humem, husys, hupstate⟩ :=
    (ready_slot h).call (b := sym.parkSecondaryCores) hl.start (by rw [slot_zero]; rfl)
  obtain ⟨v, hline, hv4, hv30, hkept⟩ := line_affinity hu.off.level.1
  obtain ⟨hmask, hv⟩ := (ready_slot hu).line hline hl.park ⟨_, rfl⟩ rfl rfl
  have hafter : v.pc + 12 = slot sym.parkSecondaryCores 5 := by
    rw [hv.pc]
    exact slot_add _ 2 3
  have hcbz : v.exec mmu (.cbz 4 12) = some { v with pc := slot sym.parkSecondaryCores 5 } := by
    rw [Cpu.exec, hv4, husys, hafter]
    exact if_pos hcore
  obtain ⟨hskip, hw⟩ := hv.jump hl.park rfl hcbz
  have hret : Cpu.exec mmu { v with pc := slot sym.parkSecondaryCores 5 } .ret =
      some { v with pc := slot sym.start 1 } := by
    rw [Cpu.exec, hv30, hu30]
  obtain ⟨hret, hback⟩ := hw.jump hl.park rfl hret
  obtain ⟨hb, ht⟩ := hback.jump hl.start rfl (exec_b hback.pc)
  refine ⟨_, ((hcall.trans hmask).trans (hskip.trans hret)).trans hb, ht,
    ⟨fun r hr => ?_, hkept.mem.trans humem⟩, hkept.sys.trans husys, ?_⟩
  · refine (hkept.x r hr).trans (hux r (Fin.ne_of_val_ne ?_))
    simp
    omega
  · exact hkept.level.trans (congrArg PState.el hupstate)

theorem line_currentEl (hlevel : s.pstate.el ≤ 3) :
    ∃ t, s.line flat [.mrsCurrentEl 4, .lsrImm 4 4 2] = some t ∧
      t.x 4 = BitVec.ofNat 64 s.pstate.el ∧ Kept s t := by
  simp only [line_mrsCurrentEl, line_lsrImm, line_nil, Option.some.injEq, exists_eq_left',
    Function.update_self]
  refine ⟨?_, ⟨fun r hr => ?_, rfl⟩, rfl, rfl⟩
  · generalize s.pstate.el = el at hlevel
    revert hlevel
    revert el
    decide
  · have hne : r ≠ 4 := Fin.ne_of_val_ne (by simp; omega)
    simp only [Function.update_of_ne hne]

/-- The routine for the exception level. -/
def Symbols.forLevel (sym : Symbols) (el : Nat) : Word :=
  if el = 3 then sym.startEl3 else if el = 2 then sym.startEl2 else sym.startEl1

theorem boots_level (hl : Loaded sym code) (h : Ready sym.startPrimary s) :
    ∃ t, Boots code s t ∧ Ready (sym.forLevel s.pstate.el) t ∧ Kept s t := by
  obtain ⟨hlow, hhigh⟩ := h.off.level
  obtain ⟨u, hline, hu4, hkept⟩ := line_currentEl hhigh
  obtain ⟨hread, hu⟩ := (ready_slot h).line hline hl.primary ⟨_, rfl⟩ rfl rfl
  have hlevel (n : Nat) (hn : n ≤ 3) : u.x 4 = BitVec.ofNat 64 n ↔ s.pstate.el = n := by
    rw [hu4, ← BitVec.toNat_inj, BitVec.toNat_ofNat, BitVec.toNat_ofNat]
    omega
  rw [Symbols.forLevel]
  obtain ⟨v, htest3, hv, hvx, hvmem, hvsys, hvlevel⟩ :=
    hu.test (b := sym.startEl3) hl.primary (hlevel 3 le_rfl) ⟨_, rfl⟩ rfl rfl
  have hkept := hkept.trans ⟨⟨fun r _ => congrFun hvx r, hvmem⟩, hvsys, hvlevel⟩
  by_cases h3 : s.pstate.el = 3
  · rw [if_pos h3] at hv ⊢
    exact ⟨v, hread.trans htest3, hv, hkept⟩
  · rw [if_neg h3] at hv ⊢
    obtain ⟨w, htest2, hw, hwx, hwmem, hwsys, hwlevel⟩ :=
      hv.test (b := sym.startEl2) hl.primary (hvx ▸ hlevel 2 (by decide)) ⟨_, rfl⟩ rfl rfl
    have hkept := hkept.trans ⟨⟨fun r _ => congrFun hwx r, hwmem⟩, hwsys, hwlevel⟩
    by_cases h2 : s.pstate.el = 2
    · rw [if_pos h2] at hw ⊢
      exact ⟨w, (hread.trans htest3).trans htest2, hw, hkept⟩
    · rw [if_neg h2] at hw ⊢
      obtain ⟨t, htest1, ht, htx, htmem, htsys, htlevel⟩ :=
        hw.test (b := sym.startEl1) hl.primary (hwx ▸ hvx ▸ hlevel 1 (by decide)) ⟨_, rfl⟩ rfl rfl
      rw [if_pos (by omega)] at ht
      exact ⟨t, ((hread.trans htest3).trans htest2).trans htest1, ht,
        hkept.trans ⟨⟨fun r _ => congrFun htx r, htmem⟩, htsys, htlevel⟩⟩

/-- The system control register is read, and bits of it are changed. -/
theorem line_control {r : SysReg} (hlevel : r.level ≤ s.pstate.el) :
    ∃ t, s.line flat ((Routine.resetControl r).take 8) = some t ∧
      (t.x 4).getLsbD 0 = false ∧ Kept s t := by
  simp only [Routine.resetControl, List.take_succ_cons, List.take_zero, line_mrs hlevel,
    line_bicImm, line_orrImm, line_nil, Option.some.injEq, exists_eq_left', Function.update_self]
  refine ⟨by simp, ⟨fun r hr => ?_, rfl⟩, rfl, rfl⟩
  have hne : r ≠ 4 := Fin.ne_of_val_ne (by simp; omega)
  simp only [Function.update_of_ne hne]

/-- The translations of the level stay turned off. -/
theorem boots_control {a : Word} {r : SysReg} {is : List Instr}
    (hr : r = .sctlrEl2 ∨ r = .sctlrEl3) (h : Ready a s)
    (hp : Placed code a (Routine.resetControl r ++ is)) (hlevel : r.level ≤ s.pstate.el) :
    ∃ t, Boots code s t ∧ Ready (slot a 9) t ∧ Passed s t ∧ t.pstate.el = s.pstate.el := by
  have hkeeps : ((Routine.resetControl r).take 8).all KeepsOff := by
    rcases hr with rfl | rfl <;> rfl
  obtain ⟨u, hline, hbit, hkept⟩ := line_control hlevel
  obtain ⟨hread, hu⟩ := (ready_slot h).line hline hp ⟨_, rfl⟩ rfl hkeeps
  obtain ⟨t, hwrite, ht, htx, htmem, -, htpstate⟩ :=
    hu.write hp rfl (hkept.level.symm ▸ hlevel) hbit
  refine ⟨t, hread.trans hwrite, ht, hkept.toPassed.trans ⟨fun r _ => congrFun htx r, htmem⟩, ?_⟩
  rw [htpstate]
  exact hkept.level

/-- The status with exceptions masked in exception level 1. -/
def statusEl1 : Word := 0b1111 <<< 6 ||| 0b0101

/-- A return to the start of the primary core, in exception level 1. -/
theorem Ready.lower {a target : Word} {k : Nat} {is : List Instr} {elr spsr : SysReg}
    (h : Ready (slot a k) s) (hp : Placed code a is) (hi : is[k]? = some .eret)
    (hregs : returnRegs s.pstate.el = some (elr, spsr)) (helr : s.sys elr = target)
    (hspsr : s.sys spsr = statusEl1) :
    ∃ t, Boots code s t ∧ Ready target t ∧ Passed s t ∧ t.pstate.el = 1 := by
  have hel : (PState.ofWord statusEl1).el ≤ s.pstate.el := h.off.level.1
  obtain ⟨t, hret, hpc, hx, hmem, hsys, hpstate⟩ : ∃ t, s.exec mmu .eret = some t ∧
      t.pc = target ∧ t.x = s.x ∧ t.mem = s.mem ∧ t.sys = s.sys ∧
      t.pstate = PState.ofWord statusEl1 := by
    simp only [Cpu.exec, hregs, Option.bind_eq_bind, Option.bind_some, helr, hspsr]
    exact ⟨_, if_pos hel, rfl, rfl, rfl, rfl, rfl⟩
  refine ⟨t, h.one hp hi hret, ⟨hpc, ⟨?_, ?_, ?_, ?_⟩, ?_⟩, ⟨fun r _ => congrFun hx r, hmem⟩, ?_⟩
  · rw [hpstate]
    decide
  · exact hsys ▸ h.off.el1
  · exact hsys ▸ h.off.el2
  · exact hsys ▸ h.off.el3
  · rw [hpstate]
    decide
  · rw [hpstate]
    decide

/-- What comes before the return, in exception levels 3 and 2. -/
theorem line_el3 {primary : Word} (hel : s.pstate.el = 3) :
    ∃ t, s.line flat (((Routine.startEl3 primary).drop 9).take 11) = some t ∧
      t.sys .elrEl3 = s.pc + BitVec.ofNat 64 (4 * 9) + primary ∧ t.sys .spsrEl3 = statusEl1 ∧
      Passed s t ∧ t.pstate = s.pstate := by
  have hlevel (r : SysReg) : r.level ≤ s.pstate.el := by
    rw [hel]
    cases r <;> decide
  simp (disch := exact hlevel _) only [Routine.startEl3, Routine.resetControl, List.cons_append,
    List.nil_append, List.drop_succ_cons, List.drop_zero, List.take_succ_cons, List.take_zero,
    line_movImm, line_msr, line_adr, line_nil, Option.some.injEq, exists_eq_left',
    Function.update_self]
  refine ⟨?_, ?_, ⟨fun r hr => ?_, rfl⟩, trivial⟩
  · have hpc : s.pc + 4 + 4 + 4 + 4 + 4 + 4 + 4 + 4 + 4 = s.pc + BitVec.ofNat 64 (4 * 9) := by
      simp only [BitVec.add_assoc]
      rfl
    rw [hpc]
  · simp
    rfl
  · have hne : r ≠ 4 := Fin.ne_of_val_ne (by simp; omega)
    simp only [Function.update_of_ne hne]

theorem line_el2 {primary : Word} (hel : s.pstate.el = 2) :
    ∃ t, s.line flat (((Routine.startEl2 primary).drop 9).take 8) = some t ∧
      t.sys .elrEl2 = s.pc + BitVec.ofNat 64 (4 * 6) + primary ∧ t.sys .spsrEl2 = statusEl1 ∧
      Passed s t ∧ t.pstate = s.pstate := by
  have hlevel (r : SysReg) (hr : r.level ≤ 2) : r.level ≤ s.pstate.el := hel ▸ hr
  simp (disch := exact hlevel _ (by decide)) only [Routine.startEl2, Routine.resetControl, List.cons_append,
    List.nil_append, List.drop_succ_cons, List.drop_zero, List.take_succ_cons, List.take_zero,
    line_movImm, line_msr, line_adr, line_nil, Option.some.injEq, exists_eq_left',
    Function.update_self]
  refine ⟨?_, ?_, ⟨fun r hr => ?_, rfl⟩, trivial⟩
  · have hpc : s.pc + 4 + 4 + 4 + 4 + 4 + 4 = s.pc + BitVec.ofNat 64 (4 * 6) := by
      simp only [BitVec.add_assoc]
      rfl
    rw [hpc]
  · simp
    rfl
  · have hne : r ≠ 4 := Fin.ne_of_val_ne (by simp; omega)
    have hne' : r ≠ 5 := Fin.ne_of_val_ne (by simp; omega)
    simp only [Function.update_of_ne hne, Function.update_of_ne hne']

/-- Exception levels 3 and 2 are left for exception level 1. -/
theorem boots_lower (hl : Loaded sym code) (h : Ready sym.startPrimary s)
    (hne : s.pstate.el ≠ 1) :
    ∃ t, Boots code s t ∧ Ready sym.startPrimary t ∧ Passed s t ∧ t.pstate.el = 1 := by
  obtain ⟨u, hdispatch, hu, hkept⟩ := boots_level hl h
  obtain ⟨hlow, hhigh⟩ := h.off.level
  by_cases h3 : s.pstate.el = 3
  · have hu3 : u.pstate.el = 3 := hkept.level.trans h3
    rw [Symbols.forLevel, if_pos h3] at hu
    obtain ⟨v, hcontrol, hv, hvpassed, hvlevel⟩ :=
      boots_control (.inr rfl) hu hl.el3 (hu3.ge : SysReg.sctlrEl3.level ≤ _)
    obtain ⟨w, hline, helr, hspsr, hwpassed, hwpstate⟩ := line_el3 (hvlevel.trans hu3)
    obtain ⟨hrest, hw⟩ := hv.line hline hl.el3 ⟨_, rfl⟩ rfl rfl
    rw [hv.pc, slot_add] at helr
    have hregs : returnRegs w.pstate.el = some (.elrEl3, .spsrEl3) := by
      rw [hwpstate, hvlevel, hu3]
      rfl
    obtain ⟨t, heret, ht, htpassed, htlevel⟩ :=
      hw.lower hl.el3 rfl hregs (helr.trans (add_sub_target _ _)) hspsr
    exact ⟨t, ((hdispatch.trans hcontrol).trans hrest).trans heret, ht,
      ((hkept.toPassed.trans hvpassed).trans hwpassed).trans htpassed, htlevel⟩
  · have h2 : s.pstate.el = 2 := by omega
    have hu2 : u.pstate.el = 2 := hkept.level.trans h2
    rw [Symbols.forLevel, if_neg h3, if_pos h2] at hu
    obtain ⟨v, hcontrol, hv, hvpassed, hvlevel⟩ :=
      boots_control (.inl rfl) hu hl.el2 (hu2.ge : SysReg.sctlrEl2.level ≤ _)
    obtain ⟨w, hline, helr, hspsr, hwpassed, hwpstate⟩ := line_el2 (hvlevel.trans hu2)
    obtain ⟨hrest, hw⟩ := hv.line hline hl.el2 ⟨_, rfl⟩ rfl rfl
    rw [hv.pc, slot_add] at helr
    have hregs : returnRegs w.pstate.el = some (.elrEl2, .spsrEl2) := by
      rw [hwpstate, hvlevel, hu2]
      rfl
    obtain ⟨t, heret, ht, htpassed, htlevel⟩ :=
      hw.lower hl.el2 rfl hregs (helr.trans (add_sub_target _ _)) hspsr
    exact ⟨t, ((hdispatch.trans hcontrol).trans hrest).trans heret, ht,
      ((hkept.toPassed.trans hvpassed).trans hwpassed).trans htpassed, htlevel⟩

/-- The primary core gets to exception level 1. -/
theorem boots_el1 (hl : Loaded sym code) (h : Ready sym.startPrimary s) :
    ∃ t, Boots code s t ∧ Ready sym.startEl1 t ∧ Passed s t ∧ t.pstate.el = 1 := by
  by_cases h1 : s.pstate.el = 1
  · obtain ⟨t, hdispatch, ht, hkept⟩ := boots_level hl h
    rw [h1] at ht
    exact ⟨t, hdispatch, ht, hkept.toPassed, hkept.level.trans h1⟩
  · obtain ⟨u, hlower, hu, hupassed, hulevel⟩ := boots_lower hl h h1
    obtain ⟨t, hdispatch, ht, hkept⟩ := boots_level hl hu
    rw [hulevel] at ht
    exact ⟨t, hlower.trans hdispatch, ht, hupassed.trans hkept.toPassed,
      hkept.level.trans hulevel⟩

end Stages

end Kruspix.Arch.Boot
