import Kruspix.Arch.Boot.EarlyMmu

/-!
# The call of `start_kernel`

The rest of `_start_el1` runs in the linear map: the stack, the `.bss` section and the address of
the device tree.
-/

namespace Kruspix.Arch.Boot

open Lib.A64 Lib.WordMemory Mm.Layout Mm.PageFrames Mmu

/-- The instructions that leave the translation alone, and do not store. -/
def KeepsOn (i : Instr) : Bool :=
  i.KeepsMasks && !i.Stores && !i.WritesSys .sctlrEl1 && !i.WritesSys .tcrEl1 &&
    !i.WritesSys .ttbr0El1 && !i.WritesSys .ttbr1El1

theorem KeepsOn.keepsMasks {i : Instr} (h : KeepsOn i) : i.KeepsMasks := by
  simp only [KeepsOn, Bool.and_eq_true] at h
  exact h.1.1.1.1.1

section Live

variable {sym : Symbols} {code : Code} {s t : Cpu} {a b : Word} {i : Instr} {is js : List Instr}
  {k : Nat}

theorem Enabled.congr (h : Enabled sym s) (hlevel : t.pstate.el = s.pstate.el)
    (hsys : ∀ r ∈ [SysReg.sctlrEl1, .tcrEl1, .ttbr0El1, .ttbr1El1], t.sys r = s.sys r)
    (htables : EarlyTables sym t.mem) : Enabled sym t := by
  simp only [List.forall_mem_cons] at hsys
  obtain ⟨hsctlr, htcr, httbr0, httbr1, -⟩ := hsys
  exact ⟨hlevel.trans h.level, hsctlr ▸ h.on, hsctlr ▸ h.executable, htcr.trans h.tcr,
    httbr0.trans h.ttbr0, httbr1.trans h.ttbr1, htables⟩

theorem Enabled.exec (h : Enabled sym s) (hi : KeepsOn i) (hst : s.exec mmu i = some t) :
    Enabled sym t := by
  have hkeeps := KeepsOn.keepsMasks hi
  simp only [KeepsOn, Bool.and_eq_true, Bool.not_eq_true'] at hi
  obtain ⟨⟨⟨⟨⟨-, hstores⟩, hsctlr⟩, htcr⟩, httbr0⟩, httbr1⟩ := hi
  have heffect := Cpu.exec_effect (Instr.KeepsMasks.straight hkeeps) hst
  refine h.congr (congrArg (fun m : BitVec 4 => (m >>> 2).toNat) heffect.mode) ?_
    (heffect.mem hstores ▸ h.tables)
  simp only [List.forall_mem_cons]
  exact ⟨heffect.sys _ hsctlr, heffect.sys _ htcr, heffect.sys _ httbr0, heffect.sys _ httbr1,
    nofun⟩

/-- A straight line at addresses of the linear map. -/
theorem Live.line (h : Live sym (linked (slot a k)) s) (hline : s.line mmu js = some t)
    (hplacement : sym.Placement) (hp : Placed code a is) (hjs : js <+: is.drop k)
    (hk : k.ble is.length) (hkeeps : js.all KeepsOn) :
    Boots code s t ∧ Live sym (linked (slot a (k + js.length))) t := by
  have hpart := hp.part hjs (Nat.le_of_ble_eq_true hk)
  have hkeeps := List.all_eq_true.mp hkeeps
  have hmasks (i : Instr) (hi : i ∈ js) : i.KeepsMasks := KeepsOn.keepsMasks (hkeeps i hi)
  have hfits := hpart.fits
  have hfetch (n : Nat) (hn : n < js.length) (u : Cpu) (hu : s.line mmu (js.take n) = some u) :
      mmu u (s.pc + BitVec.ofNat 64 (4 * n)) = some ((slot a k).toNat + 4 * n) ∧
        u.pstate.Masked := by
    have htake (i : Instr) (hi : i ∈ js.take n) := hkeeps i (List.mem_of_mem_take hi)
    have henabled : Enabled sym u := Cpu.line_invariant
      (fun i hi v w hv hst => hv.exec (htake i hi) hst) h.enabled hu
    have hdaif := Cpu.line_daif (fun i hi => KeepsOn.keepsMasks (htake i hi)) hu
    have htoNat := hpart.toNat hn.le
    have hmap := (mmu_early henabled hplacement (p := (slot (slot a k) n).toNat) (by omega)).2
    rw [BitVec.ofNat_toNat, BitVec.setWidth_eq, if_pos (by omega), htoNat] at hmap
    refine ⟨?_, ?_⟩
    · rw [h.pc, linked_add]
      exact hmap
    · rw [PState.Masked, hdaif]
      exact h.masked
  obtain ⟨hruns, hpc⟩ := Runs.line hpart.found
    (fun i hi => Instr.KeepsMasks.straight (hmasks i hi)) hline hfetch
  refine ⟨⟨_, hruns⟩, ?_, ?_, ?_⟩
  · rw [hpc, h.pc, linked_add, slot_add]
  · exact Cpu.line_invariant (fun i hi v w hv hst => hv.exec (hkeeps i hi) hst) h.enabled hline
  · rw [PState.Masked, Cpu.line_daif hmasks hline]
    exact h.masked

/-- A branch. -/
theorem Live.jump (h : Live sym (linked (slot a k)) s) (hplacement : sym.Placement)
    (hp : Placed code a is) (hi : is[k]? = some i) (hst : s.exec mmu i = some { s with pc := b }) :
    Boots code s { s with pc := b } ∧ Live sym b { s with pc := b } :=
  ⟨h.one hplacement hp hi hst, rfl, h.enabled.congr rfl (fun _ _ => rfl) h.enabled.tables,
    h.masked⟩

/-- A call has the next instruction in the link register. -/
theorem Live.call (h : Live sym (linked (slot a k)) s) (hplacement : sym.Placement)
    (hp : Placed code a is) (hi : is[k]? = some (.bl (b - slot a k))) :
    ∃ t, Boots code s t ∧ Live sym (linked b) t ∧ t.x 30 = linked (slot a (k + 1)) ∧
      (∀ r, r ≠ 30 → t.x r = s.x r) ∧ t.mem = s.mem ∧ t.sys = s.sys ∧ t.sp = s.sp := by
  obtain ⟨t, hst, hpc, hx, hmem, hsys, hpstate, hsp⟩ : ∃ t,
      s.exec mmu (.bl (b - slot a k)) = some t ∧ t.pc = linked b ∧
        t.x = Function.update s.x 30 (linked (slot a (k + 1))) ∧ t.mem = s.mem ∧ t.sys = s.sys ∧
        t.pstate = s.pstate ∧ t.sp = s.sp := by
    refine ⟨_, rfl, ?_, ?_, rfl, rfl, rfl, rfl⟩
    · show s.pc + (b - slot a k) = _
      rw [h.pc, linked_add, add_sub_target]
    · rw [← slot_add a k 1, ← linked_add, ← h.pc]
      rfl
  refine ⟨t, h.one hplacement hp hi hst, ⟨hpc, ?_, hpstate ▸ h.masked⟩, ?_, fun r hr => ?_, hmem,
    hsys, hsp⟩
  · exact h.enabled.congr (congrArg PState.el hpstate) (fun r _ => congrFun hsys r)
      (hmem ▸ h.enabled.tables)
  · rw [hx, Function.update_self]
  · rw [hx, Function.update_of_ne hr]

/-- A store outside of the tables. -/
theorem EarlyTables.stored {m : Words} {p : Nat} (h : EarlyTables sym m)
    (hp : ∀ t ∈ [sym.level0Table0, sym.level0Table1, sym.level1Block0, sym.level1Block1],
      p < t.toNat ∨ t.toNat + pageSize ≤ p) (w : Word) :
    EarlyTables sym (store m p w) := by
  have hentry {t : Word} (ht : p < t.toNat ∨ t.toNat + pageSize ≤ p) (i : Fin 512) :
      entries (store m p w) t.toNat i = entries m t.toNat i := by
    have hlt := entry_lt t.toNat i
    exact store_other _ _ (by omega)
  simp only [List.forall_mem_cons] at hp
  obtain ⟨h0, h1, hb0, hb1, -⟩ := hp
  refine ⟨fun i => ?_, fun i => ?_, fun i => ?_, fun i => ?_⟩
  · rw [hentry h0]
    exact h.table0 i
  · rw [hentry h1]
    exact h.table1 i
  · rw [hentry hb0]
    exact h.blocks0 i
  · rw [hentry hb1]
    exact h.blocks1 i

/-- A store of a word to the linear map, which leaves the tables as they are. -/
theorem Live.storeWord {n : Reg} {p : Nat} (h : Live sym (linked (slot a k)) s)
    (hplacement : sym.Placement) (hlt : p < 2 ^ 32) (h8 : p % 8 = 0)
    (htables : ∀ t ∈ [sym.level0Table0, sym.level0Table1, sym.level1Block0, sym.level1Block1],
      p < t.toNat ∨ t.toNat + pageSize ≤ p) :
    s.store mmu (linked (BitVec.ofNat 64 p)) (s.x n) =
        some { s with mem := store s.mem p (s.x n) } ∧
      EarlyTables sym (store s.mem p (s.x n)) := by
  have hlinked := linked_toNat (p := p) (by omega)
  refine ⟨?_, h.enabled.tables.stored htables _⟩
  rw [Cpu.store, (mmu_early h.enabled hplacement (by omega)).2, if_pos hlt, if_pos]
  · rfl
  · rw [hlinked, linearMapOffset]
    omega

end Live

section Kernel

variable {sym : Symbols} {code : Code} {s : Cpu}

/-- The vectors and the stack at their linked addresses. -/
theorem line_mmuEnabled {a : Word} (vectors stackTop : Word) (hlevel : s.pstate.el = 1)
    (hpc : s.pc = linked (slot a 18)) :
    ∃ t, s.line mmu (Routine.mmuEnabled (vectors - (a + 72)) (stackTop - (a + 80))) = some t ∧
      t.sp = linked stackTop ∧ t.sys .vbarEl1 = linked vectors ∧ t.x 20 = s.x 20 ∧
      t.mem = s.mem := by
  have hsys : SysReg.vbarEl1.level ≤ s.pstate.el := hlevel.ge
  have h0 : linked (slot a 18) + (vectors - (a + 72)) = linked vectors := by
    rw [linked_add]
    exact congrArg linked (add_sub_target (a + 72) vectors)
  have h2 : linked (slot a 18) + 4 + 4 + (stackTop - (a + 80)) = linked stackTop := by
    have h20 : slot a 18 + 4 + 4 = slot a 20 := by
      rw [BitVec.add_assoc]
      exact slot_add a 18 2
    rw [linked_add, linked_add, linked_add, h20]
    exact congrArg linked (add_sub_target (a + 80) stackTop)
  simp (disch := first | exact hsys | exact hlevel) only [Routine.mmuEnabled, line_adr, line_msr,
    line_movToSp, line_movImm, line_nil, hpc, h0, h2, Option.some.injEq, exists_eq_left',
    Function.update_self]
  simp

/-- The words of the `.bss` section. The last one may lie in it by a part only. -/
def Symbols.bssWords (sym : Symbols) : Nat := (sym.bssEnd.toNat - sym.bssStart.toNat + 7) / 8

/-- The loop of `_zero_bss` after `i` turns, with the address that it returns to. -/
structure Zeroing (sym : Symbols) (back : Word) (s : Cpu) (i : Nat) (t : Cpu) : Prop where
  live : Live sym (linked (slot sym.zeroBss 3)) t
  next : t.x 4 = linked (BitVec.ofNat 64 (sym.bssStart.toNat + 8 * i))
  stop : t.x 5 = linked sym.bssEnd
  zero : t.x 6 = 0
  back : t.x 30 = back
  fdt : t.x 20 = s.x 20
  mem : t.mem = storeRange s.mem sym.bssStart.toNat i 0
  sys : t.sys = s.sys
  sp : t.sp = s.sp

theorem linked_le {p q : Nat} (hp : p < 2 ^ 39) (hq : q < 2 ^ 39) :
    (linked (BitVec.ofNat 64 p)).msb = (linked (BitVec.ofNat 64 q)).msb ∧
      (linked (BitVec.ofNat 64 p) ≤ linked (BitVec.ofNat 64 q) ↔ p ≤ q) := by
  refine ⟨?_, ?_⟩
  · rw [BitVec.msb_eq_decide, BitVec.msb_eq_decide, linked_toNat hp, linked_toNat hq,
      linearMapOffset, decide_eq_decide]
    simp only [Nat.add_one_sub_one]
    omega
  · rw [BitVec.le_def, linked_toNat hp, linked_toNat hq]
    omega

/-- The comparison at the head of the loop. -/
theorem Zeroing.test {back : Word} {i : Nat} {t : Cpu} (hl : Loaded sym code)
    (h : Zeroing sym back s i t) (hi : i ≤ sym.bssWords) :
    ∃ u, Boots code t u ∧
      Live sym (linked (slot sym.zeroBss (if i = sym.bssWords then 7 else 5))) u ∧ u.x = t.x ∧
      u.mem = t.mem ∧ u.sys = t.sys ∧ u.sp = t.sp := by
  have hfits := hl.placement.bss_fits
  obtain ⟨halign, hle⟩ := hl.placement.bss
  rw [Symbols.bssWords] at hi ⊢
  obtain ⟨u, hline, hflags, hx, hmem, hsys, hlevel, hsp⟩ : ∃ u, t.line mmu [.cmpReg 4 5] = some u ∧
      u.pstate.nzcv = subFlags (t.x 4) (t.x 5) ∧ u.x = t.x ∧ u.mem = t.mem ∧ u.sys = t.sys ∧
      u.pstate.el = t.pstate.el ∧ u.sp = t.sp := ⟨_, rfl, rfl, rfl, rfl, rfl, rfl, rfl⟩
  obtain ⟨hcompare, hu⟩ := h.live.line hline hl.placement hl.zeroBss ⟨_, rfl⟩ rfl rfl
  have hend : sym.bssEnd = BitVec.ofNat 64 sym.bssEnd.toNat := by
    rw [BitVec.ofNat_toNat, BitVec.setWidth_eq]
  obtain ⟨hmsb, hcmp⟩ := linked_le (p := sym.bssEnd.toNat) (q := sym.bssStart.toNat + 8 * i)
    (by omega) (by omega)
  have hholds : Cond.ge.holds u.pstate.nzcv =
      decide (i = (sym.bssEnd.toNat - sym.bssStart.toNat + 7) / 8) := by
    rw [hflags, h.next, h.stop, hend, subFlags_ge hmsb.symm, decide_eq_decide, hcmp,
      BitVec.toNat_ofNat, Nat.mod_eq_of_lt (by omega)]
    omega
  have hbranch : u.exec mmu (.bCond .ge 12) = some { u with pc := linked (slot sym.zeroBss
      (if i = (sym.bssEnd.toNat - sym.bssStart.toNat + 7) / 8 then 7 else 5)) } := by
    have hpc : u.pc = linked (slot sym.zeroBss 4) := hu.pc
    rw [Cpu.exec, hholds, Cpu.next, hpc, linked_add, linked_add]
    simp only [decide_eq_true_eq]
    split
    · rw [← slot_add sym.zeroBss 4 3]
      rfl
    · rw [← slot_add sym.zeroBss 4 1]
      rfl
  obtain ⟨hjump, hv⟩ := hu.jump hl.placement hl.zeroBss rfl hbranch
  exact ⟨_, hcompare.trans hjump, hv, hx, hmem, hsys, hsp⟩

/-- A turn of the loop zeroes one word. -/
theorem Zeroing.turn {back : Word} {i : Nat} {t : Cpu} (hl : Loaded sym code)
    (h : Zeroing sym back s i t) (hi : i < sym.bssWords) :
    ∃ u, Boots code t u ∧ Zeroing sym back s (i + 1) u := by
  have hfits := hl.placement.bss_fits
  obtain ⟨halign, hle⟩ := hl.placement.bss
  obtain ⟨u, htest, hu, hux, humem, husys, husp⟩ := h.test hl hi.le
  rw [if_neg hi.ne] at hu
  rw [Symbols.bssWords] at hi
  have htables : ∀ t ∈ [sym.level0Table0, sym.level0Table1, sym.level1Block0, sym.level1Block1],
      sym.bssStart.toNat + 8 * i < t.toNat ∨ t.toNat + pageSize ≤ sym.bssStart.toNat + 8 * i := by
    intro t ht
    have hbelow := (hl.placement.frames t ht).2.1
    omega
  obtain ⟨hstore, hkept⟩ := hu.storeWord (n := 6) hl.placement (by omega) (by omega) htables
  have hnext : u.x 4 = linked (BitVec.ofNat 64 (sym.bssStart.toNat + 8 * i)) :=
    (congrFun hux 4).trans h.next
  rw [← hnext] at hstore
  obtain ⟨v, hst, hvpc, hvx, hvmem, hvsys, hvpstate, hvsp⟩ : ∃ v,
      u.exec mmu (.strPost 6 4 8) = some v ∧ v.pc = u.pc + 4 ∧
        v.x = Function.update u.x 4 (u.x 4 + 8) ∧
        v.mem = store u.mem (sym.bssStart.toNat + 8 * i) (u.x 6) ∧ v.sys = u.sys ∧
        v.pstate = u.pstate ∧ v.sp = u.sp := by
    simp only [Cpu.exec, Option.bind_eq_bind, hstore, Option.bind_some]
    exact ⟨_, rfl, rfl, rfl, rfl, rfl, rfl, rfl⟩
  have hrun := hu.one hl.placement hl.zeroBss rfl hst
  have hv : Live sym (linked (slot sym.zeroBss 6)) v := by
    refine ⟨?_, ?_, hvpstate ▸ hu.masked⟩
    · rw [hvpc, hu.pc, linked_add]
      exact congrArg linked (slot_add _ 5 1)
    · exact hu.enabled.congr (congrArg PState.el hvpstate) (fun r _ => congrFun hvsys r)
        (hvmem ▸ hkept)
  have hbranch : v.exec mmu (.b (-12)) =
      some { v with pc := linked (slot sym.zeroBss 3) } := by
    have hback : slot sym.zeroBss 6 + -12 = slot sym.zeroBss 3 := by
      rw [← slot_add sym.zeroBss 3 3, BitVec.add_assoc]
      exact BitVec.add_zero _
    rw [Cpu.exec, hv.pc, linked_add, hback]
  obtain ⟨hjump, hw⟩ := hv.jump hl.placement hl.zeroBss rfl hbranch
  have hother (r : Reg) (hr : r ≠ 4) : v.x r = t.x r := by
    rw [hvx, Function.update_of_ne hr, hux]
  refine ⟨_, (htest.trans hrun).trans hjump, hw, ?_, (hother 5 (by decide)).trans h.stop,
    (hother 6 (by decide)).trans h.zero, (hother 30 (by decide)).trans h.back,
    (hother 20 (by decide)).trans h.fdt, ?_, (hvsys.trans husys).trans h.sys,
    (hvsp.trans husp).trans h.sp⟩
  · show v.x 4 = _
    rw [hvx, Function.update_self, hnext, linked_add, Nat.mul_succ, ← Nat.add_assoc]
    exact congrArg linked (BitVec.ofNat_add _ 8).symm
  · show v.mem = _
    rw [hvmem, humem, h.mem, hux, h.zero]
    exact storeRange_succ _ _ _ _

theorem Zeroing.turns {back : Word} (hl : Loaded sym code) {i : Nat} {t : Cpu}
    (h : Zeroing sym back s i t) (hi : i ≤ sym.bssWords) :
    ∃ u, Boots code t u ∧ Zeroing sym back s sym.bssWords u := by
  induction hn : sym.bssWords - i generalizing i t with
  | zero =>
      have hend : i = sym.bssWords := by omega
      exact ⟨t, ⟨0, .refl t⟩, hend ▸ h⟩
  | succ n ih =>
      obtain ⟨u, hturn, hu⟩ := h.turn hl (by omega)
      obtain ⟨v, hrest, hv⟩ := ih hu (by omega) (by omega)
      exact ⟨v, hturn.trans hrest, hv⟩

/-- The section is zero, and the caller goes on. -/
theorem boots_zeroBss (hl : Loaded sym code) (h : Live sym (linked sym.zeroBss) s) :
    ∃ t, Boots code s t ∧ Live sym (s.x 30) t ∧ t.x 20 = s.x 20 ∧
      t.mem = storeRange s.mem sym.bssStart.toNat sym.bssWords 0 ∧ t.sys = s.sys ∧ t.sp = s.sp := by
  obtain ⟨u, hline, hu4, hu5, hu6, hu30, hu20, humem, husys, husp⟩ : ∃ u, s.line mmu
      [.ldrLit 4 (linked sym.bssStart), .ldrLit 5 (linked sym.bssEnd), .movImm 6 0] = some u ∧
      u.x 4 = linked sym.bssStart ∧ u.x 5 = linked sym.bssEnd ∧ u.x 6 = 0 ∧ u.x 30 = s.x 30 ∧
      u.x 20 = s.x 20 ∧ u.mem = s.mem ∧ u.sys = s.sys ∧ u.sp = s.sp :=
    ⟨_, rfl, rfl, rfl, rfl, rfl, rfl, rfl, rfl, rfl⟩
  have hslot : Live sym (linked (slot sym.zeroBss 0)) s := by
    rw [slot_zero]
    exact h
  obtain ⟨hinit, hu⟩ := hslot.line hline hl.placement hl.zeroBss ⟨_, rfl⟩ rfl rfl
  have hzero : Zeroing sym (s.x 30) s 0 u := by
    refine ⟨hu, ?_, hu5, hu6, hu30, hu20, ?_, husys, husp⟩
    · rw [hu4, Nat.mul_zero, Nat.add_zero, BitVec.ofNat_toNat, BitVec.setWidth_eq]
    · rw [humem, storeRange_zero]
  obtain ⟨v, hloop, hv⟩ := hzero.turns hl (Nat.zero_le _)
  obtain ⟨w, htest, hw, hwx, hwmem, hwsys, hwsp⟩ := hv.test hl le_rfl
  rw [if_pos rfl] at hw
  have hret : w.exec mmu .ret = some { w with pc := s.x 30 } := by
    rw [Cpu.exec, hwx, hv.back]
  obtain ⟨hback, ht⟩ := hw.jump hl.placement hl.zeroBss rfl hret
  exact ⟨_, ((hinit.trans hloop).trans htest).trans hback, ht, (congrFun hwx 20).trans hv.fdt,
    hwmem.trans hv.mem, hwsys.trans hv.sys, hwsp.trans hv.sp⟩

/-- The memory when `start_kernel` is called. -/
def bootMemory (sym : Symbols) (fdt : Word) (m : Words) : Words :=
  store (storeRange (linkTables sym m) sym.bssStart.toNat sym.bssWords 0) sym.fdtAddress.toNat fdt

theorem boots_kernel (hl : Loaded sym code) (h : Live sym (linked (slot sym.startEl1 18)) s) :
    ∃ t, Boots code s t ∧ Live sym (linked sym.startKernel) t ∧ t.sp = linked sym.stackTop ∧
      t.sys .vbarEl1 = linked sym.earlyVectorTable ∧
      t.mem = store (storeRange s.mem sym.bssStart.toNat sym.bssWords 0) sym.fdtAddress.toNat
        (s.x 20) := by
  obtain ⟨u, hline, husp, huvbar, hu20, humem⟩ :=
    line_mmuEnabled sym.earlyVectorTable sym.stackTop h.enabled.level h.pc
  obtain ⟨hrun1, hu⟩ := h.line hline hl.placement hl.el1 ⟨_, rfl⟩ rfl rfl
  obtain ⟨v, hcall, hv, hv30, hvx, hvmem, hvsys, hvsp⟩ :=
    hu.call (b := sym.zeroBss) hl.placement hl.el1 rfl
  obtain ⟨w, hzero, hw, hw20, hwmem, hwsys, hwsp⟩ := boots_zeroBss hl hv
  rw [hv30] at hw
  -- the address of the device tree
  obtain ⟨y, hline, hy0, hy20, hymem, hysys, hysp⟩ : ∃ y, w.line mmu
      [.adr 0 (sym.fdtAddress - (sym.startEl1 + 100))] = some y ∧
      y.x 0 = w.pc + (sym.fdtAddress - (sym.startEl1 + 100)) ∧ y.x 20 = w.x 20 ∧ y.mem = w.mem ∧
      y.sys = w.sys ∧ y.sp = w.sp := ⟨_, rfl, rfl, rfl, rfl, rfl, rfl⟩
  obtain ⟨hrun2, hy⟩ := hw.line hline hl.placement hl.el1 ⟨_, rfl⟩ rfl rfl
  have hfdt : y.x 0 = linked (BitVec.ofNat 64 sym.fdtAddress.toNat) := by
    rw [hy0, hw.pc, linked_add, BitVec.ofNat_toNat, BitVec.setWidth_eq]
    exact congrArg linked (add_sub_target (sym.startEl1 + 100) sym.fdtAddress)
  obtain ⟨halign, hbelow⟩ := hl.placement.fdt
  obtain ⟨-, hle⟩ := hl.placement.bss
  have hfits := hl.placement.bss_fits
  obtain ⟨hstore, hkept⟩ := hy.storeWord (n := 20) hl.placement (by omega) halign fun t ht => by
    have happart := (hl.placement.frames t ht).2.2
    omega
  rw [← hfdt] at hstore
  obtain ⟨z, hst, hzpc, hzmem, hzsys, hzpstate, hzsp⟩ : ∃ z, y.exec mmu (.str 20 (.x 0) 0) = some z ∧
      z.pc = y.pc + 4 ∧ z.mem = store y.mem sym.fdtAddress.toNat (y.x 20) ∧ z.sys = y.sys ∧
      z.pstate = y.pstate ∧ z.sp = y.sp := by
    simp only [Cpu.exec, Cpu.base, Option.bind_eq_bind, Option.bind_some]
    rw [show y.x 0 + 0 = y.x 0 from BitVec.add_zero _, hstore]
    exact ⟨_, rfl, rfl, rfl, rfl, rfl, rfl⟩
  have hrun3 := hy.one hl.placement hl.el1 rfl hst
  have hz : Live sym (linked (slot sym.startEl1 27)) z := by
    refine ⟨?_, ?_, hzpstate ▸ hy.masked⟩
    · rw [hzpc, hy.pc, linked_add]
      exact congrArg linked (slot_add _ 26 1)
    · exact hy.enabled.congr (congrArg PState.el hzpstate) (fun r _ => congrFun hzsys r)
        (hzmem ▸ hkept)
  obtain ⟨t, hlast, ht, -, -, htmem, htsys, htsp⟩ :=
    hz.call (b := sym.startKernel) hl.placement hl.el1 rfl
  refine ⟨t, ((((hrun1.trans hcall).trans hzero).trans hrun2).trans hrun3).trans hlast, ht, ?_, ?_,
    ?_⟩
  · rw [htsp, hzsp, hysp, hwsp, hvsp, husp]
  · rw [htsys, hzsys, hysys, hwsys, hvsys, huvbar]
  · rw [htmem, hzmem, hymem, hwmem, hvmem, humem, hy20, hw20, hvx 20 (by decide), hu20]

/-- What `start_kernel` relies on. -/
structure Started (sym : Symbols) (s t : Cpu) : Prop where
  live : Live sym (linked sym.startKernel) t
  sp : t.sp = linked sym.stackTop
  vectors : t.sys .vbarEl1 = linked sym.earlyVectorTable
  fdt : t.mem sym.fdtAddress.toNat = s.x 0
  bss : ∀ i < sym.bssWords, t.mem (sym.bssStart.toNat + 8 * i) = 0
  others : ∀ b, b ≠ sym.fdtAddress.toNat → b ≠ sym.level0Table0.toNat →
    b ≠ sym.level0Table1.toNat + 0x800 →
    b < sym.bssStart.toNat ∨ sym.bssStart.toNat + 8 * sym.bssWords ≤ b → t.mem b = s.mem b
  mapped : ∀ p < 2 ^ 39, mmu t (BitVec.ofNat 64 p) = (if p < 2 ^ 32 then some p else none) ∧
    mmu t (linked (BitVec.ofNat 64 p)) = (if p < 2 ^ 32 then some p else none)

theorem started_of_mem {t : Cpu} (hplacement : sym.Placement)
    (hlive : Live sym (linked sym.startKernel) t) (hsp : t.sp = linked sym.stackTop)
    (hvectors : t.sys .vbarEl1 = linked sym.earlyVectorTable)
    (hmem : t.mem = bootMemory sym (s.x 0) s.mem) : Started sym s t := by
  obtain ⟨-, hmiddle, -⟩ := table_toNat hplacement
  have hbelow := hplacement.fdt.2
  refine ⟨hlive, hsp, hvectors, ?_, fun i hi => ?_, fun b hfdt h0 h1 hb => ?_,
    fun p hp => mmu_early hlive.enabled hplacement hp⟩
  · rw [hmem]
    exact store_same _ _ _
  · rw [hmem, bootMemory, store_other _ _ (by omega)]
    exact storeRange_in _ _ _ hi
  · rw [hmem, bootMemory, store_other _ _ hfdt, storeRange_out _ _ hb, linkTables,
      store_other _ _ (by omega), store_other _ _ h0]

/-- A core that is not the first one waits. -/
theorem runs_parked (hl : Loaded sym code) (h : Ready sym.start s)
    (hcore : s.sys .mpidrEl1 &&& 0xff ≠ 0) :
    ∃ t, Boots code s t ∧ Ready (slot sym.parkSecondaryCores 3) t ∧ t.mem = s.mem := by
  obtain ⟨u, hcall, hu, -, -, humem, husys, -⟩ :=
    (ready_slot h).call (b := sym.parkSecondaryCores) hl.start (by rw [slot_zero]; rfl)
  obtain ⟨v, hline, hv4, -, hkept⟩ := line_affinity hu.off.level.1
  obtain ⟨hmask, hv⟩ := (ready_slot hu).line hline hl.park ⟨_, rfl⟩ rfl rfl
  have hcbz : v.exec mmu (.cbz 4 12) = some { v with pc := slot sym.parkSecondaryCores 3 } := by
    rw [Cpu.exec, hv4, husys, if_neg hcore, Cpu.next, hv.pc]
    exact congrArg (fun pc => some { v with pc := pc }) (slot_add _ 2 1)
  obtain ⟨hwait, ht⟩ := hv.jump hl.park rfl hcbz
  exact ⟨_, (hcall.trans hmask).trans hwait, ht, hkept.mem.trans humem⟩

/-- The two instructions of the parking loop. -/
structure Parked (sym : Symbols) (m : Words) (t : Cpu) : Prop where
  ready : Ready (slot sym.parkSecondaryCores 3) t ∨ Ready (slot sym.parkSecondaryCores 4) t
  mem : t.mem = m

theorem Parked.step {m : Words} (hl : Loaded sym code) (h : Parked sym m s) :
    ∃ t, Runs mmu code (fun u => u.pstate.Masked) 1 s t ∧ Parked sym m t := by
  obtain ⟨hready | hready, hmem⟩ := h
  · have hwfe := step_of_fetch (fetch_off hready.off hready.pc (hl.park.getElem rfl))
    refine ⟨s.next, .single hready.masked hwfe, .inr ⟨?_, hready.off.congr rfl rfl,
      hready.masked⟩, hmem⟩
    rw [Cpu.next, hready.pc]
    exact slot_add _ 3 1
  · have hb := step_of_fetch (fetch_off hready.off hready.pc (hl.park.getElem rfl))
    refine ⟨_, .single hready.masked hb, .inl ⟨?_, hready.off.congr rfl rfl, hready.masked⟩, hmem⟩
    show s.pc + -4 = _
    rw [hready.pc, ← slot_add sym.parkSecondaryCores 3 1, BitVec.add_assoc]
    exact BitVec.add_zero _

/-- However long it goes on. -/
theorem Parked.runs {m : Words} (hl : Loaded sym code) (h : Parked sym m s) (n : Nat) :
    ∃ t, Runs mmu code (fun u => u.pstate.Masked) n s t ∧ Parked sym m t := by
  induction n with
  | zero => exact ⟨s, .refl s, h⟩
  | succ n ih =>
      obtain ⟨t, hruns, ht⟩ := ih
      obtain ⟨u, hstep, hu⟩ := ht.step hl
      exact ⟨u, Nat.add_comm 1 n ▸ hruns.trans hstep, hu⟩

/-- From the entry point the first core gets to `start_kernel`, in whatever exception level it
starts, and all other cores wait for good. -/
theorem boots_or_parks (sym : Symbols) (code : Code) (s : Cpu) (hl : Loaded sym code)
    (h : Ready sym.start s) (htables : InitialTables sym s.mem) :
    (s.sys .mpidrEl1 &&& 0xff = 0 → ∃ t, Boots code s t ∧ Started sym s t) ∧
      (s.sys .mpidrEl1 &&& 0xff ≠ 0 → ∃ t, Boots code s t ∧ ∀ n, ∃ u,
        Runs mmu code (fun v => v.pstate.Masked) n t u ∧ Parked sym s.mem u) := by
  refine ⟨fun hcore => ?_, fun hcore => ?_⟩
  · obtain ⟨u, hprimary, hu, hukept⟩ := boots_primary hl h hcore
    obtain ⟨v, hel1, hv, hvpassed, hvlevel⟩ := boots_el1 hl hu
    obtain ⟨w, hconfigure, hw, hw20, hw30, hwwxn, hwmem, hwlevel⟩ := boots_configured hl hv hvlevel
    obtain ⟨y, hlink, hy, hy20, hy30, hyon, hywxn, hytcr, hyttbr0, hyttbr1, hymem, hylevel⟩ :=
      boots_linked hl hw hwlevel
    have hsame : w.mem = s.mem := by rw [hwmem, hvpassed.mem, hukept.mem]
    rw [hsame] at hymem
    obtain ⟨z, henable, hz, hz20, hzmem⟩ := boots_enabled hl hy hylevel hyon (hywxn.trans hwwxn)
      hytcr hyttbr0 hyttbr1 (hymem ▸ earlyTables_link hl.placement htables)
    rw [hy30, hw30] at hz
    obtain ⟨t, hkernel, ht, hsp, hvectors, hmem⟩ := boots_kernel hl hz
    have hfdt : z.x 20 = s.x 0 := by
      rw [hz20, hy20, hw20, hvpassed.x 0 (by decide), hukept.x 0 (by decide)]
    rw [hzmem, hymem, hfdt] at hmem
    have hrun := ((((hprimary.trans hel1).trans hconfigure).trans hlink).trans henable).trans hkernel
    exact ⟨t, hrun, started_of_mem hl.placement ht hsp hvectors hmem⟩
  · obtain ⟨t, hrun, ht, hmem⟩ := runs_parked hl h hcore
    exact ⟨t, hrun, fun n => Parked.runs hl ⟨.inl ht, hmem⟩ n⟩

end Kernel

/-- An image from 0x80000 on. -/
def smallSymbols : Symbols :=
  ⟨0x80000, 0x80100, 0x80200, 0x80300, 0x80400, 0x80500, 0x80600, 0x80700, 0x90000, 0xa0000,
    0xb0000, 0xb0800, 0xc0000, 0xc1000, 0xc2000, 0xc3000, 0xd0000, 0xd0010⟩

/-- The code of a small image: the boot routines at fixed places, their literals filled in. -/
def smallCode : Code := fun a =>
  [segment 0x80000 (Routine.start 0x100 0x1fc), segment 0x80100 Routine.parkSecondaryCores,
    segment 0x80200 (Routine.startPrimary 0xf4 0x1ec 0x2e4),
    segment 0x80300 (Routine.startEl3 (-0x148)), segment 0x80400 (Routine.startEl2 (-0x23c)),
    segment 0x80500 smallSymbols.startEl1Code,
    segment 0x80600 (Routine.enableEarlyMmu 0x3f9f0 0x419e8 0x409dc 0x429d0),
    segment 0x80700 (Routine.zeroBss (linked 0xd0000) (linked 0xd0010))].findSome? fun code => code a

theorem small_placement : smallSymbols.Placement := by
  refine ⟨?_, by decide, by decide, by decide, by decide, by decide⟩
  simp only [List.forall_mem_cons]
  exact ⟨⟨⟨by decide, by decide, by decide⟩, by decide, by decide⟩,
    ⟨⟨by decide, by decide, by decide⟩, by decide, by decide⟩,
    ⟨⟨by decide, by decide, by decide⟩, by decide, by decide⟩,
    ⟨⟨by decide, by decide, by decide⟩, by decide, by decide⟩, nofun⟩

theorem small_loaded : Loaded smallSymbols smallCode :=
  ⟨small_placement, ⟨by decide, by decide⟩, ⟨by decide, by decide⟩, ⟨by decide, by decide⟩,
    ⟨by decide, by decide⟩, ⟨by decide, by decide⟩, ⟨by decide, by decide⟩,
    ⟨by decide, by decide⟩, ⟨by decide, by decide⟩⟩

/-- The tables of blocks at their places, and nothing else. -/
def smallMemory : Words := fun a =>
  if 0xc2000 ≤ a ∧ a < 0xc3000 then earlyBlock 0x701 ((a - 0xc2000) / 8)
  else if 0xc3000 ≤ a ∧ a < 0xc4000 then earlyBlock 0x709 ((a - 0xc3000) / 8)
  else 0

theorem small_tables : InitialTables smallSymbols smallMemory := by
  refine ⟨fun i => ?_, fun i => ?_, fun i => ?_, fun i => ?_⟩
  · show smallMemory (0xc0000 + 8 * i) = 0
    rw [smallMemory, if_neg (by omega), if_neg (by omega)]
  · show smallMemory (0xc1000 + 8 * i) = 0
    rw [smallMemory, if_neg (by omega), if_neg (by omega)]
  · show smallMemory (0xc2000 + 8 * i) = _
    rw [smallMemory, if_pos (by omega)]
    congr 1
    omega
  · show smallMemory (0xc3000 + 8 * i) = _
    rw [smallMemory, if_neg (by omega), if_pos (by omega)]
    congr 1
    omega

/-- A core that starts in exception level 2. -/
def resetCpu (mpidr : Word) : Cpu where
  x := fun _ => 0
  sp := 0
  pc := 0x80000
  pstate := ⟨0, 0b1111#4, 0b1001#4⟩
  sys := fun r => if r = .mpidrEl1 then mpidr else 0
  mem := smallMemory

theorem boots_or_parks_small :
    (∃ t, Boots smallCode (resetCpu 0) t ∧ Started smallSymbols (resetCpu 0) t) ∧
      ∃ t, Boots smallCode (resetCpu 1) t ∧ ∀ n, ∃ u,
        Runs mmu smallCode (fun v => v.pstate.Masked) n t u ∧ Parked smallSymbols smallMemory u :=
  ⟨(boots_or_parks smallSymbols smallCode (resetCpu 0) small_loaded
      ⟨rfl, ⟨by decide, rfl, rfl, rfl⟩, by decide⟩ small_tables).1 (by decide),
    (boots_or_parks smallSymbols smallCode (resetCpu 1) small_loaded
      ⟨rfl, ⟨by decide, rfl, rfl, rfl⟩, by decide⟩ small_tables).2 (by decide)⟩

end Kruspix.Arch.Boot
