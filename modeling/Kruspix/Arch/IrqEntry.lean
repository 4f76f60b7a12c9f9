import Kruspix.Lib.A64.Line
import Mathlib.Data.Fintype.Basic
import Mathlib.Tactic.FinCases

/-!
# Entry and exit of interrupts

The handler leaves all general registers, the place that was interrupted and its status in a
frame on the stack, calls the dispatcher, and takes them from there again. The registers of the
floating point unit are left as they are.
-/

namespace Kruspix.Arch.IrqEntry

open Lib.A64 Lib.WordMemory

/-- The entry of the vector table for interrupt requests, at 0x280. -/
def irqVector (toHandler : Word) : List Instr := [.b toHandler]

/-- `_el1h_irq_handler` up to the call. -/
def saveRegisters : List Instr :=
  [.subSp (16 * 17), .stp 0 1 .sp (16 * 0), .stp 2 3 .sp (16 * 1), .stp 4 5 .sp (16 * 2),
    .stp 6 7 .sp (16 * 3), .stp 8 9 .sp (16 * 4), .stp 10 11 .sp (16 * 5),
    .stp 12 13 .sp (16 * 6), .stp 14 15 .sp (16 * 7), .stp 16 17 .sp (16 * 8),
    .stp 18 19 .sp (16 * 9), .stp 20 21 .sp (16 * 10), .stp 22 23 .sp (16 * 11),
    .stp 24 25 .sp (16 * 12), .stp 26 27 .sp (16 * 13), .stp 28 29 .sp (16 * 14),
    .mrs 9 .elrEl1, .mrs 10 .spsrEl1, .stp 30 9 .sp (16 * 15), .str 10 .sp (16 * 16)]

/-- The rest of it, behind the call. -/
def restoreRegisters : List Instr :=
  [.ldp 30 9 .sp (16 * 15), .ldr 10 .sp (16 * 16), .msr .elrEl1 9, .msr .spsrEl1 10,
    .ldp 0 1 .sp (16 * 0), .ldp 2 3 .sp (16 * 1), .ldp 4 5 .sp (16 * 2), .ldp 6 7 .sp (16 * 3),
    .ldp 8 9 .sp (16 * 4), .ldp 10 11 .sp (16 * 5), .ldp 12 13 .sp (16 * 6),
    .ldp 14 15 .sp (16 * 7), .ldp 16 17 .sp (16 * 8), .ldp 18 19 .sp (16 * 9),
    .ldp 20 21 .sp (16 * 10), .ldp 22 23 .sp (16 * 11), .ldp 24 25 .sp (16 * 12),
    .ldp 26 27 .sp (16 * 13), .ldp 28 29 .sp (16 * 14), .addSp (16 * 17)]

/-- The entry of an interrupt: save all registers, dispatch, restore, return. -/
def el1hIrqHandler (toDispatch : Word) : List Instr :=
  saveRegisters ++ .bl toDispatch :: (restoreRegisters ++ [.eret])

/-- The bytes of a frame. -/
def FRAME_SIZE : Nat := 272

/-- What was interrupted, but for the stack pointer. -/
structure Frame where
  x : Reg → Word
  elr : Word
  spsr : Word

/-- The frame at an address. -/
def Frame.read (m : Words) (a : Nat) : Frame where
  x := fun r => m (a + 8 * r)
  elr := m (a + 248)
  spsr := m (a + 256)

/-- What an interrupt leaves of the state that it finds. -/
def Frame.ofCpu (s : Cpu) : Frame := ⟨s.x, s.pc, s.pstate.toWord⟩

theorem Frame.read_congr {m m' : Words} {a : Nat}
    (h : ∀ b, a ≤ b → b < a + FRAME_SIZE → m' b = m b) : Frame.read m' a = Frame.read m a := by
  simp only [FRAME_SIZE] at h
  simp only [Frame.read, Frame.mk.injEq]
  refine ⟨?_, h _ (by omega) (by omega), h _ (by omega) (by omega)⟩
  funext r
  exact h _ (by omega) (by omega)

theorem saveRegisters_eq : saveRegisters =
    [.subSp 272, .stp 0 1 .sp (BitVec.ofNat 64 0), .stp 2 3 .sp (BitVec.ofNat 64 16),
      .stp 4 5 .sp (BitVec.ofNat 64 32), .stp 6 7 .sp (BitVec.ofNat 64 48),
      .stp 8 9 .sp (BitVec.ofNat 64 64), .stp 10 11 .sp (BitVec.ofNat 64 80),
      .stp 12 13 .sp (BitVec.ofNat 64 96), .stp 14 15 .sp (BitVec.ofNat 64 112),
      .stp 16 17 .sp (BitVec.ofNat 64 128), .stp 18 19 .sp (BitVec.ofNat 64 144),
      .stp 20 21 .sp (BitVec.ofNat 64 160), .stp 22 23 .sp (BitVec.ofNat 64 176),
      .stp 24 25 .sp (BitVec.ofNat 64 192), .stp 26 27 .sp (BitVec.ofNat 64 208),
      .stp 28 29 .sp (BitVec.ofNat 64 224), .mrs 9 .elrEl1, .mrs 10 .spsrEl1,
      .stp 30 9 .sp (BitVec.ofNat 64 240), .str 10 .sp (BitVec.ofNat 64 256)] := rfl

theorem restoreRegisters_eq : restoreRegisters =
    [.ldp 30 9 .sp (BitVec.ofNat 64 240), .ldr 10 .sp (BitVec.ofNat 64 256), .msr .elrEl1 9,
      .msr .spsrEl1 10, .ldp 0 1 .sp (BitVec.ofNat 64 0), .ldp 2 3 .sp (BitVec.ofNat 64 16),
      .ldp 4 5 .sp (BitVec.ofNat 64 32), .ldp 6 7 .sp (BitVec.ofNat 64 48),
      .ldp 8 9 .sp (BitVec.ofNat 64 64), .ldp 10 11 .sp (BitVec.ofNat 64 80),
      .ldp 12 13 .sp (BitVec.ofNat 64 96), .ldp 14 15 .sp (BitVec.ofNat 64 112),
      .ldp 16 17 .sp (BitVec.ofNat 64 128), .ldp 18 19 .sp (BitVec.ofNat 64 144),
      .ldp 20 21 .sp (BitVec.ofNat 64 160), .ldp 22 23 .sp (BitVec.ofNat 64 176),
      .ldp 24 25 .sp (BitVec.ofNat 64 192), .ldp 26 27 .sp (BitVec.ofNat 64 208),
      .ldp 28 29 .sp (BitVec.ofNat 64 224), .addSp 272] := rfl

/-- A frame below the stack pointer. -/
structure Room (s : Cpu) : Prop where
  level : s.pstate.el = 1
  aligned : s.sp.toNat % 16 = 0
  room : FRAME_SIZE ≤ s.sp.toNat

theorem Room.congr {s t : Cpu} (h : Room s) (hel : t.pstate.el = s.pstate.el)
    (hsp : t.sp = s.sp) : Room t :=
  ⟨hel.trans h.level, hsp ▸ h.aligned, hsp ▸ h.room⟩

section Save

variable {s : Cpu}

theorem Room.toNat (h : Room s) : (s.sp - 272).toNat = s.sp.toNat - 272 := by
  have hroom := h.room
  rw [FRAME_SIZE] at hroom
  exact BitVec.toNat_sub_of_le hroom

theorem Room.region (h : Room s) : Region (s.sp - 272) FRAME_SIZE := by
  have haligned := h.aligned
  have hroom := h.room
  have hlt := s.sp.isLt
  rw [FRAME_SIZE] at hroom
  refine ⟨?_, ?_⟩
  · rw [h.toNat]
    omega
  · rw [h.toNat, FRAME_SIZE]
    omega

theorem Room.aligned' (h : Room s) : (s.sp - 272).toNat % 16 = 0 := by
  have haligned := h.aligned
  have hroom := h.room
  rw [FRAME_SIZE] at hroom
  rw [h.toNat]
  omega

/-- The frame below the stack pointer is that of the registers and of the return registers. -/
structure Saved (s t : Cpu) : Prop where
  frame : Frame.read t.mem (s.sp - 272).toNat = ⟨s.x, s.sys .elrEl1, s.sys .spsrEl1⟩
  others : ∀ b, b < (s.sp - 272).toNat ∨ s.sp.toNat ≤ b → t.mem b = s.mem b
  sp : t.sp = s.sp - 272
  kept : t.sys = s.sys ∧ t.pstate = s.pstate

theorem line_saveRegisters (h : Room s) :
    ∃ t, s.line flat saveRegisters = some t ∧ Saved s t := by
  have hregion := h.region
  have helr : SysReg.elrEl1.level ≤ s.pstate.el := h.level.ge
  have hspsr : SysReg.spsrEl1.level ≤ s.pstate.el := h.level.ge
  rw [saveRegisters_eq, line_subSp h.level]
  simp (disch := first | exact base_sp h.level rfl h.aligned' | decide | exact helr | exact hspsr) only
    [line_stp hregion, line_str hregion, line_mrs, line_nil, Option.some.injEq, exists_eq_left',
      Function.update_self]
  refine ⟨?_, fun b hb => ?_, rfl, rfl, rfl⟩
  · simp only [Frame.read, Frame.mk.injEq]
    refine ⟨?_, ?_, ?_⟩
    · funext r
      fin_cases r <;> simp [store]
    · simp [store]
    · simp [store]
  · have hroom := h.room
    rw [FRAME_SIZE] at hroom
    rw [h.toNat] at hb ⊢
    simp only
    repeat rw [store_other _ _ (by omega)]

end Save

section Restore

variable {s : Cpu}

/-- The registers are those of the frame at the stack pointer, which is taken off. -/
structure Restored (s t : Cpu) : Prop where
  x : t.x = (Frame.read s.mem s.sp.toNat).x
  elr : t.sys .elrEl1 = (Frame.read s.mem s.sp.toNat).elr
  spsr : t.sys .spsrEl1 = (Frame.read s.mem s.sp.toNat).spsr
  sp : t.sp = s.sp + 272
  kept : t.mem = s.mem ∧ t.pstate = s.pstate
  others : ∀ r, r ≠ .elrEl1 → r ≠ .spsrEl1 → t.sys r = s.sys r

theorem line_restoreRegisters (hel : s.pstate.el = 1) (haligned : s.sp.toNat % 16 = 0)
    (hregion : Region s.sp FRAME_SIZE) :
    ∃ t, s.line flat restoreRegisters = some t ∧ Restored s t := by
  have helr : SysReg.elrEl1.level ≤ s.pstate.el := hel.ge
  have hspsr : SysReg.spsrEl1.level ≤ s.pstate.el := hel.ge
  rw [restoreRegisters_eq]
  simp (disch := first | exact base_sp hel rfl haligned | decide | exact helr | exact hspsr | exact hel) only
    [line_ldp hregion, line_ldr hregion, line_msr, line_addSp, line_nil, Option.some.injEq,
      exists_eq_left']
  refine ⟨?_, ?_, ?_, rfl, ⟨rfl, rfl⟩, fun r h h' => ?_⟩
  · simp only [Frame.read]
    funext r
    fin_cases r <;> simp
  · simp [Frame.read]
  · simp [Frame.read]
  · simp [h, h']

end Restore

/-- The addresses of the vector table, of the handler and of the dispatcher. -/
structure Symbols where
  vectors : Word
  handler : Word
  dispatch : Word

/-- Where the call of the dispatcher returns to. -/
def Symbols.back (sym : Symbols) : Word := sym.handler + BitVec.ofNat 64 84

/-- The code is where the symbols say. -/
structure Loaded (sym : Symbols) (code : Code) : Prop where
  vector : At code (sym.vectors + 0x280#64).toNat
    (irqVector (sym.handler - (sym.vectors + 0x280#64)))
  handler : At code sym.handler.toNat
    (el1hIrqHandler (sym.dispatch - (sym.handler + BitVec.ofNat 64 80)))
  fits : sym.handler.toNat + 4 * 42 ≤ 2 ^ 64

/-- The dispatcher is called with the frame of what was interrupted. -/
structure Entered (sym : Symbols) (s t : Cpu) : Prop where
  pc : t.pc = sym.dispatch
  link : t.x 30 = sym.back
  frame : Frame.read t.mem (s.sp - 272).toNat = .ofCpu s
  others : ∀ b, b < (s.sp - 272).toNat ∨ s.sp.toNat ≤ b → t.mem b = s.mem b
  sp : t.sp = s.sp - 272
  masked : t.pstate.Masked
  el : t.pstate.el = 1
  vectors : t.sys .vbarEl1 = s.sys .vbarEl1

/-- What was interrupted goes on as the frame says. -/
structure Left (s t : Cpu) : Prop where
  frame : Frame.read s.mem s.sp.toNat = ⟨t.x, t.pc, s.mem (s.sp.toNat + 256)⟩
  pstate : t.pstate = .ofWord (s.mem (s.sp.toNat + 256))
  sp : t.sp = s.sp + 272
  mem : t.mem = s.mem
  vectors : t.sys .vbarEl1 = s.sys .vbarEl1

section Runs

variable {sym : Symbols} {code : Code} {s : Cpu}

/-- From the instruction that is interrupted to the first one of the dispatcher. -/
theorem runs_entry (hl : Loaded sym code) (hvbar : s.sys .vbarEl1 = sym.vectors) (h : Room s) :
    ∃ t, Runs flat code (fun u => u.pstate.Masked) 22 s.takeIrq t ∧ Entered sym s t := by
  have hvpc : s.takeIrq.pc = sym.vectors + 0x280#64 := by rw [Cpu.takeIrq_pc, hvbar]
  -- the branch of the vector table
  obtain ⟨u, hu⟩ : ∃ u : Cpu, u = { s.takeIrq with pc := sym.handler } := ⟨_, rfl⟩
  have hbranch : step flat code s.takeIrq = some u := by
    rw [hu]
    refine step_b ?_
    rw [hvpc]
    exact (At.cons.mp hl.vector).1
  have hupc : u.pc = sym.handler := by rw [hu]
  have husp : u.sp = s.sp := by rw [hu, Cpu.takeIrq_sp]
  have humem : u.mem = s.mem := by rw [hu, Cpu.takeIrq_mem]
  have hux : u.x = s.x := by rw [hu, Cpu.takeIrq_x]
  have husys (r : SysReg) : u.sys r = s.takeIrq.sys r := by rw [hu]
  have humasked : u.pstate.Masked := by
    rw [hu]
    exact s.takeIrq_masked
  have huel : u.pstate.el = s.pstate.el := by rw [hu, Cpu.takeIrq_el]
  -- the registers are saved
  obtain ⟨hsave, hcall⟩ := At.append.mp hl.handler
  rw [← hupc] at hsave
  have hfits : u.pc.toNat + 4 * 42 ≤ 2 ^ 64 := hupc ▸ hl.fits
  obtain ⟨v, hline, hsaved⟩ := line_saveRegisters (h.congr huel husp)
  have hlength : saveRegisters.length = 20 := rfl
  obtain ⟨hruns, hpc⟩ := Runs.line_masked hsave (by rw [hlength]; omega) (by decide)
    (by decide) hline humasked
  rw [hlength] at hpc hcall
  obtain ⟨hsys, hpstate⟩ := hsaved.kept
  have hframe := hsaved.frame
  have hothers := hsaved.others
  rw [husp, hux, husys, husys, Cpu.takeIrq_sys, Cpu.takeIrq_sys, if_neg (by decide), if_pos rfl,
    if_pos rfl] at hframe
  rw [husp, humem] at hothers
  -- the call
  have hbl : step flat code v = some { v.setX 30 (v.pc + 4) with pc := sym.dispatch } := by
    refine step_bl ?_
    have htoNat := flat_pc hfits (by omega : 4 * 20 < 4 * 42) u
    rw [flat, Option.some.injEq] at htoNat
    rw [hpc, htoNat, hupc]
    exact (At.cons.mp hcall).1
  have hvmasked : v.pstate.Masked := hpstate ▸ humasked
  refine ⟨_, .step s.takeIrq_masked hbranch (hruns.trans (.single hvmasked hbl)), rfl, ?_, hframe,
    hothers, ?_, hvmasked, ?_, ?_⟩
  · rw [Cpu.setX]
    simp only [Function.update_self]
    rw [hpc, hupc, BitVec.add_assoc]
    rfl
  · rw [← husp]
    exact hsaved.sp
  · rw [← h.level, ← huel, ← hpstate]
    rfl
  · show v.sys .vbarEl1 = s.sys .vbarEl1
    rw [hsys, husys, Cpu.takeIrq_sys, if_neg (by decide), if_neg (by decide)]

/-- From the return of the dispatcher to what was interrupted. -/
theorem runs_exit (hl : Loaded sym code) (hpc : s.pc = sym.back) (hel : s.pstate.el = 1)
    (hmasked : s.pstate.Masked) (haligned : s.sp.toNat % 16 = 0)
    (hfits : s.sp.toNat + FRAME_SIZE ≤ 2 ^ 64)
    (hlower : (PState.ofWord (s.mem (s.sp.toNat + 256))).el ≤ 1) :
    ∃ t, Runs flat code (fun u => u.pstate.Masked) 21 s t ∧ Left s t := by
  have hlfits := hl.fits
  have hback : s.pc.toNat = sym.handler.toNat + 84 := by
    rw [hpc, Symbols.back, BitVec.toNat_add]
    exact Nat.mod_eq_of_lt (by simp; omega)
  obtain ⟨-, hcall⟩ := At.append.mp hl.handler
  obtain ⟨hrestore, heret⟩ := At.append.mp (At.cons.mp hcall).2
  have hrestore' : At code s.pc.toNat restoreRegisters := by
    rw [hback]
    exact hrestore
  obtain ⟨u, hline, hrestored⟩ := line_restoreRegisters hel haligned ⟨by omega, hfits⟩
  have hlength : restoreRegisters.length = 20 := rfl
  obtain ⟨hruns, hupc⟩ := Runs.line_masked hrestore' (by rw [hlength]; omega) (by decide)
    (by decide) hline hmasked
  obtain ⟨hmem, hpstate⟩ := hrestored.kept
  let t : Cpu := { u with
    pc := u.sys .elrEl1
    pstate := PState.ofWord (u.sys .spsrEl1) }
  have hret : step flat code u = some t := by
    have hto : code u.pc.toNat = some .eret := by
      have hfits' : s.pc.toNat + 4 * 21 ≤ 2 ^ 64 := by omega
      have htoNat := flat_pc hfits' (by omega : 4 * 20 < 4 * 21) u
      rw [flat, Option.some.injEq] at htoNat
      rw [hupc, hlength, htoNat, hback]
      exact (At.cons.mp heret).1
    have hspsr : (PState.ofWord (u.sys .spsrEl1)).el ≤ 1 := by
      rw [hrestored.spsr]
      exact hlower
    rw [step_flat hto, Cpu.exec, hpstate, hel]
    exact if_pos hspsr
  refine ⟨t, hruns.trans (.single ?_ hret), ?_, ?_, hrestored.sp, hmem, ?_⟩
  · simp only [hpstate]
    exact hmasked
  · show _ = Frame.mk u.x (u.sys .elrEl1) _
    rw [hrestored.x, hrestored.elr]
    rfl
  · show PState.ofWord (u.sys .spsrEl1) = _
    rw [hrestored.spsr]
    rfl
  · exact hrestored.others _ (by decide) (by decide)

end Runs

end Kruspix.Arch.IrqEntry
