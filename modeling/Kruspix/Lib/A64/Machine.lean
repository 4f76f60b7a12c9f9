import Kruspix.Lib.WordMemory
import Mathlib.Logic.Function.Basic
import Mathlib.Tactic.IntervalCases

/-!
# A part of the A64 instruction set

The registers of a core that runs in one of the exception levels, and a memory of words. An
instruction that faults has no next state: a fault is an exception of its own, and is not
modelled.
-/

namespace Kruspix.Lib.A64

open WordMemory

/-- A register holds 64 bits. -/
abbrev Word := BitVec 64

/-- `x0` to `x30`. -/
abbrev Reg := Fin 31

instance neZero_regs : NeZero 31 := ⟨by decide⟩

/-- The system registers that the modelled code reads or writes. -/
inductive SysReg
  | mpidrEl1
  | vbarEl1
  | sctlrEl1
  | cpacrEl1
  | tcrEl1
  | ttbr0El1
  | ttbr1El1
  | mairEl1
  | elrEl1
  | spsrEl1
  | sctlrEl2
  | hcrEl2
  | cptrEl2
  | elrEl2
  | spsrEl2
  | sctlrEl3
  | scrEl3
  | cptrEl3
  | elrEl3
  | spsrEl3
  deriving DecidableEq, Repr

/-- The condition flags, the interrupt masks and the mode. The upper two bits of the mode are
the exception level. -/
structure PState where
  nzcv : BitVec 4
  daif : BitVec 4
  mode : BitVec 4
  deriving DecidableEq, Repr

namespace PState

/-- The layout of a saved program status. -/
def toWord (p : PState) : Word :=
  p.nzcv.setWidth 64 <<< 28 ||| p.daif.setWidth 64 <<< 6 ||| p.mode.setWidth 64

/-- The state in an SPSR: flags from bit 28, masks from bit 6, the mode from bit 0. -/
def ofWord (w : Word) : PState :=
  ⟨(w >>> 28).setWidth 4, (w >>> 6).setWidth 4, w.setWidth 4⟩

/-- The exception level. -/
def el (p : PState) : Nat := (p.mode >>> 2).toNat

/-- The masks do not matter for the level. -/
theorem el_daif (p : PState) (daif : BitVec 4) : el { p with daif := daif } = p.el := rfl

/-- Interrupt requests are masked. -/
def Masked (p : PState) : Prop := p.daif.getLsbD 1 = true

instance (p : PState) : Decidable p.Masked := by
  unfold Masked
  infer_instance

@[simp] theorem ofWord_toWord (p : PState) : ofWord p.toWord = p := by
  obtain ⟨nzcv, daif, mode⟩ := p
  simp only [ofWord, toWord, mk.injEq]
  refine ⟨?_, ?_, ?_⟩
  · ext i hi
    interval_cases i <;> simp
  · ext i hi
    interval_cases i <;> simp
  · ext i hi
    interval_cases i <;> simp

end PState

/-- The exception level from which a system register may be accessed. -/
def SysReg.level : SysReg → Nat
  | .sctlrEl3 | .scrEl3 | .cptrEl3 | .elrEl3 | .spsrEl3 => 3
  | .sctlrEl2 | .hcrEl2 | .cptrEl2 | .elrEl2 | .spsrEl2 => 2
  | _ => 1

/-- The link register and the status that an exception to this level saves. -/
def returnRegs : Nat → Option (SysReg × SysReg)
  | 1 => some (.elrEl1, .spsrEl1)
  | 2 => some (.elrEl2, .spsrEl2)
  | 3 => some (.elrEl3, .spsrEl3)
  | _ => none

/-- The stack pointer is that of exception level 1. -/
structure Cpu where
  x : Reg → Word
  sp : Word
  pc : Word
  pstate : PState
  sys : SysReg → Word
  mem : Words

/-- What the address of a load or store is relative to. -/
inductive Base
  | x (n : Reg)
  | sp
  deriving DecidableEq, Repr

/-- The conditions of the modelled branches. -/
inductive Cond
  | eq
  | ge
  deriving DecidableEq, Repr

/-- Branches and `adr` have the distance to their target. -/
inductive Instr
  | movImm (d : Reg) (imm : Word)
  | ldrLit (d : Reg) (value : Word)
  | mov (d n : Reg)
  | movFromSp (d : Reg)
  | movToSp (n : Reg)
  | addReg (d n m : Reg)
  | addImm (d n : Reg) (imm : Word)
  | addSp (imm : Word)
  | subSp (imm : Word)
  | andImm (d n : Reg) (imm : Word)
  | orrImm (d n : Reg) (imm : Word)
  | bicImm (d n : Reg) (imm : Word)
  | lsrImm (d n : Reg) (shift : Nat)
  | cmpImm (n : Reg) (imm : Word)
  | cmpReg (n m : Reg)
  | adr (d : Reg) (offset : Word)
  | ldr (t : Reg) (base : Base) (imm : Word)
  | str (t : Reg) (base : Base) (imm : Word)
  | strPost (t n : Reg) (imm : Word)
  | ldp (t t' : Reg) (base : Base) (imm : Word)
  | stp (t t' : Reg) (base : Base) (imm : Word)
  | mrs (d : Reg) (r : SysReg)
  | msr (r : SysReg) (n : Reg)
  | mrsCurrentEl (d : Reg)
  | mrsDaif (d : Reg)
  | msrDaif (n : Reg)
  | b (offset : Word)
  | bCond (c : Cond) (offset : Word)
  | cbz (n : Reg) (offset : Word)
  | bl (offset : Word)
  | blr (n : Reg)
  | ret
  | eret
  | isb
  | wfe
  | wfi
  deriving DecidableEq, Repr

/-- The flags of `a - b`. -/
def subFlags (a b : Word) : BitVec 4 :=
  let d := a - b
  BitVec.ofBool d.msb ++ BitVec.ofBool (d = 0) ++ BitVec.ofBool (b ≤ a) ++
    BitVec.ofBool (a.msb ≠ b.msb ∧ d.msb ≠ a.msb)

/-- `ge` compares the sign of the difference with its overflow. -/
def Cond.holds (nzcv : BitVec 4) : Cond → Bool
  | .eq => nzcv.getLsbD 2
  | .ge => nzcv.getLsbD 3 == nzcv.getLsbD 0

/-- The flags one by one. -/
theorem flags_getLsbD (n z c v : Bool) :
    let f := BitVec.ofBool n ++ BitVec.ofBool z ++ BitVec.ofBool c ++ BitVec.ofBool v
    f.getLsbD 3 = n ∧ f.getLsbD 2 = z ∧ f.getLsbD 0 = v := by
  revert n z c v
  decide

theorem subFlags_eq (a b : Word) : Cond.eq.holds (subFlags a b) = decide (a = b) := by
  have hzero : a - b = 0 ↔ a = b := by
    refine ⟨fun hsub => ?_, fun heq => heq ▸ BitVec.sub_self a⟩
    have hadd := BitVec.sub_add_cancel a b
    rw [hsub] at hadd
    exact hadd.symm.trans (BitVec.zero_add b)
  rw [Cond.holds, subFlags, (flags_getLsbD _ _ _ _).2.1, decide_eq_decide]
  exact hzero

/-- Two addresses of one half of the address space are compared as they should be. -/
theorem subFlags_ge {a b : Word} (h : a.msb = b.msb) :
    Cond.ge.holds (subFlags a b) = decide (b ≤ a) := by
  have hmsb : (a - b).msb = decide (a < b) := by
    rw [BitVec.msb_eq_decide, BitVec.msb_eq_decide] at h
    rw [BitVec.msb_eq_decide, BitVec.toNat_sub]
    have ha := a.isLt
    have hb := b.isLt
    rw [decide_eq_decide] at h ⊢
    rw [BitVec.lt_def]
    simp only [Nat.add_one_sub_one] at *
    omega
  have hsigns : ¬ (a.msb ≠ b.msb ∧ (a - b).msb ≠ a.msb) := fun hne => hne.1 h
  obtain ⟨hn, -, hv⟩ := flags_getLsbD (a - b).msb (decide (a - b = 0)) (decide (b ≤ a))
    (decide (a.msb ≠ b.msb ∧ (a - b).msb ≠ a.msb))
  rw [Cond.holds, subFlags, hn, hv, decide_eq_false hsigns, hmsb, Bool.eq_iff_iff]
  simp
namespace Cpu

/-- How the address of an access is translated. -/
abbrev Mmu := Cpu → Word → Option Nat

def next (s : Cpu) : Cpu := { s with pc := s.pc + 4 }

/-- Write a general register. -/
def setX (s : Cpu) (d : Reg) (w : Word) : Cpu := { s with x := Function.update s.x d w }

/-- Write a system register. -/
def setSys (s : Cpu) (r : SysReg) (w : Word) : Cpu := { s with sys := Function.update s.sys r w }

/-- An access relative to the stack pointer checks its alignment. -/
def base (s : Cpu) : Base → Option Word
  | .x n => some (s.x n)
  | .sp => if s.pstate.el = 1 ∧ s.sp.toNat % 16 = 0 then some s.sp else none

/-- An access to a word checks its alignment. -/
def load (mmu : Mmu) (s : Cpu) (a : Word) : Option Word :=
  if a.toNat % 8 = 0 then (mmu s a).map s.mem else none

/-- Store eight bytes at a translated address; an unaligned one faults. -/
def store (mmu : Mmu) (s : Cpu) (a w : Word) : Option Cpu :=
  if a.toNat % 8 = 0 then (mmu s a).map fun p => { s with mem := WordMemory.store s.mem p w }
  else none

/-- An interrupt request is taken in exception level 1. -/
def takeIrq (s : Cpu) : Cpu :=
  { (s.setSys .elrEl1 s.pc).setSys .spsrEl1 s.pstate.toWord with
    pstate := { s.pstate with daif := 0b1111#4 }
    pc := s.sys .vbarEl1 + 0x280#64 }

@[simp] theorem takeIrq_x (s : Cpu) : s.takeIrq.x = s.x := by simp only [takeIrq, setSys]

@[simp] theorem takeIrq_sp (s : Cpu) : s.takeIrq.sp = s.sp := by simp only [takeIrq, setSys]

@[simp] theorem takeIrq_mem (s : Cpu) : s.takeIrq.mem = s.mem := by simp only [takeIrq, setSys]

@[simp] theorem takeIrq_pc (s : Cpu) : s.takeIrq.pc = s.sys .vbarEl1 + 0x280#64 := by
  simp only [takeIrq]

@[simp] theorem takeIrq_el (s : Cpu) : s.takeIrq.pstate.el = s.pstate.el := by
  simp only [takeIrq, PState.el_daif]

theorem takeIrq_masked (s : Cpu) : s.takeIrq.pstate.Masked := by
  simp [PState.Masked, takeIrq]

theorem takeIrq_sys (s : Cpu) (r : SysReg) : s.takeIrq.sys r =
    if r = .spsrEl1 then s.pstate.toWord else if r = .elrEl1 then s.pc else s.sys r := by
  simp only [takeIrq, setSys, Function.update_apply]

/-- One instruction. -/
def exec (mmu : Mmu) (s : Cpu) : Instr → Option Cpu
  | .movImm d imm => some (s.setX d imm).next
  | .ldrLit d value => some (s.setX d value).next
  | .mov d n => some (s.setX d (s.x n)).next
  | .movFromSp d => if s.pstate.el = 1 then some (s.setX d s.sp).next else none
  | .movToSp n => if s.pstate.el = 1 then some { s with sp := s.x n }.next else none
  | .addReg d n m => some (s.setX d (s.x n + s.x m)).next
  | .addImm d n imm => some (s.setX d (s.x n + imm)).next
  | .addSp imm => if s.pstate.el = 1 then some { s with sp := s.sp + imm }.next else none
  | .subSp imm => if s.pstate.el = 1 then some { s with sp := s.sp - imm }.next else none
  | .andImm d n imm => some (s.setX d (s.x n &&& imm)).next
  | .orrImm d n imm => some (s.setX d (s.x n ||| imm)).next
  | .bicImm d n imm => some (s.setX d (s.x n &&& ~~~imm)).next
  | .lsrImm d n shift => some (s.setX d (s.x n >>> shift)).next
  | .cmpImm n imm =>
      some { s with pstate := { s.pstate with nzcv := subFlags (s.x n) imm } }.next
  | .cmpReg n m =>
      some { s with pstate := { s.pstate with nzcv := subFlags (s.x n) (s.x m) } }.next
  | .adr d offset => some (s.setX d (s.pc + offset)).next
  | .ldr t base imm => do
      let w ← s.load mmu ((← s.base base) + imm)
      return (s.setX t w).next
  | .str t base imm => do
      let s ← s.store mmu ((← s.base base) + imm) (s.x t)
      return s.next
  | .strPost t n imm => do
      let s ← s.store mmu (s.x n) (s.x t)
      return (s.setX n (s.x n + imm)).next
  | .ldp t t' base imm => do
      let a ← s.base base
      let w ← s.load mmu (a + imm)
      let w' ← s.load mmu (a + imm + 8)
      return ((s.setX t w).setX t' w').next
  | .stp t t' base imm => do
      let a ← s.base base
      let s ← s.store mmu (a + imm) (s.x t)
      let s ← s.store mmu (a + imm + 8) (s.x t')
      return s.next
  | .mrs d r => if r.level ≤ s.pstate.el then some (s.setX d (s.sys r)).next else none
  | .msr r n => if r.level ≤ s.pstate.el then some (s.setSys r (s.x n)).next else none
  | .mrsCurrentEl d => some (s.setX d (BitVec.ofNat 64 s.pstate.el <<< 2)).next
  | .mrsDaif d => some (s.setX d (s.pstate.daif.setWidth 64 <<< 6)).next
  | .msrDaif n =>
      some { s with pstate := { s.pstate with daif := (s.x n >>> 6).setWidth 4 } }.next
  | .b offset => some { s with pc := s.pc + offset }
  | .bCond c offset => if c.holds s.pstate.nzcv then some { s with pc := s.pc + offset } else some s.next
  | .cbz n offset => if s.x n = 0 then some { s with pc := s.pc + offset } else some s.next
  | .bl offset => some { s.setX 30 (s.pc + 4) with pc := s.pc + offset }
  | .blr n => some { s.setX 30 (s.pc + 4) with pc := s.x n }
  | .ret => some { s with pc := s.x 30 }
  | .eret => do
      let (elr, spsr) ← returnRegs s.pstate.el
      let pstate := PState.ofWord (s.sys spsr)
      -- a return to a higher level is illegal
      if pstate.el ≤ s.pstate.el then some { s with pc := s.sys elr, pstate := pstate } else none
  | .isb | .wfe | .wfi => some s.next

end Cpu

end Kruspix.Lib.A64
