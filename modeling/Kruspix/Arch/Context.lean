import Kruspix.Lib.A64.Line
import Mathlib.Data.Fintype.Basic
import Mathlib.Tactic.FinCases

/-!
# The context of a task

`switch_context` leaves the registers that a call preserves in the context of one task and takes
those of another one. The rest of a task is on its stack.
-/

namespace Kruspix.Arch.Context

open Lib.A64 Lib.WordMemory

/-- `x19` to `x30`, the stack pointer and the interrupt masks. -/
structure ArchContext where
  x19X30 : Fin 12 → Word
  stackPointer : Word
  daif : Word

namespace ArchContext

def SIZE : Nat := 112

/-- The addresses of the functions are those of the first frame. -/
def new (stackEnd entry cleanup trampoline : Word) : ArchContext where
  x19X30 := fun i =>
    if i = 0 then entry else if i = 1 then cleanup else if i = 11 then trampoline else 0
  stackPointer := (stackEnd - 16) &&& ~~~0xF
  daif := 0

/-- The context at an address. -/
def read (m : Words) (a : Nat) : ArchContext where
  x19X30 := fun i => m (a + 8 * i)
  stackPointer := m (a + 96)
  daif := m (a + 104)

/-- The word of the masks has no other bits. -/
def Proper (c : ArchContext) : Prop :=
  ((c.daif >>> 6).setWidth 4).setWidth 64 <<< 6 = c.daif

end ArchContext

/-- The first half of `switch_context`. -/
def saveContext : List Instr :=
  [.stp 19 20 (.x 0) (16 * 0), .stp 21 22 (.x 0) (16 * 1), .stp 23 24 (.x 0) (16 * 2),
    .stp 25 26 (.x 0) (16 * 3), .stp 27 28 (.x 0) (16 * 4), .stp 29 30 (.x 0) (16 * 5),
    .movFromSp 9, .str 9 (.x 0) 96, .mrsDaif 9, .str 9 (.x 0) 104]

/-- The second half, which is `load_context` as well, with the context at `new`. -/
def restoreContext (new : Reg) : List Instr :=
  [.ldr 9 (.x new) 96, .movToSp 9, .ldp 19 20 (.x new) (16 * 0), .ldp 21 22 (.x new) (16 * 1),
    .ldp 23 24 (.x new) (16 * 2), .ldp 25 26 (.x new) (16 * 3), .ldp 27 28 (.x new) (16 * 4),
    .ldp 29 30 (.x new) (16 * 5), .isb, .ldr 9 (.x new) 104, .msrDaif 9]

/-- Restore the registers of a task and go on where it was. -/
def loadContext : List Instr := restoreContext 0 ++ [.ret]

/-- Save the registers of one task and restore those of another one. -/
def switchContext : List Instr := saveContext ++ restoreContext 1 ++ [.ret]

/-- The branch goes back to `wfi`. -/
def entryTrampoline : List Instr := [.blr 19, .blr 20, .wfi, .b (-4)]

/-- What a context holds of the processor. -/
def ofCpu (s : Cpu) : ArchContext where
  x19X30 := fun i => s.x ⟨19 + i, by omega⟩
  stackPointer := s.sp
  daif := s.pstate.daif.setWidth 64 <<< 6

theorem ofCpu_proper (s : Cpu) : (ofCpu s).Proper := by
  rw [ArchContext.Proper, ofCpu]
  congr 2
  ext i hi
  interval_cases i <;> simp

theorem ArchContext.new_proper (stackEnd entry cleanup trampoline : Word) :
    (ArchContext.new stackEnd entry cleanup trampoline).Proper := by
  simp [Proper, new]

theorem and_not_15 (w : Word) : w &&& ~~~(0xF : Word) = w >>> 4 <<< 4 := by
  ext i hi
  simp only [BitVec.getElem_and, BitVec.getElem_not, BitVec.getElem_shiftLeft]
  interval_cases i <;> simp

/-- The stack of a new task is empty, but for the bytes lost to its alignment. -/
theorem ArchContext.new_stackPointer {stackEnd : Word} (h : 32 ≤ stackEnd.toNat)
    (entry cleanup trampoline : Word) :
    (ArchContext.new stackEnd entry cleanup trampoline).stackPointer.toNat =
      (stackEnd.toNat - 16) / 16 * 16 := by
  have hsub : (stackEnd - 16).toNat = stackEnd.toNat - 16 := by
    apply BitVec.toNat_sub_of_le
    show (16 : Nat) ≤ _
    omega
  have hlt := (stackEnd - 16).isLt
  rw [ArchContext.new, and_not_15, BitVec.toNat_shiftLeft, BitVec.toNat_ushiftRight, hsub,
    Nat.shiftLeft_eq, Nat.shiftRight_eq_div_pow, Nat.mod_eq_of_lt]
  omega

theorem saveContext_eq : saveContext =
    [.stp 19 20 (.x 0) (BitVec.ofNat 64 0), .stp 21 22 (.x 0) (BitVec.ofNat 64 16),
      .stp 23 24 (.x 0) (BitVec.ofNat 64 32), .stp 25 26 (.x 0) (BitVec.ofNat 64 48),
      .stp 27 28 (.x 0) (BitVec.ofNat 64 64), .stp 29 30 (.x 0) (BitVec.ofNat 64 80),
      .movFromSp 9, .str 9 (.x 0) (BitVec.ofNat 64 96), .mrsDaif 9,
      .str 9 (.x 0) (BitVec.ofNat 64 104)] := rfl

theorem restoreContext_eq (new : Reg) : restoreContext new =
    [.ldr 9 (.x new) (BitVec.ofNat 64 96), .movToSp 9, .ldp 19 20 (.x new) (BitVec.ofNat 64 0),
      .ldp 21 22 (.x new) (BitVec.ofNat 64 16), .ldp 23 24 (.x new) (BitVec.ofNat 64 32),
      .ldp 25 26 (.x new) (BitVec.ofNat 64 48), .ldp 27 28 (.x new) (BitVec.ofNat 64 64),
      .ldp 29 30 (.x new) (BitVec.ofNat 64 80), .isb, .ldr 9 (.x new) (BitVec.ofNat 64 104),
      .msrDaif 9] := rfl

/-- The context at `a` is that of `s`, and nothing else but `x9` is changed. -/
structure Saved (a : Word) (s t : Cpu) : Prop where
  context : ArchContext.read t.mem a.toNat = ofCpu s
  frame : ∀ b, b < a.toNat ∨ a.toNat + ArchContext.SIZE ≤ b → t.mem b = s.mem b
  regs : ∀ r, r ≠ 9 → t.x r = s.x r
  kept : t.sp = s.sp ∧ t.pstate = s.pstate ∧ t.sys = s.sys

theorem line_saveContext {s : Cpu} {a : Word} (h : Region a ArchContext.SIZE) (ha : s.x 0 = a)
    (hel : s.pstate.el = 1) :
    ∃ t, s.line flat saveContext = some t ∧ Saved a s t := by
  have hupd {x : Reg → Word} (w : Word) (hx : x 0 = a) : Function.update x 9 w 0 = a :=
    (Function.update_of_ne (by decide) _ _).trans hx
  rw [saveContext_eq]
  simp (disch := first | exact base_x ha | exact base_x (hupd _ ha) |
      exact base_x (hupd _ (hupd _ ha)) | decide | exact hel) only
    [line_stp h, line_str h, line_movFromSp, line_mrsDaif, line_nil, Option.some.injEq,
      exists_eq_left', Function.update_self]
  refine ⟨?_, fun b hb => ?_, fun r hr => ?_, rfl, rfl, rfl⟩
  · simp only [ArchContext.read, ofCpu, ArchContext.mk.injEq]
    refine ⟨?_, ?_, ?_⟩
    · funext i
      fin_cases i <;> simp [store]
    · simp [store]
    · simp [store]
  · rw [ArchContext.SIZE] at hb
    simp only
    repeat rw [store_other _ _ (by omega)]
  · simp only [Function.update_of_ne hr]

/-- The context at `a` is taken over, and the memory is left as it is. -/
structure Restored (a : Word) (s t : Cpu) : Prop where
  context : (ArchContext.read s.mem a.toNat).Proper →
    ofCpu t = ArchContext.read s.mem a.toNat
  regs : ∀ r : Reg, r.val < 19 → r ≠ 9 → t.x r = s.x r
  kept : t.mem = s.mem ∧ t.sys = s.sys ∧ t.pstate = { s.pstate with daif := t.pstate.daif }

theorem line_restoreContext {s : Cpu} {new : Reg} {a : Word} (h : Region a ArchContext.SIZE)
    (ha : s.x new = a) (hnew : new.val < 9) (hel : s.pstate.el = 1) :
    ∃ t, s.line flat (restoreContext new) = some t ∧ Restored a s t := by
  have hupd {x : Reg → Word} {r : Reg} {w : Word} (hr : 9 ≤ r.val) (hx : x new = a) :
      Function.update x r w new = a :=
    (Function.update_of_ne (Fin.ne_of_val_ne (by omega)) _ _).trans hx
  rw [restoreContext_eq]
  simp (disch := first | exact hel | decide |
      (refine base_x ?_; (repeat refine hupd (by decide) ?_) <;> exact ha)) only
    [line_ldp h, line_ldr h, line_movToSp, line_msrDaif, line_isb, line_nil, Option.some.injEq,
      exists_eq_left']
  refine ⟨fun hproper => ?_, fun r hr h9 => ?_, rfl, rfl, rfl⟩
  · rw [ArchContext.Proper] at hproper
    simp only [ArchContext.read, ofCpu, ArchContext.mk.injEq] at hproper ⊢
    refine ⟨?_, ?_, ?_⟩
    · funext i
      fin_cases i <;> simp
    · simp
    · rw [Function.update_self]
      exact hproper
  · have hne (k : Reg) (hk : 19 ≤ k.val) : r ≠ k := Fin.ne_of_val_ne (by omega)
    simp [hne, h9]

/-- The old context is that of `s`, and the processor is that of the new one. -/
structure Switched (old new : Word) (s t : Cpu) : Prop where
  saved : ArchContext.read t.mem old.toNat = ofCpu s
  frame : ∀ b, b < old.toNat ∨ old.toNat + ArchContext.SIZE ≤ b → t.mem b = s.mem b
  context : (ArchContext.read s.mem new.toNat).Proper →
    ofCpu t = ArchContext.read s.mem new.toNat
  kept : t.sys = s.sys ∧ t.pstate = { s.pstate with daif := t.pstate.daif }

/-- Two contexts do not overlap. -/
def Apart (a b : Word) : Prop :=
  a.toNat + ArchContext.SIZE ≤ b.toNat ∨ b.toNat + ArchContext.SIZE ≤ a.toNat

theorem read_congr {m m' : Words} {a : Nat}
    (h : ∀ b, a ≤ b → b < a + ArchContext.SIZE → m' b = m b) :
    ArchContext.read m' a = ArchContext.read m a := by
  simp only [ArchContext.SIZE] at h
  simp only [ArchContext.read, ArchContext.mk.injEq]
  refine ⟨?_, h _ (by omega) (by omega), h _ (by omega) (by omega)⟩
  funext i
  exact h _ (by omega) (by omega)

section Runs

variable {code : Code} {s : Cpu} {old new : Word}

/-- `switch_context` up to its `ret`, which may be interrupted, as the new masks hold there. -/
theorem runs_switchContext (hat : At code s.pc.toNat switchContext)
    (hfits : s.pc.toNat + 4 * switchContext.length ≤ 2 ^ 64)
    (hold : Region old ArchContext.SIZE) (hnew : Region new ArchContext.SIZE)
    (hapart : Apart old new) (hx0 : s.x 0 = old) (hx1 : s.x 1 = new) (hel : s.pstate.el = 1)
    (hmasked : s.pstate.Masked) :
    ∃ t, Runs flat code (fun u => u.pstate.Masked) 21 s t ∧ code t.pc.toNat = some .ret ∧
      Switched old new s t := by
  rw [switchContext, At.append] at hat
  obtain ⟨u, hsave, hsaved⟩ := line_saveContext hold hx0 hel
  obtain ⟨-, hpstate, hsys⟩ := hsaved.kept
  obtain ⟨t, hrestore, hrestored⟩ := line_restoreContext hnew
    ((hsaved.regs 1 (by decide)).trans hx1) (by decide) (hpstate ▸ hel)
  have hline : s.line flat (saveContext ++ restoreContext 1) = some t := by
    rw [Cpu.line_append, hsave, Option.bind_some, hrestore]
  have hlength : (saveContext ++ restoreContext 1).length = 21 := rfl
  rw [show switchContext.length = 22 from rfl] at hfits
  obtain ⟨hruns, hpc⟩ := Runs.line_masked hat.1 (by omega) (by decide) (by decide) hline hmasked
  have hmem : ArchContext.read u.mem new.toNat = ArchContext.read s.mem new.toNat :=
    read_congr fun b hle hlt => hsaved.frame b (by
      rw [Apart] at hapart
      omega)
  obtain ⟨htmem, htsys, htpstate⟩ := hrestored.kept
  refine ⟨t, hruns, ?_, ?_, ?_, ?_, htsys.trans hsys, ?_⟩
  · have hret := (At.cons.mp hat.2).1
    rw [hlength] at hret hpc
    rw [hpc]
    have htoNat := flat_pc hfits (by omega : 4 * 21 < 4 * 22) s
    rw [flat, Option.some.injEq] at htoNat
    rw [htoNat]
    exact hret
  · rw [htmem]
    exact hsaved.context
  · intro b hb
    rw [htmem]
    exact hsaved.frame b hb
  · intro hproper
    rw [← hmem] at hproper ⊢
    exact hrestored.context hproper
  · rw [← hpstate]
    exact htpstate

/-- `load_context` up to its `ret`. -/
theorem runs_loadContext (hat : At code s.pc.toNat loadContext)
    (hfits : s.pc.toNat + 4 * loadContext.length ≤ 2 ^ 64)
    (hnew : Region new ArchContext.SIZE) (hx0 : s.x 0 = new) (hel : s.pstate.el = 1)
    (hmasked : s.pstate.Masked) :
    ∃ t, Runs flat code (fun u => u.pstate.Masked) 11 s t ∧ code t.pc.toNat = some .ret ∧
      Restored new s t := by
  rw [loadContext, At.append] at hat
  obtain ⟨t, hline, hrestored⟩ := line_restoreContext hnew hx0 (by decide) hel
  have hlength : (restoreContext 0).length = 11 := rfl
  rw [show loadContext.length = 12 from rfl] at hfits
  obtain ⟨hruns, hpc⟩ := Runs.line_masked hat.1 (by omega) (by decide) (by decide) hline hmasked
  refine ⟨t, hruns, ?_, hrestored⟩
  have hret := (At.cons.mp hat.2).1
  rw [hlength] at hret hpc
  have htoNat := flat_pc hfits (by omega : 4 * 11 < 4 * 12) s
  rw [flat, Option.some.injEq] at htoNat
  rw [hpc, htoNat]
  exact hret

/-- A task that runs for the first time gets to its entry, from where it would return into the
trampoline. -/
theorem stepN_entry {stackEnd entry cleanup trampoline : Word}
    (hnew : ofCpu s = .new stackEnd entry cleanup trampoline) (hret : code s.pc.toNat = some .ret)
    (hat : At code trampoline.toNat entryTrampoline) :
    stepN flat code 2 s = some { s with
      x := Function.update s.x 30 (trampoline + 4), pc := entry } := by
  rw [ofCpu, ArchContext.new, ArchContext.mk.injEq] at hnew
  obtain ⟨hx, -, -⟩ := hnew
  have hlink : s.x 30 = trampoline := congrFun hx 11
  have hentry : s.x 19 = entry := congrFun hx 0
  have hblr : code (s.x 30).toNat = some (.blr 19) := by
    rw [hlink]
    exact (At.cons.mp hat).1
  have hfirst : step flat code s = some { s with pc := s.x 30 } := step_flat hret
  rw [stepN, hfirst, Option.bind_some, stepN, step_flat hblr, Cpu.exec, Option.bind_some, stepN,
    Cpu.setX]
  simp only [hlink, hentry]

end Runs

end Kruspix.Arch.Context
