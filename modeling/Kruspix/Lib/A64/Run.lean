import Kruspix.Lib.A64.Machine

/-!
# Runs of machine code

A run goes from instruction to instruction. `Runs` asks a property of every state in which an
instruction starts, such as that no interrupt can be taken there. A straight line of
instructions is evaluated on its own and then placed in memory.
-/

namespace Kruspix.Lib.A64

open WordMemory

/-- Instructions by their physical address. -/
abbrev Code := Nat → Option Instr

variable {mmu : Cpu.Mmu} {code : Code} {P : Cpu → Prop} {s t u : Cpu}

/-- The instruction at the program counter. -/
def fetch (mmu : Cpu.Mmu) (code : Code) (s : Cpu) : Option Instr := (mmu s s.pc).bind code

/-- Fetch and execute one instruction. -/
def step (mmu : Cpu.Mmu) (code : Code) (s : Cpu) : Option Cpu :=
  (fetch mmu code s).bind (s.exec mmu)

/-- The state after this many instructions. -/
def stepN (mmu : Cpu.Mmu) (code : Code) : Nat → Cpu → Option Cpu
  | 0, s => some s
  | n + 1, s => (step mmu code s).bind (stepN mmu code n)

/-- So many instructions, each of which starts in a state with `P`. -/
inductive Runs (mmu : Cpu.Mmu) (code : Code) (P : Cpu → Prop) : Nat → Cpu → Cpu → Prop
  | refl (s : Cpu) : Runs mmu code P 0 s s
  | step {n : Nat} {s t u : Cpu} (hs : P s) (hst : step mmu code s = some t)
      (h : Runs mmu code P n t u) : Runs mmu code P (n + 1) s u

theorem Runs.stepN {n : Nat} (h : Runs mmu code P n s t) : stepN mmu code n s = some t := by
  induction h with
  | refl => rfl
  | step _ hst _ ih =>
      rw [A64.stepN, hst, Option.bind_some]
      exact ih

theorem Runs.trans {m n : Nat} (h : Runs mmu code P m s t) (h' : Runs mmu code P n t u) :
    Runs mmu code P (n + m) s u := by
  induction h with
  | refl => exact h'
  | step hs hst _ ih => exact .step hs hst (ih h')

theorem Runs.single (hs : P s) (hst : A64.step mmu code s = some t) : Runs mmu code P 1 s t :=
  .step hs hst (.refl t)

theorem step_of_fetch {i : Instr} (hfetch : fetch mmu code s = some i) :
    step mmu code s = s.exec mmu i := by
  rw [step, hfetch, Option.bind_some]

/-- The instructions lie behind each other from this physical address on. -/
def At (code : Code) (p : Nat) (is : List Instr) : Prop :=
  ∀ k (h : k < is.length), code (p + 4 * k) = some is[k]

instance (code : Code) (p : Nat) (is : List Instr) : Decidable (At code p is) := by
  unfold At
  infer_instance

/-- A part of memory with these instructions. -/
def segment (p : Nat) (is : List Instr) : Code := fun a =>
  if p ≤ a ∧ (a - p) % 4 = 0 then is[(a - p) / 4]? else none

theorem At.cons {p : Nat} {i : Instr} {is : List Instr} :
    At code p (i :: is) ↔ code p = some i ∧ At code (p + 4) is := by
  constructor
  · intro h
    refine ⟨h 0 (Nat.zero_lt_succ _), fun k hk => ?_⟩
    have hnext := h (k + 1) (Nat.succ_lt_succ hk)
    rw [List.getElem_cons_succ] at hnext
    rw [← hnext]
    congr 1
    omega
  · rintro ⟨hfirst, hrest⟩ k hk
    cases k with
    | zero => exact hfirst
    | succ k =>
        have hnext := hrest k (Nat.lt_of_succ_lt_succ hk)
        rw [List.getElem_cons_succ, ← hnext]
        congr 1
        omega

theorem At.append {p : Nat} {is js : List Instr} :
    At code p (is ++ js) ↔ At code p is ∧ At code (p + 4 * is.length) js := by
  induction is generalizing p with
  | nil => simp [At]
  | cons i is ih =>
      rw [List.cons_append, At.cons, At.cons, ih, and_assoc, List.length_cons]
      have haddr : p + 4 + 4 * is.length = p + 4 * (is.length + 1) := by omega
      rw [haddr]

/-- The next instruction follows in memory. -/
def Instr.Straight : Instr → Bool
  | .b _ | .bCond _ _ | .cbz _ _ | .bl _ | .blr _ | .ret | .eret => false
  | _ => true

/-- A list of instructions, one after the other. -/
def Cpu.line (mmu : Cpu.Mmu) : Cpu → List Instr → Option Cpu
  | s, [] => some s
  | s, i :: is => (s.exec mmu i).bind fun t => t.line mmu is

theorem Cpu.line_append (mmu : Cpu.Mmu) (s : Cpu) (is js : List Instr) :
    s.line mmu (is ++ js) = (s.line mmu is).bind fun t => t.line mmu js := by
  induction is generalizing s with
  | nil => rfl
  | cons i is ih =>
      rw [List.cons_append, Cpu.line, Cpu.line, Option.bind_assoc]
      congr 1
      funext t
      exact ih t

theorem Cpu.store_eq {a w : Word} (h : s.store mmu a w = some t) :
    ∃ m, t = { s with mem := m } := by
  simp only [Cpu.store, Option.ite_none_right_eq_some, Option.map_eq_some_iff] at h
  obtain ⟨-, p, -, rfl⟩ := h
  exact ⟨_, rfl⟩

/-- The instructions of a straight line that leave the interrupt masks alone. -/
def Instr.KeepsMasks : Instr → Bool
  | .msrDaif _ => false
  | i => i.Straight

/-- The instruction writes memory. -/
def Instr.Stores : Instr → Bool
  | .str _ _ _ | .strPost _ _ _ | .stp _ _ _ _ => true
  | _ => false

/-- The instruction writes the system register. -/
def Instr.WritesSys (r : SysReg) : Instr → Bool
  | .msr r' _ => r' == r
  | _ => false

/-- What an instruction of a straight line may change. -/
structure Effect (i : Instr) (s t : Cpu) : Prop where
  pc : t.pc = s.pc + 4
  mode : t.pstate.mode = s.pstate.mode
  daif : i.KeepsMasks → t.pstate.daif = s.pstate.daif
  sys : ∀ r, i.WritesSys r = false → t.sys r = s.sys r
  mem : i.Stores = false → t.mem = s.mem

theorem Cpu.exec_effect {i : Instr} (hi : i.Straight) (h : s.exec mmu i = some t) :
    Effect i s t := by
  cases i with
  | b | bCond | cbz | bl | blr | ret | eret => cases hi
  | movImm | ldrLit | mov | addReg | addImm | andImm | orrImm | bicImm | lsrImm | cmpImm | cmpReg
  | adr | mrsCurrentEl | mrsDaif | isb | wfe | wfi =>
      cases h
      exact ⟨rfl, rfl, fun _ => rfl, fun _ _ => rfl, fun _ => rfl⟩
  | msrDaif =>
      cases h
      exact ⟨rfl, rfl, nofun, fun _ _ => rfl, fun _ => rfl⟩
  | movFromSp | movToSp | addSp | subSp | mrs =>
      simp only [Cpu.exec, Option.ite_none_right_eq_some] at h
      obtain ⟨-, h⟩ := h
      cases h
      exact ⟨rfl, rfl, fun _ => rfl, fun _ _ => rfl, fun _ => rfl⟩
  | msr r n =>
      simp only [Cpu.exec, Option.ite_none_right_eq_some] at h
      obtain ⟨-, h⟩ := h
      cases h
      refine ⟨rfl, rfl, fun _ => rfl, fun r' hr => ?_, fun _ => rfl⟩
      simp only [Instr.WritesSys, beq_eq_false_iff_ne] at hr
      exact Function.update_of_ne hr.symm _ _
  | ldr | ldp =>
      simp only [Cpu.exec, Option.bind_eq_bind, Option.bind_eq_some_iff, Option.pure_def] at h
      refine ⟨?_, ?_, fun _ => ?_, fun _ _ => ?_, fun _ => ?_⟩ <;> grind [Cpu.next, Cpu.setX]
  | str =>
      simp only [Cpu.exec, Option.bind_eq_bind, Option.bind_eq_some_iff, Option.pure_def] at h
      obtain ⟨a, -, u, hstore, h⟩ := h
      obtain ⟨m, rfl⟩ := Cpu.store_eq hstore
      cases h
      exact ⟨rfl, rfl, fun _ => rfl, fun _ _ => rfl, nofun⟩
  | strPost =>
      simp only [Cpu.exec, Option.bind_eq_bind, Option.bind_eq_some_iff, Option.pure_def] at h
      obtain ⟨u, hstore, h⟩ := h
      obtain ⟨m, rfl⟩ := Cpu.store_eq hstore
      cases h
      exact ⟨rfl, rfl, fun _ => rfl, fun _ _ => rfl, nofun⟩
  | stp =>
      simp only [Cpu.exec, Option.bind_eq_bind, Option.bind_eq_some_iff, Option.pure_def] at h
      obtain ⟨a, -, u, hstore, v, hstore', h⟩ := h
      obtain ⟨m, rfl⟩ := Cpu.store_eq hstore
      obtain ⟨m', rfl⟩ := Cpu.store_eq hstore'
      cases h
      exact ⟨rfl, rfl, fun _ => rfl, fun _ _ => rfl, nofun⟩

theorem Instr.KeepsMasks.straight {i : Instr} (h : i.KeepsMasks) : i.Straight := by
  cases i <;> first | rfl | cases h

/-- An instruction that stores one word at most depends on the translation in the state that it
starts in. -/
theorem Cpu.exec_congr {mmu' : Cpu.Mmu} {i : Instr} (h : mmu s = mmu' s)
    (hi : ∀ t t' base imm, i ≠ .stp t t' base imm) : s.exec mmu i = s.exec mmu' i := by
  cases i with
  | stp t t' base imm => exact absurd rfl (hi t t' base imm)
  | ldr | ldp => simp only [Cpu.exec, Cpu.load, h]
  | str | strPost => simp only [Cpu.exec, Cpu.store, h]
  | _ => rfl

/-- What every instruction of a line keeps, the line keeps. -/
theorem Cpu.line_invariant {Q : Cpu → Prop} {is : List Instr}
    (his : ∀ i ∈ is, ∀ u v, Q u → u.exec mmu i = some v → Q v) (hs : Q s)
    (h : s.line mmu is = some t) : Q t := by
  induction is generalizing s with
  | nil =>
      cases h
      exact hs
  | cons i is ih =>
      rw [Cpu.line, Option.bind_eq_some_iff] at h
      obtain ⟨u, hexec, hline⟩ := h
      exact ih (fun j hj => his j (List.mem_cons_of_mem i hj))
        (his i List.mem_cons_self s u hs hexec) hline

theorem Cpu.line_daif {is : List Instr} (his : ∀ i ∈ is, i.KeepsMasks)
    (h : s.line mmu is = some t) : t.pstate.daif = s.pstate.daif := by
  refine @Cpu.line_invariant _ s t (fun u => u.pstate.daif = s.pstate.daif) is
    (fun i hi u v hu hexec => ?_) rfl h
  exact ((Cpu.exec_effect (Instr.KeepsMasks.straight (his i hi)) hexec).daif (his i hi)).trans hu

/-- A straight line that is found in memory is run, if `P` holds wherever it gets to. -/
theorem Runs.line {is : List Instr} {p : Nat} (hat : At code p is)
    (hstraight : ∀ i ∈ is, i.Straight) (hline : s.line mmu is = some t)
    (hmmu : ∀ k < is.length, ∀ u, s.line mmu (is.take k) = some u →
      mmu u (s.pc + BitVec.ofNat 64 (4 * k)) = some (p + 4 * k) ∧ P u) :
    Runs mmu code P is.length s t ∧ t.pc = s.pc + BitVec.ofNat 64 (4 * is.length) := by
  induction is generalizing s p with
  | nil =>
      cases hline
      exact ⟨.refl _, by simp⟩
  | cons i is ih =>
      obtain ⟨hfirst, hrest⟩ := At.cons.mp hat
      rw [Cpu.line, Option.bind_eq_some_iff] at hline
      obtain ⟨u, hexec, hline⟩ := hline
      have hpc := (Cpu.exec_effect (hstraight i List.mem_cons_self) hexec).pc
      have hshift (k : Nat) : u.pc + BitVec.ofNat 64 (4 * k) =
          s.pc + BitVec.ofNat 64 (4 * (k + 1)) := by
        rw [hpc, BitVec.add_assoc, Nat.mul_succ, Nat.add_comm (4 * k), BitVec.ofNat_add]
        rfl
      obtain ⟨htranslate, hP⟩ := hmmu 0 (Nat.zero_lt_succ _) s rfl
      have hfetch : fetch mmu code s = some i := by
        simp only [Nat.mul_zero, BitVec.add_zero, Nat.add_zero] at htranslate
        rw [fetch, htranslate, Option.bind_some]
        exact hfirst
      have hmmu' (k : Nat) (hk : k < is.length) (v : Cpu)
          (hv : u.line mmu (is.take k) = some v) :
          mmu v (u.pc + BitVec.ofNat 64 (4 * k)) = some (p + 4 + 4 * k) ∧ P v := by
        have hnext := hmmu (k + 1) (Nat.succ_lt_succ hk) v (by
          rw [List.take_succ_cons, Cpu.line, hexec, Option.bind_some]
          exact hv)
        have haddr : p + 4 + 4 * k = p + 4 * (k + 1) := by omega
        rw [hshift, haddr]
        exact hnext
      have htail := ih hrest (fun j hj => hstraight j (List.mem_cons_of_mem i hj)) hline hmmu'
      refine ⟨.step hP ((step_of_fetch hfetch).trans hexec) htail.1, ?_⟩
      rw [htail.2, hshift, List.length_cons]

end Kruspix.Lib.A64
