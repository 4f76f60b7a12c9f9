import Kruspix.Lib.A64.Run

/-!
# Evaluating straight lines

A straight line is evaluated from its first instruction on. Its loads and stores go to a region
of memory, at distances from its start that are known.
-/

namespace Kruspix.Lib.A64

open WordMemory

/-- Every address is mapped to itself. -/
def flat : Cpu.Mmu := fun _ a => some a.toNat

/-- A region of words that lies in the address space. -/
structure Region (a : Word) (size : Nat) : Prop where
  aligned : a.toNat % 8 = 0
  fits : a.toNat + size ≤ 2 ^ 64

section Region

variable {a : Word} {size : Nat} {s : Cpu}

theorem Region.toNat_add (h : Region a size) {k : Nat} (hk : k < size) :
    (a + BitVec.ofNat 64 k).toNat = a.toNat + k := by
  have hfits := h.fits
  rw [BitVec.toNat_add, BitVec.toNat_ofNat, Nat.mod_eq_of_lt (by omega : k < 2 ^ 64)]
  exact Nat.mod_eq_of_lt (by omega)

theorem Region.load (h : Region a size) {k : Nat} (hk : k < size) (h8 : k % 8 = 0) :
    s.load flat (a + BitVec.ofNat 64 k) = some (s.mem (a.toNat + k)) := by
  have haligned := h.aligned
  rw [Cpu.load, h.toNat_add hk, if_pos (by omega), flat, Option.map_some, h.toNat_add hk]

theorem Region.store (h : Region a size) {k : Nat} {w : Word} (hk : k < size) (h8 : k % 8 = 0) :
    s.store flat (a + BitVec.ofNat 64 k) w =
      some { s with mem := WordMemory.store s.mem (a.toNat + k) w } := by
  have haligned := h.aligned
  rw [Cpu.store, h.toNat_add hk, if_pos (by omega), flat, Option.map_some, h.toNat_add hk]

theorem add_ofNat_add_eight (a : Word) (k : Nat) :
    a + BitVec.ofNat 64 k + 8 = a + BitVec.ofNat 64 (k + 8) := by
  rw [BitVec.add_assoc, BitVec.ofNat_add]
  rfl

end Region

section Line

variable {mmu : Cpu.Mmu} {s : Cpu} {is : List Instr} {t t' n : Reg} {a : Word} {size k : Nat} {base : Base}

theorem base_x (hn : s.x n = a) : s.base (.x n) = some a := congrArg some hn

theorem base_sp (hel : s.pstate.el = 1) (hsp : s.sp = a) (h16 : a.toNat % 16 = 0) :
    s.base .sp = some a := by
  rw [Cpu.base, hsp, if_pos ⟨hel, h16⟩]

theorem line_stp (h : Region a size) (hbase : s.base base = some a) (hk : k + 8 < size)
    (h8 : k % 8 = 0) : s.line flat (.stp t t' base (BitVec.ofNat 64 k) :: is) =
      Cpu.line flat { s with
        mem := store (store s.mem (a.toNat + k) (s.x t)) (a.toNat + (k + 8)) (s.x t')
        pc := s.pc + 4 } is := by
  simp only [Cpu.line, Cpu.exec, hbase, Option.bind_eq_bind, Option.bind_some, Option.pure_def]
  rw [h.store (by omega) h8, Option.bind_some, add_ofNat_add_eight, h.store hk (by omega)]
  rfl

theorem line_str (h : Region a size) (hbase : s.base base = some a) (hk : k < size)
    (h8 : k % 8 = 0) : s.line flat (.str t base (BitVec.ofNat 64 k) :: is) =
      Cpu.line flat
        { s with mem := store s.mem (a.toNat + k) (s.x t), pc := s.pc + 4 } is := by
  simp only [Cpu.line, Cpu.exec, hbase, Option.bind_eq_bind, Option.bind_some, Option.pure_def]
  rw [h.store hk h8]
  rfl

theorem line_ldr (h : Region a size) (hbase : s.base base = some a) (hk : k < size)
    (h8 : k % 8 = 0) : s.line flat (.ldr t base (BitVec.ofNat 64 k) :: is) =
      Cpu.line flat { s with
        x := Function.update s.x t (s.mem (a.toNat + k))
        pc := s.pc + 4 } is := by
  simp only [Cpu.line, Cpu.exec, hbase, Option.bind_eq_bind, Option.bind_some, Option.pure_def]
  rw [h.load hk h8]
  rfl

theorem line_ldp (h : Region a size) (hbase : s.base base = some a) (hk : k + 8 < size)
    (h8 : k % 8 = 0) : s.line flat (.ldp t t' base (BitVec.ofNat 64 k) :: is) =
      Cpu.line flat { s with
        x := Function.update (Function.update s.x t (s.mem (a.toNat + k))) t'
          (s.mem (a.toNat + (k + 8)))
        pc := s.pc + 4 } is := by
  simp only [Cpu.line, Cpu.exec, hbase, Option.bind_eq_bind, Option.bind_some, Option.pure_def]
  rw [h.load (by omega) h8, Option.bind_some, add_ofNat_add_eight, h.load hk (by omega)]
  rfl

theorem line_movFromSp (hel : s.pstate.el = 1) : s.line mmu (.movFromSp t :: is) =
    Cpu.line mmu { s with x := Function.update s.x t s.sp, pc := s.pc + 4 } is := by
  rw [Cpu.line, Cpu.exec, if_pos hel]
  rfl

theorem line_movToSp (hel : s.pstate.el = 1) : s.line mmu (.movToSp t :: is) =
    Cpu.line mmu { s with sp := s.x t, pc := s.pc + 4 } is := by
  rw [Cpu.line, Cpu.exec, if_pos hel]
  rfl

theorem line_subSp {imm : Word} (hel : s.pstate.el = 1) : s.line mmu (.subSp imm :: is) =
    Cpu.line mmu { s with sp := s.sp - imm, pc := s.pc + 4 } is := by
  rw [Cpu.line, Cpu.exec, if_pos hel]
  rfl

theorem line_addSp {imm : Word} (hel : s.pstate.el = 1) : s.line mmu (.addSp imm :: is) =
    Cpu.line mmu { s with sp := s.sp + imm, pc := s.pc + 4 } is := by
  rw [Cpu.line, Cpu.exec, if_pos hel]
  rfl

theorem line_mrs {r : SysReg} (hlevel : r.level ≤ s.pstate.el) :
    s.line mmu (.mrs t r :: is) =
      Cpu.line mmu { s with x := Function.update s.x t (s.sys r), pc := s.pc + 4 } is := by
  rw [Cpu.line, Cpu.exec, if_pos hlevel]
  rfl

theorem line_msr {r : SysReg} (hlevel : r.level ≤ s.pstate.el) :
    s.line mmu (.msr r t :: is) =
      Cpu.line mmu { s with sys := Function.update s.sys r (s.x t), pc := s.pc + 4 } is := by
  rw [Cpu.line, Cpu.exec, if_pos hlevel]
  rfl

theorem line_mrsDaif : s.line mmu (.mrsDaif t :: is) = Cpu.line mmu { s with
    x := Function.update s.x t (s.pstate.daif.setWidth 64 <<< 6), pc := s.pc + 4 } is := rfl

theorem line_msrDaif : s.line mmu (.msrDaif t :: is) = Cpu.line mmu { s with
    pstate := { s.pstate with daif := (s.x t >>> 6).setWidth 4 }, pc := s.pc + 4 } is := rfl

theorem line_movImm {imm : Word} : s.line mmu (.movImm t imm :: is) =
    Cpu.line mmu { s with x := Function.update s.x t imm, pc := s.pc + 4 } is := rfl

theorem line_ldrLit {value : Word} : s.line mmu (.ldrLit t value :: is) =
    Cpu.line mmu { s with x := Function.update s.x t value, pc := s.pc + 4 } is := rfl

theorem line_mov : s.line mmu (.mov t n :: is) =
    Cpu.line mmu { s with x := Function.update s.x t (s.x n), pc := s.pc + 4 } is := rfl

theorem line_addReg : s.line mmu (.addReg t n t' :: is) =
    Cpu.line mmu { s with x := Function.update s.x t (s.x n + s.x t'), pc := s.pc + 4 } is := rfl

theorem line_addImm {imm : Word} : s.line mmu (.addImm t n imm :: is) =
    Cpu.line mmu { s with x := Function.update s.x t (s.x n + imm), pc := s.pc + 4 } is := rfl

theorem line_andImm {imm : Word} : s.line mmu (.andImm t n imm :: is) =
    Cpu.line mmu { s with x := Function.update s.x t (s.x n &&& imm), pc := s.pc + 4 } is := rfl

theorem line_orrImm {imm : Word} : s.line mmu (.orrImm t n imm :: is) =
    Cpu.line mmu { s with x := Function.update s.x t (s.x n ||| imm), pc := s.pc + 4 } is := rfl

theorem line_bicImm {imm : Word} : s.line mmu (.bicImm t n imm :: is) =
    Cpu.line mmu { s with x := Function.update s.x t (s.x n &&& ~~~imm), pc := s.pc + 4 } is := rfl

theorem line_lsrImm {shift : Nat} : s.line mmu (.lsrImm t n shift :: is) =
    Cpu.line mmu { s with x := Function.update s.x t (s.x n >>> shift), pc := s.pc + 4 } is := rfl

theorem line_adr {offset : Word} : s.line mmu (.adr t offset :: is) =
    Cpu.line mmu { s with x := Function.update s.x t (s.pc + offset), pc := s.pc + 4 } is := rfl

theorem line_mrsCurrentEl : s.line mmu (.mrsCurrentEl t :: is) = Cpu.line mmu { s with
    x := Function.update s.x t (BitVec.ofNat 64 s.pstate.el <<< 2), pc := s.pc + 4 } is := rfl

theorem line_isb : s.line mmu (.isb :: is) = Cpu.line mmu { s with pc := s.pc + 4 } is := rfl

theorem line_nil : s.line mmu [] = some s := rfl

end Line

section Masked

variable {code : Code} {s t : Cpu} {is : List Instr}

theorem flat_pc {k n : Nat} (hfits : s.pc.toNat + n ≤ 2 ^ 64) (hk : k < n) (u : Cpu) :
    flat u (s.pc + BitVec.ofNat 64 k) = some (s.pc.toNat + k) := by
  rw [flat, BitVec.toNat_add, BitVec.toNat_ofNat, Nat.mod_eq_of_lt (by omega : k < 2 ^ 64),
    Nat.mod_eq_of_lt (by omega)]

/-- No interrupt is taken on the way, if the line starts with interrupts masked and only its last
instruction writes the masks. -/
theorem Runs.line_masked (hat : At code s.pc.toNat is)
    (hfits : s.pc.toNat + 4 * is.length ≤ 2 ^ 64) (hstraight : ∀ i ∈ is, i.Straight)
    (hkeeps : ∀ i ∈ is.dropLast, i.KeepsMasks) (hline : s.line flat is = some t)
    (hmasked : s.pstate.Masked) :
    Runs flat code (fun u => u.pstate.Masked) is.length s t ∧
      t.pc = s.pc + BitVec.ofNat 64 (4 * is.length) := by
  refine Runs.line hat hstraight hline fun k hk u hu => ⟨flat_pc hfits (by omega) u, ?_⟩
  have htake : is.take k = is.dropLast.take k := by
    rw [List.dropLast_eq_take, List.take_take, Nat.min_eq_left (by omega)]
  rw [htake] at hu
  have hdaif := Cpu.line_daif (fun i hi => hkeeps i (List.mem_of_mem_take hi)) hu
  rw [PState.Masked, hdaif]
  exact hmasked

theorem step_flat {i : Instr} (hat : code s.pc.toNat = some i) :
    step flat code s = s.exec flat i := by
  rw [step, fetch, flat, Option.bind_some, hat, Option.bind_some]

section Branch

variable {mmu : Cpu.Mmu} {a target : Word}

theorem add_sub_target (a target : Word) : a + (target - a) = target := by
  rw [BitVec.add_comm, BitVec.sub_add_cancel]

/-- A branch has the distance to its target. -/
theorem exec_b (hpc : s.pc = a) : s.exec mmu (.b (target - a)) = some { s with pc := target } := by
  rw [Cpu.exec, hpc, add_sub_target]

theorem exec_bl (hpc : s.pc = a) :
    s.exec mmu (.bl (target - a)) = some { s.setX 30 (a + 4) with pc := target } := by
  rw [Cpu.exec, hpc, add_sub_target]

theorem exec_bCond {c : Cond} (hpc : s.pc = a) : s.exec mmu (.bCond c (target - a)) =
    some { s with pc := if c.holds s.pstate.nzcv then target else a + 4 } := by
  rw [Cpu.exec, hpc, add_sub_target, Cpu.next, hpc]
  split <;> rfl

end Branch

theorem step_b {target : Word} (hat : code s.pc.toNat = some (.b (target - s.pc))) :
    step flat code s = some { s with pc := target } :=
  (step_flat hat).trans (exec_b rfl)

theorem step_bl {target : Word} (hat : code s.pc.toNat = some (.bl (target - s.pc))) :
    step flat code s = some { s.setX 30 (s.pc + 4) with pc := target } :=
  (step_flat hat).trans (exec_bl rfl)

end Masked

end Kruspix.Lib.A64
