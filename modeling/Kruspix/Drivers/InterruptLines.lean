import Kruspix.Drivers.PendingInterrupt

/-!
# The lines of the ARM control logic

A line has a bank and a number in the bank. The device tree names it by these two cells, the
kernel by one number, and the registers by a bit in the register of the bank.
-/

namespace Kruspix.Drivers.InterruptController

open Kernel.Devicetree Kernel.Irq

def HWIRQ_BASIC_RANGE_START : Nat := 0

/-- The registers that enable and disable lines. -/
def ENABLE_IRQS_1_REG_OFFSET : Nat := 0x10
def ENABLE_IRQS_2_REG_OFFSET : Nat := 0x14
def ENABLE_BASIC_IRQS_REG_OFFSET : Nat := 0x18
def DISABLE_IRQS_1_REG_OFFSET : Nat := 0x1C
def DISABLE_IRQS_2_REG_OFFSET : Nat := 0x20
def DISABLE_BASIC_IRQS_REG_OFFSET : Nat := 0x24

/-- A write to a register of the controller. -/
structure RegWrite where
  offset : Nat
  value : Word
  deriving DecidableEq

/-- `1 << (hwirq - first)` is written, where neither operation may overflow. -/
def writeBit (offset hwirq first : Nat) : Except Fault RegWrite :=
  if hwirq < first ∨ 32 ≤ hwirq - first then .error .overflow
  else .ok ⟨offset, 1#32 <<< (hwirq - first)⟩

/-- Write the bit of a basic line to its enable register. -/
def enableBasicIrq (hwirq : Nat) : Except Fault RegWrite :=
  writeBit ENABLE_BASIC_IRQS_REG_OFFSET hwirq 0

/-- Write the bit of a line of bank 1 to its enable register. -/
def enableIrq1 (hwirq : Nat) : Except Fault RegWrite :=
  writeBit ENABLE_IRQS_1_REG_OFFSET hwirq HWIRQ_1_RANGE_START

/-- Write the bit of a line of bank 2 to its enable register. -/
def enableIrq2 (hwirq : Nat) : Except Fault RegWrite :=
  writeBit ENABLE_IRQS_2_REG_OFFSET hwirq HWIRQ_2_RANGE_START

/-- Write the bit of a basic line to its disable register. -/
def disableBasicIrq (hwirq : Nat) : Except Fault RegWrite :=
  writeBit DISABLE_BASIC_IRQS_REG_OFFSET hwirq 0

/-- Write the bit of a line of bank 1 to its disable register. -/
def disableIrq1 (hwirq : Nat) : Except Fault RegWrite :=
  writeBit DISABLE_IRQS_1_REG_OFFSET hwirq HWIRQ_1_RANGE_START

/-- Write the bit of a line of bank 2 to its disable register. -/
def disableIrq2 (hwirq : Nat) : Except Fault RegWrite :=
  writeBit DISABLE_IRQS_2_REG_OFFSET hwirq HWIRQ_2_RANGE_START

/-- The `match` of `enable` and of `disable` over the ranges of the banks. -/
def inRange (hwirq : Nat) (basic irqs1 irqs2 : Nat → Except Fault RegWrite) :
    Except Fault RegWrite :=
  if HWIRQ_BASIC_RANGE_START ≤ hwirq ∧ hwirq ≤ HWIRQ_BASIC_RANGE_END then basic hwirq
  else if HWIRQ_1_RANGE_START ≤ hwirq ∧ hwirq ≤ HWIRQ_1_RANGE_END then irqs1 hwirq
  else if HWIRQ_2_RANGE_START ≤ hwirq ∧ hwirq ≤ HWIRQ_2_RANGE_END then irqs2 hwirq
  else .error .unreachable

/-- Enable a line in the bank that it belongs to. -/
def enable (hwirq : Nat) : Except Fault RegWrite :=
  inRange hwirq enableBasicIrq enableIrq1 enableIrq2

/-- Disable a line in the bank that it belongs to. -/
def disable (hwirq : Nat) : Except Fault RegWrite :=
  inRange hwirq disableBasicIrq disableIrq1 disableIrq2

section Lines

/-- The number of lines of a bank. -/
def bankLines : Nat → Nat
  | 0 => 8
  | 1 => 32
  | 2 => 32
  | _ => 0

/-- A line of the controller. -/
structure Line where
  bank : Nat
  irq : Nat
  irq_lt : irq < bankLines bank

namespace Line

variable (l : Line)

/-- The line in the numbers of the kernel: the banks follow each other. -/
def hwirq : Nat := ((List.range l.bank).map bankLines).sum + l.irq

/-- The register that enables the lines of the bank. -/
def enableReg : Nat :=
  match l.bank with
  | 0 => ENABLE_BASIC_IRQS_REG_OFFSET
  | 1 => ENABLE_IRQS_1_REG_OFFSET
  | _ => ENABLE_IRQS_2_REG_OFFSET

/-- The register that disables the lines of the bank. -/
def disableReg : Nat :=
  match l.bank with
  | 0 => DISABLE_BASIC_IRQS_REG_OFFSET
  | 1 => DISABLE_IRQS_1_REG_OFFSET
  | _ => DISABLE_IRQS_2_REG_OFFSET

/-- The three banks. -/
theorem bank_cases : (l.bank = 0 ∧ l.irq < 8 ∧ l.hwirq = l.irq) ∨
    (l.bank = 1 ∧ l.irq < 32 ∧ l.hwirq = 8 + l.irq) ∨
    l.bank = 2 ∧ l.irq < 32 ∧ l.hwirq = 40 + l.irq := by
  obtain ⟨bank, irq, hlt⟩ := l
  match bank, hlt with
  | 0, hlt => exact .inl ⟨rfl, hlt, Nat.zero_add irq⟩
  | 1, hlt => exact .inr (.inl ⟨rfl, hlt, rfl⟩)
  | 2, hlt => exact .inr (.inr ⟨rfl, hlt, rfl⟩)

/-- Two lines have different numbers. -/
theorem eq_of_hwirq_eq {l m : Line} (h : l.hwirq = m.hwirq) : l.bank = m.bank ∧ l.irq = m.irq := by
  rcases l.bank_cases with ⟨hl, hlt, hhw⟩ | ⟨hl, hlt, hhw⟩ | ⟨hl, hlt, hhw⟩ <;>
    rcases m.bank_cases with ⟨hm, hmt, hmw⟩ | ⟨hm, hmt, hmw⟩ | ⟨hm, hmt, hmw⟩ <;> omega

end Line

end Lines

/-- The number in the second cell does not fit 32 bits once the start of its bank is added. -/
def Overflows : List Nat → Prop
  | bank :: intNum :: _ =>
      (bank = 1 ∧ 2 ^ 32 ≤ intNum + HWIRQ_1_RANGE_START) ∨
        (bank = 2 ∧ 2 ^ 32 ≤ intNum + HWIRQ_2_RANGE_START)
  | _ => False

/-- A specifier is translated exactly if it names a line, and without a panic. Different lines
have different numbers, and a number writes the bit of its line. -/
structure Serves (device : ControllerDevice) (specifier : List Nat) : Prop where
  isOk : (∃ hwirq, device.xlate specifier = .ok hwirq) ↔
    ∃ (l : Line) (rest : List Nat), specifier = l.bank :: l.irq :: rest
  total : ∀ fault, device.xlate specifier ≠ .error (.panic fault)
  lt : ∀ hwirq, device.xlate specifier = .ok hwirq → hwirq < HWIRQ_COUNT
  distinct : ∀ hwirq other, device.xlate specifier = .ok hwirq →
    device.xlate other = .ok hwirq → other.take 2 = specifier.take 2
  writes : ∀ hwirq, device.xlate specifier = .ok hwirq →
    ∃ (l : Line) (value : Word), specifier.take 2 = [l.bank, l.irq] ∧
      (∀ i < 32, value.getLsbD i = decide (i = l.irq)) ∧
      enable hwirq = .ok ⟨l.enableReg, value⟩ ∧ disable hwirq = .ok ⟨l.disableReg, value⟩

section Specs

variable {device : ControllerDevice} {id hwirq : Nat} {virqBase : Option Nat}
  {specifier : List Nat} {fault : Fault}

/-- A line is translated to its number. -/
theorem xlate_line (l : Line) (rest : List Nat) :
    (ControllerDevice.armctrl id virqBase).xlate (l.bank :: l.irq :: rest) = .ok l.hwirq := by
  rcases l.bank_cases with ⟨hbank, hlt, hhw⟩ | ⟨hbank, hlt, hhw⟩ | ⟨hbank, hlt, hhw⟩
  · simp only [ControllerDevice.xlate, hbank, hhw]
    exact if_neg (Nat.not_lt.mpr (Nat.le_of_lt_succ hlt))
  · simp only [ControllerDevice.xlate, hbank, hhw, Nat.add_comm 8]
    exact PendingRegs.bankLine_of_lt hlt rfl (by decide)
  · simp only [ControllerDevice.xlate, hbank, hhw, Nat.add_comm 40]
    exact PendingRegs.bankLine_of_lt hlt rfl (by decide)

/-- Only lines are translated. -/
theorem exists_line (h : (ControllerDevice.armctrl id virqBase).xlate specifier = .ok hwirq) :
    ∃ (l : Line) (rest : List Nat), specifier = l.bank :: l.irq :: rest ∧ hwirq = l.hwirq := by
  rcases specifier with - | ⟨bank, - | ⟨intNum, rest⟩⟩
  · cases h
  · cases h
  · have hline (l : Line) (hbank : bank = l.bank) (hirq : intNum = l.irq) :
        ∃ (l : Line) (rest' : List Nat), bank :: intNum :: rest = l.bank :: l.irq :: rest' ∧
          hwirq = l.hwirq := by
      subst hbank hirq
      exact ⟨l, rest, rfl, Except.ok.inj (h.symm.trans (xlate_line l rest))⟩
    have hlt {first last : Nat} (hlast : first + 31 = last)
        (hb : bankLine intNum first last = .ok hwirq) : intNum < 32 := by
      simp only [bankLine] at hb
      split_ifs at hb
      omega
    simp only [ControllerDevice.xlate] at h
    split at h
    · split_ifs at h with hgt
      exact hline ⟨0, intNum, Nat.lt_succ_of_le (Nat.le_of_not_lt hgt)⟩ rfl rfl
    · exact hline ⟨1, intNum, hlt rfl h⟩ rfl rfl
    · exact hline ⟨2, intNum, hlt rfl h⟩ rfl rfl
    · cases h

/-- The addition is the only way to panic. -/
theorem exists_panic_iff : (∃ fault, (ControllerDevice.armctrl id virqBase).xlate specifier =
    .error (.panic fault)) ↔ Overflows specifier := by
  have hbank {intNum first last : Nat} :
      (∃ fault, bankLine intNum first last = .error (.panic fault)) ↔
        2 ^ 32 ≤ intNum + first := by
    rw [bankLine]
    split_ifs with hover hlast
    · exact iff_of_true ⟨_, rfl⟩ hover
    · apply iff_of_false _ hover
      rintro ⟨_, h⟩
      cases h
    · apply iff_of_false _ hover
      rintro ⟨_, h⟩
      cases h
  rcases specifier with - | ⟨bank, - | ⟨intNum, rest⟩⟩
  · apply iff_of_false _ False.elim
    rintro ⟨_, h⟩
    cases h
  · apply iff_of_false _ False.elim
    rintro ⟨_, h⟩
    cases h
  · simp only [ControllerDevice.xlate, Overflows]
    split
    · refine iff_of_false ?_ (by omega)
      rintro ⟨fault, h⟩
      split_ifs at h
      cases h
    · rw [hbank]
      omega
    · rw [hbank]
      omega
    · rename_i h1 h2
      apply iff_of_false
      · rintro ⟨_, h⟩
        cases h
      · rintro (⟨rfl, -⟩ | ⟨rfl, -⟩)
        · exact h1 rfl
        · exact h2 rfl

theorem writeBit_of_lt {offset irq first : Nat} (h : irq < 32) :
    writeBit offset (first + irq) first = .ok ⟨offset, 1#32 <<< irq⟩ := by
  rw [writeBit, Nat.add_sub_cancel_left]
  exact if_neg (by omega)

/-- The range of a number is that of the bank of its line. -/
theorem inRange_hwirq (l : Line) (basic irqs1 irqs2 : Nat → Except Fault RegWrite) :
    inRange l.hwirq basic irqs1 irqs2 =
      match l.bank with
      | 0 => basic l.hwirq
      | 1 => irqs1 l.hwirq
      | _ => irqs2 l.hwirq := by
  have hbasic : HWIRQ_BASIC_RANGE_START ≤ l.hwirq ∧ l.hwirq ≤ HWIRQ_BASIC_RANGE_END ↔
      l.bank = 0 := by
    simp only [HWIRQ_BASIC_RANGE_START, HWIRQ_BASIC_RANGE_END]
    rcases l.bank_cases with h | h | h <;> omega
  have hirqs1 : HWIRQ_1_RANGE_START ≤ l.hwirq ∧ l.hwirq ≤ HWIRQ_1_RANGE_END ↔ l.bank = 1 := by
    simp only [HWIRQ_1_RANGE_START, HWIRQ_1_RANGE_END]
    rcases l.bank_cases with h | h | h <;> omega
  have hirqs2 : HWIRQ_2_RANGE_START ≤ l.hwirq ∧ l.hwirq ≤ HWIRQ_2_RANGE_END ↔ l.bank = 2 := by
    simp only [HWIRQ_2_RANGE_START, HWIRQ_2_RANGE_END]
    rcases l.bank_cases with h | h | h <;> omega
  simp only [inRange, hbasic, hirqs1, hirqs2]
  rcases l.bank_cases with ⟨hbank, -⟩ | ⟨hbank, -⟩ | ⟨hbank, -⟩
  · simp only [hbank, if_true]
  · simp only [hbank, if_true, one_ne_zero, if_false]
  · simp only [hbank, if_true, OfNat.ofNat_ne_zero, OfNat.ofNat_ne_one, if_false]

/-- A number enables and disables its line by the bit of the line. -/
theorem enable_hwirq (l : Line) : enable l.hwirq = .ok ⟨l.enableReg, 1#32 <<< l.irq⟩ ∧
    disable l.hwirq = .ok ⟨l.disableReg, 1#32 <<< l.irq⟩ := by
  rw [enable, disable, inRange_hwirq, inRange_hwirq, Line.enableReg, Line.disableReg]
  rcases l.bank_cases with ⟨hbank, hlt, hhw⟩ | ⟨hbank, hlt, hhw⟩ | ⟨hbank, hlt, hhw⟩
  · have hbit (offset : Nat) : writeBit offset l.irq 0 = .ok ⟨offset, 1#32 <<< l.irq⟩ := by
      have h := @writeBit_of_lt offset l.irq 0 (by omega)
      rwa [Nat.zero_add] at h
    rw [hbank, hhw]
    exact ⟨hbit _, hbit _⟩
  · rw [hbank, hhw]
    exact ⟨writeBit_of_lt hlt, writeBit_of_lt hlt⟩
  · rw [hbank, hhw]
    exact ⟨writeBit_of_lt hlt, writeBit_of_lt hlt⟩

/-- The word with the bit of a line has that bit only. -/
theorem getLsbD_bit {irq i : Nat} (hi : i < 32) :
    (1#32 <<< irq).getLsbD i = decide (i = irq) := by
  rw [← BitVec.twoPow_eq, BitVec.getLsbD_twoPow]
  by_cases h : irq = i
  · subst h
    simp only [hi, decide_true, Bool.and_true]
  · simp only [h, Ne.symm h, decide_false, Bool.and_false]

end Specs

/-- A specifier is served exactly if the number of its line does not overflow. -/
theorem xlate_serves_iff (id : Nat) (virqBase : Option Nat) (specifier : List Nat) :
    Serves (.armctrl id virqBase) specifier ↔ ¬Overflows specifier := by
  rw [← @exists_panic_iff id virqBase]
  constructor
  · rintro h ⟨fault, hpanic⟩
    exact h.total fault hpanic
  · intro hpanic
    refine ⟨⟨?_, ?_⟩, fun fault h => hpanic ⟨fault, h⟩, fun hwirq h => xlate_lt h, ?_, ?_⟩
    · rintro ⟨hwirq, h⟩
      obtain ⟨l, rest, heq, -⟩ := exists_line h
      exact ⟨l, rest, heq⟩
    · rintro ⟨l, rest, rfl⟩
      exact ⟨l.hwirq, xlate_line l rest⟩
    · intro hwirq other h hother
      obtain ⟨l, rest, rfl, hhw⟩ := exists_line h
      obtain ⟨m, rest', rfl, hhw'⟩ := exists_line hother
      obtain ⟨hbank, hirq⟩ := Line.eq_of_hwirq_eq (hhw.symm.trans hhw')
      simp only [List.take_succ_cons, List.take_zero, hbank, hirq]
    · intro hwirq h
      obtain ⟨l, rest, rfl, rfl⟩ := exists_line h
      obtain ⟨henable, hdisable⟩ := enable_hwirq l
      exact ⟨l, 1#32 <<< l.irq, rfl, fun i hi => getLsbD_bit hi, henable, hdisable⟩

/-- In bank 1 the number `0xfffffff8` is not refused. -/
theorem xlate_not_serves :
    ¬Serves (.armctrl 0 none) [1, 0xfffffff8] ∧
      (ControllerDevice.armctrl 0 none).xlate [1, 0xfffffff8] = .error (.panic .overflow) := by
  refine ⟨fun h => h.total .overflow ?_, ?_⟩ <;> decide

end Kruspix.Drivers.InterruptController
