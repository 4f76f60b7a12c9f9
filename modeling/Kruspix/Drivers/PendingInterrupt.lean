import Kruspix.Drivers.InterruptController
import Mathlib.Tactic.IntervalCases

/-!
# The pending line of the ARM control logic

The lines of the two banks are seen in the basic pending register through two
summary bits and eleven bits of their own. The line that is dispatched is found
from the lowest bit that is set there.
-/

namespace Kruspix.Drivers.InterruptController

open Kernel.Devicetree Kernel.Irq

abbrev Word := BitVec 32

def HWIRQ_COUNT : Nat := 72

/-- The pending registers. -/
structure PendingRegs where
  basic : Word
  pending1 : Word
  pending2 : Word

/-- `pending_hwirq`, for registers that do not change while it runs. -/
def pendingHwirq (regs : PendingRegs) : Except Fault (Option Nat) :=
  if regs.basic = 0#32 then .ok none
  else
    let next := regs.basic.ctz.toNat
    if next ≤ HWIRQ_BASIC_RANGE_END then .ok (some next)
    else if next = 8 then
      if regs.pending1 = 0#32 then .ok none
      else .ok (some (regs.pending1.ctz.toNat + HWIRQ_1_RANGE_START))
    else if next = 9 then
      if regs.pending2 = 0#32 then .ok none
      else .ok (some (regs.pending2.ctz.toNat + HWIRQ_2_RANGE_START))
    else if next = 10 then .ok (some (next - 3 + HWIRQ_1_RANGE_START))
    else if next ≤ 12 then .ok (some (next - 2 + HWIRQ_1_RANGE_START))
    else if next ≤ 14 then .ok (some (next + 5 + HWIRQ_1_RANGE_START))
    else if next ≤ 19 then .ok (some (next + 38 + HWIRQ_1_RANGE_START))
    else if next = 20 then .ok (some (next + 42 + HWIRQ_2_RANGE_START))
    else .error .unreachable

/-- The line with the specifier `bank`, `irq` is raised. -/
def PendingRegs.raised (regs : PendingRegs) (bank irq : Nat) : Bool :=
  match bank with
  | 0 => decide (irq ≤ HWIRQ_BASIC_RANGE_END) && regs.basic.getLsbD irq
  | 1 => regs.pending1.getLsbD irq
  | 2 => regs.pending2.getLsbD irq
  | _ => false

/-- The interrupts of the two banks with a bit of their own in the basic register, from bit 10
on. Those from 32 on are in bank 2. -/
def SHORTCUTS : List Nat := [7, 9, 10, 18, 19, 53, 54, 55, 56, 57, 62]

/-- The registers are in a state that the controller can present. -/
structure PendingRegs.Presents (regs : PendingRegs) : Prop where
  shortcut : ∀ p ∈ SHORTCUTS.zipIdx 10,
    regs.basic.getLsbD p.2 = regs.raised (1 + p.1 / 32) (p.1 % 32)
  summary : ∀ bank < 2, regs.basic.getLsbD (8 + bank) = true ↔
    ∃ irq < 32, 32 * bank + irq ∉ SHORTCUTS ∧ regs.raised (1 + bank) irq = true
  zero : ∀ i < 32, 21 ≤ i → regs.basic.getLsbD i = false

/-- The line that is found is a line of the controller and is raised. No line is found only
when none is raised. -/
def PendingRegs.Dispatches (regs : PendingRegs) (device : ControllerDevice) : Prop :=
  (pendingHwirq regs = .ok none ∧ ∀ bank irq, regs.raised bank irq = false) ∨
    ∃ hwirq bank irq, pendingHwirq regs = .ok (some hwirq) ∧ hwirq < HWIRQ_COUNT ∧
      device.xlate [bank, irq] = .ok hwirq ∧ regs.raised bank irq = true

/-- The line is raised and no other is. -/
def PendingRegs.Only (regs : PendingRegs) (bank irq : Nat) : Prop :=
  ∀ b i, regs.raised b i = true ↔ b = bank ∧ i = irq

section LowestBit

variable {x : Word}

theorem ctz_lt (hx : x ≠ 0#32) : x.ctz.toNat < 32 := by
  have hlt := BitVec.ctz_lt_iff_ne_zero.mpr hx
  rw [BitVec.lt_def] at hlt
  exact hlt

/-- No bit below the lowest set bit is set. -/
theorem ctz_le {i : Nat} (hi : x.getLsbD i = true) : x.ctz.toNat ≤ i := by
  by_contra hlt
  rw [BitVec.getLsbD_false_of_lt_ctz (Nat.lt_of_not_le hlt)] at hi
  cases hi

end LowestBit

namespace PendingRegs

variable {regs : PendingRegs}

theorem exists_shortcut : ∀ gpu ∈ SHORTCUTS, ∃ p ∈ SHORTCUTS.zipIdx 10, p.1 = gpu := by decide

theorem shortcut_twenty : ∀ p ∈ SHORTCUTS.zipIdx 10, p.2 = 20 → p.1 = 62 := by decide

/-- A raised line shows in the basic register, and only interrupt 62 shows in bit 20. -/
theorem Presents.shown (h : regs.Presents) {bank irq : Nat} (hraised : regs.raised bank irq = true) :
    ∃ i, regs.basic.getLsbD i = true ∧ (i = 20 → bank = 2 ∧ irq = 30) := by
  have hbank (b : Nat) (hb : b < 2) (hirq : irq < 32) (hr : regs.raised (1 + b) irq = true) :
      ∃ i, regs.basic.getLsbD i = true ∧ (i = 20 → 1 + b = 2 ∧ irq = 30) := by
    by_cases hmem : 32 * b + irq ∈ SHORTCUTS
    · obtain ⟨p, hp, hgpu⟩ := exists_shortcut _ hmem
      have hbit := h.shortcut p hp
      rw [hgpu, Nat.mul_add_div (by omega), Nat.div_eq_of_lt hirq, Nat.add_zero, Nat.mul_add_mod,
        Nat.mod_eq_of_lt hirq, hr] at hbit
      refine ⟨p.2, hbit, fun htwenty => ?_⟩
      rw [shortcut_twenty p hp htwenty] at hgpu
      omega
    · exact ⟨8 + b, (h.summary b hb).mpr ⟨irq, hirq, hmem, hr⟩, fun htwenty => by omega⟩
  rcases bank with _ | _ | _ | bank
  · obtain ⟨hle, hbit⟩ := Bool.and_eq_true_iff.mp hraised
    have hirq : irq ≤ 7 := of_decide_eq_true hle
    exact ⟨irq, hbit, fun htwenty => by omega⟩
  · exact hbank 0 (by omega) (BitVec.lt_of_getLsbD hraised) hraised
  · exact hbank 1 (by omega) (BitVec.lt_of_getLsbD hraised) hraised
  · cases hraised

theorem Presents.ctz_le_twenty (h : regs.Presents) (hne : regs.basic ≠ 0#32) :
    regs.basic.ctz.toNat ≤ 20 := by
  have hbit := BitVec.getLsbD_true_ctz_of_ne_zero hne
  by_contra hlt
  rw [h.zero _ (ctz_lt hne) (by omega)] at hbit
  cases hbit

/-- A summary bit that is the lowest one gives the lowest raised line of its bank. -/
theorem Presents.pending_ne_zero (h : regs.Presents) (bank : Nat) {pending : Word} (hb : bank < 2)
    (hpending : ∀ irq, regs.raised (1 + bank) irq = pending.getLsbD irq)
    (hbit : regs.basic.getLsbD (8 + bank) = true) : pending ≠ 0#32 := by
  obtain ⟨irq, -, -, hraised⟩ := (h.summary bank hb).mp hbit
  rintro rfl
  rw [hpending, BitVec.getLsbD_zero] at hraised
  cases hraised

theorem bankLine_of_lt {intNum first last : Nat} (hlt : intNum < 32) (hlast : first + 31 = last)
    (hfirst : last < 72) : bankLine intNum first last = .ok (intNum + first) := by
  rw [bankLine, if_neg (by omega), if_neg (by omega)]

/-- The line of the lowest bit that is set, if this is not bit 20. -/
theorem Presents.dispatches (h : regs.Presents) (id : Nat) (virqBase : Option Nat)
    (hne : regs.basic ≠ 0#32) (htwenty : regs.basic.ctz.toNat ≠ 20) :
    regs.Dispatches (.armctrl id virqBase) := by
  have hle := h.ctz_le_twenty hne
  have hbit := BitVec.getLsbD_true_ctz_of_ne_zero hne
  have hpending : pendingHwirq regs = pendingHwirq regs := rfl
  conv_rhs at hpending => rw [pendingHwirq, if_neg hne]
  generalize regs.basic.ctz.toNat = next at *
  by_cases hbasic : next ≤ HWIRQ_BASIC_RANGE_END
  · have hlt : next < 72 := by
      rw [HWIRQ_BASIC_RANGE_END] at hbasic
      omega
    simp only [if_pos hbasic] at hpending
    refine .inr ⟨next, 0, next, hpending, hlt, if_neg (Nat.not_lt.mpr hbasic), ?_⟩
    rw [raised, decide_eq_true hbasic, hbit]
    rfl
  have hrange : next = 8 ∨ next = 9 ∨ 10 ≤ next := by
    rw [HWIRQ_BASIC_RANGE_END] at hbasic
    omega
  rcases hrange with rfl | rfl | hten
  · have hpos : regs.pending1 ≠ 0#32 := h.pending_ne_zero 0 (by omega) (fun _ => rfl) hbit
    have hlt := ctz_lt hpos
    simp only [if_neg hbasic, if_neg hpos, if_true] at hpending
    exact .inr ⟨_, 1, _, hpending, Nat.lt_of_lt_of_le (Nat.add_lt_add_right hlt _) (by decide),
      bankLine_of_lt hlt rfl (by decide), BitVec.getLsbD_true_ctz_of_ne_zero hpos⟩
  · have hpos : regs.pending2 ≠ 0#32 := h.pending_ne_zero 1 (by omega) (fun _ => rfl) hbit
    have hlt := ctz_lt hpos
    simp only [if_neg hbasic, if_neg hpos, if_true] at hpending
    exact .inr ⟨_, 2, _, hpending, Nat.add_lt_add_right hlt _,
      bankLine_of_lt hlt rfl (by decide), BitVec.getLsbD_true_ctz_of_ne_zero hpos⟩
  · have hshortcut (gpu hwirq : Nat) (hp : (gpu, next) ∈ SHORTCUTS.zipIdx 10)
        (hpending : pendingHwirq regs = .ok (some hwirq)) (hlt : hwirq < HWIRQ_COUNT)
        (hxlate : (ControllerDevice.armctrl id virqBase).xlate [1 + gpu / 32, gpu % 32] =
          .ok hwirq) : regs.Dispatches (.armctrl id virqBase) := by
      refine .inr ⟨hwirq, 1 + gpu / 32, gpu % 32, hpending, hlt, hxlate, ?_⟩
      rw [← h.shortcut (gpu, next) hp]
      exact hbit
    interval_cases next
    · exact hshortcut 7 15 (by decide) hpending (by decide) rfl
    · exact hshortcut 9 17 (by decide) hpending (by decide) rfl
    · exact hshortcut 10 18 (by decide) hpending (by decide) rfl
    · exact hshortcut 18 26 (by decide) hpending (by decide) rfl
    · exact hshortcut 19 27 (by decide) hpending (by decide) rfl
    · exact hshortcut 53 61 (by decide) hpending (by decide) rfl
    · exact hshortcut 54 62 (by decide) hpending (by decide) rfl
    · exact hshortcut 55 63 (by decide) hpending (by decide) rfl
    · exact hshortcut 56 64 (by decide) hpending (by decide) rfl
    · exact hshortcut 57 65 (by decide) hpending (by decide) rfl
    · exact absurd rfl htwenty

/-- A bit below 20 shows a line other than interrupt 62. -/
theorem Presents.other_raised (h : regs.Presents) {i : Nat} (hbit : regs.basic.getLsbD i = true)
    (hlt : i < 20) : ∃ bank irq, regs.raised bank irq = true ∧ ¬(bank = 2 ∧ irq = 30) := by
  have hrange : i ≤ 7 ∨ i = 8 + 0 ∨ i = 8 + 1 ∨ 10 ≤ i := by omega
  rcases hrange with hbasic | rfl | rfl | hten
  · refine ⟨0, i, ?_, by omega⟩
    rw [raised, hbit, Bool.and_true]
    exact decide_eq_true hbasic
  · obtain ⟨irq, -, -, hraised⟩ := (h.summary 0 (by omega)).mp hbit
    exact ⟨1 + 0, irq, hraised, by omega⟩
  · obtain ⟨irq, -, hmem, hraised⟩ := (h.summary 1 (by omega)).mp hbit
    refine ⟨1 + 1, irq, hraised, ?_⟩
    rintro ⟨-, rfl⟩
    exact hmem (by decide)
  · obtain ⟨gpu, hp, hgpu⟩ : ∃ gpu, (gpu, i) ∈ SHORTCUTS.zipIdx 10 ∧ gpu < 58 := by
      interval_cases i
      · exact ⟨7, by decide⟩
      · exact ⟨9, by decide⟩
      · exact ⟨10, by decide⟩
      · exact ⟨18, by decide⟩
      · exact ⟨19, by decide⟩
      · exact ⟨53, by decide⟩
      · exact ⟨54, by decide⟩
      · exact ⟨55, by decide⟩
      · exact ⟨56, by decide⟩
      · exact ⟨57, by decide⟩
    refine ⟨1 + gpu / 32, gpu % 32, ?_, by omega⟩
    rw [← h.shortcut (gpu, i) hp]
    exact hbit

/-- Bit 20 is the lowest one exactly when interrupt 62 is the only line that is raised. -/
theorem Presents.ctz_eq_twenty_iff (h : regs.Presents) :
    regs.basic ≠ 0#32 ∧ regs.basic.ctz.toNat = 20 ↔ regs.Only 2 30 := by
  have hbit : regs.basic.getLsbD 20 = regs.raised 2 30 := h.shortcut (62, 20) (by decide)
  constructor
  · rintro ⟨hne, htwenty⟩ bank irq
    have hlow := BitVec.getLsbD_true_ctz_of_ne_zero hne
    rw [htwenty, hbit] at hlow
    refine ⟨fun hraised => ?_, ?_⟩
    · obtain ⟨i, hi, honly⟩ := h.shown hraised
      refine honly ?_
      have hle := ctz_le hi
      by_contra hgt
      rw [h.zero i (BitVec.lt_of_getLsbD hi) (by omega)] at hi
      cases hi
    · rintro ⟨rfl, rfl⟩
      exact hlow
  · intro honly
    rw [(honly 2 30).mpr ⟨rfl, rfl⟩] at hbit
    have hne : regs.basic ≠ 0#32 := by
      intro hzero
      rw [hzero, BitVec.getLsbD_zero] at hbit
      cases hbit
    refine ⟨hne, Nat.le_antisymm (ctz_le hbit) ?_⟩
    by_contra hlt
    obtain ⟨bank, irq, hraised, hother⟩ :=
      h.other_raised (BitVec.getLsbD_true_ctz_of_ne_zero hne) (by omega)
    exact hother ((honly bank irq).mp hraised)

theorem pendingHwirq_of_twenty (hne : regs.basic ≠ 0#32) (htwenty : regs.basic.ctz.toNat = 20) :
    pendingHwirq regs = .ok (some 102) := by
  rw [pendingHwirq, if_neg hne, htwenty]
  rfl

/-- The line that is found is raised, unless interrupt 62 is the only one. -/
theorem pendingHwirq_dispatches_iff (id : Nat) (virqBase : Option Nat) (h : regs.Presents) :
    regs.Dispatches (.armctrl id virqBase) ↔ ¬regs.Only 2 30 := by
  rw [← h.ctz_eq_twenty_iff]
  constructor
  · rintro hdispatches ⟨hne, htwenty⟩
    have hpending := pendingHwirq_of_twenty hne htwenty
    rcases hdispatches with ⟨hnone, -⟩ | ⟨hwirq, bank, irq, hsome, hlt, -, -⟩
    · rw [hpending] at hnone
      cases hnone
    · rw [hpending] at hsome
      cases hsome
      exact absurd hlt (by decide)
  · intro hother
    by_cases hne : regs.basic = 0#32
    · refine .inl ⟨by rw [pendingHwirq, if_pos hne], fun bank irq => ?_⟩
      by_contra hraised
      obtain ⟨i, hi, -⟩ := h.shown (Bool.eq_true_of_not_eq_false hraised)
      rw [hne, BitVec.getLsbD_zero] at hi
      cases hi
    · exact h.dispatches id virqBase hne fun htwenty => hother ⟨hne, htwenty⟩

/-- Interrupt 57 of the UART, which has a bit of its own. -/
theorem pendingHwirq_dispatches_uart :
    (PendingRegs.mk (1#32 <<< 19) 0#32 (1#32 <<< 25)).Dispatches (.armctrl 0 none) := by
  have hpresents : (PendingRegs.mk (1#32 <<< 19) 0#32 (1#32 <<< 25)).Presents :=
    ⟨by decide, by decide, by decide⟩
  refine (pendingHwirq_dispatches_iff 0 none hpresents).mpr fun honly => ?_
  exact absurd ((honly 2 25).mp (by decide)) (by decide)

/-- Interrupt 62 alone is found as line 102, which the controller does not have. -/
theorem not_dispatches_sd :
    ¬ ∀ regs : PendingRegs, regs.Presents → ∀ id virqBase,
      regs.Dispatches (.armctrl id virqBase) := by
  intro hall
  let regs : PendingRegs := ⟨1#32 <<< 20, 0#32, 1#32 <<< 30⟩
  have hpresents : regs.Presents := ⟨by decide, by decide, by decide⟩
  have hpending : pendingHwirq regs = .ok (some 102) :=
    pendingHwirq_of_twenty (by decide) (by decide +kernel)
  rcases hall regs hpresents 0 none with ⟨hnone, -⟩ | ⟨hwirq, bank, irq, hsome, hlt, -, -⟩
  · rw [hpending] at hnone
    cases hnone
  · rw [hpending] at hsome
    cases hsome
    exact absurd hlt (by decide)

end PendingRegs

end Kruspix.Drivers.InterruptController
