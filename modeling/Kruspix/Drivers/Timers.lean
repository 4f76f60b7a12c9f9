import Kruspix.Kernel.Waiting

/-!
# The timer devices

The system timer has a free running counter of 32 bits and raises its interrupt when the
counter reaches the compare register. The generic timer counts in 64 bits.
-/

namespace Kruspix.Drivers.Timers

open Kernel.Waiting

def CS_REG_M3_BIT : UInt32 := (1 : UInt32) <<< 3

/-- The registers of the system timer: status, low counter word, third compare. -/
structure Registers where
  cs : UInt32
  clo : UInt32
  c3 : UInt32
  deriving DecidableEq, Repr

/-- The system timer. -/
structure TimerDevice where
  id : String
  clockFrequency : UInt64
  virq : UInt32
  regs : Registers
  deriving DecidableEq, Repr

namespace TimerDevice

variable (dev : TimerDevice)

def getLowerCounter : UInt32 := dev.regs.clo

/-- Set the third compare register. -/
def setCompare (value : UInt32) : TimerDevice := { dev with regs := { dev.regs with c3 := value } }

/-- A bit that is written as one is cleared. -/
def clearIrq : TimerDevice :=
  { dev with regs := { dev.regs with cs := dev.regs.cs &&& ~~~CS_REG_M3_BIT } }

/-- The time of the timer: its low word. -/
def counter : UInt64 := dev.getLowerCounter.toUInt64

def frequencyHz : UInt64 := dev.clockFrequency

def maxTicks : UInt64 := 0xffffffff

/-- `none` is the assertion that fails. -/
def scheduleAt (ticks : UInt64) : Option TimerDevice :=
  if ticks < maxTicks then some (dev.setCompare ticks.toUInt32) else none

/-- `none` is the assertion that fails. -/
def scheduleAfter (ticks : UInt64) : Option TimerDevice :=
  let now := dev.counter
  let deadline := now + ticks
  dev.scheduleAt deadline

def cancel : TimerDevice := dev.clearIrq

theorem counterBits_le : 32 ≤ 64 := by decide

/-- The device as a timer of the kernel. -/
def timer : Timer where
  counterBits := 32
  frequencyHz := dev.frequencyHz.toNat
  maxTicks := maxTicks.toNat
  counterBits_le := counterBits_le
  frequencyHz_lt := dev.frequencyHz.toNat_lt
  maxTicks_le := by decide

/-- The device whose alarm rings once the counter has gone on by `ticks`. -/
def alarmAfter (ticks : UInt64) : TimerDevice :=
  dev.setCompare (.ofNat ((dev.regs.clo.toNat + ticks.toNat) % 2 ^ 32))

variable {dev} {ticks : UInt64}

/-- The deadline does not wrap in 64 bits. -/
theorem deadline_toNat (h : ticks < maxTicks) :
    (dev.counter + ticks).toNat = dev.regs.clo.toNat + ticks.toNat := by
  have hclo := dev.regs.clo.toNat_lt
  have hticks : ticks.toNat < 2 ^ 32 - 1 := h
  rw [UInt64.toNat_add, counter, getLowerCounter, UInt32.toNat_toUInt64]
  omega

/-- A deadline below the largest count sets the compare register, any other one panics. -/
theorem scheduleAfter_eq (h : ticks < maxTicks) :
    dev.scheduleAfter ticks =
      if dev.regs.clo.toNat + ticks.toNat < 2 ^ 32 - 1 then some (dev.alarmAfter ticks)
      else none := by
  have hdeadline := @deadline_toNat dev ticks h
  have hcompare : (dev.counter + ticks).toUInt32 =
      .ofNat ((dev.regs.clo.toNat + ticks.toNat) % 2 ^ 32) := by
    apply UInt32.toNat_inj.mp
    rw [UInt64.toNat_toUInt32, hdeadline, UInt32.toNat_ofNat', Nat.mod_mod]
  have hlt : dev.counter + ticks < maxTicks ↔
      dev.regs.clo.toNat + ticks.toNat < 2 ^ 32 - 1 := by
    rw [UInt64.lt_iff_toNat_lt, hdeadline]
    rfl
  rw [scheduleAfter, scheduleAt, hcompare]
  exact if_congr hlt rfl rfl

/-- An alarm is programmed exactly if the counter does not reach its maximum before. -/
theorem scheduleAfter_iff (h : ticks < maxTicks) :
    dev.scheduleAfter ticks = some (dev.alarmAfter ticks) ↔
      dev.regs.clo.toNat + ticks.toNat < 2 ^ 32 - 1 := by
  rw [scheduleAfter_eq h]
  split
  · rename_i hfit
    exact iff_of_true rfl hfit
  · rename_i hpanic
    exact iff_of_false (fun h => by cases h) hpanic

/-- At 1 MHz the quantum of a task is ten thousand ticks. -/
theorem scheduleAfter_iff_quantum :
    (10_000 : UInt64) < maxTicks ∧
      (⟨"timer", 1_000_000, 3, ⟨0, 0, 0⟩⟩ : TimerDevice).scheduleAfter 10_000 =
        some (alarmAfter ⟨"timer", 1_000_000, 3, ⟨0, 0, 0⟩⟩ 10_000) :=
  ⟨by decide, (scheduleAfter_iff (by decide)).mpr (by decide)⟩

/-- Shortly before the counter wraps the quantum cannot be scheduled. -/
theorem scheduleAfter_panics_before_wrap :
    (10_000 : UInt64) < maxTicks ∧
      (⟨"timer", 1_000_000, 3, ⟨0, 0xfffff000, 0⟩⟩ : TimerDevice).scheduleAfter 10_000 = none ∧
      (alarmAfter ⟨"timer", 1_000_000, 3, ⟨0, 0xfffff000, 0⟩⟩ 10_000).regs.c3 = 5_904 := by
  decide

end TimerDevice

/-- The registers of the timer of a core. -/
structure TimerRegisters where
  ctl : UInt64
  cval : UInt64
  tval : UInt64
  deriving DecidableEq, Repr

/-- The timer of a core. -/
structure GenericTimerDevice where
  id : String
  clockFrequency : UInt64
  virq : UInt32
  regs : TimerRegisters
  deriving DecidableEq, Repr

namespace GenericTimerDevice

variable (dev : GenericTimerDevice)

def frequencyHz : UInt64 := dev.clockFrequency

def maxTicks : UInt64 := 0xffffffff

/-- Set the compare value and enable the timer. -/
def scheduleAt (ticks : UInt64) : GenericTimerDevice :=
  { dev with regs := { dev.regs with cval := ticks, ctl := 0b1 } }

/-- Set the time that remains and enable the timer. -/
def scheduleAfter (ticks : UInt64) : GenericTimerDevice :=
  { dev with regs := { dev.regs with tval := ticks, ctl := 0b1 } }

def cancel : GenericTimerDevice := { dev with regs := { dev.regs with ctl := 0b10 } }

/-- The device as a timer of the kernel. -/
def timer : Timer where
  counterBits := 64
  frequencyHz := dev.frequencyHz.toNat
  maxTicks := maxTicks.toNat
  counterBits_le := by decide
  frequencyHz_lt := dev.frequencyHz.toNat_lt
  maxTicks_le := by decide

/-- The generic timer measures each delay below one second. -/
theorem measures_of_busyWait {duration : Kernel.Time.Duration} {start : Nat}
    (h : busyWait dev.timer duration start [] ≠ .panicked) :
    Measures dev.timer duration start := by
  by_cases hduration : 0 < duration ∧ duration < .fromSecs 1
  · refine ⟨?_, .inl rfl⟩
    have hsecond : duration < Kernel.Time.NANOS_PER_SEC := by
      have hlt := hduration.2
      rwa [Kernel.Time.Duration.fromSecs, Nat.one_mul] at hlt
    apply Nat.div_lt_of_lt_mul
    exact Nat.mul_lt_mul_of_lt_of_le hsecond dev.timer.frequencyHz_lt.le (by decide)
  · exact absurd (if_neg hduration) h

end GenericTimerDevice

end Kruspix.Drivers.Timers
