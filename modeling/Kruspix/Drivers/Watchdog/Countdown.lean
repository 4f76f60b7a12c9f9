import Kruspix.Drivers.Watchdog.Bcm2835Pm
import Kruspix.Kernel.Devicetree.Node
import Kruspix.Lib.Bytes
import Kruspix.Lib.Transition

/-!
# The count that the watchdog starts with

The timeout comes from the device tree or from `set_timeout`, and only the second checks
it. The time field of the register has 20 bits, so it holds less than 16 seconds.
-/

namespace Kruspix.Drivers.Watchdog

open Kernel.Time Kernel.Devicetree Lib.Bytes Lib.Transition

/-- `TryInto<u32>` of an unknown property. -/
def unknownU32 (data : List UInt8) : Option UInt32 :=
  if data.length = 4 then some (.ofNat (beNat data)) else none

/-- What `global_setup` reads of the node. -/
def timeoutSec (node : Node) : Option UInt32 :=
  match node.property? "timeout-sec" with
  | some (.unknown data) => unknownU32 data
  | _ => none

/-- The calls on the device after its setup, and the counting of the hardware. -/
inductive Event
  | setTimeout (timeout : Duration)
  | start
  | stop
  | acknowledge
  | restart (partition : UInt32)
  | hardware (regs : Registers)
  deriving DecidableEq, Repr

namespace WatchdogTimerDevice

/-- `none` is a failed assertion. -/
def step (dev : WatchdogTimerDevice) : Event → Option WatchdogTimerDevice
  | .setTimeout timeout => dev.setTimeout timeout
  | .start => some dev.start
  | .stop => some dev.stop
  | .acknowledge => some dev.acknowledge
  | .restart partition =>
      if partition < 64 then some (dev.restartWithPartition partition) else none
  | .hardware regs => some { dev with regs := regs }

/-- The devices that any calls reach after the setup from a node. -/
def Reached (id : String) (regs : Registers) (node : Node) : WatchdogTimerDevice → Prop :=
  Reachable (· = (new id regs).globalSetup (timeoutSec node)) (Step step fun _ _ => True)

/-- The ticks that the register counts down from. -/
def programmedTicks (dev : WatchdogTimerDevice) : Nat :=
  (dev.regs.wdog &&& PM_WDOG_TIME_SET).toNat

/-- Nothing of the timeout is lost on its way to the register and back. -/
structure Exact (dev : WatchdogTimerDevice) : Prop where
  start : dev.start.programmedTicks = dev.timeout.toNat * 65536
  acknowledge : dev.acknowledge.programmedTicks = dev.timeout.toNat * 65536
  countdown : dev.start.getCountdown = some (.fromSecs dev.timeout.toNat)
  countdown_acknowledge : dev.acknowledge.getCountdown = some (.fromSecs dev.timeout.toNat)

variable {dev dev' : WatchdogTimerDevice} {id : String} {regs : Registers} {node : Node}

/-- The cast keeps 32 bits of the ticks, and the field 20 of these. -/
theorem timeoutTicks_toNat : (dev.timeoutTicks &&& PM_WDOG_TIME_SET).toNat =
    dev.timeout.toNat * 65536 % 2 ^ 20 := by
  have hsubsec : (Duration.fromSecs dev.timeout.toNat).subsecNanos = 0 := Nat.mul_mod_left _ _
  have hmask : PM_WDOG_TIME_SET.toNat = 2 ^ 20 - 1 := rfl
  rw [UInt32.toNat_and, hmask, Nat.and_two_pow_sub_one_eq_mod, timeoutTicks, durationToTicks,
    UInt32.toNat_ofNat', convertDurationToTicks, hsubsec, Duration.asSecs_fromSecs, Nat.zero_mul,
    Nat.zero_div, Nat.add_zero, Nat.mod_mod_of_dvd _ (Nat.pow_dvd_pow 2 (by decide)),
    Nat.mod_mod_of_dvd _ (Nat.pow_dvd_pow 2 (by decide))]
  rfl

/-- The password lies outside of the field. -/
theorem field_and_timeSet (ticks : UInt32) :
    (ticks &&& PM_WDOG_TIME_SET ||| PM_PASSWORD) &&& PM_WDOG_TIME_SET =
      ticks &&& PM_WDOG_TIME_SET := by
  have hpassword : PM_PASSWORD.toNat &&& PM_WDOG_TIME_SET.toNat = 0 := by decide
  apply UInt32.toNat.inj
  rw [UInt32.toNat_and, UInt32.toNat_or, UInt32.toNat_and, Nat.and_or_distrib_right, hpassword,
    Nat.or_zero, Nat.and_assoc, Nat.and_self]

theorem programmedTicks_start :
    dev.start.programmedTicks = dev.timeout.toNat * 65536 % 2 ^ 20 := by
  rw [programmedTicks, start, field_and_timeSet, timeoutTicks_toNat]

theorem programmedTicks_acknowledge :
    dev.acknowledge.programmedTicks = dev.timeout.toNat * 65536 % 2 ^ 20 := by
  rw [programmedTicks, acknowledge, field_and_timeSet, timeoutTicks_toNat]

/-- Ticks of whole seconds are read back as these seconds. -/
theorem getCountdown_of_ticks {secs : Nat} (h : dev.programmedTicks = secs * 65536) :
    dev.getCountdown = some (.fromSecs secs) := by
  rw [getCountdown, ticksToDuration, ← programmedTicks, h, convertTicksToDuration,
    if_neg (by decide)]
  have hfrequency : PM_WDOG_FREQUENCY_HZ = 65536 := by decide
  simp only [hfrequency, Nat.mul_mod_left, Nat.zero_mul, Nat.zero_div, Nat.add_zero]
  rw [Nat.mul_div_cancel _ (by decide), Duration.fromSecs]

/-- A device is exact if the seconds fit in the four bits above the tick of a second. -/
theorem exact_iff : dev.Exact ↔ dev.timeout.toNat < 16 := by
  constructor
  · intro h
    have hstart := h.start
    rw [programmedTicks_start] at hstart
    have hlt := Nat.mod_lt (dev.timeout.toNat * 65536) (show 2 ^ 20 > 0 by decide)
    omega
  · intro hlt
    have hmod : dev.timeout.toNat * 65536 % 2 ^ 20 = dev.timeout.toNat * 65536 :=
      Nat.mod_eq_of_lt (by omega)
    have hstart := programmedTicks_start.trans hmod
    have hacknowledge := programmedTicks_acknowledge.trans hmod
    exact ⟨hstart, hacknowledge, getCountdown_of_ticks hstart, getCountdown_of_ticks hacknowledge⟩

theorem timeout_start : dev.start.timeout = dev.timeout := by rw [start]

theorem timeout_acknowledge : dev.acknowledge.timeout = dev.timeout := by rw [acknowledge]

/-- Only `set_timeout` changes the timeout, and it checks the new one. -/
theorem timeout_step {e : Event} (h : dev.step e = some dev') :
    dev'.timeout = dev.timeout ∨ dev'.timeout.toNat < 16 := by
  cases e with
  | setTimeout timeout =>
      simp only [step, setTimeout] at h
      split at h
      · rename_i hsecs
        right
        rw [← Option.some.inj h]
        dsimp only
        rw [UInt32.toNat_ofNat']
        omega
      · cases h
  | restart partition =>
      simp only [step] at h
      split at h
      · rw [← Option.some.inj h]
        exact .inl rfl
      · cases h
  | start =>
      rw [← Option.some.inj h]
      exact .inl timeout_start
  | acknowledge =>
      rw [← Option.some.inj h]
      exact .inl timeout_acknowledge
  | stop | hardware _ =>
      rw [← Option.some.inj h]
      exact .inl rfl

theorem timeout_globalSetup (timeoutSec : Option UInt32) :
    ((new id regs).globalSetup timeoutSec).timeout = timeoutSec.getD 15 := by
  simp only [globalSetup]
  split <;> rfl

theorem Reached.timeout_lt (h : ∀ secs, timeoutSec node = some secs → secs.toNat < 16)
    (hreached : Reached id regs node dev) : dev.timeout.toNat < 16 := by
  refine hreached.invariant (P := fun dev => dev.timeout.toNat < 16) ?_ ?_
  · rintro _ rfl
    rw [timeout_globalSetup]
    cases hsecs : timeoutSec node with
    | none => decide
    | some secs => exact h secs hsecs
  · rintro dev dev' - hlt ⟨e, -, hstep⟩
    rcases timeout_step hstep with heq | hlt'
    · rwa [heq]
    · exact hlt'

/-- A device is exact while its timeout is below 16 seconds. All the devices that calls reach
are exact if the device tree asks for less than that, or for nothing. -/
theorem reached_exact_iff (id : String) (regs : Registers) (node : Node) :
    (∀ dev, Reached id regs node dev → (dev.Exact ↔ dev.timeout.toNat < 16)) ∧
      ((∀ dev, Reached id regs node dev → dev.Exact) ↔
        ∀ secs, timeoutSec node = some secs → secs.toNat < 16) := by
  refine ⟨fun _ _ => exact_iff, fun h secs hsecs => ?_, fun h dev hreached =>
    exact_iff.mpr (hreached.timeout_lt h)⟩
  have hexact := exact_iff.mp (h _ (.start rfl))
  rwa [timeout_globalSetup, hsecs] at hexact

/-- A node that asks for 16 seconds. -/
def sixteenNode : Node :=
  ⟨"watchdog", [⟨"timeout-sec", .unknown [0, 0, 0, 16], by decide⟩], []⟩

/-- The system restarts at once. -/
theorem not_exact_sixteen : ¬ ∀ dev, Reached "watchdog" ⟨0, 0, 0⟩ sixteenNode dev → dev.Exact := by
  intro h
  have hstart := (h _ (.start rfl)).start
  revert hstart
  decide

end WatchdogTimerDevice

end Kruspix.Drivers.Watchdog
