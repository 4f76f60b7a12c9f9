import Kruspix.Kernel.Time

/-!
# The watchdog timer

The registers of the power management take a password with each value. A count of ticks
in 20 bits restarts the system when it runs out.
-/

namespace Kruspix.Drivers.Watchdog

open Kernel.Time

/-- The watchdog counts 65536 ticks a second. -/
def PM_WDOG_FREQUENCY_HZ : Nat := 1 <<< 16
def PM_WDOG_TIME_SET : UInt32 := 0x000fffff
def PM_RSTC_WRCFG_CLR : UInt32 := 0xffffffcf
def PM_RSTC_WRCFG_FULL_RESET : UInt32 := 0x00000020
def PM_RSTC_RESET : UInt32 := 0x00000102
def PM_RSTS_PARTITION_CLR : UInt32 := 0xfffffaaa
def PM_PASSWORD : UInt32 := 0x5a000000

/-- The registers of the power manager. -/
structure Registers where
  rstc : UInt32
  rsts : UInt32
  wdog : UInt32
  deriving DecidableEq, Repr

/-- The watchdog with the timeout that it starts with. -/
structure WatchdogTimerDevice where
  id : String
  timeout : UInt32
  regs : Registers
  deriving DecidableEq, Repr

namespace WatchdogTimerDevice

/-- A watchdog with a timeout of 15 seconds. -/
def new (id : String) (regs : Registers) : WatchdogTimerDevice := ⟨id, 15, regs⟩

/-- A duration in ticks, cut to 32 bits. -/
def durationToTicks (duration : Duration) : UInt32 :=
  .ofNat (convertDurationToTicks PM_WDOG_FREQUENCY_HZ duration)

/-- The low twenty bits of ticks as a duration. -/
def ticksToDuration (ticks : UInt32) : Option Duration :=
  convertTicksToDuration PM_WDOG_FREQUENCY_HZ (ticks &&& PM_WDOG_TIME_SET).toNat

variable (dev : WatchdogTimerDevice)

/-- The timeout in ticks. -/
def timeoutTicks : UInt32 := durationToTicks (.fromSecs dev.timeout.toNat)

def getDefaultTimeout : Duration := .fromSecs dev.timeout.toNat

def getMaxTimeout : Duration := .fromSecs 15

def getMinTimeout : Duration := .fromMillis 1

/-- The watchdog would reset the chip. -/
def isRunning : Bool := dev.regs.rstc &&& PM_RSTC_WRCFG_FULL_RESET != 0

/-- The reset control that makes the watchdog reset the chip. -/
def fullReset (rstc : UInt32) : UInt32 :=
  (rstc &&& PM_RSTC_WRCFG_CLR) ||| PM_RSTC_WRCFG_FULL_RESET ||| PM_PASSWORD

/-- The bits of the partition lie in the even bits. -/
def restartWithPartition (partition : UInt32) : WatchdogTimerDevice :=
  let rstsPartition := (List.range 6).foldl (fun acc i =>
    acc ||| ((partition >>> .ofNat i) &&& 1) <<< (2 * .ofNat i)) 0
  { dev with
    regs :=
      { rsts := (dev.regs.rsts &&& PM_RSTS_PARTITION_CLR) ||| rstsPartition ||| PM_PASSWORD
        wdog := (durationToTicks getMinTimeout &&& PM_WDOG_TIME_SET) ||| PM_PASSWORD
        rstc := fullReset dev.regs.rstc } }

/-- Load the countdown and enable the reset. -/
def start : WatchdogTimerDevice :=
  { dev with
    regs :=
      { dev.regs with
        wdog := (dev.timeoutTicks &&& PM_WDOG_TIME_SET) ||| PM_PASSWORD
        rstc := fullReset dev.regs.rstc } }

/-- Disable the reset. -/
def stop : WatchdogTimerDevice :=
  { dev with regs := { dev.regs with rstc := PM_RSTC_RESET ||| PM_PASSWORD } }

/-- `none` is the assertion that fails. -/
def setTimeout (timeout : Duration) : Option WatchdogTimerDevice :=
  let secs := timeout.asSecs
  if 1 ≤ secs ∧ secs ≤ 15 then some { dev with timeout := .ofNat secs } else none

/-- The time that is left. -/
def getCountdown : Option Duration := ticksToDuration dev.regs.wdog

/-- Load the countdown again. -/
def acknowledge : WatchdogTimerDevice :=
  { dev with
    regs :=
      { dev.regs with wdog := (dev.timeoutTicks &&& PM_WDOG_TIME_SET) ||| PM_PASSWORD } }

/-- The part of `global_setup` before the registrations. -/
def globalSetup (timeoutSec : Option UInt32) : WatchdogTimerDevice :=
  let dev := { dev with timeout := timeoutSec.getD dev.timeout }
  if dev.isRunning then dev.stop else dev

/-- A whole number of seconds between the limits is accepted, unless it is zero. -/
theorem setTimeout_isSome_iff {secs : Nat} (hmin : getMinTimeout.asSecs ≤ secs)
    (hmax : secs ≤ getMaxTimeout.asSecs) :
    (∃ dev', dev.setTimeout (.fromSecs secs) = some dev') ↔ secs ≠ 0 := by
  have hlimit : getMaxTimeout.asSecs = 15 := Duration.asSecs_fromSecs 15
  rw [setTimeout, Duration.asSecs_fromSecs]
  constructor
  · rintro ⟨dev', hdev⟩ rfl
    rw [if_neg (by decide)] at hdev
    cases hdev
  · intro hpos
    exact ⟨_, if_pos (by omega)⟩

theorem getCountdown_isSome : ∃ d, dev.getCountdown = some d :=
  convertTicksToDuration_isSome (show PM_WDOG_FREQUENCY_HZ ≠ 0 by decide) _

end WatchdogTimerDevice

end Kruspix.Drivers.Watchdog
