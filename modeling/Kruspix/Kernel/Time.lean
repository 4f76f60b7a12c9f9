import Mathlib.Algebra.Group.Nat.Even

/-!
# Durations and ticks

Durations are in nanoseconds. The tick counts of a timer follow from its frequency.
-/

namespace Kruspix.Kernel.Time

def NANOS_PER_SEC : Nat := 1_000_000_000

/-- A duration in nanoseconds. -/
abbrev Duration := Nat

namespace Duration

def fromSecs (secs : Nat) : Duration := secs * NANOS_PER_SEC

def fromMillis (millis : Nat) : Duration := millis * 1_000_000

def fromMicros (micros : Nat) : Duration := micros * 1_000

def asSecs (d : Duration) : Nat := d / NANOS_PER_SEC

def subsecNanos (d : Duration) : Nat := d % NANOS_PER_SEC

def subsecMillis (d : Duration) : Nat := subsecNanos d / 1_000_000

@[simp] theorem asSecs_fromSecs (secs : Nat) : asSecs (fromSecs secs) = secs :=
  Nat.mul_div_cancel secs (by decide)

end Duration

/-- `none` is a division by zero. -/
def calcResolution (frequencyHz : Nat) : Option Duration :=
  if frequencyHz = 0 then none else some (max 1 (NANOS_PER_SEC / frequencyHz % 2 ^ 64))

/-- Whole seconds and the rest in nanoseconds, in ticks; the sum wraps to `u64`. -/
def convertDurationToTicks (frequencyHz : Nat) (duration : Duration) : Nat :=
  let secsTicks := duration.asSecs * frequencyHz
  let nanosTicks := duration.subsecNanos * frequencyHz / NANOS_PER_SEC
  (secsTicks + nanosTicks) % 2 ^ 64

/-- `none` is a division by zero. -/
def convertTicksToDuration (frequencyHz ticks : Nat) : Option Duration :=
  if frequencyHz = 0 then none
  else
    let secs := ticks / frequencyHz
    let nanos := ticks % frequencyHz * NANOS_PER_SEC / frequencyHz
    some (secs * NANOS_PER_SEC + nanos)

theorem calcResolution_eq_none {frequencyHz : Nat} :
    calcResolution frequencyHz = none ↔ frequencyHz = 0 := by
  rw [calcResolution]
  split
  · exact iff_of_true rfl ‹_›
  · exact iff_of_false nofun ‹_›

theorem convertTicksToDuration_isSome {frequencyHz : Nat} (h : frequencyHz ≠ 0) (ticks : Nat) :
    ∃ d, convertTicksToDuration frequencyHz ticks = some d :=
  ⟨_, if_neg h⟩

end Kruspix.Kernel.Time
