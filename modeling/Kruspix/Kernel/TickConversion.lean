import Kruspix.Kernel.Time
import Kruspix.Lib.Rescale

/-!
# Conversions between durations and ticks

The conversions in 128 bits do not overflow, and both are the count rounded down at the
other rate.
-/

namespace Kruspix.Kernel.TickConversion

open Time Lib.Rescale

/-- The ticks in a duration, rounded down. -/
def exactTicks (frequencyHz : Nat) (duration : Duration) : Nat :=
  duration * frequencyHz / NANOS_PER_SEC

/-- `none` is an overflow of `u128`. -/
def mulU128 (a b : Nat) : Option Nat := if a * b < 2 ^ 128 then some (a * b) else none

/-- `none` is an overflow of `u128`. -/
def addU128 (a b : Nat) : Option Nat := if a + b < 2 ^ 128 then some (a + b) else none

/-- Nanoseconds of a second and more carry over. `none` is an overflow of the seconds. -/
def newDuration (secs nanos : Nat) : Option Duration :=
  if secs + nanos / NANOS_PER_SEC < 2 ^ 64 then
    some (Duration.fromSecs (secs + nanos / NANOS_PER_SEC) + nanos % NANOS_PER_SEC)
  else none

/-- `convert_duration_to_ticks` in the arithmetic of the source. -/
def convertDurationToTicks (frequencyHz : Nat) (duration : Duration) : Option Nat := do
  let secsTicks ← mulU128 duration.asSecs frequencyHz
  let scaled ← mulU128 duration.subsecNanos frequencyHz
  let ticks ← addU128 secsTicks (scaled / NANOS_PER_SEC)
  return ticks % 2 ^ 64

/-- `convert_ticks_to_duration` in the arithmetic of the source. -/
def convertTicksToDuration (frequencyHz ticks : Nat) : Option Duration := do
  guard (frequencyHz ≠ 0)
  let scaled ← mulU128 (ticks % frequencyHz) NANOS_PER_SEC
  newDuration (ticks / frequencyHz % 2 ^ 64) (scaled / frequencyHz % 2 ^ 32)

variable {frequencyHz ticks : Nat} {duration : Duration}

theorem exactTicks_eq : exactTicks frequencyHz duration =
    duration.asSecs * frequencyHz + duration.subsecNanos * frequencyHz / NANOS_PER_SEC :=
  (rescale_split (by decide) frequencyHz duration).symm

theorem mulU128_eq_some {a b : Nat} (h : a * b < 2 ^ 128) : mulU128 a b = some (a * b) := if_pos h

theorem addU128_eq_some {a b : Nat} (h : a + b < 2 ^ 128) : addU128 a b = some (a + b) := if_pos h

theorem subsecNanos_lt (duration : Duration) : duration.subsecNanos < NANOS_PER_SEC :=
  Nat.mod_lt _ (by decide)

/-- Nothing overflows on the way from a duration to its ticks. -/
theorem convertDurationToTicks_eq (hfreq : frequencyHz < 2 ^ 64)
    (hsecs : duration.asSecs < 2 ^ 64) :
    convertDurationToTicks frequencyHz duration =
      some (Time.convertDurationToTicks frequencyHz duration) := by
  have hnanos := subsecNanos_lt duration
  have hscaled : duration.subsecNanos * frequencyHz ≤ NANOS_PER_SEC * frequencyHz :=
    Nat.mul_le_mul_right _ hnanos.le
  have hquotient : duration.subsecNanos * frequencyHz / NANOS_PER_SEC ≤ frequencyHz :=
    Nat.div_le_of_le_mul hscaled
  have hproduct : duration.asSecs * frequencyHz ≤ (2 ^ 64 - 1) * frequencyHz :=
    Nat.mul_le_mul_right _ (by omega)
  have hsum : duration.asSecs * frequencyHz +
      duration.subsecNanos * frequencyHz / NANOS_PER_SEC < 2 ^ 128 := by omega
  have hfit : duration.subsecNanos * frequencyHz < 2 ^ 128 := by
    simp only [NANOS_PER_SEC] at hscaled
    omega
  rw [convertDurationToTicks, mulU128_eq_some (Nat.lt_of_le_of_lt (Nat.le_add_right _ _) hsum),
    mulU128_eq_some hfit]
  simp only [Option.bind_eq_bind, Option.bind_some, addU128_eq_some hsum]
  rfl

theorem newDuration_eq {secs nanos : Nat} (hsecs : secs < 2 ^ 64) (hnanos : nanos < NANOS_PER_SEC) :
    newDuration secs nanos = some (Duration.fromSecs secs + nanos) := by
  rw [newDuration, Nat.div_eq_of_lt hnanos, Nat.mod_eq_of_lt hnanos]
  exact if_pos hsecs

theorem convertTicksToDuration_bind (hpos : 0 < frequencyHz) {scaled : Nat}
    (h : mulU128 (ticks % frequencyHz) NANOS_PER_SEC = some scaled) :
    convertTicksToDuration frequencyHz ticks =
      newDuration (ticks / frequencyHz % 2 ^ 64) (scaled / frequencyHz % 2 ^ 32) := by
  rw [convertTicksToDuration, h]
  simp only [guard, if_pos hpos.ne', Option.bind_eq_bind, Option.bind_some, Option.pure_def]

theorem time_convertTicksToDuration_eq (hpos : 0 < frequencyHz) :
    Time.convertTicksToDuration frequencyHz ticks =
      some (Duration.fromSecs (ticks / frequencyHz) +
        ticks % frequencyHz * NANOS_PER_SEC / frequencyHz) :=
  if_neg hpos.ne'

/-- Nothing overflows and nothing is cut off on the way from ticks to their duration. -/
theorem convertTicksToDuration_eq (hpos : 0 < frequencyHz) (hfreq : frequencyHz < 2 ^ 64)
    (hticks : ticks < 2 ^ 64) :
    convertTicksToDuration frequencyHz ticks = Time.convertTicksToDuration frequencyHz ticks := by
  have hscaled : ticks % frequencyHz * NANOS_PER_SEC < 2 ^ 128 := by
    have := Nat.mul_le_mul_right NANOS_PER_SEC (Nat.mod_lt ticks hpos).le
    simp only [NANOS_PER_SEC] at this ⊢
    omega
  have hnanos : ticks % frequencyHz * NANOS_PER_SEC / frequencyHz < NANOS_PER_SEC :=
    rescale_mod_lt hpos (by decide) ticks
  have hsecs : ticks / frequencyHz < 2 ^ 64 :=
    Nat.lt_of_le_of_lt (Nat.div_le_self ticks frequencyHz) hticks
  rw [convertTicksToDuration_bind hpos (mulU128_eq_some hscaled), Nat.mod_eq_of_lt hsecs,
    Nat.mod_eq_of_lt (hnanos.trans (by decide)), newDuration_eq hsecs hnanos,
    time_convertTicksToDuration_eq hpos]

theorem asSecs_add {secs nanos : Nat} (h : nanos < NANOS_PER_SEC) :
    Duration.asSecs (Duration.fromSecs secs + nanos) = secs := by
  rw [Duration.asSecs, Duration.fromSecs, Nat.mul_comm, Nat.mul_add_div (by decide),
    Nat.div_eq_of_lt h, Nat.add_zero]

theorem subsecNanos_add {secs nanos : Nat} (h : nanos < NANOS_PER_SEC) :
    Duration.subsecNanos (Duration.fromSecs secs + nanos) = nanos := by
  rw [Duration.subsecNanos, Duration.fromSecs, Nat.mul_comm, Nat.mul_add_mod,
    Nat.mod_eq_of_lt h]

theorem time_convertTicksToDuration_eq_rescale (hpos : 0 < frequencyHz) :
    Time.convertTicksToDuration frequencyHz ticks =
      some (rescale frequencyHz NANOS_PER_SEC ticks) := by
  rw [time_convertTicksToDuration_eq hpos, Duration.fromSecs, rescale_split hpos]

/-- A count of ticks that fits in 64 bits is not cut off. -/
theorem time_convertDurationToTicks_eq (h : exactTicks frequencyHz duration < 2 ^ 64) :
    Time.convertDurationToTicks frequencyHz duration = exactTicks frequencyHz duration := by
  rw [Time.convertDurationToTicks, ← exactTicks_eq, Nat.mod_eq_of_lt h]

/-- From ticks to a duration and back. -/
theorem ticks_round_trip (hpos : 0 < frequencyHz) (hfreq : frequencyHz < 2 ^ 64)
    (hticks : ticks < 2 ^ 64) (h : Time.convertTicksToDuration frequencyHz ticks = some duration) :
    ∃ ticks', convertDurationToTicks frequencyHz duration = some ticks' ∧ ticks' ≤ ticks ∧
      ticks - ticks' ≤ frequencyHz ⌈/⌉ NANOS_PER_SEC := by
  have hsecs : duration.asSecs < 2 ^ 64 := by
    rw [time_convertTicksToDuration_eq hpos, Option.some.injEq] at h
    rw [← h, asSecs_add (rescale_mod_lt hpos (by decide) ticks)]
    exact Nat.lt_of_le_of_lt (Nat.div_le_self ticks frequencyHz) hticks
  rw [time_convertTicksToDuration_eq_rescale hpos, Option.some.injEq] at h
  have hle : exactTicks frequencyHz duration ≤ ticks := by
    rw [← h]
    exact rescale_rescale_le frequencyHz NANOS_PER_SEC ticks
  refine ⟨exactTicks frequencyHz duration, ?_, hle, ?_⟩
  · rw [convertDurationToTicks_eq hfreq hsecs, time_convertDurationToTicks_eq (by omega)]
  · rw [← h]
    exact sub_rescale_rescale_le hpos (by decide) ticks

/-- From a duration to ticks and back. -/
theorem duration_round_trip (hpos : 0 < frequencyHz) (hfreq : frequencyHz < 2 ^ 64)
    (hsecs : duration.asSecs < 2 ^ 64) (hfit : exactTicks frequencyHz duration < 2 ^ 64) :
    ∃ ticks duration', convertDurationToTicks frequencyHz duration = some ticks ∧
      convertTicksToDuration frequencyHz ticks = some duration' ∧ duration' ≤ duration := by
  refine ⟨exactTicks frequencyHz duration,
    rescale frequencyHz NANOS_PER_SEC (exactTicks frequencyHz duration), ?_, ?_, ?_⟩
  · rw [convertDurationToTicks_eq hfreq hsecs, time_convertDurationToTicks_eq hfit]
  · rw [convertTicksToDuration_eq hpos hfreq hfit, time_convertTicksToDuration_eq_rescale hpos]
  · exact rescale_rescale_le NANOS_PER_SEC frequencyHz duration

/-- Both conversions round down, nothing overflows, and a round trip loses at most the ticks
of one nanosecond. -/
theorem conversions_round_trip (hpos : 0 < frequencyHz) (hfreq : frequencyHz < 2 ^ 64) :
    (∀ ticks < 2 ^ 64, ∃ duration ticks', convertTicksToDuration frequencyHz ticks = some duration ∧
      duration.asSecs = ticks / frequencyHz ∧
      duration.subsecNanos = ticks % frequencyHz * NANOS_PER_SEC / frequencyHz ∧
      ticks % frequencyHz * NANOS_PER_SEC / frequencyHz < NANOS_PER_SEC ∧
      convertDurationToTicks frequencyHz duration = some ticks' ∧ ticks' ≤ ticks ∧
      ticks - ticks' ≤ frequencyHz ⌈/⌉ NANOS_PER_SEC) ∧
    (∀ ticks ticks' duration duration', ticks ≤ ticks' → ticks' < 2 ^ 64 →
      convertTicksToDuration frequencyHz ticks = some duration →
      convertTicksToDuration frequencyHz ticks' = some duration' → duration ≤ duration') ∧
    ∀ duration : Duration, duration.asSecs < 2 ^ 64 → exactTicks frequencyHz duration < 2 ^ 64 →
      ∃ ticks duration', convertDurationToTicks frequencyHz duration = some ticks ∧
        convertTicksToDuration frequencyHz ticks = some duration' ∧ duration' ≤ duration := by
  refine ⟨?_, ?_, ?_⟩
  · intro ticks hticks
    have hnanos : ticks % frequencyHz * NANOS_PER_SEC / frequencyHz < NANOS_PER_SEC :=
      rescale_mod_lt hpos (by decide) ticks
    have hduration := @time_convertTicksToDuration_eq frequencyHz ticks hpos
    obtain ⟨ticks', hback, hle, hloss⟩ := ticks_round_trip hpos hfreq hticks hduration
    exact ⟨_, ticks', (convertTicksToDuration_eq hpos hfreq hticks).trans hduration,
      asSecs_add hnanos, subsecNanos_add hnanos, hnanos, hback, hle, hloss⟩
  · intro ticks ticks' duration duration' hle hticks' h h'
    rw [convertTicksToDuration_eq hpos hfreq (Nat.lt_of_le_of_lt hle hticks'),
      time_convertTicksToDuration_eq_rescale hpos, Option.some.injEq] at h
    rw [convertTicksToDuration_eq hpos hfreq hticks',
      time_convertTicksToDuration_eq_rescale hpos, Option.some.injEq] at h'
    rw [← h, ← h']
    exact rescale_mono hle
  · intro duration hsecs hfit
    exact duration_round_trip hpos hfreq hsecs hfit

/-- At 1.2 GHz a nanosecond has more than one tick. -/
theorem conversions_round_trip_fast_clock :
    (0 < 1_200_000_000 ∧ 1_200_000_000 < 2 ^ 64) ∧
    ∃ duration ticks', convertTicksToDuration 1_200_000_000 7 = some duration ∧
      convertDurationToTicks 1_200_000_000 duration = some ticks' ∧ ticks' ≤ 7 ∧
      7 - ticks' ≤ 1_200_000_000 ⌈/⌉ NANOS_PER_SEC := by
  obtain ⟨duration, ticks', hduration, _, _, _, hticks', hle, hloss⟩ :=
    (@conversions_round_trip 1_200_000_000 (by decide) (by decide)).1 7 (by decide)
  exact ⟨⟨by decide, by decide⟩, duration, ticks', hduration, hticks', hle, hloss⟩

end Kruspix.Kernel.TickConversion
