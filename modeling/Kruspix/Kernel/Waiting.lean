import Mathlib.Data.List.Chain
import Kruspix.Kernel.TickConversion

/-!
# Waiting on the system timer

Instants are counted in ticks that really elapse. A counter shows an instant in its own width,
and a wait subtracts what it shows in 64 bits.
-/

namespace Kruspix.Kernel.Waiting

open Time TickConversion

/-- A counter of some bits with its frequency, and a bound of the waits in ticks. -/
structure Timer where
  counterBits : Nat
  frequencyHz : Nat
  maxTicks : Nat
  counterBits_le : counterBits ≤ 64
  frequencyHz_lt : frequencyHz < 2 ^ 64
  maxTicks_le : maxTicks ≤ 2 ^ counterBits

/-- What the counter shows at an instant. -/
def Timer.counter (timer : Timer) (now : Nat) : Nat := now % 2 ^ timer.counterBits

/-- `u64::wrapping_sub`. -/
def wrappingSub (a b : Nat) : Nat := (a + (2 ^ 64 - b)) % 2 ^ 64

/-- Where a busy wait is. -/
inductive Wait
  | panicked
  | waiting
  | returned (now : Nat)
  deriving DecidableEq, Repr

/-- The loop with the instants at which it reads the counter. -/
def waitLoop (timer : Timer) (startTicks waitTicks : Nat) : List Nat → Wait
  | [] => .waiting
  | now :: reads =>
      if wrappingSub (timer.counter now) startTicks < waitTicks then
        waitLoop timer startTicks waitTicks reads
      else .returned now

/-- What both calls do once the duration is accepted. -/
def waitFrom (timer : Timer) (duration : Duration) (start : Nat) (reads : List Nat) : Wait :=
  let startTicks := timer.counter start
  let waitTicks := Time.convertDurationToTicks timer.frequencyHz duration
  if waitTicks < timer.maxTicks then waitLoop timer startTicks waitTicks reads else .panicked

/-- The counter is read at `start` and at each of `reads`. -/
def busyWait (timer : Timer) (duration : Duration) (start : Nat) (reads : List Nat) : Wait :=
  if 0 < duration ∧ duration < .fromSecs 1 then waitFrom timer duration start reads
  else .panicked

/-- The counter is read at `start` and at each of `reads`, other tasks run in between. -/
def sleep (timer : Timer) (duration : Duration) (start : Nat) (reads : List Nat) : Wait :=
  if 0 < duration then waitFrom timer duration start reads else .panicked

/-- The counter is read at least once per wrap. -/
def ReadInTime (timer : Timer) (start : Nat) (reads : List Nat) : Prop :=
  List.IsChain (fun now next => now ≤ next ∧ next < now + 2 ^ timer.counterBits) (start :: reads)

/-- The ticks of the duration have elapsed when the call returns. -/
def Elapses (wait : Timer → Duration → Nat → List Nat → Wait) (timer : Timer)
    (duration : Duration) (start : Nat) : Prop :=
  ∀ reads now, ReadInTime timer start reads → wait timer duration start reads = .returned now →
    exactTicks timer.frequencyHz duration ≤ now - start

/-- The ticks fit in 64 bits, and a counter of fewer bits does not wrap before they elapse. -/
def Measures (timer : Timer) (duration : Duration) (start : Nat) : Prop :=
  exactTicks timer.frequencyHz duration < 2 ^ 64 ∧
    (timer.counterBits = 64 ∨
      timer.counter start + exactTicks timer.frequencyHz duration ≤ 2 ^ timer.counterBits)

variable {timer : Timer} {duration : Duration} {start now : Nat} {reads : List Nat}

theorem counter_lt (timer : Timer) (now : Nat) : timer.counter now < 2 ^ timer.counterBits :=
  Nat.mod_lt _ (Nat.two_pow_pos _)

theorem two_pow_counterBits_le (timer : Timer) : 2 ^ timer.counterBits ≤ 2 ^ 64 :=
  Nat.pow_le_pow_right (by decide) timer.counterBits_le

/-- Until the counter wraps the difference is the time that has elapsed. -/
theorem wrappingSub_eq {elapsed : Nat}
    (h : timer.counter start + elapsed < 2 ^ timer.counterBits) :
    wrappingSub (timer.counter (start + elapsed)) (timer.counter start) = elapsed := by
  have hbits := two_pow_counterBits_le timer
  have hcounter : timer.counter (start + elapsed) = timer.counter start + elapsed := by
    rw [Timer.counter, Nat.add_mod, Nat.mod_eq_of_lt (a := elapsed) (by omega)]
    exact Nat.mod_eq_of_lt h
  rw [hcounter, wrappingSub]
  omega

/-- A counter of 64 bits wraps as the difference does. -/
theorem wrappingSub_eq_mod (h : timer.counterBits = 64) (elapsed : Nat) :
    wrappingSub (timer.counter (start + elapsed)) (timer.counter start) = elapsed % 2 ^ 64 := by
  rw [wrappingSub, Timer.counter, Timer.counter, h]
  omega

/-- A counter of fewer bits that has wrapped leaves a difference that is far too large. -/
theorem wrappingSub_wrapped {elapsed : Nat} (hstart : timer.counter start ≠ 0)
    (h : timer.counter start + elapsed = 2 ^ timer.counterBits) :
    wrappingSub (timer.counter (start + elapsed)) (timer.counter start) =
      2 ^ 64 - timer.counter start := by
  have hbits := two_pow_counterBits_le timer
  have hlt := counter_lt timer start
  have hcounter : timer.counter (start + elapsed) = 0 := by
    have hmod : elapsed % 2 ^ timer.counterBits = elapsed := Nat.mod_eq_of_lt (by omega)
    rw [Timer.counter] at h
    rw [Timer.counter, Nat.add_mod, hmod, h, Nat.mod_self]
  rw [hcounter, wrappingSub]
  omega

theorem waitLoop_returned {startTicks waitTicks : Nat}
    (h : waitLoop timer startTicks waitTicks reads = .returned now) :
    now ∈ reads ∧ waitTicks ≤ wrappingSub (timer.counter now) startTicks := by
  induction reads with
  | nil => cases h
  | cons next reads ih =>
      rw [waitLoop] at h
      split at h
      · obtain ⟨hmem, hle⟩ := ih h
        exact ⟨List.mem_cons_of_mem _ hmem, hle⟩
      · rename_i hdone
        cases h
        exact ⟨List.mem_cons_self, Nat.le_of_not_lt hdone⟩

theorem ReadInTime.start_le (h : ReadInTime timer start reads) (hmem : now ∈ reads) :
    start ≤ now := by
  have hle : List.IsChain (· ≤ ·) (start :: reads) := h.imp fun _ _ hnext => hnext.1
  exact (List.pairwise_cons.mp hle.pairwise).1 now hmem

/-- The first instant at which the loop may return. -/
theorem exists_first_return (timer : Timer) (start : Nat) {waitTicks : Nat}
    (h : waitTicks < 2 ^ timer.counterBits) :
    ∃ elapsed, elapsed ≤ waitTicks ∧
      waitTicks ≤ wrappingSub (timer.counter (start + elapsed)) (timer.counter start) ∧
      (timer.counterBits = 64 ∨ timer.counter start + elapsed ≤ 2 ^ timer.counterBits) := by
  have hbits := two_pow_counterBits_le timer
  have hlt := counter_lt timer start
  by_cases hwide : timer.counterBits = 64
  · refine ⟨waitTicks, Nat.le_refl _, ?_, .inl hwide⟩
    rw [wrappingSub_eq_mod hwide, Nat.mod_eq_of_lt (by omega)]
  rcases Nat.lt_or_ge (timer.counter start + waitTicks) (2 ^ timer.counterBits) with hfit | hwrap
  · refine ⟨waitTicks, Nat.le_refl _, ?_, .inr hfit.le⟩
    rw [wrappingSub_eq hfit]
  · have hnarrow : 2 ^ timer.counterBits ≤ 2 ^ 63 :=
      Nat.pow_le_pow_right (by decide) (by have := timer.counterBits_le; omega)
    refine ⟨2 ^ timer.counterBits - timer.counter start, by omega, ?_, .inr (by omega)⟩
    rw [wrappingSub_wrapped (by omega) (by omega)]
    omega

theorem waitFrom_eq (h : Time.convertDurationToTicks timer.frequencyHz duration < timer.maxTicks) :
    waitFrom timer duration start reads =
      waitLoop timer (timer.counter start)
        (Time.convertDurationToTicks timer.frequencyHz duration) reads := if_pos h

theorem elapses_waitFrom_iff
    (h : Time.convertDurationToTicks timer.frequencyHz duration < timer.maxTicks) :
    Elapses waitFrom timer duration start ↔ Measures timer duration start := by
  have hmax := timer.maxTicks_le
  have hticks : Time.convertDurationToTicks timer.frequencyHz duration =
      exactTicks timer.frequencyHz duration % 2 ^ 64 := by
    rw [Time.convertDurationToTicks, ← exactTicks_eq]
  constructor
  · intro helapses
    obtain ⟨elapsed, hle, hreturn, hshown⟩ := exists_first_return timer start
      (Nat.lt_of_lt_of_le h hmax)
    have hread : ReadInTime timer start [start + elapsed] :=
      .cons_cons ⟨Nat.le_add_right _ _, by omega⟩ (.singleton _)
    have hexact := helapses _ (start + elapsed) hread (by
      rw [waitFrom_eq h, waitLoop, if_neg (by omega)])
    rw [Nat.add_sub_cancel_left] at hexact
    refine ⟨by omega, ?_⟩
    rcases hshown with hwide | hshown
    · exact .inl hwide
    · exact .inr (by omega)
  · rintro ⟨hfit, hshown⟩ reads now hread hreturned
    rw [waitFrom_eq h] at hreturned
    obtain ⟨hmem, hdiff⟩ := waitLoop_returned hreturned
    have hstart := hread.start_le hmem
    rw [hticks, Nat.mod_eq_of_lt hfit, show now = start + (now - start) by omega] at hdiff
    by_contra hearly
    rcases hshown with hwide | hshown
    · rw [wrappingSub_eq_mod hwide, Nat.mod_eq_of_lt (by omega)] at hdiff
      omega
    · rw [wrappingSub_eq (by omega)] at hdiff
      omega

theorem elapses_congr {wait wait' : Timer → Duration → Nat → List Nat → Wait}
    (h : ∀ reads, wait timer duration start reads = wait' timer duration start reads) :
    Elapses wait timer duration start ↔ Elapses wait' timer duration start := by
  simp only [Elapses, h]

theorem accepted_of_waitFrom (h : waitFrom timer duration start reads ≠ .panicked) :
    Time.convertDurationToTicks timer.frequencyHz duration < timer.maxTicks := by
  by_contra hrejected
  exact h (if_neg hrejected)

/-- A call that goes on to the loop. -/
theorem elapses_iff_of_eq {wait : Timer → Duration → Nat → List Nat → Wait}
    (hwait : ∀ reads, wait timer duration start reads = waitFrom timer duration start reads)
    (h : wait timer duration start [] ≠ .panicked) :
    Elapses wait timer duration start ↔ Measures timer duration start := by
  rw [hwait] at h
  rw [elapses_congr hwait]
  exact elapses_waitFrom_iff (accepted_of_waitFrom h)

/-- A call whose assertions hold waits for the ticks of its duration, whenever the counter is
read, exactly if the timer measures that duration. -/
theorem wait_elapses_iff (timer : Timer) (duration : Duration) (start : Nat) :
    (busyWait timer duration start [] ≠ .panicked →
      (Elapses busyWait timer duration start ↔ Measures timer duration start)) ∧
    (sleep timer duration start [] ≠ .panicked →
      (Elapses sleep timer duration start ↔ Measures timer duration start)) := by
  constructor
  · intro h
    by_cases hduration : 0 < duration ∧ duration < .fromSecs 1
    · exact elapses_iff_of_eq (fun _ => if_pos hduration) h
    · exact absurd (if_neg hduration) h
  · intro h
    by_cases hduration : 0 < duration
    · exact elapses_iff_of_eq (fun _ => if_pos hduration) h
    · exact absurd (if_neg hduration) h

/-- A counter of 32 bits at 1 MHz. -/
def microsecondTimer : Timer where
  counterBits := 32
  frequencyHz := 1_000_000
  maxTicks := 2 ^ 32 - 1
  counterBits_le := by decide
  frequencyHz_lt := by decide
  maxTicks_le := by decide

theorem wait_elapses_iff_from_zero :
    busyWait microsecondTimer (.fromMillis 1) 0 [] ≠ .panicked ∧
      Elapses busyWait microsecondTimer (.fromMillis 1) 0 := by
  have haccepted : busyWait microsecondTimer (.fromMillis 1) 0 [] ≠ .panicked := by decide
  refine ⟨haccepted, ((wait_elapses_iff microsecondTimer (.fromMillis 1) 0).1 haccepted).mpr ?_⟩
  exact ⟨by decide, .inr (by decide)⟩

/-- One tick before the counter wraps a millisecond is over after that tick. -/
theorem not_elapses_before_wrap :
    busyWait microsecondTimer (.fromMillis 1) (2 ^ 32 - 1) [] ≠ .panicked ∧
      ReadInTime microsecondTimer (2 ^ 32 - 1) [2 ^ 32] ∧
      busyWait microsecondTimer (.fromMillis 1) (2 ^ 32 - 1) [2 ^ 32] = .returned (2 ^ 32) ∧
      ¬ Elapses busyWait microsecondTimer (.fromMillis 1) (2 ^ 32 - 1) := by
  have hread : ReadInTime microsecondTimer (2 ^ 32 - 1) [2 ^ 32] :=
    .cons_cons ⟨by decide, by decide⟩ (.singleton _)
  have hreturned : busyWait microsecondTimer (.fromMillis 1) (2 ^ 32 - 1) [2 ^ 32] =
      .returned (2 ^ 32) := by decide
  refine ⟨by decide, hread, hreturned, fun helapses => ?_⟩
  have hexact := helapses _ _ hread hreturned
  revert hexact
  decide

end Kruspix.Kernel.Waiting
