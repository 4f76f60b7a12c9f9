import Kruspix.Kernel.TickConversion

/-!
# Registered timers and alarms

Of the timers and of the alarms that are registered the one with the finest resolution is
chosen. The first of each kind is chosen unseen. Every conversion of a timer without a
frequency divides by zero.
-/

namespace Kruspix.Kernel.TimeRegistry

open Time

/-- What the traits of timers and alarms have in common. -/
class Clocked (D : Type) where
  frequencyHz : D → UInt64

variable {D : Type} [Clocked D]

section Conversions

variable (d : D)

def frequencyHz : UInt64 := Clocked.frequencyHz d

def resolution : Option Duration := calcResolution (frequencyHz d).toNat

/-- A duration in ticks of the timer. -/
def durationToTicks (duration : Duration) : Option Nat :=
  TickConversion.convertDurationToTicks (frequencyHz d).toNat duration

/-- Ticks of the timer as a duration. -/
def ticksToDuration (ticks : UInt64) : Option Duration :=
  TickConversion.convertTicksToDuration (frequencyHz d).toNat ticks.toNat

/-- No conversion panics. -/
structure Converts : Prop where
  resolution : ∃ r, resolution d = some r
  durationToTicks : ∀ duration : Duration, duration.asSecs < 2 ^ 64 →
    ∃ ticks, durationToTicks d duration = some ticks
  ticksToDuration : ∀ ticks, ∃ duration, ticksToDuration d ticks = some duration

variable {d}

theorem resolution_eq_none : resolution d = none ↔ frequencyHz d = 0 := by
  rw [resolution, calcResolution_eq_none, ← UInt64.toNat_inj]
  rfl

/-- A frequency is all that the conversions need. -/
theorem converts_iff : Converts d ↔ frequencyHz d ≠ 0 := by
  constructor
  · rintro ⟨⟨r, hr⟩, -, -⟩ hzero
    rw [resolution_eq_none.mpr hzero] at hr
    cases hr
  · intro hfrequency
    have hpos : 0 < (frequencyHz d).toNat := by
      rw [Nat.pos_iff_ne_zero]
      exact fun hzero => hfrequency (UInt64.toNat_inj.mp hzero)
    have hlt := (frequencyHz d).toNat_lt
    refine ⟨Option.ne_none_iff_exists'.mp (mt resolution_eq_none.mp hfrequency),
      fun duration hsecs => ?_, fun ticks => ?_⟩
    · exact ⟨_, TickConversion.convertDurationToTicks_eq hlt hsecs⟩
    · rw [ticksToDuration, TickConversion.convertTicksToDuration_eq hpos hlt ticks.toNat_lt]
      exact convertTicksToDuration_isSome hpos.ne' _

end Conversions

/-- The statics of `time`, with the alarm of the core. -/
structure Registry (D : Type) where
  globalTimers : List D
  systemTimer : Option D
  globalAlarms : List D
  systemAlarm : Option D
  localAlarm : Option D

namespace Registry

/-- Nothing is registered. -/
def new : Registry D := ⟨[], none, [], none, none⟩

/-- The choice between the one chosen so far and a new one. `none` is a division by zero. -/
def choose (chosen : Option D) (d : D) : Option (Option D) :=
  match chosen with
  | some existing => do
      let new ← resolution d
      let old ← resolution existing
      return some (if new < old then d else existing)
  | none => some (some d)

variable (r : Registry D)

/-- Register a timer; it becomes the system timer if it is the better one. -/
def registerGlobalTimer (timer : D) : Option (Registry D) := do
  let systemTimer ← choose r.systemTimer timer
  return { r with globalTimers := r.globalTimers ++ [timer], systemTimer := systemTimer }

/-- Register an alarm; it becomes the system alarm if it is the better one. -/
def registerGlobalAlarm (alarm : D) : Option (Registry D) := do
  let systemAlarm ← choose r.systemAlarm alarm
  return { r with globalAlarms := r.globalAlarms ++ [alarm], systemAlarm := systemAlarm }

/-- `none` is the assertion that the alarm of the core is set once. -/
def registerLocalAlarm (alarm : D) : Option (Registry D) :=
  if r.localAlarm.isSome then none else some { r with localAlarm := some alarm }

/-- The system timer shows `counter`. -/
def uptime (counter : D → UInt64) : Option Duration :=
  match r.systemTimer with
  | some timer => ticksToDuration timer (counter timer)
  | none => some 0

/-- No conversion of a registered device panics, and those that are chosen have a frequency. -/
structure Sound (r : Registry D) : Prop where
  globalTimers : ∀ d ∈ r.globalTimers, Converts d
  globalAlarms : ∀ d ∈ r.globalAlarms, Converts d
  localAlarm : ∀ d ∈ r.localAlarm, Converts d
  systemTimer : ∀ d ∈ r.systemTimer, frequencyHz d ≠ 0
  systemAlarm : ∀ d ∈ r.systemAlarm, frequencyHz d ≠ 0
  uptime : ∀ counter, ∃ duration, r.uptime counter = some duration

theorem sound_new : (new : Registry D).Sound :=
  ⟨nofun, nofun, nofun, nofun, nofun, fun _ => ⟨0, rfl⟩⟩

variable {r} {r' : Registry D} {d : D} {chosen : Option D}

/-- A choice between two frequencies is made, and is one of them. -/
theorem choose_known (hchosen : ∀ e ∈ chosen, frequencyHz e ≠ 0) (hd : frequencyHz d ≠ 0) :
    ∃ e, choose chosen d = some (some e) ∧ frequencyHz e ≠ 0 := by
  cases chosen with
  | none => exact ⟨d, rfl, hd⟩
  | some existing =>
      have hexisting := hchosen existing rfl
      obtain ⟨new, hnew⟩ := (converts_iff.mpr hd).resolution
      obtain ⟨old, hold⟩ := (converts_iff.mpr hexisting).resolution
      refine ⟨if new < old then d else existing, ?_, ?_⟩
      · simp only [choose, hnew, hold, Option.bind_eq_bind, Option.bind_some, Option.pure_def]
      · split
        · exact hd
        · exact hexisting

omit [Clocked D] in
theorem forall_mem_append_singleton {P : D → Prop} {ds : List D} (h : ∀ e ∈ ds, P e) (hd : P d) :
    ∀ e ∈ ds ++ [d], P e := by
  intro e he
  rcases List.mem_append.mp he with he | he
  · exact h e he
  · rwa [List.mem_singleton.mp he]

/-- What the registration of a timer changes, also if the timer has no frequency. -/
theorem registerGlobalTimer_eq_some (h : r.registerGlobalTimer d = some r') :
    r'.globalTimers = r.globalTimers ++ [d] ∧ r'.localAlarm = r.localAlarm := by
  rw [registerGlobalTimer, Option.bind_eq_bind, Option.bind_eq_some_iff] at h
  obtain ⟨chosen, -, h⟩ := h
  cases h
  exact ⟨rfl, rfl⟩

theorem registerGlobalAlarm_eq_some (h : r.registerGlobalAlarm d = some r') :
    r'.globalTimers = r.globalTimers := by
  rw [registerGlobalAlarm, Option.bind_eq_bind, Option.bind_eq_some_iff] at h
  obtain ⟨chosen, -, h⟩ := h
  cases h
  rfl

omit [Clocked D] in
/-- A core has one alarm. -/
theorem registerLocalAlarm_eq_some (h : r.registerLocalAlarm d = some r') :
    r.localAlarm = none ∧ r'.globalTimers = r.globalTimers := by
  rw [registerLocalAlarm] at h
  split at h
  · cases h
  · rename_i hnone
    cases h
    exact ⟨Option.not_isSome_iff_eq_none.mp hnone, rfl⟩

section Sound

variable (h : r.Sound) (hd : frequencyHz d ≠ 0)

include h hd

theorem Sound.registerGlobalTimer : ∃ r', r.registerGlobalTimer d = some r' ∧ r'.Sound := by
  obtain ⟨e, hchoose, he⟩ := choose_known h.systemTimer hd
  refine ⟨_, by rw [Registry.registerGlobalTimer, hchoose]; rfl, ?_⟩
  refine ⟨forall_mem_append_singleton h.globalTimers (converts_iff.mpr hd), h.globalAlarms,
    h.localAlarm, ?_, h.systemAlarm, fun counter => (converts_iff.mpr he).ticksToDuration _⟩
  rintro _ ⟨⟩
  exact he

theorem Sound.registerGlobalAlarm : ∃ r', r.registerGlobalAlarm d = some r' ∧ r'.Sound := by
  obtain ⟨e, hchoose, he⟩ := choose_known h.systemAlarm hd
  refine ⟨_, by rw [Registry.registerGlobalAlarm, hchoose]; rfl, ?_⟩
  refine ⟨h.globalTimers, forall_mem_append_singleton h.globalAlarms (converts_iff.mpr hd),
    h.localAlarm, h.systemTimer, ?_, h.uptime⟩
  rintro _ ⟨⟩
  exact he

theorem Sound.registerLocalAlarm (hlocal : r.localAlarm = none) :
    ∃ r', r.registerLocalAlarm d = some r' ∧ r'.Sound := by
  refine ⟨_, by rw [Registry.registerLocalAlarm, hlocal]; rfl, ?_⟩
  refine ⟨h.globalTimers, h.globalAlarms, ?_, h.systemTimer, h.systemAlarm, h.uptime⟩
  rintro _ ⟨⟩
  exact converts_iff.mpr hd

end Sound

end Registry

end Kruspix.Kernel.TimeRegistry
