import Mathlib.Data.List.Chain
import Kruspix.Drivers.Usb.KeyboardRepeat

/-!
# When a held key repeats

Reports carry no time, so a press is dated by the service before it. A key repeats after the
delay from the service that tracks it, and bytes that repeat are an interval apart.
-/

namespace Kruspix.Drivers.Usb.Keyboard

open Lib.Transition

/-- A byte that repeats: its key, when the hold of the key started, and when it is pushed. -/
structure Emission where
  usage : UInt8
  pressedAt : Nat
  now : Nat
  deriving DecidableEq, Repr

/-- A keyboard with the time of the last service, the last report, the start of the last hold of
each key, and the bytes that repeated. -/
structure Timed where
  state : KeyboardState
  clock : Nat
  lastReport : Report
  pressedAt : UInt8 → Nat
  emitted : List Emission

/-- A report, or a call of `service_repeat` with its time. -/
inductive Input
  | report (report : Report)
  | service (now : Nat)

namespace Timed

def start : Timed := ⟨.new, 0, Vector.replicate 8 0, fun _ => 0, []⟩

/-- The keys whose bytes a service pushes. -/
def repeated (s : KeyboardState) (now : Nat) : List RepeatKey :=
  (s.serviceRepeat now).pushed.drop s.pushed.length

/-- A hold starts with the first report that contains the key after one without it. -/
def step (s : Timed) : Input → Option Timed
  | .report report =>
      some { s with
        state := s.state.handleReport report
        lastReport := report
        pressedAt := fun usage =>
          if usage ∈ report.keys ∧ usage ∉ s.lastReport.keys then s.clock else s.pressedAt usage }
  | .service now =>
      some { s with
        state := s.state.serviceRepeat now
        clock := now
        emitted := s.emitted ++
          (repeated s.state now).map fun key => ⟨key.usage, s.pressedAt key.usage, now⟩ }

/-- Time does not go back. -/
def InTime (s : Timed) : Input → Prop
  | .report _ => True
  | .service now => s.clock ≤ now

/-- No report starts a hold of the key that the last service tracked. -/
def Noticed (s : Timed) : Input → Prop
  | .report report => ∀ usage, s.state.repeatTracked = some usage → usage ∈ report.keys →
      usage ∈ s.lastReport.keys
  | .service _ => True

instance (s : Timed) (e : Input) : Decidable (InTime s e) := by
  unfold InTime
  cases e <;> dsimp only <;> infer_instance

instance (s : Timed) (e : Input) : Decidable (Noticed s e) :=
  match e with
  | .report report =>
      @Option.decidableForallMem UInt8
        (fun usage => usage ∈ report.keys → usage ∈ s.lastReport.keys)
        (fun _ => inferInstance) s.state.repeatTracked
  | .service _ => inferInstanceAs (Decidable True)

/-- Each byte comes after the delay. -/
def Delayed (s : Timed) : Prop :=
  ∀ e ∈ s.emitted, e.pressedAt + KEYBOARD_REPEAT_DELAY ≤ e.now

/-- Consecutive bytes are an interval apart. -/
def Spaced (s : Timed) : Prop :=
  s.emitted.IsChain fun e next => e.now + KEYBOARD_REPEAT_INTERVAL ≤ next.now

/-- The last byte is not after the time from which the interval counts. -/
structure Paced (s : Timed) : Prop where
  spaced : s.Spaced
  last : ∀ e ∈ s.emitted.getLast?, e.now ≤ s.state.repeatLastEmit
  clock : s.state.repeatLastEmit ≤ s.clock

/-- The delay of the tracked key counts from a time after its press. -/
structure Anchored (s : Timed) : Prop where
  delayed : s.Delayed
  tracked : ∀ usage, s.state.repeatTracked = some usage → s.pressedAt usage ≤ s.state.repeatAnchor
  clock : ∀ usage, s.pressedAt usage ≤ s.clock

variable {s t : Timed} {now : Nat}

/-- What a report leaves alone. -/
theorem handleReport_times (s : KeyboardState) (report : Report) :
    (s.handleReport report).repeatTracked = s.repeatTracked ∧
      (s.handleReport report).repeatAnchor = s.repeatAnchor ∧
      (s.handleReport report).repeatLastEmit = s.repeatLastEmit := by
  by_cases hroll : hasErrorRollover report = true
  · rw [KeyboardState.handleReport_of_rollover hroll]
    exact ⟨rfl, rfl, rfl⟩
  · have hreported : KeyboardState.Reported 0 report s _ :=
      KeyboardState.handleReport_reported hroll
    exact ⟨hreported.repeatTracked, hreported.repeatAnchor, hreported.repeatLastEmit⟩

/-- A service pushes one byte of the tracked key, after the delay and the interval, or none. -/
theorem service_cases (s : KeyboardState) (now : Nat) :
    (∃ key, repeated s now = [key] ∧ s.repeatTracked = some key.usage ∧
      s.repeatAnchor + KEYBOARD_REPEAT_DELAY ≤ now ∧
      s.repeatLastEmit + KEYBOARD_REPEAT_INTERVAL ≤ now ∧
      (s.serviceRepeat now).repeatTracked = s.repeatTracked ∧
      (s.serviceRepeat now).repeatAnchor = s.repeatAnchor ∧
      (s.serviceRepeat now).repeatLastEmit = now) ∨
    (repeated s now = [] ∧
      ((s.serviceRepeat now).repeatLastEmit = s.repeatLastEmit ∨
        (s.serviceRepeat now).repeatLastEmit = now) ∧
      ((s.serviceRepeat now).repeatTracked = none ∨
        (s.serviceRepeat now).repeatTracked = s.repeatTracked ∧
          (s.serviceRepeat now).repeatAnchor = s.repeatAnchor ∨
        (s.serviceRepeat now).repeatAnchor = now)) := by
  have hserviced := KeyboardState.serviceRepeat_serviced s now
  rw [repeated]
  generalize s.serviceRepeat now = u, s.fuses now = fused at hserviced
  cases hserviced with
  | idle hnone => exact .inr ⟨List.drop_length, .inl rfl, .inl rfl⟩
  | track key hkey hnew => exact .inr ⟨List.drop_length, .inr rfl, .inr (.inr rfl)⟩
  | fuse key hkey => exact .inr ⟨List.drop_length, .inl rfl, .inl rfl⟩
  | emit key hkey htracked hhold hdelay hinterval =>
      exact .inl ⟨key, List.drop_left, htracked, hdelay, hinterval, rfl, rfl, rfl⟩
  | wait key hkey => exact .inr ⟨List.drop_length, .inl rfl, .inr (.inl ⟨rfl, rfl⟩)⟩

theorem Paced.step {e : Input} (h : Paced s) (hallowed : InTime s e) (ht : s.step e = some t) :
    Paced t := by
  cases e with
  | report report =>
      cases ht
      obtain ⟨_, _, hlast⟩ := handleReport_times s.state report
      refine ⟨h.spaced, ?_, ?_⟩
      · intro e he
        rw [hlast]
        exact h.last e he
      · rw [hlast]
        exact h.clock
  | service now =>
      cases ht
      have hclock : s.clock ≤ now := hallowed
      have hbefore := h.clock
      rcases service_cases s.state now with
        ⟨key, hrepeated, _, _, hinterval, _, _, hlast⟩ | ⟨hrepeated, hlast, _⟩
      · refine ⟨?_, ?_, ?_⟩
        · rw [Spaced, hrepeated, List.map_singleton, List.isChain_append]
          refine ⟨h.spaced, .singleton _, ?_⟩
          intro e he next hnext
          cases hnext
          have hle := h.last e he
          dsimp only
          omega
        · rw [hrepeated, List.map_singleton]
          dsimp only
          rw [List.getLast?_concat, hlast]
          intro e he
          cases he
          exact Nat.le_refl now
        · exact hlast.le
      · rw [hrepeated, List.map_nil, List.append_nil]
        refine ⟨h.spaced, ?_, ?_⟩
        · intro e he
          have := h.last e he
          dsimp only
          omega
        · dsimp only
          omega

theorem Anchored.step {e : Input} (h : Anchored s) (hallowed : InTime s e) (hnoticed : Noticed s e)
    (ht : s.step e = some t) : Anchored t := by
  cases e with
  | report report =>
      cases ht
      obtain ⟨htracked, hanchor, _⟩ := handleReport_times s.state report
      refine ⟨h.delayed, ?_, ?_⟩
      · intro usage husage
        dsimp only at husage ⊢
        rw [htracked] at husage
        rw [hanchor, if_neg]
        · exact h.tracked usage husage
        · rintro ⟨hmem, hnot⟩
          exact hnot (hnoticed usage husage hmem)
      · intro usage
        dsimp only
        split
        · exact Nat.le_refl _
        · exact h.clock usage
  | service now =>
      cases ht
      have hclock : s.clock ≤ now := hallowed
      have hpressed : ∀ usage, s.pressedAt usage ≤ now :=
        fun usage => Nat.le_trans (h.clock usage) hclock
      rcases service_cases s.state now with
        ⟨key, hrepeated, htracked, hdelay, _, htracked', hanchor, _⟩ | ⟨hrepeated, _, htracked⟩
      · refine ⟨?_, ?_, hpressed⟩
        · intro e he
          rw [hrepeated, List.map_singleton] at he
          rcases List.mem_append.mp he with he | he
          · exact h.delayed e he
          · obtain rfl := List.mem_singleton.mp he
            have hle := h.tracked key.usage htracked
            dsimp only
            omega
        · intro usage husage
          dsimp only at husage ⊢
          rw [htracked'] at husage
          rw [hanchor]
          exact h.tracked usage husage
      · rw [hrepeated, List.map_nil, List.append_nil]
        refine ⟨h.delayed, ?_, hpressed⟩
        intro usage husage
        dsimp only at husage ⊢
        rcases htracked with hnone | ⟨hsame, hanchor⟩ | hanchor
        · rw [hnone] at husage
          cases husage
        · rw [hsame] at husage
          rw [hanchor]
          exact h.tracked usage husage
        · rw [hanchor]
          exact hpressed usage

theorem paced_start : Paced start := ⟨.nil, nofun, Nat.le_refl 0⟩

theorem anchored_start : Anchored start := ⟨nofun, nofun, fun _ => Nat.le_refl 0⟩

/-- Bytes that repeat are an interval apart in every run. They come after the delay of their key
in every run in which each new hold of the tracked key is noticed. -/
theorem repeats_in_time (s : Timed) (hs : Reachable (fun s => s = start) (Step step InTime) s) :
    s.Spaced ∧ (Reachable (fun s => s = start) (Step step fun s e => InTime s e ∧ Noticed s e) s →
      s.Delayed) := by
  have hpaced : s.Paced := by
    refine hs.invariant ?_ ?_
    · rintro s rfl
      exact paced_start
    · rintro s t _ h ⟨e, hallowed, ht⟩
      exact h.step hallowed ht
  refine ⟨hpaced.spaced, fun hnoticed => Anchored.delayed (hnoticed.invariant ?_ ?_)⟩
  · rintro s rfl
    exact anchored_start
  · rintro s t _ h ⟨e, hallowed, ht⟩
    exact h.step hallowed.1 hallowed.2 ht

/-- The key `a` is held until it repeats. -/
def heldInputs : List Input := [.report aReport, .service 0, .service 200_000_000]

theorem repeats_in_time_held :
    ∃ s, Reachable (fun s => s = start) (Step step fun s e => InTime s e ∧ Noticed s e) s ∧
      s.emitted = [⟨0x04, 0, 200_000_000⟩] ∧ s.Delayed ∧ s.Spaced := by
  have hrun : (run step (fun s e => InTime s e ∧ Noticed s e) start heldInputs).map emitted =
      some [⟨0x04, 0, 200_000_000⟩] := by decide +kernel
  obtain ⟨s, hs, hemitted⟩ := Option.map_eq_some_iff.mp hrun
  have hreach : Reachable (fun s => s = start) (Step step fun s e => InTime s e ∧ Noticed s e) s :=
    ⟨start, rfl, reflTransGen_of_run heldInputs hs⟩
  obtain ⟨hspaced, hdelayed⟩ := repeats_in_time s (hreach.weaken fun _ _ h => h.1)
  exact ⟨s, hreach, hemitted, hdelayed hreach, hspaced⟩

/-- The key `a` is let go and pressed again between two services. -/
def pressedTwiceInputs : List Input :=
  [.report aReport, .service 0, .service 190_000_000, .report (Vector.replicate 8 0),
    .report aReport, .service 200_000_000]

/-- Ten milliseconds after the second press the key repeats. -/
theorem not_delayed_pressed_twice :
    ∃ s, Reachable (fun s => s = start) (Step step InTime) s ∧
      s.emitted = [⟨0x04, 190_000_000, 200_000_000⟩] ∧ ¬ s.Delayed := by
  have hrun : (run step InTime start pressedTwiceInputs).map emitted =
      some [⟨0x04, 190_000_000, 200_000_000⟩] := by decide +kernel
  obtain ⟨s, hs, hemitted⟩ := Option.map_eq_some_iff.mp hrun
  refine ⟨s, ⟨start, rfl, reflTransGen_of_run pressedTwiceInputs hs⟩, hemitted, ?_⟩
  intro hdelayed
  have hmem : ⟨0x04, 190_000_000, 200_000_000⟩ ∈ s.emitted := by
    rw [hemitted]
    exact List.mem_cons_self
  have hlate := hdelayed _ hmem
  revert hlate
  decide

end Timed

end Kruspix.Drivers.Usb.Keyboard
