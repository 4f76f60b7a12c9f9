import Kruspix.Drivers.Usb.Keyboard
import Mathlib.Tactic.SplitIfs

/-!
# How often a held key is typed

A key is typed when it is pressed and then at intervals until the fuse stops it. The
fuse also forgets the last report, so a report that comes after it presses every
key that is still held once more.
-/

namespace Kruspix.Drivers.Usb.Keyboard

open Common Lib.Transition

/-- A keyboard with the time of the last service and whether the fuse has stopped a repeat. -/
structure UsbKeyboardDevice where
  state : KeyboardState
  clock : Nat
  fused : Bool

/-- What happens to the keyboard. -/
inductive Event
  | report (report : Report)
  | service (now : Nat)
  | drain
  | interruptError

def start : UsbKeyboardDevice := ⟨.new, 0, false⟩

/-- One event. -/
def step (s : UsbKeyboardDevice) : Event → Option UsbKeyboardDevice
  | .report report => some { s with state := s.state.handleReport report }
  | .service now => some ⟨s.state.serviceRepeat now, now, s.fused || s.state.fuses now⟩
  | .drain => some { s with state := { s.state with queue := s.state.queue.clear } }
  | .interruptError => some { s with state := s.state.stopRepeat }

/-- Time does not go back. -/
def InTime (s : UsbKeyboardDevice) : Event → Prop
  | .service now => s.clock ≤ now
  | _ => True

/-- The keyboards that any events reach. -/
def Reached (s : UsbKeyboardDevice) : Prop := Reachable (fun s => s = start) (Step step InTime) s

/-- The key is in every report, and no key is twice in one. -/
def Held (usage : UInt8) (s : UsbKeyboardDevice) : Event → Prop
  | .report report => usage ∈ report.keys ∧ (report.keys.filter (· ≠ 0)).Nodup
  | .service now => s.clock ≤ now
  | .drain => True
  | .interruptError => False

instance (usage : UInt8) (s : UsbKeyboardDevice) (e : Event) : Decidable (Held usage s e) := by
  unfold Held
  cases e <;> dsimp only <;> infer_instance

/-- No report is accepted after the fuse has stopped a repeat. -/
def Unfused (s : UsbKeyboardDevice) : Event → Prop
  | .report report => s.fused = false ∨ hasErrorRollover report = true
  | _ => True

instance (s : UsbKeyboardDevice) (e : Event) : Decidable (Unfused s e) := by
  unfold Unfused
  cases e <;> dsimp only <;> infer_instance

/-- A held key is typed at most this often, and does not repeat after the fuse. -/
structure Bounded (usage : UInt8) (s t : UsbKeyboardDevice) : Prop where
  count : t.state.pushedFor usage ≤
    s.state.pushedFor usage + (2 + KEYBOARD_REPEAT_MAX_HOLD / KEYBOARD_REPEAT_INTERVAL)
  stopped : t.fused = true → ∀ key, t.state.repeatKey = some key → key.usage ≠ usage

namespace KeyboardState

variable {s : KeyboardState} {usage modifiers : UInt8} {report : Report}

@[simp] theorem pushedFor_push (key : RepeatKey) :
    (s.push key).pushedFor usage = s.pushedFor usage + if key.usage = usage then 1 else 0 := by
  simp only [pushedFor, push, List.countP_append, List.countP_singleton, beq_iff_eq]

/-- What the keys of a report do to a key: it is typed as often as it is listed, unless it was
down before, and repeats only if it was typed. -/
structure Pressed (usage : UInt8) (times : Nat) (s t : KeyboardState) : Prop where
  previousReport : t.previousReport = s.previousReport
  repeatTracked : t.repeatTracked = s.repeatTracked
  repeatAnchor : t.repeatAnchor = s.repeatAnchor
  repeatLastEmit : t.repeatLastEmit = s.repeatLastEmit
  pushedFor : t.pushedFor usage ≤ s.pushedFor usage + times
  repeatKey : ∀ key, t.repeatKey = some key → key.usage = usage →
    0 < times ∨ ∃ key', s.repeatKey = some key' ∧ key'.usage = usage

theorem Pressed.refl (times : Nat) (s : KeyboardState) : Pressed usage times s s :=
  ⟨rfl, rfl, rfl, rfl, Nat.le_add_right _ _, fun key hkey husage => .inr ⟨key, hkey, husage⟩⟩

theorem Pressed.trans {t u : KeyboardState} {m n : Nat} (h : Pressed usage m s t)
    (h' : Pressed usage n t u) : Pressed usage (m + n) s u where
  previousReport := h'.previousReport.trans h.previousReport
  repeatTracked := h'.repeatTracked.trans h.repeatTracked
  repeatAnchor := h'.repeatAnchor.trans h.repeatAnchor
  repeatLastEmit := h'.repeatLastEmit.trans h.repeatLastEmit
  pushedFor := by
    have hst := h.pushedFor
    have htu := h'.pushedFor
    omega
  repeatKey key hkey husage := by
    rcases h'.repeatKey key hkey husage with hpos | ⟨key', hkey', husage'⟩
    · exact .inl (by omega)
    · rcases h.repeatKey key' hkey' husage' with hpos | hexists
      · exact .inl (by omega)
      · exact .inr hexists

/-- How often the keys of a list are typed for `usage`. -/
def typed (previous : Report) (usage : UInt8) (keys : List UInt8) : Nat :=
  if usage ∈ previous.keys then 0 else keys.count usage

theorem typed_cons (previous : Report) (key : UInt8) (keys : List UInt8) :
    typed previous usage (key :: keys) = typed previous usage [key] + typed previous usage keys := by
  simp only [typed]
  split_ifs
  · rfl
  · rw [List.count_cons, List.count_singleton, Nat.add_comm]

theorem press_pressed (key : UInt8) :
    Pressed usage (typed s.previousReport usage [key]) s (s.press modifiers key) := by
  unfold press
  split_ifs with hdown hcaps
  · exact .refl _ s
  · exact ⟨rfl, rfl, rfl, rfl, Nat.le_add_right _ _,
      fun key' hkey' husage => .inr ⟨key', hkey', husage⟩⟩
  · split
    · exact .refl _ s
    · rename_i byte hbyte
      have hnew : key ∉ s.previousReport.keys := fun hmem =>
        hdown (List.contains_iff_mem.mpr hmem)
      have htimes : typed s.previousReport usage [key] = if key = usage then 1 else 0 := by
        by_cases heq : key = usage
        · subst heq
          rw [typed, if_neg hnew, if_pos rfl, List.count_singleton_self]
        · rw [typed, List.count_singleton, beq_eq_false_iff_ne.mpr heq, if_neg heq]
          exact ite_self 0
      rw [htimes]
      refine ⟨rfl, rfl, rfl, rfl, Nat.le_of_eq (pushedFor_push ⟨key, byte⟩), ?_⟩
      intro key' hkey' husage
      cases hkey'
      exact .inl (by rw [if_pos husage]; exact Nat.one_pos)

theorem foldl_press_pressed (keys : List UInt8) :
    Pressed usage (typed s.previousReport usage keys) s (keys.foldl (press modifiers) s) := by
  induction keys generalizing s with
  | nil => exact .refl _ s
  | cons key keys ih =>
      have hpress : Pressed usage _ s (s.press modifiers key) := press_pressed key
      have hrest := @ih (s.press modifiers key)
      rw [hpress.previousReport] at hrest
      rw [typed_cons]
      exact hpress.trans hrest

/-- A report keeps the repeat of a key that is down, if anything. -/
structure Refreshed (report : Report) (s t : KeyboardState) : Prop where
  previousReport : t.previousReport = s.previousReport
  repeatTracked : t.repeatTracked = s.repeatTracked
  repeatAnchor : t.repeatAnchor = s.repeatAnchor
  repeatLastEmit : t.repeatLastEmit = s.repeatLastEmit
  pushed : t.pushed = s.pushed
  repeatKey : ∀ key, t.repeatKey = some key →
    key.usage ∈ report.keys ∧ ∃ key', s.repeatKey = some key' ∧ key'.usage = key.usage

theorem refresh_refreshed : Refreshed report s (s.refresh report) := by
  unfold refresh
  split
  · rename_i hnone
    refine ⟨rfl, rfl, rfl, rfl, rfl, fun key hkey => ?_⟩
    rw [hnone] at hkey
    cases hkey
  · rename_i held hheld
    split_ifs with hup
    · exact ⟨rfl, rfl, rfl, rfl, rfl, nofun⟩
    · have hdown : held.usage ∈ report.keys := by
        rw [Bool.not_eq_true', Bool.not_eq_false, List.contains_iff_mem] at hup
        exact hup
      split
      · refine ⟨rfl, rfl, rfl, rfl, rfl, fun key hkey => ?_⟩
        obtain rfl : held = key := Option.some.inj (hheld.symm.trans hkey)
        exact ⟨hdown, held, hheld, rfl⟩
      · refine ⟨rfl, rfl, rfl, rfl, rfl, fun key hkey => ?_⟩
        cases hkey
        exact ⟨hdown, held, hheld, rfl⟩

/-- What an accepted report does to a key. -/
structure Reported (usage : UInt8) (report : Report) (s t : KeyboardState) : Prop where
  previousReport : t.previousReport = report
  repeatTracked : t.repeatTracked = s.repeatTracked
  repeatAnchor : t.repeatAnchor = s.repeatAnchor
  repeatLastEmit : t.repeatLastEmit = s.repeatLastEmit
  pushedFor : t.pushedFor usage ≤
    s.pushedFor usage + typed s.previousReport usage (report.keys.filter (· ≠ 0))
  down : ∀ key, t.repeatKey = some key → key.usage ∈ report.keys
  repeatKey : ∀ key, t.repeatKey = some key → key.usage = usage →
    usage ∉ s.previousReport.keys ∨ ∃ key', s.repeatKey = some key' ∧ key'.usage = usage

theorem handleReport_reported (hroll : ¬hasErrorRollover report = true) :
    Reported usage report s (s.handleReport report) := by
  unfold handleReport
  rw [if_neg hroll]
  have hpressed : Pressed usage _ s
      ((report.keys.filter (· ≠ 0)).foldl (press report[0]) s) := foldl_press_pressed _
  generalize (report.keys.filter (· ≠ 0)).foldl (press report[0]) s = u at hpressed
  have hrefreshed : Refreshed report u (u.refresh report) := refresh_refreshed
  refine ⟨rfl, hrefreshed.repeatTracked.trans hpressed.repeatTracked,
    hrefreshed.repeatAnchor.trans hpressed.repeatAnchor,
    hrefreshed.repeatLastEmit.trans hpressed.repeatLastEmit, ?_,
    fun key hkey => (hrefreshed.repeatKey key hkey).1, fun key hkey husage => ?_⟩
  · rw [KeyboardState.pushedFor, hrefreshed.pushed]
    exact hpressed.pushedFor
  · obtain ⟨-, key', hkey', husage'⟩ := hrefreshed.repeatKey key hkey
    refine (hpressed.repeatKey key' hkey' (husage'.trans husage)).imp_left fun hpos hmem => ?_
    rw [typed, if_pos hmem] at hpos
    exact Nat.lt_irrefl 0 hpos

theorem handleReport_of_rollover (hroll : hasErrorRollover report = true) :
    s.handleReport report = s := by
  rw [handleReport, if_pos hroll]

theorem typed_le_one {keys : List UInt8} (previous : Report) (h : keys.Nodup) :
    typed previous usage keys ≤ 1 := by
  rw [typed]
  split_ifs
  · exact Nat.zero_le 1
  · exact List.nodup_iff_count_le_one.mp h usage

theorem typed_of_mem {keys : List UInt8} {previous : Report} (h : usage ∈ previous.keys) :
    typed previous usage keys = 0 := if_pos h

/-- What a service does: nothing to repeat, a key that is new to it, the fuse, one more byte of
the key, or nothing yet. -/
inductive Serviced (s : KeyboardState) (now : Nat) : KeyboardState → Bool → Prop
  | idle (hnone : s.repeatKey = none) : Serviced s now { s with repeatTracked := none } false
  | track (key : RepeatKey) (hkey : s.repeatKey = some key)
      (hnew : s.repeatTracked ≠ some key.usage) :
      Serviced s now
        { s with repeatTracked := some key.usage, repeatAnchor := now, repeatLastEmit := now } false
  | fuse (key : RepeatKey) (hkey : s.repeatKey = some key) : Serviced s now s.stopRepeat true
  | emit (key : RepeatKey) (hkey : s.repeatKey = some key)
      (htracked : s.repeatTracked = some key.usage)
      (hhold : now < s.repeatAnchor + KEYBOARD_REPEAT_MAX_HOLD)
      (hdelay : s.repeatAnchor + KEYBOARD_REPEAT_DELAY ≤ now)
      (hinterval : s.repeatLastEmit + KEYBOARD_REPEAT_INTERVAL ≤ now) :
      Serviced s now { s.push key with repeatLastEmit := now } false
  | wait (key : RepeatKey) (hkey : s.repeatKey = some key) : Serviced s now s false

theorem serviceRepeat_serviced (s : KeyboardState) (now : Nat) :
    Serviced s now (s.serviceRepeat now) (s.fuses now) := by
  unfold serviceRepeat fuses
  split
  · rename_i hnone
    exact .idle hnone
  · rename_i key hkey
    split_ifs with hnew hfuse hemit
    · rw [beq_eq_false_iff_ne.mpr hnew, Bool.false_and]
      exact .track key hkey hnew
    · rw [beq_iff_eq.mpr (not_not.mp hnew), Bool.true_and, decide_eq_true hfuse]
      exact .fuse key hkey
    · rw [decide_eq_false hfuse, Bool.and_false]
      simp only [KEYBOARD_REPEAT_DELAY, KEYBOARD_REPEAT_INTERVAL, KEYBOARD_REPEAT_MAX_HOLD] at *
      exact .emit key hkey (not_not.mp hnew) (by rw [KEYBOARD_REPEAT_MAX_HOLD]; omega)
        (by rw [KEYBOARD_REPEAT_DELAY]; omega) (by rw [KEYBOARD_REPEAT_INTERVAL]; omega)
    · rw [decide_eq_false hfuse, Bool.and_false]
      exact .wait key hkey

end KeyboardState

variable {s t : UsbKeyboardDevice} {usage : UInt8} {base : Nat} {e : Event}

/-- The most bytes that are typed for one hold: the first one and one for each interval between
the delay and the fuse. -/
def HOLD_BYTES : Nat := 246

/-- The key repeats, and has been typed `emitted` times since it was tracked. -/
structure Repeating (usage : UInt8) (base : Nat) (s : KeyboardState) (emitted : Nat) : Prop where
  key : ∃ key, s.repeatKey = some key ∧ key.usage = usage
  count : s.pushedFor usage ≤ base + 1 + emitted
  fresh : s.repeatTracked ≠ some usage → emitted = 0
  time : emitted = 0 ∨
    s.repeatAnchor + KEYBOARD_REPEAT_DELAY + (emitted - 1) * KEYBOARD_REPEAT_INTERVAL ≤
        s.repeatLastEmit ∧
      s.repeatLastEmit < s.repeatAnchor + KEYBOARD_REPEAT_MAX_HOLD

/-- The key does not repeat. -/
def Silent (usage : UInt8) (s : KeyboardState) : Prop :=
  ∀ key, s.repeatKey = some key → key.usage ≠ usage

/-- How far the hold of a key has come since it had been typed `base` times. -/
inductive Phase (usage : UInt8) (base : Nat) (s : UsbKeyboardDevice) : Prop
  | before (hfused : s.fused = false) (hsilent : Silent usage s.state)
      (hcount : s.state.pushedFor usage ≤ base)
  | repeating (emitted : Nat) (hfused : s.fused = false)
      (hdown : usage ∈ s.state.previousReport.keys)
      (hrepeating : Repeating usage base s.state emitted)
  | done (hdown : s.fused = true ∨ usage ∈ s.state.previousReport.keys)
      (hsilent : Silent usage s.state) (hfuse : s.fused = true → s.state.repeatKey = none)
      (hcount : s.state.pushedFor usage ≤ base + HOLD_BYTES)

/-- The intervals between the delay and the fuse. -/
theorem Repeating.count_le {s : KeyboardState} {emitted : Nat}
    (h : Repeating usage base s emitted) : s.pushedFor usage ≤ base + HOLD_BYTES := by
  have hcount := h.count
  have htime := h.time
  simp only [KEYBOARD_REPEAT_DELAY, KEYBOARD_REPEAT_INTERVAL, KEYBOARD_REPEAT_MAX_HOLD] at htime
  rw [HOLD_BYTES]
  omega

theorem Phase.bounded {s₀ : UsbKeyboardDevice} (h : Phase usage (s₀.state.pushedFor usage) s) :
    Bounded usage s₀ s := by
  have hlimit : HOLD_BYTES ≤ 2 + KEYBOARD_REPEAT_MAX_HOLD / KEYBOARD_REPEAT_INTERVAL := by decide
  cases h with
  | before hfused hsilent hcount =>
      exact ⟨Nat.le_trans hcount (Nat.le_add_right _ _), fun _ => hsilent⟩
  | repeating emitted hfused hdown hrepeating =>
      refine ⟨Nat.le_trans hrepeating.count_le (Nat.add_le_add_left hlimit _), fun htrue => ?_⟩
      rw [hfused] at htrue
      cases htrue
  | done hdown hsilent hfuse hcount =>
      exact ⟨Nat.le_trans hcount (Nat.add_le_add_left hlimit _), fun _ => hsilent⟩

/-- A report that contains the key types it at most once, and starts or continues its hold. -/
theorem Phase.report {report : Report} (h : Phase usage base s) (hmem : usage ∈ report.keys)
    (hnodup : (report.keys.filter (· ≠ 0)).Nodup) (hfused : s.fused = false)
    (hroll : ¬hasErrorRollover report = true) :
    Phase usage base { s with state := s.state.handleReport report } := by
  have hreported : KeyboardState.Reported usage report s.state _ :=
    KeyboardState.handleReport_reported hroll
  have hdown : usage ∈ (s.state.handleReport report).previousReport.keys := by
    rw [hreported.previousReport]
    exact hmem
  have hcount := hreported.pushedFor
  have hone : KeyboardState.typed s.state.previousReport usage _ ≤ 1 :=
    KeyboardState.typed_le_one _ hnodup
  have hnotFused : s.fused = true → (s.state.handleReport report).repeatKey = none := by
    rw [hfused]
    exact nofun
  have hheld (hprev : usage ∈ s.state.previousReport.keys) :
      (s.state.handleReport report).pushedFor usage ≤ s.state.pushedFor usage := by
    rw [KeyboardState.typed_of_mem hprev] at hcount
    exact hcount
  by_cases hkey : ∃ key, (s.state.handleReport report).repeatKey = some key ∧ key.usage = usage
  · cases h with
    | before _ hsilent hbase =>
        have hpushed : (s.state.handleReport report).pushedFor usage ≤ base + 1 + 0 := by omega
        exact .repeating 0 hfused hdown ⟨hkey, hpushed, fun _ => rfl, .inl rfl⟩
    | repeating emitted _ hprev hrepeating =>
        refine .repeating emitted hfused hdown
          ⟨hkey, Nat.le_trans (hheld hprev) hrepeating.count, ?_, ?_⟩
        · rw [hreported.repeatTracked]
          exact hrepeating.fresh
        · rw [hreported.repeatAnchor, hreported.repeatLastEmit]
          exact hrepeating.time
    | done hprev hsilent _ _ =>
        rw [hfused] at hprev
        obtain ⟨key, hkey, husage⟩ := hkey
        rcases hreported.repeatKey key hkey husage with hnot | ⟨key', hkey', husage'⟩
        · exact absurd (hprev.resolve_left Bool.false_ne_true) hnot
        · exact absurd husage' (hsilent key' hkey')
  · have hsilent : Silent usage (s.state.handleReport report) :=
      fun key hkey' husage => hkey ⟨key, hkey', husage⟩
    refine .done (.inr hdown) hsilent hnotFused ?_
    cases h with
    | before _ _ hbase =>
        dsimp only
        rw [HOLD_BYTES]
        omega
    | repeating emitted _ hprev hrepeating => exact Nat.le_trans (hheld hprev) hrepeating.count_le
    | done hprev _ _ hbase =>
        rw [hfused] at hprev
        exact Nat.le_trans (hheld (hprev.resolve_left Bool.false_ne_true)) hbase

/-- A service types the key at most once, and only while its hold lasts. -/
theorem Phase.service (h : Phase usage base s) (now : Nat) :
    Phase usage base ⟨s.state.serviceRepeat now, now, s.fused || s.state.fuses now⟩ := by
  have hserviced := KeyboardState.serviceRepeat_serviced s.state now
  generalize s.state.serviceRepeat now = state, s.state.fuses now = fuse at hserviced
  cases h with
  | before hfused hsilent hcount =>
      rw [hfused, Bool.false_or]
      cases hserviced with
      | idle hnone => exact .before rfl hsilent hcount
      | track key hkey hnew => exact .before rfl hsilent hcount
      | fuse key hkey =>
          exact .done (.inl rfl) nofun (fun _ => rfl) (Nat.le_add_right_of_le hcount)
      | emit key hkey htracked hhold hdelay hinterval =>
          refine .before rfl hsilent ?_
          have hpush := @KeyboardState.pushedFor_push s.state usage key
          rw [if_neg (hsilent key hkey), Nat.add_zero] at hpush
          exact Nat.le_trans (Nat.le_of_eq hpush) hcount
      | wait key hkey => exact .before rfl hsilent hcount
  | repeating emitted hfused hdown hrepeating =>
      obtain ⟨held, hheld, husage⟩ := hrepeating.key
      rw [hfused, Bool.false_or]
      cases hserviced with
      | idle hnone =>
          rw [hheld] at hnone
          cases hnone
      | track key hkey hnew =>
          obtain rfl : held = key := Option.some.inj (hheld.symm.trans hkey)
          rw [husage] at hnew
          have hzero := hrepeating.fresh hnew
          have hcount := hrepeating.count
          refine .repeating 0 rfl hdown ⟨hrepeating.key, ?_, fun _ => rfl, .inl rfl⟩
          rw [hzero] at hcount
          exact hcount
      | fuse key hkey => exact .done (.inl rfl) nofun (fun _ => rfl) hrepeating.count_le
      | emit key hkey htracked hhold hdelay hinterval =>
          obtain rfl : held = key := Option.some.inj (hheld.symm.trans hkey)
          have hpush := @KeyboardState.pushedFor_push s.state usage held
          rw [if_pos husage] at hpush
          have hcount := hrepeating.count
          have htime := hrepeating.time
          refine .repeating (emitted + 1) rfl hdown ⟨hrepeating.key, ?_, ?_, .inr ?_⟩
          · exact Nat.le_trans (Nat.le_of_eq hpush) (by omega)
          · intro hnew
            rw [← husage] at hnew
            exact absurd htracked hnew
          · refine ⟨?_, hhold⟩
            change s.state.repeatAnchor + KEYBOARD_REPEAT_DELAY +
              emitted * KEYBOARD_REPEAT_INTERVAL ≤ now
            simp only [KEYBOARD_REPEAT_DELAY, KEYBOARD_REPEAT_INTERVAL] at htime hdelay hinterval ⊢
            omega
      | wait key hkey => exact .repeating emitted rfl hdown hrepeating
  | done hdown hsilent hfuse hcount =>
      cases hserviced with
      | idle hnone =>
          rw [Bool.or_false]
          exact .done hdown hsilent hfuse hcount
      | track key hkey hnew =>
          rw [Bool.or_false]
          exact .done hdown hsilent hfuse hcount
      | fuse key hkey =>
          rw [Bool.or_true]
          exact .done (.inl rfl) nofun (fun _ => rfl) hcount
      | emit key hkey htracked hhold hdelay hinterval =>
          have hpush := @KeyboardState.pushedFor_push s.state usage key
          rw [if_neg (hsilent key hkey), Nat.add_zero] at hpush
          rw [Bool.or_false]
          exact .done hdown hsilent hfuse (Nat.le_trans (Nat.le_of_eq hpush) hcount)
      | wait key hkey =>
          rw [Bool.or_false]
          exact .done hdown hsilent hfuse hcount

theorem Phase.step (h : Phase usage base s) (hheld : Held usage s e) (hunfused : Unfused s e)
    (ht : step s e = some t) : Phase usage base t := by
  cases e with
  | report report =>
      cases ht
      by_cases hroll : hasErrorRollover report = true
      · rw [KeyboardState.handleReport_of_rollover hroll]
        exact h
      · exact h.report hheld.1 hheld.2 (hunfused.resolve_right hroll) hroll
  | service now =>
      cases ht
      exact h.service now
  | drain =>
      cases ht
      cases h with
      | before hfused hsilent hcount => exact .before hfused hsilent hcount
      | repeating emitted hfused hdown hrepeating =>
          exact .repeating emitted hfused hdown
            ⟨hrepeating.key, hrepeating.count, hrepeating.fresh, hrepeating.time⟩
      | done hdown hsilent hfuse hcount => exact .done hdown hsilent hfuse hcount
  | interruptError => exact hheld.elim

/-- The key that repeats is down. -/
def RepeatHeld (s : UsbKeyboardDevice) : Prop :=
  ∀ key, s.state.repeatKey = some key → key.usage ∈ s.state.previousReport.keys

theorem RepeatHeld.step (h : RepeatHeld s) (ht : step s e = some t) : RepeatHeld t := by
  cases e with
  | report report =>
      cases ht
      by_cases hroll : hasErrorRollover report = true
      · rw [KeyboardState.handleReport_of_rollover hroll]
        exact h
      · intro key hkey
        have hreported : KeyboardState.Reported key.usage report s.state _ :=
          KeyboardState.handleReport_reported hroll
        have hprevious : (s.state.handleReport report).previousReport = report :=
          hreported.previousReport
        change key.usage ∈ (s.state.handleReport report).previousReport.keys
        rw [hprevious]
        exact hreported.down key hkey
  | service now =>
      cases ht
      have hserviced := KeyboardState.serviceRepeat_serviced s.state now
      generalize s.state.serviceRepeat now = state, s.state.fuses now = fuse at hserviced
      cases hserviced with
      | idle hnone => exact h
      | track key hkey hnew => exact h
      | fuse key hkey => exact nofun
      | emit key hkey htracked hhold hdelay hinterval => exact h
      | wait key hkey => exact h
  | drain =>
      cases ht
      exact h
  | interruptError =>
      cases ht
      exact nofun

theorem Reached.repeatHeld (h : Reached s) : RepeatHeld s := by
  refine Reachable.invariant ?_ (fun s t _ hheld hst => ?_) h
  · rintro s rfl
    exact nofun
  · obtain ⟨e, -, ht⟩ := hst
    exact hheld.step ht

/-- A hold starts with a key that repeats, or has not been typed yet. -/
theorem RepeatHeld.phase (h : RepeatHeld s) :
    Phase usage (s.state.pushedFor usage) { s with fused := false } := by
  by_cases hkey : ∃ key, s.state.repeatKey = some key ∧ key.usage = usage
  · have hdown : usage ∈ s.state.previousReport.keys := by
      obtain ⟨key, hkey, rfl⟩ := hkey
      exact h key hkey
    exact .repeating 0 rfl hdown ⟨hkey, Nat.le_succ _, fun _ => rfl, .inl rfl⟩
  · exact .before rfl (fun key hkey' husage => hkey ⟨key, hkey', husage⟩) (Nat.le_refl _)

/-- While a key is held and no report comes after the fuse, the key is typed a bounded number of
times and does not repeat after the fuse. -/
theorem held_bounded {s t : UsbKeyboardDevice} {usage : UInt8} (hs : Reached s)
    (hrun : Relation.ReflTransGen (Step step fun s e => Held usage s e ∧ Unfused s e)
      { s with fused := false } t) :
    Bounded usage s t := by
  have hphase : Phase usage (s.state.pushedFor usage) t := by
    induction hrun with
    | refl => exact hs.repeatHeld.phase
    | tail _ hstep ih =>
        obtain ⟨e, ⟨hheld, hunfused⟩, ht⟩ := hstep
        exact ih.step hheld hunfused ht
  exact hphase.bounded

/-- The report of a keyboard on which only `a` is down. -/
def aReport : Report := #v[0, 0, 0x04, 0, 0, 0, 0, 0]

/-- `a` is pressed and held past the fuse. -/
theorem held_bounded_a : ∃ t, t.state.pushedFor 0x04 = 2 ∧ t.fused = true ∧
    Bounded 0x04 start t := by
  have hrun : (run step (fun s e => Held 0x04 s e ∧ Unfused s e) start
      [.report aReport, .service 0, .service 200_000_000, .drain,
        .service 10_000_000_000]).map (fun s => (s.state.pushedFor 0x04, s.fused)) =
        some (2, true) := by
    decide +kernel
  obtain ⟨t, ht, hend⟩ := Option.map_eq_some_iff.mp hrun
  exact ⟨t, congrArg Prod.fst hend, congrArg Prod.snd hend,
    held_bounded (.start rfl) (reflTransGen_of_run _ ht)⟩

/-- No key is down and none repeats. -/
structure Quiet (s : KeyboardState) : Prop where
  previousReport : s.previousReport = Vector.replicate 8 0
  capsLock : s.capsLock = false
  repeatKey : s.repeatKey = none
  repeatTracked : s.repeatTracked = none

/-- The report types `a`, and `a` repeats from then on. -/
theorem Quiet.handleReport {s : KeyboardState} (h : Quiet s) :
    (s.handleReport aReport).repeatKey = some ⟨0x04, 0x61⟩ ∧
      (s.handleReport aReport).repeatTracked = none ∧
      (s.handleReport aReport).capsLock = false ∧
      (s.handleReport aReport).pushed = s.pushed ++ [⟨0x04, 0x61⟩] := by
  have hkeys : aReport.keys.filter (· ≠ 0) = [0x04] := by decide
  have hup : s.previousReport.keys.contains 0x04 = false := by
    rw [h.previousReport]
    decide
  have hbyte : translateUsage 0x04 aReport[0] s.capsLock = some 0x61 := by
    rw [h.capsLock]
    decide
  have hpress : s.press aReport[0] 0x04 =
      { s.push ⟨0x04, 0x61⟩ with repeatKey := some ⟨0x04, 0x61⟩ } := by
    rw [KeyboardState.press, if_neg (by rw [hup]; exact Bool.false_ne_true), if_neg (by decide),
      hbyte]
  generalize hu : s.press aReport[0] 0x04 = u at hpress
  have hrefresh : u.refresh aReport = u := by
    have hkey : u.repeatKey = some ⟨0x04, 0x61⟩ := by rw [hpress]
    have hcaps : u.capsLock = s.capsLock := by
      rw [hpress]
      rfl
    unfold KeyboardState.refresh
    simp only [hkey, hcaps, hbyte]
    rw [if_neg (by decide), ← hkey, ← hcaps]
  rw [KeyboardState.handleReport, if_neg (by decide), hkeys, List.foldl_cons, List.foldl_nil, hu]
  dsimp only
  rw [hrefresh, hpress]
  exact ⟨rfl, h.repeatTracked, h.capsLock, rfl⟩

/-- A report that comes after the fuse types `a` again, and the fuse forgets it again. -/
theorem Quiet.again (h : Quiet s.state) :
    ∃ t, Relation.ReflTransGen (Step step (Held 0x04)) s t ∧ Quiet t.state ∧
      t.state.pushedFor 0x04 = s.state.pushedFor 0x04 + 1 := by
  obtain ⟨hkey, htracked, hcaps, hpushed⟩ := h.handleReport
  generalize hstate : s.state.handleReport aReport = state at hkey htracked hcaps hpushed
  have htrack : state.serviceRepeat s.clock =
      { state with repeatTracked := some 0x04, repeatAnchor := s.clock,
                   repeatLastEmit := s.clock } := by
    rw [KeyboardState.serviceRepeat, hkey]
    dsimp only
    rw [htracked, if_pos (by decide)]
  have hfuse : (state.serviceRepeat s.clock).serviceRepeat (s.clock + KEYBOARD_REPEAT_MAX_HOLD) =
      (state.serviceRepeat s.clock).stopRepeat := by
    rw [htrack, KeyboardState.serviceRepeat]
    dsimp only
    rw [hkey]
    dsimp only
    rw [if_neg (by decide), if_pos (by omega)]
  have hreport : step s (.report aReport) = some { s with state := state } := by
    rw [step, hstate]
  have hservice : step { s with state := state } (.service s.clock) =
      some ⟨state.serviceRepeat s.clock, s.clock, s.fused || state.fuses s.clock⟩ := rfl
  obtain ⟨fused, hstop⟩ : ∃ fused,
      step ⟨state.serviceRepeat s.clock, s.clock, s.fused || state.fuses s.clock⟩
        (.service (s.clock + KEYBOARD_REPEAT_MAX_HOLD)) =
      some ⟨(state.serviceRepeat s.clock).stopRepeat, s.clock + KEYBOARD_REPEAT_MAX_HOLD,
        fused⟩ := ⟨_, by rw [step, hfuse]⟩
  have hheld : Held 0x04 s (.report aReport) := ⟨by decide, by decide⟩
  have hrun : Relation.ReflTransGen (Step step (Held 0x04)) s _ :=
    .single ⟨.report aReport, hheld, hreport⟩
  refine ⟨_, (hrun.tail ⟨.service s.clock, Nat.le_refl s.clock, hservice⟩).tail
    ⟨.service (s.clock + KEYBOARD_REPEAT_MAX_HOLD), Nat.le_add_right _ _, hstop⟩, ?_, ?_⟩
  · rw [htrack]
    exact ⟨rfl, hcaps, rfl, rfl⟩
  · rw [htrack]
    simp only [KeyboardState.pushedFor, KeyboardState.stopRepeat, hpushed, List.countP_append,
      List.countP_singleton]
    rfl

theorem Quiet.repeated (n : Nat) : ∃ t,
    Relation.ReflTransGen (Step step (Held 0x04)) start t ∧ Quiet t.state ∧
      t.state.pushedFor 0x04 = n := by
  induction n with
  | zero => exact ⟨start, .refl, ⟨rfl, rfl, rfl, rfl⟩, rfl⟩
  | succ n ih =>
      obtain ⟨t, hrun, hquiet, hcount⟩ := ih
      obtain ⟨u, hagain, hquiet', hcount'⟩ := hquiet.again
      exact ⟨u, hrun.trans hagain, hquiet', hcount'.trans (congrArg (· + 1) hcount)⟩

/-- Each report that comes after the fuse starts another hold of `a`. -/
theorem held_not_bounded : ¬∀ s t usage, Reached s →
    Relation.ReflTransGen (Step step (Held usage)) { s with fused := false } t →
    Bounded usage s t := by
  intro hbounded
  obtain ⟨t, hrun, -, hcount⟩ := Quiet.repeated 253
  have hlimit : t.state.pushedFor 0x04 ≤ 0 + 252 :=
    (hbounded start t 0x04 (.start rfl) hrun).count
  omega

end Kruspix.Drivers.Usb.Keyboard
