import Kruspix.Drivers.Usb.KeyboardRepeat

/-!
# What a held key means

The key that repeats is down, and its byte is refreshed by each report. A report under whose
modifiers the key means nothing leaves the old byte.
-/

namespace Kruspix.Drivers.Usb.Keyboard

open Lib.Transition

/-- The calls that change the keys. -/
inductive KeyboardCall
  | handleReport (report : Report)
  | serviceRepeat (now : Nat)
  | stopRepeat

namespace KeyboardState

/-- One call. -/
def call (s : KeyboardState) : KeyboardCall → KeyboardState
  | .handleReport report => s.handleReport report
  | .serviceRepeat now => s.serviceRepeat now
  | .stopRepeat => s.stopRepeat

/-- The key that repeats is down and repeats the byte it means. -/
def Means (s : KeyboardState) : Prop :=
  ∀ key, s.repeatKey = some key → key.usage ∈ s.previousReport.keys ∧
    translateUsage key.usage s.previousReport.modifiers s.capsLock = some key.byte

/-- The key is typed if a report with these modifiers lists it. -/
def Types (s : KeyboardState) (modifiers usage : UInt8) : Prop :=
  usage ∉ s.previousReport.keys ∧ usage ≠ HID_USAGE_CAPS_LOCK ∧
    translateUsage usage modifiers s.capsLock ≠ none

/-- The report is ignored, types a key, or has a byte for the key that repeats if it is down. -/
def KeepsMeaning (s : KeyboardState) : KeyboardCall → Prop
  | .handleReport report =>
      hasErrorRollover report = true ∨
        (∃ usage ∈ report.keys.filter (· ≠ 0), s.Types report.modifiers usage) ∨
        ∀ key, s.repeatKey = some key → key.usage ∈ report.keys →
          translateUsage key.usage report.modifiers s.capsLock ≠ none
  | _ => True

variable {s : KeyboardState} {usage modifiers : UInt8} {report : Report}

/-- Caps Lock chooses between two bytes, never between a byte and none. -/
theorem translateUsage_eq_none (capsLock capsLock' : Bool) :
    translateUsage usage modifiers capsLock = none ↔
      translateUsage usage modifiers capsLock' = none := by
  unfold translateUsage
  dsimp only
  split_ifs
  · exact Iff.rfl
  · simp only [translateLetter, Option.map_eq_none_iff]
  · exact Iff.rfl
  · exact Iff.rfl

/-- What one key of a report does to the key that repeats. -/
theorem press_repeatKey (key : UInt8) :
    (¬ s.Types modifiers key ∧ (s.press modifiers key).repeatKey = s.repeatKey) ∨
      (s.Types modifiers key ∧ ∃ byte, (s.press modifiers key).repeatKey = some ⟨key, byte⟩) := by
  unfold press
  split_ifs with hdown hcaps
  · exact .inl ⟨fun h => h.1 (List.contains_iff_mem.mp hdown), rfl⟩
  · exact .inl ⟨fun h => h.2.1 hcaps, rfl⟩
  · split
    · rename_i hnone
      exact .inl ⟨fun h => h.2.2 hnone, rfl⟩
    · rename_i byte hbyte
      refine .inr ⟨⟨fun hmem => hdown (List.contains_iff_mem.mpr hmem), hcaps, ?_⟩, byte, rfl⟩
      rw [hbyte]
      exact nofun

theorem types_press (key : UInt8) :
    (s.press modifiers key).Types modifiers usage ↔ s.Types modifiers usage := by
  have hprevious : (s.press modifiers key).previousReport = s.previousReport :=
    (@press_pressed s usage modifiers key).previousReport
  rw [Types, Types, hprevious, Ne, Ne, Ne, translateUsage_eq_none _ s.capsLock]

/-- The keys of a report leave the key that repeats, or put one in its place that is typed. -/
theorem foldl_press_repeatKey (keys : List UInt8) :
    ((∀ key ∈ keys, ¬ s.Types modifiers key) ∧
        (keys.foldl (press modifiers) s).repeatKey = s.repeatKey) ∨
      ∃ key, (keys.foldl (press modifiers) s).repeatKey = some key ∧ key.usage ∈ keys ∧
        s.Types modifiers key.usage := by
  induction keys generalizing s with
  | nil => exact .inl ⟨fun key h => absurd h List.not_mem_nil, rfl⟩
  | cons key keys ih =>
      rw [List.foldl_cons]
      rcases @ih (s.press modifiers key) with ⟨hnone, hkeep⟩ | ⟨last, hlast, hmem, htypes⟩
      · rcases @press_repeatKey s modifiers key with ⟨hnot, hsame⟩ | ⟨htypes, byte, hnew⟩
        · refine .inl ⟨?_, hkeep.trans hsame⟩
          intro other hother
          rcases List.mem_cons.mp hother with rfl | hother
          · exact hnot
          · exact fun htypes => hnone other hother ((types_press key).mpr htypes)
        · exact .inr ⟨⟨key, byte⟩, hkeep.trans hnew, List.mem_cons_self, htypes⟩
      · exact .inr ⟨last, hlast, List.mem_cons_of_mem key hmem, (types_press key).mp htypes⟩

/-- The refresh keeps the key if it is down, with the byte it means if there is one. -/
theorem refresh_means_iff :
    Means { s.refresh report with previousReport := report } ↔
      ∀ key, s.repeatKey = some key → key.usage ∈ report.keys →
        translateUsage key.usage report.modifiers s.capsLock ≠ none := by
  unfold refresh
  simp only [Report.getElem_zero]
  split
  · rename_i hnone
    refine iff_of_true ?_ ?_
    · intro key hkey
      rw [hnone] at hkey
      cases hkey
    · intro key hkey
      rw [hnone] at hkey
      cases hkey
  · rename_i key hkey
    split_ifs with hup
    · refine iff_of_true nofun ?_
      intro other hother hmem
      rw [hkey, Option.some.injEq] at hother
      rw [← hother, ← List.contains_iff_mem] at hmem
      rw [hmem] at hup
      cases hup
    · have hdown : key.usage ∈ report.keys := by
        rw [Bool.not_eq_true', Bool.not_eq_false, List.contains_iff_mem] at hup
        exact hup
      split
      · rename_i hnone
        refine iff_of_false ?_ ?_
        · intro h
          have hbyte := (h key hkey).2
          rw [hnone] at hbyte
          cases hbyte
        · intro h
          exact h key hkey hdown hnone
      · rename_i byte hbyte
        refine iff_of_true ?_ ?_
        · intro other hother
          cases hother
          exact ⟨hdown, hbyte⟩
        · intro other hother hmem
          rw [hkey, Option.some.injEq] at hother
          rw [← hother, hbyte]
          exact nofun

theorem handleReport_means_iff (hroll : ¬ hasErrorRollover report = true) :
    (s.handleReport report).Means ↔ s.KeepsMeaning (.handleReport report) := by
  rw [handleReport, if_neg hroll, refresh_means_iff, KeepsMeaning, or_iff_right hroll,
    Report.getElem_zero]
  rcases foldl_press_repeatKey (report.keys.filter (· ≠ 0)) with
    ⟨hnone, hsame⟩ | ⟨last, hlast, hmem, htypes⟩
  · have hnot : ¬ ∃ usage ∈ report.keys.filter (· ≠ 0), s.Types report.modifiers usage := by
      rintro ⟨usage, hmem, htypes⟩
      exact hnone usage hmem htypes
    rw [hsame, or_iff_right hnot]
    refine forall₃_congr fun key _ _ => ?_
    rw [Ne, Ne, translateUsage_eq_none _ s.capsLock]
  · refine iff_of_true ?_ (.inl ⟨last.usage, hmem, htypes⟩)
    intro key hkey _
    rw [hlast, Option.some.injEq] at hkey
    rw [← hkey, Ne, translateUsage_eq_none _ s.capsLock]
    exact htypes.2.2

/-- The calls on the task side keep the meaning of the key that repeats. -/
theorem Means.call {call : KeyboardCall} (h : s.Means) :
    (s.call call).Means ↔ s.KeepsMeaning call := by
  cases call with
  | handleReport report =>
      by_cases hroll : hasErrorRollover report = true
      · refine iff_of_true ?_ (.inl hroll)
        rw [KeyboardState.call, handleReport_of_rollover hroll]
        exact h
      · exact handleReport_means_iff hroll
  | serviceRepeat now =>
      refine iff_of_true ?_ trivial
      have hserviced := serviceRepeat_serviced s now
      rw [KeyboardState.call]
      generalize s.serviceRepeat now = t, s.fuses now = fused at hserviced
      cases hserviced with
      | idle hnone => exact h
      | track key hkey hnew => exact h
      | fuse key hkey => exact nofun
      | emit key hkey htracked hhold hdelay hinterval => exact h
      | wait key hkey => exact h
  | stopRepeat => exact iff_of_true nofun trivial

end KeyboardState

/-- In every state along any calls the key that repeats is down and repeats the byte it means
under the modifiers, exactly if each report is ignored, types a key, or has a byte for it. -/
theorem means_along_iff (calls : List KeyboardCall) :
    (∀ s ∈ states KeyboardState.call .new calls, s.Means) ↔
      Along KeyboardState.call KeyboardState.KeepsMeaning .new calls :=
  forall_states_iff (fun _ _ h => h.call) nofun calls

/-- The report of one key with the modifiers. -/
def keyReport (modifiers usage : UInt8) : Report := #v[modifiers, 0, usage, 0, 0, 0, 0, 0]

/-- Shift is pressed while the key of `3` is held. -/
def shiftedCalls : List KeyboardCall :=
  [.handleReport (keyReport 0 0x20), .handleReport (keyReport 0x02 0x20)]

/-- The key of `3` means nothing with Shift, but repeats its byte. -/
theorem not_means_shifted : ¬ ∀ s ∈ states KeyboardState.call .new shiftedCalls, s.Means := by
  intro h
  have hmem : (KeyboardState.new.handleReport (keyReport 0 0x20)).handleReport
      (keyReport 0x02 0x20) ∈ states KeyboardState.call .new shiftedCalls := by
    simp [shiftedCalls, states, KeyboardState.call]
  have hkey : ((KeyboardState.new.handleReport (keyReport 0 0x20)).handleReport
      (keyReport 0x02 0x20)).repeatKey = some ⟨0x20, 0x33⟩ := by decide +kernel
  have hbyte := (h _ hmem _ hkey).2
  revert hbyte
  decide +kernel

end Kruspix.Drivers.Usb.Keyboard
