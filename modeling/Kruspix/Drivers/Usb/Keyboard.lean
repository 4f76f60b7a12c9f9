import Kruspix.Common.RingArray
import Kruspix.Lib.Transition

/-!
# The keyboard

A boot keyboard reports which keys are down whenever this changes. A key that is
new in a report is typed once, and the one that was typed last is typed again while
it is held, as often as the queue is read. A fuse ends this after ten seconds.
Times are in nanoseconds.
-/

namespace Kruspix.Drivers.Usb.Keyboard

open Common Lib.Transition

def KEYBOARD_QUEUE_LEN : Nat := 256
/-- The times of the repeat, in nanoseconds. -/
def KEYBOARD_REPEAT_DELAY : Nat := 200_000_000
def KEYBOARD_REPEAT_INTERVAL : Nat := 40_000_000
def KEYBOARD_REPEAT_MAX_HOLD : Nat := 10_000_000_000

/-- The bits of the modifiers. -/
def HID_MODIFIER_LEFT_SHIFT : UInt8 := (1 : UInt8) <<< 1
def HID_MODIFIER_RIGHT_SHIFT : UInt8 := (1 : UInt8) <<< 5
def HID_MODIFIER_RIGHT_ALT : UInt8 := (1 : UInt8) <<< 6
def HID_USAGE_CAPS_LOCK : UInt8 := 0x39

/-- The modifiers, an unused byte and the keys that are down. -/
abbrev Report := Vector UInt8 8

/-- The keys that are down: six bytes behind the modifiers and a reserved one. -/
def Report.keys (report : Report) : List UInt8 := report.toList.drop 2

def Report.modifiers (report : Report) : UInt8 := report[0]

theorem Report.getElem_zero (report : Report) : report[0] = report.modifiers := rfl

/-- A held key and the byte that it types. -/
structure RepeatKey where
  usage : UInt8
  byte : UInt8
  deriving DecidableEq, Repr

/-- `pushed` records each byte that is pushed with the key it is pushed for. -/
structure KeyboardState where
  previousReport : Report
  capsLock : Bool
  queue : RingArray UInt8 KEYBOARD_QUEUE_LEN
  repeatKey : Option RepeatKey
  repeatTracked : Option UInt8
  repeatAnchor : Nat
  repeatLastEmit : Nat
  pushed : List RepeatKey

/-- The keys with AltGr, and their bytes. -/
def ALT_GR : List (UInt8 × UInt8) :=
  [(0x14, 0x40), (0x24, 0x7B), (0x25, 0x5B), (0x26, 0x5D), (0x27, 0x7D), (0x2d, 0x5C),
    (0x30, 0x7E), (0x64, 0x7C)]

/-- The keys that are no letters, with their bytes without and with Shift. -/
def PLAIN : List (UInt8 × Option UInt8 × Option UInt8) :=
  [(0x1e, some 0x31, some 0x21), (0x1f, some 0x32, some 0x22), (0x20, some 0x33, none),
    (0x21, some 0x34, some 0x24), (0x22, some 0x35, some 0x25), (0x23, some 0x36, some 0x26),
    (0x24, some 0x37, some 0x2F), (0x25, some 0x38, some 0x28), (0x26, some 0x39, some 0x29),
    (0x27, some 0x30, some 0x3D), (0x28, some 0x0A, some 0x0A), (0x29, some 0x1B, some 0x1B),
    (0x2a, some 0x08, some 0x08), (0x2b, some 0x09, some 0x09), (0x2c, some 0x20, some 0x20),
    (0x2d, none, some 0x3F), (0x30, some 0x2B, some 0x2A), (0x31, some 0x23, some 0x27),
    (0x32, some 0x23, some 0x27), (0x35, some 0x5E, none), (0x36, some 0x2C, some 0x3B),
    (0x37, some 0x2E, some 0x3A), (0x38, some 0x2D, some 0x5F), (0x64, some 0x3C, some 0x3E)]

/-- The letters of a keyboard on which `y` and `z` have changed places. -/
def translateLetter (usage : UInt8) (uppercase : Bool) : Option UInt8 :=
  let letter : Option UInt8 :=
    if 0x04 ≤ usage ∧ usage ≤ 0x1b then some (0x61 + (usage - 0x04))
    else if usage = 0x1c then some 0x7A
    else if usage = 0x1d then some 0x79
    else none
  letter.map fun letter => if uppercase then letter - 0x20 else letter

/-- `translate_usage`: AltGr comes first, then letters with Shift and Caps Lock, then the rest. -/
def translateUsage (usage modifiers : UInt8) (capsLock : Bool) : Option UInt8 :=
  let shift := modifiers &&& (HID_MODIFIER_LEFT_SHIFT ||| HID_MODIFIER_RIGHT_SHIFT) != 0
  let altGr := modifiers &&& HID_MODIFIER_RIGHT_ALT != 0
  if altGr then ALT_GR.lookup usage
  else if 0x04 ≤ usage ∧ usage ≤ 0x1d then translateLetter usage (shift ^^ capsLock)
  else
    match PLAIN.lookup usage with
    | none => none
    | some (plain, shifted) => if shift then shifted else plain

/-- The keyboard reports that it cannot tell which keys are down. -/
def hasErrorRollover (report : Report) : Bool :=
  report.keys.any fun usage => 0x01 ≤ usage && usage ≤ 0x03

namespace KeyboardState

/-- No key is down, and nothing was typed. -/
def new : KeyboardState where
  previousReport := Vector.replicate 8 0
  capsLock := false
  queue := .new 0 (by decide)
  repeatKey := none
  repeatTracked := none
  repeatAnchor := 0
  repeatLastEmit := 0
  pushed := []

/-- Type the byte of a key. -/
def push (s : KeyboardState) (key : RepeatKey) : KeyboardState :=
  { s with queue := s.queue.push key.byte, pushed := s.pushed ++ [key] }

/-- One key of a report. -/
def press (modifiers : UInt8) (s : KeyboardState) (usage : UInt8) : KeyboardState :=
  if s.previousReport.keys.contains usage then s
  else if usage = HID_USAGE_CAPS_LOCK then { s with capsLock := !s.capsLock }
  else
    match translateUsage usage modifiers s.capsLock with
    | none => s
    | some byte => { s.push ⟨usage, byte⟩ with repeatKey := some ⟨usage, byte⟩ }

/-- The key that repeats is dropped when it is up, and keeps the byte of the modifiers. -/
def refresh (report : Report) (s : KeyboardState) : KeyboardState :=
  match s.repeatKey with
  | none => s
  | some key =>
      if !report.keys.contains key.usage then { s with repeatKey := none }
      else
        match translateUsage key.usage report[0] s.capsLock with
        | none => s
        | some byte => { s with repeatKey := some ⟨key.usage, byte⟩ }

/-- `handle_report`: the new keys of a report are typed, and the key that repeats follows it. -/
def handleReport (s : KeyboardState) (report : Report) : KeyboardState :=
  if hasErrorRollover report then s
  else
    let s := (report.keys.filter (· ≠ 0)).foldl (press report[0]) s
    { s.refresh report with previousReport := report }

/-- Forget all keys. -/
def stopRepeat (s : KeyboardState) : KeyboardState :=
  { s with repeatKey := none, repeatTracked := none, previousReport := Vector.replicate 8 0 }

/-- The safety fuse stops the repeat at this time. -/
def fuses (s : KeyboardState) (now : Nat) : Bool :=
  match s.repeatKey with
  | none => false
  | some key =>
      s.repeatTracked == some key.usage && now - s.repeatAnchor ≥ KEYBOARD_REPEAT_MAX_HOLD

/-- `service_repeat`: a new key is tracked from now on, the fuse stops one held too long, and
after the delay one byte is typed for each interval. -/
def serviceRepeat (s : KeyboardState) (now : Nat) : KeyboardState :=
  match s.repeatKey with
  | none => { s with repeatTracked := none }
  | some key =>
      if s.repeatTracked ≠ some key.usage then
        { s with repeatTracked := some key.usage, repeatAnchor := now, repeatLastEmit := now }
      else if now - s.repeatAnchor ≥ KEYBOARD_REPEAT_MAX_HOLD then s.stopRepeat
      else if now - s.repeatAnchor ≥ KEYBOARD_REPEAT_DELAY ∧
          now - s.repeatLastEmit ≥ KEYBOARD_REPEAT_INTERVAL then
        { s.push key with repeatLastEmit := now }
      else s

/-- How many bytes were pushed for a key. -/
def pushedFor (s : KeyboardState) (usage : UInt8) : Nat := s.pushed.countP (·.usage == usage)

end KeyboardState

end Kruspix.Drivers.Usb.Keyboard
