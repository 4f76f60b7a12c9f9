import Kruspix.Kernel.Terminal
import Kruspix.Lib.LineEditing

/-!
# The line discipline of the system terminal

Each byte that is typed goes through the line discipline, which keeps the line that is typed and
echoes what changes it.
-/

namespace Kruspix.Kernel.LineDiscipline

open Lib.LineEditing

/-- The line that is being typed, and whether it is echoed. -/
structure TerminalState where
  lineBuffer : List UInt8
  echo : Bool
  deriving DecidableEq, Repr

/-- The state, what is written to the outputs, call by call, and the line that is complete. -/
structure Outcome where
  state : TerminalState
  writes : List (List UInt8)
  line : Option (List UInt8)
  deriving DecidableEq, Repr

/-- A newline ends the line, a backspace takes its last byte, a printable byte is appended, and all
other bytes are ignored. -/
def lineDiscipline (state : TerminalState) (byte : UInt8) : Outcome :=
  if byte = 0x0A ∨ byte = 0x0D then
    { state := { state with lineBuffer := [] }
      writes := if state.echo then [[0x0D, 0x0A]] else []
      line := some state.lineBuffer }
  else if byte = 0x08 ∨ byte = 0x7F then
    if state.lineBuffer.isEmpty then ⟨state, [], none⟩
    else
      { state := { state with lineBuffer := state.lineBuffer.dropLast }
        writes := if state.echo then [[0x08, 0x20, 0x08]] else []
        line := none }
  else if 0x20 ≤ byte ∧ byte < 0x7F then
    { state := { state with lineBuffer := state.lineBuffer ++ [byte] }
      writes := if state.echo then [[byte]] else []
      line := none }
  else ⟨state, [], none⟩

/-- What a byte is for. -/
def key (byte : UInt8) : Key :=
  if byte = 0x0A ∨ byte = 0x0D then .newline
  else if byte = 0x08 ∨ byte = 0x7F then .erase
  else if 0x20 ≤ byte ∧ byte < 0x7F then .put
  else .other

section Key

variable (state : TerminalState) {byte : UInt8}

theorem lineDiscipline_newline (h : key byte = .newline) :
    lineDiscipline state byte =
      ⟨⟨[], state.echo⟩, if state.echo then [[0x0D, 0x0A]] else [], some state.lineBuffer⟩ := by
  rw [key] at h
  split_ifs at h with hnewline
  rw [lineDiscipline, if_pos hnewline]

theorem lineDiscipline_erase (h : key byte = .erase) :
    lineDiscipline state byte =
      ⟨⟨state.lineBuffer.dropLast, state.echo⟩,
        if state.lineBuffer = [] then [] else if state.echo then [[0x08, 0x20, 0x08]] else [],
        none⟩ := by
  obtain ⟨lineBuffer, echo⟩ := state
  rw [key] at h
  split_ifs at h with hnewline herase
  rw [lineDiscipline, if_neg hnewline, if_pos herase]
  cases lineBuffer <;> rfl

theorem lineDiscipline_put (h : key byte = .put) :
    lineDiscipline state byte =
      ⟨⟨state.lineBuffer ++ [byte], state.echo⟩, if state.echo then [[byte]] else [], none⟩ := by
  rw [key] at h
  split_ifs at h with hnewline herase hput
  rw [lineDiscipline, if_neg hnewline, if_neg herase, if_pos hput]

theorem lineDiscipline_other (h : key byte = .other) :
    lineDiscipline state byte = ⟨state, [], none⟩ := by
  rw [key] at h
  split_ifs at h with hnewline herase hput
  rw [lineDiscipline, if_neg hnewline, if_neg herase, if_neg hput]

/-- The buffer is what is typed of the line, and a newline completes it. -/
theorem lineDiscipline_typed {bytes : List UInt8} (h : state.lineBuffer = typed key bytes)
    (byte : UInt8) :
    (lineDiscipline state byte).state = ⟨typed key (bytes ++ [byte]), state.echo⟩ ∧
      lines key (bytes ++ [byte]) =
        lines key bytes ++ (lineDiscipline state byte).line.toList := by
  obtain ⟨lineBuffer, echo⟩ := state
  obtain rfl : lineBuffer = typed key bytes := h
  rw [lines_concat, typed_concat, isNewline]
  cases hkey : key byte with
  | newline =>
      rw [lineDiscipline_newline _ hkey]
      exact ⟨rfl, rfl⟩
  | erase =>
      rw [lineDiscipline_erase _ hkey]
      exact ⟨rfl, rfl⟩
  | put =>
      rw [lineDiscipline_put _ hkey]
      exact ⟨rfl, rfl⟩
  | other =>
      rw [lineDiscipline_other _ hkey]
      exact ⟨rfl, rfl⟩

end Key

end Kruspix.Kernel.LineDiscipline
