import Kruspix.Drivers.Display.FbConsole

/-!
# A terminal of cells

What a console is for: a grid of cells with a cursor. It never sees an escape sequence, as
these are taken out of the stream before.
-/

namespace Kruspix.Drivers.Display

open FbConsole

/-- An erased cell or one with a character. -/
inductive Cell
  | blank
  | glyph (byte : UInt8)
  deriving DecidableEq, Repr

/-- The cells by column and row, and the place of the cursor. -/
structure Terminal (cols rows : Nat) where
  col : Nat
  row : Nat
  cells : Nat → Nat → Cell
  col_lt : col < cols
  row_lt : row < rows

namespace Terminal

variable {cols rows : Nat}

/-- A blank terminal. -/
def new (hcols : 0 < cols) (hrows : 0 < rows) : Terminal cols rows :=
  ⟨0, 0, fun _ _ => .blank, hcols, hrows⟩

/-- Replace the cell at the cursor. -/
def setCell (t : Terminal cols rows) (cell : Cell) : Terminal cols rows :=
  { t with cells := fun c r => if c = t.col ∧ r = t.row then cell else t.cells c r }

/-- The first column of the next row. In the last row, all rows move up instead. -/
def lineFeed (t : Terminal cols rows) : Terminal cols rows :=
  if hrow : t.row + 1 < rows then
    { t with
      col := 0
      row := t.row + 1
      col_lt := Nat.zero_lt_of_lt t.col_lt
      row_lt := hrow }
  else
    { t with
      col := 0
      cells := fun c r => if r + 1 < rows then t.cells c (r + 1) else .blank
      col_lt := Nat.zero_lt_of_lt t.col_lt }

/-- A character wraps right after the last column. -/
def put (t : Terminal cols rows) (byte : UInt8) : Terminal cols rows :=
  if hcol : t.col + 1 < cols then
    { t.setCell (.glyph byte) with
      col := t.col + 1
      col_lt := hcol }
  else (t.setCell (.glyph byte)).lineFeed

/-- The cursor goes to the start of its row. -/
def carriageReturn (t : Terminal cols rows) : Terminal cols rows :=
  { t with
    col := 0
    col_lt := Nat.zero_lt_of_lt t.col_lt }

/-- There is nothing to the left of the first column. -/
def backspace (t : Terminal cols rows) : Terminal cols rows :=
  setCell
    { t with
      col := t.col - 1
      col_lt := Nat.lt_of_le_of_lt (Nat.sub_le _ _) t.col_lt } .blank

/-- Print a byte; the other control characters do nothing. -/
def feed (t : Terminal cols rows) (byte : UInt8) : Terminal cols rows :=
  if isPrintable byte then t.put byte
  else if byte = LF then t.lineFeed
  else if byte = CR then t.carriageReturn
  else if byte = BS then t.backspace
  else t

end Terminal

/-! ## Escape sequences -/

/-- The bytes behind the final byte of a CSI sequence. -/
def behindCsi : List UInt8 → List UInt8
  | [] => []
  | byte :: bytes => if isFinal byte then bytes else behindCsi bytes

/-- The bytes behind the `BEL` of an OSC sequence, or those from the `ESC` on that ends it. -/
def behindOsc : List UInt8 → List UInt8
  | [] => []
  | byte :: bytes =>
      if byte = BEL then bytes else if byte = ESC then byte :: bytes else behindOsc bytes

theorem behindCsi_length (bytes : List UInt8) : (behindCsi bytes).length ≤ bytes.length := by
  induction bytes with
  | nil => exact Nat.le_refl _
  | cons byte bytes ih =>
      rw [behindCsi]
      split
      · exact Nat.le_succ _
      · exact Nat.le_succ_of_le ih

theorem behindOsc_length (bytes : List UInt8) : (behindOsc bytes).length ≤ bytes.length := by
  induction bytes with
  | nil => exact Nat.le_refl _
  | cons byte bytes ih =>
      rw [behindOsc]
      split
      · exact Nat.le_succ _
      · split
        · exact Nat.le_refl _
        · exact Nat.le_succ_of_le ih

/-- A stream without its escape sequences. One that is not complete runs to the end. -/
def strip : List UInt8 → List UInt8
  | [] => []
  | [byte] => if byte = ESC then [] else [byte]
  | byte :: kind :: rest =>
      if byte ≠ ESC then byte :: strip (kind :: rest)
      else if kind = 0x5B then strip (behindCsi rest)
      else if kind = 0x5D then strip (behindOsc rest)
      else if kind = ESC then strip (kind :: rest)
      else strip rest
termination_by bytes => bytes.length
decreasing_by
  · simp only [List.length_cons]
    omega
  · have hle := behindCsi_length rest
    simp only [List.length_cons]
    omega
  · have hle := behindOsc_length rest
    simp only [List.length_cons]
    omega
  · simp only [List.length_cons]
    omega
  · simp only [List.length_cons]
    omega

/-- The terminal after a stream of bytes. -/
def Terminal.run {cols rows : Nat} (t : Terminal cols rows) (bytes : List UInt8) :
    Terminal cols rows := (strip bytes).foldl feed t

theorem strip_nil : strip [] = [] := by
  rw [strip]

theorem strip_open : strip [ESC] = [] := by
  rw [strip, if_pos rfl]

theorem strip_byte {byte : UInt8} (h : byte ≠ ESC) (bytes : List UInt8) :
    strip (byte :: bytes) = byte :: strip bytes := by
  cases bytes with
  | nil => rw [strip_nil, strip, if_neg h]
  | cons kind rest => rw [strip, if_pos h]

theorem strip_sequence (kind : UInt8) (rest : List UInt8) :
    strip (ESC :: kind :: rest) =
      if kind = 0x5B then strip (behindCsi rest)
      else if kind = 0x5D then strip (behindOsc rest)
      else if kind = ESC then strip (kind :: rest)
      else strip rest := by
  rw [strip, if_neg (fun h => h rfl)]

end Kruspix.Drivers.Display
