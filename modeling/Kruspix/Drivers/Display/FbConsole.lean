import Kruspix.Drivers.Display.Drawing
import Kruspix.Drivers.Dma.Transfer

/-!
# The framebuffer console

A write takes the bytes one by one through a parser, which drops escape sequences. The
last row scrolls up by a DMA transfer, or by the processor where that is not to be had.
The font is a parameter, and what the DMA engine does is one for each scroll.
-/

namespace Kruspix.Drivers.Display

open Dma Lib.Loop Lib.Result Kernel.Devicetree

/-- Fonts of 128 glyphs, a row of a glyph in each byte. -/
abbrev Font := Vector UInt8 (128 * 16)

/-- The 16 bytes of a character, or those of the fallback. -/
def getGlyph (font : Font) (c : Nat) : List UInt8 :=
  let idx := if c < 128 then c else 0x7F
  (font.toList.drop (idx * FONT_HEIGHT)).take FONT_HEIGHT

theorem getGlyph_length (font : Font) (c : Nat) : (getGlyph font c).length = FONT_HEIGHT := by
  have hlen := font.length_toList
  simp only [getGlyph, FONT_HEIGHT, List.length_take, List.length_drop]
  split <;> omega

/-- `copy_2d` of the engine that is registered: its result, with the pixels it leaves. -/
abbrev Engine := Dma2DTransfer → Pixels → Except DmaError Unit × Pixels

/-- Where the console is in an escape sequence. -/
inductive AnsiState
  | normal
  | escape
  | csi
  | osc
  deriving DecidableEq, Repr

/-- The cursor, the size in cells and in pixels, the colors, and whether the engine failed. -/
structure FbConsoleState where
  col : Nat
  row : Nat
  cols : Nat
  rows : Nat
  fbWidth : Nat
  fbHeight : Nat
  fg : UInt32
  bg : UInt32
  ansiState : AnsiState
  dmaFailed : Bool

/-- The console with the pixels on the screen and the number of scrolls. -/
structure FbConsole where
  state : FbConsoleState
  px : Pixels
  scrolls : Nat

namespace FbConsole

def DEFAULT_FG : UInt32 := 0xFFFFFFFF
def DEFAULT_BG : UInt32 := 0xFF000000

variable (fb : FrameBuffer)

/-- A cleared framebuffer with the cursor at the top left. -/
def new (px : Pixels) : Except Fault FbConsole := do
  let px ← fb.fillRect 0 0 fb.width fb.height DEFAULT_BG px
  let state : FbConsoleState :=
    { col := 0
      row := 0
      cols := fb.width / FONT_WIDTH
      rows := fb.height / FONT_HEIGHT
      fbWidth := fb.width
      fbHeight := fb.height
      fg := DEFAULT_FG
      bg := DEFAULT_BG
      ansiState := .normal
      dmaFailed := false }
  return ⟨state, px, 0⟩

/-- The transfer of all scanlines but those of the first row. -/
def scrollTransfer (rowLenBytes rowCount : Nat) : Except Fault Dma2DTransfer := do
  let first ← u32 (FONT_HEIGHT * fb.pitch)
  let src ← u32 (fb.busAddr + first)
  let stride ← sub fb.pitch rowLenBytes
  return ⟨src, fb.busAddr, rowLenBytes, rowCount, stride, stride⟩

/-- The part of `scroll` that asks the engine: whether it was used, and its failures. -/
def scrollDma (engine : Option Engine) (rowLenBytes rowCount : Nat) (con : FbConsole) :
    Except Fault (Bool × FbConsole) :=
  if con.state.dmaFailed then .ok (false, con)
  else
    match engine with
    | none => .ok (false, con)
    | some copy2d => do
        let transfer ← scrollTransfer fb rowLenBytes rowCount
        let (result, px) := copy2d transfer con.px
        let con := { con with px := px }
        match result with
        | .ok _ => return (true, con)
        | .error .busy => return (false, con)
        | .error .unavailable => return (false, con)
        | .error _ => return (false, { con with state := { con.state with dmaFailed := true } })

/-- Move the rows up by one, by the engine or by the processor, and clear the last one. -/
def scroll (engine : Option Engine) (con : FbConsole) : Except Fault FbConsole := do
  let rowLenBytes ← u32 (con.state.fbWidth * 4)
  let lastRow ← sub con.state.rows 1
  let rowCount ← u32 (lastRow * FONT_HEIGHT)
  let (usedDma, con) ← scrollDma fb engine rowLenBytes rowCount con
  let px ← (if usedDma then .ok con.px
    else fb.copyRegion 0 FONT_HEIGHT 0 0 con.state.fbWidth rowCount con.px)
  let px ← fb.fillRect 0 rowCount con.state.fbWidth FONT_HEIGHT con.state.bg px
  return ⟨{ con.state with row := lastRow }, px, con.scrolls + 1⟩

variable (dma : Nat → Option Engine)

/-- The cursor goes to the start of the next row, with a scroll behind the last one. -/
def newline (con : FbConsole) : Except Fault FbConsole := do
  let row ← u32 (con.state.row + 1)
  let con := { con with state := { con.state with col := 0, row := row } }
  if con.state.row ≥ con.state.rows then scroll fb (dma con.scrolls) con else return con

/-- The place of the cursor in pixels. -/
def cursor (con : FbConsole) : Except Fault (Nat × Nat) := do
  let x ← u32 (con.state.col * FONT_WIDTH)
  let y ← u32 (con.state.row * FONT_HEIGHT)
  return (x, y)

variable (font : Font)

/-- A printable byte is drawn, and the cursor moves on. -/
def printByte (byte : UInt8) (con : FbConsole) : Except Fault FbConsole := do
  let (x, y) ← con.cursor
  let px ← fb.drawGlyph x y (getGlyph font byte.toNat) con.state.fg con.state.bg con.px
  let col ← u32 (con.state.col + 1)
  let con := { con with state := { con.state with col := col }, px := px }
  if con.state.col ≥ con.state.cols then newline fb dma con else return con

/-- Backspace. -/
def eraseByte (con : FbConsole) : Except Fault FbConsole := do
  let col := if con.state.col > 0 then con.state.col - 1 else con.state.col
  let con := { con with state := { con.state with col := col } }
  let (x, y) ← con.cursor
  let px ← fb.fillRect x y FONT_WIDTH FONT_HEIGHT con.state.bg con.px
  return { con with px := px }

/-- Replace the state of the escape sequence. -/
def setAnsiState (con : FbConsole) (ansiState : AnsiState) : FbConsole :=
  { con with state := { con.state with ansiState := ansiState } }

/-- The control characters that the console knows. -/
def ESC : UInt8 := 0x1B
def BEL : UInt8 := 0x07
def LF : UInt8 := 0x0A
def CR : UInt8 := 0x0D
def BS : UInt8 := 0x08

/-- The final byte of a CSI sequence. -/
def isFinal (byte : UInt8) : Bool := 0x40 ≤ byte && byte ≤ 0x7E

/-- The bytes that have a glyph. -/
def isPrintable (byte : UInt8) : Bool := 0x20 ≤ byte && byte ≤ 0x7E

/-- A byte in the normal state, other than `ESC`. -/
def normalByte (byte : UInt8) (con : FbConsole) : Except Fault FbConsole :=
  if isPrintable byte then printByte fb dma font byte con
  else if byte = LF then newline fb dma con
  else if byte = CR then .ok { con with state := { con.state with col := 0 } }
  else if byte = BS then eraseByte fb con
  else .ok con

/-- The body of the loop of `write`. -/
def writeByte (con : FbConsole) (byte : UInt8) : Except Fault FbConsole :=
  match con.state.ansiState with
  | .escape =>
      if byte = 0x5B then .ok (con.setAnsiState .csi)
      else if byte = 0x5D then .ok (con.setAnsiState .osc)
      else if byte = ESC then .ok con
      else .ok (con.setAnsiState .normal)
  | .csi => if isFinal byte then .ok (con.setAnsiState .normal) else .ok con
  | .osc =>
      if byte = BEL then .ok (con.setAnsiState .normal)
      else if byte = ESC then .ok (con.setAnsiState .escape)
      else .ok con
  | .normal =>
      if byte = ESC then .ok (con.setAnsiState .escape) else normalByte fb dma font byte con

/-- Print bytes one after the other. -/
def write (con : FbConsole) (bytes : List UInt8) : Except Fault FbConsole :=
  bytes.foldlM (writeByte fb dma font) con

end FbConsole

end Kruspix.Drivers.Display
