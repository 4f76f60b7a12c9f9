import Kruspix.Drivers.Display.Drawing
import Kruspix.Mm.Layout

/-!
# The framebuffer of the firmware

The firmware says where the pixels are and how many bytes a row has. The device counts the
place of a pixel in bytes, and the drawing operations count it in pixels. A pixel is read and
written as one word, which faults at an address that is not a multiple of 4.
-/

namespace Kruspix.Drivers.Display

open Kernel.Devicetree Lib.Loop Lib.Result Mm.Layout

/-- What the firmware answers, in 32 bits each. -/
structure FramebufferInfo where
  busAddr : UInt32
  size : UInt32
  pitch : UInt32
  width : UInt32
  height : UInt32
  depth : UInt32
  deriving DecidableEq, Repr

/-- `strip_vc_bus_alias`. -/
def stripVcBusAlias (busAddr : UInt32) : Nat := (busAddr &&& 0x3FFFFFFF).toNat

/-- The device, with the number of bytes that are mapped for it. -/
structure Bcm2708Fb where
  fbVa : Nat
  busAddr : Nat
  size : Nat
  width : Nat
  height : Nat
  pitch : Nat
  depth : Nat
  deriving DecidableEq, Repr

/-- An access to the four bytes at an offset from the first one that is mapped, and the pixel it
is meant for. -/
structure Access where
  x : Nat
  y : Nat
  offset : Nat
  deriving DecidableEq, Repr

/-- The mapped bytes, and all accesses to them. -/
structure Mapping where
  bytes : Nat → UInt8
  accesses : List Access

namespace Mapping

/-- The four bytes of a pixel are stored. -/
def write (m : Mapping) (a : Access) (color : UInt32) : Mapping where
  bytes i :=
    if a.offset ≤ i ∧ i < a.offset + 4 then (color >>> .ofNat (8 * (i - a.offset))).toUInt8
    else m.bytes i
  accesses := m.accesses ++ [a]

/-- The four bytes of a pixel are loaded. -/
def read (m : Mapping) (a : Access) : UInt32 × Mapping :=
  let byte (i : Nat) := (m.bytes (a.offset + i)).toUInt32 <<< .ofNat (8 * i)
  (byte 0 ||| byte 1 ||| byte 2 ||| byte 3, { m with accesses := m.accesses ++ [a] })

@[simp] theorem accesses_write (m : Mapping) (a : Access) (color : UInt32) :
    (m.write a color).accesses = m.accesses ++ [a] := rfl

@[simp] theorem accesses_read (m : Mapping) (a : Access) :
    (m.read a).2.accesses = m.accesses ++ [a] := rfl

end Mapping

namespace Bcm2708Fb

/-- The checks of `try_init`; `none` is `DeviceFailed`. `map_io_region` maps the region at its
place in the window of the peripherals. -/
def tryInit (info : FramebufferInfo) : Except Fault (Option Bcm2708Fb) :=
  if info.depth ≠ 32 then .ok none
  else do
    let rowBytes ← u32 (info.width.toNat * 4)
    let total := info.height.toNat * info.pitch.toNat
    if rowBytes > info.pitch.toNat ∨ ¬total < 2 ^ 32 ∨ total > info.size.toNat then return none
    return some
      { fbVa := ioPeripheralsMapOffset + stripVcBusAlias info.busAddr
        busAddr := info.busAddr.toNat
        size := info.size.toNat
        width := info.width.toNat
        height := info.height.toNat
        pitch := info.pitch.toNat
        depth := info.depth.toNat }

variable (fb : Bcm2708Fb)

/-- `write_volatile` of a pixel. -/
def writeVolatile (m : Mapping) (a : Access) (color : UInt32) : Except Fault Mapping :=
  if 4 ∣ fb.fbVa + a.offset then .ok (m.write a color) else .error .misaligned

/-- `read_volatile` of a pixel. -/
def readVolatile (m : Mapping) (a : Access) : Except Fault (UInt32 × Mapping) :=
  if 4 ∣ fb.fbVa + a.offset then .ok (m.read a) else .error .misaligned

/-! ## The device -/

/-- The offset of `row_start_va`, which must not overflow. -/
def rowStart (y : Nat) : Except Fault Nat := do
  let start ← u32 (y * fb.pitch)
  if fb.fbVa + start < 2 ^ 64 then return start else throw .overflow

/-- The pixel in a row that starts at this offset. -/
def inRow (start x y : Nat) : Access := ⟨x, y, start + 4 * x⟩

/-- All pixels that are seen get this color. -/
def fill (color : UInt32) (m : Mapping) : Except Fault Mapping :=
  forRange 0 fb.height m fun y m => do
    let start ← fb.rowStart y
    let m ← forRange 0 fb.width m fun x m => do
      let m ← fb.writeVolatile m (inRow start x y) color
      return .next m
    return .next m

/-- One pixel gets this color, if it is seen. -/
def writePixel (x y : Nat) (color : UInt32) (m : Mapping) : Except Fault Mapping :=
  if x ≥ fb.width ∨ y ≥ fb.height then .ok m
  else do
    let start ← fb.rowStart y
    fb.writeVolatile m (inRow start x y) color

/-! ## Drawing -/

/-- The pixels that fit into a row. -/
def pitchPixels : Nat := fb.pitch / 4

/-- `row * pitch_pixels + col`, which counts pixels. -/
def pixelAt (col row : Nat) : Except Fault Access := do
  let offset ← u32 ((← u32 (row * fb.pitchPixels)) + col)
  return ⟨col, row, 4 * offset⟩

/-- A rectangle gets this color, as far as it is seen. -/
def fillRect (x y w h : Nat) (color : UInt32) (m : Mapping) : Except Fault Mapping :=
  if x ≥ fb.width ∨ y ≥ fb.height ∨ w = 0 ∨ h = 0 then .ok m
  else do
    let xEnd := min (← u32 (x + w)) fb.width
    let yEnd := min (← u32 (y + h)) fb.height
    forRange y yEnd m fun row m => do
      let m ← forRange x xEnd m fun col m => do
        let m ← fb.writeVolatile m (← fb.pixelAt col row) color
        return .next m
      return .next m

/-- A region is copied pixel by pixel, as far as both places are seen. -/
def copyRegion (srcX srcY dstX dstY w h : Nat) (m : Mapping) : Except Fault Mapping :=
  if srcX ≥ fb.width ∨ srcY ≥ fb.height ∨ dstX ≥ fb.width ∨ dstY ≥ fb.height then .ok m
  else
    let w := min (min w (fb.width - srcX)) (fb.width - dstX)
    let h := min (min h (fb.height - srcY)) (fb.height - dstY)
    if w = 0 ∨ h = 0 then .ok m
    else
      forRange 0 h m fun row m => do
        let m ← forRange 0 w m fun col m => do
          let src ← fb.pixelAt (← u32 (srcX + col)) (← u32 (srcY + row))
          let dst ← fb.pixelAt (← u32 (dstX + col)) (← u32 (dstY + row))
          let (pixel, m) ← fb.readVolatile m src
          let m ← fb.writeVolatile m dst pixel
          return .next m
        return .next m

/-- The bitmap of a glyph is drawn, as far as it is seen. -/
def drawGlyph (x y : Nat) (bitmap : List UInt8) (fg bg : UInt32) (m : Mapping) :
    Except Fault Mapping :=
  if x ≥ fb.width ∨ y ≥ fb.height then .ok m
  else
    forRange 0 (min bitmap.length FONT_HEIGHT) m fun row m => do
      let py ← u32 (y + row)
      if py ≥ fb.height then return .stop m
      let byte := bitmap.getD row 0
      let m ← forRange 0 FONT_WIDTH m fun bit m => do
        let px ← u32 (x + bit)
        if px ≥ fb.width then return .stop m
        let color := if bitSet byte bit then fg else bg
        let m ← fb.writeVolatile m (← fb.pixelAt px py) color
        return .next m
      return .next m

/-- The calls, with any arguments of 32 bits. -/
inductive Call
  | fill (color : UInt32)
  | writePixel (x y color : UInt32)
  | fillRect (x y w h color : UInt32)
  | copyRegion (srcX srcY dstX dstY w h : UInt32)
  | drawGlyph (x y : UInt32) (bitmap : List UInt8) (fg bg : UInt32)

/-- The device or a drawing context on it does what is called. -/
def call : Call → Mapping → Except Fault Mapping
  | .fill color => fb.fill color
  | .writePixel x y color => fb.writePixel x.toNat y.toNat color
  | .fillRect x y w h color => fb.fillRect x.toNat y.toNat w.toNat h.toNat color
  | .copyRegion srcX srcY dstX dstY w h =>
      fb.copyRegion srcX.toNat srcY.toNat dstX.toNat dstY.toNat w.toNat h.toNat
  | .drawGlyph x y bitmap fg bg => fb.drawGlyph x.toNat y.toNat bitmap fg bg

end Bcm2708Fb

end Kruspix.Drivers.Display
