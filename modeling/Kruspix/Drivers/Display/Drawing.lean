import Kruspix.Kernel.Devicetree.Cursor
import Kruspix.Lib.Loop
import Kruspix.Lib.Result
import Mathlib.Algebra.Group.Nat.Even

/-!
# Drawing on a framebuffer

The pixels lie in rows of `pitch` bytes, of which the first `width` pixels are seen. The
loops compute the place of each pixel in 32 bits.
-/

namespace Kruspix.Drivers.Display

open Kernel.Devicetree Lib.Loop Lib.Result

/-- A result that must fit into 32 bits. -/
def u32 (n : Nat) : Except Fault Nat := if n < 2 ^ 32 then .ok n else .error .overflow

theorem u32_ok {n : Nat} (h : n < 2 ^ 32) : u32 n = .ok n := if_pos h

/-- A difference that must not be negative. -/
def sub (m n : Nat) : Except Fault Nat := if n ≤ m then .ok (m - n) else .error .overflow

theorem sub_ok {m n : Nat} (h : n ≤ m) : sub m n = .ok (m - n) := if_pos h

/-- How far `count` steps from `start` go until they are stopped at `size`. -/
theorem exists_clipped (count : Nat) {start size : Nat} (h : start < size) :
    ∃ n, min count (size - start) = n ∧ n ≤ count ∧ start + n ≤ size ∧
      (n < count → size ≤ start + n) :=
  ⟨_, rfl, by omega, by omega, by omega⟩

/-- A framebuffer of 32 bits a pixel, which lies below the end of the bus addresses. -/
structure FrameBuffer where
  width : Nat
  height : Nat
  pitch : Nat
  busAddr : Nat
  pitch_dvd : 4 ∣ pitch
  width_le : 4 * width ≤ pitch
  bus_lt : busAddr + height * pitch < 2 ^ 32

/-- The pixels of the buffer, by their place. -/
abbrev Pixels := Nat → UInt32

/-- `write_volatile`. -/
def Pixels.write (px : Pixels) (offset : Nat) (color : UInt32) : Pixels := fun i =>
  if i = offset then color else px i

namespace FrameBuffer

variable (fb : FrameBuffer)

/-- The pitch in pixels. -/
def pitchPixels : Nat := fb.pitch / 4

/-- `row * pitch_pixels + col`. -/
def offset (col row : Nat) : Except Fault Nat := do
  u32 ((← u32 (row * fb.pitchPixels)) + col)

/-- `fill_rect`: the pixels of the rectangle that lie in the framebuffer get one color. -/
def fillRect (x y w h : Nat) (color : UInt32) (px : Pixels) : Except Fault Pixels :=
  if x ≥ fb.width ∨ y ≥ fb.height ∨ w = 0 ∨ h = 0 then .ok px
  else do
    let xEnd := min (← u32 (x + w)) fb.width
    let yEnd := min (← u32 (y + h)) fb.height
    forRange y yEnd px fun row px => do
      let px ← forRange x xEnd px fun col px => do
        let offset ← fb.offset col row
        return .next (px.write offset color)
      return .next px

/-- `copy_region`: the rectangle, cut at the edges, is copied from its top line on. -/
def copyRegion (srcX srcY dstX dstY w h : Nat) (px : Pixels) : Except Fault Pixels :=
  if srcX ≥ fb.width ∨ srcY ≥ fb.height ∨ dstX ≥ fb.width ∨ dstY ≥ fb.height then .ok px
  else
    let w := min (min w (fb.width - srcX)) (fb.width - dstX)
    let h := min (min h (fb.height - srcY)) (fb.height - dstY)
    if w = 0 ∨ h = 0 then .ok px
    else
      forRange 0 h px fun row px => do
        let px ← forRange 0 w px fun col px => do
          let srcOff ← fb.offset (← u32 (srcX + col)) (← u32 (srcY + row))
          let dstOff ← fb.offset (← u32 (dstX + col)) (← u32 (dstY + row))
          return .next (px.write dstOff (px srcOff))
        return .next px

end FrameBuffer

abbrev FONT_WIDTH : Nat := 8
abbrev FONT_HEIGHT : Nat := 16

/-- `byte & (0x80 >> bit) != 0`. -/
def bitSet (byte : UInt8) (bit : Nat) : Bool := byte &&& (0x80 >>> UInt8.ofNat bit) != 0

/-- Only the first rows of the bitmap are drawn, and only what is seen of them. -/
def FrameBuffer.drawGlyph (fb : FrameBuffer) (x y : Nat) (bitmap : List UInt8) (fg bg : UInt32)
    (px : Pixels) : Except Fault Pixels :=
  if x ≥ fb.width ∨ y ≥ fb.height then .ok px
  else
    forRange 0 (min bitmap.length FONT_HEIGHT) px fun row px => do
      let py ← u32 (y + row)
      if py ≥ fb.height then return .stop px
      let byte := bitmap.getD row 0
      let px ← forRange 0 FONT_WIDTH px fun bit px => do
        let pxX ← u32 (x + bit)
        if pxX ≥ fb.width then return .stop px
        let color := if bitSet byte bit then fg else bg
        let offset ← fb.offset pxX py
        return .next (px.write offset color)
      return .next px

/-! ## What is drawn -/

namespace FrameBuffer

variable {fb : FrameBuffer}

/-- The pixel in a column and a row. -/
def pixel (fb : FrameBuffer) (px : Pixels) (x y : Nat) : UInt32 := px (y * fb.pitchPixels + x)

theorem pitch_eq : fb.pitch = 4 * fb.pitchPixels := (Nat.mul_div_cancel' fb.pitch_dvd).symm

theorem width_le_pitchPixels : fb.width ≤ fb.pitchPixels := by
  have hle := fb.width_le
  rw [pitch_eq] at hle
  omega

theorem rows_lt {y : Nat} (hy : y < fb.height) : (y + 1) * fb.pitchPixels < 2 ^ 32 := by
  have hle : (y + 1) * fb.pitchPixels ≤ fb.height * fb.pitchPixels :=
    Nat.mul_le_mul_right _ hy
  have hlt := fb.bus_lt
  rw [pitch_eq, Nat.mul_left_comm] at hlt
  omega

theorem size_lt {x y : Nat} (hx : x < fb.width) (hy : y < fb.height) :
    fb.width < 2 ^ 32 ∧ fb.height < 2 ^ 32 := by
  have hwidth := @width_le_pitchPixels fb
  have hrow := @rows_lt fb (fb.height - 1) (by omega)
  rw [Nat.sub_add_cancel (by omega)] at hrow
  have hcol : fb.pitchPixels ≤ fb.height * fb.pitchPixels := Nat.le_mul_of_pos_left _ (by omega)
  have hline : fb.height ≤ fb.height * fb.pitchPixels := Nat.le_mul_of_pos_right _ (by omega)
  omega

/-- The place of a pixel that is seen fits into 32 bits. -/
theorem offset_ok {x y : Nat} (hx : x < fb.width) (hy : y < fb.height) :
    fb.offset x y = .ok (y * fb.pitchPixels + x) := by
  have hrow := rows_lt hy
  have hle := @width_le_pitchPixels fb
  rw [Nat.succ_mul] at hrow
  rw [offset, u32_ok (by omega), except_ok_bind, u32_ok (by omega)]

theorem offset_inj {x y x' y' : Nat} (hx : x < fb.pitchPixels) (hx' : x' < fb.pitchPixels) :
    y * fb.pitchPixels + x = y' * fb.pitchPixels + x' ↔ x = x' ∧ y = y' := by
  constructor
  · intro h
    have hrow := congrArg (· / fb.pitchPixels) h
    have hcol := congrArg (· % fb.pitchPixels) h
    simp only [Nat.mul_add_mod_self_right, Nat.mod_eq_of_lt hx, Nat.mod_eq_of_lt hx'] at hcol
    have hpos : 0 < fb.pitchPixels := by omega
    simp only [Nat.mul_comm _ fb.pitchPixels, Nat.mul_add_div hpos, Nat.div_eq_of_lt hx,
      Nat.div_eq_of_lt hx', Nat.add_zero] at hrow
    exact ⟨hcol, hrow⟩
  · rintro ⟨rfl, rfl⟩
    rfl

theorem pixel_write {px : Pixels} {x y x' y' : Nat} {color : UInt32} (hx : x < fb.pitchPixels)
    (hx' : x' < fb.pitchPixels) :
    fb.pixel (px.write (y * fb.pitchPixels + x) color) x' y' =
      if x' = x ∧ y' = y then color else fb.pixel px x' y' := by
  simp only [pixel, Pixels.write, offset_inj hx' hx]

/-- The columns from `x` to `xEnd` have their color in the rows from `y` on, up to a column
of the last row. The other pixels are those of `px`. -/
def Painted (fb : FrameBuffer) (px px' : Pixels) (color : Nat → Nat → UInt32)
    (x xEnd y row col : Nat) : Prop :=
  ∀ c r, c < fb.pitchPixels → fb.pixel px' c r =
    if (x ≤ c ∧ c < xEnd) ∧ y ≤ r ∧ (r < row ∨ r = row ∧ c < col) then color c r
    else fb.pixel px c r

variable {px px' : Pixels} {color : Nat → Nat → UInt32} {x xEnd y row col : Nat}

theorem Painted.start : Painted fb px px color x xEnd y y x := by
  intro c r _
  rw [if_neg (by omega)]

theorem Painted.write (h : Painted fb px px' color x xEnd y row col) (hx : x ≤ col)
    (hcol : col < xEnd) (hend : xEnd ≤ fb.pitchPixels) (hy : y ≤ row) :
    Painted fb px (px'.write (row * fb.pitchPixels + col) (color col row)) color x xEnd y row
      (col + 1) := by
  intro c r hc
  rw [pixel_write (by omega) hc, h c r hc]
  by_cases hhere : c = col ∧ r = row
  · rw [if_pos hhere, if_pos (by omega), hhere.1, hhere.2]
  · rw [if_neg hhere]
    exact if_congr (by omega) rfl rfl

theorem Painted.nextRow (h : Painted fb px px' color x xEnd y row xEnd) :
    Painted fb px px' color x xEnd y (row + 1) x := by
  intro c r hc
  rw [h c r hc]
  exact if_congr (by omega) rfl rfl

/-- Two loops that write each pixel of a rectangle. The color of a pixel may be read from the
buffer as it was painted so far. -/
theorem paint {cell : Nat → Nat → Pixels → Except Fault (Turn Pixels)}
    {line : Nat → Pixels → Except Fault (Turn Pixels)} {i₀ i₁ j₀ j₁ dx dy : Nat}
    (hi : i₀ ≤ i₁) (hj : j₀ ≤ j₁) (hend : dx + j₁ ≤ fb.pitchPixels)
    (hline : ∀ i px', i₀ ≤ i → i < i₁ →
      line i px' = (forRange j₀ j₁ px' (cell i)).map Turn.next)
    (hcell : ∀ i j px', i₀ ≤ i → i < i₁ → j₀ ≤ j → j < j₁ →
      Painted fb px px' color (dx + j₀) (dx + j₁) (dy + i₀) (dy + i) (dx + j) →
      cell i j px' = .ok (.next
        (px'.write ((dy + i) * fb.pitchPixels + (dx + j)) (color (dx + j) (dy + i))))) :
    ∃ px', forRange i₀ i₁ px line = .ok px' ∧ ∀ c r, c < fb.pitchPixels → fb.pixel px' c r =
      if (dx + j₀ ≤ c ∧ c < dx + j₁) ∧ dy + i₀ ≤ r ∧ r < dy + i₁ then color c r
      else fb.pixel px c r := by
  have hrows : ∃ px', forRange i₀ i₁ px line = .ok px' ∧
      Painted fb px px' color (dx + j₀) (dx + j₁) (dy + i₀) (dy + i₁) (dx + j₀) := by
    refine forRange_next (I := fun i px' => Painted fb px px' color (dx + j₀) (dx + j₁) (dy + i₀)
      (dy + i) (dx + j₀)) hi (fun i px' hi₀ hi₁ hpainted => ?_) Painted.start
    obtain ⟨px'', hcols, hdone⟩ : ∃ px'', forRange j₀ j₁ px' (cell i) = .ok px'' ∧
        Painted fb px px'' color (dx + j₀) (dx + j₁) (dy + i₀) (dy + i) (dx + j₁) := by
      refine forRange_next (I := fun j px'' => Painted fb px px'' color (dx + j₀) (dx + j₁)
        (dy + i₀) (dy + i) (dx + j)) hj (fun j px'' hj₀ hj₁ hsofar => ?_) hpainted
      exact ⟨_, hcell i j px'' hi₀ hi₁ hj₀ hj₁ hsofar,
        hsofar.write (by omega) (by omega) hend (by omega)⟩
    exact ⟨px'', by rw [hline i px' hi₀ hi₁, hcols]; rfl, hdone.nextRow⟩
  obtain ⟨px', hrun, hpainted⟩ := hrows
  refine ⟨px', hrun, fun c r hc => ?_⟩
  rw [hpainted c r hc]
  exact if_congr (by omega) rfl rfl

/-! ## The three operations -/

theorem fillRect_spec (px : Pixels) (color : UInt32) {x y w h : Nat}
    (hfit : x < fb.width → y < fb.height → x + w < 2 ^ 32 ∧ y + h < 2 ^ 32) :
    ∃ px', fb.fillRect x y w h color px = .ok px' ∧ ∀ c r, c < fb.pitchPixels → fb.pixel px' c r =
      if (x ≤ c ∧ c < min (x + w) fb.width) ∧ y ≤ r ∧ r < min (y + h) fb.height then color
      else fb.pixel px c r := by
  by_cases hout : x ≥ fb.width ∨ y ≥ fb.height ∨ w = 0 ∨ h = 0
  · refine ⟨px, if_pos hout, fun c r _ => ?_⟩
    rw [if_neg (by omega)]
  · have hwidth := @width_le_pitchPixels fb
    have hlt := hfit (by omega) (by omega)
    rw [fillRect, if_neg hout, u32_ok hlt.1, except_ok_bind, u32_ok hlt.2, except_ok_bind]
    obtain ⟨px', hrun, hpixel⟩ := @paint fb px (fun _ _ => color)
      (fun row col px => do
        let offset ← fb.offset col row
        return .next (px.write offset color)) _
      y (min (y + h) fb.height) x (min (x + w) fb.width) 0 0 (by omega) (by omega) (by omega)
      (fun _ _ _ _ => rfl) fun i j px' _ hi _ hj _ => by
        rw [offset_ok (by omega) (by omega), Nat.zero_add, Nat.zero_add]
        rfl
    refine ⟨px', hrun, fun c r hc => ?_⟩
    rw [hpixel c r hc]
    simp only [Nat.zero_add]

/-- A pixel is read before it is painted over when the region moves up, or to the left. -/
theorem copyRegion_spec (px : Pixels) (w h : Nat) {srcX srcY dstX dstY : Nat}
    (hdst : dstY < srcY ∨ dstY = srcY ∧ dstX ≤ srcX) :
    ∃ px', fb.copyRegion srcX srcY dstX dstY w h px = .ok px' ∧
      ∀ c r, c < fb.pitchPixels → fb.pixel px' c r =
        if (dstX ≤ c ∧ c < dstX + min (min w (fb.width - srcX)) (fb.width - dstX)) ∧
            dstY ≤ r ∧ r < dstY + min (min h (fb.height - srcY)) (fb.height - dstY) then
          fb.pixel px (c - dstX + srcX) (r - dstY + srcY)
        else fb.pixel px c r := by
  rw [copyRegion]
  dsimp only
  generalize hw' : min (min w (fb.width - srcX)) (fb.width - dstX) = w'
  generalize hh' : min (min h (fb.height - srcY)) (fb.height - dstY) = h'
  by_cases hout : srcX ≥ fb.width ∨ srcY ≥ fb.height ∨ dstX ≥ fb.width ∨ dstY ≥ fb.height
  · have hempty : w' = 0 ∨ h' = 0 := by omega
    clear hw' hh'
    refine ⟨px, if_pos hout, fun c r _ => ?_⟩
    rw [if_neg (by omega)]
  · have hwidth := @width_le_pitchPixels fb
    rw [if_neg hout]
    by_cases hempty : w' = 0 ∨ h' = 0
    · clear hw' hh'
      refine ⟨px, if_pos hempty, fun c r _ => ?_⟩
      rw [if_neg (by omega)]
    · rw [if_neg hempty]
      obtain ⟨hsrcX, hdstX⟩ : srcX + w' ≤ fb.width ∧ dstX + w' ≤ fb.width := by omega
      obtain ⟨hsrcY, hdstY⟩ : srcY + h' ≤ fb.height ∧ dstY + h' ≤ fb.height := by omega
      clear hw' hh'
      refine @paint fb px (fun c r => fb.pixel px (c - dstX + srcX) (r - dstY + srcY)) _ _
        0 h' 0 w' dstX dstY (by omega) (by omega) (by omega) (fun _ _ _ _ => rfl)
        fun i j px' _ hi _ hj hsofar => ?_
      have hread : px' ((srcY + i) * fb.pitchPixels + (srcX + j)) =
          fb.pixel px (dstX + j - dstX + srcX) (dstY + i - dstY + srcY) := by
        have hpixel := hsofar (srcX + j) (srcY + i) (by omega)
        rw [if_neg (by omega)] at hpixel
        rw [show dstX + j - dstX + srcX = srcX + j by omega,
          show dstY + i - dstY + srcY = srcY + i by omega]
        exact hpixel
      have hlt := @size_lt fb (srcX + j) (srcY + i) (by omega) (by omega)
      rw [@u32_ok (srcX + j) (by omega), except_ok_bind, @u32_ok (srcY + i) (by omega),
        except_ok_bind, offset_ok (by omega) (by omega), except_ok_bind,
        @u32_ok (dstX + j) (by omega), except_ok_bind, @u32_ok (dstY + i) (by omega),
        except_ok_bind, offset_ok (by omega) (by omega), except_ok_bind, hread]
      rfl

/-- The loops are stopped at the borders. -/
theorem drawGlyph_clipped (px : Pixels) (x y : Nat) (bitmap : List UInt8) (fg bg : UInt32) :
    ∃ px', fb.drawGlyph x y bitmap fg bg px = .ok px' ∧
      ∀ c r, c < fb.pitchPixels → fb.pixel px' c r =
        if (x ≤ c ∧ c < x + min FONT_WIDTH (fb.width - x)) ∧
            y ≤ r ∧ r < y + min (min bitmap.length FONT_HEIGHT) (fb.height - y) then
          if bitSet (bitmap.getD (r - y) 0) (c - x) then fg else bg
        else fb.pixel px c r := by
  by_cases hout : x ≥ fb.width ∨ y ≥ fb.height
  · refine ⟨px, if_pos hout, fun c r _ => ?_⟩
    rw [if_neg (by omega)]
  · have hwidth := @width_le_pitchPixels fb
    have hlt := @size_lt fb x y (by omega) (by omega)
    generalize hlines : min bitmap.length FONT_HEIGHT = lines
    obtain ⟨rows, hrows, hrowsLe, hrowsFit, hrowsCut⟩ :=
      exists_clipped lines (show y < fb.height by omega)
    obtain ⟨cols, hcols, hcolsLe, hcolsFit, hcolsCut⟩ :=
      exists_clipped FONT_WIDTH (show x < fb.width by omega)
    rw [hrows, hcols]
    obtain ⟨px', hrun, hpixel⟩ := @paint fb px
      (fun c r => if bitSet (bitmap.getD (r - y) 0) (c - x) then fg else bg)
      (fun row bit px => do
        let pxX ← u32 (x + bit)
        if pxX ≥ fb.width then return .stop px
        let color := if bitSet (bitmap.getD row 0) bit then fg else bg
        let offset ← fb.offset pxX (y + row)
        return .next (px.write offset color))
      (fun row px => do
        let py ← u32 (y + row)
        if py ≥ fb.height then return .stop px
        let byte := bitmap.getD row 0
        let px ← forRange 0 FONT_WIDTH px fun bit px => do
          let pxX ← u32 (x + bit)
          if pxX ≥ fb.width then return .stop px
          let color := if bitSet byte bit then fg else bg
          let offset ← fb.offset pxX py
          return .next (px.write offset color)
        return .next px)
      0 rows 0 cols x y
      (Nat.zero_le _) (Nat.zero_le _) (by omega)
      (fun row px' _ hrow => by
        rw [u32_ok (by omega), except_ok_bind, if_neg (by omega)]
        dsimp only
        rw [forRange_cut hcolsLe _ _ (Nat.zero_le _)]
        · rfl
        · intro hcut px'
          rw [u32_ok (by omega), except_ok_bind, if_pos (hcolsCut hcut)]
          rfl)
      (fun row bit px' _ hrow _ hbit _ => by
        rw [u32_ok (by omega), except_ok_bind, if_neg (by omega),
          offset_ok (by omega) (by omega), Nat.add_sub_cancel_left, Nat.add_sub_cancel_left]
        rfl)
    refine ⟨px', ?_, fun c r hc => by rw [hpixel c r hc]; rfl⟩
    rw [drawGlyph, if_neg hout, hlines, ← hrun]
    refine forRange_cut hrowsLe (fun hcut px' => ?_) px (Nat.zero_le _)
    rw [u32_ok (by omega), except_ok_bind, if_pos (hrowsCut hcut)]
    rfl

theorem drawGlyph_spec (px : Pixels) (fg bg : UInt32) {x y : Nat} {bitmap : List UInt8}
    (hbitmap : bitmap.length = FONT_HEIGHT) (hx : x + FONT_WIDTH ≤ fb.width)
    (hy : y + FONT_HEIGHT ≤ fb.height) :
    ∃ px', fb.drawGlyph x y bitmap fg bg px = .ok px' ∧
      ∀ c r, c < fb.pitchPixels → fb.pixel px' c r =
        if (x ≤ c ∧ c < x + FONT_WIDTH) ∧ y ≤ r ∧ r < y + FONT_HEIGHT then
          if bitSet (bitmap.getD (r - y) 0) (c - x) then fg else bg
        else fb.pixel px c r := by
  obtain ⟨px', hrun, hpixel⟩ := drawGlyph_clipped px x y bitmap fg bg
  refine ⟨px', hrun, fun c r hc => ?_⟩
  rw [hpixel c r hc, hbitmap, Nat.min_self, Nat.min_eq_left (Nat.le_sub_of_add_le' hx),
    Nat.min_eq_left (Nat.le_sub_of_add_le' hy)]

end FrameBuffer

end Kruspix.Drivers.Display
