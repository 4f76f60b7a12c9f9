import Kruspix.Drivers.Display.Drawing

/-!
# What is drawn at the borders

An operation draws a shape as far as the shape lies on the framebuffer. The ends of the
rectangle to be filled are computed before they are clamped.
-/

namespace Kruspix.Drivers.Display.FrameBuffer

open Kernel.Devicetree Lib.Result

/-- A place on the framebuffer. -/
def Seen (fb : FrameBuffer) (c r : Nat) : Prop := c < fb.width ∧ r < fb.height

/-- The places `[x, x + w) × [y, y + h)`. -/
def Rect (x y w h c r : Nat) : Prop := (x ≤ c ∧ c < x + w) ∧ y ≤ r ∧ r < y + h

/-- The operation does not fail, whatever the pixels are. It sets those of the shape, and
leaves all others as they were. -/
def Draws (fb : FrameBuffer) (operation : Pixels → Except Fault Pixels)
    (shape : Nat → Nat → Prop) (color : Pixels → Nat → Nat → UInt32) : Prop :=
  ∀ px, ∃ px', operation px = .ok px' ∧ ∀ c r, c < fb.pitchPixels →
    (shape c r → fb.pixel px' c r = color px c r) ∧
      (¬shape c r → fb.pixel px' c r = fb.pixel px c r)

variable {fb : FrameBuffer}

theorem Draws.of_ite {operation : Pixels → Except Fault Pixels} {shape : Nat → Nat → Prop}
    {color : Pixels → Nat → Nat → UInt32} (area : Nat → Nat → Prop) [∀ c r, Decidable (area c r)]
    (harea : ∀ c r, shape c r ↔ area c r)
    (h : ∀ px, ∃ px', operation px = .ok px' ∧ ∀ c r, c < fb.pitchPixels →
      fb.pixel px' c r = if area c r then color px c r else fb.pixel px c r) :
    fb.Draws operation shape color := by
  intro px
  obtain ⟨px', hrun, hpixel⟩ := h px
  refine ⟨px', hrun, fun c r hc => ⟨fun hshape => ?_, fun hshape => ?_⟩⟩
  · rw [hpixel c r hc, if_pos ((harea c r).mp hshape)]
  · rw [hpixel c r hc, if_neg (mt (harea c r).mpr hshape)]

/-! ## Filling -/

/-- `fill_rect` sets the pixels of the rectangle. -/
def Fills (fb : FrameBuffer) (x y w h : Nat) (color : UInt32) : Prop :=
  fb.Draws (fb.fillRect x y w h color) (fun c r => Rect x y w h c r ∧ fb.Seen c r)
    fun _ _ _ => color

theorem fills_of_fits {x y w h : Nat} (color : UInt32)
    (hfit : x < fb.width → y < fb.height → x + w < 2 ^ 32 ∧ y + h < 2 ^ 32) :
    fb.Fills x y w h color := by
  refine Draws.of_ite
    (fun c r => (x ≤ c ∧ c < min (x + w) fb.width) ∧ y ≤ r ∧ r < min (y + h) fb.height)
    (fun c r => ?_) fun px => fillRect_spec px color hfit
  unfold Rect Seen
  omega

/-- An empty rectangle is not looked at. -/
theorem fills_of_empty {x y w h : Nat} (color : UInt32) (hempty : w = 0 ∨ h = 0) :
    fb.Fills x y w h color := by
  intro px
  refine ⟨px, if_pos (.inr (.inr hempty)), fun c r _ => ⟨fun hshape => ?_, fun _ => rfl⟩⟩
  unfold Rect at hshape
  omega

theorem fillRect_overflow {x y w h : Nat} (color : UInt32) (px : Pixels) (hx : x < fb.width)
    (hy : y < fb.height) (hw : w ≠ 0) (hh : h ≠ 0) (hlt : ¬(x + w < 2 ^ 32 ∧ y + h < 2 ^ 32)) :
    fb.fillRect x y w h color px = .error .overflow := by
  rw [fillRect, if_neg (by omega)]
  by_cases hxw : x + w < 2 ^ 32
  · rw [u32_ok hxw, except_ok_bind, u32, if_neg (by omega)]
    rfl
  · rw [u32, if_neg hxw]
    rfl

theorem fills_iff (fb : FrameBuffer) (x y w h : Nat) (color : UInt32) :
    fb.Fills x y w h color ↔
      (x < fb.width → y < fb.height → w ≠ 0 → h ≠ 0 → x + w < 2 ^ 32 ∧ y + h < 2 ^ 32) := by
  constructor
  · intro hfills hx hy hw hh
    by_contra hlt
    obtain ⟨px', hrun, -⟩ := hfills fun _ => 0
    rw [fillRect_overflow color _ hx hy hw hh hlt] at hrun
    cases hrun
  · intro hfit
    by_cases hempty : w = 0 ∨ h = 0
    · exact fills_of_empty color hempty
    · exact fills_of_fits color fun hx hy => hfit hx hy (by omega) (by omega)

/-! ## Glyphs -/

/-- `draw_glyph` sets the pixels of the first rows of the bitmap, eight in a row. -/
def DrawsGlyph (fb : FrameBuffer) (x y : Nat) (bitmap : List UInt8) (fg bg : UInt32) : Prop :=
  fb.Draws (fb.drawGlyph x y bitmap fg bg)
    (fun c r => Rect x y FONT_WIDTH (min bitmap.length FONT_HEIGHT) c r ∧ fb.Seen c r)
    fun _ c r => if bitSet (bitmap.getD (r - y) 0) (c - x) then fg else bg

theorem drawsGlyph (fb : FrameBuffer) (x y : Nat) (bitmap : List UInt8) (fg bg : UInt32) :
    fb.DrawsGlyph x y bitmap fg bg := by
  refine Draws.of_ite
    (fun c r => (x ≤ c ∧ c < x + min FONT_WIDTH (fb.width - x)) ∧
      y ≤ r ∧ r < y + min (min bitmap.length FONT_HEIGHT) (fb.height - y))
    (fun c r => ?_) fun px => drawGlyph_clipped px x y bitmap fg bg
  unfold Rect Seen
  omega

/-- A rectangle is filled and a glyph is drawn as far as they are seen, unless an end of a
rectangle on the framebuffer does not fit into 32 bits. -/
theorem fills_and_drawsGlyph_iff (fb : FrameBuffer) (x y w h : Nat) (color : UInt32)
    (glyphX glyphY : Nat) (bitmap : List UInt8) (fg bg : UInt32) :
    (fb.Fills x y w h color ∧ fb.DrawsGlyph glyphX glyphY bitmap fg bg) ↔
      (x < fb.width → y < fb.height → w ≠ 0 → h ≠ 0 → x + w < 2 ^ 32 ∧ y + h < 2 ^ 32) := by
  rw [fills_iff]
  exact and_iff_left (drawsGlyph fb glyphX glyphY bitmap fg bg)

/-- Two rows of four pixels. -/
def narrowFb : FrameBuffer where
  width := 4
  height := 2
  pitch := 16
  busAddr := 0x3C000000
  pitch_dvd := by decide
  width_le := by decide
  bus_lt := by decide

/-- The rest of a row, up to the greatest width there is. -/
theorem not_fills_greatest_width : ¬narrowFb.Fills 1 0 (2 ^ 32 - 1) 1 0xFF000000 := by
  rw [fills_iff]
  decide

/-! ## Copying -/

/-- `copy_region` sets the pixels of the target to those the source had, as far as both are
seen. -/
def Copies (fb : FrameBuffer) (srcX srcY dstX dstY w h : Nat) : Prop :=
  fb.Draws (fb.copyRegion srcX srcY dstX dstY w h)
    (fun c r => Rect dstX dstY w h c r ∧ fb.Seen c r ∧
      fb.Seen (c - dstX + srcX) (r - dstY + srcY))
    fun px c r => fb.pixel px (c - dstX + srcX) (r - dstY + srcY)

/-- What is left of an axis of the target when both regions are clamped. -/
theorem lt_clamped_iff {dst src w size c : Nat} :
    (dst ≤ c ∧ c < dst + min (min w (size - src)) (size - dst)) ↔
      (dst ≤ c ∧ c < dst + w) ∧ c < size ∧ c - dst + src < size := by
  omega

/-- Regions that overlap are copied as if the source was read before the target is written,
when they move up, or to the left within their rows. -/
theorem copies_of_upwards (fb : FrameBuffer) (w h : Nat) {srcX srcY dstX dstY : Nat}
    (hdst : dstY < srcY ∨ dstY = srcY ∧ dstX ≤ srcX) : fb.Copies srcX srcY dstX dstY w h := by
  refine Draws.of_ite
    (fun c r => (dstX ≤ c ∧ c < dstX + min (min w (fb.width - srcX)) (fb.width - dstX)) ∧
      dstY ≤ r ∧ r < dstY + min (min h (fb.height - srcY)) (fb.height - dstY))
    (fun c r => ?_) fun px => copyRegion_spec px w h hdst
  rw [lt_clamped_iff, lt_clamped_iff, Rect, Seen, Seen]
  constructor
  · rintro ⟨⟨hcol, hrow⟩, ⟨hc, hr⟩, hcsrc, hrsrc⟩
    exact ⟨⟨hcol, hc, hcsrc⟩, hrow, hr, hrsrc⟩
  · rintro ⟨⟨hcol, hc, hcsrc⟩, hrow, hr, hrsrc⟩
    exact ⟨⟨hcol, hrow⟩, ⟨hc, hr⟩, hcsrc, hrsrc⟩

/-- Three columns to the left by one, and an end that is cut off. -/
theorem copies_of_upwards_overlap : narrowFb.Copies 1 0 0 0 7 9 :=
  copies_of_upwards narrowFb 7 9 (.inr ⟨rfl, by decide⟩)

end Kruspix.Drivers.Display.FrameBuffer
