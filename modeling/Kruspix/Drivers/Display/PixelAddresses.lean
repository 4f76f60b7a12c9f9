import Kruspix.Drivers.Display.Bcm2708Fb

/-!
# Where the accesses to a framebuffer go

The checks of the driver keep all accesses inside the mapping. The two ways to count the
place of a pixel agree if a row is a whole number of pixels, and in the first row. The accesses
are aligned if the framebuffer is and a row is a whole number of pixels.
-/

namespace Kruspix.Drivers.Display.Bcm2708Fb

open Kernel.Devicetree Lib.Loop Lib.Result Mm.Layout

/-- What the checks of `try_init` say, and where the framebuffer is mapped. -/
structure Valid (fb : Bcm2708Fb) : Prop where
  va_lt : fb.fbVa + 2 ^ 32 < 2 ^ 64
  va_mod : fb.fbVa % 4 = fb.busAddr % 4
  width_le : 4 * fb.width ≤ fb.pitch
  total_le : fb.height * fb.pitch ≤ fb.size
  size_lt : fb.size < 2 ^ 32

variable {fb : Bcm2708Fb} {m : Mapping}

/-- The place in the window is aligned as the bus address is. -/
theorem stripVcBusAlias_eq (busAddr : UInt32) :
    stripVcBusAlias busAddr = busAddr.toNat % 2 ^ 30 := by
  rw [stripVcBusAlias, UInt32.toNat_and]
  exact Nat.and_two_pow_sub_one_eq_mod busAddr.toNat 30

theorem tryInit_valid {info : FramebufferInfo} (h : tryInit info = .ok (some fb)) : fb.Valid := by
  unfold tryInit at h
  split at h
  · cases h
  · obtain ⟨rowBytes, hrow, h⟩ := except_bind_eq_ok.mp h
    rw [u32] at hrow
    split at hrow
    · cases hrow
      dsimp only at h
      split at h
      · cases h
      · rename_i hchecks
        cases h
        have hsize := info.size.toNat_lt
        have hstrip := stripVcBusAlias_eq info.busAddr
        refine ⟨?_, ?_, by dsimp only; omega, by dsimp only; omega, hsize⟩
        · simp only [ioPeripheralsMapOffset]
          omega
        · simp only [ioPeripheralsMapOffset]
          omega
    · cases hrow

/-- The access is to the four bytes of its pixel, and inside the mapping. -/
def Addressed (fb : Bcm2708Fb) (a : Access) : Prop :=
  a.offset = a.y * fb.pitch + 4 * a.x ∧ a.offset + 4 ≤ fb.size

/-- The access does not fault. -/
def Aligned (fb : Bcm2708Fb) (a : Access) : Prop := 4 ∣ fb.fbVa + a.offset

theorem writeVolatile_ok {a : Access} (h : fb.Aligned a) (color : UInt32) :
    fb.writeVolatile m a color = .ok (m.write a color) := if_pos h

theorem writeVolatile_error {a : Access} (h : ¬fb.Aligned a) (color : UInt32) :
    fb.writeVolatile m a color = .error .misaligned := if_neg h

theorem readVolatile_ok {a : Access} (h : fb.Aligned a) :
    fb.readVolatile m a = .ok (m.read a) := if_pos h

theorem readVolatile_error {a : Access} (h : ¬fb.Aligned a) :
    fb.readVolatile m a = .error .misaligned := if_neg h

theorem Valid.row_le (h : fb.Valid) {y : Nat} (hy : y < fb.height) :
    y * fb.pitch + fb.pitch ≤ fb.size := by
  have hrows : (y + 1) * fb.pitch ≤ fb.height * fb.pitch := Nat.mul_le_mul_right _ hy
  have htotal := h.total_le
  rw [Nat.succ_mul] at hrows
  omega

theorem Valid.rowStart_ok (h : fb.Valid) {y : Nat} (hy : y < fb.height) :
    fb.rowStart y = .ok (y * fb.pitch) := by
  have hrow := h.row_le hy
  have hsize := h.size_lt
  have hva := h.va_lt
  rw [rowStart, u32_ok (by omega), except_ok_bind, if_pos (by omega)]
  rfl

theorem Valid.inRow_aligned_iff (h : fb.Valid) (x y : Nat) :
    fb.Aligned (inRow (y * fb.pitch) x y) ↔ 4 ∣ fb.busAddr + y * fb.pitch := by
  have hva := h.va_mod
  rw [Aligned, inRow]
  dsimp only
  omega

theorem Valid.inRow_addressed (h : fb.Valid) {x y : Nat} (hx : x < fb.width) (hy : y < fb.height) :
    fb.Addressed (inRow (y * fb.pitch) x y) := by
  have hrow := h.row_le hy
  have hwidth := h.width_le
  refine ⟨rfl, ?_⟩
  dsimp only [inRow]
  omega

/-- The access of the drawing operations to a pixel. -/
def pixel (fb : Bcm2708Fb) (x y : Nat) : Access := ⟨x, y, 4 * (y * fb.pitchPixels + x)⟩

theorem pixel_le (fb : Bcm2708Fb) (x y : Nat) :
    4 * (y * fb.pitchPixels + x) ≤ y * fb.pitch + 4 * x := by
  have hpitch : 4 * fb.pitchPixels ≤ fb.pitch := Nat.mul_div_le _ _
  have hrow := Nat.mul_le_mul_left y hpitch
  rw [Nat.mul_left_comm] at hrow
  omega

theorem Valid.pixelAt_ok (h : fb.Valid) {x y : Nat} (hx : x < fb.width) (hy : y < fb.height) :
    fb.pixelAt x y = .ok (fb.pixel x y) := by
  have hrow := h.row_le hy
  have hwidth := h.width_le
  have hsize := h.size_lt
  have hle := pixel_le fb x y
  rw [pixelAt, u32_ok (by omega), except_ok_bind, u32_ok (by omega)]
  rfl

/-- The drawing operations need an aligned framebuffer. Their rows that are not the first one
are right only for a whole number of pixels. -/
theorem Valid.pixel_right_iff (h : fb.Valid) {x y : Nat} (hx : x < fb.width)
    (hy : y < fb.height) : (fb.Aligned (fb.pixel x y) ∧ fb.Addressed (fb.pixel x y)) ↔
      4 ∣ fb.busAddr ∧ (4 ∣ fb.pitch ∨ y = 0) := by
  have hrow := h.row_le hy
  have hwidth := h.width_le
  have hle := pixel_le fb x y
  have hva := h.va_mod
  have hpitch := Nat.div_add_mod fb.pitch 4
  have hsplit : y * fb.pitch = 4 * (y * fb.pitchPixels) + y * (fb.pitch % 4) := by
    rw [Nat.mul_left_comm, ← Nat.mul_add, pitchPixels, hpitch]
  have hzero : y * (fb.pitch % 4) = 0 ↔ 4 ∣ fb.pitch ∨ y = 0 := by
    rw [Nat.mul_eq_zero, Nat.dvd_iff_mod_eq_zero, Or.comm]
  refine and_congr ?_ ?_
  · rw [Aligned, pixel]
    dsimp only
    omega
  · rw [← hzero]
    constructor
    · rintro ⟨hoffset, -⟩
      dsimp only [pixel] at hoffset
      omega
    · intro hnone
      refine ⟨?_, ?_⟩
      · dsimp only [pixel]
        omega
      · dsimp only [pixel]
        omega

/-! ## The accesses of loops -/

/-- A turn of a loop that makes these accesses and goes on, or faults at one of them. -/
structure Visits (fb : Bcm2708Fb) (turn : Mapping → Except Fault (Turn Mapping))
    (accesses : List Access) : Prop where
  ok : (∀ a ∈ accesses, fb.Aligned a) → ∀ m, ∃ m', turn m = .ok (.next m') ∧
    m'.accesses = m.accesses ++ accesses
  fault : ∀ a ∈ accesses, ¬fb.Aligned a → ∀ m, ∃ e, turn m = .error e

/-- A call that makes these accesses and no others, or faults at one of them. -/
structure Makes (fb : Bcm2708Fb) (run : Mapping → Except Fault Mapping) (P : Access → Prop) :
    Prop where
  ok : (∀ a, P a → fb.Aligned a) → ∀ m, ∃ m', run m = .ok m' ∧
    ∀ a, a ∈ m'.accesses ↔ a ∈ m.accesses ∨ P a
  fault : ∀ a, P a → ¬fb.Aligned a → ∀ m, ∃ e, run m = .error e

theorem Visits.ne_stop {turn : Mapping → Except Fault (Turn Mapping)} {accesses : List Access}
    (h : Visits fb turn accesses) (m m' : Mapping) : turn m ≠ .ok (.stop m') := by
  intro hstop
  by_cases haligned : ∀ a ∈ accesses, fb.Aligned a
  · obtain ⟨_, hnext, -⟩ := h.ok haligned m
    rw [hstop] at hnext
    cases hnext
  · rw [not_forall₂] at haligned
    obtain ⟨a, ha, hmis⟩ := haligned
    obtain ⟨e, he⟩ := h.fault a ha hmis m
    rw [hstop] at he
    cases he

theorem Makes.congr {run run' : Mapping → Except Fault Mapping} {P P' : Access → Prop}
    (h : Makes fb run P) (hrun : ∀ m, run' m = run m) (hP : ∀ a, P' a ↔ P a) :
    Makes fb run' P' := by
  obtain rfl : run' = run := funext hrun
  obtain rfl : P' = P := funext fun a => propext (hP a)
  exact h

/-- A turn that writes one pixel. -/
theorem visits_write {turn : Mapping → Except Fault (Turn Mapping)} {a : Access} {color : UInt32}
    (hturn : ∀ m, turn m = (fb.writeVolatile m a color).map Turn.next) : Visits fb turn [a] := by
  refine ⟨fun haligned m => ⟨m.write a color, ?_, rfl⟩, fun b hb hmis m => ⟨.misaligned, ?_⟩⟩
  · rw [hturn, writeVolatile_ok (haligned a (List.mem_singleton_self a))]
    rfl
  · rw [List.mem_singleton] at hb
    rw [hturn, writeVolatile_error (hb ▸ hmis)]
    rfl

/-- A turn that copies one pixel. -/
theorem visits_copy {turn : Mapping → Except Fault (Turn Mapping)} {src dst : Access}
    (hturn : ∀ m, turn m = do
      let (pixel, m) ← fb.readVolatile m src
      let m ← fb.writeVolatile m dst pixel
      return .next m) : Visits fb turn [src, dst] := by
  refine ⟨fun haligned m => ⟨(m.read src).2.write dst (m.read src).1, ?_, ?_⟩,
    fun b hb hmis m => ⟨.misaligned, ?_⟩⟩
  · rw [List.forall_mem_cons, List.forall_mem_singleton] at haligned
    rw [hturn, readVolatile_ok haligned.1, except_ok_bind]
    dsimp only
    rw [writeVolatile_ok haligned.2]
    rfl
  · rw [Mapping.accesses_write, Mapping.accesses_read, List.append_assoc]
    rfl
  · rw [List.mem_cons, List.mem_singleton] at hb
    rw [hturn]
    by_cases hsrc : fb.Aligned src
    · rw [readVolatile_ok hsrc, except_ok_bind]
      dsimp only
      rcases hb with rfl | rfl
      · exact absurd hsrc hmis
      · rw [writeVolatile_error hmis]
        rfl
    · rw [readVolatile_error hsrc]
      rfl

/-- Two loops whose turns make some accesses make all of these. -/
theorem sweep {cell : Nat → Nat → Mapping → Except Fault (Turn Mapping)}
    {line : Nat → Mapping → Except Fault (Turn Mapping)} {cells : Nat → Nat → List Access}
    {i₀ i₁ j₀ j₁ : Nat} (hi : i₀ ≤ i₁) (hj : j₀ ≤ j₁)
    (hline : ∀ i m, i₀ ≤ i → i < i₁ → line i m = (forRange j₀ j₁ m (cell i)).map Turn.next)
    (hcell : ∀ i j, i₀ ≤ i → i < i₁ → j₀ ≤ j → j < j₁ → Visits fb (cell i j) (cells i j)) :
    Makes fb (fun m => forRange i₀ i₁ m line) fun a =>
      ∃ i j, (i₀ ≤ i ∧ i < i₁) ∧ (j₀ ≤ j ∧ j < j₁) ∧ a ∈ cells i j := by
  constructor
  · intro haligned m
    refine forRange_next (I := fun i (m' : Mapping) => ∀ a, a ∈ m'.accesses ↔ a ∈ m.accesses ∨
      ∃ k j, (i₀ ≤ k ∧ k < i) ∧ (j₀ ≤ j ∧ j < j₁) ∧ a ∈ cells k j) hi
      (fun i m₁ hi₀ hi₁ hm₁ => ?_) fun a => ?_
    · obtain ⟨m₂, hrun, hm₂⟩ : ∃ m₂, forRange j₀ j₁ m₁ (cell i) = .ok m₂ ∧
          ∀ a, a ∈ m₂.accesses ↔ a ∈ m₁.accesses ∨ ∃ j, (j₀ ≤ j ∧ j < j₁) ∧ a ∈ cells i j := by
        refine forRange_next (I := fun j (m₂ : Mapping) => ∀ a, a ∈ m₂.accesses ↔
          a ∈ m₁.accesses ∨ ∃ k, (j₀ ≤ k ∧ k < j) ∧ a ∈ cells i k) hj
          (fun j m₂ hj₀ hj₁ hm₂ => ?_) fun a => ?_
        · obtain ⟨m₃, hrun, hm₃⟩ := (hcell i j hi₀ hi₁ hj₀ hj₁).ok
            (fun a ha => haligned a ⟨i, j, ⟨hi₀, hi₁⟩, ⟨hj₀, hj₁⟩, ha⟩) m₂
          refine ⟨m₃, hrun, fun a => ?_⟩
          rw [hm₃, List.mem_append, hm₂]
          constructor
          · rintro ((hold | ⟨k, hk, ha⟩) | ha)
            · exact .inl hold
            · exact .inr ⟨k, by omega, ha⟩
            · exact .inr ⟨j, by omega, ha⟩
          · rintro (hold | ⟨k, hk, ha⟩)
            · exact .inl (.inl hold)
            · rcases Nat.lt_or_eq_of_le (Nat.le_of_lt_succ hk.2) with hlt | rfl
              · exact .inl (.inr ⟨k, ⟨hk.1, hlt⟩, ha⟩)
              · exact .inr ha
        · refine ⟨.inl, ?_⟩
          rintro (hold | ⟨k, hk, -⟩)
          · exact hold
          · omega
      refine ⟨m₂, by rw [hline i m₁ hi₀ hi₁, hrun]; rfl, fun a => ?_⟩
      rw [hm₂, hm₁]
      constructor
      · rintro ((hold | ⟨k, j, hk, hj, ha⟩) | ⟨j, hj, ha⟩)
        · exact .inl hold
        · exact .inr ⟨k, j, by omega, hj, ha⟩
        · exact .inr ⟨i, j, by omega, hj, ha⟩
      · rintro (hold | ⟨k, j, hk, hj, ha⟩)
        · exact .inl (.inl hold)
        · rcases Nat.lt_or_eq_of_le (Nat.le_of_lt_succ hk.2) with hlt | rfl
          · exact .inl (.inr ⟨k, j, ⟨hk.1, hlt⟩, hj, ha⟩)
          · exact .inr ⟨j, hj, ha⟩
    · refine ⟨.inl, ?_⟩
      rintro (hold | ⟨k, j, hk, -, -⟩)
      · exact hold
      · omega
  · rintro a ⟨i, j, ⟨hi₀, hi₁⟩, ⟨hj₀, hj₁⟩, ha⟩ hmis m
    refine forRange_error (fun k m m' hk₀ hk₁ hstop => ?_) hi₀ hi₁ (fun m => ?_) m
    · rw [hline k m hk₀ hk₁] at hstop
      cases hrun : forRange j₀ j₁ m (cell k) with
      | error e =>
          rw [hrun] at hstop
          cases hstop
      | ok m₁ =>
          rw [hrun] at hstop
          cases hstop
    · obtain ⟨e, he⟩ := forRange_error
        (fun k m m' hk₀ hk₁ => (hcell i k hi₀ hi₁ hk₀ hk₁).ne_stop m m') hj₀ hj₁
        (fun m => (hcell i j hi₀ hi₁ hj₀ hj₁).fault a ha hmis m) m
      exact ⟨e, by rw [hline i m hi₀ hi₁, he]; rfl⟩

/-! ## The calls -/

theorem Valid.fill_makes (h : fb.Valid) (color : UInt32) :
    Makes fb (fb.fill color) fun a => ∃ y x, y < fb.height ∧ x < fb.width ∧
      a = inRow (y * fb.pitch) x y := by
  have hsweep := @sweep fb
    (fun y x m => (fb.writeVolatile m (inRow (y * fb.pitch) x y) color).map Turn.next)
    (fun y m => do
      let start ← fb.rowStart y
      let m ← forRange 0 fb.width m fun x m => do
        let m ← fb.writeVolatile m (inRow start x y) color
        return .next m
      return .next m)
    (fun y x => [inRow (y * fb.pitch) x y]) 0 fb.height 0 fb.width (Nat.zero_le _) (Nat.zero_le _)
    (fun y m _ hy => by
      rw [h.rowStart_ok hy]
      rfl)
    (fun y x _ _ _ _ => visits_write fun _ => rfl)
  refine hsweep.congr (fun _ => rfl) fun a => ?_
  simp only [Nat.zero_le, true_and, List.mem_singleton]

theorem Valid.writePixel_makes (h : fb.Valid) (x y : Nat) (color : UInt32) :
    Makes fb (fb.writePixel x y color) fun a => (x < fb.width ∧ y < fb.height) ∧
      a = inRow (y * fb.pitch) x y := by
  by_cases hout : x ≥ fb.width ∨ y ≥ fb.height
  · refine ⟨fun _ m => ⟨m, if_pos hout, fun a => ⟨.inl, ?_⟩⟩, ?_⟩
    · rintro (hold | ⟨hin, -⟩)
      · exact hold
      · omega
    · rintro a ⟨hin, -⟩
      omega
  · have hin : x < fb.width ∧ y < fb.height := by omega
    have hrun (m : Mapping) : fb.writePixel x y color m =
        fb.writeVolatile m (inRow (y * fb.pitch) x y) color := by
      rw [writePixel, if_neg hout, h.rowStart_ok hin.2]
      rfl
    refine ⟨fun haligned m => ⟨_, by rw [hrun, writeVolatile_ok (haligned _ ⟨hin, rfl⟩)],
      fun a => ?_⟩, ?_⟩
    · rw [Mapping.accesses_write, List.mem_append, List.mem_singleton, and_iff_right hin]
    · rintro a ⟨-, rfl⟩ hmis m
      exact ⟨_, by rw [hrun, writeVolatile_error hmis]⟩

theorem Valid.fillRect_makes (h : fb.Valid) {x y w h' : Nat} (color : UInt32)
    (hin : ¬(x ≥ fb.width ∨ y ≥ fb.height ∨ w = 0 ∨ h' = 0)) (hx : x + w < 2 ^ 32)
    (hy : y + h' < 2 ^ 32) :
    Makes fb (fb.fillRect x y w h' color) fun a =>
      ∃ row col, (y ≤ row ∧ row < min (y + h') fb.height) ∧
        (x ≤ col ∧ col < min (x + w) fb.width) ∧ a = fb.pixel col row := by
  have hsweep := @sweep fb
    (fun row col m => do
      let m ← fb.writeVolatile m (← fb.pixelAt col row) color
      return .next m) _
    (fun row col => [fb.pixel col row]) y (min (y + h') fb.height) x (min (x + w) fb.width)
    (by omega) (by omega) (fun _ _ _ _ => rfl)
    (fun row col _ _ _ _ => visits_write fun m => by
      rw [h.pixelAt_ok (by omega) (by omega)]
      rfl)
  refine hsweep.congr (fun m => ?_) fun a => ?_
  · rw [fillRect, if_neg hin, u32_ok hx, except_ok_bind, u32_ok hy]
    rfl
  · simp only [List.mem_singleton]

/-- The accesses of `copy_region` to the pixels of two regions of `w` columns and `h'` rows. -/
theorem Valid.copyRegion_makes (h : fb.Valid) {srcX srcY dstX dstY w₀ h₀ w h' : Nat}
    (hout : ¬(srcX ≥ fb.width ∨ srcY ≥ fb.height ∨ dstX ≥ fb.width ∨ dstY ≥ fb.height))
    (hw : w = min (min w₀ (fb.width - srcX)) (fb.width - dstX))
    (hh : h' = min (min h₀ (fb.height - srcY)) (fb.height - dstY)) (hsome : ¬(w = 0 ∨ h' = 0))
    (hlt : fb.width < 2 ^ 32 ∧ fb.height < 2 ^ 32) :
    Makes fb (fb.copyRegion srcX srcY dstX dstY w₀ h₀) fun a => ∃ row col,
      (0 ≤ row ∧ row < h') ∧ (0 ≤ col ∧ col < w) ∧
      (a = fb.pixel (srcX + col) (srcY + row) ∨ a = fb.pixel (dstX + col) (dstY + row)) := by
  obtain ⟨hsrcX, hdstX⟩ : srcX + w ≤ fb.width ∧ dstX + w ≤ fb.width := by omega
  obtain ⟨hsrcY, hdstY⟩ : srcY + h' ≤ fb.height ∧ dstY + h' ≤ fb.height := by omega
  have hcall (m : Mapping) : fb.copyRegion srcX srcY dstX dstY w₀ h₀ m =
      forRange 0 h' m fun row m => do
        let m ← forRange 0 w m fun col m => do
          let src ← fb.pixelAt (← u32 (srcX + col)) (← u32 (srcY + row))
          let dst ← fb.pixelAt (← u32 (dstX + col)) (← u32 (dstY + row))
          let (pixel, m) ← fb.readVolatile m src
          let m ← fb.writeVolatile m dst pixel
          return .next m
        return .next m := by
    rw [copyRegion, if_neg hout]
    dsimp only
    rw [← hw, ← hh, if_neg hsome]
  clear hw hh
  have hsweep := @sweep fb
    (fun row col m => do
      let src ← fb.pixelAt (← u32 (srcX + col)) (← u32 (srcY + row))
      let dst ← fb.pixelAt (← u32 (dstX + col)) (← u32 (dstY + row))
      let (pixel, m) ← fb.readVolatile m src
      let m ← fb.writeVolatile m dst pixel
      return .next m) _
    (fun row col => [fb.pixel (srcX + col) (srcY + row), fb.pixel (dstX + col) (dstY + row)])
    0 h' 0 w (Nat.zero_le _) (Nat.zero_le _) (fun _ _ _ _ => rfl)
    (fun row col _ hrow _ hcol => visits_copy fun m => by
      rw [@u32_ok (srcX + col) (by omega), except_ok_bind, @u32_ok (srcY + row) (by omega),
        except_ok_bind, h.pixelAt_ok (by omega) (by omega), except_ok_bind,
        @u32_ok (dstX + col) (by omega), except_ok_bind, @u32_ok (dstY + row) (by omega),
        except_ok_bind, h.pixelAt_ok (by omega) (by omega)]
      rfl)
  refine hsweep.congr hcall fun a => ?_
  simp only [List.mem_cons, List.not_mem_nil, or_false]

/-- The loops of `draw_glyph` are stopped at the borders. -/
theorem Valid.drawGlyph_makes (h : fb.Valid) {x y : Nat} (bitmap : List UInt8) (fg bg : UInt32)
    (hout : ¬(x ≥ fb.width ∨ y ≥ fb.height)) (hlt : fb.width < 2 ^ 31 ∧ fb.height < 2 ^ 31) :
    Makes fb (fb.drawGlyph x y bitmap fg bg) fun a => ∃ row bit,
      (0 ≤ row ∧ row < min (min bitmap.length FONT_HEIGHT) (fb.height - y)) ∧
      (0 ≤ bit ∧ bit < min FONT_WIDTH (fb.width - x)) ∧ a = fb.pixel (x + bit) (y + row) := by
  have hwidth : FONT_WIDTH = 8 := rfl
  generalize hlines : min bitmap.length FONT_HEIGHT = lines
  obtain ⟨rows, hrows, hrowsLe, hrowsFit, hrowsCut⟩ :=
    exists_clipped lines (show y < fb.height by omega)
  obtain ⟨cols, hcols, hcolsLe, hcolsFit, hcolsCut⟩ :=
    exists_clipped FONT_WIDTH (show x < fb.width by omega)
  rw [hrows, hcols]
  have hsweep := @sweep fb
    (fun row bit m => do
      let px ← u32 (x + bit)
      if px ≥ fb.width then return .stop m
      let color := if bitSet (bitmap.getD row 0) bit then fg else bg
      let m ← fb.writeVolatile m (← fb.pixelAt px (y + row)) color
      return .next m)
    (fun row m => do
      let py ← u32 (y + row)
      if py ≥ fb.height then return .stop m
      let byte := bitmap.getD row 0
      let m ← forRange 0 FONT_WIDTH m fun bit m => do
        let px ← u32 (x + bit)
        if px ≥ fb.width then return .stop m
        let color := if bitSet byte bit then fg else bg
        let m ← fb.writeVolatile m (← fb.pixelAt px py) color
        return .next m
      return .next m)
    (fun row bit => [fb.pixel (x + bit) (y + row)]) 0 rows 0 cols (Nat.zero_le _) (Nat.zero_le _)
    (fun row m _ hrow => by
      rw [u32_ok (by omega), except_ok_bind, if_neg (by omega)]
      dsimp only
      rw [forRange_cut hcolsLe _ _ (Nat.zero_le _)]
      · rfl
      · intro hcut m
        rw [u32_ok (by omega), except_ok_bind, if_pos (hcolsCut hcut)]
        rfl)
    (fun row bit _ hrow _ hbit => visits_write fun m => by
      rw [u32_ok (by omega), except_ok_bind, if_neg (by omega),
        h.pixelAt_ok (by omega) (by omega)]
      rfl)
  refine hsweep.congr (fun m => ?_) fun a => ?_
  · rw [drawGlyph, if_neg hout, hlines]
    refine forRange_cut hrowsLe (fun hcut m => ?_) m (Nat.zero_le _)
    rw [u32_ok (by omega), except_ok_bind, if_pos (hrowsCut hcut)]
    rfl
  · simp only [List.mem_singleton]

/-! ## Which calls are right -/

/-- A framebuffer with a pixel has few rows and columns. -/
theorem Valid.dims_lt (h : fb.Valid) {x y : Nat} (hx : x < fb.width) (hy : y < fb.height) :
    fb.width < 2 ^ 30 ∧ fb.height < 2 ^ 30 := by
  have hwidth := h.width_le
  have htotal := h.total_le
  have hsize := h.size_lt
  have hcol : fb.pitch ≤ fb.height * fb.pitch := Nat.le_mul_of_pos_left _ (by omega)
  have hrow : fb.height * 4 ≤ fb.height * fb.pitch := Nat.mul_le_mul_left _ (by omega)
  omega

/-- The call succeeds, and each of its accesses is to the bytes of its pixel. -/
def Safe (fb : Bcm2708Fb) (c : Call) : Prop :=
  ∀ bytes, ∃ m, fb.call c ⟨bytes, []⟩ = .ok m ∧ ∀ a ∈ m.accesses, fb.Addressed a

theorem Makes.safe_iff {c : Call} {P : Access → Prop} (h : Makes fb (fb.call c) P) :
    fb.Safe c ↔ ∀ a, P a → fb.Aligned a ∧ fb.Addressed a := by
  constructor
  · intro hsafe a ha
    obtain ⟨m, hm, haddressed⟩ := hsafe fun _ => 0
    have haligned (b : Access) (hb : P b) : fb.Aligned b := by
      by_contra hmis
      obtain ⟨e, he⟩ := h.fault b hb hmis ⟨fun _ => 0, []⟩
      cases hm.symm.trans he
    obtain ⟨m', hm', hmem⟩ := h.ok haligned ⟨fun _ => 0, []⟩
    cases hm.symm.trans hm'
    exact ⟨haligned a ha, haddressed a ((hmem a).mpr (.inr ha))⟩
  · intro hright bytes
    obtain ⟨m, hm, hmem⟩ := h.ok (fun a ha => (hright a ha).1) ⟨bytes, []⟩
    refine ⟨m, hm, fun a ha => (hright a (((hmem a).mp ha).resolve_left ?_)).2⟩
    exact List.not_mem_nil

/-- A drawing operation reaches the first row alone, or a row is a whole number of pixels. -/
def RowsFit (fb : Bcm2708Fb) (yEnd : Nat) : Prop := 4 ∣ fb.pitch ∨ min yEnd fb.height ≤ 1

/-- The sums of a rectangle fit into 32 bits, and the pixels that are accessed are aligned and in
their places. -/
def Fits (fb : Bcm2708Fb) : Call → Prop
  | .fill _ => 0 < fb.width → 0 < fb.height → 4 ∣ fb.busAddr ∧ fb.RowsFit fb.height
  | .writePixel x y _ => x.toNat < fb.width → y.toNat < fb.height →
      4 ∣ fb.busAddr + y.toNat * fb.pitch
  | .fillRect x y w h _ =>
      ¬(x.toNat ≥ fb.width ∨ y.toNat ≥ fb.height ∨ w.toNat = 0 ∨ h.toNat = 0) →
        x.toNat + w.toNat < 2 ^ 32 ∧ y.toNat + h.toNat < 2 ^ 32 ∧ 4 ∣ fb.busAddr ∧
          fb.RowsFit (y.toNat + h.toNat)
  | .copyRegion srcX srcY dstX dstY w h =>
      ¬(srcX.toNat ≥ fb.width ∨ srcY.toNat ≥ fb.height ∨ dstX.toNat ≥ fb.width ∨
        dstY.toNat ≥ fb.height ∨ w.toNat = 0 ∨ h.toNat = 0) →
        4 ∣ fb.busAddr ∧
          (4 ∣ fb.pitch ∨ srcY.toNat = 0 ∧ dstY.toNat = 0 ∧ min h.toNat fb.height ≤ 1)
  | .drawGlyph x y bitmap _ _ =>
      ¬(x.toNat ≥ fb.width ∨ y.toNat ≥ fb.height ∨ bitmap = []) →
        4 ∣ fb.busAddr ∧ fb.RowsFit (y.toNat + min bitmap.length FONT_HEIGHT)

/-- Accesses to the rows before `yEnd`, of which one is to the last of them. -/
theorem Valid.rows_right_iff (h : fb.Valid) {x yEnd : Nat} {P : Access → Prop} (hpos : 0 < yEnd)
    (hend : yEnd ≤ fb.height) (hx : x < fb.width) (hlast : P (fb.pixel x (yEnd - 1)))
    (hrows : ∀ a, P a → ∃ col row, col < fb.width ∧ row < yEnd ∧ a = fb.pixel col row) :
    (∀ a, P a → fb.Aligned a ∧ fb.Addressed a) ↔
      4 ∣ fb.busAddr ∧ (4 ∣ fb.pitch ∨ yEnd ≤ 1) := by
  constructor
  · intro hright
    have hpixel := (h.pixel_right_iff hx (by omega)).mp (hright _ hlast)
    exact hpixel.imp_right (Or.imp_right fun _ => by omega)
  · rintro hfits a ha
    obtain ⟨col, row, hcol, hrow, rfl⟩ := hrows a ha
    exact (h.pixel_right_iff hcol (by omega)).mpr
      (hfits.imp_right (Or.imp_right fun _ => by omega))

theorem Valid.fill_safe_iff (h : fb.Valid) (color : UInt32) :
    fb.Safe (.fill color) ↔ fb.Fits (.fill color) := by
  have hmakes : Makes fb (fb.call (.fill color)) _ := h.fill_makes color
  rw [Fits, RowsFit, Nat.min_self, hmakes.safe_iff]
  constructor
  · intro hright hwidth hheight
    have haligned (y : Nat) (hy : y < fb.height) : 4 ∣ fb.busAddr + y * fb.pitch :=
      (h.inRow_aligned_iff 0 y).mp (hright _ ⟨y, 0, hy, hwidth, rfl⟩).1
    have hfirst := haligned 0 hheight
    rw [Nat.zero_mul, Nat.add_zero] at hfirst
    refine ⟨hfirst, ?_⟩
    by_cases hone : fb.height ≤ 1
    · exact .inr hone
    · have hsecond := haligned 1 (by omega)
      rw [Nat.one_mul] at hsecond
      exact .inl ((Nat.dvd_add_right hfirst).mp hsecond)
  · rintro hfits a ⟨y, x, hy, hx, rfl⟩
    refine ⟨(h.inRow_aligned_iff x y).mpr ?_, h.inRow_addressed hx hy⟩
    obtain ⟨hfirst, hpitch | hone⟩ := hfits (by omega) (by omega)
    · exact Nat.dvd_add hfirst (Nat.dvd_mul_left_of_dvd hpitch y)
    · obtain rfl : y = 0 := by omega
      rw [Nat.zero_mul]
      exact hfirst

theorem Valid.writePixel_safe_iff (h : fb.Valid) (x y color : UInt32) :
    fb.Safe (.writePixel x y color) ↔ fb.Fits (.writePixel x y color) := by
  have hmakes : Makes fb (fb.call (.writePixel x y color)) _ :=
    h.writePixel_makes x.toNat y.toNat color
  rw [Fits, hmakes.safe_iff]
  constructor
  · intro hright hx hy
    exact (h.inRow_aligned_iff _ _).mp (hright _ ⟨⟨hx, hy⟩, rfl⟩).1
  · rintro hfits a ⟨⟨hx, hy⟩, rfl⟩
    exact ⟨(h.inRow_aligned_iff _ _).mpr (hfits hx hy), h.inRow_addressed hx hy⟩

theorem Valid.fillRect_safe_iff (h : fb.Valid) (x y w h' color : UInt32) :
    fb.Safe (.fillRect x y w h' color) ↔ fb.Fits (.fillRect x y w h' color) := by
  by_cases hout : x.toNat ≥ fb.width ∨ y.toNat ≥ fb.height ∨ w.toNat = 0 ∨ h'.toNat = 0
  · refine iff_of_true (fun bytes => ⟨_, if_pos hout, ?_⟩) fun hin => absurd hout hin
    exact fun a ha => absurd ha List.not_mem_nil
  · rw [Fits, imp_iff_right hout]
    by_cases hx : x.toNat + w.toNat < 2 ^ 32
    · by_cases hy : y.toNat + h'.toNat < 2 ^ 32
      · have hmakes : Makes fb (fb.call (.fillRect x y w h' color)) _ :=
          h.fillRect_makes color hout hx hy
        rw [and_iff_right hx, and_iff_right hy, RowsFit, hmakes.safe_iff]
        refine @Valid.rows_right_iff fb h x.toNat _ _ (by omega) (Nat.min_le_right _ _)
          (by omega) ⟨_, x.toNat, by omega, by omega, rfl⟩ ?_
        rintro a ⟨row, col, hrow, hcol, rfl⟩
        exact ⟨col, row, by omega, by omega, rfl⟩
      · refine iff_of_false (fun hsafe => ?_) fun hfits => hy hfits.2.1
        obtain ⟨m, hm, -⟩ := hsafe fun _ => 0
        rw [call, fillRect, if_neg hout, u32_ok hx, except_ok_bind, u32, if_neg hy] at hm
        cases hm
    · refine iff_of_false (fun hsafe => ?_) fun hfits => hx hfits.1
      obtain ⟨m, hm, -⟩ := hsafe fun _ => 0
      rw [call, fillRect, if_neg hout, u32, if_neg hx] at hm
      cases hm

theorem Valid.copyRegion_safe_iff (h : fb.Valid) (srcX srcY dstX dstY w h' : UInt32) :
    fb.Safe (.copyRegion srcX srcY dstX dstY w h') ↔
      fb.Fits (.copyRegion srcX srcY dstX dstY w h') := by
  by_cases hout : srcX.toNat ≥ fb.width ∨ srcY.toNat ≥ fb.height ∨ dstX.toNat ≥ fb.width ∨
      dstY.toNat ≥ fb.height
  · refine iff_of_true (fun bytes => ⟨_, if_pos hout, ?_⟩) fun hin => absurd hout (by omega)
    exact fun a ha => absurd ha List.not_mem_nil
  · rw [Fits]
    generalize hcols : min (min w.toNat (fb.width - srcX.toNat)) (fb.width - dstX.toNat) = cols
    generalize hrows : min (min h'.toNat (fb.height - srcY.toNat)) (fb.height - dstY.toNat) = rows
    by_cases hsome : cols = 0 ∨ rows = 0
    · refine iff_of_true (fun bytes => ⟨⟨bytes, []⟩, ?_, ?_⟩) fun hin => absurd hsome (by omega)
      · rw [call, copyRegion, if_neg hout]
        dsimp only
        rw [hcols, hrows, if_pos hsome]
      · exact fun a ha => absurd ha List.not_mem_nil
    · have hdims := @Valid.dims_lt fb h srcX.toNat srcY.toNat (by omega) (by omega)
      have hmakes : Makes fb (fb.call (.copyRegion srcX srcY dstX dstY w h')) _ :=
        h.copyRegion_makes hout hcols.symm hrows.symm hsome (by omega)
      rw [imp_iff_right (by omega), hmakes.safe_iff]
      constructor
      · intro hright
        have hsrc := hright (fb.pixel (srcX.toNat + 0) (srcY.toNat + (rows - 1)))
          ⟨rows - 1, 0, by omega, by omega, .inl rfl⟩
        have hdst := hright (fb.pixel (dstX.toNat + 0) (dstY.toNat + (rows - 1)))
          ⟨rows - 1, 0, by omega, by omega, .inr rfl⟩
        obtain ⟨hbus, hsrc'⟩ := (h.pixel_right_iff (by omega) (by omega)).mp hsrc
        obtain ⟨-, hdst'⟩ := (h.pixel_right_iff (by omega) (by omega)).mp hdst
        refine ⟨hbus, ?_⟩
        by_cases hpitch : 4 ∣ fb.pitch
        · exact .inl hpitch
        · have hsrcZero := hsrc'.resolve_left hpitch
          have hdstZero := hdst'.resolve_left hpitch
          exact .inr (by omega)
      · rintro hfits a ⟨row, col, hrow, hcol, rfl | rfl⟩
        · exact (h.pixel_right_iff (by omega) (by omega)).mpr
            (hfits.imp_right (Or.imp_right fun _ => by omega))
        · exact (h.pixel_right_iff (by omega) (by omega)).mpr
            (hfits.imp_right (Or.imp_right fun _ => by omega))

theorem Valid.drawGlyph_safe_iff (h : fb.Valid) (x y : UInt32) (bitmap : List UInt8)
    (fg bg : UInt32) :
    fb.Safe (.drawGlyph x y bitmap fg bg) ↔ fb.Fits (.drawGlyph x y bitmap fg bg) := by
  have hheight : FONT_HEIGHT = 16 := rfl
  have hwidth : FONT_WIDTH = 8 := rfl
  by_cases hout : x.toNat ≥ fb.width ∨ y.toNat ≥ fb.height
  · refine iff_of_true (fun bytes => ⟨_, if_pos hout, ?_⟩) fun hin => absurd hout ?_
    · exact fun a ha => absurd ha List.not_mem_nil
    · exact fun hor => hin (hor.imp_right .inl)
  · have hdims := @Valid.dims_lt fb h x.toNat y.toNat (by omega) (by omega)
    have hempty : bitmap = [] ↔ bitmap.length = 0 := List.length_eq_zero_iff.symm
    have hmakes : Makes fb (fb.call (.drawGlyph x y bitmap fg bg)) _ :=
      h.drawGlyph_makes bitmap fg bg hout (by omega)
    rw [Fits, RowsFit, hempty, hmakes.safe_iff]
    generalize bitmap.length = len
    by_cases hnone : len = 0
    · refine iff_of_true ?_ fun hin => absurd (.inr (.inr hnone)) hin
      rintro a ⟨row, bit, hrow, -, -⟩
      omega
    · rw [imp_iff_right (by omega)]
      obtain ⟨rows, hrows, hend⟩ : ∃ rows, min (min len FONT_HEIGHT) (fb.height - y.toNat) = rows ∧
          min (y.toNat + min len FONT_HEIGHT) fb.height = y.toNat + rows := ⟨_, rfl, by omega⟩
      rw [hrows, hend]
      refine @Valid.rows_right_iff fb h x.toNat _ _ (by omega) (by omega) (by omega)
        ⟨rows - 1, 0, by omega, by omega, ?_⟩ ?_
      · rw [Nat.add_zero, Nat.add_sub_assoc (by omega)]
      · rintro a ⟨row, bit, hrow, hbit, rfl⟩
        exact ⟨x.toNat + bit, y.toNat + row, by omega, by omega, rfl⟩

/-- On a framebuffer that the driver accepts, the calls that are safe are those that fit. -/
theorem safe_iff_fits {info : FramebufferInfo} {fb : Bcm2708Fb}
    (h : tryInit info = .ok (some fb)) (c : Call) : fb.Safe c ↔ fb.Fits c := by
  have hvalid := tryInit_valid h
  cases c with
  | fill color => exact hvalid.fill_safe_iff color
  | writePixel x y color => exact hvalid.writePixel_safe_iff x y color
  | fillRect x y w h color => exact hvalid.fillRect_safe_iff x y w h color
  | copyRegion srcX srcY dstX dstY w h => exact hvalid.copyRegion_safe_iff srcX srcY dstX dstY w h
  | drawGlyph x y bitmap fg bg => exact hvalid.drawGlyph_safe_iff x y bitmap fg bg

/-- The display has 1920 columns and 1080 rows without gaps. -/
def fullHd : FramebufferInfo := ⟨0x3e000000, 8294400, 7680, 1920, 1080, 32⟩

/-- The two columns of a row are followed by a gap of two bytes. -/
def gaps : FramebufferInfo := ⟨0x3e000000, 20, 10, 2, 2, 32⟩

theorem tryInit_fullHd : tryInit fullHd =
    .ok (some ⟨0xffff_d000_3e00_0000, 0x3e000000, 8294400, 1920, 1080, 7680, 32⟩) := rfl

theorem tryInit_gaps : tryInit gaps =
    .ok (some ⟨0xffff_d000_3e00_0000, 0x3e000000, 20, 2, 2, 10, 32⟩) := rfl

theorem safe_fullHd : ∃ fb, tryInit fullHd = .ok (some fb) ∧
    fb.Safe (.fillRect 1900 1000 200 200 0xFF000000) := by
  refine ⟨_, tryInit_fullHd, (safe_iff_fits tryInit_fullHd _).mpr fun _ => ?_⟩
  exact ⟨by decide, by decide, by decide, .inl (by decide)⟩

/-- A rectangle that is too wide overflows, the second row of pixels is two bytes early, and the
device faults at its first pixel. -/
theorem not_safe_wide :
    (∃ fb, tryInit fullHd = .ok (some fb) ∧ ¬fb.Safe (.fillRect 1 0 0xFFFFFFFF 1 0)) ∧
      ∃ fb, tryInit gaps = .ok (some fb) ∧ ¬fb.Safe (.fillRect 0 1 1 1 0) ∧
        ¬fb.Safe (.writePixel 0 1 0) := by
  refine ⟨⟨_, tryInit_fullHd, fun hsafe => ?_⟩, _, tryInit_gaps, fun hsafe => ?_, fun hsafe => ?_⟩
  · have hfits := ((tryInit_valid tryInit_fullHd).fillRect_safe_iff _ _ _ _ _).mp hsafe (by decide)
    exact absurd hfits.1 (by decide)
  · have hfits := ((tryInit_valid tryInit_gaps).fillRect_safe_iff _ _ _ _ _).mp hsafe (by decide)
    rcases hfits.2.2.2 with hpitch | hrows
    · revert hpitch
      decide
    · revert hrows
      decide
  · have hfits := ((tryInit_valid tryInit_gaps).writePixel_safe_iff _ _ _).mp hsafe (by decide)
      (by decide)
    revert hfits
    decide

end Kruspix.Drivers.Display.Bcm2708Fb
