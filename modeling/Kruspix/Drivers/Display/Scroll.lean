import Kruspix.Drivers.Display.FbConsole

/-!
# Scrolling

A transfer copies its rows from the first to the last. When it is given up after some of
them, the processor copies all rows once more, from pixels that have moved already.
-/

namespace Kruspix.Drivers.Display

open Dma Lib.Loop Lib.Result Kernel.Devicetree FrameBuffer

/-- The words of a row, one after the other. -/
def copyWords (px : Pixels) (src dst : Nat) : Nat → Pixels
  | 0 => px
  | n + 1 =>
      let px := copyWords px src dst n
      px.write (dst + n) (px (src + n))

/-- The rows of a transfer between places of a buffer at this address. -/
def copyRows (t : Dma2DTransfer) (busAddr : Nat) (px : Pixels) : Nat → Pixels
  | 0 => px
  | n + 1 =>
      copyWords (copyRows t busAddr px n)
        ((t.srcBusAddr + n * (t.rowLenBytes + t.srcStride) - busAddr) / 4)
        ((t.dstBusAddr + n * (t.rowLenBytes + t.dstStride) - busAddr) / 4) (t.rowLenBytes / 4)

variable {fb : FrameBuffer} {px px' px'' : Pixels}

/-- The first `n` scanlines have the pixels of those one text row below them. -/
def Moved (fb : FrameBuffer) (n : Nat) (px px' : Pixels) : Prop :=
  ∀ c r, c < fb.pitchPixels → fb.pixel px' c r =
    if c < fb.width ∧ r < n then fb.pixel px c (r + FONT_HEIGHT) else fb.pixel px c r

/-- Every text row moved up by one, and the last one is cleared. -/
def Scrolled (fb : FrameBuffer) (rows : Nat) (bg : UInt32) (px px' : Pixels) : Prop :=
  ∀ c r, c < fb.pitchPixels → fb.pixel px' c r =
    if c < fb.width ∧ r < (rows - 1) * FONT_HEIGHT then fb.pixel px c (r + FONT_HEIGHT)
    else if c < fb.width ∧ r < rows * FONT_HEIGHT then bg
    else fb.pixel px c r

/-- The words at the start of a scanline are copied to another one. -/
theorem pixel_copyWords {w : Nat} (hw : w ≤ fb.pitchPixels) (srcRow row : Nat) {c : Nat} (r : Nat)
    (hc : c < fb.pitchPixels) :
    fb.pixel (copyWords px (srcRow * fb.pitchPixels) (row * fb.pitchPixels) w) c r =
      if c < w ∧ r = row then fb.pixel px c srcRow else fb.pixel px c r := by
  induction w generalizing c r with
  | zero =>
      rw [if_neg (by omega)]
      rfl
  | succ w ih =>
      have hread := ih (by omega) srcRow (show w < fb.pitchPixels by omega)
      rw [if_neg (by omega), pixel] at hread
      rw [copyWords, hread, pixel_write (by omega) hc, ih (by omega) r hc]
      by_cases hhere : c = w ∧ r = row
      · rw [if_pos hhere, if_pos (by omega), hhere.1]
      · rw [if_neg hhere]
        exact if_congr (by omega) rfl rfl

/-- The transfer of the scanlines below the first text row. -/
def scrollRows (fb : FrameBuffer) (rowCount : Nat) : Dma2DTransfer where
  srcBusAddr := fb.busAddr + FONT_HEIGHT * fb.pitch
  dstBusAddr := fb.busAddr
  rowLenBytes := fb.width * 4
  rowCount := rowCount
  srcStride := fb.pitch - fb.width * 4
  dstStride := fb.pitch - fb.width * 4

theorem copyRows_moved (rowCount n : Nat) :
    Moved fb n px (copyRows (scrollRows fb rowCount) fb.busAddr px n) := by
  have hwidth := fb.width_le
  have hle := @width_le_pitchPixels fb
  have hh : FONT_HEIGHT = 16 := rfl
  induction n with
  | zero =>
      intro c r _
      rw [if_neg (by omega)]
      rfl
  | succ n ih =>
      intro c r hc
      have hlen : fb.width * 4 + (fb.pitch - fb.width * 4) = fb.pitch := by omega
      have hsrc : ((scrollRows fb rowCount).srcBusAddr + n * ((scrollRows fb rowCount).rowLenBytes +
          (scrollRows fb rowCount).srcStride) - fb.busAddr) / 4 =
            (n + FONT_HEIGHT) * fb.pitchPixels := by
        rw [scrollRows]
        dsimp only
        rw [hlen, pitch_eq, Nat.add_assoc, Nat.add_sub_cancel_left, ← Nat.add_mul,
          Nat.mul_left_comm, Nat.mul_div_cancel_left _ (by decide), Nat.add_comm n]
      have hdst : ((scrollRows fb rowCount).dstBusAddr + n * ((scrollRows fb rowCount).rowLenBytes +
          (scrollRows fb rowCount).dstStride) - fb.busAddr) / 4 = n * fb.pitchPixels := by
        rw [scrollRows]
        dsimp only
        rw [hlen, pitch_eq, Nat.add_sub_cancel_left, Nat.mul_left_comm,
          Nat.mul_div_cancel_left _ (by decide)]
      have hwords : (scrollRows fb rowCount).rowLenBytes / 4 = fb.width :=
        Nat.mul_div_cancel _ (by decide)
      rw [copyRows, hsrc, hdst, hwords, pixel_copyWords hle _ _ r hc]
      by_cases hrow : c < fb.width ∧ r = n
      · rw [if_pos hrow, if_pos (by omega), ih c _ hc, if_neg (by omega), hrow.2]
      · rw [if_neg hrow, ih c r hc]
        exact if_congr (by omega) rfl rfl

/-- The processor moves the scanlines as the whole transfer does. -/
theorem copyRegion_moved {n : Nat} (hn : n + FONT_HEIGHT ≤ fb.height) :
    ∃ px', fb.copyRegion 0 FONT_HEIGHT 0 0 fb.width n px = .ok px' ∧ Moved fb n px px' := by
  have hh : FONT_HEIGHT = 16 := rfl
  obtain ⟨px', hrun, hpixel⟩ := @copyRegion_spec fb px fb.width n 0 FONT_HEIGHT 0 0
    (.inl (by decide))
  refine ⟨px', hrun, fun c r hc => ?_⟩
  rw [hpixel c r hc]
  exact if_congr (by omega) rfl rfl

/-- Scanlines that were moved in part and then all are right where two text rows agree. -/
theorem Moved.again {n k : Nat} (h : Moved fb k px px') (h' : Moved fb n px' px'')
    (hk : k ≤ n) :
    Moved fb n px px'' ↔ ∀ c r, c < fb.width → r + FONT_HEIGHT < k →
      fb.pixel px c (r + FONT_HEIGHT + FONT_HEIGHT) = fb.pixel px c (r + FONT_HEIGHT) := by
  have hle := @width_le_pitchPixels fb
  constructor
  · intro hmoved c r hc hr
    have hright := hmoved c r (by omega)
    rw [h' c r (by omega), if_pos (by omega), if_pos (by omega), h c _ (by omega),
      if_pos ⟨hc, hr⟩] at hright
    exact hright
  · intro hsame c r hc
    rw [h' c r hc, h c _ hc]
    by_cases hin : c < fb.width ∧ r < n
    · rw [if_pos hin, if_pos hin]
      split
      · rename_i hcopied
        exact hsame c r hcopied.1 hcopied.2
      · rfl
    · rw [if_neg hin, if_neg hin, h c r hc, if_neg (by omega)]

/-- The last text row is cleared behind the move. -/
theorem fillRect_scrolled {rows : Nat} (bg : UInt32) (hrows : 0 < rows)
    (hheight : rows * FONT_HEIGHT ≤ fb.height)
    (hrest : ∀ c r, c < fb.pitchPixels → ¬(c < fb.width ∧ r < (rows - 1) * FONT_HEIGHT) →
      fb.pixel px' c r = fb.pixel px c r) :
    ∃ px'', fb.fillRect 0 ((rows - 1) * FONT_HEIGHT) fb.width FONT_HEIGHT bg px' = .ok px'' ∧
      (Scrolled fb rows bg px px'' ↔ Moved fb ((rows - 1) * FONT_HEIGHT) px px') := by
  have hlast : (rows - 1) * FONT_HEIGHT + FONT_HEIGHT = rows * FONT_HEIGHT := by
    rw [← Nat.succ_mul, Nat.succ_eq_add_one, Nat.sub_add_cancel hrows]
  have hle := @width_le_pitchPixels fb
  obtain ⟨px'', hrun, hpixel⟩ := @fillRect_spec fb px' bg 0 ((rows - 1) * FONT_HEIGHT) fb.width
    FONT_HEIGHT fun hx hy => by
      have hlt := size_lt hx hy
      omega
  refine ⟨px'', hrun, ?_⟩
  have hcell : ∀ c r, c < fb.pitchPixels → fb.pixel px'' c r =
      if c < fb.width ∧ (rows - 1) * FONT_HEIGHT ≤ r ∧ r < rows * FONT_HEIGHT then bg
      else fb.pixel px' c r := fun c r hc => by
    rw [hpixel c r hc]
    exact if_congr (by omega) rfl rfl
  constructor
  · intro hscrolled c r hc
    by_cases hin : c < fb.width ∧ r < (rows - 1) * FONT_HEIGHT
    · have hnew := hscrolled c r hc
      rw [hcell c r hc, if_neg (by omega), if_pos hin] at hnew
      rw [if_pos hin, hnew]
    · rw [if_neg hin, hrest c r hc hin]
  · intro hmoved c r hc
    rw [hcell c r hc]
    by_cases hin : c < fb.width ∧ r < (rows - 1) * FONT_HEIGHT
    · rw [if_neg (by omega), if_pos hin, hmoved c r hc, if_pos hin]
    · rw [if_neg hin, hrest c r hc hin]
      exact if_congr (by omega) rfl rfl

/-! ## Transfers that fail -/

/-- What `copy_2d` does. When it gives up, it has copied some of the first rows. -/
inductive Outcome
  | ok
  | busy
  | unavailable
  | invalidTransfer
  | timeout (copied : Nat)
  | fault (copied : Nat)
  deriving DecidableEq, Repr

/-- The rows that were copied before a failure. -/
def Outcome.copied : Outcome → Nat
  | .timeout copied => copied
  | .fault copied => copied
  | _ => 0

/-- An engine that ends in this way. -/
def Outcome.engine (fb : FrameBuffer) (outcome : Outcome) : Engine := fun t px =>
  match outcome with
  | .ok => (.ok (), copyRows t fb.busAddr px t.rowCount)
  | .busy => (.error .busy, px)
  | .unavailable => (.error .unavailable, px)
  | .invalidTransfer => (.error .invalidTransfer, px)
  | .timeout copied => (.error .timeout, copyRows t fb.busAddr px copied)
  | .fault copied => (.error .fault, copyRows t fb.busAddr px copied)

theorem Outcome.engine_moved (o : Outcome) (rowCount : Nat) :
    ((o.engine fb (scrollRows fb rowCount) px).1 = .ok () ↔ o = .ok) ∧
      Moved fb (if o = .ok then rowCount else o.copied) px
        (o.engine fb (scrollRows fb rowCount) px).2 := by
  cases o with
  | ok => exact ⟨by simp [engine], copyRows_moved rowCount rowCount⟩
  | busy => exact ⟨by simp [engine], copyRows_moved rowCount 0⟩
  | unavailable => exact ⟨by simp [engine], copyRows_moved rowCount 0⟩
  | invalidTransfer => exact ⟨by simp [engine], copyRows_moved rowCount 0⟩
  | timeout copied => exact ⟨by simp [engine], copyRows_moved rowCount copied⟩
  | fault copied => exact ⟨by simp [engine], copyRows_moved rowCount copied⟩

/-- A console of this framebuffer, with at least one text row and column. -/
structure FbConsole.Of (con : FbConsole) (fb : FrameBuffer) : Prop where
  fbWidth : con.state.fbWidth = fb.width
  cols : con.state.cols = fb.width / FONT_WIDTH
  rows : con.state.rows = fb.height / FONT_HEIGHT
  cols_pos : 0 < con.state.cols
  rows_pos : 0 < con.state.rows

variable {con : FbConsole}

namespace FbConsole.Of

theorem width (h : con.Of fb) : con.state.cols * FONT_WIDTH ≤ fb.width := by
  rw [h.cols]
  exact Nat.div_mul_le_self _ _

theorem height (h : con.Of fb) : con.state.rows * FONT_HEIGHT ≤ fb.height := by
  rw [h.rows]
  exact Nat.div_mul_le_self _ _

end FbConsole.Of

/-- Two scanlines that are one text row apart agree where the transfer copied the upper one
over before it was given up. -/
def Repeats (fb : FrameBuffer) (px : Pixels) (copied : Nat) : Prop :=
  ∀ c r, c < fb.width → r + FONT_HEIGHT < copied →
    fb.pixel px c (r + FONT_HEIGHT + FONT_HEIGHT) = fb.pixel px c (r + FONT_HEIGHT)

/-- All text rows but the last one, in scanlines. -/
def rowCount (con : FbConsole) : Nat := (con.state.rows - 1) * FONT_HEIGHT

namespace FbConsole.Of

theorem rowCount_add (h : con.Of fb) : rowCount con + FONT_HEIGHT ≤ fb.height := by
  have hrows : con.state.rows = con.state.rows - 1 + 1 := (Nat.sub_add_cancel h.rows_pos).symm
  have hheight := h.height
  rw [hrows, Nat.succ_mul] at hheight
  exact hheight

/-- All that `scroll` computes fits into 32 bits. -/
theorem lt (h : con.Of fb) : fb.width * 4 < 2 ^ 32 ∧ rowCount con < 2 ^ 32 ∧
    FONT_HEIGHT * fb.pitch < 2 ^ 32 ∧ fb.busAddr + FONT_HEIGHT * fb.pitch < 2 ^ 32 := by
  have hcols := h.width
  have hpos := Nat.mul_pos h.cols_pos (show 0 < FONT_WIDTH by decide)
  have hrows := h.rowCount_add
  have hlines : FONT_HEIGHT * fb.pitch ≤ fb.height * fb.pitch :=
    Nat.mul_le_mul_right _ (by omega)
  have hbus := fb.bus_lt
  have hwidth := fb.width_le
  have hlt := @size_lt fb 0 0 (by omega) (by simp only [FONT_HEIGHT] at hrows; omega)
  have hpitch : fb.pitch ≤ FONT_HEIGHT * fb.pitch := Nat.le_mul_of_pos_left _ (by decide)
  omega

theorem scrollTransfer (h : con.Of fb) :
    FbConsole.scrollTransfer fb (fb.width * 4) (rowCount con) =
      .ok (scrollRows fb (rowCount con)) := by
  have hwidth := fb.width_le
  rw [FbConsole.scrollTransfer, u32_ok h.lt.2.2.1, except_ok_bind, u32_ok h.lt.2.2.2,
    except_ok_bind, sub_ok (by omega)]
  rfl

/-- The engine is asked unless it failed before, and its failure is noted. -/
theorem scrollDma (h : con.Of fb) (engine : Option Engine) :
    ∃ usedDma px dmaFailed, FbConsole.scrollDma fb engine (fb.width * 4) (rowCount con) con =
      .ok (usedDma, { con with px := px, state := { con.state with dmaFailed := dmaFailed } }) ∧
      ((usedDma = false ∧ px = con.px ∧ (con.state.dmaFailed = false → engine = none)) ∨
        ∃ copy2d result, con.state.dmaFailed = false ∧ engine = some copy2d ∧
          copy2d (scrollRows fb (rowCount con)) con.px = (result, px) ∧
          (usedDma = true ↔ result = .ok ())) := by
  unfold FbConsole.scrollDma
  split
  · rename_i hfailed
    exact ⟨false, con.px, con.state.dmaFailed, rfl, .inl ⟨rfl, rfl, fun hnot => by simp_all⟩⟩
  · rename_i hfailed
    have hnot : con.state.dmaFailed = false := Bool.not_eq_true _ ▸ hfailed
    cases engine with
    | none => exact ⟨false, con.px, con.state.dmaFailed, rfl, .inl ⟨rfl, rfl, fun _ => rfl⟩⟩
    | some copy2d =>
        dsimp only
        rw [h.scrollTransfer, except_ok_bind]
        rcases hcopy : copy2d (scrollRows fb (rowCount con)) con.px with ⟨result, px⟩
        dsimp only
        rcases result with error | u
        · cases error with
          | busy => exact ⟨_, px, con.state.dmaFailed, rfl, .inr ⟨copy2d, _, hnot, rfl, hcopy, by simp⟩⟩
          | unavailable =>
              exact ⟨_, px, con.state.dmaFailed, rfl, .inr ⟨copy2d, _, hnot, rfl, hcopy, by simp⟩⟩
          | invalidTransfer => exact ⟨_, px, true, rfl, .inr ⟨copy2d, _, hnot, rfl, hcopy, by simp⟩⟩
          | timeout => exact ⟨_, px, true, rfl, .inr ⟨copy2d, _, hnot, rfl, hcopy, by simp⟩⟩
          | fault => exact ⟨_, px, true, rfl, .inr ⟨copy2d, _, hnot, rfl, hcopy, by simp⟩⟩
        · exact ⟨_, px, con.state.dmaFailed, rfl, .inr ⟨copy2d, _, hnot, rfl, hcopy, by simp⟩⟩

end FbConsole.Of

/-- A scroll behind a transfer that moved `k` scanlines, all of them if it was used. -/
theorem scroll_of_dma {engine : Option Engine} {usedDma dmaFailed : Bool} {k : Nat}
    (h : con.Of fb)
    (hdma : FbConsole.scrollDma fb engine (fb.width * 4) (rowCount con) con =
      .ok (usedDma, { con with px := px, state := { con.state with dmaFailed := dmaFailed } }))
    (hmoved : Moved fb k con.px px) (hk : k ≤ rowCount con)
    (hused : usedDma = true → k = rowCount con) :
    ∃ px', FbConsole.scroll fb engine con = .ok ⟨{ con.state with
        row := con.state.rows - 1, dmaFailed := dmaFailed }, px', con.scrolls + 1⟩ ∧
      (Scrolled fb con.state.rows con.state.bg con.px px' ↔
        usedDma = true ∨ Repeats fb con.px k) := by
  have hlt := h.lt
  have hrows := h.rows_pos
  rw [FbConsole.scroll, h.fbWidth, u32_ok hlt.1, except_ok_bind, sub_ok hrows, except_ok_bind]
  change ∃ px', (u32 (rowCount con) >>= _) = _ ∧ _
  rw [u32_ok hlt.2.1, except_ok_bind, hdma, except_ok_bind]
  dsimp only
  rw [h.fbWidth]
  obtain ⟨px₁, hcopy, hagain, hrest⟩ : ∃ px₁,
      (if usedDma then .ok px else fb.copyRegion 0 FONT_HEIGHT 0 0 fb.width (rowCount con) px) =
        .ok px₁ ∧
      (Moved fb (rowCount con) con.px px₁ ↔ usedDma = true ∨ Repeats fb con.px k) ∧
      ∀ c r, c < fb.pitchPixels → ¬(c < fb.width ∧ r < rowCount con) →
        fb.pixel px₁ c r = fb.pixel con.px c r := by
    cases husedDma : usedDma with
    | true =>
        rw [hused husedDma] at hmoved
        refine ⟨px, rfl, by simp [hmoved], fun c r hc hin => ?_⟩
        rw [hmoved c r hc, if_neg hin]
    | false =>
        obtain ⟨px₁, hrun, hmoved₁⟩ := @copyRegion_moved fb px _ h.rowCount_add
        refine ⟨px₁, hrun, ?_, fun c r hc hin => ?_⟩
        · rw [hmoved.again hmoved₁ hk]
          simp [Repeats]
        · rw [hmoved₁ c r hc, if_neg hin, hmoved c r hc, if_neg (by omega)]
  obtain ⟨px', hfill, hiff⟩ := fillRect_scrolled con.state.bg h.rows_pos h.height hrest
  refine ⟨px', ?_, hiff.trans hagain⟩
  rw [hcopy, except_ok_bind]
  change (fb.fillRect 0 ((con.state.rows - 1) * FONT_HEIGHT) _ _ _ _ >>= _) = _
  rw [hfill]
  rfl

/-- The scroll is right exactly when no transfer that failed half-way left its mark. -/
theorem scroll_outcome (h : con.Of fb) (outcome : Option Outcome)
    (hcopied : ∀ o ∈ outcome, o.copied ≤ rowCount con) :
    ∃ con', FbConsole.scroll fb (outcome.map (Outcome.engine fb)) con = .ok con' ∧
      (Scrolled fb con.state.rows con.state.bg con.px con'.px ↔
        (con.state.dmaFailed = false → ∀ o ∈ outcome, Repeats fb con.px o.copied)) := by
  obtain ⟨usedDma, px, dmaFailed, hdma, ⟨rfl, rfl, hnone⟩ | ⟨copy2d, result, hnot, hengine, hcopy,
    hused⟩⟩ := h.scrollDma (outcome.map (Outcome.engine fb))
  · obtain ⟨px', hrun, hiff⟩ := scroll_of_dma h hdma
      (show Moved fb 0 con.px con.px from copyRows_moved 0 0) (Nat.zero_le _) nofun
    refine ⟨_, hrun, hiff.trans ⟨fun _ hnot o ho => ?_, fun _ => .inr fun c r _ hr => ?_⟩⟩
    · rw [Option.map_eq_none_iff.mp (hnone hnot)] at ho
      cases ho
    · omega
  · obtain ⟨o, rfl, rfl⟩ := Option.map_eq_some_iff.mp hengine
    obtain ⟨hok, hmoved⟩ := @Outcome.engine_moved fb con.px o (rowCount con)
    rw [hcopy] at hok hmoved
    have husedOk : usedDma = true ↔ o = .ok := hused.trans hok
    have hk : (if o = .ok then rowCount con else o.copied) ≤ rowCount con := by
      split
      · exact Nat.le_refl _
      · exact hcopied o rfl
    obtain ⟨px', hrun, hiff⟩ := scroll_of_dma h hdma hmoved hk fun husedDma => by
      rw [if_pos (husedOk.mp husedDma)]
    refine ⟨_, hrun, hiff.trans ?_⟩
    rw [husedOk]
    constructor
    · rintro hor - o' ho'
      cases ho'
      rcases hor with rfl | hrepeats
      · exact fun c r _ hr => absurd hr (Nat.not_lt_zero _)
      · intro c r hc hr
        refine hrepeats c r hc ?_
        split
        · rename_i heq
          rw [heq] at hr
          exact absurd hr (Nat.not_lt_zero _)
        · exact hr
    · intro hall
      by_cases heq : o = .ok
      · exact .inl heq
      · rw [if_neg heq]
        exact .inr (hall hnot o rfl)

/-- A scroll moves every text row up by one and clears the last one, unless the transfer
was given up after more than a text row and the scanlines it copied over differ. -/
theorem scroll_scrolled_iff (fb : FrameBuffer) (con : FbConsole) (h : con.Of fb)
    (outcome : Option Outcome) (hcopied : ∀ o ∈ outcome, o.copied ≤ rowCount con) :
    ∃ con', FbConsole.scroll fb (outcome.map (Outcome.engine fb)) con = .ok con' ∧
      (Scrolled fb con.state.rows con.state.bg con.px con'.px ↔
        (con.state.dmaFailed = false → ∀ o ∈ outcome, Repeats fb con.px o.copied)) :=
  scroll_outcome h outcome hcopied

/-- Three text rows of one column. -/
def smallFb : FrameBuffer where
  width := 8
  height := 48
  pitch := 32
  busAddr := 0x3C000000
  pitch_dvd := by decide
  width_le := by decide
  bus_lt := by decide

/-- A console on which each scanline has a color of its own, with the cursor in the last row. -/
def striped : FbConsole where
  state := ⟨0, 3, 1, 3, 8, 48, FbConsole.DEFAULT_FG, FbConsole.DEFAULT_BG, .normal, false⟩
  px := fun i => UInt32.ofNat (i / 8)
  scrolls := 0

theorem striped_of : striped.Of smallFb := ⟨rfl, rfl, rfl, by decide, by decide⟩

/-- A transfer that is given up after one text row is made good. -/
theorem scroll_scrolled_fault :
    ∃ con', FbConsole.scroll smallFb (some ((Outcome.fault 16).engine smallFb)) striped = .ok con' ∧
      Scrolled smallFb 3 FbConsole.DEFAULT_BG striped.px con'.px := by
  obtain ⟨con', hrun, hiff⟩ := scroll_scrolled_iff smallFb striped striped_of (some (.fault 16))
    (by decide)
  refine ⟨con', hrun, hiff.mpr fun _ o ho c r _ hr => ?_⟩
  cases ho
  exact absurd hr (by simp only [Outcome.copied, FONT_HEIGHT]; omega)

/-- One scanline more, and the first scanline moves by two text rows. -/
theorem scroll_not_scrolled_fault :
    ∃ con', FbConsole.scroll smallFb (some ((Outcome.fault 17).engine smallFb)) striped = .ok con' ∧
      ¬Scrolled smallFb 3 FbConsole.DEFAULT_BG striped.px con'.px := by
  obtain ⟨con', hrun, hiff⟩ := scroll_outcome striped_of (some (.fault 17)) (by decide)
  refine ⟨con', hrun, fun hscrolled => ?_⟩
  have hsame := hiff.mp hscrolled rfl (.fault 17) rfl 0 0 (by decide) (by decide)
  exact absurd hsame (by decide)

end Kruspix.Drivers.Display
