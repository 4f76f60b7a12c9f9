import Kruspix.Drivers.Display.Scroll
import Kruspix.Drivers.Display.Terminal
import Mathlib.Tactic.SplitIfs

/-!
# The console is a terminal

After each byte, the pixels are those of the cells of the terminal and the cursors agree.
The parser keeps in its state what is left to be taken out of the stream.
-/

namespace Kruspix.Drivers.Display

open Dma Lib.Loop Lib.Result Kernel.Devicetree FrameBuffer FbConsole

/-! ## The parser -/

/-- The next state, and the byte if it is not a part of an escape sequence. -/
def AnsiState.step (s : AnsiState) (byte : UInt8) : AnsiState × Option UInt8 :=
  match s with
  | .escape =>
      if byte = 0x5B then (.csi, none)
      else if byte = 0x5D then (.osc, none)
      else if byte = ESC then (.escape, none)
      else (.normal, none)
  | .csi => if isFinal byte then (.normal, none) else (.csi, none)
  | .osc =>
      if byte = BEL then (.normal, none)
      else if byte = ESC then (.escape, none)
      else (.osc, none)
  | .normal => if byte = ESC then (.escape, none) else (.normal, some byte)

/-- The bytes that the parser passes on. -/
def AnsiState.passed : AnsiState → List UInt8 → List UInt8
  | _, [] => []
  | s, byte :: bytes => (s.step byte).2.toList ++ (s.step byte).1.passed bytes

/-- Only the normal state passes a byte on, and stays. -/
theorem AnsiState.step_some {s : AnsiState} {byte c : UInt8} (h : (s.step byte).2 = some c) :
    c = byte ∧ (s.step byte).1 = s := by
  cases s with
  | escape =>
      rw [step] at h
      split_ifs at h
  | csi =>
      rw [step] at h
      split_ifs at h
  | osc =>
      rw [step] at h
      split_ifs at h
  | normal =>
      by_cases hesc : byte = ESC
      · rw [step, if_pos hesc] at h
        cases h
      · rw [step, if_neg hesc] at h ⊢
        cases h
        exact ⟨rfl, rfl⟩

/-- In each state, the rest of the stream is what is left of it behind the open sequence. -/
theorem passed_eq (bytes : List UInt8) :
    AnsiState.normal.passed bytes = strip bytes ∧
      AnsiState.escape.passed bytes = strip (ESC :: bytes) ∧
      AnsiState.csi.passed bytes = strip (behindCsi bytes) ∧
      AnsiState.osc.passed bytes = strip (behindOsc bytes) := by
  induction bytes with
  | nil => exact ⟨strip_nil.symm, strip_open.symm, strip_nil.symm, strip_nil.symm⟩
  | cons byte bytes ih =>
      obtain ⟨hnormal, hescape, hcsi, hosc⟩ := ih
      refine ⟨?_, ?_, ?_, ?_⟩
      · rw [AnsiState.passed, AnsiState.step]
        by_cases hesc : byte = ESC
        · rw [if_pos hesc, hesc]
          exact hescape
        · rw [if_neg hesc, strip_byte hesc]
          exact congrArg _ hnormal
      · rw [AnsiState.passed, AnsiState.step, strip_sequence]
        split
        · exact hcsi
        · split
          · exact hosc
          · split
            · rename_i hesc
              rw [hesc]
              exact hescape
            · exact hnormal
      · rw [AnsiState.passed, AnsiState.step, behindCsi]
        split
        · exact hnormal
        · exact hcsi
      · rw [AnsiState.passed, AnsiState.step, behindOsc]
        split
        · exact hnormal
        · split
          · rename_i hesc
            rw [hesc]
            exact hescape
          · exact hosc

variable {fb : FrameBuffer} {font : Font} {dma : Nat → Option Engine} {con : FbConsole}

theorem setAnsiState_self {s : AnsiState} (h : con.state.ansiState = s) :
    con.setAnsiState s = con := by
  subst h
  rfl

/-- A byte is passed on or moves the parser alone. -/
theorem writeByte_eq (con : FbConsole) (byte : UInt8) :
    writeByte fb dma font con byte =
      if (con.state.ansiState.step byte).2.isSome then normalByte fb dma font byte con
      else .ok (con.setAnsiState (con.state.ansiState.step byte).1) := by
  rw [writeByte]
  cases hs : con.state.ansiState with
  | escape =>
      dsimp only [AnsiState.step]
      split
      · rfl
      · split
        · rfl
        · split
          · rw [setAnsiState_self hs]
            rfl
          · rfl
  | csi =>
      dsimp only [AnsiState.step]
      split
      · rfl
      · rw [setAnsiState_self hs]
        rfl
  | osc =>
      dsimp only [AnsiState.step]
      split
      · rfl
      · split
        · rfl
        · rw [setAnsiState_self hs]
          rfl
  | normal =>
      dsimp only [AnsiState.step]
      split
      · rfl
      · rfl

/-! ## The pixels of the cells -/

/-- The engine copies all rows of a transfer, or none of them and fails. -/
def Honest (fb : FrameBuffer) (engine : Engine) : Prop :=
  ∀ t px, engine t px = (.ok (), copyRows t fb.busAddr px t.rowCount) ∨
    ∃ e, engine t px = (.error e, px)

/-- The pixel of a cell at a place in it. -/
def Cell.pixel (font : Font) (x y : Nat) : Cell → UInt32
  | .blank => DEFAULT_BG
  | .glyph byte =>
      if bitSet ((getGlyph font byte.toNat).getD y 0) x then DEFAULT_FG else DEFAULT_BG

variable {cols rows : Nat} {t : Terminal cols rows}

/-- The color of a pixel of the screen, which is larger than the grid. -/
def Terminal.pixel (font : Font) (t : Terminal cols rows) (x y : Nat) : UInt32 :=
  if x / FONT_WIDTH < cols ∧ y / FONT_HEIGHT < rows then
    (t.cells (x / FONT_WIDTH) (y / FONT_HEIGHT)).pixel font (x % FONT_WIDTH) (y % FONT_HEIGHT)
  else DEFAULT_BG

/-- The console shows the cells of the terminal, and its cursor is in the same row. -/
structure Screen (fb : FrameBuffer) (font : Font) (con : FbConsole) (t : Terminal cols rows) :
    Prop where
  of : con.Of fb
  cols_eq : con.state.cols = cols
  rows_eq : con.state.rows = rows
  fg : con.state.fg = DEFAULT_FG
  bg : con.state.bg = DEFAULT_BG
  row : con.state.row = t.row
  pixels : ∀ x y, x < fb.width → y < fb.height → fb.pixel con.px x y = t.pixel font x y

/-- The console shows the terminal, and the cursor is in the same place. -/
structure Shows (fb : FrameBuffer) (font : Font) (con : FbConsole) (t : Terminal cols rows) :
    Prop extends Screen fb font con t where
  col : con.state.col = t.col

theorem Terminal.pixel_setCell (font : Font) (cell : Cell) (x y : Nat) :
    (t.setCell cell).pixel font x y =
      if (t.col * FONT_WIDTH ≤ x ∧ x < t.col * FONT_WIDTH + FONT_WIDTH) ∧
          t.row * FONT_HEIGHT ≤ y ∧ y < t.row * FONT_HEIGHT + FONT_HEIGHT then
        cell.pixel font (x - t.col * FONT_WIDTH) (y - t.row * FONT_HEIGHT)
      else t.pixel font x y := by
  have hcol := t.col_lt
  have hrow := t.row_lt
  simp only [pixel, setCell, FONT_WIDTH, FONT_HEIGHT]
  by_cases hin : x / 8 = t.col ∧ y / 16 = t.row
  · rw [if_pos (by omega), if_pos hin, if_pos (by omega),
      show x % 8 = x - t.col * 8 by omega, show y % 16 = y - t.row * 16 by omega]
  · have hout : ¬((t.col * 8 ≤ x ∧ x < t.col * 8 + 8) ∧ t.row * 16 ≤ y ∧
        y < t.row * 16 + 16) := by
      omega
    rw [if_neg hin, if_neg hout]

/-- In the last row, a line feed shows each row in the place of the one above it. -/
theorem Terminal.pixel_lineFeed (font : Font) (h : ¬t.row + 1 < rows) (x y : Nat) :
    t.lineFeed.pixel font x y =
      if y < (rows - 1) * FONT_HEIGHT then t.pixel font x (y + FONT_HEIGHT)
      else if y < rows * FONT_HEIGHT then DEFAULT_BG
      else t.pixel font x y := by
  have hrow := t.row_lt
  simp only [pixel, lineFeed, dif_neg h, FONT_WIDTH, FONT_HEIGHT]
  by_cases habove : y < (rows - 1) * 16
  · rw [if_pos habove, if_pos (show y / 16 + 1 < rows by omega),
      show (y + 16) / 16 = y / 16 + 1 by omega, show (y + 16) % 16 = y % 16 by omega]
    exact if_congr (by omega) rfl rfl
  · rw [if_neg habove, if_neg (show ¬y / 16 + 1 < rows by omega)]
    by_cases hlast : y < rows * 16
    · rw [if_pos hlast, Cell.pixel, ite_self]
    · rw [if_neg hlast, if_neg (by omega), if_neg (by omega)]

/-! ## The bytes -/

/-- An engine that is honest scrolls the screen, and so does the processor. -/
theorem scroll_honest (h : con.Of fb) {engine : Option Engine}
    (honest : ∀ copy2d ∈ engine, Honest fb copy2d) :
    ∃ px dmaFailed, scroll fb engine con = .ok ⟨{ con.state with
        row := con.state.rows - 1, dmaFailed := dmaFailed }, px, con.scrolls + 1⟩ ∧
      Scrolled fb con.state.rows con.state.bg con.px px := by
  have hnone : Repeats fb con.px 0 := fun _ _ _ hr => absurd hr (Nat.not_lt_zero _)
  have hzero : Moved fb 0 con.px con.px := copyRows_moved 0 0
  obtain ⟨usedDma, px, dmaFailed, hdma, ⟨rfl, rfl, -⟩ | ⟨copy2d, result, -, rfl, hcopy,
    hused⟩⟩ := h.scrollDma engine
  · obtain ⟨px', hrun, hiff⟩ := scroll_of_dma h hdma hzero (Nat.zero_le _) nofun
    exact ⟨px', dmaFailed, hrun, hiff.mpr (.inr hnone)⟩
  · rcases honest copy2d rfl (scrollRows fb (rowCount con)) con.px with hok | ⟨e, herror⟩
    · cases hcopy.symm.trans hok
      obtain ⟨px', hrun, hiff⟩ := scroll_of_dma h hdma (copyRows_moved _ (rowCount con))
        (Nat.le_refl _) fun _ => rfl
      exact ⟨px', dmaFailed, hrun, hiff.mpr (.inl (hused.mpr rfl))⟩
    · cases hcopy.symm.trans herror
      have hnot : usedDma ≠ true := fun h => nomatch hused.mp h
      obtain ⟨px', hrun, hiff⟩ := scroll_of_dma h hdma hzero (Nat.zero_le _)
        fun h => absurd h hnot
      exact ⟨px', dmaFailed, hrun, hiff.mpr (.inr hnone)⟩

/-- The cells lie on the screen. -/
theorem Screen.cell_le (h : Screen fb font con t) :
    t.col * 8 + 8 ≤ fb.width ∧ t.row * 16 + 16 ≤ fb.height := by
  have hwidth := h.of.width
  have hheight := h.of.height
  have hcol := t.col_lt
  have hrow := t.row_lt
  rw [h.cols_eq, FONT_WIDTH] at hwidth
  rw [h.rows_eq, FONT_HEIGHT] at hheight
  omega

theorem Screen.size_lt (h : Screen fb font con t) : fb.width < 2 ^ 32 ∧ fb.height < 2 ^ 32 := by
  have hcell := h.cell_le
  exact FrameBuffer.size_lt (show 0 < fb.width by omega) (show 0 < fb.height by omega)

/-- The pixels change and nothing else does. -/
theorem Screen.draw {t' : Terminal cols rows} {px : Pixels} (h : Screen fb font con t)
    (hrow : t'.row = t.row)
    (hpx : ∀ x y, x < fb.width → y < fb.height → fb.pixel px x y = t'.pixel font x y) (col : Nat) :
    Screen fb font { con with px := px, state := { con.state with col := col } } t' :=
  ⟨⟨h.of.fbWidth, h.of.cols, h.of.rows, h.of.cols_pos, h.of.rows_pos⟩, h.cols_eq, h.rows_eq, h.fg,
    h.bg, h.row.trans hrow.symm, hpx⟩

theorem Screen.newline (h : Screen fb font con t)
    (honest : ∀ n, ∀ copy2d ∈ dma n, Honest fb copy2d) :
    ∃ con', newline fb dma con = .ok con' ∧ Shows fb font con' t.lineFeed ∧
      con'.state.ansiState = con.state.ansiState := by
  have hrow := t.row_lt
  have hlt := h.size_lt
  have hcell := h.cell_le
  have hof : Of { con with state := { con.state with col := 0, row := t.row + 1 } } fb :=
    ⟨h.of.fbWidth, h.of.cols, h.of.rows, h.of.cols_pos, h.of.rows_pos⟩
  rw [FbConsole.newline, h.row, u32_ok (by omega), except_ok_bind]
  dsimp only
  by_cases hlast : t.row + 1 < rows
  · rw [if_neg (by rw [h.rows_eq]; omega)]
    refine ⟨_, rfl, ⟨⟨hof, h.cols_eq, h.rows_eq, h.fg, h.bg, ?_, fun x y hx hy => ?_⟩, ?_⟩, rfl⟩
    · rw [Terminal.lineFeed, dif_pos hlast]
    · rw [Terminal.lineFeed, dif_pos hlast]
      exact h.pixels x y hx hy
    · rw [Terminal.lineFeed, dif_pos hlast]
  · rw [if_pos (by rw [h.rows_eq]; omega)]
    obtain ⟨px, dmaFailed, hrun, hscrolled⟩ := scroll_honest hof (honest con.scrolls)
    refine ⟨_, hrun, ⟨⟨⟨h.of.fbWidth, h.of.cols, h.of.rows, h.of.cols_pos, h.of.rows_pos⟩,
      h.cols_eq, h.rows_eq, h.fg, h.bg, ?_, fun x y hx hy => ?_⟩, ?_⟩, rfl⟩
    · rw [Terminal.lineFeed, dif_neg hlast]
      dsimp only
      rw [h.rows_eq]
      omega
    · have hpixel := hscrolled x y (Nat.lt_of_lt_of_le hx width_le_pitchPixels)
      have hheight := h.of.height
      dsimp only at hpixel ⊢
      rw [h.rows_eq] at hheight hpixel
      rw [hpixel, Terminal.pixel_lineFeed font hlast, h.bg]
      by_cases habove : y < (rows - 1) * FONT_HEIGHT
      · have hbelow : y + FONT_HEIGHT < fb.height := by
          simp only [FONT_HEIGHT] at habove hheight ⊢
          omega
        rw [if_pos ⟨hx, habove⟩, if_pos habove, h.pixels x _ hx hbelow]
      · rw [if_neg (fun hin => habove hin.2), if_neg habove, h.pixels x y hx hy]
        exact if_congr (by omega) rfl rfl
    · rw [Terminal.lineFeed, dif_neg hlast]

theorem Shows.cursor (h : Shows fb font con t) :
    con.cursor = .ok (t.col * FONT_WIDTH, t.row * FONT_HEIGHT) := by
  have hlt := h.size_lt
  have hcell := h.cell_le
  have hx : t.col * FONT_WIDTH < 2 ^ 32 := by
    rw [FONT_WIDTH]
    omega
  have hy : t.row * FONT_HEIGHT < 2 ^ 32 := by
    rw [FONT_HEIGHT]
    omega
  rw [FbConsole.cursor, h.col, h.row, u32_ok hx, except_ok_bind, u32_ok hy]
  rfl

theorem Shows.printByte (h : Shows fb font con t)
    (honest : ∀ n, ∀ copy2d ∈ dma n, Honest fb copy2d) (byte : UInt8) :
    ∃ con', printByte fb dma font byte con = .ok con' ∧ Shows fb font con' (t.put byte) ∧
      con'.state.ansiState = con.state.ansiState := by
  have hlt := h.size_lt
  have hcell := h.cell_le
  obtain ⟨px, hdraw, hpixel⟩ := @drawGlyph_spec fb con.px con.state.fg con.state.bg
    (t.col * FONT_WIDTH) (t.row * FONT_HEIGHT) _ (getGlyph_length font byte.toNat) hcell.1 hcell.2
  have hscreen := @Screen.draw fb font con cols rows t (t.setCell (.glyph byte)) px h.toScreen rfl
    (fun x y hx hy => by
      rw [hpixel x y (Nat.lt_of_lt_of_le hx width_le_pitchPixels), Terminal.pixel_setCell,
        h.pixels x y hx hy, h.fg, h.bg]
      rfl) (t.col + 1)
  have hcols : t.col + 1 ≥ con.state.cols ↔ ¬t.col + 1 < cols := by
    rw [h.cols_eq, Nat.not_lt]
  rw [FbConsole.printByte, h.cursor, except_ok_bind]
  dsimp only
  rw [hdraw, except_ok_bind, h.col, u32_ok (by omega), except_ok_bind, Terminal.put]
  by_cases hlast : t.col + 1 < cols
  · rw [if_neg (fun hge => hcols.mp hge hlast), dif_pos hlast]
    exact ⟨_, rfl, ⟨⟨hscreen.of, hscreen.cols_eq, hscreen.rows_eq, hscreen.fg, hscreen.bg,
      hscreen.row, hscreen.pixels⟩, rfl⟩, rfl⟩
  · rw [if_pos (hcols.mpr hlast), dif_neg hlast]
    exact hscreen.newline honest

/-- In the first column, the cell of the cursor is erased. -/
theorem Shows.eraseByte (h : Shows fb font con t) :
    ∃ con', eraseByte fb con = .ok con' ∧ Shows fb font con' t.backspace ∧
      con'.state.ansiState = con.state.ansiState := by
  have hlt := h.size_lt
  have hcell := h.cell_le
  let left : Terminal cols rows :=
    { t with
      col := t.col - 1
      col_lt := Nat.lt_of_le_of_lt (Nat.sub_le _ _) t.col_lt }
  have hleft : Shows fb font { con with state := { con.state with col := left.col } } left :=
    ⟨⟨⟨h.of.fbWidth, h.of.cols, h.of.rows, h.of.cols_pos, h.of.rows_pos⟩, h.cols_eq, h.rows_eq,
      h.fg, h.bg, h.row, h.pixels⟩, rfl⟩
  have hcol : (if con.state.col > 0 then con.state.col - 1 else con.state.col) = left.col := by
    rw [h.col]
    dsimp only [left]
    split <;> omega
  obtain ⟨px, hfill, hpixel⟩ := @fillRect_spec fb con.px con.state.bg (left.col * FONT_WIDTH)
    (left.row * FONT_HEIGHT) FONT_WIDTH FONT_HEIGHT fun _ _ => by
      have hcell' := hleft.cell_le
      simp only [FONT_WIDTH, FONT_HEIGHT]
      omega
  have hscreen := @Screen.draw fb font _ cols rows left (left.setCell .blank) px hleft.toScreen rfl
    (fun x y hx hy => by
      have hcell' := hleft.cell_le
      rw [hpixel x y (Nat.lt_of_lt_of_le hx width_le_pitchPixels), Terminal.pixel_setCell,
        h.pixels x y hx hy, h.bg]
      exact if_congr (by simp only [FONT_WIDTH, FONT_HEIGHT]; omega) rfl rfl) left.col
  rw [FbConsole.eraseByte]
  dsimp only
  rw [hcol, hleft.cursor, except_ok_bind]
  dsimp only
  rw [hfill]
  exact ⟨_, rfl, ⟨hscreen, rfl⟩, rfl⟩

/-- A byte that the parser passes on does to the terminal what it does to the console. -/
theorem Shows.normalByte (h : Shows fb font con t)
    (honest : ∀ n, ∀ copy2d ∈ dma n, Honest fb copy2d) (byte : UInt8) :
    ∃ con', normalByte fb dma font byte con = .ok con' ∧ Shows fb font con' (t.feed byte) ∧
      con'.state.ansiState = con.state.ansiState := by
  rw [FbConsole.normalByte, Terminal.feed]
  split
  · exact h.printByte honest byte
  · split
    · exact h.toScreen.newline honest
    · split
      · exact ⟨_, rfl, ⟨⟨⟨h.of.fbWidth, h.of.cols, h.of.rows, h.of.cols_pos, h.of.rows_pos⟩,
          h.cols_eq, h.rows_eq, h.fg, h.bg, h.row, h.pixels⟩, rfl⟩, rfl⟩
      · split
        · exact h.eraseByte
        · exact ⟨con, rfl, h, rfl⟩

/-- The state of the parser is not seen. -/
theorem Shows.setAnsiState (h : Shows fb font con t) (s : AnsiState) :
    Shows fb font (con.setAnsiState s) t :=
  ⟨⟨⟨h.of.fbWidth, h.of.cols, h.of.rows, h.of.cols_pos, h.of.rows_pos⟩, h.cols_eq, h.rows_eq,
    h.fg, h.bg, h.row, h.pixels⟩, h.col⟩

/-- The console follows the terminal through a stream. -/
theorem Shows.write (h : Shows fb font con t)
    (honest : ∀ n, ∀ copy2d ∈ dma n, Honest fb copy2d) (bytes : List UInt8) :
    ∃ con', write fb dma font con bytes = .ok con' ∧
      Shows fb font con' ((con.state.ansiState.passed bytes).foldl Terminal.feed t) := by
  induction bytes generalizing con t with
  | nil => exact ⟨con, rfl, h⟩
  | cons byte bytes ih =>
      rw [FbConsole.write, List.foldlM_cons, writeByte_eq, AnsiState.passed, List.foldl_append]
      cases hout : (con.state.ansiState.step byte).2 with
      | none =>
          rw [if_neg (by simp), except_ok_bind]
          exact ih (h.setAnsiState (con.state.ansiState.step byte).1)
      | some c =>
          obtain ⟨rfl, hstays⟩ := AnsiState.step_some hout
          obtain ⟨con', hbyte, hshows, hstate⟩ := h.normalByte honest c
          rw [if_pos (by simp), hbyte, except_ok_bind, hstays, ← hstate]
          exact ih hshows

theorem write_flatten (con : FbConsole) (calls : List (List UInt8)) :
    calls.foldlM (FbConsole.write fb dma font) con = FbConsole.write fb dma font con calls.flatten := by
  induction calls generalizing con with
  | nil => rfl
  | cons bytes calls ih =>
      rw [List.foldlM_cons, List.flatten_cons, FbConsole.write, FbConsole.write, List.foldlM_append]
      exact congrArg _ (funext ih)

/-- The console is empty at first. -/
theorem new_shows (px : Pixels) (hwidth : FONT_WIDTH ≤ fb.width) (hheight : FONT_HEIGHT ≤ fb.height) :
    ∃ con, FbConsole.new fb px = .ok con ∧ con.state.ansiState = .normal ∧
      Shows fb font con (Terminal.new (Nat.div_pos hwidth (by decide))
        (Nat.div_pos hheight (by decide)) :
          Terminal (fb.width / FONT_WIDTH) (fb.height / FONT_HEIGHT)) := by
  have hlt := @FrameBuffer.size_lt fb 0 0 (by simp only [FONT_WIDTH] at hwidth; omega)
    (by simp only [FONT_HEIGHT] at hheight; omega)
  obtain ⟨px', hfill, hpixel⟩ := @fillRect_spec fb px DEFAULT_BG 0 0 fb.width fb.height
    fun _ _ => by omega
  refine ⟨_, by rw [FbConsole.new, hfill]; rfl, rfl, ⟨⟨⟨rfl, rfl, rfl,
    Nat.div_pos hwidth (by decide), Nat.div_pos hheight (by decide)⟩, rfl, rfl, rfl, rfl, rfl,
    fun x y hx hy => ?_⟩, rfl⟩⟩
  rw [hpixel x y (Nat.lt_of_lt_of_le hx width_le_pitchPixels), if_pos (by omega), Terminal.pixel]
  split <;> rfl

/-- The calls of `write` on a new console. -/
def writes (fb : FrameBuffer) (font : Font) (dma : Nat → Option Engine) (px : Pixels)
    (calls : List (List UInt8)) : Except Fault FbConsole := do
  let con ← FbConsole.new fb px
  calls.foldlM (FbConsole.write fb dma font) con

/-- After each call of `write`, the console shows the terminal that got the bytes of all
calls, in whatever pieces they came. -/
theorem writes_show (fb : FrameBuffer) (font : Font) (dma : Nat → Option Engine)
    (hwidth : FONT_WIDTH ≤ fb.width) (hheight : FONT_HEIGHT ≤ fb.height)
    (honest : ∀ n, ∀ copy2d ∈ dma n, Honest fb copy2d) (px : Pixels) (calls : List (List UInt8)) :
    ∃ con, writes fb font dma px calls = .ok con ∧ Shows fb font con
      ((Terminal.new (Nat.div_pos hwidth (by decide)) (Nat.div_pos hheight (by decide)) :
        Terminal (fb.width / FONT_WIDTH) (fb.height / FONT_HEIGHT)).run calls.flatten) := by
  obtain ⟨con, hnew, hnormal, hshows⟩ := @new_shows fb font px hwidth hheight
  obtain ⟨con', hwrite, hshows'⟩ := hshows.write honest calls.flatten
  rw [hnormal, (passed_eq _).1] at hshows'
  refine ⟨con', ?_, hshows'⟩
  rw [writes, hnew, except_ok_bind, ← hwrite]
  exact write_flatten con calls

/-- A column of three rows gets five characters, one of them behind a sequence that is cut
in two, and scrolls three times. -/
theorem writes_show_small :
    let calls := [[0x41, 0x42, ESC], [0x5B, 0x33, 0x31, 0x6D, 0x43, 0x44], [0x45, BS]]
    ∃ con, writes smallFb (Vector.replicate (128 * 16) 0x18)
        (fun _ => some (Outcome.ok.engine smallFb)) (fun _ => 0) calls = .ok con ∧
      con.state.col = 0 ∧ con.state.row = 2 ∧ ∀ x < 8, ∀ y < 48,
        smallFb.pixel con.px x y = if y < 32 ∧ (x = 3 ∨ x = 4) then DEFAULT_FG else DEFAULT_BG := by
  intro calls
  obtain ⟨con, hrun, hshows⟩ := writes_show smallFb (Vector.replicate (128 * 16) 0x18)
    (fun _ => some (Outcome.ok.engine smallFb)) (by decide) (by decide)
    (fun n copy2d hcopy t px => .inl (by cases hcopy; rfl)) (fun _ => 0) calls
  refine ⟨con, hrun, hshows.col.trans (by decide +kernel), hshows.row.trans (by decide +kernel),
    fun x hx y hy => ?_⟩
  rw [hshows.pixels x y hx hy]
  revert y x
  decide +kernel

end Kruspix.Drivers.Display
