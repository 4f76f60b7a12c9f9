import Mathlib.Data.Int.Basic
import Kruspix.Drivers.Display.Terminal

/-!
# A line of text on a terminal of cells

The cells follow each other row by row. When the rows move up, what is shown moves with them, and
may leave the screen.
-/

namespace Kruspix.Drivers.Display

open FbConsole

variable {cols rows : Nat}

namespace Terminal

variable (t : Terminal cols rows)

/-- The number of cells before the cursor. -/
def position : Nat := t.row * cols + t.col

/-- The cell at a position, counted along the rows. -/
def cellAt (p : Nat) : Cell := t.cells (p % cols) (p / cols)

/-- Nothing is shown from the cursor on. -/
def Clear : Prop := ∀ p, t.position ≤ p → p < rows * cols → t.cellAt p = .blank

/-- The cursor is in the last row. -/
def LastRow : Prop := t.row + 1 = rows

instance : Decidable t.LastRow := inferInstanceAs (Decidable (t.row + 1 = rows))

/-- The rows move up. -/
def Scrolls (byte : UInt8) : Prop :=
  t.LastRow ∧ ((isPrintable byte = true ∧ t.col + 1 = cols) ∨ byte = LF)

instance (byte : UInt8) : Decidable (t.Scrolls byte) := by
  unfold Scrolls
  infer_instance

theorem position_col (row col : Nat) (hcol : col < cols) :
    (row * cols + col) % cols = col ∧ (row * cols + col) / cols = row := by
  constructor
  · rw [Nat.mul_comm, Nat.mul_add_mod, Nat.mod_eq_of_lt hcol]
  · rw [Nat.mul_comm, Nat.mul_add_div (Nat.zero_lt_of_lt hcol), Nat.div_eq_of_lt hcol, Nat.add_zero]

theorem cellAt_setCell (cell : Cell) (p : Nat) :
    (t.setCell cell).cellAt p = if p = t.position then cell else t.cellAt p := by
  have hiff : p % cols = t.col ∧ p / cols = t.row ↔ p = t.position := by
    constructor
    · rintro ⟨hcol, hrow⟩
      rw [position, ← hcol, ← hrow, Nat.div_add_mod']
    · rintro rfl
      exact position_col t.row t.col t.col_lt
  exact if_congr hiff rfl rfl

theorem position_lineFeed_of_lt (h : ¬t.LastRow) : t.lineFeed.position = (t.row + 1) * cols := by
  have hlt : t.row + 1 < rows := Nat.lt_of_le_of_ne t.row_lt h
  rw [lineFeed, dif_pos hlt]
  exact Nat.add_zero _

theorem cellAt_lineFeed_of_lt (h : ¬t.LastRow) (p : Nat) : t.lineFeed.cellAt p = t.cellAt p := by
  have hlt : t.row + 1 < rows := Nat.lt_of_le_of_ne t.row_lt h
  rw [lineFeed, dif_pos hlt]
  rfl

theorem position_lineFeed_of_lastRow (h : t.LastRow) :
    t.lineFeed.position + cols = (t.row + 1) * cols := by
  rw [lineFeed, dif_neg (Nat.not_lt.mpr (Nat.le_of_eq h.symm)), position, Nat.succ_mul]
  rfl

theorem cellAt_lineFeed_of_lastRow (h : t.LastRow) (p : Nat) :
    t.lineFeed.cellAt p = if p + cols < rows * cols then t.cellAt (p + cols) else .blank := by
  have hpos := Nat.zero_lt_of_lt t.col_lt
  rw [lineFeed, dif_neg (Nat.not_lt.mpr (Nat.le_of_eq h.symm))]
  simp only [cellAt, Nat.add_mod_right, Nat.add_div_right p hpos]
  refine if_congr ?_ rfl rfl
  rw [← Nat.add_div_right p hpos, Nat.div_lt_iff_lt_mul hpos]

end Terminal

/-- A terminal, and where the line starts. This is negative once it has left the screen. -/
structure LinePage (cols rows : Nat) where
  terminal : Terminal cols rows
  start : ℤ

namespace LinePage

/-- The next line starts at the cursor. -/
def atCursor (t : Terminal cols rows) : LinePage cols rows := ⟨t, t.position⟩

/-- Print a byte. A scroll moves the start of the line up by one row. -/
def feed (s : LinePage cols rows) (byte : UInt8) : LinePage cols rows where
  terminal := s.terminal.feed byte
  start := if s.terminal.Scrolls byte then s.start - cols else s.start

/-- The text is what is shown between the start and the cursor, as far as it is on the screen,
and nothing is shown behind. -/
structure Reads (s : LinePage cols rows) (text : List UInt8) : Prop where
  cursor : (s.terminal.position : ℤ) = s.start + text.length
  shown : ∀ (k : Nat) (h : k < text.length) (p : Nat), (p : ℤ) = s.start + k →
    s.terminal.cellAt p = .glyph text[k]
  clear : s.terminal.Clear

variable {s : LinePage cols rows} {text : List UInt8} {byte : UInt8}

theorem terminal_foldl (s : LinePage cols rows) (bytes : List UInt8) :
    (bytes.foldl feed s).terminal = bytes.foldl Terminal.feed s.terminal := by
  induction bytes generalizing s with
  | nil => rfl
  | cons byte bytes ih => exact ih (s.feed byte)

theorem reads_atCursor {t : Terminal cols rows} (h : t.Clear) : (atCursor t).Reads [] where
  cursor := (Int.add_zero (t.position : ℤ)).symm
  shown := nofun
  clear := h

/-- The cell that a character is put in. -/
theorem Reads.setCell (h : s.Reads text) (byte : UInt8) (p k : Nat)
    (hp : (p : ℤ) = s.start + k) (hk : k < (text ++ [byte]).length) :
    (s.terminal.setCell (.glyph byte)).cellAt p = .glyph (text ++ [byte])[k] := by
  have hcursor := h.cursor
  rw [List.length_append, List.length_singleton] at hk
  rw [Terminal.cellAt_setCell]
  by_cases hlast : k = text.length
  · subst hlast
    rw [if_pos (by omega), List.getElem_concat_length rfl]
  · have hlt : k < text.length := by omega
    rw [if_neg (by omega), List.getElem_append_left hlt]
    exact h.shown k hlt p hp

theorem Reads.clear_setCell (h : s.Reads text) (cell : Cell) (p : Nat)
    (hp : s.terminal.position < p) (hlt : p < rows * cols) :
    (s.terminal.setCell cell).cellAt p = .blank := by
  rw [Terminal.cellAt_setCell, if_neg (Nat.ne_of_gt hp)]
  exact h.clear p (Nat.le_of_lt hp) hlt

/-- A line that ends in the last column goes on in the next row. -/
theorem reads_lineFeed {t : Terminal cols rows} {start : ℤ} (hcol : t.col + 1 = cols)
    (hcursor : (t.position + 1 : ℤ) = start + text.length)
    (hshown : ∀ (k : Nat) (h : k < text.length) (p : Nat), (p : ℤ) = start + k →
      t.cellAt p = .glyph text[k])
    (hclear : ∀ p, t.position < p → p < rows * cols → t.cellAt p = .blank) :
    Reads ⟨t.lineFeed, if t.LastRow then start - cols else start⟩ text := by
  have hend : (t.row + 1) * cols = t.position + 1 := by
    rw [Nat.succ_mul, Terminal.position, Nat.add_assoc, hcol]
  by_cases hrow : t.LastRow
  · have hpos := (t.position_lineFeed_of_lastRow hrow).trans hend
    have hcells := t.cellAt_lineFeed_of_lastRow hrow
    have hrows : rows * cols = t.position + 1 := (congrArg (· * cols) hrow).symm.trans hend
    rw [if_pos hrow]
    refine ⟨?_, fun k hk p hp => ?_, fun p hp hlt => ?_⟩
    · dsimp only
      omega
    · dsimp only at hp ⊢
      have hbefore : ((p + cols : Nat) : ℤ) = start + k := by omega
      rw [hcells, if_pos (by omega)]
      exact hshown k hk (p + cols) hbefore
    · dsimp only at hp ⊢
      rw [hcells, if_neg (by omega)]
  · have hpos := (t.position_lineFeed_of_lt hrow).trans hend
    have hcells := t.cellAt_lineFeed_of_lt hrow
    rw [if_neg hrow]
    refine ⟨?_, fun k hk p hp => ?_, fun p hp hlt => ?_⟩
    · dsimp only
      omega
    · exact (hcells p).trans (hshown k hk p hp)
    · dsimp only at hp
      exact (hcells p).trans (hclear p (by omega) hlt)

/-- Text moves on with the cursor, and the rows with the text. -/
theorem Reads.put (h : s.Reads text) (hprint : isPrintable byte = true) :
    (s.feed byte).Reads (text ++ [byte]) := by
  obtain ⟨t, start⟩ := s
  have hcursor := h.cursor
  have hput := h.setCell byte
  have hclear := h.clear_setCell (.glyph byte)
  have hfeed : t.feed byte = t.put byte := by rw [Terminal.feed, if_pos hprint]
  have hlen : (text ++ [byte]).length = text.length + 1 := List.length_append
  dsimp only at hcursor hput hclear
  simp only [feed, hfeed]
  by_cases hwrap : t.col + 1 < cols
  · have hscrolls : ¬t.Scrolls byte := by
      rintro ⟨-, ⟨-, hlast⟩ | rfl⟩
      · exact Nat.ne_of_lt hwrap hlast
      · exact absurd hprint (by decide)
    have hmoved : t.put byte = { t.setCell (.glyph byte) with col := t.col + 1, col_lt := hwrap } :=
      dif_pos hwrap
    rw [if_neg hscrolls, hmoved]
    refine ⟨?_, fun k hk p hp => hput p k hp hk, fun p hp hlt => hclear p hp hlt⟩
    rw [hlen]
    simp only [Terminal.position, Terminal.setCell] at hcursor ⊢
    omega
  · have hlast : t.col + 1 = cols := Nat.le_antisymm t.col_lt (Nat.le_of_not_lt hwrap)
    have hscrolls : t.Scrolls byte ↔ t.LastRow :=
      and_iff_left (.inl ⟨hprint, hlast⟩)
    have hmoved : t.put byte = (t.setCell (.glyph byte)).lineFeed := dif_neg hwrap
    rw [hmoved, if_congr hscrolls rfl rfl]
    apply reads_lineFeed (t := t.setCell (.glyph byte)) hlast
    · rw [hlen]
      change (t.position + 1 : ℤ) = _
      omega
    · exact fun k hk p hp => hput p k hp hk
    · exact hclear

/-- The bytes that take back a character. -/
def ERASE : List UInt8 := [BS, 0x20, BS]

theorem foldl_erase (s : LinePage cols rows) :
    ERASE.foldl feed s =
      ⟨(s.terminal.backspace.put 0x20).backspace,
        if s.terminal.backspace.Scrolls 0x20 then s.start - cols else s.start⟩ := by
  have hbackspace (s : LinePage cols rows) : s.feed BS = ⟨s.terminal.backspace, s.start⟩ := by
    have hscrolls : ¬s.terminal.Scrolls BS := by
      rintro ⟨-, ⟨hprint, -⟩ | hfeed⟩
      · exact absurd hprint (by decide)
      · exact absurd hfeed (by decide)
    rw [feed, if_neg hscrolls]
    rfl
  rw [ERASE, List.foldl_cons, List.foldl_cons, List.foldl_cons, List.foldl_nil, hbackspace,
    hbackspace]
  rfl

/-- Behind the first column, the character before the cursor goes. -/
theorem erase_eq {t : Terminal cols rows} (h : t.col ≠ 0) :
    (t.backspace.put 0x20).backspace = t.backspace ∧ ¬t.backspace.Scrolls 0x20 := by
  have hcol : t.col - 1 + 1 = t.col := Nat.sub_one_add_one h
  have hlt : t.backspace.col + 1 < cols := hcol.symm ▸ t.col_lt
  constructor
  · rw [Terminal.put, dif_pos hlt]
    simp only [Terminal.backspace, Terminal.setCell, Nat.add_sub_cancel, Terminal.mk.injEq, true_and]
    funext c r
    split <;> rfl
  · rintro ⟨-, ⟨-, hlast⟩ | hfeed⟩
    · exact Nat.ne_of_lt hlt hlast
    · exact absurd hfeed (by decide)

theorem Reads.erase (h : s.Reads text) (hcol : s.terminal.col ≠ 0) (hline : text ≠ []) :
    (ERASE.foldl feed s).Reads text.dropLast := by
  obtain ⟨t, start⟩ := s
  obtain ⟨heq, hscrolls⟩ := erase_eq hcol
  have hcursor := h.cursor
  have hlen : text.dropLast.length + 1 = text.length := by
    rw [List.length_dropLast]
    exact Nat.sub_one_add_one (List.length_eq_zero_iff.not.mpr hline)
  have hpos : t.backspace.position + 1 = t.position := by
    have hback : t.col - 1 + 1 = t.col := Nat.sub_one_add_one hcol
    calc t.row * cols + (t.col - 1) + 1 = t.row * cols + (t.col - 1 + 1) := Nat.add_assoc _ _ _
      _ = t.row * cols + t.col := by rw [hback]
  have hcells (p : Nat) : t.backspace.cellAt p =
      if p = t.backspace.position then .blank else t.cellAt p :=
    Terminal.cellAt_setCell _ .blank p
  dsimp only at hcursor
  rw [foldl_erase, heq, if_neg hscrolls]
  refine ⟨?_, fun k hk p hp => ?_, fun p hp hlt => ?_⟩
  · dsimp only
    omega
  · dsimp only at hp ⊢
    rw [hcells, if_neg (by omega), List.getElem_dropLast]
    exact h.shown k (by omega) p hp
  · dsimp only at hp ⊢
    rw [hcells]
    split
    · rfl
    · exact h.clear p (by dsimp only; omega) hlt

theorem position_backspace {t : Terminal cols rows} (h : t.col = 0) :
    t.backspace.position = t.position := by
  change t.row * cols + (t.col - 1) = t.row * cols + t.col
  rw [h]

/-- In the first column the cursor does not go back. -/
theorem Reads.not_erase (h : s.Reads text) (hcol : s.terminal.col = 0) (hline : text ≠ []) :
    ¬(ERASE.foldl feed s).Reads text.dropLast := by
  intro hreads
  obtain ⟨t, start⟩ := s
  have hcursor := h.cursor
  have hafter := hreads.cursor
  have hlen : text.dropLast.length + 1 = text.length := by
    rw [List.length_dropLast]
    exact Nat.sub_one_add_one (List.length_eq_zero_iff.not.mpr hline)
  have hback : t.backspace.position = t.position := position_backspace hcol
  have hzero : t.backspace.col = 0 := congrArg (· - 1) hcol
  rw [foldl_erase] at hafter
  dsimp only at hcursor hafter
  by_cases hwide : t.backspace.col + 1 < cols
  · have hscrolls : ¬t.backspace.Scrolls 0x20 := by
      rintro ⟨-, ⟨-, hlast⟩ | hfeed⟩
      · exact Nat.ne_of_lt hwide hlast
      · exact absurd hfeed (by decide)
    have hpos : (t.backspace.put 0x20).backspace.position = t.backspace.position := by
      rw [Terminal.put, dif_pos hwide]
      rfl
    rw [if_neg hscrolls, hpos] at hafter
    omega
  · have hlast : t.backspace.col + 1 = cols :=
      Nat.le_antisymm t.backspace.col_lt (Nat.le_of_not_lt hwide)
    have hscrolls : t.backspace.Scrolls 0x20 ↔ t.backspace.LastRow :=
      and_iff_left (.inl ⟨by decide, hlast⟩)
    have hend : (t.backspace.row + 1) * cols = t.backspace.position + 1 := by
      rw [Nat.succ_mul, Terminal.position, Nat.add_assoc, hlast]
    have hput : t.backspace.put 0x20 = (t.backspace.setCell (.glyph 0x20)).lineFeed := dif_neg hwide
    have hfeed (t : Terminal cols rows) : t.lineFeed.col = 0 := by
      rw [Terminal.lineFeed]
      split <;> rfl
    rw [hput, position_backspace (hfeed _), if_congr hscrolls rfl rfl] at hafter
    by_cases hrow : t.backspace.LastRow
    · have hpos := (t.backspace.setCell (.glyph 0x20)).position_lineFeed_of_lastRow hrow
      rw [if_pos hrow] at hafter
      have hpos' := hpos.trans hend
      omega
    · have hpos := (t.backspace.setCell (.glyph 0x20)).position_lineFeed_of_lt hrow
      rw [if_neg hrow] at hafter
      have hpos' := hpos.trans hend
      omega

end LinePage

namespace Terminal

variable {t : Terminal cols rows} {byte : UInt8}

theorem Clear.lineFeed (h : t.Clear) : t.lineFeed.Clear := by
  intro p hp hlt
  by_cases hrow : t.LastRow
  · have hpos := t.position_lineFeed_of_lastRow hrow
    have hrows : (t.row + 1) * cols = rows * cols := congrArg (· * cols) hrow
    rw [t.cellAt_lineFeed_of_lastRow hrow, if_neg (by omega)]
  · have hpos := t.position_lineFeed_of_lt hrow
    have hle : t.position ≤ (t.row + 1) * cols := by
      rw [Nat.succ_mul]
      exact Nat.add_le_add_left (Nat.le_of_lt t.col_lt) _
    rw [t.cellAt_lineFeed_of_lt hrow]
    exact h p (by omega) hlt

theorem Clear.backspace (h : t.Clear) : t.backspace.Clear := by
  intro p hp hlt
  have hcells : t.backspace.cellAt p = if p = t.backspace.position then .blank else t.cellAt p :=
    cellAt_setCell _ .blank p
  have hpos : t.position ≤ t.backspace.position + 1 := by
    change t.row * cols + t.col ≤ t.row * cols + (t.col - 1) + 1
    omega
  rw [hcells]
  split
  · rfl
  · exact h p (by omega) hlt

/-- Only a carriage return puts the cursor before what is shown. -/
theorem Clear.feed (h : t.Clear) (hbyte : byte ≠ CR) : (t.feed byte).Clear := by
  by_cases hprint : isPrintable byte = true
  · exact ((LinePage.reads_atCursor h).put hprint).clear
  rw [Terminal.feed, if_neg hprint, if_neg hbyte]
  split
  · exact h.lineFeed
  · split
    · exact h.backspace
    · exact h

theorem Clear.foldl (h : t.Clear) {bytes : List UInt8} (hbytes : CR ∉ bytes) :
    (bytes.foldl Terminal.feed t).Clear := by
  induction bytes generalizing t with
  | nil => exact h
  | cons byte bytes ih =>
      rw [List.mem_cons, not_or] at hbytes
      exact ih (h.feed (Ne.symm hbytes.1)) hbytes.2

end Terminal

end Kruspix.Drivers.Display
