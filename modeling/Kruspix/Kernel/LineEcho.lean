import Kruspix.Drivers.Display.LinePage
import Kruspix.Kernel.LineDiscipline
import Kruspix.Lib.Transition

/-!
# What is seen of a line that is typed

The line discipline echoes what it does to the line. A console follows the echo, so that the line
that a listener will get is what stands before the cursor.
-/

namespace Kruspix.Kernel.LineEcho

open Drivers.Display Drivers.Display.FbConsole LineDiscipline Lib.LineEditing Lib.Transition

variable {cols rows : Nat}

/-- A console and the line discipline that writes to it. -/
structure Session (cols rows : Nat) where
  page : LinePage cols rows
  state : TerminalState

/-- A byte is typed, or others write to the terminal. -/
inductive Event
  | typed (byte : UInt8)
  | write (bytes : List UInt8)

namespace Session

/-- A session at the cursor of a terminal. -/
def start (t : Terminal cols rows) : Session cols rows := ⟨.atCursor t, ⟨[], true⟩⟩

/-- What the console gets. -/
def output (s : Session cols rows) : Event → List UInt8
  | .typed byte => (lineDiscipline s.state byte).writes.flatten
  | .write bytes => bytes

/-- A line starts behind a newline, and behind what is written by others. -/
def step (s : Session cols rows) (e : Event) : Session cols rows :=
  let page := (s.output e).foldl LinePage.feed s.page
  match e with
  | .typed byte =>
      let outcome := lineDiscipline s.state byte
      ⟨if outcome.line.isSome then .atCursor page.terminal else page, outcome.state⟩
  | .write _ => ⟨.atCursor page.terminal, s.state⟩

/-- The bytes that the console gets from a list of events. -/
def written (s : Session cols rows) : List Event → List UInt8
  | [] => []
  | e :: es => s.output e ++ (s.step e).written es

/-- Others write between two lines, plain text and no control sequence. -/
def Quiet (s : Session cols rows) : Event → Prop
  | .typed _ => True
  | .write bytes => s.state.lineBuffer = [] ∧ CR ∉ bytes ∧ ESC ∉ bytes

/-- No character is erased when the cursor is in the first column. -/
def Erasable (s : Session cols rows) : Event → Prop
  | .typed byte => key byte = .erase → s.state.lineBuffer ≠ [] → s.page.terminal.col ≠ 0
  | .write _ => True

/-- The line stands before the cursor. -/
structure Shown (s : Session cols rows) : Prop where
  reads : s.page.Reads s.state.lineBuffer
  echo : s.state.echo = true

variable {s : Session cols rows}

theorem isPrintable_of_key {byte : UInt8} (h : key byte = .put) : isPrintable byte = true := by
  rw [key] at h
  split_ifs at h with hnewline herase hput
  rw [isPrintable, Bool.and_eq_true, decide_eq_true_iff, decide_eq_true_iff]
  exact ⟨hput.1, UInt8.le_iff_toNat_le.mpr (Nat.le_of_lt_succ (UInt8.lt_iff_toNat_lt.mp hput.2))⟩

theorem Shown.step_iff (h : s.Shown) {e : Event} (hquiet : s.Quiet e) :
    (s.step e).Shown ↔ s.Erasable e := by
  obtain ⟨page, lineBuffer, echo⟩ := s
  obtain ⟨hreads, rfl⟩ := h
  dsimp only at hreads
  cases e with
  | write bytes =>
      obtain ⟨hempty, hplain, -⟩ := hquiet
      obtain rfl : lineBuffer = [] := hempty
      refine iff_of_true ⟨LinePage.reads_atCursor ?_, rfl⟩ trivial
      rw [LinePage.terminal_foldl]
      exact hreads.clear.foldl hplain
  | typed byte =>
      simp only [step, output, Erasable]
      cases hkey : key byte with
      | newline =>
          rw [lineDiscipline_newline _ hkey]
          refine iff_of_true ⟨LinePage.reads_atCursor ?_, rfl⟩ nofun
          rw [LinePage.terminal_foldl]
          exact hreads.clear.lineFeed
      | erase =>
          rw [lineDiscipline_erase _ hkey]
          by_cases hline : lineBuffer = []
          · subst hline
            exact iff_of_true ⟨hreads, rfl⟩ fun _ hne => absurd rfl hne
          · rw [if_neg hline]
            by_cases hcol : page.terminal.col = 0
            · refine iff_of_false (fun hshown => ?_) fun herasable => herasable rfl hline hcol
              exact hreads.not_erase hcol hline hshown.reads
            · exact iff_of_true ⟨hreads.erase hcol hline, rfl⟩ fun _ _ => hcol
      | put =>
          rw [lineDiscipline_put _ hkey]
          exact iff_of_true ⟨hreads.put (isPrintable_of_key hkey), rfl⟩ nofun
      | other =>
          rw [lineDiscipline_other _ hkey]
          exact iff_of_true ⟨hreads, rfl⟩ nofun

/-- The echo has no control sequence. -/
theorem esc_notMem_output {e : Event} (hquiet : s.Quiet e) : ESC ∉ s.output e := by
  cases e with
  | write bytes => exact hquiet.2.2
  | typed byte =>
      simp only [output]
      cases hkey : key byte with
      | newline =>
          rw [lineDiscipline_newline _ hkey]
          dsimp only
          cases s.state.echo <;> decide
      | erase =>
          rw [lineDiscipline_erase _ hkey]
          dsimp only
          split
          · exact List.not_mem_nil
          · cases s.state.echo <;> decide
      | put =>
          rw [lineDiscipline_put _ hkey]
          have hprint := isPrintable_of_key hkey
          cases s.state.echo with
          | false => exact List.not_mem_nil
          | true =>
              intro hesc
              rw [← List.mem_singleton.mp hesc] at hprint
              exact absurd hprint (by decide)
      | other =>
          rw [lineDiscipline_other _ hkey]
          exact List.not_mem_nil

theorem esc_notMem_written {es : List Event} (hquiet : Along step Quiet s es) :
    ESC ∉ s.written es := by
  induction es generalizing s with
  | nil => exact List.not_mem_nil
  | cons e es ih =>
      rw [written, List.mem_append, not_or]
      exact ⟨esc_notMem_output hquiet.1, ih hquiet.2⟩

/-- The cells are those of a terminal that gets the same bytes. -/
theorem terminal_step (s : Session cols rows) (e : Event) :
    (s.step e).page.terminal = (s.output e).foldl Terminal.feed s.page.terminal := by
  cases e with
  | write bytes => exact LinePage.terminal_foldl _ _
  | typed byte =>
      rw [← LinePage.terminal_foldl]
      simp only [step]
      split <;> rfl

theorem terminal_foldl (s : Session cols rows) (es : List Event) :
    (es.foldl step s).page.terminal = (s.written es).foldl Terminal.feed s.page.terminal := by
  induction es generalizing s with
  | nil => rfl
  | cons e es ih => rw [List.foldl_cons, ih, terminal_step, written, List.foldl_append]

end Session

theorem passed_of_notMem {bytes : List UInt8} (h : ESC ∉ bytes) :
    AnsiState.normal.passed bytes = bytes := by
  rw [(passed_eq bytes).1]
  induction bytes with
  | nil => exact strip_nil
  | cons byte bytes ih =>
      rw [List.mem_cons, not_or] at h
      rw [strip_byte (Ne.symm h.1), ih h.2]

/-- A console shows what the session says. As long as others write only between two lines, the
line stands before the cursor all along, exactly if no character is erased while the cursor is in
the first column, behind a line that fills its row. -/
theorem shown_along_iff {fb : FrameBuffer} {font : Font} {dma : Nat → Option Engine}
    {con : FbConsole} {t : Terminal cols rows} {es : List Event} (hshows : Shows fb font con t)
    (hnormal : con.state.ansiState = .normal) (hclear : t.Clear)
    (honest : ∀ n, ∀ copy2d ∈ dma n, Honest fb copy2d)
    (hquiet : Along Session.step Session.Quiet (Session.start t) es) :
    (∃ con', FbConsole.write fb dma font con ((Session.start t).written es) = .ok con' ∧
      Shows fb font con' (es.foldl Session.step (Session.start t)).page.terminal) ∧
    ((∀ s ∈ states Session.step (Session.start t) es, s.Shown) ↔
      Along Session.step Session.Erasable (Session.start t) es) := by
  constructor
  · obtain ⟨con', hwrite, hshows'⟩ := hshows.write honest ((Session.start t).written es)
    rw [hnormal, passed_of_notMem (Session.esc_notMem_written hquiet)] at hshows'
    rw [Session.terminal_foldl]
    exact ⟨con', hwrite, hshows'⟩
  · have hstart : (Session.start t).Shown := ⟨LinePage.reads_atCursor hclear, rfl⟩
    exact forall_states_iff_along (fun s e hs hquiet => hs.step_iff hquiet) hstart hquiet

/-- Three text rows of three columns. -/
def narrowFb : FrameBuffer where
  width := 24
  height := 48
  pitch := 96
  busAddr := 0x3C000000
  pitch_dvd := by decide
  width_le := by decide
  bus_lt := by decide

/-- A prompt of two characters. -/
def prompt : Event := .write [0x3E, 0x20]

def narrow : Session 3 3 := .start (.new (by decide) (by decide))

/-- Of two characters the second can be taken back, and a single one cannot. -/
theorem shown_along_iff_narrow :
    (∀ s ∈ states Session.step narrow [prompt, .typed 0x61, .typed 0x62, .typed 0x7F], s.Shown) ∧
    ¬∀ s ∈ states Session.step narrow [prompt, .typed 0x61, .typed 0x7F], s.Shown := by
  obtain ⟨con, -, hnormal, hshows⟩ :=
    @new_shows narrowFb (Vector.replicate (128 * 16) 0x18) (fun _ => 0) (by decide) (by decide)
  have honest : ∀ n, ∀ copy2d ∈ (fun _ : Nat => (none : Option Engine)) n, Honest narrowFb copy2d :=
    nofun
  have hclear : (Terminal.new (by decide) (by decide) : Terminal 3 3).Clear := fun _ _ _ => rfl
  constructor
  · apply (shown_along_iff hshows hnormal hclear honest ?_).2.mpr
    · exact ⟨trivial, nofun, nofun, fun _ _ => by decide, trivial⟩
    · exact ⟨⟨rfl, by decide, by decide⟩, trivial, trivial, trivial, trivial⟩
  · intro hall
    have hquiet : Along Session.step Session.Quiet narrow [prompt, .typed 0x61, .typed 0x7F] :=
      ⟨⟨rfl, by decide, by decide⟩, trivial, trivial, trivial⟩
    have halong := (shown_along_iff hshows hnormal hclear honest hquiet).2.mp hall
    exact halong.2.2.1 rfl (by decide) (by decide)

end Kruspix.Kernel.LineEcho
