import Kruspix.Kernel.Shell
import Kruspix.Lib.Transition
import Mathlib.Tactic.SplitIfs

/-!
# Which lines the shell survives

No command waits for a lock that its line holds. A line panics if it needs a watchdog and
there is none, if it sets a timeout of zero seconds, or if it has to wait for a random
number with a timer whose ticks are too short.
-/

namespace Kruspix.Kernel.Shell

open Drivers.Watchdog Lib.Bytes Lib.Locking Lib.Transition Terminal Time

/-- A line changes outputs, watchdogs and registers alone. -/
structure Kept (s t : State) : Prop where
  terminal : t.terminal = s.terminal
  commands : t.commands = s.commands
  systemTimer : t.systemTimer = s.systemTimer
  localAlarm : t.localAlarm = s.localAlarm
  rng : t.rng = s.rng
  running : t.running = s.running

theorem Kept.refl (s : State) : Kept s s := ⟨rfl, rfl, rfl, rfl, rfl, rfl⟩

/-- The program returns, and keeps what a line keeps. -/
def Keeps {α : Type} (s : State) (held : List Lock) (x : Exec α) : Prop :=
  ∀ t, Kept s t → Returns x held t fun _ => Kept s

/-- The locks of the outputs are not held. -/
def Free (held : List Lock) : Prop := .outputs ∉ held ∧ ∀ id, .fbConsole id ∉ held

variable {α β : Type} {s : State} {held : List Lock}

namespace Keeps

theorem pure (a : α) : Keeps s held (Pure.pure a : Exec α) := fun _ ht => .pure ht

theorem bind {x : Exec α} {f : α → Exec β} (hx : Keeps s held x)
    (hf : ∀ a, Keeps s held (f a)) : Keeps s held (x >>= f) :=
  fun t ht => (hx t ht).bind fun a u hu => hf a u hu

/-- The state that is read is the one the program goes on with. -/
theorem get {f : State → Exec β} (hf : ∀ t, Kept s t → Returns (f t) held t fun _ => Kept s) :
    Keeps s held (MonadState.get >>= f) :=
  fun t ht => (Returns.get (Q := fun u v => u = t ∧ v = t) ⟨rfl, rfl⟩).bind fun u v huv => by
    rw [huv.1, huv.2]
    exact hf t ht

theorem forM {l : List α} {g : α → Exec PUnit} (hg : ∀ a ∈ l, Keeps s held (g a)) :
    Keeps s held (l.forM g) :=
  fun _ ht => .forM hg ht

theorem withLock {lock : Lock} {x : Exec α} (hfree : lock ∉ held)
    (hx : Keeps s (lock :: held) x) : Keeps s held (withLock lock x) :=
  fun t ht => (hx t ht).withLock hfree

end Keeps

/-! ## Output -/

theorem Free.cons {lock : Lock} (h : Free held) (houtputs : lock ≠ .outputs)
    (hconsole : ∀ id, lock ≠ .fbConsole id) : Free (lock :: held) :=
  ⟨fun hmem => (List.mem_cons.mp hmem).elim (fun heq => houtputs heq.symm) h.1,
    fun id hmem => (List.mem_cons.mp hmem).elim (fun heq => hconsole id heq.symm) (h.2 id)⟩

theorem writeDevice_keeps (hconsole : ∀ id, .fbConsole id ∉ held) (i : Nat) (bytes : List UInt8) :
    Keeps s held (writeDevice i bytes) := by
  refine .get fun t ht => ?_
  split
  · exact .pure ht
  · rename_i dev hdev
    have hset : Kept s { t with outputs := t.outputs.set i (dev.write bytes) } :=
      ⟨ht.terminal, ht.commands, ht.systemTimer, ht.localAlarm, ht.rng, ht.running⟩
    cases dev with
    | miniUart id sent => exact .modify hset
    | fbConsole dev => exact .withLock (hconsole dev.id) (.modify hset)

theorem writeToSecondaryOutputs_keeps (hfree : Free held) (primary : Nat) (bytes : List UInt8) :
    Keeps s held (writeToSecondaryOutputs primary bytes) := by
  have hconsole (id : String) : .fbConsole id ∉ Lock.outputs :: held := fun hmem =>
    (List.mem_cons.mp hmem).elim (fun heq => nomatch heq) (hfree.2 id)
  refine .withLock hfree.1 (.get fun t ht => ?_)
  refine .forM (fun i _ u hu => ?_) ht
  split
  · exact writeDevice_keeps hconsole i bytes u hu
  · exact .pure hu

theorem write_keeps (hfree : Free held) (terminal : SystemTerminal) (text : String) :
    Keeps s held (terminal.write text) :=
  .bind (writeDevice_keeps hfree.2 _ _) fun _ => writeToSecondaryOutputs_keeps hfree _ _

theorem writeAll_keeps (hfree : Free held) (terminal : SystemTerminal) (texts : List String) :
    Keeps s held (writeAll terminal texts) :=
  .forM fun text _ => write_keeps hfree terminal text

theorem withTerminal_keeps {f : SystemTerminal → Exec Unit}
    (hf : ∀ terminal, Keeps s held (f terminal)) : Keeps s held (withTerminal f) := by
  refine .get fun t ht => ?_
  split
  · exact .pure ht
  · exact hf _ t ht

theorem printUsage_keeps (hfree : Free held) : Keeps s held printUsage :=
  withTerminal_keeps fun terminal => write_keeps hfree terminal _

/-! ## Commands that only print -/

/-- The locks that are held while a line runs, and while a command of a module does. -/
abbrev inLine : List Lock := [.listeners]

abbrev inCommand : List Lock := [.commands, .listeners]

theorem free_inLine : Free inLine := ⟨by decide, fun id => by simp⟩

theorem free_inCommand : Free inCommand := ⟨by decide, fun id => by simp⟩

theorem cmdHelp_keeps (args : List String) : Keeps s inLine (cmdHelp args) := by
  have hprint (held : List Lock) (hfree : Free held) (terminal : SystemTerminal)
      (texts : List String) : Keeps s held (writeAll terminal texts) :=
    writeAll_keeps hfree terminal texts
  refine withTerminal_keeps fun terminal => ?_
  refine .bind (hprint _ free_inLine terminal _) fun _ => ?_
  refine .bind (hprint _ free_inLine terminal _) fun _ => ?_
  have hdynamic : Keeps s inLine
      (withLock .commands do writeAll terminal ((← get).commands.flatMap helpLine)) :=
    .withLock (by decide) (.get fun t ht => hprint _ free_inCommand terminal _ t ht)
  have hend : Keeps s inLine (do
      writeAll terminal ["------------------------------\n"]
      if !args.contains "-a" then
        writeAll terminal ["\nType 'help -a' to see all commands.\n"]) := by
    refine .bind (hprint _ free_inLine terminal _) fun _ => ?_
    split
    · exact hprint _ free_inLine terminal _
    · exact .pure _
  dsimp only
  split
  · exact .bind hdynamic fun _ => hend
  · exact hend

theorem cmdEcho_keeps (args : List String) : Keeps s inLine (cmdEcho args) := by
  refine withTerminal_keeps fun terminal => .bind (.forM fun arg _ => ?_) fun _ =>
    write_keeps free_inLine terminal _
  refine .bind (write_keeps free_inLine terminal _) fun _ => ?_
  split
  · exact write_keeps free_inLine terminal _
  · exact .pure _

theorem cmdClear_keeps : Keeps s inLine cmdClear :=
  withTerminal_keeps fun terminal => write_keeps free_inLine terminal _

theorem cmdFbstats_keeps (hw : Hardware) (args : List String) :
    Keeps s inCommand (cmdFbstats hw args) := by
  refine withTerminal_keeps fun terminal => ?_
  split
  · exact write_keeps free_inCommand terminal _
  · exact write_keeps free_inCommand terminal _

/-! ## Timers -/

theorem cmdUptime_keeps (hw : Hardware) {frequency : Nat} (htimer : s.systemTimer = some frequency)
    (hpos : frequency ≠ 0) : Keeps s inCommand (cmdUptime hw) := by
  refine .bind (.withLock (by decide) (.get fun t ht => ?_)) fun d =>
    withTerminal_keeps fun terminal => write_keeps free_inCommand terminal _
  obtain ⟨d, hd⟩ := convertTicksToDuration_isSome hpos hw.counter.toNat
  rw [ht.systemTimer, htimer]
  dsimp only
  rw [hd]
  exact .pure ht

theorem busyWait_keeps {d : Duration} {frequency : Nat} (hfree : .systemTimer ∉ held)
    (htimer : s.systemTimer = some frequency) (hpos : 0 < d) (hlt : d < Duration.fromSecs 1)
    (hticks : convertDurationToTicks frequency d < MAX_TICKS) : Keeps s held (busyWait d) := by
  rw [busyWait, assert, if_pos hpos, assert, if_pos hlt, pure_bind, pure_bind]
  intro t ht
  refine .bind (Q := fun a u => a = frequency ∧ Kept s u)
    (.withLock hfree ⟨frequency, t, ?_, rfl, ht⟩) fun a u hu => ?_
  · change (unwrap t.systemTimer : Exec Nat) _ t = _
    rw [ht.systemTimer, htimer]
    rfl
  · rw [hu.1, assert, if_pos hticks]
    exact .pure hu.2

theorem busyWait_panics {d : Duration} {frequency : Nat} {t : State} (hfree : .systemTimer ∉ held)
    (htimer : t.systemTimer = some frequency) (hpos : 0 < d) (hlt : d < Duration.fromSecs 1)
    (hticks : ¬convertDurationToTicks frequency d < MAX_TICKS) : Panics (busyWait d) held t := by
  rw [busyWait, assert, if_pos hpos, assert, if_pos hlt, pure_bind, pure_bind]
  refine Returns.bind_panics (Q := fun a u => a = frequency)
    (.withLock hfree ⟨frequency, t, ?_, rfl⟩) fun a u hu => ?_
  · change (unwrap t.systemTimer : Exec Nat) _ t = _
    rw [htimer]
    rfl
  · rw [hu, assert, if_neg hticks]
    rfl

/-! ## Random numbers -/

/-- The ticks of the wait for a random number do not fit into those of the system timer. -/
def Overlong (s : State) : Prop :=
  ∀ frequency ∈ s.systemTimer,
    ¬convertDurationToTicks frequency RNG_WAIT_PER_UNIT < MAX_TICKS

/-- What the status shows when it is read next, and then. -/
def State.available (s : State) (hw : Hardware) (later : Nat) : Nat :=
  availableBytes (hw.status (s.statusReads + later))

/-- The bytes that are there do not suffice, and the wait for more is too long. -/
def RngFails (hw : Hardware) (s : State) : Prop :=
  Overlong s ∧ (s.available hw 0 = 0 ∨ s.available hw 0 = UNIT_SIZE ∧ s.available hw 1 = 0)

theorem availableBytes_cases (status : UInt32) :
    availableBytes status = 0 ∨ availableBytes status = UNIT_SIZE ∨ 8 ≤ availableBytes status := by
  rw [availableBytes, UNIT_SIZE]
  omega

theorem readStatus_keeps (hw : Hardware) : Keeps s held (readStatus hw) := fun _ ht =>
  ⟨_, _, rfl, ⟨ht.terminal, ht.commands, ht.systemTimer, ht.localAlarm, ht.rng, ht.running⟩⟩

theorem pollFifo_keeps (hw : Hardware) {frequency : Nat} (hfree : .systemTimer ∉ held)
    (htimer : s.systemTimer = some frequency)
    (hticks : convertDurationToTicks frequency RNG_WAIT_PER_UNIT < MAX_TICKS) (retries : Nat) :
    Keeps s held (pollFifo hw retries) := by
  induction retries with
  | zero => exact readStatus_keeps hw
  | succ retries ih =>
      refine .bind (readStatus_keeps hw) fun available => ?_
      split
      · exact .pure _
      · exact .bind (busyWait_keeps hfree htimer (by decide) (by decide) hticks) fun _ => ih

/-- The status is read once if it shows something. -/
theorem pollFifo_returns {hw : Hardware} {t : State} (h : t.available hw 0 ≠ 0) (retries : Nat) :
    Returns (pollFifo hw retries) held t fun available u =>
      available = t.available hw 0 ∧ u = { t with statusReads := t.statusReads + 1 } := by
  cases retries with
  | zero => exact ⟨_, _, rfl, rfl, rfl⟩
  | succ retries =>
      refine Returns.bind (Q := fun available u => available = t.available hw 0 ∧
        u = { t with statusReads := t.statusReads + 1 }) ⟨_, _, rfl, rfl, rfl⟩ fun a u hu => ?_
      rw [if_pos (by rw [hu.1]; exact Nat.pos_of_ne_zero h)]
      exact .pure hu

theorem pollFifo_panics {hw : Hardware} {t : State} {frequency : Nat}
    (hfree : .systemTimer ∉ held) (htimer : t.systemTimer = some frequency) (hlong : Overlong t)
    (h : t.available hw 0 = 0) (retries : Nat) :
    Panics (pollFifo hw (retries + 1)) held t := by
  refine Returns.bind_panics (Q := fun available u => available = 0 ∧
    u = { t with statusReads := t.statusReads + 1 }) ⟨_, _, rfl, h, rfl⟩ fun a u hu => ?_
  have hwait : Panics (busyWait RNG_WAIT_PER_UNIT) held
      { t with statusReads := t.statusReads + 1 } :=
    busyWait_panics hfree htimer (by decide) (by decide) (hlong frequency htimer)
  rw [if_neg (by rw [hu.1]; exact Nat.lt_irrefl 0), hu.2]
  exact hwait.bind

theorem copyData_returns {hw : Hardware} {n : Nat} {t : State} {Q : List UInt8 → State → Prop}
    (h : ∀ bytes, bytes.length = n → Q bytes { t with dataReads := t.dataReads + units n }) :
    Returns (copyData hw n) held t Q := by
  refine ⟨_, _, rfl, h _ ?_⟩
  have hlength (l : List Nat) :
      (l.flatMap fun i => leBytes (hw.data (t.dataReads + i))).length = 4 * l.length := by
    induction l with
    | nil => rfl
    | cons i l ih =>
        rw [List.flatMap_cons, List.length_append, ih, List.length_cons, leBytes,
          List.length_reverse, be32Bytes_length]
        omega
  rw [List.length_take, hlength, List.length_range, units, UNIT_SIZE]
  omega

theorem rngRead_keeps (hw : Hardware) (len : Nat) {frequency : Nat}
    (htimer : s.systemTimer = some frequency)
    (hticks : convertDurationToTicks frequency RNG_WAIT_PER_UNIT < MAX_TICKS) :
    Keeps s inCommand (rngRead hw len true) := by
  refine .withLock (by decide) (.bind (pollFifo_keeps hw (by decide) htimer hticks _) fun a => ?_)
  exact fun t ht => copyData_returns fun _ _ =>
    ⟨ht.terminal, ht.commands, ht.systemTimer, ht.localAlarm, ht.rng, ht.running⟩

theorem readExact_keeps (hw : Hardware) (len : Nat) {frequency : Nat}
    (htimer : s.systemTimer = some frequency)
    (hticks : convertDurationToTicks frequency RNG_WAIT_PER_UNIT < MAX_TICKS) :
    Keeps s inCommand (readExact hw len) := by
  induction len using Nat.strongRecOn with
  | _ len ih =>
      rw [readExact]
      split
      · exact .pure _
      · refine .bind (rngRead_keeps hw len htimer hticks) fun bytes => ?_
        split
        · exact .pure _
        · exact .bind (ih _ (by omega)) fun _ => .pure _

/-- What is there is read without a wait. -/
theorem rngRead_returns {hw : Hardware} {t : State} (len : Nat) (h : t.available hw 0 ≠ 0) :
    Returns (rngRead hw len true) inCommand t fun bytes u =>
      bytes.length = min (t.available hw 0) len ∧
        u = { t with statusReads := t.statusReads + 1, dataReads := u.dataReads } := by
  refine .withLock (by decide) ((pollFifo_returns h _).bind fun available u hu => ?_)
  rw [hu.1, hu.2]
  exact copyData_returns fun bytes hbytes => ⟨hbytes, rfl⟩

theorem rngRead_panics {hw : Hardware} {t : State} {frequency : Nat} (len : Nat)
    (htimer : t.systemTimer = some frequency) (hlong : Overlong t) (h : t.available hw 0 = 0) :
    Panics (rngRead hw len true) inCommand t :=
  .withLock (by decide) (pollFifo_panics (by decide) htimer hlong h (RETRIES - 1)).bind

/-- What is read is there, or there is a second read. -/
theorem readExact_panics {hw : Hardware} {frequency : Nat} (htimer : s.systemTimer = some frequency)
    (hfails : RngFails hw s) : Panics (readExact hw 8) inCommand s := by
  obtain ⟨hlong, hempty | ⟨hunit, hempty⟩⟩ := hfails
  · rw [readExact, if_neg (by decide)]
    exact (rngRead_panics 8 htimer hlong hempty).bind
  · rw [readExact, if_neg (by decide)]
    have hread : Returns (rngRead hw 8 true) inCommand s _ :=
      rngRead_returns 8 (by rw [hunit]; decide)
    refine hread.bind_panics fun bytes u hu => ?_
    have hlen : bytes.length = 4 := by
      rw [hu.1, hunit]
      rfl
    have hrest : Panics (rngRead hw 4 true) inCommand u := by
      rw [hu.2]
      exact rngRead_panics 4 htimer hlong hempty
    rw [if_neg (by omega), hlen, readExact, if_neg (by decide)]
    exact hrest.bind.bind

theorem readExact_returns {hw : Hardware} (hfails : ¬RngFails hw s) :
    Returns (readExact hw 8) inCommand s fun _ => Kept s := by
  by_cases hlong : Overlong s
  · have hfirst : s.available hw 0 ≠ 0 := fun hempty => hfails ⟨hlong, .inl hempty⟩
    rw [readExact, if_neg (by decide)]
    refine (rngRead_returns 8 hfirst).bind fun bytes u hu => ?_
    have hkept : Kept s u := by
      rw [hu.2]
      exact ⟨rfl, rfl, rfl, rfl, rfl, rfl⟩
    rw [if_neg (by omega)]
    refine Returns.bind (Q := fun _ => Kept s) ?_ fun _ v hv => .pure hv
    rcases (availableBytes_cases _).resolve_left hfirst with hunit | hmore
    · have hlen : bytes.length = 4 := by
        rw [hu.1]
        exact congrArg (min · 8) hunit
      have hsecond : u.available hw 0 ≠ 0 := by
        rw [hu.2]
        exact fun hempty => hfails ⟨hlong, .inr ⟨hunit, hempty⟩⟩
      rw [hlen, readExact, if_neg (by decide)]
      refine (rngRead_returns 4 hsecond).bind fun bytes' v hv => ?_
      have hkept' : Kept s v := by
        rw [hv.2]
        exact ⟨hkept.terminal, hkept.commands, hkept.systemTimer, hkept.localAlarm, hkept.rng,
          hkept.running⟩
      have hlen' : bytes'.length = 4 := by
        have hcases := availableBytes_cases (hw.status (u.statusReads + 0))
        rw [hv.1]
        simp only [State.available, UNIT_SIZE] at hcases hsecond ⊢
        omega
      rw [if_neg (by omega), hlen', readExact, if_pos rfl]
      exact .pure hkept'
    · have hlen : bytes.length = 8 := by
        rw [hu.1]
        exact Nat.min_eq_right hmore
      rw [hlen, readExact, if_pos rfl]
      exact .pure hkept
  · simp only [Overlong, not_forall, not_not] at hlong
    obtain ⟨frequency, hfrequency, hticks⟩ := hlong
    exact readExact_keeps hw 8 hfrequency hticks s (.refl s)

theorem cmdRng_panics {hw : Hardware} {frequency : Nat} (hrng : s.rng.isSome)
    (htimer : s.systemTimer = some frequency) (hfails : RngFails hw s) :
    Panics (cmdRng hw) inCommand s := by
  obtain ⟨id, hid⟩ := Option.isSome_iff_exists.mp hrng
  refine Returns.bind_panics (Q := fun t u => t = s ∧ u = s) ⟨s, s, rfl, rfl, rfl⟩ fun t u hu => ?_
  rw [hu.1, hu.2, hid, unwrap, pure_bind]
  exact (readExact_panics htimer hfails).bind

theorem cmdRng_returns {hw : Hardware} (hrng : s.rng.isSome) (hfails : ¬RngFails hw s) :
    Returns (cmdRng hw) inCommand s fun _ => Kept s := by
  obtain ⟨id, hid⟩ := Option.isSome_iff_exists.mp hrng
  refine Returns.bind (Q := fun t u => t = s ∧ u = s) ⟨s, s, rfl, rfl, rfl⟩ fun t u hu => ?_
  rw [hu.1, hu.2, hid, unwrap, pure_bind]
  refine (readExact_returns hfails).bind fun bytes v hv => ?_
  cases bytes with
  | some bytes =>
      exact withTerminal_keeps (fun terminal => write_keeps free_inCommand terminal _) v hv
  | none => exact withTerminal_keeps (fun terminal => write_keeps free_inCommand terminal _) v hv

/-! ## Watchdogs -/

/-- A watchdog is missing, or would get a timeout of zero seconds. -/
def WatchdogFails (s : State) : List String → Prop
  | [] => False
  | sub :: rest =>
      sub ∈ ["status", "start", "stop", "ack"] ∧ s.watchdogs = [] ∨
        sub = "set_timeout" ∧ ∃ arg secs, rest = [arg] ∧ parseU64 arg = some secs ∧
          (s.watchdogs = [] ∨ secs = 0)

theorem firstWatchdog_panics {f : WatchdogTimerDevice → Exec Unit} (h : s.watchdogs = []) :
    Panics (withLock .watchdogs do f (← firstWatchdog)) inCommand s := by
  refine .withLock (by decide) (Panics.bind ?_)
  change (unwrap s.watchdogs.head? : Exec WatchdogTimerDevice) _ s = _
  rw [h]
  rfl

theorem firstWatchdog_returns {f : WatchdogTimerDevice → Exec Unit} {Q : Unit → State → Prop}
    {dev : WatchdogTimerDevice} (hdev : s.watchdogs.head? = some dev)
    (hf : Returns (f dev) (.watchdogs :: inCommand) s Q) :
    Returns (withLock .watchdogs do f (← firstWatchdog)) inCommand s Q := by
  refine .withLock (by decide) (Returns.bind (Q := fun d t => d = dev ∧ t = s)
    ⟨dev, s, ?_, rfl, rfl⟩ fun d t hd => ?_)
  · change (unwrap s.watchdogs.head? : Exec WatchdogTimerDevice) _ s = _
    rw [hdev]
    rfl
  · rw [hd.1, hd.2]
    exact hf

theorem setFirst_keeps (dev : WatchdogTimerDevice) : Keeps s held (setFirst dev) := fun _ ht =>
  .modify ⟨ht.terminal, ht.commands, ht.systemTimer, ht.localAlarm, ht.rng, ht.running⟩

/-- The commands of a watchdog with a device that is there. -/
theorem watchdog_returns {dev : WatchdogTimerDevice} (hdev : s.watchdogs.head? = some dev) :
    Returns watchdogStatus inCommand s (fun _ => Kept s) ∧
      Returns watchdogStart inCommand s (fun _ => Kept s) ∧
      Returns watchdogStop inCommand s (fun _ => Kept s) ∧
      Returns watchdogAck inCommand s (fun _ => Kept s) := by
  have hfree : Free (.watchdogs :: inCommand) := free_inCommand.cons nofun nofun
  refine ⟨?_, ?_, ?_, ?_⟩
  · obtain ⟨countdown, hcountdown⟩ := dev.getCountdown_isSome
    refine firstWatchdog_returns hdev ?_
    rw [hcountdown, unwrap, pure_bind]
    refine withTerminal_keeps (fun terminal => ?_) s (.refl s)
    refine .bind (writeAll_keeps hfree terminal _) fun _ => ?_
    split
    · exact writeAll_keeps hfree terminal _
    · exact .pure _
  · refine firstWatchdog_returns hdev (.withLock ?_ (setFirst_keeps dev.start s (.refl s)))
    simp
  · exact firstWatchdog_returns hdev (setFirst_keeps dev.stop s (.refl s))
  · exact firstWatchdog_returns hdev (setFirst_keeps dev.acknowledge s (.refl s))

/-- A timeout out of the range is refused, and zero seconds fail. -/
theorem watchdogSetTimeout_returns {dev : WatchdogTimerDevice} {secs : Nat}
    (hdev : s.watchdogs.head? = some dev) (hsecs : secs ≠ 0) :
    Returns (watchdogSetTimeout secs) inCommand s fun _ => Kept s := by
  have hfree : Free (.watchdogs :: inCommand) := free_inCommand.cons nofun nofun
  refine firstWatchdog_returns hdev ?_
  split
  · exact withTerminal_keeps (fun terminal => writeAll_keeps hfree terminal _) s (.refl s)
  · rename_i hrange
    obtain ⟨hmin, hmax⟩ := not_not.mp hrange
    obtain ⟨dev', hdev'⟩ := (dev.setTimeout_isSome_iff hmin hmax).mpr hsecs
    rw [hdev', unwrap, pure_bind]
    exact setFirst_keeps dev' s (.refl s)

theorem watchdogSetTimeout_panics {secs : Nat} (h : s.watchdogs = [] ∨ secs = 0) :
    Panics (watchdogSetTimeout secs) inCommand s := by
  cases hdev : s.watchdogs.head? with
  | none => exact firstWatchdog_panics (List.head?_eq_none_iff.mp hdev)
  | some dev =>
      have hzero : secs = 0 := h.resolve_left fun hnil => by
        rw [hnil] at hdev
        cases hdev
      refine .withLock (by decide) (Returns.bind_panics (Q := fun d t => d = dev ∧ t = s)
        ⟨dev, s, ?_, rfl, rfl⟩ fun d t hd => ?_)
      · change (unwrap s.watchdogs.head? : Exec WatchdogTimerDevice) _ s = _
        rw [hdev]
        rfl
      · rw [hzero, if_neg (by decide)]
        rfl

theorem cmdWatchdog_panics {args : List String} (h : WatchdogFails s args) :
    Panics (cmdWatchdog args) inCommand s := by
  cases args with
  | nil => exact h.elim
  | cons sub rest =>
      rcases h with ⟨hsub, hnone⟩ | ⟨rfl, arg, secs, rfl, hsecs, hfails⟩
      · have hpanics := @firstWatchdog_panics s
        simp only [List.mem_cons, List.not_mem_nil, or_false] at hsub
        rcases hsub with rfl | rfl | rfl | rfl
        · exact hpanics hnone
        · exact hpanics hnone
        · exact hpanics hnone
        · exact hpanics hnone
      · have hset := watchdogSetTimeout_panics hfails
        rw [cmdWatchdog, if_neg (by decide), if_neg (by decide), if_neg (by decide), if_pos rfl,
          cmdSetTimeout, hsecs]
        exact hset

theorem cmdWatchdog_returns {args : List String} (h : ¬WatchdogFails s args) :
    Returns (cmdWatchdog args) inCommand s fun _ => Kept s := by
  have husage := printUsage_keeps free_inCommand s (.refl s)
  cases args with
  | nil => exact husage
  | cons sub rest =>
      have hdev (hsub : sub ∈ ["status", "start", "stop", "ack"]) :
          ∃ dev, s.watchdogs.head? = some dev := by
        cases hhead : s.watchdogs.head? with
        | none => exact absurd (.inl ⟨hsub, List.head?_eq_none_iff.mp hhead⟩) h
        | some dev => exact ⟨dev, rfl⟩
      rw [cmdWatchdog]
      split_ifs with hstatus hstart hstop hset hack
      · obtain ⟨dev, hdev⟩ := hdev (by simp [hstatus])
        exact (watchdog_returns hdev).1
      · obtain ⟨dev, hdev⟩ := hdev (by simp [hstart])
        exact (watchdog_returns hdev).2.1
      · obtain ⟨dev, hdev⟩ := hdev (by simp [hstop])
        exact (watchdog_returns hdev).2.2.1
      · unfold cmdSetTimeout
        split
        · rename_i arg
          split
          · rename_i secs hsecs
            have hok (hbad : s.watchdogs = [] ∨ secs = 0) : False :=
              h (.inr ⟨hset, arg, secs, rfl, hsecs, hbad⟩)
            cases hhead : s.watchdogs.head? with
            | none => exact (hok (.inl (List.head?_eq_none_iff.mp hhead))).elim
            | some dev => exact watchdogSetTimeout_returns hhead fun hzero => hok (.inr hzero)
          · exact husage
        · exact husage
      · obtain ⟨dev, hdev⟩ := hdev (by simp [hack])
        exact (watchdog_returns hdev).2.2.2
      · exact husage

end Kruspix.Kernel.Shell
