import Kruspix.Kernel.ShellSafety

/-!
# Lines in every run

When a line comes in, the scheduler has started with the alarm of a timer, so there is a
system timer that counts.
-/

namespace Kruspix.Kernel.Shell

open Drivers.Watchdog Lib.Bytes Lib.Locking Lib.Transition Terminal Time

variable {α β : Type} {s : State} {held : List Lock} {hw : Hardware}

/-! ## Programs that return or panic -/

/-- The program waits for no lock, and keeps what a line keeps if it returns. -/
def Settles (s : State) (held : List Lock) (x : Exec α) : Prop :=
  ∀ t, Kept s t → Returns x held t (fun _ => Kept s) ∨ Panics x held t

theorem Keeps.settles {x : Exec α} (h : Keeps s held x) : Settles s held x :=
  fun t ht => .inl (h t ht)

namespace Settles

theorem bind {x : Exec α} {f : α → Exec β} (hx : Settles s held x)
    (hf : ∀ a, Settles s held (f a)) : Settles s held (x >>= f) := by
  intro t ht
  rcases hx t ht with hreturns | hpanics
  · obtain ⟨a, u, hxa, hu⟩ := hreturns
    have hthen : Returns x held t fun b v => b = a ∧ v = u := ⟨a, u, hxa, rfl, rfl⟩
    rcases hf a u hu with hreturns | hpanics
    · refine .inl (hthen.bind fun b v hbv => ?_)
      rw [hbv.1, hbv.2]
      exact hreturns
    · refine .inr (hthen.bind_panics fun b v hbv => ?_)
      rw [hbv.1, hbv.2]
      exact hpanics
  · exact .inr hpanics.bind

theorem withLock {lock : Lock} {x : Exec α} (hfree : lock ∉ held)
    (hx : Settles s (lock :: held) x) : Settles s held (withLock lock x) := fun t ht =>
  (hx t ht).imp (Returns.withLock hfree) (Panics.withLock hfree)

theorem forM {l : List α} {g : α → Exec PUnit} (hg : ∀ a ∈ l, Settles s held (g a)) :
    Settles s held (l.forM g) := by
  induction l with
  | nil => exact (Keeps.pure _).settles
  | cons a l ih =>
      exact bind (hg a List.mem_cons_self) fun _ => ih fun b hb => hg b (List.mem_cons_of_mem a hb)

theorem get {f : State → Exec β} (hf : ∀ t, Settles s held (f t)) :
    Settles s held (MonadState.get >>= f) :=
  bind (fun t ht => .inl ⟨t, t, rfl, ht⟩) hf

theorem unwrap (a : Option α) : Settles s held (Lib.Locking.unwrap a) := by
  cases a with
  | none => exact fun _ _ => .inr rfl
  | some a => exact (Keeps.pure a).settles

theorem assert (p : Prop) [Decidable p] : Settles s held (Lib.Locking.assert p) := by
  by_cases h : p
  · rw [Lib.Locking.assert, if_pos h]
    exact (Keeps.pure ()).settles
  · rw [Lib.Locking.assert, if_neg h]
    exact fun _ _ => .inr rfl

end Settles

theorem busyWait_settles (hfree : .systemTimer ∉ held) (d : Duration) :
    Settles s held (busyWait d) :=
  .bind (.assert _) fun _ => .bind (.assert _) fun _ =>
    .bind (.withLock hfree (.get fun _ => .unwrap _)) fun _ => .assert _

theorem resetAll_settles {handlers : Lock} (hhandlers : handlers = .restartHandlers ∨
    handlers = .powerOffHandlers) (partition : UInt32) :
    Settles s inLine (resetAll handlers partition) := by
  have hlock (id : String) : handlers ∉ inLine ∧ .watchdog id ∉ handlers :: inLine ∧
      .systemTimer ∉ handlers :: inLine := by
    rcases hhandlers with rfl | rfl
    · simp
    · simp
  refine .withLock (hlock "").1 (.get fun t => .forM fun i _ => .get fun u => ?_)
  split
  · exact (Keeps.pure _).settles
  · rename_i dev _
    refine .bind (.withLock (hlock dev.id).2.1 fun v hv => .inl (.modify ?_)) fun _ =>
      busyWait_settles (hlock "").2.2 _
    exact ⟨hv.terminal, hv.commands, hv.systemTimer, hv.localAlarm, hv.rng, hv.running⟩

/-! ## Lines -/

/-- What the registrations of a run lead to. -/
structure Inv (s : State) : Prop where
  handlers : ∀ cmd ∈ s.commands, cmd.handler = .uptime ∨ cmd.handler = .fbstats ∨
    cmd.handler = .watchdog ∨ cmd.handler = .rng ∧ s.rng.isSome
  timer : ∀ frequency, s.localAlarm = some frequency →
    ∃ timer, s.systemTimer = some timer ∧ (timer = 0 → frequency = 0)
  running : s.running = true → ∃ frequency, s.localAlarm = some frequency ∧ frequency ≠ 0

theorem Inv.systemTimer (h : Inv s) (hrunning : s.running = true) :
    ∃ timer, s.systemTimer = some timer ∧ timer ≠ 0 := by
  obtain ⟨frequency, halarm, hpos⟩ := h.running hrunning
  obtain ⟨timer, htimer, hzero⟩ := h.timer frequency halarm
  exact ⟨timer, htimer, fun h => hpos (hzero h)⟩

/-- The inputs on which a command of a module fails. -/
def CommandFails (hw : Hardware) (s : State) (args : List String) : CommandHandler → Prop
  | .watchdog => WatchdogFails s args
  | .rng => RngFails hw s
  | _ => False

theorem call_returns (h : Inv s) (hrunning : s.running = true) {cmd : ShellCommand}
    (hcmd : cmd ∈ s.commands) {args : List String} (hok : ¬CommandFails hw s args cmd.handler) :
    Returns (cmd.handler.call hw args) inCommand s fun _ => Kept s := by
  obtain ⟨timer, htimer, hpos⟩ := h.systemTimer hrunning
  rcases h.handlers cmd hcmd with heq | heq | heq | ⟨heq, hrng⟩
  · rw [heq]
    exact cmdUptime_keeps hw htimer hpos s (.refl s)
  · rw [heq]
    exact cmdFbstats_keeps hw args s (.refl s)
  · rw [heq] at hok ⊢
    exact cmdWatchdog_returns hok
  · rw [heq] at hok ⊢
    exact cmdRng_returns hrng hok

theorem call_panics (h : Inv s) (hrunning : s.running = true) {cmd : ShellCommand}
    (hcmd : cmd ∈ s.commands) {args : List String} (hfails : CommandFails hw s args cmd.handler) :
    Panics (cmd.handler.call hw args) inCommand s := by
  obtain ⟨timer, htimer, -⟩ := h.systemTimer hrunning
  rcases h.handlers cmd hcmd with heq | heq | heq | ⟨heq, hrng⟩
  · rw [heq] at hfails
    exact hfails.elim
  · rw [heq] at hfails
    exact hfails.elim
  · rw [heq] at hfails ⊢
    exact cmdWatchdog_panics hfails
  · rw [heq] at hfails ⊢
    exact cmdRng_panics hrng htimer hfails

/-- A line of a command that is no reset. -/
def Harmless (line : String) : Prop :=
  ∀ command ∈ (splitWhitespace line).head?, command ≠ "reboot" ∧ command ≠ "poweroff"

/-- The shell hands a line over to this command of a module. -/
def Dispatches (s : State) (line : String) (cmd : ShellCommand) (args : List String) : Prop :=
  ∃ command, splitWhitespace line = command :: args ∧ find command COMMAND_REGISTRY = none ∧
    find command s.commands = some cmd

/-- The lines that fail. -/
def LineFails (hw : Hardware) (s : State) (line : String) : Prop :=
  ∃ cmd args, Dispatches s line cmd args ∧ CommandFails hw s args cmd.handler

theorem name_of_find {command : String} {cmds : List ShellCommand} {cmd : ShellCommand}
    (h : find command cmds = some cmd) : cmd.name = command := by
  have hfound := List.find?_some h
  exact of_decide_eq_true hfound

/-- The commands of the shell itself. -/
theorem builtin_keeps {command : String} {cmd : ShellCommand} (args : List String)
    (hcmd : find command COMMAND_REGISTRY = some cmd) (hreboot : command ≠ "reboot")
    (hpoweroff : command ≠ "poweroff") : Keeps s inLine (cmd.handler.call hw args) := by
  have hname := name_of_find hcmd
  have hmem := List.mem_of_find?_eq_some hcmd
  simp only [COMMAND_REGISTRY, List.mem_cons, List.not_mem_nil, or_false] at hmem
  rcases hmem with rfl | rfl | rfl | rfl | rfl
  · exact cmdHelp_keeps args
  · exact cmdEcho_keeps args
  · exact absurd hname.symm hreboot
  · exact absurd hname.symm hpoweroff
  · exact cmdClear_keeps

theorem builtin_settles {command : String} {cmd : ShellCommand} (args : List String)
    (hcmd : find command COMMAND_REGISTRY = some cmd) :
    Settles s inLine (cmd.handler.call hw args) := by
  have hmem := List.mem_of_find?_eq_some hcmd
  simp only [COMMAND_REGISTRY, List.mem_cons, List.not_mem_nil, or_false] at hmem
  rcases hmem with rfl | rfl | rfl | rfl | rfl
  · exact (cmdHelp_keeps args).settles
  · exact (cmdEcho_keeps args).settles
  · exact resetAll_settles (.inl rfl) 0
  · exact resetAll_settles (.inr rfl) 63
  · exact cmdClear_keeps.settles

theorem execModule_returns (h : Inv s) (hrunning : s.running = true) {command : String}
    {args : List String} (hok : ∀ cmd, find command s.commands = some cmd →
      ¬CommandFails hw s args cmd.handler) :
    Returns (execModule hw command args) inLine s fun _ => Kept s := by
  refine .withLock (by decide) (Returns.bind (Q := fun t u => t = s ∧ u = s)
    ⟨s, s, rfl, rfl, rfl⟩ fun t u hu => ?_)
  rw [hu.1, hu.2]
  cases hcmd : find command s.commands with
  | none => exact .pure (.refl s)
  | some cmd =>
      exact (call_returns h hrunning (List.mem_of_find?_eq_some hcmd) (hok cmd hcmd)).bind
        fun _ v hv => .pure hv

theorem execModule_panics (h : Inv s) (hrunning : s.running = true) {command : String}
    {args : List String} {cmd : ShellCommand} (hcmd : find command s.commands = some cmd)
    (hfails : CommandFails hw s args cmd.handler) :
    Panics (execModule hw command args) inLine s := by
  refine .withLock (by decide) (Returns.bind_panics (Q := fun t u => t = s ∧ u = s)
    ⟨s, s, rfl, rfl, rfl⟩ fun t u hu => ?_)
  rw [hu.1, hu.2, hcmd]
  exact (call_panics h hrunning (List.mem_of_find?_eq_some hcmd) hfails).bind

theorem exec_cons {line command : String} {args : List String}
    (hline : splitWhitespace line = command :: args)
    (hfind : find command COMMAND_REGISTRY = none) :
    exec hw line = (do
      let found ← execModule hw command args
      if !found then
        withTerminal fun terminal => writeAll terminal
          ["Unknown command: ", command, "\nType 'help -a' for a full list.\n"]) := by
  rw [exec, hline]
  dsimp only
  rw [hfind]

theorem exec_returns (h : Inv s) (hrunning : s.running = true) {line : String}
    (hline : Harmless line) (hok : ¬LineFails hw s line) :
    Returns (exec hw line) inLine s fun _ => Kept s := by
  cases hsplit : splitWhitespace line with
  | nil =>
      rw [exec, hsplit]
      exact .pure (.refl s)
  | cons command args =>
      cases hfind : find command COMMAND_REGISTRY with
      | some cmd =>
          obtain ⟨hreboot, hpoweroff⟩ := hline command (by rw [hsplit]; rfl)
          rw [exec, hsplit]
          dsimp only
          rw [hfind]
          exact builtin_keeps args hfind hreboot hpoweroff s (.refl s)
      | none =>
          rw [exec_cons hsplit hfind]
          refine (execModule_returns h hrunning fun cmd hcmd hfails =>
            hok ⟨cmd, args, ⟨command, hsplit, hfind, hcmd⟩, hfails⟩).bind fun found t ht => ?_
          split
          · exact withTerminal_keeps (fun terminal => writeAll_keeps free_inLine terminal _) t ht
          · exact .pure ht

theorem exec_panics (h : Inv s) (hrunning : s.running = true) {line : String}
    (hfails : LineFails hw s line) : Panics (exec hw line) inLine s := by
  obtain ⟨cmd, args, ⟨command, hsplit, hfind, hcmd⟩, hcommand⟩ := hfails
  rw [exec_cons hsplit hfind]
  exact (execModule_panics h hrunning hcmd hcommand).bind

theorem exec_settles (h : Inv s) (hrunning : s.running = true) (line : String) :
    Returns (exec hw line) inLine s (fun _ => Kept s) ∨ Panics (exec hw line) inLine s := by
  by_cases hfails : LineFails hw s line
  · exact .inr (exec_panics h hrunning hfails)
  · by_cases hline : Harmless line
    · exact .inl (exec_returns h hrunning hline hfails)
    · simp only [Harmless, not_forall] at hline
      obtain ⟨command, hmem, hpower⟩ := hline
      obtain ⟨args, hsplit⟩ : ∃ args, splitWhitespace line = command :: args :=
        List.head?_eq_some_iff.mp hmem
      obtain ⟨cmd, hfind⟩ : ∃ cmd, find command COMMAND_REGISTRY = some cmd := by
        rcases not_and_or.mp hpower with hnot | hnot
        · rw [not_not.mp hnot]
          exact ⟨_, rfl⟩
        · rw [not_not.mp hnot]
          exact ⟨_, rfl⟩
      rw [exec, hsplit]
      dsimp only
      rw [hfind]
      exact builtin_settles args hfind s (.refl s)

/-! ## Runs -/

/-- A line that the shell fails on, if there is a terminal. -/
def Fails (hw : Hardware) (s : State) (bytes : List UInt8) : Prop :=
  s.terminal.isSome ∧ ∃ line, str? bytes = some line ∧ LineFails hw s line

theorem printPrompt_keeps : Keeps s inLine printPrompt :=
  withTerminal_keeps fun terminal => write_keeps free_inLine terminal _

theorem withTerminal_apply (f : SystemTerminal → Exec Unit) :
    withTerminal f held s =
      match s.terminal with
      | none => .ok ((), s)
      | some output => f ⟨output⟩ held s := by
  rw [withTerminal, bind_apply]
  cases hterminal : s.terminal with
  | none =>
      change (match s.terminal with | none => (pure () : Exec Unit) | some output => f ⟨output⟩) held s = _
      rw [hterminal]
      rfl
  | some output =>
      change (match s.terminal with | none => (pure () : Exec Unit) | some output => f ⟨output⟩) held s = _
      rw [hterminal]

theorem onLine_returns (h : Inv s) (hrunning : s.running = true) {bytes : List UInt8}
    (hline : ∀ line ∈ str? bytes, Harmless line) (hok : ¬Fails hw s bytes) :
    Returns (onLine hw bytes) inLine s fun _ => Kept s := by
  rw [Returns, onLine, withTerminal_apply]
  cases hterminal : s.terminal with
  | none => exact ⟨(), s, rfl, .refl s⟩
  | some output =>
      have hexec : Returns (execBytes hw bytes ⟨output⟩) inLine s fun _ => Kept s := by
        rw [execBytes]
        cases hstr : str? bytes with
        | none => exact write_keeps free_inLine _ _ s (.refl s)
        | some line =>
            refine exec_returns h hrunning (hline line hstr) fun hfails => hok ⟨?_, line, hstr, hfails⟩
            rw [hterminal]
            rfl
      exact hexec.bind fun _ t ht => printPrompt_keeps t ht

theorem onLine_panics (h : Inv s) (hrunning : s.running = true) {bytes : List UInt8}
    (hfails : Fails hw s bytes) : Panics (onLine hw bytes) inLine s := by
  obtain ⟨hterminal, line, hstr, hline⟩ := hfails
  obtain ⟨output, houtput⟩ := Option.isSome_iff_exists.mp hterminal
  rw [Panics, onLine, withTerminal_apply, houtput]
  refine Panics.bind ?_
  rw [execBytes, hstr]
  exact exec_panics h hrunning hline

/-- No line waits for a lock that it holds. -/
theorem onLine_settles (h : Inv s) (hrunning : s.running = true) (bytes : List UInt8) :
    Returns (onLine hw bytes) inLine s (fun _ => Kept s) ∨ Panics (onLine hw bytes) inLine s := by
  rw [Returns, Panics, onLine, withTerminal_apply]
  cases hterminal : s.terminal with
  | none => exact .inl ⟨(), s, rfl, .refl s⟩
  | some output =>
      have hexec : Returns (execBytes hw bytes ⟨output⟩) inLine s (fun _ => Kept s) ∨
          Panics (execBytes hw bytes ⟨output⟩) inLine s := by
        rw [execBytes]
        cases hstr : str? bytes with
        | none => exact .inl (write_keeps free_inLine _ _ s (.refl s))
        | some line => exact exec_settles h hrunning line
      exact hexec.imp (fun hreturns => hreturns.bind fun _ t ht => printPrompt_keeps t ht)
        fun hpanics => hpanics.bind

theorem Kept.inv {t : State} (h : Kept s t) (hs : Inv s) : Inv t where
  handlers := by
    rw [h.commands, h.rng]
    exact hs.handlers
  timer := by
    rw [h.localAlarm, h.systemTimer]
    exact hs.timer
  running := by
    rw [h.running, h.localAlarm]
    exact hs.running

/-- A second timer is compared with the first one, and neither has a frequency of zero. -/
theorem registerGlobalTimer_cases {t : State} {frequency : Nat}
    (h : s.registerGlobalTimer frequency = some t) :
    ∃ timer, t = { s with systemTimer := some timer } ∧
      (timer = frequency ∧ s.systemTimer = none ∨ timer ≠ 0) := by
  rw [State.registerGlobalTimer] at h
  cases htimer : s.systemTimer with
  | none =>
      rw [htimer] at h
      cases h
      exact ⟨frequency, rfl, .inl ⟨rfl, rfl⟩⟩
  | some existing =>
      rw [htimer] at h
      obtain ⟨resolution, hresolution, h⟩ := Option.bind_eq_some_iff.mp h
      obtain ⟨existingResolution, hexisting, h⟩ := Option.bind_eq_some_iff.mp h
      have hne : frequency ≠ 0 := fun hzero => by
        rw [calcResolution_eq_none.mpr hzero] at hresolution
        cases hresolution
      have hexistingNe : existing ≠ 0 := fun hzero => by
        rw [calcResolution_eq_none.mpr hzero] at hexisting
        cases hexisting
      split at h
      · cases h
        exact ⟨frequency, rfl, .inr hne⟩
      · cases h
        refine ⟨existing, ?_, .inr hexistingNe⟩
        rw [← htimer]

theorem Inv.registerGlobalTimer {t : State} {frequency : Nat} (hs : Inv s)
    (h : s.registerGlobalTimer frequency = some t) : Inv t := by
  obtain ⟨timer, rfl, htimer⟩ := registerGlobalTimer_cases h
  refine ⟨hs.handlers, fun alarm halarm => ⟨timer, rfl, fun hzero => ?_⟩, hs.running⟩
  obtain ⟨old, hold, -⟩ := hs.timer alarm halarm
  rcases htimer with ⟨-, hnone⟩ | hne
  · rw [hold] at hnone
    cases hnone
  · exact absurd hzero hne

theorem Inv.registerCommand {cmd : ShellCommand} (hs : Inv s)
    (hcmd : cmd.handler = .uptime ∨ cmd.handler = .fbstats ∨ cmd.handler = .watchdog ∨
      cmd.handler = .rng ∧ s.rng.isSome) : Inv (s.registerCommand cmd) := by
  refine ⟨fun c hc => ?_, hs.timer, hs.running⟩
  rcases List.mem_append.mp hc with hmem | hmem
  · exact hs.handlers c hmem
  · rw [List.mem_singleton.mp hmem]
    exact hcmd

theorem Inv.initModules (hs : Inv s) (output : Nat) : Inv (s.initModules output) := by
  have hterminal : Inv (s.initTerminal output) := ⟨hs.handlers, hs.timer, hs.running⟩
  have huptime : Inv ((s.initTerminal output).registerCommand uptimeCommand) :=
    hterminal.registerCommand (.inl rfl)
  rw [State.initModules]
  by_cases hrng : ((s.initTerminal output).registerCommand uptimeCommand).rng.isSome
  · rw [if_pos hrng]
    exact (huptime.registerCommand (.inr (.inr (.inr ⟨rfl, hrng⟩)))).registerCommand
      (.inr (.inr (.inl rfl)))
  · rw [if_neg hrng]
    exact huptime.registerCommand (.inr (.inr (.inl rfl)))

theorem Inv.step {t : State} {e : Event} (hs : Inv s) (hallowed : Allowed s e)
    (ht : step s e = some t) : Inv t := by
  cases e with
  | miniUart id =>
      cases ht
      exact ⟨hs.handlers, hs.timer, hs.running⟩
  | fbConsole dev =>
      cases ht
      split
      · exact ⟨hs.handlers, hs.timer, hs.running⟩
      · have hregistered : Inv (s.registerCommand fbstatsCommand) :=
          hs.registerCommand (.inr (.inl rfl))
        exact ⟨hregistered.handlers, hregistered.timer, hregistered.running⟩
  | systemTimer frequency => exact hs.registerGlobalTimer ht
  | genericTimer frequency =>
      obtain ⟨u, hu, ht⟩ := Option.bind_eq_some_iff.mp ht
      obtain ⟨timer, rfl, htimer⟩ := registerGlobalTimer_cases hu
      split at ht
      · cases ht
      · rename_i hnone
        cases ht
        refine ⟨hs.handlers, fun alarm halarm => ⟨timer, rfl, fun hzero => ?_⟩, fun hrunning => ?_⟩
        · cases halarm
          exact (htimer.resolve_right (not_not.mpr hzero)).1 ▸ hzero
        · obtain ⟨old, hold, -⟩ := hs.running hrunning
          rw [hold] at hnone
          exact absurd rfl hnone
  | watchdog dev timeoutSec =>
      cases ht
      exact ⟨hs.handlers, hs.timer, hs.running⟩
  | rng id =>
      cases ht
      refine ⟨fun cmd hcmd => ?_, hs.timer, hs.running⟩
      refine (hs.handlers cmd hcmd).imp_right (Or.imp_right (Or.imp_right fun hrng => ⟨hrng.1, ?_⟩))
      rw [Option.isSome_or, hrng.2, Bool.true_or]
  | initModules output =>
      cases ht
      exact hs.initModules output
  | startSched =>
      obtain ⟨frequency, halarm, ht⟩ := Option.bind_eq_some_iff.mp ht
      obtain ⟨resolution, hresolution, ht⟩ := Option.bind_eq_some_iff.mp ht
      cases ht
      refine ⟨hs.handlers, hs.timer, fun _ => ⟨frequency, halarm, fun hzero => ?_⟩⟩
      rw [calcResolution_eq_none.mpr hzero] at hresolution
      cases hresolution
  | registers i regs =>
      cases ht
      exact ⟨hs.handlers, hs.timer, hs.running⟩
  | line hw bytes =>
      rcases @onLine_settles s hw hs hallowed bytes with ⟨⟨⟩, u, hu, hkept⟩ | hpanics
      · rw [Shell.step, hu] at ht
        cases ht
        exact hkept.inv hs
      · rw [Shell.step, hpanics] at ht
        cases ht

/-- The states that registrations and lines lead to. -/
def Reached (s : State) : Prop := Reachable (fun s => s = State.new) (Step step Allowed) s

theorem Reached.inv (h : Reached s) : Inv s := by
  refine Reachable.invariant ?_ (fun s t _ hs hst => ?_) h
  · rintro s rfl
    exact ⟨nofun, nofun, nofun⟩
  · obtain ⟨e, hallowed, ht⟩ := hst
    exact hs.step hallowed ht

/-- The line hands this timeout over to the command of the watchdogs. -/
def Requests (s : State) (bytes : List UInt8) (secs : Nat) : Prop :=
  s.terminal.isSome ∧ ∃ line cmd arg, str? bytes = some line ∧
    Dispatches s line cmd ["set_timeout", arg] ∧ cmd.handler = .watchdog ∧ parseU64 arg = some secs

/-- The line runs to its end, and a timeout that the shell finds in range is accepted. -/
structure Executes (hw : Hardware) (s : State) (bytes : List UInt8) : Prop where
  returns : ∃ t, onLine hw bytes inLine s = .ok ((), t)
  accepted : ∀ secs dev, Requests s bytes secs → s.watchdogs.head? = some dev → inRange secs →
    ∃ dev', dev.setTimeout (.fromSecs secs) = some dev'

/-- The lines that run to their end are those that do not fail on a watchdog or a wait. -/
theorem executes_iff {s : State} (hs : Reached s) (hrunning : s.running = true) (hw : Hardware)
    {bytes : List UInt8} (hline : ∀ line ∈ str? bytes, Harmless line) :
    Executes hw s bytes ↔ ¬Fails hw s bytes := by
  constructor
  · rintro ⟨⟨t, ht⟩, -⟩ hfails
    have hpanics := onLine_panics hs.inv hrunning hfails
    rw [Panics, ht] at hpanics
    cases hpanics
  · intro hok
    obtain ⟨⟨⟩, t, ht, -⟩ := onLine_returns hs.inv hrunning hline hok
    refine ⟨⟨t, ht⟩, fun secs dev hrequest _ hrange => ?_⟩
    obtain ⟨hterminal, line, cmd, arg, hstr, hdispatches, hhandler, hsecs⟩ := hrequest
    refine (dev.setTimeout_isSome_iff hrange.1 hrange.2).mpr fun hzero => ?_
    refine hok ⟨hterminal, line, hstr, cmd, _, hdispatches, ?_⟩
    rw [hhandler]
    exact .inr ⟨rfl, arg, secs, rfl, hsecs, .inr hzero⟩

/-- A system with a serial line and these watchdogs. -/
def boot (watchdogs : List WatchdogTimerDevice) : List Event :=
  [.miniUart "/soc/serial@7e215040", .genericTimer 19_200_000] ++
    watchdogs.map (fun dev => .watchdog dev none) ++ [.initModules 0, .startSched]

def pmWatchdog : WatchdogTimerDevice := .new "/soc/watchdog@7e100000" ⟨0x102, 0, 0⟩

/-- Registers that read as zero. -/
def quiet : Hardware := ⟨fun _ => 0, fun _ => 0, 0, ""⟩

/-- What is seen of a system that has started. -/
structure Booted (watchdogs : List WatchdogTimerDevice) (s : State) : Prop where
  reached : Reached s
  running : s.running = true
  terminal : s.terminal = some 0
  commands : s.commands = [uptimeCommand, watchdogCommand]
  watchdogs : s.watchdogs = watchdogs

theorem exists_booted (watchdogs : List WatchdogTimerDevice)
    (h : watchdogs = [] ∨ watchdogs = [pmWatchdog]) : ∃ s, Booted watchdogs s := by
  have hrun : (run step Allowed State.new (boot watchdogs)).map
      (fun s => (s.running, s.terminal, s.commands, s.watchdogs)) =
      some (true, some 0, [uptimeCommand, watchdogCommand], watchdogs) := by
    rcases h with rfl | rfl
    · decide +kernel
    · decide +kernel
  obtain ⟨s, hs, hend⟩ := Option.map_eq_some_iff.mp hrun
  simp only [Prod.mk.injEq] at hend
  obtain ⟨hrunning, hterminal, hcommands, hwatchdogs⟩ := hend
  exact ⟨s, ⟨State.new, rfl, reflTransGen_of_run _ hs⟩, hrunning, hterminal, hcommands, hwatchdogs⟩

theorem Booted.dispatches {watchdogs : List WatchdogTimerDevice} (h : Booted watchdogs s)
    {line : String} {args : List String} (hline : splitWhitespace line = "watchdog" :: args) :
    Dispatches s line watchdogCommand args :=
  ⟨"watchdog", hline, by decide +kernel, by rw [h.commands]; decide +kernel⟩

/-- A watchdog gets a timeout of ten seconds. -/
theorem executes_setTimeout : ∃ s, s.watchdogs = [pmWatchdog] ∧
    Executes quiet s (strBytes "watchdog set_timeout 10") := by
  obtain ⟨s, hs⟩ := exists_booted [pmWatchdog] (.inr rfl)
  have hsplit : splitWhitespace "watchdog set_timeout 10" = ["watchdog", "set_timeout", "10"] := by
    decide +kernel
  refine ⟨s, hs.watchdogs, (executes_iff hs.reached hs.running quiet fun line hline => ?_).mpr ?_⟩
  · rw [str?_strBytes] at hline
    cases hline
    rw [Harmless, hsplit]
    decide
  · rintro ⟨-, line, hstr, cmd, args, hdispatches, hfails⟩
    rw [str?_strBytes] at hstr
    cases hstr
    obtain ⟨command, hline, -, hcmd⟩ := hdispatches
    rw [hsplit] at hline
    cases hline
    rw [hs.commands] at hcmd
    cases hcmd
    rcases hfails with ⟨hsub, -⟩ | ⟨-, arg, secs, harg, hsecs, hbad⟩
    · revert hsub
      decide
    · cases harg
      have hten : parseU64 "10" = some 10 := by decide +kernel
      cases hten.symm.trans hsecs
      rw [hs.watchdogs] at hbad
      revert hbad
      decide

theorem Booted.not_executes {watchdogs : List WatchdogTimerDevice} (h : Booted watchdogs s)
    {line : String} {args : List String} (hline : splitWhitespace line = "watchdog" :: args)
    (hfails : WatchdogFails s args) : ¬Executes quiet s (strBytes line) := by
  rintro ⟨⟨t, ht⟩, -⟩
  have hpanics : Panics (onLine quiet (strBytes line)) inLine s := by
    refine onLine_panics h.reached.inv h.running ⟨?_, line, str?_strBytes line, _, args,
      h.dispatches hline, hfails⟩
    rw [h.terminal]
    rfl
  rw [Panics, ht] at hpanics
  cases hpanics

/-- There is no watchdog to show the status of, and a watchdog takes no timeout of zero. -/
theorem status_not_executes :
    (∃ s, Reached s ∧ s.running = true ∧ s.watchdogs = [] ∧
      ¬Executes quiet s (strBytes "watchdog status")) ∧
    ∃ s, Reached s ∧ s.running = true ∧ s.watchdogs = [pmWatchdog] ∧
      ¬Executes quiet s (strBytes "watchdog set_timeout 0") := by
  constructor
  · obtain ⟨s, hs⟩ := exists_booted [] (.inl rfl)
    have hsplit : splitWhitespace "watchdog status" = ["watchdog", "status"] := by decide +kernel
    exact ⟨s, hs.reached, hs.running, hs.watchdogs,
      hs.not_executes hsplit (.inl ⟨by decide, hs.watchdogs⟩)⟩
  · obtain ⟨s, hs⟩ := exists_booted [pmWatchdog] (.inr rfl)
    have hsplit : splitWhitespace "watchdog set_timeout 0" = ["watchdog", "set_timeout", "0"] := by
      decide +kernel
    have hzero : parseU64 "0" = some 0 := by decide +kernel
    exact ⟨s, hs.reached, hs.running, hs.watchdogs,
      hs.not_executes hsplit (.inr ⟨rfl, "0", 0, rfl, hzero, .inr rfl⟩)⟩

end Kruspix.Kernel.Shell
