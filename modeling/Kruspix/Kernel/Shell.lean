import Kruspix.Drivers.Watchdog.Bcm2835Pm
import Kruspix.Kernel.Terminal
import Kruspix.Lib.Locking

/-!
# The kernel shell

A line names a command of one of two registries, which gets the other words of the line.
The registry of the modules is locked while one of its commands runs.
-/

namespace Kruspix.Kernel.Shell

open Drivers.Watchdog Lib.Bytes Lib.Locking Terminal Time

/-- The locks that the shell takes. -/
inductive Lock
  | listeners
  | commands
  | watchdogs
  | outputs
  | systemTimer
  | restartHandlers
  | powerOffHandlers
  | watchdog (id : String)
  | rng
  | fbConsole (id : String)
  deriving DecidableEq, Repr

/-- The functions behind the commands. -/
inductive CommandHandler
  | help
  | echo
  | reboot
  | poweroff
  | clear
  | uptime
  | rng
  | watchdog
  | fbstats
  deriving DecidableEq, Repr

/-- A command that the shell knows. -/
structure ShellCommand where
  name : String
  description : String
  handler : CommandHandler
  deriving DecidableEq, Repr

/-- The built-in commands. -/
def COMMAND_REGISTRY : List ShellCommand :=
  [⟨"help", "Display this help message", .help⟩,
    ⟨"echo", "Echo the input arguments", .echo⟩,
    ⟨"reboot", "Reboot the system", .reboot⟩,
    ⟨"poweroff", "Power off the system", .poweroff⟩,
    ⟨"clear", "Clear the terminal screen", .clear⟩]

/-- The system terminal is one of the outputs, and timers have a frequency. The registers of
the random number generator are read one after the other. -/
structure State where
  outputs : List OutputDevice
  terminal : Option Nat
  commands : List ShellCommand
  watchdogs : List WatchdogTimerDevice
  systemTimer : Option Nat
  localAlarm : Option Nat
  rng : Option String
  statusReads : Nat
  dataReads : Nat
  running : Bool

def State.new : State := ⟨[], none, [], [], none, none, none, 0, 0, false⟩

/-- What the registers read, the counter of the system timer, and the counters that `fbstats`
shows. -/
structure Hardware where
  status : Nat → UInt32
  data : Nat → UInt32
  counter : UInt64
  stats : String

/-- The shell takes locks, changes its state, and may panic. -/
abbrev Exec := Prog Lock State

/-! ## The terminal -/

/-- What is written to a framebuffer console is written under its lock. -/
def locked {α : Type} : OutputDevice → Exec α → Exec α
  | .miniUart _ _, x => x
  | .fbConsole dev, x => withLock (.fbConsole dev.id) x

/-- Write bytes to one output. -/
def writeDevice (i : Nat) (bytes : List UInt8) : Exec Unit := do
  match (← get).outputs[i]? with
  | none => pure ()
  | some dev => locked dev (modify fun s => { s with outputs := s.outputs.set i (dev.write bytes) })

/-- Write bytes to all outputs but the primary one. -/
def writeToSecondaryOutputs (primary : Nat) (bytes : List UInt8) : Exec Unit :=
  withLock .outputs do
    let outputs := (← get).outputs
    (List.range outputs.length).forM fun i =>
      if outputs[i]?.map OutputDevice.id ≠ outputs[primary]?.map OutputDevice.id then
        writeDevice i bytes
      else pure ()

/-- The terminal writes to one of the outputs first. -/
structure SystemTerminal where
  output : Nat

/-- A text goes to the primary output, then to the others. -/
def SystemTerminal.write (terminal : SystemTerminal) (text : String) : Exec Unit := do
  writeDevice terminal.output (strBytes text)
  writeToSecondaryOutputs terminal.output (strBytes text)

/-- `if let Some(terminal) = get_system_terminal()`. -/
def withTerminal (f : SystemTerminal → Exec Unit) : Exec Unit := do
  match (← get).terminal with
  | none => pure ()
  | some output => f ⟨output⟩

/-- Texts one after the other. -/
def writeAll (terminal : SystemTerminal) (texts : List String) : Exec Unit :=
  texts.forM terminal.write

/-! ## Timers -/

/-- Both timers count up to this. -/
def MAX_TICKS : Nat := 2 ^ 32 - 1

/-- The counter gets as far as it has to. -/
def busyWait (duration : Duration) : Exec Unit := do
  assert (0 < duration)
  assert (duration < .fromSecs 1)
  let frequency ← withLock .systemTimer do unwrap (← get).systemTimer
  assert (convertDurationToTicks frequency duration < MAX_TICKS)

/-- The time since the start, 0 without a timer. -/
def uptime (hw : Hardware) : Exec Duration :=
  withLock .systemTimer do
    match (← get).systemTimer with
    | none => pure 0
    | some frequency => unwrap (convertTicksToDuration frequency hw.counter.toNat)

/-- `{:03}`. -/
def threeDigits (n : Nat) : String := "".pushn '0' (3 - (toString n).length) ++ toString n

/-- The command `uptime`. -/
def cmdUptime (hw : Hardware) : Exec Unit := do
  let d ← uptime hw
  let text := "System Uptime: " ++ toString d.asSecs ++ "." ++ threeDigits d.subsecMillis ++ " seconds"
  withTerminal fun terminal => terminal.write text

/-! ## Random numbers -/

def UNIT_SIZE : Nat := 4
def RNG_FIFO_SIZE : Nat := 4
def RNG_WAIT_PER_UNIT : Duration := .fromMicros 34
def RETRIES : Nat := 1_000_000 / (RNG_FIFO_SIZE * 34)

/-- The bytes that the status register says are ready. -/
def availableBytes (status : UInt32) : Nat := (status >>> 24).toNat * UNIT_SIZE

/-- Read the status register of the random number generator. -/
def readStatus (hw : Hardware) : Exec Nat := do
  let s ← get
  set { s with statusReads := s.statusReads + 1 }
  return availableBytes (hw.status s.statusReads)

/-- The status is read until there is something or no retry is left. -/
def pollFifo (hw : Hardware) : Nat → Exec Nat
  | 0 => readStatus hw
  | retries + 1 => do
      let available ← readStatus hw
      if available > 0 then return available
      busyWait RNG_WAIT_PER_UNIT
      pollFifo hw retries

def leBytes (word : UInt32) : List UInt8 := (be32Bytes word.toNat).reverse

/-- The number of words for some bytes. -/
def units (bytes : Nat) : Nat := (bytes + UNIT_SIZE - 1) / UNIT_SIZE

/-- The loop over the units of a read. -/
def copyData (hw : Hardware) (bytesToCopy : Nat) : Exec (List UInt8) := do
  let s ← get
  set { s with dataReads := s.dataReads + units bytesToCopy }
  return ((List.range (units bytesToCopy)).flatMap fun i => leBytes (hw.data (s.dataReads + i))).take
    bytesToCopy

/-- `read` into a buffer of this length. -/
def rngRead (hw : Hardware) (len : Nat) (wait : Bool) : Exec (List UInt8) :=
  withLock .rng do
    let available ← pollFifo hw (if wait then RETRIES else 0)
    copyData hw (min available len)

/-- `none` is `Timeout`. -/
def readExact (hw : Hardware) (len : Nat) : Exec (Option (List UInt8)) :=
  if len = 0 then pure (some [])
  else do
    let bytes ← rngRead hw len true
    if bytes.length = 0 then return none
    return (← readExact hw (len - bytes.length)).map (bytes ++ ·)
termination_by len

/-- The command `rng`: eight random bytes, or the note of a timeout. -/
def cmdRng (hw : Hardware) : Exec Unit := do
  let _ ← unwrap (← get).rng
  match ← readExact hw 8 with
  | some bytes =>
      let text := "Random number: " ++ toString (beNat bytes.reverse) ++ "\n"
      withTerminal fun terminal => terminal.write text
  | none => withTerminal fun terminal => terminal.write "Failed to get random number: Timeout\n"

/-! ## Watchdogs -/

def firstWatchdog : Exec WatchdogTimerDevice := do unwrap (← get).watchdogs.head?

/-- Replace the first watchdog. -/
def setFirst (dev : WatchdogTimerDevice) : Exec Unit :=
  modify fun s => { s with watchdogs := s.watchdogs.set 0 dev }

/-- The usage of the command `watchdog`. -/
def printUsage : Exec Unit := withTerminal fun terminal =>
  terminal.write "Usage: watchdog <status|start|stop|set_timeout <seconds>|ack>\n"

/-- `watchdog status`: whether it runs, its limits and its countdown. -/
def watchdogStatus : Exec Unit :=
  withLock .watchdogs do
    let dev ← firstWatchdog
    let countdown ← unwrap dev.getCountdown
    withTerminal fun terminal => do
      writeAll terminal
        ["Watchdog Status: ", if dev.isRunning then "RUNNING" else "STOPPED", "\n",
          "Timeout Settings:\n",
          "  Default: ", toString dev.getDefaultTimeout.asSecs, " seconds\n",
          "  Min: ", toString (Duration.asSecs WatchdogTimerDevice.getMinTimeout), " seconds\n",
          "  Max: ", toString (Duration.asSecs WatchdogTimerDevice.getMaxTimeout), " seconds\n"]
      if dev.isRunning then
        writeAll terminal ["Current Countdown: ", toString countdown.asSecs, " seconds\n"]

/-- `watchdog start`. -/
def watchdogStart : Exec Unit :=
  withLock .watchdogs do
    let dev ← firstWatchdog
    withLock (.watchdog dev.id) (setFirst dev.start)

/-- `watchdog stop`. -/
def watchdogStop : Exec Unit :=
  withLock .watchdogs do
    let dev ← firstWatchdog
    setFirst dev.stop

/-- The range check of the shell. -/
def inRange (secs : Nat) : Prop :=
  Duration.asSecs WatchdogTimerDevice.getMinTimeout ≤ secs ∧
    secs ≤ Duration.asSecs WatchdogTimerDevice.getMaxTimeout

instance (secs : Nat) : Decidable (inRange secs) := inferInstanceAs (Decidable (_ ∧ _))

/-- `watchdog set_timeout`: seconds out of range are refused. -/
def watchdogSetTimeout (secs : Nat) : Exec Unit :=
  withLock .watchdogs do
    let dev ← firstWatchdog
    if ¬inRange secs then
      withTerminal fun terminal => writeAll terminal
        ["Usage: Timeout must be between ",
          toString (Duration.asSecs WatchdogTimerDevice.getMinTimeout), " and ",
          toString (Duration.asSecs WatchdogTimerDevice.getMaxTimeout), " seconds.\n"]
    else setFirst (← unwrap (dev.setTimeout (.fromSecs secs)))

/-- `watchdog ack`. -/
def watchdogAck : Exec Unit :=
  withLock .watchdogs do
    let dev ← firstWatchdog
    setFirst dev.acknowledge

/-- `str::parse::<u64>`. -/
def parseU64 (s : String) : Option Nat :=
  let digits := if s.toList.head? = some '+' then s.toList.tail else s.toList
  if digits = [] ∨ ¬digits.all Char.isDigit then none
  else
    let n := digits.foldl (fun n c => n * 10 + (c.toNat - '0'.toNat)) 0
    if n < 2 ^ 64 then some n else none

/-- The words behind `set_timeout`. -/
def cmdSetTimeout : List String → Exec Unit
  | [arg] =>
      match parseU64 arg with
      | some secs => watchdogSetTimeout secs
      | none => printUsage
  | _ => printUsage

/-- The command `watchdog` with its subcommands. -/
def cmdWatchdog : List String → Exec Unit
  | [] => printUsage
  | sub :: rest =>
      if sub = "status" then watchdogStatus
      else if sub = "start" then watchdogStart
      else if sub = "stop" then watchdogStop
      else if sub = "set_timeout" then cmdSetTimeout rest
      else if sub = "ack" then watchdogAck
      else printUsage

/-! ## The other commands -/

/-- One command in the output of `help`. -/
def helpLine (cmd : ShellCommand) : List String :=
  ["  ", cmd.name] ++ List.replicate (10 - cmd.name.utf8ByteSize) " " ++
    [" - ", cmd.description, "\n"]

/-- The command `help`; `-a` lists the commands of the modules too. -/
def cmdHelp (args : List String) : Exec Unit :=
  withTerminal fun terminal => do
    let showAll := args.contains "-a"
    writeAll terminal ["Kruspix kernel shell commands:\n", "------------------------------\n"]
    writeAll terminal (COMMAND_REGISTRY.flatMap helpLine)
    if showAll then
      withLock .commands do writeAll terminal ((← get).commands.flatMap helpLine)
    writeAll terminal ["------------------------------\n"]
    if !showAll then writeAll terminal ["\nType 'help -a' to see all commands.\n"]

/-- The command `echo`: the arguments with a blank between them. -/
def cmdEcho (args : List String) : Exec Unit :=
  withTerminal fun terminal => do
    args.zipIdx.forM fun (arg, i) => do
      terminal.write arg
      if i < args.length - 1 then terminal.write " "
    terminal.write "\n"

/-- The command `clear`: clear the screen and put the cursor at its top. -/
def cmdClear : Exec Unit := withTerminal fun terminal => terminal.write "\x1B[2J\x1B[H"

/-- A reset, or the halt that the partition stands for, by each of the watchdogs. -/
def resetAll (handlers : Lock) (partition : UInt32) : Exec Unit :=
  withLock handlers do
    (List.range (← get).watchdogs.length).forM fun i => do
      match (← get).watchdogs[i]? with
      | none => pure ()
      | some dev =>
          withLock (.watchdog dev.id) (modify fun s =>
            { s with watchdogs := s.watchdogs.set i (dev.restartWithPartition partition) })
          busyWait (WatchdogTimerDevice.getMinTimeout + .fromMillis 1)

/-- The command `fbstats`. -/
def cmdFbstats (hw : Hardware) (args : List String) : Exec Unit :=
  withTerminal fun terminal =>
    if args.contains "-r" then terminal.write "fbstats reset\n" else terminal.write hw.stats

/-- Execute a command. -/
def CommandHandler.call (hw : Hardware) (args : List String) : CommandHandler → Exec Unit
  | .help => cmdHelp args
  | .echo => cmdEcho args
  | .reboot => resetAll .restartHandlers 0
  | .poweroff => resetAll .powerOffHandlers 63
  | .clear => cmdClear
  | .uptime => cmdUptime hw
  | .rng => cmdRng hw
  | .watchdog => cmdWatchdog args
  | .fbstats => cmdFbstats hw args

/-! ## Lines -/

/-- `char::is_whitespace`. -/
def isWhitespace (c : Char) : Bool :=
  (0x09 ≤ c.toNat && c.toNat ≤ 0x0D) || (0x2000 ≤ c.toNat && c.toNat ≤ 0x200A) ||
    c.toNat ∈ [0x20, 0x85, 0xA0, 0x1680, 0x2028, 0x2029, 0x202F, 0x205F, 0x3000]

/-- The words of a line. -/
def splitWhitespace (line : String) : List String :=
  ((line.toList.splitOnP isWhitespace).filter (· ≠ [])).map String.ofList

/-- The first command with a name. -/
def find (command : String) (commands : List ShellCommand) : Option ShellCommand :=
  commands.find? (·.name = command)

/-- The part of `exec` that looks a command up in the registry of the modules. -/
def execModule (hw : Hardware) (command : String) (args : List String) : Exec Bool :=
  withLock .commands do
    match find command (← get).commands with
    | some cmd =>
        cmd.handler.call hw args
        return true
    | none => return false

/-- Execute a line. A built-in command comes before one of a module, and an unknown one is
reported. -/
def exec (hw : Hardware) (line : String) : Exec Unit := do
  match splitWhitespace line with
  | [] => pure ()
  | command :: args =>
      match find command COMMAND_REGISTRY with
      | some cmd => cmd.handler.call hw args
      | none =>
          if !(← execModule hw command args) then
            withTerminal fun terminal => writeAll terminal
              ["Unknown command: ", command, "\nType 'help -a' for a full list.\n"]

def printPrompt : Exec Unit := withTerminal fun terminal => terminal.write "\nkruspix> "

/-- The part of `on_line` before the prompt. -/
def execBytes (hw : Hardware) (bytes : List UInt8) (terminal : SystemTerminal) : Exec Unit :=
  match str? bytes with
  | some cmd => exec hw cmd
  | none => terminal.write "Error: Invalid UTF-8 input"

/-- A line arrives: it is executed and the prompt is printed. -/
def onLine (hw : Hardware) (bytes : List UInt8) : Exec Unit :=
  withTerminal fun terminal => do
    execBytes hw bytes terminal
    printPrompt

/-! ## The system -/

/-- A timer with a finer resolution takes the place of the system timer. -/
def State.registerGlobalTimer (s : State) (frequency : Nat) : Option State :=
  match s.systemTimer with
  | none => some { s with systemTimer := some frequency }
  | some existing => do
      let resolution ← calcResolution frequency
      let existingResolution ← calcResolution existing
      if resolution < existingResolution then some { s with systemTimer := some frequency }
      else some s

/-- A module adds a command. -/
def State.registerCommand (s : State) (cmd : ShellCommand) : State :=
  { s with commands := s.commands ++ [cmd] }

/-- The command that the framebuffer console registers. -/
def fbstatsCommand : ShellCommand :=
  ⟨"fbstats", "Show framebuffer scroll and DMA stats (-r resets)", .fbstats⟩

def uptimeCommand : ShellCommand := ⟨"uptime", "Show system uptime", .uptime⟩

def rngCommand : ShellCommand := ⟨"rng", "Print a random number", .rng⟩

def watchdogCommand : ShellCommand := ⟨"watchdog", "Watchdog control", .watchdog⟩

/-- The drivers set up devices, the modules and the scheduler start, and lines come in. -/
inductive Event
  | miniUart (id : String)
  | fbConsole (dev : ConsoleDevice)
  | systemTimer (frequency : Nat)
  | genericTimer (frequency : Nat)
  | watchdog (dev : WatchdogTimerDevice) (timeoutSec : Option UInt32)
  | rng (id : String)
  | initModules (output : Nat)
  | startSched
  | registers (i : Nat) (regs : Registers)
  | line (hw : Hardware) (bytes : List UInt8)

/-- There is no system terminal if the output that is chosen is not there. -/
def State.initTerminal (s : State) (output : Nat) : State :=
  { s with terminal := s.terminal.or (if output < s.outputs.length then some output else none) }

/-- The modules register their commands; `rng` only with a generator. -/
def State.initModules (s : State) (output : Nat) : State :=
  let s := (s.initTerminal output).registerCommand uptimeCommand
  let s := if s.rng.isSome then s.registerCommand rngCommand else s
  s.registerCommand watchdogCommand

/-- `none` is a panic, or a lock that is never released. -/
def step (s : State) : Event → Option State
  | .miniUart id => some { s with outputs := s.outputs ++ [.miniUart id []] }
  | .fbConsole dev =>
      let s := if fbstatsCommand ∈ s.commands then s else s.registerCommand fbstatsCommand
      some { s with outputs := s.outputs ++ [.fbConsole dev] }
  | .systemTimer frequency => s.registerGlobalTimer frequency
  | .genericTimer frequency => do
      let s ← s.registerGlobalTimer frequency
      if s.localAlarm.isSome then none else some { s with localAlarm := some frequency }
  | .watchdog dev timeoutSec =>
      some { s with watchdogs := s.watchdogs ++ [dev.globalSetup timeoutSec] }
  | .rng id => some { s with rng := s.rng.or (some id) }
  | .initModules output => some (s.initModules output)
  | .startSched => do
      let frequency ← s.localAlarm
      let _ ← calcResolution frequency
      some { s with running := true }
  | .registers i regs =>
      some { s with watchdogs := s.watchdogs.modify i fun dev => { dev with regs := regs } }
  | .line hw bytes =>
      match onLine hw bytes [.listeners] s with
      | .ok (_, t) => some t
      | .error _ => none

/-- Lines come in once the scheduler runs. -/
def Allowed (s : State) : Event → Prop
  | .line _ _ => s.running = true
  | _ => True

instance (s : State) (e : Event) : Decidable (Allowed s e) := by
  unfold Allowed
  cases e <;> dsimp only <;> infer_instance

end Kruspix.Kernel.Shell
