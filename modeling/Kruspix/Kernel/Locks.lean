import Kruspix.Lib.Preemption

/-!
# The locks of the kernel

Every function is the list of what it does to the locks, to the interrupt mask and to
the processor. What it decides by its data is a parameter: how many frames a heap
allocation takes, whether a queue grows, how many words are in the mailbox.
-/

namespace Kruspix.Kernel.Locks

open Lib.Preemption

/-- The locks. A device has its own, and `other` stands for the locks of registries,
terminals, watchdogs and timers, which no interrupt takes. -/
inductive Lock
  | globalHandlers
  | controllers
  | heapManager
  | bootPhysMemManager
  | mailbox
  | mailboxQueue
  | uartBuffer (dev : Nat)
  | usbControl (dev : Nat)
  | usbInterrupt (dev : Nat)
  | keyboardState (dev : Nat)
  | addrLock (index : Nat)
  | newQueue
  | readyQueue
  | terminatedQueue
  | currentTask
  | taskState (tid : Nat)
  | systemConsoles
  | earlyConsole
  | bootConsole
  | fbConsoleState (dev : Nat)
  | other (n : Nat)
  deriving DecidableEq, Repr

/-- What a piece of the kernel does to locks and interrupt masks. -/
abbrev Code := List (Op Lock)

/-- `lock`, until the guard is dropped. -/
def Lock.lock (l : Lock) (body : Code) : Code := .lock l :: (body ++ [.unlock l])

/-- Code with interrupts masked. -/
def withoutIrqFiq (body : Code) : Code := .disable :: (body ++ [.restore])

/-- `lock_irq`, until the guard is dropped. -/
def Lock.lockIrq (l : Lock) (body : Code) : Code := withoutIrqFiq (l.lock body)

/-! ## Memory -/

/-- The lock of a frame that is handed out. -/
def allocFrame : Code := Lock.bootPhysMemManager.lock []

def deallocFrame : Code := Lock.bootPhysMemManager.lock []

/-- `map_page`, which takes a frame for each table that is missing. -/
def mapPage (tables : Nat) : Code := (List.range tables).flatMap fun _ => allocFrame

def allocHeapPage (tables : Nat) : Code := allocFrame ++ mapPage tables

/-- `alloc`, with the missing tables of each page that the heap grows by. -/
def alloc (pages : List Nat) : Code := Lock.heapManager.lock (pages.flatMap allocHeapPage)

def dealloc : Code := Lock.heapManager.lock []

/-- What the heap is asked for: a queue that grows, a box that is dropped. -/
inductive HeapUse
  | alloc (pages : List Nat)
  | dealloc
  deriving DecidableEq, Repr

/-- The locks of one allocation or deallocation. -/
def HeapUse.code : HeapUse → Code
  | .alloc pages => Locks.alloc pages
  | .dealloc => Locks.dealloc

/-- The locks of some uses of the heap. -/
def heap (uses : List HeapUse) : Code := uses.flatMap HeapUse.code

/-! ## Consoles and registers -/

/-- The consoles that a text is written to. -/
inductive Console
  | miniUart
  | fbConsole (dev : Nat)
  deriving DecidableEq, Repr

/-- The `write` of a console. -/
def Console.write : Console → Code
  | .miniUart => []
  | .fbConsole dev => (Lock.fbConsoleState dev).lockIrq []

/-- One call of `console_write_str`. -/
structure ConsoleWrite where
  consoles : List Console
  early : Bool
  deriving DecidableEq, Repr

/-- The locks of one write to the consoles. -/
def ConsoleWrite.code (w : ConsoleWrite) : Code :=
  if w.consoles ≠ [] then Lock.systemConsoles.lockIrq (w.consoles.flatMap Console.write)
  else
    Lock.systemConsoles.lockIrq [] ++
      Lock.earlyConsole.lockIrq (if w.early then [] else Lock.bootConsole.lockIrq [])

/-- The locks of a print. -/
def kprintln (writes : List ConsoleWrite) : Code := writes.flatMap ConsoleWrite.code

/-- `with_reg_lock`. -/
def withRegLock (index : Nat) : Code := withoutIrqFiq ((Lock.addrLock index).lock [])

/-- The locks of some registers. -/
def regs (indices : List Nat) : Code := indices.flatMap withRegLock

/-! ## The scheduler -/

/-- What `schedule` finds: the new tasks, the current task, the first ready task, and
what the heap is asked for when a queue grows. -/
structure Schedule where
  news : List (Nat × List HeapUse)
  current : Nat
  mayContinue : Bool
  isIdle : Bool
  ready : Option Nat
  idle : Nat
  growth : List HeapUse
  deriving DecidableEq, Repr

/-- The locks under which new tasks become ready. -/
def Schedule.prepareNewTasks (c : Schedule) : Code :=
  Lock.newQueue.lock (Lock.readyQueue.lock (c.news.flatMap fun task =>
    (Lock.taskState task.1).lock [] ++ heap task.2))

def Schedule.next (c : Schedule) : Nat := c.ready.getD c.idle

/-- The current task goes on when no other one is ready. -/
def Schedule.stays (c : Schedule) : Bool := c.ready.isNone && c.mayContinue

/-- `schedule`, up to the switch. -/
def Schedule.code (c : Schedule) : Code :=
  c.prepareNewTasks ++ Lock.currentTask.lock [] ++ (Lock.taskState c.current).lock [] ++
    Lock.readyQueue.lock [] ++
    if c.stays then []
    else
      (if c.mayContinue && !c.isIdle then Lock.readyQueue.lock (heap c.growth) else []) ++
        Lock.currentTask.lock [] ++
        (if c.mayContinue then (Lock.taskState c.current).lock [] else []) ++
        (Lock.taskState c.next).lock []

/-- `switch_context`, if another task is to run. -/
def Schedule.switch (c : Schedule) : Code := if c.stays then [] else [.switch c.next]

/-- The locks of a task that yields. -/
def yieldTask (c : Schedule) : Code := .disable :: (c.code ++ c.switch ++ [.restore])

/-- `exit_current` in `terminate_task`. -/
def terminateTask (c : Schedule) (growth : List HeapUse) : Code :=
  .disable :: ((Lock.currentTask.lock [] ++ (Lock.taskState c.current).lock [] ++
    Lock.terminatedQueue.lock (heap growth) ++ c.code) ++ c.switch ++ [.restore])

/-- `add_task` makes a task twice, and drops the first. -/
def addTask (task growth drop : List HeapUse) : Code :=
  heap task ++ withoutIrqFiq (Lock.newQueue.lock (heap task ++ heap growth)) ++ heap drop

def taskId : Code := withoutIrqFiq (Lock.currentTask.lock [])

/-! ## Drivers -/

/-- A transfer is stopped: the registers, the message of a timeout, and if there is a
transfer, its keyboard and what is freed with it. -/
structure Stop where
  regs : List Nat
  message : List ConsoleWrite
  taken : Option (Nat × List HeapUse)
  deriving DecidableEq, Repr

/-- The locks of a stopped interrupt transfer. -/
def Stop.code (stop : Stop) (dev : Nat) : Code :=
  Locks.regs stop.regs ++ kprintln stop.message ++ (Lock.usbInterrupt dev).lockIrq [] ++
    match stop.taken with
    | none => []
    | some (keyboard, frees) =>
        (Lock.keyboardState keyboard).lockIrq [] ++ deallocFrame ++ heap frees

/-- `handle_interrupt_channel_irq`, with the keyboard that gets a report. -/
structure ChannelIrq where
  reads : List Nat
  regs : List Nat
  message : List ConsoleWrite
  report : Option Nat
  stop : Option Stop
  deriving DecidableEq, Repr

/-- The locks of the interrupt of a channel. -/
def ChannelIrq.code (irq : ChannelIrq) (dev : Nat) : Code :=
  Locks.regs irq.reads ++
    (Lock.usbInterrupt dev).lock (Locks.regs irq.regs ++ kprintln irq.message ++
      match irq.report with
      | none => []
      | some keyboard => (Lock.keyboardState keyboard).lock []) ++
    match irq.stop with
    | none => []
    | some stop => stop.code dev

/-- The handlers of interrupts. A controller dispatches what is behind it. -/
inductive Handler
  | controller
  | alarm
  | dma
  | uart (dev : Nat)
  | mailbox (words : List (List HeapUse))
  | usb (dev : Nat) (reads : List Nat) (stops : List Stop) (channel : Option ChannelIrq)
  deriving DecidableEq, Repr

/-- `handle_irq`. -/
def Handler.code : Handler → Code
  | .controller => []
  | .alarm => []
  | .dma => []
  | .uart dev => (Lock.uartBuffer dev).lock []
  | .mailbox words => words.flatMap fun growth => Lock.mailboxQueue.lock (heap growth)
  | .usb dev reads stops channel =>
      regs reads ++ (stops.flatMap fun stop => stop.code dev) ++
        (match channel with
        | none => []
        | some irq => irq.code dev) ++ regs reads

/-- `dispatch_irq`. -/
def dispatchIrq (handler : Handler) : Code := Lock.globalHandlers.lock [] ++ handler.code

/-- The interrupts that are pending, in their order, and the schedule flag. -/
structure Dispatch where
  handlers : List Handler
  schedule : Option Schedule
  deriving DecidableEq, Repr

/-- The locks of an interrupt: its handlers, then the scheduler. -/
def globalIrqDispatch (d : Dispatch) : Code :=
  d.handlers.flatMap dispatchIrq ++
    match d.schedule with
    | none => []
    | some c => yieldTask c

/-! ## What tasks do -/

/-- What tasks are made of, next to computations. -/
inductive Work
  | skip
  | seq (first second : Work)
  | guarded (n : Nat) (irq : Bool) (body : Work)
  | heap (use : HeapUse)
  | allocFrame
  | deallocFrame
  | mapPage (tables : Nat)
  | kprintln (writes : List ConsoleWrite)
  | regs (indices : List Nat)
  | registerHandler
  | registerController (growth : List HeapUse)
  | enableIrq (indices : List Nat)
  | resolveVirq
  | mailboxReady
  | mailboxSend
  | mailboxReceive (growth : List HeapUse)
  | mailboxPop
  | uartRead (dev : Nat) (uses : List HeapUse)
  | keyboardRead (dev : Nat) (uses : List HeapUse)
  | controlTransfer (dev : Nat) (indices : List Nat) (writes : List ConsoleWrite)
  | interruptSection (dev : Nat) (indices : List Nat) (writes : List ConsoleWrite)
      (drops : Bool) (frees : List HeapUse)
  | stopInterrupt (dev : Nat) (stop : Stop)
  | addTask (task growth drop : List HeapUse)
  | taskId

/-- The locks that each piece of work takes, in the order of the calls in the source. A piece may
follow another one or run under a lock of its own, so work of any shape is covered. -/
def Work.code : Work → Code
  | .skip => []
  | .seq first second => first.code ++ second.code
  | .guarded n irq body =>
      if irq then (Lock.other n).lockIrq body.code else (Lock.other n).lock body.code
  | .heap use => use.code
  | .allocFrame => Locks.allocFrame
  | .deallocFrame => Locks.deallocFrame
  | .mapPage tables => Locks.mapPage tables
  | .kprintln writes => Locks.kprintln writes
  | .regs indices => Locks.regs indices
  | .registerHandler => Lock.globalHandlers.lockIrq []
  | .registerController growth => Lock.controllers.lockIrq (Locks.heap growth)
  | .enableIrq indices => Lock.controllers.lockIrq (Locks.regs indices)
  | .resolveVirq => Lock.controllers.lockIrq []
  | .mailboxReady => Lock.mailbox.lockIrq []
  | .mailboxSend => Lock.mailbox.lockIrq []
  | .mailboxReceive growth => Lock.mailboxQueue.lock (Locks.heap growth)
  | .mailboxPop => Lock.mailboxQueue.lock []
  | .uartRead dev uses => (Lock.uartBuffer dev).lockIrq (Locks.heap uses)
  | .keyboardRead dev uses => (Lock.keyboardState dev).lockIrq (Locks.heap uses)
  | .controlTransfer dev indices writes =>
      (Lock.usbControl dev).lock (Locks.regs indices ++ Locks.kprintln writes)
  | .interruptSection dev indices writes drops frees =>
      (Lock.usbInterrupt dev).lockIrq (Locks.regs indices ++ Locks.kprintln writes ++
        if drops then Locks.deallocFrame ++ Locks.heap frees else [])
  | .stopInterrupt dev stop => stop.code dev
  | .addTask task growth drop => Locks.addTask task growth drop
  | .taskId => Locks.taskId

/-- What only the initialisation does, while interrupts are masked. -/
inductive BootWork
  | registerConsole (growth : List HeapUse) (writes : List ConsoleWrite)
  | registerEarlyConsole
  | addrLock (index : Nat)

/-- The locks of the work that is done before the scheduler starts. -/
def BootWork.code : BootWork → Code
  | .registerConsole growth writes =>
      Lock.systemConsoles.lock (heap growth) ++ Lock.earlyConsole.lock [] ++ kprintln writes
  | .registerEarlyConsole => Lock.earlyConsole.lock (Lock.bootConsole.lock [])
  | .addrLock index => (Lock.addrLock index).lock []

/-- What a task is called for: its work, the processor it gives up, and the start. -/
inductive Call
  | work (w : Work)
  | yieldTask (c : Schedule)
  | terminateTask (c : Schedule) (growth : List HeapUse)
  | boot (w : BootWork)
  | localEnableIrqFiq
  | startSched (writes : List ConsoleWrite) (uses : List HeapUse) (first : Nat)

/-- The locks of a call into the kernel. -/
def Call.code : Call → Code
  | .work w => w.code
  | .yieldTask c => Locks.yieldTask c
  | .terminateTask c growth => Locks.terminateTask c growth
  | .boot w => w.code
  | .localEnableIrqFiq => [.enable]
  | .startSched writes uses first =>
      .disable :: (kprintln writes ++ heap uses ++ Lock.globalHandlers.lockIrq [] ++
        Lock.currentTask.lock [] ++ (Lock.taskState first).lock [] ++ [.switch first])

/-- The initialisation registers consoles before it enables interrupts. -/
def Call.needsMask : Call → Bool
  | .boot _ => true
  | _ => false

end Kruspix.Kernel.Locks
