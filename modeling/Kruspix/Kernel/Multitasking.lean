import Kruspix.Arch.Context
import Kruspix.Arch.IrqEntry
import Kruspix.Kernel.Sched

/-!
# Tasks on one core

The scheduler chooses the tasks, `switch_context` exchanges their registers and interrupts come
between any two instructions that do not mask them. The code of a task, of its drivers and of the
dispatcher is arbitrary, except that it keeps what belongs to other tasks and to the interrupts
that it has not left.
-/

namespace Kruspix.Kernel.Multitasking

open Arch Arch.Context Lib.A64 Lib.Transition Lib.WordMemory
open Arch.IrqEntry (Symbols Frame Room FRAME_SIZE)
open Sched (Scheduler KERNEL_STACK_SIZE)

/-- The kernel in memory, with the routines that are written in machine code in their places. -/
structure Image where
  code : Code
  irq : Symbols
  switchContext : Word
  loadContext : Word
  entryTrampoline : Word
  terminateTask : Word
  irq_loaded : IrqEntry.Loaded irq code
  switch_at : At code switchContext.toNat Context.switchContext
  switch_fits : switchContext.toNat + 4 * Context.switchContext.length ≤ 2 ^ 64
  load_at : At code loadContext.toNat Context.loadContext
  load_fits : loadContext.toNat + 4 * Context.loadContext.length ≤ 2 ^ 64
  trampoline_at : At code entryTrampoline.toNat Context.entryTrampoline

/-- Where the allocator has placed a task, and its entry. -/
structure Place where
  context : Word
  stack : Word
  entry : Word

namespace Place

/-- The end of the stack; it grows down from here. -/
def stackEnd (p : Place) : Nat := p.stack.toNat + KERNEL_STACK_SIZE

/-- The addresses of the context. -/
def InContext (p : Place) (b : Nat) : Prop :=
  p.context.toNat ≤ b ∧ b < p.context.toNat + ArchContext.SIZE

/-- The live part of the stack of a task that does not run. -/
def InStack (p : Place) (c : ArchContext) (b : Nat) : Prop :=
  c.stackPointer.toNat ≤ b ∧ b < p.stackEnd

/-- The addresses of the context and of the stack. -/
def Holds (p : Place) (b : Nat) : Prop := p.InContext b ∨ (p.stack.toNat ≤ b ∧ b < p.stackEnd)

/-- The stack and the context are in the address space, and do not overlap. -/
structure Fits (p : Place) : Prop where
  region : Region p.context ArchContext.SIZE
  stack : p.stackEnd < 2 ^ 64
  apart : ∀ b, p.InContext b → b < p.stack.toNat ∨ p.stackEnd ≤ b

/-- No byte belongs to both places. -/
def Apart (p q : Place) : Prop := ∀ b, p.Holds b → ¬ q.Holds b

/-- What `Task::new` writes to the context. -/
def initial (image : Image) (p : Place) : ArchContext :=
  .new (p.stack + BitVec.ofNat 64 KERNEL_STACK_SIZE) p.entry image.terminateTask
    image.entryTrampoline

end Place

/-- Where the latest of the frames begins, or else the stack ends. -/
def floor (top : Nat) : List Cpu → Nat
  | [] => top
  | c :: _ => c.sp.toNat - FRAME_SIZE

/-- What interrupts have found is in their frames on the stack. -/
def Frames (m : Words) (top : Nat) : List Cpu → Prop
  | [] => True
  | c :: cs => Room c ∧ c.sp.toNat ≤ floor top cs ∧
      Frame.read m (c.sp.toNat - FRAME_SIZE) = .ofCpu c ∧ Frames m top cs

/-- The stack pointer of a task that is in these interrupts. -/
structure OnStack (p : Place) (cs : List Cpu) (sp : Word) : Prop where
  aligned : sp.toNat % 16 = 0
  low : p.stack.toNat ≤ sp.toNat
  high : sp.toNat ≤ floor p.stackEnd cs

/-- The processor and the scheduler, with a record of what the tasks that do not run have been
stopped with: their context, the memory at that time, and of the states that unfinished
interrupts found, the latest first. -/
structure Machine where
  cpu : Cpu
  sched : Scheduler
  place : Nat → Place
  context : Nat → ArchContext
  memory : Nat → Words
  interrupted : Nat → List Cpu

namespace Machine

def current (m : Machine) : Nat := m.sched.currentTask

/-- What the running code has to keep: the contexts and the live stacks of the other tasks, and
the frames of its own unfinished interrupts. -/
def Foreign (m : Machine) (b : Nat) : Prop :=
  (∃ i < m.sched.tasks.length, i ≠ m.current ∧
      ((m.place i).InContext b ∨ (m.place i).InStack (m.context i) b)) ∨
    ∃ c ∈ m.interrupted m.current, c.sp.toNat - FRAME_SIZE ≤ b ∧ b < c.sp.toNat

/-- What the running code may do. -/
structure Own (m : Machine) (cpu : Cpu) : Prop where
  mem : ∀ b, m.Foreign b → cpu.mem b = m.cpu.mem b
  level : cpu.pstate.el = 1
  vectors : cpu.sys .vbarEl1 = m.cpu.sys .vbarEl1
  onStack : OnStack (m.place m.current) (m.interrupted m.current) cpu.sp

/-- The end of `schedule`, which switches to another task if it has chosen one. -/
def switchTo (image : Image) (m : Machine) (sched : Scheduler) : Option Machine :=
  if sched.currentTask = m.current then some { m with sched := sched }
  else do
    let cpu ← stepN flat image.code 21 m.cpu
    return { m with
      cpu := cpu
      sched := sched
      context := Function.update m.context m.current (ofCpu m.cpu)
      memory := Function.update m.memory m.current m.cpu.mem }

/-- The call of `switch_context` in `schedule`. -/
def Calls (image : Image) (m : Machine) (sched : Scheduler) : Prop :=
  sched.currentTask ≠ m.current → m.cpu.pstate.Masked ∧ m.cpu.pc = image.switchContext ∧
    m.cpu.x 0 = (m.place m.current).context ∧ m.cpu.x 1 = (m.place sched.currentTask).context

end Machine

/-- The steps of the machine. Code that runs for a while is one step. -/
inductive Event
  | run (cpu : Cpu)
  | interrupt
  | irqReturn
  | schedule
  | exitCurrent
  | addTask (p : Place) (cpu : Cpu)

/-- One event of the machine. Task code runs in `run`; the entry and the return of an interrupt
execute the code of the image, 22 and 21 instructions; the scheduler switches to the task it
chooses; a new task starts with the context that its stack gets. -/
def step (image : Image) (m : Machine) : Event → Option Machine
  | .run cpu => some { m with cpu := cpu }
  | .interrupt => do
      let cpu ← stepN flat image.code 22 m.cpu.takeIrq
      return { m with
        cpu := cpu
        interrupted := Function.update m.interrupted m.current
          (m.cpu :: m.interrupted m.current) }
  | .irqReturn => do
      let cpu ← stepN flat image.code 21 m.cpu
      return { m with
        cpu := cpu
        interrupted := Function.update m.interrupted m.current (m.interrupted m.current).tail }
  | .schedule => m.switchTo image m.sched.schedule
  | .exitCurrent => m.switchTo image m.sched.exitCurrent
  | .addTask p cpu => do
      let sched ← m.sched.addTaskFn
      let task := m.sched.tasks.length
      return {
        cpu := cpu
        sched := sched
        place := Function.update m.place task p
        context := Function.update m.context task (p.initial image)
        memory := Function.update m.memory task cpu.mem
        interrupted := Function.update m.interrupted task [] }

/-- An interrupt needs room for its frame on the stack of the task. -/
def Allowed (image : Image) (m : Machine) : Event → Prop
  | .run cpu => m.Own cpu
  | .interrupt => ¬ m.cpu.pstate.Masked ∧
      (m.place m.current).stack.toNat + FRAME_SIZE ≤ m.cpu.sp.toNat
  | .irqReturn => m.cpu.pstate.Masked ∧ m.cpu.pc = image.irq.back ∧
      ∃ c ∈ (m.interrupted m.current).head?, m.cpu.sp.toNat = c.sp.toNat - FRAME_SIZE
  | .schedule => m.Calls image m.sched.schedule
  | .exitCurrent => m.current ≠ m.sched.idleTask ∧ m.Calls image m.sched.exitCurrent
  | .addTask p cpu => m.sched.addTaskFn.isSome ∧ m.Own cpu ∧ p.Fits ∧
      (∀ i < m.sched.tasks.length, p.Apart (m.place i)) ∧
      ArchContext.read cpu.mem p.context.toNat = p.initial image

/-- `Scheduler::start` has loaded the context of the idle task. -/
def Started (image : Image) (m : Machine) : Prop :=
  ∃ cpu : Cpu, cpu.pstate.Masked ∧ cpu.pstate.el = 1 ∧ cpu.sys .vbarEl1 = image.irq.vectors ∧
    cpu.pc = image.loadContext ∧ cpu.x 0 = (m.place 0).context ∧ (m.place 0).Fits ∧
    ArchContext.read cpu.mem (m.place 0).context.toNat = (m.place 0).initial image ∧
    stepN flat image.code 11 cpu = some m.cpu ∧ m.sched = Scheduler.new.start ∧
    m.interrupted 0 = []

/-- The states of a machine that runs. -/
abbrev Running (image : Image) (m : Machine) : Prop :=
  Reachable (Started image) (Step (step image) (Allowed image)) m

end Kruspix.Kernel.Multitasking
