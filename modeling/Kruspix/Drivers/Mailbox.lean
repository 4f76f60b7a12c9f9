import Kruspix.Lib.Transition
import Mathlib.Tactic.SplitIfs

/-!
# The VideoCore mailbox and its two readers

VideoCore writes words into the FIFO of mailbox 0. Two readers move them into
one software queue: `receive`, called in a task by `receive_blocking`, and the
interrupt handler, which may preempt the task between any two of its steps but
not while the task holds the queue lock. A status read, a register read and a
push are steps of their own. While the handler runs, the task does not.

The register does not say what a read of the empty FIFO returns, so such a read
returns any word that the step names.
-/

namespace Kruspix.Drivers.Mailbox

open Lib.Transition

/-- A word of the mailbox register. -/
abbrev Word := BitVec 32

def MBOX_STATUS_EMPTY : Word := 0x40000000#32

/-- The status register of mailbox 0, as far as the readers test it. -/
def getMbox0Status (fifo : List Word) : Word :=
  if fifo.isEmpty then MBOX_STATUS_EMPTY else 0#32

/-- The data register of mailbox 0. A word leaves the FIFO when it is read. -/
def readMbox0 (stale : Word) : List Word → Word × List Word
  | [] => (stale, [])
  | msg :: fifo => (msg, fifo)

/-- The next step of a reader. -/
inductive ReadStep where
  | getStatus
  | readMbox0
  | pushBack (msg : Word)
  deriving DecidableEq, Repr

/-- The next step of the task. `popFront` takes the queue lock, pops and
unlocks; the interrupt handler cannot run inside it. -/
inductive TaskStep where
  | idle
  | receive (next : ReadStep)
  | popFront
  deriving DecidableEq, Repr

/-- The device, the queue and both readers. `written` and `appended` record
what VideoCore wrote and what was pushed; the code does not store them. -/
structure State where
  fifo : List Word
  queue : List Word
  task : TaskStep
  irq : Option ReadStep
  written : List Word
  appended : List Word
  deriving DecidableEq, Repr

/-- What happens next. The two reader events name the word that a read of the
empty FIFO would return. -/
inductive Event where
  | videoCoreWrite (word : Word)
  | receiveBlocking
  | task (stale : Word)
  | preempt
  | handleIrq (stale : Word)
  deriving DecidableEq, Repr

/-- Both queues are empty and nobody reads. -/
def start : State := ⟨[], [], .idle, none, [], []⟩

/-- `self.queue.lock().push_back(msg)`. -/
def State.pushBack (s : State) (msg : Word) : State :=
  { s with queue := s.queue ++ [msg], appended := s.appended ++ [msg] }

/-- One step of `receive_blocking` and the `receive` it calls. -/
def taskStep (s : State) (stale : Word) : Option State :=
  match s.task with
  | .idle => none
  | .receive .getStatus =>
      if getMbox0Status s.fifo &&& MBOX_STATUS_EMPTY ≠ 0 then
        some { s with task := .popFront }
      else
        some { s with task := .receive .readMbox0 }
  | .receive .readMbox0 =>
      let (msg, fifo) := readMbox0 stale s.fifo
      some { s with fifo := fifo, task := .receive (.pushBack msg) }
  | .receive (.pushBack msg) => some { s.pushBack msg with task := .popFront }
  | .popFront =>
      match s.queue with
      | [] => some { s with task := .receive .getStatus }
      | _ :: queue => some { s with queue := queue, task := .idle }

/-- One step of `handle_irq`, which loops until the FIFO is empty. -/
def irqStep (s : State) (stale : Word) : Option State :=
  match s.irq with
  | none => none
  | some .getStatus =>
      if getMbox0Status s.fifo &&& MBOX_STATUS_EMPTY ≠ 0 then
        some { s with irq := none }
      else
        some { s with irq := some .readMbox0 }
  | some .readMbox0 =>
      let (msg, fifo) := readMbox0 stale s.fifo
      some { s with fifo := fifo, irq := some (.pushBack msg) }
  | some (.pushBack msg) => some { s.pushBack msg with irq := some .getStatus }

/-- One event. The task moves only while no handler runs, and handlers do not nest. -/
def step (s : State) : Event → Option State
  | .videoCoreWrite word =>
      some { s with fifo := s.fifo ++ [word], written := s.written ++ [word] }
  | .receiveBlocking =>
      if s.irq = none ∧ s.task = .idle then
        some { s with task := .receive .getStatus }
      else none
  | .task stale => if s.irq = none then taskStep s stale else none
  | .preempt => if s.irq = none then some { s with irq := some .getStatus } else none
  | .handleIrq stale => irqStep s stale

@[simp] theorem status_empty_iff (fifo : List Word) :
    getMbox0Status fifo &&& MBOX_STATUS_EMPTY ≠ 0 ↔ fifo = [] := by
  cases fifo <;> simp [getMbox0Status, MBOX_STATUS_EMPTY]

/-- The word a reader has taken from the FIFO and not pushed yet. -/
def ReadStep.held : ReadStep → List Word
  | .pushBack msg => [msg]
  | _ => []

/-- The messages that a task has taken and not yet put back. -/
def TaskStep.held : TaskStep → List Word
  | .receive next => next.held
  | _ => []

/-- The message that the handler has read and not yet put away. -/
def State.irqHeld (s : State) : List Word := (s.irq.map ReadStep.held).getD []

/-- Every word is pushed once, in the order written, and no other word is:
what was pushed is a prefix of what was written, and all of it once the FIFO
is empty and no reader holds a word. -/
def ExactlyOnce (s : State) : Prop :=
  s.appended <+: s.written ∧
    (s.fifo = [] → s.task.held = [] → s.irqHeld = [] → s.appended = s.written)

/-- The interrupt handler does not get between the status read and the push of
`receive`: it leaves the word that the task is about to read, and pushes
nothing while the task holds a word. -/
def Undisturbed (s : State) : Event → Prop
  | .task _ => s.task = .receive .readMbox0 → s.fifo ≠ []
  | .handleIrq _ => s.irqHeld ≠ [] → s.task.held = []
  | _ => True

instance (s : State) (e : Event) : Decidable (Undisturbed s e) := by
  cases e <;> unfold Undisturbed <;> infer_instance

/-- Every written word is, in order, pushed, held by the task, held by the
handler, or still in the FIFO; the handler only reads a FIFO that is not empty. -/
structure InOrder (s : State) : Prop where
  words : s.written = s.appended ++ s.task.held ++ s.irqHeld ++ s.fifo
  irq_read : s.irq = some .readMbox0 → s.fifo ≠ []

theorem InOrder.exactlyOnce {s : State} (h : InOrder s) : ExactlyOnce s := by
  have hwords := h.words
  constructor
  · exact ⟨s.task.held ++ s.irqHeld ++ s.fifo, by simp [hwords]⟩
  · intro hfifo htask hirq
    simp [hwords, hfifo, htask, hirq]

theorem inOrder_start : InOrder start := ⟨rfl, by simp [start]⟩

/-- A step of the task keeps the order when the handler left its word alone. -/
theorem InOrder.taskStep {s t : State} {stale : Word} (h : InOrder s)
    (hirq : s.irq = none) (hund : s.task = .receive .readMbox0 → s.fifo ≠ [])
    (ht : Mailbox.taskStep s stale = some t) : InOrder t := by
  have hwords := h.words
  simp only [State.irqHeld, hirq, Option.map_none, Option.getD_none, List.append_nil] at hwords
  cases htask : s.task with
  | idle => simp [Mailbox.taskStep, htask] at ht
  | popFront =>
      rw [htask] at hwords
      simp only [Mailbox.taskStep, htask] at ht
      split at ht <;> cases ht <;>
        exact ⟨by simpa [State.irqHeld, hirq, TaskStep.held, ReadStep.held] using hwords,
          by simp [hirq]⟩
  | receive next =>
      rw [htask] at hwords
      cases next with
      | getStatus =>
          simp only [Mailbox.taskStep, htask] at ht
          split_ifs at ht <;> cases ht <;>
            exact ⟨by simpa [State.irqHeld, hirq, TaskStep.held, ReadStep.held] using hwords,
              by simp [hirq]⟩
      | readMbox0 =>
          obtain ⟨msg, fifo, hfifo⟩ := List.exists_cons_of_ne_nil (hund htask)
          simp only [Mailbox.taskStep, htask, hfifo, readMbox0, Option.some.injEq] at ht
          subst ht
          exact ⟨by simpa [State.irqHeld, hirq, TaskStep.held, ReadStep.held, hfifo] using hwords,
            by simp [hirq]⟩
      | pushBack msg =>
          simp only [Mailbox.taskStep, htask, Option.some.injEq] at ht
          subst ht
          exact ⟨by simpa [State.irqHeld, hirq, TaskStep.held, ReadStep.held, State.pushBack]
              using hwords, by simp [State.pushBack, hirq]⟩

/-- A step of the handler keeps the order when the task holds no word at a push. -/
theorem InOrder.irqStep {s t : State} {stale : Word} (h : InOrder s)
    (hund : s.irqHeld ≠ [] → s.task.held = [])
    (ht : Mailbox.irqStep s stale = some t) : InOrder t := by
  have hwords := h.words
  cases hirq : s.irq with
  | none => simp [Mailbox.irqStep, hirq] at ht
  | some next =>
      cases next with
      | getStatus =>
          simp only [Mailbox.irqStep, hirq] at ht
          split_ifs at ht with hempty <;> cases ht
          · exact ⟨by simpa [State.irqHeld, hirq, ReadStep.held] using hwords, by simp⟩
          · rw [status_empty_iff] at hempty
            exact ⟨by simpa [State.irqHeld, hirq, ReadStep.held] using hwords, fun _ => hempty⟩
      | readMbox0 =>
          obtain ⟨msg, fifo, hfifo⟩ := List.exists_cons_of_ne_nil (h.irq_read hirq)
          simp only [Mailbox.irqStep, hirq, hfifo, readMbox0, Option.some.injEq] at ht
          subst ht
          exact ⟨by simpa [State.irqHeld, hirq, ReadStep.held, hfifo] using hwords, by simp⟩
      | pushBack msg =>
          have htask : s.task.held = [] := hund (by simp [State.irqHeld, hirq, ReadStep.held])
          simp only [Mailbox.irqStep, hirq, Option.some.injEq] at ht
          subst ht
          exact ⟨by simpa [State.irqHeld, hirq, ReadStep.held, State.pushBack, htask] using hwords,
            by simp⟩

/-- Every undisturbed step keeps the words in order. -/
theorem InOrder.step {s t : State} (h : InOrder s) (hstep : Step step Undisturbed s t) :
    InOrder t := by
  obtain ⟨e, hund, ht⟩ := hstep
  have hwords := h.words
  cases e with
  | videoCoreWrite word =>
      cases ht
      exact ⟨by simp [hwords, State.irqHeld], fun _ => by simp⟩
  | receiveBlocking =>
      simp only [Mailbox.step] at ht
      split_ifs at ht with hidle
      cases ht
      refine ⟨?_, by simp [hidle.1]⟩
      simpa [hidle.2, TaskStep.held, ReadStep.held, State.irqHeld] using hwords
  | task stale =>
      simp only [Mailbox.step] at ht
      split_ifs at ht with hirq
      exact h.taskStep hirq hund ht
  | preempt =>
      simp only [Mailbox.step] at ht
      split_ifs at ht with hirq
      cases ht
      refine ⟨?_, by simp⟩
      simpa [hirq, State.irqHeld, ReadStep.held] using hwords
  | handleIrq stale => exact h.irqStep hund ht

/-- In every run that leaves `receive` undisturbed, every word reaches the
queue exactly once and in order. -/
theorem undisturbed_exactlyOnce (s : State)
    (h : Reachable (fun s => s = start) (Step step Undisturbed) s) : ExactlyOnce s := by
  refine (h.invariant (P := InOrder) ?_ ?_).exactlyOnce
  · rintro s rfl
    exact inOrder_start
  · intro s t _ hs hst
    exact hs.step hst

/-- A word that arrives while the task waits is received by the task itself. -/
theorem undisturbed_exactlyOnce_receive :
    ExactlyOnce ⟨[], [], .idle, none, [0x18#32], [0x18#32]⟩ := by
  refine undisturbed_exactlyOnce _ ⟨start, rfl, ?_⟩
  exact reflTransGen_of_run [.receiveBlocking, .task 0, .task 0, .videoCoreWrite 0x18,
    .task 0, .task 0, .task 0, .task 0] (by decide)

/-- The handler empties the FIFO after the task has read its status. The task
then reads the empty FIFO and pushes a word that VideoCore never wrote. -/
theorem preempted_receive_not_exactlyOnce :
    ¬ ∀ s, Reachable (fun s => s = start) (Step step fun _ _ => True) s →
      ExactlyOnce s := by
  intro hall
  let s : State := ⟨[], [0x18#32, 0#32], .popFront, none, [0x18#32], [0x18#32, 0#32]⟩
  have hrun : Relation.ReflTransGen (Step step fun _ _ => True) start s := by
    apply reflTransGen_of_run [.videoCoreWrite 0x18, .receiveBlocking, .task 0, .preempt,
      .handleIrq 0, .handleIrq 0, .handleIrq 0, .handleIrq 0, .task 0, .task 0]
    decide
  have hprefix := (hall s ⟨start, rfl, hrun⟩).1
  exact absurd hprefix.length_le (by decide)

end Kruspix.Drivers.Mailbox
