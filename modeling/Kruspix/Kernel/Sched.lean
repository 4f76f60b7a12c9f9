import Kruspix.Lib.Transition
import Mathlib.Data.List.Count
import Mathlib.Data.List.Nodup
import Mathlib.Algebra.Group.Nat.Even
import Mathlib.Tactic.SplitIfs

/-!
# The scheduler

A task is new, ready, running or terminated, and it is in the queue for its
state or it is the current task. The idle task is in no queue; it runs when no
task is ready. All steps run with interrupts masked, so none is cut in two.

Tasks are shared, so a queue holds references, which are positions in the list
of all tasks. Contexts and the switch between them are left out.
-/

namespace Kruspix.Kernel.Sched

open Lib.Transition

def KERNEL_STACK_SIZE : Nat := 0x4000

/-- The states of a task. -/
inductive TaskState
  | new
  | ready
  | running
  | waiting
  | terminated
  deriving DecidableEq, Repr

/-- A task with its id. -/
structure Task where
  tid : Nat
  state : TaskState
  deriving DecidableEq, Repr

/-- The scheduler with all tasks it holds and `NEXT_TID`. An `Arc<Task>` is a
position in `tasks`. -/
structure Scheduler where
  tasks : List Task
  nextTid : Nat
  newQueue : List Nat
  readyQueue : List Nat
  terminatedQueue : List Nat
  currentTask : Nat
  idleTask : Nat
  deriving DecidableEq, Repr

namespace Scheduler

/-- `Task::new` takes the next tid. The counter wraps around. -/
def fetchTid (s : Scheduler) : Scheduler := { s with nextTid := (s.nextTid + 1) % 2 ^ 64 }

/-- Replace the state of one task. -/
def setState (s : Scheduler) (task : Nat) (state : TaskState) : Scheduler :=
  { s with tasks := s.tasks.modify task fun t => { t with state := state } }

/-- The state of a task. -/
def state? (s : Scheduler) (task : Nat) : Option TaskState := s.tasks[task]?.map Task.state

def tid? (s : Scheduler) (task : Nat) : Option Nat := s.tasks[task]?.map Task.tid

/-- `Task::has_state`. -/
def hasState (s : Scheduler) (task : Nat) (state : TaskState) : Bool :=
  s.state? task == some state

/-- `Scheduler::new`, with `NEXT_TID` at 0. -/
def new : Scheduler where
  tasks := [⟨0, .new⟩]
  nextTid := 1
  newQueue := []
  readyQueue := []
  terminatedQueue := []
  currentTask := 0
  idleTask := 0

/-- The current task runs. -/
def start (s : Scheduler) : Scheduler := s.setState s.currentTask .running

/-- `Scheduler::add_task`. The stacks of all tasks lie in the address space, and
a stack that does not fit is not allocated. -/
def addTask (s : Scheduler) : Option Scheduler :=
  if (s.tasks.length + 1) * KERNEL_STACK_SIZE ≤ 2 ^ 64 then
    some { s.fetchTid with
      tasks := s.tasks ++ [⟨s.nextTid, .new⟩]
      newQueue := s.newQueue ++ [s.tasks.length] }
  else none

/-- The function `add_task`, which makes a task that it drops again before the
scheduler makes the one it adds. -/
def addTaskFn (s : Scheduler) : Option Scheduler := s.fetchTid.addTask

/-- The loop of `_prepare_new_tasks`. -/
def prepareLoop : List Nat → Scheduler → Scheduler
  | [], s => { s with newQueue := [] }
  | task :: queue, s =>
      prepareLoop queue { s.setState task .ready with readyQueue := s.readyQueue ++ [task] }

/-- `_prepare_new_tasks`. -/
def prepareNewTasks (s : Scheduler) : Scheduler := prepareLoop s.newQueue s

/-- The rest of `schedule`, once the next task is chosen. -/
def switchTo (s : Scheduler) (currentMayContinue : Bool) (next : Nat) : Scheduler :=
  let current := s.currentTask
  let s :=
    if currentMayContinue ∧ s.tid? current ≠ s.tid? s.idleTask then
      { s with readyQueue := s.readyQueue ++ [current] }
    else s
  let s := { s with currentTask := next }
  let s := if currentMayContinue then s.setState current .ready else s
  s.setState next .running

/-- The next ready task runs. Without one the current task goes on if it may, else the idle task
runs. -/
def schedule (s : Scheduler) : Scheduler :=
  let s := s.prepareNewTasks
  let currentMayContinue := s.hasState s.currentTask .running
  match s.readyQueue with
  | next :: queue => { s with readyQueue := queue }.switchTo currentMayContinue next
  | [] => if currentMayContinue then s else s.switchTo currentMayContinue s.idleTask

/-- The current task is terminated and another one runs. -/
def exitCurrent (s : Scheduler) : Scheduler :=
  let s := s.setState s.currentTask .terminated
  { s with terminatedQueue := s.terminatedQueue ++ [s.currentTask] }.schedule

end Scheduler

/-- The steps of the scheduler. -/
inductive Event
  | schedulerAddTask
  | addTask
  | schedule
  | exitCurrent
  deriving DecidableEq, Repr

/-- One event. -/
def step (s : Scheduler) : Event → Option Scheduler
  | .schedulerAddTask => s.addTask
  | .addTask => s.addTaskFn
  | .schedule => some s.schedule
  | .exitCurrent => some s.exitCurrent

/-- The idle task never exits. -/
def Allowed (s : Scheduler) : Event → Prop
  | .exitCurrent => s.currentTask ≠ s.idleTask
  | _ => True

instance (s : Scheduler) (e : Event) : Decidable (Allowed s e) := by
  cases e <;> unfold Allowed <;> infer_instance

/-- The states that a started scheduler reaches. -/
abbrev Started (s : Scheduler) : Prop :=
  Reachable (fun s => s = Scheduler.new.start) (Step step Allowed) s

namespace Scheduler

variable {s : Scheduler} {task : Nat}

@[simp] theorem setState_length (s : Scheduler) (task : Nat) (state : TaskState) :
    (s.setState task state).tasks.length = s.tasks.length := by
  simp only [setState, List.length_modify]

theorem setState_tids (s : Scheduler) (task : Nat) (state : TaskState) :
    (s.setState task state).tasks.map Task.tid = s.tasks.map Task.tid := by
  apply List.ext_getElem? fun i => ?_
  simp only [setState, List.getElem?_map, List.getElem?_modify]
  cases s.tasks[i]? with
  | none => rfl
  | some t =>
      simp only [Option.map_eq_map, Option.map_some]
      split_ifs <;> rfl

theorem setState_state? (s : Scheduler) (task : Nat) (state : TaskState) (i : Nat) :
    (s.setState task state).state? i =
      if task = i then (s.state? i).map fun _ => state else s.state? i := by
  simp only [state?, setState, List.getElem?_modify]
  cases s.tasks[i]? with
  | none => simp
  | some t =>
      simp only [Option.map_eq_map, Option.map_some]
      split_ifs <;> rfl

/-- The new tasks go behind the ready ones. -/
theorem prepareLoop_frame (queue : List Nat) (s : Scheduler) :
    prepareLoop queue s = { s with
      tasks := (prepareLoop queue s).tasks
      newQueue := []
      readyQueue := s.readyQueue ++ queue } := by
  induction queue generalizing s with
  | nil => simp [prepareLoop]
  | cons task queue ih =>
      rw [prepareLoop, ih]
      simp [setState]

theorem prepareLoop_length (queue : List Nat) (s : Scheduler) :
    (prepareLoop queue s).tasks.length = s.tasks.length := by
  induction queue generalizing s with
  | nil => rfl
  | cons task queue ih =>
      rw [prepareLoop, ih]
      exact setState_length s task .ready

theorem prepareLoop_tids (queue : List Nat) (s : Scheduler) :
    (prepareLoop queue s).tasks.map Task.tid = s.tasks.map Task.tid := by
  induction queue generalizing s with
  | nil => rfl
  | cons task queue ih =>
      rw [prepareLoop, ih]
      exact setState_tids s task .ready

theorem prepareLoop_state? (queue : List Nat) (s : Scheduler) (i : Nat) :
    (prepareLoop queue s).state? i =
      if i ∈ queue then (s.state? i).map fun _ => .ready else s.state? i := by
  induction queue generalizing s with
  | nil => simp [prepareLoop, state?]
  | cons task queue ih =>
      rw [prepareLoop, ih]
      change (if i ∈ queue then ((s.setState task .ready).state? i).map _ else
        (s.setState task .ready).state? i) = _
      rw [setState_state?]
      cases s.state? i with
      | none => simp
      | some st =>
          by_cases htask : task = i
          · simp [htask]
          · simp [htask, Ne.symm htask]

@[simp] theorem prepareNewTasks_newQueue (s : Scheduler) : s.prepareNewTasks.newQueue = [] := by
  rw [prepareNewTasks, prepareLoop_frame]

@[simp] theorem prepareNewTasks_readyQueue (s : Scheduler) :
    s.prepareNewTasks.readyQueue = s.readyQueue ++ s.newQueue := by
  rw [prepareNewTasks, prepareLoop_frame]

@[simp] theorem prepareNewTasks_terminatedQueue (s : Scheduler) :
    s.prepareNewTasks.terminatedQueue = s.terminatedQueue := by
  rw [prepareNewTasks, prepareLoop_frame]

@[simp] theorem prepareNewTasks_currentTask (s : Scheduler) :
    s.prepareNewTasks.currentTask = s.currentTask := by
  rw [prepareNewTasks, prepareLoop_frame]

@[simp] theorem prepareNewTasks_idleTask (s : Scheduler) :
    s.prepareNewTasks.idleTask = s.idleTask := by
  rw [prepareNewTasks, prepareLoop_frame]

@[simp] theorem prepareNewTasks_nextTid (s : Scheduler) :
    s.prepareNewTasks.nextTid = s.nextTid := by
  rw [prepareNewTasks, prepareLoop_frame]

@[simp] theorem prepareNewTasks_length (s : Scheduler) :
    s.prepareNewTasks.tasks.length = s.tasks.length :=
  prepareLoop_length s.newQueue s

@[simp] theorem prepareNewTasks_tids (s : Scheduler) :
    s.prepareNewTasks.tasks.map Task.tid = s.tasks.map Task.tid :=
  prepareLoop_tids s.newQueue s

/-- A task that is not new keeps its state. -/
theorem prepareNewTasks_state? (s : Scheduler) (i : Nat) :
    s.prepareNewTasks.state? i =
      if i ∈ s.newQueue then (s.state? i).map fun _ => .ready else s.state? i :=
  prepareLoop_state? s.newQueue s i

/-- `switchTo` writes the ready queue, the current task and two states. -/
theorem switchTo_frame (s : Scheduler) (currentMayContinue : Bool) (next : Nat) :
    s.switchTo currentMayContinue next = { s with
      tasks := (s.switchTo currentMayContinue next).tasks
      readyQueue := s.readyQueue ++
        (if currentMayContinue ∧ s.tid? s.currentTask ≠ s.tid? s.idleTask then [s.currentTask]
         else [])
      currentTask := next } := by
  by_cases htid : s.tid? s.currentTask = s.tid? s.idleTask <;> cases currentMayContinue <;>
    simp [switchTo, setState, htid]

@[simp] theorem switchTo_newQueue (s : Scheduler) (currentMayContinue : Bool) (next : Nat) :
    (s.switchTo currentMayContinue next).newQueue = s.newQueue := by
  rw [switchTo_frame]

@[simp] theorem switchTo_terminatedQueue (s : Scheduler) (currentMayContinue : Bool)
    (next : Nat) : (s.switchTo currentMayContinue next).terminatedQueue = s.terminatedQueue := by
  rw [switchTo_frame]

@[simp] theorem switchTo_currentTask (s : Scheduler) (currentMayContinue : Bool) (next : Nat) :
    (s.switchTo currentMayContinue next).currentTask = next := by
  rw [switchTo_frame]

@[simp] theorem switchTo_idleTask (s : Scheduler) (currentMayContinue : Bool) (next : Nat) :
    (s.switchTo currentMayContinue next).idleTask = s.idleTask := by
  rw [switchTo_frame]

@[simp] theorem switchTo_nextTid (s : Scheduler) (currentMayContinue : Bool) (next : Nat) :
    (s.switchTo currentMayContinue next).nextTid = s.nextTid := by
  rw [switchTo_frame]

theorem switchTo_tasks (s : Scheduler) (currentMayContinue : Bool) (next : Nat) :
    (s.switchTo currentMayContinue next).tasks =
      ((if currentMayContinue then s.setState s.currentTask .ready else s).setState next
        .running).tasks := by
  by_cases htid : s.tid? s.currentTask = s.tid? s.idleTask <;> cases currentMayContinue <;>
    simp [switchTo, setState, htid]

@[simp] theorem switchTo_length (s : Scheduler) (currentMayContinue : Bool) (next : Nat) :
    (s.switchTo currentMayContinue next).tasks.length = s.tasks.length := by
  rw [switchTo_tasks, setState_length]
  split
  · rw [setState_length]
  · rfl

@[simp] theorem switchTo_tids (s : Scheduler) (currentMayContinue : Bool) (next : Nat) :
    (s.switchTo currentMayContinue next).tasks.map Task.tid = s.tasks.map Task.tid := by
  rw [switchTo_tasks, setState_tids]
  split
  · rw [setState_tids]
  · rfl

theorem switchTo_state? (s : Scheduler) (currentMayContinue : Bool) (next i : Nat) :
    (s.switchTo currentMayContinue next).state? i =
      if next = i then (s.state? i).map fun _ => .running
      else if currentMayContinue ∧ s.currentTask = i then (s.state? i).map fun _ => .ready
      else s.state? i := by
  rw [state?, switchTo_tasks]
  change ((if currentMayContinue then s.setState s.currentTask .ready else s).setState next
    .running).state? i = _
  rw [setState_state?]
  cases currentMayContinue with
  | false => simp
  | true =>
      simp only [if_true, true_and, setState_state?]
      cases s.state? i with
      | none => simp
      | some st => split_ifs <;> rfl

/-- The current task, unless it is the idle task. -/
def running (s : Scheduler) : List Nat :=
  if s.currentTask = s.idleTask then [] else [s.currentTask]

/-- The queues and the tasks in `held` hold every task but the idle task once,
and a queue holds tasks of its state. Tids are handed out in order. -/
structure Queued (s : Scheduler) (held : List Nat) : Prop where
  idle_lt : s.idleTask < s.tasks.length
  placed : ∀ i, (s.newQueue ++ s.readyQueue ++ s.terminatedQueue ++ held).count i =
    if i < s.tasks.length ∧ i ≠ s.idleTask then 1 else 0
  isNew : ∀ i ∈ s.newQueue, s.state? i = some .new
  isReady : ∀ i ∈ s.readyQueue, s.state? i = some .ready
  isTerminated : ∀ i ∈ s.terminatedQueue, s.state? i = some .terminated
  tids : (s.tasks.map Task.tid).Nodup
  tid_lt : ∀ tid ∈ s.tasks.map Task.tid, tid < s.nextTid
  nextTid_le : s.nextTid ≤ 2 * s.tasks.length
  fits : s.tasks.length * KERNEL_STACK_SIZE ≤ 2 ^ 64

/-- The invariant between two steps. -/
structure Inv (s : Scheduler) : Prop where
  queued : s.Queued s.running
  isRunning : s.state? s.currentTask = some .running
  idle_isReady : s.currentTask ≠ s.idleTask → s.state? s.idleTask = some .ready

/-- The invariant when the current task has exited and the next is not chosen. -/
structure Leaving (s : Scheduler) : Prop where
  queued : s.Queued []
  isTerminated : s.state? s.currentTask = some .terminated
  current_ne : s.currentTask ≠ s.idleTask
  idle_isReady : s.state? s.idleTask = some .ready

variable {held : List Nat}

/-- A task is in one place only. -/
theorem Queued.nodup (h : s.Queued held) :
    (s.newQueue ++ s.readyQueue ++ s.terminatedQueue ++ held).Nodup := by
  rw [List.nodup_iff_count_le_one]
  intro i
  rw [h.placed i]
  split_ifs <;> omega

theorem Queued.mem_iff (h : s.Queued held) (i : Nat) :
    i ∈ s.newQueue ++ s.readyQueue ++ s.terminatedQueue ++ held ↔
      i < s.tasks.length ∧ i ≠ s.idleTask := by
  rw [← List.count_pos_iff, h.placed i]
  split_ifs with hi <;> simp [hi]

theorem Queued.tid_inj (h : s.Queued held) {i j : Nat} (hi : i < s.tasks.length)
    (heq : s.tid? i = s.tid? j) : i = j := by
  simp only [tid?, ← List.getElem?_map] at heq
  exact (List.getElem?_inj (by simpa using hi) h.tids).mp heq

theorem Queued.prepare (h : s.Queued held) : s.prepareNewTasks.Queued held := by
  have hnodup := h.nodup
  simp only [List.append_assoc, List.nodup_append] at hnodup
  refine ⟨by simpa using h.idle_lt, fun i => ?_, by simp, fun i hi => ?_, fun i hi => ?_,
    by simpa using h.tids, by simpa using h.tid_lt, by simpa using h.nextTid_le,
    by simpa using h.fits⟩
  · have hplaced := h.placed i
    simp only [List.count_append] at hplaced
    simp only [prepareNewTasks_newQueue, prepareNewTasks_readyQueue,
      prepareNewTasks_terminatedQueue, prepareNewTasks_length, prepareNewTasks_idleTask,
      List.count_append, List.nil_append, ← hplaced]
    omega
  · rw [prepareNewTasks_readyQueue, List.mem_append] at hi
    rw [prepareNewTasks_state?]
    rcases hi with hready | hnew
    · rw [h.isReady i hready, if_neg]
      intro hnew
      grind
    · rw [h.isNew i hnew, if_pos hnew]
      rfl
  · rw [prepareNewTasks_terminatedQueue] at hi
    rw [prepareNewTasks_state?, h.isTerminated i hi, if_neg]
    intro hnew
    grind

theorem Queued.idle_notMem (h : s.Queued held) :
    s.idleTask ∉ s.newQueue ∧ s.idleTask ∉ s.readyQueue ∧ s.idleTask ∉ s.terminatedQueue := by
  have hidle := (h.mem_iff s.idleTask).not.mpr (by simp)
  simp only [List.mem_append, not_or] at hidle
  exact ⟨hidle.1.1.1, hidle.1.1.2, hidle.1.2⟩

/-- A task with another state is not new. -/
theorem Queued.notMem_newQueue (h : s.Queued held) {i : Nat} {state : TaskState}
    (hstate : s.state? i = some state) (hne : state ≠ .new) : i ∉ s.newQueue := by
  intro hmem
  rw [h.isNew i hmem] at hstate
  cases hstate
  exact hne rfl

theorem Inv.prepare (h : s.Inv) : s.prepareNewTasks.Inv := by
  refine ⟨?_, ?_, fun hne => ?_⟩
  · simp only [running, prepareNewTasks_currentTask, prepareNewTasks_idleTask]
    exact h.queued.prepare
  · rw [prepareNewTasks_currentTask, prepareNewTasks_state?,
      if_neg (h.queued.notMem_newQueue h.isRunning (by simp)), h.isRunning]
  · rw [prepareNewTasks_idleTask, prepareNewTasks_state?, if_neg h.queued.idle_notMem.1]
    exact h.idle_isReady (by simpa using hne)

theorem Leaving.prepare (h : s.Leaving) : s.prepareNewTasks.Leaving := by
  refine ⟨h.queued.prepare, ?_, by simpa using h.current_ne, ?_⟩
  · rw [prepareNewTasks_currentTask, prepareNewTasks_state?,
      if_neg (h.queued.notMem_newQueue h.isTerminated (by simp)), h.isTerminated]
  · rw [prepareNewTasks_idleTask, prepareNewTasks_state?, if_neg h.queued.idle_notMem.1,
      h.idle_isReady]

theorem state?_lt {i : Nat} {state : TaskState} (h : s.state? i = some state) :
    i < s.tasks.length := by
  by_contra hge
  rw [state?, List.getElem?_eq_none (by omega)] at h
  cases h

/-- The head of the ready queue is no other task that is named. -/
theorem Queued.next_ne {next : Nat} {queue : List Nat} (h : s.Queued held)
    (hready : s.readyQueue = next :: queue) :
    next ≠ s.idleTask ∧ next ∉ queue ∧ next ∉ s.terminatedQueue ∧ next ∉ held := by
  have hnodup := h.nodup
  have hidle := h.idle_notMem.2.1
  simp only [hready, List.nodup_append, List.nodup_cons, List.mem_append] at hnodup
  rw [hready] at hidle
  grind

/-- The current task goes back to the ready queue unless it is the idle task. -/
theorem Inv.switchTo_readyQueue (h : s.Inv) (next : Nat) (queue : List Nat) :
    (switchTo { s with readyQueue := queue } true next).readyQueue = queue ++ s.running := by
  have htid : s.tid? s.currentTask = s.tid? s.idleTask ↔ s.currentTask = s.idleTask :=
    ⟨fun he => h.queued.tid_inj (state?_lt h.isRunning) he, fun he => by rw [he]⟩
  rw [switchTo_frame]
  change queue ++ (if true = true ∧ s.tid? s.currentTask ≠ s.tid? s.idleTask then _ else _) = _
  by_cases hc : s.currentTask = s.idleTask
  · rw [if_neg (by simp [hc]), running, if_pos hc]
  · rw [if_pos ⟨rfl, htid.not.mpr hc⟩, running, if_neg hc]

/-- A ready task runs next, and the current task is ready again. -/
theorem Inv.switchTo {next : Nat} {queue : List Nat} (h : s.Inv)
    (hnew : s.newQueue = []) (hready : s.readyQueue = next :: queue) :
    (Scheduler.switchTo { s with readyQueue := queue } true next).Inv := by
  have hq := h.queued
  obtain ⟨hidle, hqueue, hterm, hrun⟩ := hq.next_ne hready
  have hnext := hq.isReady next (by simp [hready])
  have hstate (i : Nat) : (Scheduler.switchTo { s with readyQueue := queue } true next).state? i =
      if next = i then (s.state? i).map fun _ => .running
      else if s.currentTask = i then (s.state? i).map fun _ => .ready
      else s.state? i := by
    simp only [switchTo_state?, true_and]
    rfl
  have hback : ∀ i, s.currentTask = i → next ≠ i → (s.state? i).map (fun _ => TaskState.ready) =
      some .ready := by
    rintro i rfl -
    rw [h.isRunning]
    rfl
  refine ⟨⟨by simpa using hq.idle_lt, fun i => ?_, ?_, fun i hi => ?_, fun i hi => ?_,
    by simpa using hq.tids, by simpa using hq.tid_lt, by simpa using hq.nextTid_le,
    by simpa using hq.fits⟩, ?_, fun _ => ?_⟩
  · have hplaced := hq.placed i
    simp only [hready, List.count_append, List.count_cons] at hplaced
    simp only [running, switchTo_newQueue, switchTo_terminatedQueue, switchTo_currentTask,
      switchTo_idleTask, switchTo_length, h.switchTo_readyQueue, List.count_append, if_neg hidle,
      List.count_singleton, ← hplaced]
    omega
  · simp [hnew]
  · rw [h.switchTo_readyQueue, List.mem_append] at hi
    have hne : next ≠ i := by
      rintro rfl
      exact hi.elim hqueue hrun
    rw [hstate, if_neg hne]
    split_ifs with hc
    · exact hback i hc hne
    · refine hi.elim (fun hi => hq.isReady i (by simp [hready, hi])) fun hi => ?_
      simp only [running] at hi
      split_ifs at hi
      · cases hi
      · exact absurd (List.mem_singleton.mp hi).symm hc
  · simp only [switchTo_terminatedQueue] at hi
    have hi' := hq.isTerminated i hi
    rw [hstate, if_neg (by rintro rfl; exact hterm hi), if_neg, hi']
    rintro rfl
    rw [h.isRunning] at hi'
    cases hi'
  · rw [switchTo_currentTask, hstate, if_pos rfl, hnext]
    rfl
  · rw [switchTo_idleTask, hstate, if_neg hidle]
    split_ifs with hc
    · exact hback _ hc hidle
    · exact h.idle_isReady hc

/-- A ready task, or the idle task, runs after an exit. -/
theorem Leaving.switchTo {next : Nat} {queue : List Nat} (h : s.Leaving) (hnew : s.newQueue = [])
    (hready : s.readyQueue = (if next = s.idleTask then [] else [next]) ++ queue) :
    (Scheduler.switchTo { s with readyQueue := queue } false next).Inv := by
  have hq := h.queued
  have hnext : s.state? next = some .ready := by
    split_ifs at hready with hidle
    · exact hidle ▸ h.idle_isReady
    · exact hq.isReady next (by simp [hready])
  have hqueue : next ∉ queue := by
    split_ifs at hready with hidle
    · rw [hidle, ← List.nil_append queue, ← hready]
      exact hq.idle_notMem.2.1
    · exact (hq.next_ne hready).2.1
  have hreadyQueue :
      (Scheduler.switchTo { s with readyQueue := queue } false next).readyQueue = queue := by
    rw [switchTo_frame]
    simp
  have hstate (i : Nat) : (Scheduler.switchTo { s with readyQueue := queue } false next).state? i =
      if next = i then (s.state? i).map fun _ => .running else s.state? i := by
    simp only [switchTo_state?, Bool.false_eq_true, false_and, if_false]
    rfl
  refine ⟨⟨by simpa using hq.idle_lt, fun i => ?_, ?_, fun i hi => ?_, fun i hi => ?_,
    by simpa using hq.tids, by simpa using hq.tid_lt, by simpa using hq.nextTid_le,
    by simpa using hq.fits⟩, ?_, fun hne => ?_⟩
  · have hplaced := hq.placed i
    simp only [hready, List.count_append] at hplaced
    simp only [running, switchTo_newQueue, switchTo_terminatedQueue, switchTo_currentTask,
      switchTo_idleTask, switchTo_length, hreadyQueue, List.count_append, ← hplaced,
      List.count_nil]
    omega
  · simp [hnew]
  · rw [hreadyQueue] at hi
    rw [hstate, if_neg (by rintro rfl; exact hqueue hi)]
    exact hq.isReady i (by simp [hready, hi])
  · simp only [switchTo_terminatedQueue] at hi
    have hi' := hq.isTerminated i hi
    rw [hstate, if_neg, hi']
    rintro rfl
    rw [hnext] at hi'
    cases hi'
  · rw [switchTo_currentTask, hstate, if_pos rfl, hnext]
    rfl
  · rw [switchTo_currentTask, switchTo_idleTask] at hne
    rw [switchTo_idleTask, hstate, if_neg hne, h.idle_isReady]

/-- `schedule` keeps the invariant. -/
theorem Inv.schedule (h : s.Inv) : s.schedule.Inv := by
  have hp := h.prepare
  simp only [Scheduler.schedule, hasState, hp.isRunning, beq_self_eq_true, if_true]
  split
  · rename_i next queue hready
    exact hp.switchTo (by simp) hready
  · exact hp

/-- After an exit `schedule` restores the invariant. -/
theorem Leaving.schedule (h : s.Leaving) : s.schedule.Inv := by
  have hp := h.prepare
  have hfalse : s.prepareNewTasks.hasState s.prepareNewTasks.currentTask .running = false := by
    rw [hasState, hp.isTerminated]
    rfl
  simp only [Scheduler.schedule, hfalse]
  split
  · rename_i next queue hready
    refine hp.switchTo (by simp) ?_
    rw [if_neg (hp.queued.next_ne hready).1]
    exact hready
  · rename_i hready
    have hidle := @Leaving.switchTo s.prepareNewTasks s.prepareNewTasks.idleTask [] hp (by simp)
      (by rw [if_pos rfl, hready]; rfl)
    rw [← hready] at hidle
    exact hidle

/-- The first part of `exit_current` moves the current task to the terminated ones. -/
theorem Inv.leaving (h : s.Inv) (hne : s.currentTask ≠ s.idleTask) :
    Leaving { s.setState s.currentTask .terminated with
      terminatedQueue := s.terminatedQueue ++ [s.currentTask] } := by
  have hq := h.queued
  have hnodup := hq.nodup
  simp only [running, if_neg hne, List.append_assoc, List.nodup_append, List.mem_append,
    List.mem_singleton] at hnodup
  have hstate (i : Nat) : state? { s.setState s.currentTask .terminated with
      terminatedQueue := s.terminatedQueue ++ [s.currentTask] } i =
      if s.currentTask = i then (s.state? i).map fun _ => .terminated else s.state? i :=
    setState_state? s s.currentTask .terminated i
  refine ⟨⟨?_, fun i => ?_, fun i hi => ?_, fun i hi => ?_, fun i hi => ?_,
    by rw [setState_tids]; exact hq.tids, by rw [setState_tids]; exact hq.tid_lt, ?_,
    by simpa using hq.fits⟩, ?_, hne, ?_⟩
  · rw [setState_length]
    exact hq.idle_lt
  · have hplaced := hq.placed i
    simp only [running, if_neg hne, List.append_assoc] at hplaced
    simp only [setState_length, List.append_assoc, List.append_nil]
    exact hplaced
  · rw [hstate, if_neg (by rintro rfl; grind [setState]), hq.isNew i hi]
  · rw [hstate, if_neg (by rintro rfl; grind [setState]), hq.isReady i hi]
  · rw [hstate]
    split_ifs with hc
    · rw [← hc, h.isRunning]
      rfl
    · rcases List.mem_append.mp hi with hi | hi
      · exact hq.isTerminated i hi
      · exact absurd (List.mem_singleton.mp hi).symm hc
  · rw [setState_length]
    exact hq.nextTid_le
  · refine (hstate s.currentTask).trans ?_
    rw [if_pos rfl, h.isRunning]
    rfl
  · refine (hstate s.idleTask).trans ?_
    rw [if_neg hne]
    exact h.idle_isReady hne

theorem Inv.exitCurrent (h : s.Inv) (hne : s.currentTask ≠ s.idleTask) : s.exitCurrent.Inv :=
  (h.leaving hne).schedule

theorem append_state? (s : Scheduler) (task : Task) {i : Nat} (hi : i < s.tasks.length) :
    (s.tasks ++ [task])[i]?.map Task.state = s.state? i := by
  rw [List.getElem?_append_left hi]
  rfl

/-- A new task goes to the end of the new queue, with a tid above all others. -/
theorem Inv.addTask {t : Scheduler} {skipped : Nat} (h : s.Inv) (hskipped : skipped ≤ 1)
    (ht : { s with nextTid := s.nextTid + skipped }.addTask = some t) : t.Inv := by
  have hq := h.queued
  simp only [Scheduler.addTask] at ht
  split_ifs at ht with hfits
  cases ht
  have hnext : (s.nextTid + skipped + 1) % 2 ^ 64 = s.nextTid + skipped + 1 := by
    have hle := hq.nextTid_le
    simp only [KERNEL_STACK_SIZE] at hfits
    omega
  have hmem {i : Nat} (hi : i ∈ s.newQueue ++ s.readyQueue ++ s.terminatedQueue ++ s.running) :
      i < s.tasks.length := ((hq.mem_iff i).mp hi).1
  refine ⟨⟨?_, fun i => ?_, fun i hi => ?_, fun i hi => ?_, fun i hi => ?_, ?_, ?_, ?_, ?_⟩, ?_, ?_⟩
  · simp only [List.length_append, List.length_singleton]
    exact Nat.lt_succ_of_lt hq.idle_lt
  · have hplaced := hq.placed i
    have hidle := hq.idle_lt
    change (s.newQueue ++ [s.tasks.length] ++ s.readyQueue ++ s.terminatedQueue ++ s.running).count
      i = if i < (s.tasks ++ [_]).length ∧ i ≠ s.idleTask then 1 else 0
    simp only [List.count_append, List.count_singleton, List.length_append, List.length_singleton,
      beq_iff_eq] at hplaced ⊢
    by_cases hi : i = s.tasks.length
    · rw [if_neg (by omega)] at hplaced
      rw [if_pos hi.symm, if_pos (by omega)]
      omega
    · have hiff : i < s.tasks.length + 1 ∧ i ≠ s.idleTask ↔ i < s.tasks.length ∧ i ≠ s.idleTask := by
        omega
      rw [if_neg (Ne.symm hi), if_congr hiff rfl rfl, ← hplaced]
      omega
  · rcases List.mem_append.mp hi with hi | hi
    · exact (append_state? s _ (hmem (by simp [hi]))).trans (hq.isNew i hi)
    · rw [List.mem_singleton.mp hi]
      simp [state?]
  · exact (append_state? s _ (hmem (by simp [show i ∈ s.readyQueue from hi]))).trans
      (hq.isReady i hi)
  · exact (append_state? s _ (hmem (by simp [show i ∈ s.terminatedQueue from hi]))).trans
      (hq.isTerminated i hi)
  · simp only [List.map_append, List.map_singleton, List.nodup_append]
    refine ⟨hq.tids, by simp, fun tid htid tid' htid' => ?_⟩
    have hlt := hq.tid_lt tid htid
    have heq := List.mem_singleton.mp htid'
    omega
  · intro tid htid
    simp only [List.map_append, List.map_singleton, List.mem_append, List.mem_singleton] at htid
    change tid < (s.nextTid + skipped + 1) % 2 ^ 64
    rcases htid with htid | htid
    · have hlt := hq.tid_lt tid htid
      omega
    · omega
  · have hle := hq.nextTid_le
    change (s.nextTid + skipped + 1) % 2 ^ 64 ≤ 2 * (s.tasks ++ [_]).length
    rw [List.length_append, List.length_singleton]
    omega
  · simpa using hfits
  · exact (append_state? s _ (state?_lt h.isRunning)).trans h.isRunning
  · intro hne
    exact (append_state? s _ hq.idle_lt).trans (h.idle_isReady hne)

theorem Inv.addTaskFn {t : Scheduler} (h : s.Inv) (ht : s.addTaskFn = some t) : t.Inv := by
  have hnext : (s.nextTid + 1) % 2 ^ 64 = s.nextTid + 1 := by
    have hle := h.queued.nextTid_le
    have hfits := h.queued.fits
    simp only [KERNEL_STACK_SIZE] at hfits
    omega
  rw [Scheduler.addTaskFn, fetchTid, hnext] at ht
  exact h.addTask le_rfl ht

theorem inv_start : new.start.Inv := by
  refine ⟨⟨by decide, fun i => ?_, by decide, by decide, by decide, by decide, by decide,
    by decide, by decide⟩, by decide, by decide⟩
  simp [new, start, setState, running]

end Scheduler

theorem inv_step {s t : Scheduler} (h : s.Inv) (hst : Step step Allowed s t) : t.Inv := by
  obtain ⟨e, hallowed, ht⟩ := hst
  cases e with
  | schedulerAddTask => exact h.addTask (Nat.zero_le 1) ht
  | addTask => exact h.addTaskFn ht
  | schedule =>
      cases ht
      exact h.schedule
  | exitCurrent =>
      cases ht
      exact h.exitCurrent hallowed

theorem started_inv {s : Scheduler} (h : Started s) : s.Inv := by
  refine h.invariant ?_ fun s t _ hs hst => inv_step hs hst
  rintro s rfl
  exact Scheduler.inv_start

/-- Every task but the idle task is in one place, in the state of that place. -/
structure Consistent (s : Scheduler) : Prop where
  once : ∀ i < s.tasks.length, i ≠ s.idleTask →
    (s.newQueue ++ s.readyQueue ++ [s.currentTask] ++ s.terminatedQueue).count i = 1
  idle : s.idleTask ∉ s.newQueue ++ s.readyQueue ++ s.terminatedQueue
  running : ∀ i, s.state? i = some .running ↔ i = s.currentTask
  new : ∀ i ∈ s.newQueue, s.state? i = some .new
  ready : ∀ i ∈ s.readyQueue, s.state? i = some .ready
  terminated : ∀ i ∈ s.terminatedQueue, s.state? i = some .terminated
  tids : ∀ i < s.tasks.length, ∀ j < s.tasks.length, s.tid? i = s.tid? j → i = j

namespace Scheduler

variable {s : Scheduler}

/-- The places of a task other than the idle task. -/
theorem Inv.place (h : s.Inv) {i : Nat} (hi : i < s.tasks.length) (hidle : i ≠ s.idleTask) :
    i ∈ s.newQueue ∨ i ∈ s.readyQueue ∨ i ∈ s.terminatedQueue ∨ i = s.currentTask := by
  have hmem := (h.queued.mem_iff i).mpr ⟨hi, hidle⟩
  simp only [List.mem_append, running] at hmem
  split_ifs at hmem with hc
  · simp only [List.not_mem_nil, or_false] at hmem
    tauto
  · rw [List.mem_singleton] at hmem
    tauto

theorem Inv.consistent (h : s.Inv) : Consistent s := by
  have hq := h.queued
  refine ⟨fun i hi hidle => ?_, ?_, fun i => ⟨fun hrun => ?_, ?_⟩, hq.isNew, hq.isReady,
    hq.isTerminated, fun i hi j _ heq => hq.tid_inj hi heq⟩
  · have hplaced := hq.placed i
    rw [if_pos ⟨hi, hidle⟩] at hplaced
    have hcount : s.running.count i = [s.currentTask].count i := by
      rw [running]
      split_ifs with hc
      · rw [hc, List.count_nil, List.count_singleton, if_neg (by simpa using Ne.symm hidle)]
      · rfl
    simp only [List.count_append, hcount] at hplaced ⊢
    omega
  · obtain ⟨hnew, hready, hterm⟩ := hq.idle_notMem
    simp [hnew, hready, hterm]
  · by_contra hne
    by_cases hidle : i = s.idleTask
    · rw [hidle, h.idle_isReady (fun hc => hne (hidle.trans hc.symm))] at hrun
      cases hrun
    · rcases h.place (state?_lt hrun) hidle with hi | hi | hi | hi
      · rw [hq.isNew i hi] at hrun
        cases hrun
      · rw [hq.isReady i hi] at hrun
        cases hrun
      · rw [hq.isTerminated i hi] at hrun
        cases hrun
      · exact hne hi
  · rintro rfl
    exact h.isRunning

/-- A terminated task is in the queue for terminated tasks. -/
theorem Inv.mem_terminatedQueue (h : s.Inv) {i : Nat} (hi : s.state? i = some .terminated) :
    i ∈ s.terminatedQueue := by
  have hq := h.queued
  have hcurrent : i ≠ s.currentTask := by
    rintro rfl
    rw [h.isRunning] at hi
    cases hi
  have hidle : i ≠ s.idleTask := by
    rintro rfl
    rw [h.idle_isReady hcurrent.symm] at hi
    cases hi
  rcases h.place (state?_lt hi) hidle with hmem | hmem | hmem | hmem
  · rw [hq.isNew i hmem] at hi
    cases hi
  · rw [hq.isReady i hmem] at hi
    cases hi
  · exact hmem
  · exact absurd hmem hcurrent

theorem schedule_terminatedQueue (s : Scheduler) :
    s.schedule.terminatedQueue = s.terminatedQueue := by
  simp only [schedule]
  split
  · simp
  · split <;> simp

end Scheduler

/-- The queue of terminated tasks only grows. -/
theorem step_terminatedQueue {s t : Scheduler} (h : Step step Allowed s t) :
    s.terminatedQueue ⊆ t.terminatedQueue := by
  obtain ⟨e, -, ht⟩ := h
  cases e with
  | schedulerAddTask =>
      simp only [step, Scheduler.addTask] at ht
      split_ifs at ht
      cases ht
      exact List.Subset.refl _
  | addTask =>
      simp only [step, Scheduler.addTaskFn, Scheduler.addTask] at ht
      split_ifs at ht
      cases ht
      exact List.Subset.refl _
  | schedule =>
      cases ht
      rw [Scheduler.schedule_terminatedQueue]
      exact List.Subset.refl _
  | exitCurrent =>
      cases ht
      rw [Scheduler.exitCurrent, Scheduler.schedule_terminatedQueue]
      exact List.subset_append_left _ _

/-- In every state that a started scheduler reaches each task is in one place
and in the state of that place, and a terminated task never runs again. -/
theorem started_consistent (s : Scheduler) (h : Started s) :
    Consistent s ∧ ∀ i, s.state? i = some .terminated →
      ∀ t, Relation.ReflTransGen (Step step Allowed) s t → t.currentTask ≠ i := by
  refine ⟨(started_inv h).consistent, fun i hi t hrun => ?_⟩
  have hmem : i ∈ t.terminatedQueue ∧ t.Inv := by
    induction hrun with
    | refl => exact ⟨(started_inv h).mem_terminatedQueue hi, started_inv h⟩
    | tail _ hstep ih => exact ⟨step_terminatedQueue hstep ih.1, inv_step ih.2 hstep⟩
  rintro rfl
  have hstate := hmem.2.queued.isTerminated _ hmem.1
  rw [hmem.2.isRunning] at hstate
  cases hstate

/-- Two tasks are added, the first one runs and exits. -/
theorem started_consistent_exit :
    let s : Scheduler := ⟨[⟨0, .ready⟩, ⟨2, .terminated⟩, ⟨3, .running⟩], 4, [], [], [1], 2, 0⟩
    Consistent s ∧ ∀ i, s.state? i = some .terminated →
      ∀ t, Relation.ReflTransGen (Step step Allowed) s t → t.currentTask ≠ i :=
  started_consistent _ ⟨Scheduler.new.start, rfl,
    reflTransGen_of_run [.addTask, .schedulerAddTask, .schedule, .exitCurrent] (by decide)⟩

end Kruspix.Kernel.Sched
