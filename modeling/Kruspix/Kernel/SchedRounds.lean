import Kruspix.Kernel.Sched
import Mathlib.Data.List.Rotate

/-!
# Round robin

The runnable tasks stand in a circle: the ready queue, the new tasks and the
current task. A call of `schedule` turns the circle by one. Arrivals and exits
leave the order of the ready queue as it is.
-/

namespace Kruspix.Kernel.Sched

open Lib.Transition

namespace Scheduler

/-- The runnable tasks other than the idle task, in the order in which they run. -/
def runnable (s : Scheduler) : List Nat := s.readyQueue ++ s.newQueue ++ s.running

variable {s : Scheduler}

/-- The head of the circle runs and becomes its end. -/
theorem Inv.schedule_cons {next : Nat} {queue : List Nat} (h : s.Inv)
    (hL : s.runnable = next :: queue) :
    s.schedule.currentTask = next ∧ s.schedule.runnable = queue ++ [next] := by
  have hp := h.prepare
  have hrun : s.prepareNewTasks.running = s.running := by simp [running]
  simp only [Scheduler.schedule, hasState, hp.isRunning, beq_self_eq_true, if_true]
  split
  · rename_i head rest hready
    rw [runnable, ← prepareNewTasks_readyQueue, hready, List.cons_append] at hL
    cases hL
    refine ⟨by simp, ?_⟩
    have hidle := (hp.queued.next_ne hready).1
    rw [runnable, hp.switchTo_readyQueue, hrun]
    simp [running, show next ≠ s.idleTask by simpa using hidle]
  · rename_i hready
    rw [runnable, ← prepareNewTasks_readyQueue, hready, List.nil_append] at hL
    rw [runnable, hready, hrun, prepareNewTasks_newQueue, hL, prepareNewTasks_currentTask]
    simp only [running] at hL
    split_ifs at hL
    cases hL
    exact ⟨rfl, rfl⟩

theorem Inv.schedule_rotate (h : s.Inv) (hL : s.runnable ≠ []) :
    s.runnable.head? = some s.schedule.currentTask ∧
      s.schedule.runnable = s.runnable.rotate 1 := by
  obtain ⟨next, queue, hcons⟩ := List.exists_cons_of_ne_nil hL
  obtain ⟨hcurrent, hrunnable⟩ := h.schedule_cons hcons
  refine ⟨by rw [hcons, hcurrent]; rfl, ?_⟩
  rw [hrunnable, hcons, List.rotate_cons_succ, List.rotate_zero]

/-- After `i` calls the circle has turned by `i`. -/
theorem Inv.iterate_rotate (h : s.Inv) (hL : s.runnable ≠ []) (i : Nat) :
    (Scheduler.schedule^[i] s).Inv ∧ (Scheduler.schedule^[i] s).runnable = s.runnable.rotate i := by
  induction i with
  | zero => exact ⟨h, (List.rotate_zero _).symm⟩
  | succ i ih =>
      obtain ⟨hinv, hrunnable⟩ := ih
      have hne : (Scheduler.schedule^[i] s).runnable ≠ [] := by
        rw [hrunnable, ne_eq, List.rotate_eq_nil_iff]
        exact hL
      rw [Function.iterate_succ_apply', (hinv.schedule_rotate hne).2, hrunnable,
        List.rotate_rotate]
      exact ⟨hinv.schedule, rfl⟩

/-- The task that runs after `i + 1` calls. -/
theorem Inv.iterate_current (h : s.Inv) (hL : s.runnable ≠ []) (i : Nat) :
    s.runnable[i % s.runnable.length]? = some (Scheduler.schedule^[i + 1] s).currentTask := by
  obtain ⟨hinv, hrunnable⟩ := h.iterate_rotate hL i
  have hne : (Scheduler.schedule^[i] s).runnable ≠ [] := by
    rw [hrunnable, ne_eq, List.rotate_eq_nil_iff]
    exact hL
  have hpos := List.length_pos_iff.mpr hL
  rw [Function.iterate_succ_apply', ← (hinv.schedule_rotate hne).1, hrunnable,
    ← List.rotate_mod, List.head?_rotate (Nat.mod_lt _ hpos)]

/-- The tasks that run in `m` calls are those in the circle. -/
theorem Inv.round_perm (h : s.Inv) (hL : s.runnable ≠ []) (j : Nat) :
    ((List.range s.runnable.length).map fun k => (Scheduler.schedule^[j + k + 1] s).currentTask).Perm
      s.runnable := by
  have hround : ((List.range s.runnable.length).map fun k =>
      (Scheduler.schedule^[j + k + 1] s).currentTask) = s.runnable.rotate j := by
    apply List.ext_getElem?
    intro k
    by_cases hk : k < s.runnable.length
    · rw [List.getElem?_rotate hk, Nat.add_comm k j, h.iterate_current hL (j + k)]
      simp [hk]
    · rw [List.getElem?_eq_none (by simpa using hk), List.getElem?_eq_none (by simpa using hk)]
  rw [hround]
  exact List.rotate_perm _ _

theorem Inv.idle_notMem_runnable (h : s.Inv) : s.idleTask ∉ s.runnable := by
  obtain ⟨hnew, hready, -⟩ := h.queued.idle_notMem
  simp only [runnable, running, List.mem_append, hnew, hready, false_or]
  split_ifs with hc
  · exact List.not_mem_nil
  · exact fun hmem => hc (List.mem_singleton.mp hmem).symm

/-- `schedule` takes the head off the ready queue and leaves the rest in front. -/
theorem schedule_readyQueue {next : Nat} {queue : List Nat} (hready : s.readyQueue = next :: queue) :
    s.schedule.currentTask = next ∧ queue <+: s.schedule.readyQueue := by
  have hprepared : s.prepareNewTasks.readyQueue = next :: (queue ++ s.newQueue) := by
    rw [prepareNewTasks_readyQueue, hready, List.cons_append]
  simp only [schedule, hprepared, switchTo_currentTask, true_and]
  rw [switchTo_frame]
  exact ⟨s.newQueue ++ _, by rw [← List.append_assoc]⟩

end Scheduler

/-- `schedule`, called or at the end of `exit_current`. -/
def Event.calls : Event → Bool
  | .schedule | .exitCurrent => true
  | _ => false

/-- A call takes the head of the ready queue, another step leaves the queue as it is. -/
theorem step_readyQueue {s t : Scheduler} {e : Event} {next : Nat} {queue : List Nat}
    (hready : s.readyQueue = next :: queue) (ht : step s e = some t) :
    if e.calls then t.currentTask = next ∧ queue <+: t.readyQueue
    else t.readyQueue = s.readyQueue := by
  cases e with
  | schedulerAddTask =>
      simp only [step, Scheduler.addTask] at ht
      split_ifs at ht
      cases ht
      rfl
  | addTask =>
      simp only [step, Scheduler.addTaskFn, Scheduler.addTask] at ht
      split_ifs at ht
      cases ht
      rfl
  | schedule =>
      cases ht
      exact Scheduler.schedule_readyQueue hready
  | exitCurrent =>
      cases ht
      exact Scheduler.schedule_readyQueue hready

/-- A task with `k` tasks ahead of it runs after at most `k + 1` calls. -/
theorem run_waits {k task : Nat} {es : List Event} {s t : Scheduler}
    (hk : s.readyQueue[k]? = some task) (hrun : run step Allowed s es = some t)
    (hcalls : k + 1 ≤ es.countP Event.calls) :
    ∃ es' u, es' <+: es ∧ es'.countP Event.calls ≤ k + 1 ∧ run step Allowed s es' = some u ∧
      u.currentTask = task := by
  induction es generalizing s k with
  | nil => simp at hcalls
  | cons e es ih =>
      obtain ⟨next, queue, hready⟩ : ∃ next queue, s.readyQueue = next :: queue := by
        apply List.exists_cons_of_ne_nil
        intro hnil
        simp [hnil] at hk
      simp only [run] at hrun
      split at hrun
      · rename_i hallowed
        split at hrun
        · cases hrun
        · rename_i u hu
          have hstep := step_readyQueue hready hu
          have hcons (es' : List Event) :
              run step Allowed s (e :: es') = run step Allowed u es' := by
            simp only [run, if_pos hallowed, hu]
          cases hcall : e.calls with
          | false =>
              rw [hcall, if_neg (by simp)] at hstep
              rw [List.countP_cons_of_neg (by simp [hcall])] at hcalls
              obtain ⟨es', v, hprefix, hcount, hv, hcurrent⟩ := ih (hstep ▸ hk) hrun hcalls
              refine ⟨e :: es', v, List.cons_prefix_cons.mpr ⟨rfl, hprefix⟩, ?_, ?_, hcurrent⟩
              · rwa [List.countP_cons_of_neg (by simp [hcall])]
              · rw [hcons, hv]
          | true =>
              rw [hcall, if_pos rfl] at hstep
              rw [List.countP_cons_of_pos hcall] at hcalls
              cases k with
              | zero =>
                  refine ⟨[e], u, ⟨es, rfl⟩, ?_, ?_, ?_⟩
                  · rw [List.countP_cons_of_pos hcall, List.countP_nil]
                  · rw [hcons, run]
                  · rw [hready] at hk
                    rw [hstep.1]
                    simpa using hk
              | succ k =>
                  have hk' : u.readyQueue[k]? = some task := by
                    rw [hready, List.getElem?_cons_succ] at hk
                    obtain ⟨rest, hrest⟩ := hstep.2
                    obtain ⟨hlt, -⟩ := List.getElem?_eq_some_iff.mp hk
                    rw [← hrest, List.getElem?_append_left hlt, hk]
                  obtain ⟨es', v, hprefix, hcount, hv, hcurrent⟩ := ih hk' hrun (by omega)
                  refine ⟨e :: es', v, List.cons_prefix_cons.mpr ⟨rfl, hprefix⟩, ?_, ?_, hcurrent⟩
                  · rw [List.countP_cons_of_pos hcall]
                    omega
                  · rw [hcons, hv]
      · cases hrun

/-- With no arrivals and exits the calls run the circle in turn, and with them a
task waits for no more calls than there are tasks ahead of it. -/
theorem started_fair (s : Scheduler) (h : Started s) :
    (s.runnable ≠ [] →
      (∀ i, s.runnable[i % s.runnable.length]? = some (Scheduler.schedule^[i + 1] s).currentTask) ∧
      (∀ j, ((List.range s.runnable.length).map fun k =>
        (Scheduler.schedule^[j + k + 1] s).currentTask).Perm s.runnable) ∧
      s.runnable.Nodup ∧ s.idleTask ∉ s.runnable) ∧
    ∀ k task es t, s.readyQueue[k]? = some task → run step Allowed s es = some t →
      k + 1 ≤ es.countP Event.calls →
      ∃ es' u, es' <+: es ∧ es'.countP Event.calls ≤ k + 1 ∧ run step Allowed s es' = some u ∧
        u.currentTask = task := by
  have hinv := started_inv h
  refine ⟨fun hL => ⟨hinv.iterate_current hL, hinv.round_perm hL, ?_,
    hinv.idle_notMem_runnable⟩, fun k task es t hk hrun hcalls => run_waits hk hrun hcalls⟩
  have hnodup := hinv.queued.nodup
  simp only [List.append_assoc, List.nodup_append, List.mem_append] at hnodup
  simp only [Scheduler.runnable, List.append_assoc, List.nodup_append, List.mem_append]
  grind

/-- Two tasks that have been added run in turn. -/
theorem started_fair_two :
    let s : Scheduler := ⟨[⟨0, .ready⟩, ⟨1, .running⟩, ⟨2, .ready⟩], 3, [], [2], [], 1, 0⟩
    (s.runnable ≠ [] →
      (∀ i, s.runnable[i % s.runnable.length]? = some (Scheduler.schedule^[i + 1] s).currentTask) ∧
      (∀ j, ((List.range s.runnable.length).map fun k =>
        (Scheduler.schedule^[j + k + 1] s).currentTask).Perm s.runnable) ∧
      s.runnable.Nodup ∧ s.idleTask ∉ s.runnable) ∧
    ∀ k task es t, s.readyQueue[k]? = some task → run step Allowed s es = some t →
      k + 1 ≤ es.countP Event.calls →
      ∃ es' u, es' <+: es ∧ es'.countP Event.calls ≤ k + 1 ∧ run step Allowed s es' = some u ∧
        u.currentTask = task :=
  started_fair _ ⟨Scheduler.new.start, rfl,
    reflTransGen_of_run [.schedulerAddTask, .schedulerAddTask, .schedule] (by decide)⟩

end Kruspix.Kernel.Sched
