import Kruspix.Kernel.Locks
import Kruspix.Lib.PreemptionSafety

/-!
# Interrupts and the locks of tasks

Tasks take the locks that interrupts take with interrupts masked, but for three: the
heap, the frame allocator and the queue of the mailbox.
-/

namespace Kruspix.Kernel.Locks

open Lib Lib.Transition Lib.Preemption

variable {body code : Code} {n : Nat}

/-- The locks that are held only with interrupts masked. -/
def Lock.Masking : Lock → Prop
  | .globalHandlers | .uartBuffer _ | .usbInterrupt _ | .keyboardState _ | .addrLock _
  | .newQueue | .readyQueue | .currentTask | .taskState _
  | .systemConsoles | .earlyConsole | .bootConsole | .fbConsoleState _ => True
  | _ => False

/-- The locks that interrupts take, and tasks take with interrupts enabled. -/
def Lock.Plain : Lock → Prop
  | .heapManager | .bootPhysMemManager | .mailboxQueue => True
  | _ => False

/-- An interrupt takes a lock only while it holds locks of lower ranks. -/
def Lock.rank : Lock → Nat
  | .keyboardState _ | .readyQueue | .systemConsoles => 1
  | .earlyConsole | .taskState _ => 2
  | .bootConsole | .fbConsoleState _ => 3
  | .heapManager => 4
  | .bootPhysMemManager => 5
  | .addrLock _ => 6
  | _ => 0

/-- The lock is taken by tasks and by interrupts. -/
def Lock.Shared (l : Lock) : Prop := l.Masking ∨ l.Plain

/-! ## Sections -/

/-- Code that a task may run with interrupts enabled. -/
abbrev Kept (code : Code) : Prop := Keeps Lock.Masking (fun c => c.Ok Lock.Masking) code

/-- Code that a task may run with interrupts masked. -/
abbrev KeptMasked (code : Code) : Prop := Keeps Lock.Masking (fun c => c.masked = true) code

/-- The code takes shared locks in ascending order, from a rank on. -/
abbrev Ranked (n : Nat) (code : Code) : Prop := Ascends Lock.Shared Lock.rank n code

theorem Kept.masked (h : Kept code) : KeptMasked code := by
  apply h.mono
  exact fun c hc => .inl hc

theorem Lock.lock_keptMasked (l : Lock) (h : KeptMasked body) : KeptMasked (l.lock body) := by
  apply Keeps.lock h
  · exact fun c hc => ⟨.inl hc, hc⟩
  · exact fun c hc => .inl hc

theorem Lock.lock_kept (l : Lock) (hl : ¬l.Masking) (h : Kept body) : Kept (l.lock body) := by
  apply Keeps.lock h
  · intro c hc
    refine ⟨hc, ?_⟩
    rcases hc with hmasked | hopen
    · exact .inl hmasked
    · apply Or.inr
      intro k hk
      rcases List.mem_cons.mp hk with rfl | hk
      · exact hl
      · exact hopen k hk
  · exact fun c hc => hc

theorem withoutIrqFiq_kept (h : KeptMasked body) : Kept (withoutIrqFiq body) := by
  apply Keeps.disable h
  exact fun c hc => hc

theorem Lock.lockIrq_kept (l : Lock) (h : KeptMasked body) : Kept (l.lockIrq body) :=
  withoutIrqFiq_kept (l.lock_keptMasked h)

theorem Lock.lock_ranked (l : Lock) (hl : l.Shared) (hrank : n ≤ l.rank)
    (h : Ranked (l.rank + 1) body) : Ranked n (l.lock body) :=
  Ascends.lock hl hrank h

theorem Lock.lockIrq_ranked (l : Lock) (hl : l.Shared) (hrank : n ≤ l.rank)
    (h : Ranked (l.rank + 1) body) : Ranked n (l.lockIrq body) :=
  Ascends.disable (l.lock_ranked hl hrank h)

/-! ## Memory -/

theorem allocFrame_kept : Kept allocFrame :=
  Lock.bootPhysMemManager.lock_kept id .nil

theorem deallocFrame_kept : Kept deallocFrame :=
  Lock.bootPhysMemManager.lock_kept id .nil

theorem mapPage_kept (tables : Nat) : Kept (mapPage tables) :=
  .flatMap (fun _ => allocFrame_kept) _

theorem alloc_kept (pages : List Nat) : Kept (alloc pages) := by
  apply Lock.heapManager.lock_kept id
  apply Keeps.flatMap
  intro tables
  exact allocFrame_kept.append (mapPage_kept tables)

theorem HeapUse.code_kept (use : HeapUse) : Kept use.code := by
  cases use with
  | alloc pages => exact alloc_kept pages
  | dealloc => exact Lock.heapManager.lock_kept id .nil

theorem heap_kept (uses : List HeapUse) : Kept (heap uses) :=
  .flatMap HeapUse.code_kept uses

theorem allocFrame_ranked : Ranked 5 allocFrame :=
  Lock.bootPhysMemManager.lock_ranked (.inr trivial) (Nat.le_refl _) .nil

theorem mapPage_ranked (tables : Nat) : Ranked 5 (mapPage tables) :=
  .flatMap (fun _ => allocFrame_ranked) _

theorem HeapUse.code_ranked (use : HeapUse) : Ranked 4 use.code := by
  cases use with
  | alloc pages =>
      apply Lock.heapManager.lock_ranked (.inr trivial) (Nat.le_refl _)
      apply Ascends.flatMap
      intro tables
      exact allocFrame_ranked.append (mapPage_ranked tables)
  | dealloc => exact Lock.heapManager.lock_ranked (.inr trivial) (Nat.le_refl _) .nil

theorem heap_ranked (uses : List HeapUse) : Ranked 4 (heap uses) :=
  .flatMap HeapUse.code_ranked uses

/-! ## Consoles and registers -/

theorem Console.write_kept (console : Console) : Kept console.write := by
  cases console with
  | miniUart => exact .nil
  | fbConsole dev => exact (Lock.fbConsoleState dev).lockIrq_kept .nil

theorem ConsoleWrite.code_kept (w : ConsoleWrite) : Kept w.code := by
  rw [ConsoleWrite.code]
  split
  · apply Lock.lockIrq_kept
    exact .flatMap (fun console => console.write_kept.masked) _
  · apply Keeps.append (Lock.systemConsoles.lockIrq_kept .nil)
    apply Lock.lockIrq_kept
    split
    · exact .nil
    · exact (Lock.bootConsole.lockIrq_kept .nil).masked

theorem kprintln_kept (writes : List ConsoleWrite) : Kept (kprintln writes) :=
  .flatMap ConsoleWrite.code_kept writes

theorem regs_kept (indices : List Nat) : Kept (regs indices) :=
  .flatMap (fun index => (Lock.addrLock index).lockIrq_kept .nil) indices

theorem Console.write_ranked (console : Console) : Ranked 2 console.write := by
  cases console with
  | miniUart => exact .nil
  | fbConsole dev =>
      apply (Lock.fbConsoleState dev).lockIrq_ranked (.inl trivial) (Nat.le_succ 2)
      exact .nil

theorem ConsoleWrite.code_ranked (w : ConsoleWrite) : Ranked 1 w.code := by
  rw [ConsoleWrite.code]
  split
  · apply Lock.systemConsoles.lockIrq_ranked (.inl trivial) (Nat.le_refl _)
    exact .flatMap Console.write_ranked _
  · apply Ascends.append
    · exact Lock.systemConsoles.lockIrq_ranked (.inl trivial) (Nat.le_refl _) .nil
    · apply Lock.earlyConsole.lockIrq_ranked (.inl trivial) (Nat.le_succ 1)
      split
      · exact .nil
      · exact Lock.bootConsole.lockIrq_ranked (.inl trivial) (Nat.le_refl _) .nil

theorem kprintln_ranked (writes : List ConsoleWrite) : Ranked 1 (kprintln writes) :=
  .flatMap ConsoleWrite.code_ranked writes

theorem regs_ranked (indices : List Nat) : Ranked 6 (regs indices) :=
  .flatMap (fun index => (Lock.addrLock index).lockIrq_ranked (.inl trivial) (Nat.le_refl _) .nil)
    indices

/-! ## The scheduler -/

theorem Schedule.prepareNewTasks_keptMasked (c : Schedule) : KeptMasked c.prepareNewTasks := by
  apply Lock.lock_keptMasked
  apply Lock.lock_keptMasked
  apply Keeps.flatMap
  intro task
  exact (Lock.lock_keptMasked _ .nil).append (heap_kept task.2).masked

theorem Schedule.code_keptMasked (c : Schedule) : KeptMasked c.code := by
  have hsection : ∀ l : Lock, KeptMasked (l.lock []) := fun l => l.lock_keptMasked .nil
  rw [Schedule.code]
  apply Keeps.append
  · exact ((c.prepareNewTasks_keptMasked.append (hsection _)).append (hsection _)).append
      (hsection _)
  · split
    · exact .nil
    · apply Keeps.append _ (hsection _)
      apply Keeps.append
      · apply Keeps.append _ (hsection _)
        split
        · exact Lock.lock_keptMasked _ (heap_kept c.growth).masked
        · exact .nil
      · split
        · exact hsection _
        · exact .nil

/-- The scheduler leaves the processor only with interrupts masked, and comes back with
them as they were. -/
theorem Schedule.switch_kept (c : Schedule) (h : KeptMasked code) :
    Keeps Lock.Masking (fun d => d.Open Lock.Masking)
      (.disable :: (code ++ c.switch ++ [.restore])) := by
  rw [Schedule.switch]
  split
  · rw [List.append_nil]
    apply Keeps.disable h
    exact fun d hd => .inr hd
  · rw [List.append_assoc]
    exact Keeps.leave h c.next

theorem yieldTask_kept (c : Schedule) :
    Keeps Lock.Masking (fun d => d.Open Lock.Masking) (yieldTask c) :=
  c.switch_kept c.code_keptMasked

theorem terminateTask_kept (c : Schedule) (growth : List HeapUse) :
    Keeps Lock.Masking (fun d => d.Open Lock.Masking) (terminateTask c growth) := by
  apply c.switch_kept
  refine Keeps.append (Keeps.append (Keeps.append ?_ ?_) ?_) c.code_keptMasked
  · exact Lock.lock_keptMasked _ .nil
  · exact Lock.lock_keptMasked _ .nil
  · exact Lock.lock_keptMasked _ (heap_kept growth).masked

theorem addTask_kept (task growth drop : List HeapUse) : Kept (addTask task growth drop) := by
  apply Keeps.append _ (heap_kept drop)
  apply (heap_kept task).append
  apply withoutIrqFiq_kept
  apply Lock.lock_keptMasked
  apply Kept.masked
  exact (heap_kept task).append (heap_kept growth)

theorem Schedule.prepareNewTasks_ranked (c : Schedule) : Ranked 0 c.prepareNewTasks := by
  apply Lock.newQueue.lock_ranked (.inl trivial) (Nat.le_refl _)
  apply Lock.readyQueue.lock_ranked (.inl trivial) (Nat.le_refl _)
  apply Ascends.flatMap
  intro task
  apply Ascends.append
  · exact (Lock.taskState _).lock_ranked (.inl trivial) (Nat.le_refl _) .nil
  · exact (heap_ranked task.2).mono (by decide)

theorem Schedule.code_ranked (c : Schedule) : Ranked 0 c.code := by
  have hcurrent : Ranked 0 (Lock.currentTask.lock []) :=
    Lock.currentTask.lock_ranked (.inl trivial) (Nat.le_refl _) .nil
  have hready : ∀ body, Ranked 2 body → Ranked 0 (Lock.readyQueue.lock body) :=
    fun _ hbody => Lock.readyQueue.lock_ranked (.inl trivial) (Nat.zero_le _) hbody
  have hstate : ∀ tid, Ranked 0 ((Lock.taskState tid).lock []) :=
    fun _ => (Lock.taskState _).lock_ranked (.inl trivial) (Nat.zero_le _) .nil
  rw [Schedule.code]
  apply Ascends.append
  · exact ((c.prepareNewTasks_ranked.append hcurrent).append (hstate _)).append (hready _ .nil)
  · split
    · exact .nil
    · apply Ascends.append _ (hstate _)
      apply Ascends.append
      · apply Ascends.append _ hcurrent
        split
        · exact hready _ ((heap_ranked c.growth).mono (by decide))
        · exact .nil
      · split
        · exact hstate _
        · exact .nil

/-! ## Drivers -/

theorem Stop.code_kept (stop : Stop) (dev : Nat) : Kept (stop.code dev) := by
  rw [Stop.code]
  apply Keeps.append
  · apply Keeps.append ((regs_kept _).append (kprintln_kept _))
    exact (Lock.usbInterrupt dev).lockIrq_kept .nil
  · split
    · exact .nil
    · apply Keeps.append _ (heap_kept _)
      exact ((Lock.keyboardState _).lockIrq_kept .nil).append deallocFrame_kept

theorem Stop.code_ranked (stop : Stop) (dev : Nat) : Ranked 0 (stop.code dev) := by
  rw [Stop.code]
  apply Ascends.append
  · apply Ascends.append
    · apply ((regs_ranked _).mono (Nat.zero_le _)).append
      exact (kprintln_ranked _).mono (Nat.zero_le _)
    · exact (Lock.usbInterrupt dev).lockIrq_ranked (.inl trivial) (Nat.le_refl _) .nil
  · split
    · exact .nil
    · apply Ascends.append _ ((heap_ranked _).mono (Nat.zero_le _))
      apply Ascends.append
      · exact (Lock.keyboardState _).lockIrq_ranked (.inl trivial) (Nat.zero_le _) .nil
      · exact Lock.bootPhysMemManager.lock_ranked (.inr trivial) (Nat.zero_le _) .nil

theorem ChannelIrq.code_ranked (irq : ChannelIrq) (dev : Nat) : Ranked 0 (irq.code dev) := by
  rw [ChannelIrq.code]
  apply Ascends.append
  · apply Ascends.append ((regs_ranked _).mono (Nat.zero_le _))
    apply (Lock.usbInterrupt dev).lock_ranked (.inl trivial) (Nat.le_refl _)
    apply Ascends.append
    · have hregs : Ranked 1 (Locks.regs irq.regs) := (regs_ranked _).mono (by decide)
      exact hregs.append (kprintln_ranked _)
    · split
      · exact .nil
      · exact (Lock.keyboardState _).lock_ranked (.inl trivial) (Nat.le_refl _) .nil
  · split
    · exact .nil
    · exact Stop.code_ranked _ dev

theorem Handler.code_ranked (handler : Handler) : Ranked 0 handler.code := by
  cases handler with
  | controller => exact .nil
  | alarm => exact .nil
  | dma => exact .nil
  | uart dev => exact (Lock.uartBuffer dev).lock_ranked (.inl trivial) (Nat.le_refl _) .nil
  | mailbox words =>
      apply Ascends.flatMap
      intro growth
      apply Lock.mailboxQueue.lock_ranked (.inr trivial) (Nat.le_refl _)
      exact (heap_ranked growth).mono (by decide)
  | usb dev reads stops channel =>
      have hreads : Ranked 0 (regs reads) := (regs_ranked reads).mono (Nat.zero_le _)
      apply Ascends.append _ hreads
      apply Ascends.append
      · exact hreads.append (.flatMap (fun stop => stop.code_ranked dev) stops)
      · cases channel with
        | none => exact .nil
        | some irq => exact irq.code_ranked dev

theorem dispatchIrq_ranked (handler : Handler) : Ranked 0 (dispatchIrq handler) :=
  (Lock.globalHandlers.lock_ranked (.inl trivial) (Nat.le_refl _) .nil).append handler.code_ranked

/-- Every dispatch takes its locks in the order of their ranks, and none after the
scheduler has left the processor. -/
theorem globalIrqDispatch_serves (d : Dispatch) :
    Serves Lock.Shared Lock.rank ⟨[], [], true⟩ (globalIrqDispatch d) := by
  have hnone : ∀ g ∈ ([] : List Lock), g.rank < 0 := fun g hg => by cases hg
  rw [globalIrqDispatch]
  apply Ascends.flatMap dispatchIrq_ranked d.handlers _ _ rfl hnone
  cases d.schedule with
  | none => exact trivial
  | some c =>
      refine ⟨trivial, _, rfl, rfl, ?_⟩
      rw [List.append_assoc]
      apply c.code_ranked _ _ rfl hnone
      rw [Schedule.switch]
      split
      · exact ⟨trivial, _, rfl, rfl, trivial⟩
      · refine ⟨⟨rfl, ?_⟩, _, rfl, rfl, ?_⟩
        · simp
        · exact ⟨trivial, _, rfl, rfl, trivial⟩

/-! ## Tasks -/

theorem Work.code_kept (w : Work) : Kept w.code := by
  induction w with
  | skip => exact .nil
  | seq first second hfirst hsecond => exact hfirst.append hsecond
  | guarded n irq body hbody =>
      rw [Work.code]
      split
      · exact (Lock.other n).lockIrq_kept hbody.masked
      · exact (Lock.other n).lock_kept id hbody
  | heap use => exact use.code_kept
  | allocFrame => exact allocFrame_kept
  | deallocFrame => exact deallocFrame_kept
  | mapPage tables => exact mapPage_kept tables
  | kprintln writes => exact kprintln_kept writes
  | regs indices => exact regs_kept indices
  | registerHandler => exact Lock.globalHandlers.lockIrq_kept .nil
  | registerController growth => exact Lock.controllers.lockIrq_kept (heap_kept growth).masked
  | enableIrq indices => exact Lock.controllers.lockIrq_kept (regs_kept indices).masked
  | resolveVirq => exact Lock.controllers.lockIrq_kept .nil
  | mailboxReady => exact Lock.mailbox.lockIrq_kept .nil
  | mailboxSend => exact Lock.mailbox.lockIrq_kept .nil
  | mailboxReceive growth => exact Lock.mailboxQueue.lock_kept id (heap_kept growth)
  | mailboxPop => exact Lock.mailboxQueue.lock_kept id .nil
  | uartRead dev uses => exact (Lock.uartBuffer dev).lockIrq_kept (heap_kept uses).masked
  | keyboardRead dev uses => exact (Lock.keyboardState dev).lockIrq_kept (heap_kept uses).masked
  | controlTransfer dev indices writes =>
      exact (Lock.usbControl dev).lock_kept id ((regs_kept indices).append (kprintln_kept writes))
  | interruptSection dev indices writes drops frees =>
      apply Lock.lockIrq_kept
      apply Kept.masked
      apply ((regs_kept indices).append (kprintln_kept writes)).append
      split
      · exact deallocFrame_kept.append (heap_kept frees)
      · exact .nil
  | stopInterrupt dev stop => exact stop.code_kept dev
  | addTask task growth drop => exact addTask_kept task growth drop
  | taskId => exact withoutIrqFiq_kept (Lock.lock_keptMasked _ .nil)

theorem BootWork.code_keptMasked (w : BootWork) : KeptMasked w.code := by
  cases w with
  | registerConsole growth writes =>
      apply Keeps.append _ (kprintln_kept writes).masked
      exact (Lock.lock_keptMasked _ (heap_kept growth).masked).append
        (Lock.lock_keptMasked _ .nil)
  | registerEarlyConsole => exact Lock.lock_keptMasked _ (Lock.lock_keptMasked _ .nil)
  | addrLock index => exact Lock.lock_keptMasked _ .nil

/-- What a task may call, with interrupts masked or not. -/
theorem Call.code_passes (call : Call) {c : Config Lock} (hopen : c.Open Lock.Masking)
    (hmask : call.needsMask = true → c.masked = true) :
    Passes Lock.Masking c call.code := by
  rw [← List.append_nil call.code]
  cases call with
  | work w => exact w.code_kept c [] (.inr hopen) hopen
  | yieldTask d => exact yieldTask_kept d c [] hopen hopen
  | terminateTask d growth => exact terminateTask_kept d growth c [] hopen hopen
  | boot w => exact w.code_keptMasked c [] (hmask rfl) hopen
  | localEnableIrqFiq => exact ⟨fun hswitch => (by cases hswitch), _, rfl, .inr hopen, hopen⟩
  | startSched writes uses first =>
      rw [List.append_nil]
      refine ⟨fun hswitch => (by cases hswitch), _, rfl, .inl rfl, ?_⟩
      have hbody : KeptMasked (kprintln writes ++ heap uses ++ Lock.globalHandlers.lockIrq [] ++
          Lock.currentTask.lock [] ++ (Lock.taskState first).lock []) := by
        refine Keeps.append (Keeps.append ?_ ?_) ?_
        · apply Kept.masked
          apply ((kprintln_kept writes).append (heap_kept uses)).append
          exact Lock.globalHandlers.lockIrq_kept .nil
        · exact Lock.lock_keptMasked _ .nil
        · exact Lock.lock_keptMasked _ .nil
      apply hbody _ _ rfl
      exact ⟨fun _ => hopen, _, rfl, .inl rfl, hopen⟩

end Kruspix.Kernel.Locks
