import Kruspix.Kernel.LockOrder

/-!
# Interrupts never wait for a lock

What an interrupt takes of the three locks that tasks hold with interrupts enabled is
read off what it is to do. It does not wait as long as it takes none that is held.
-/

namespace Kruspix.Kernel.Locks

open Lib Lib.Transition Lib.Preemption

variable {l : Lock} {body : Code} {s : State Lock}

/-! ## What a dispatch takes -/

/-- The heap grows. -/
def HeapUse.grows : HeapUse → Bool
  | .alloc pages => !pages.isEmpty
  | .dealloc => false

/-- A lock that the heap takes for these uses. -/
def Needs (uses : List HeapUse) : Lock → Prop
  | .heapManager => uses ≠ []
  | .bootPhysMemManager => ∃ use ∈ uses, use.grows = true
  | _ => False

/-- What a scheduling round uses of the heap. -/
def Schedule.uses (c : Schedule) : List HeapUse :=
  c.news.flatMap (fun task => task.2) ++
    if c.stays then [] else if c.mayContinue && !c.isIdle then c.growth else []

def Stop.uses (stop : Stop) : List HeapUse := (stop.taken.map fun taken => taken.2).getD []

/-- The stops of an interrupt of the USB controller. -/
def Handler.stops : Handler → List Stop
  | .usb _ _ stops channel => stops ++ (channel.bind fun irq => irq.stop).toList
  | _ => []

/-- The words that the mailbox holds, and what its queue asks for. -/
def Handler.words : Handler → List (List HeapUse)
  | .mailbox words => words
  | _ => []

/-- What a handler uses of the heap. -/
def Handler.uses (handler : Handler) : List HeapUse :=
  handler.words.flatten ++ handler.stops.flatMap Stop.uses

/-- What an interrupt uses of the heap. -/
def Dispatch.uses (d : Dispatch) : List HeapUse :=
  d.handlers.flatMap Handler.uses ++ (d.schedule.map Schedule.uses).getD []

/-- The interrupt asks for the heap, for frames or for the queue of the mailbox. -/
def Dispatch.Needs (d : Dispatch) (l : Lock) : Prop :=
  Locks.Needs d.uses l ∨
    (l = .bootPhysMemManager ∧
      ∃ handler ∈ d.handlers, ∃ stop ∈ handler.stops, stop.taken.isSome = true) ∨
    (l = .mailboxQueue ∧ ∃ handler ∈ d.handlers, handler.words ≠ [])

theorem Needs.mono {uses uses' : List HeapUse} (h : Needs uses l) (hsub : uses ⊆ uses') :
    Needs uses' l := by
  cases l with
  | heapManager =>
      intro hempty
      rw [hempty, List.subset_nil] at hsub
      exact h hsub
  | bootPhysMemManager =>
      obtain ⟨use, huse, hgrows⟩ := h
      exact ⟨use, hsub huse, hgrows⟩
  | _ => exact h

theorem Lock.Plain.not_masking (hl : l.Plain) : ¬l.Masking := by
  cases l <;> simp_all [Lock.Plain, Lock.Masking]

@[simp] theorem mem_lock {k : Lock} :
    .lock l ∈ k.lock body ↔ l = k ∨ .lock l ∈ body := by
  simp [Lock.lock]

@[simp] theorem mem_withoutIrqFiq : .lock l ∈ withoutIrqFiq body ↔ .lock l ∈ body := by
  simp [withoutIrqFiq]

@[simp] theorem mem_lockIrq {k : Lock} :
    .lock l ∈ k.lockIrq body ↔ l = k ∨ .lock l ∈ body := by
  simp [Lock.lockIrq]

theorem mem_allocHeapPage {tables : Nat} (h : .lock l ∈ allocHeapPage tables) :
    l = .bootPhysMemManager := by
  simp only [allocHeapPage, mapPage, allocFrame, List.mem_append, List.mem_flatMap, mem_lock,
    List.not_mem_nil, or_false] at h
  rcases h with h | ⟨_, -, h⟩ <;> exact h

theorem HeapUse.mem_code {use : HeapUse} (h : .lock l ∈ use.code) :
    l = .heapManager ∨ (l = .bootPhysMemManager ∧ use.grows = true) := by
  cases use with
  | alloc pages =>
      rw [HeapUse.code, Locks.alloc, mem_lock, List.mem_flatMap] at h
      rcases h with h | ⟨tables, htables, h⟩
      · exact .inl h
      · refine .inr ⟨mem_allocHeapPage h, ?_⟩
        simpa [HeapUse.grows] using List.ne_nil_of_mem htables
  | dealloc =>
      rw [HeapUse.code, Locks.dealloc, mem_lock] at h
      rcases h with h | h
      · exact .inl h
      · cases h

theorem mem_heap {uses : List HeapUse} (h : .lock l ∈ heap uses) : Needs uses l := by
  obtain ⟨use, huse, h⟩ := List.mem_flatMap.mp h
  rcases HeapUse.mem_code h with rfl | ⟨rfl, hgrows⟩
  · exact List.ne_nil_of_mem huse
  · exact ⟨use, huse, hgrows⟩

theorem mem_regs {indices : List Nat} (h : .lock l ∈ regs indices) : l.Masking := by
  obtain ⟨index, -, h⟩ := List.mem_flatMap.mp h
  simp only [withRegLock, mem_withoutIrqFiq, mem_lock, List.not_mem_nil, or_false] at h
  subst h
  trivial

theorem Console.mem_write {console : Console} (h : .lock l ∈ console.write) : l.Masking := by
  cases console with
  | miniUart => cases h
  | fbConsole dev =>
      simp only [Console.write, mem_lockIrq, List.not_mem_nil, or_false] at h
      subst h
      trivial

theorem mem_kprintln {writes : List ConsoleWrite} (h : .lock l ∈ kprintln writes) :
    l.Masking := by
  obtain ⟨w, -, h⟩ := List.mem_flatMap.mp h
  rw [ConsoleWrite.code] at h
  split at h
  · rw [mem_lockIrq, List.mem_flatMap] at h
    rcases h with rfl | ⟨console, -, h⟩
    · trivial
    · exact Console.mem_write h
  · rw [List.mem_append, mem_lockIrq, mem_lockIrq] at h
    split at h <;> simp only [mem_lockIrq, List.not_mem_nil, or_false] at h
    · rcases h with rfl | rfl <;> trivial
    · rcases h with rfl | rfl | rfl <;> trivial

theorem Schedule.mem_prepareNewTasks {c : Schedule} (h : .lock l ∈ c.prepareNewTasks) :
    l.Masking ∨ Needs c.uses l := by
  simp only [Schedule.prepareNewTasks, mem_lock, List.mem_flatMap, List.mem_append,
    List.not_mem_nil, or_false] at h
  rcases h with rfl | rfl | ⟨task, htask, rfl | h⟩
  · exact .inl trivial
  · exact .inl trivial
  · exact .inl trivial
  · apply Or.inr
    apply (mem_heap h).mono
    intro use huse
    exact List.mem_append_left _ (List.mem_flatMap.mpr ⟨task, htask, huse⟩)

theorem Schedule.mem_code {c : Schedule} (h : .lock l ∈ c.code) : l.Masking ∨ Needs c.uses l := by
  simp only [Schedule.code, List.mem_append, mem_lock, List.not_mem_nil, or_false] at h
  rcases h with (((h | rfl) | rfl) | rfl) | h
  · exact c.mem_prepareNewTasks h
  · exact .inl trivial
  · exact .inl trivial
  · exact .inl trivial
  · split at h
    · cases h
    · rename_i hstays
      simp only [List.mem_append, mem_lock, List.not_mem_nil, or_false] at h
      rcases h with ((h | rfl) | h) | rfl
      · split at h
        · rename_i hready
          rw [mem_lock] at h
          rcases h with rfl | h
          · exact .inl trivial
          · apply Or.inr
            apply (mem_heap h).mono
            rw [Schedule.uses, if_neg hstays, if_pos hready]
            exact List.subset_append_right _ _
        · cases h
      · exact .inl trivial
      · split at h
        · simp only [mem_lock, List.not_mem_nil, or_false] at h
          subst h
          exact .inl trivial
        · cases h
      · exact .inl trivial

/-- What stopping a transfer takes. -/
theorem Stop.mem_code {stop : Stop} {dev : Nat} (h : .lock l ∈ stop.code dev) :
    l.Masking ∨ Needs stop.uses l ∨ (l = .bootPhysMemManager ∧ stop.taken.isSome = true) := by
  simp only [Stop.code, List.mem_append, mem_lockIrq, List.not_mem_nil, or_false] at h
  rcases h with ((h | h) | rfl) | h
  · exact .inl (mem_regs h)
  · exact .inl (mem_kprintln h)
  · exact .inl trivial
  · split at h
    · cases h
    · rename_i keyboard frees htaken
      simp only [deallocFrame, List.mem_append, mem_lock, mem_lockIrq, List.not_mem_nil,
        or_false] at h
      rcases h with (rfl | rfl) | h
      · exact .inl trivial
      · exact .inr (.inr ⟨rfl, by rw [htaken]; rfl⟩)
      · apply Or.inr
        apply Or.inl
        rw [Stop.uses, htaken]
        exact mem_heap h

theorem ChannelIrq.mem_code {irq : ChannelIrq} {dev : Nat} (h : .lock l ∈ irq.code dev) :
    l.Masking ∨ ∃ stop, irq.stop = some stop ∧ .lock l ∈ stop.code dev := by
  simp only [ChannelIrq.code, List.mem_append, mem_lock] at h
  rcases h with (h | rfl | (h | h) | h) | h
  · exact .inl (mem_regs h)
  · exact .inl trivial
  · exact .inl (mem_regs h)
  · exact .inl (mem_kprintln h)
  · split at h
    · cases h
    · simp only [mem_lock, List.not_mem_nil, or_false] at h
      subst h
      exact .inl trivial
  · split at h
    · cases h
    · rename_i stop hstop
      exact .inr ⟨stop, hstop, h⟩

theorem Handler.mem_code {handler : Handler} (h : .lock l ∈ handler.code) :
    l.Masking ∨ Needs handler.uses l ∨
      (l = .bootPhysMemManager ∧ ∃ stop ∈ handler.stops, stop.taken.isSome = true) ∨
      (l = .mailboxQueue ∧ handler.words ≠ []) := by
  have hstop : ∀ stop ∈ handler.stops, ∀ dev, .lock l ∈ stop.code dev →
      l.Masking ∨ Needs handler.uses l ∨
        (l = .bootPhysMemManager ∧ ∃ stop ∈ handler.stops, stop.taken.isSome = true) ∨
        (l = .mailboxQueue ∧ handler.words ≠ []) := by
    intro stop hmem dev h
    rcases Stop.mem_code h with h | h | ⟨rfl, htaken⟩
    · exact .inl h
    · refine .inr (.inl (h.mono fun use huse => ?_))
      exact List.mem_append_right _ (List.mem_flatMap.mpr ⟨stop, hmem, huse⟩)
    · exact .inr (.inr (.inl ⟨rfl, stop, hmem, htaken⟩))
  cases handler with
  | controller => cases h
  | alarm => cases h
  | dma => cases h
  | uart dev =>
      simp only [Handler.code, mem_lock, List.not_mem_nil, or_false] at h
      subst h
      exact .inl trivial
  | mailbox words =>
      simp only [Handler.code, List.mem_flatMap, mem_lock] at h
      obtain ⟨growth, hgrowth, rfl | h⟩ := h
      · exact .inr (.inr (.inr ⟨rfl, List.ne_nil_of_mem hgrowth⟩))
      · refine .inr (.inl ((mem_heap h).mono fun use huse => ?_))
        exact List.mem_append_left _ (List.mem_flatten.mpr ⟨growth, hgrowth, huse⟩)
  | usb dev reads stops channel =>
      simp only [Handler.code, List.mem_append, List.mem_flatMap] at h
      rcases h with ((h | ⟨stop, hmem, h⟩) | h) | h
      · exact .inl (mem_regs h)
      · exact hstop stop (List.mem_append_left _ hmem) dev h
      · cases channel with
        | none => cases h
        | some irq =>
            rcases ChannelIrq.mem_code h with h | ⟨stop, hsome, h⟩
            · exact .inl h
            · apply hstop stop _ dev h
              apply List.mem_append_right
              rw [Option.mem_toList]
              exact hsome
      · exact .inl (mem_regs h)

/-- A dispatch takes the locks that tasks hold with interrupts enabled only when what it
is to do asks for them. -/
theorem Dispatch.needs_of_mem {d : Dispatch} (hl : l.Plain)
    (h : .lock l ∈ globalIrqDispatch d) : d.Needs l := by
  have hnot := hl.not_masking
  rw [globalIrqDispatch, List.mem_append, List.mem_flatMap] at h
  rcases h with ⟨handler, hmem, h⟩ | h
  · have huses : handler.uses ⊆ d.uses := by
      intro use huse
      exact List.mem_append_left _ (List.mem_flatMap.mpr ⟨handler, hmem, huse⟩)
    simp only [dispatchIrq, List.mem_append, mem_lock, List.not_mem_nil, or_false] at h
    rcases h with rfl | h
    · exact absurd trivial hnot
    · rcases Handler.mem_code h with hmasking | hneeds | ⟨rfl, hstop⟩ | ⟨rfl, hwords⟩
      · exact absurd hmasking hnot
      · exact .inl (hneeds.mono huses)
      · exact .inr (.inl ⟨rfl, handler, hmem, hstop⟩)
      · exact .inr (.inr ⟨rfl, handler, hmem, hwords⟩)
  · split at h
    · cases h
    · rename_i c hschedule
      have hcode : .lock l ∈ c.code := by
        simp only [yieldTask, Schedule.switch, List.mem_cons, List.mem_append,
          List.not_mem_nil, or_false, reduceCtorEq, false_or] at h
        split at h <;> simpa using h
      rcases Schedule.mem_code hcode with h | h
      · exact absurd h hnot
      · refine .inl (h.mono fun use huse => List.mem_append_right _ ?_)
        rw [hschedule]
        exact huse

/-! ## The system -/

/-- What happens next on the processor. -/
inductive Event
  | exec
  | call (c : Call)
  | dispatch (d : Dispatch)
  | spawn

/-- One event of the kernel; a call that wants interrupts masked is refused with them open. -/
def step (s : State Lock) : Event → Option (State Lock)
  | .exec => s.exec
  | .call c =>
      match s.tasks[s.current]? with
      | none => none
      | some t => if c.needsMask && !t.frame.masked then none else s.call c.code
  | .dispatch d => s.interrupt (globalIrqDispatch d)
  | .spawn => some s.spawn

/-- No interrupt is taken that asks for the heap, for frames or for the queue of the
mailbox while a task holds its lock. -/
def Undisturbed (s : State Lock) : Event → Prop
  | .dispatch d => ∀ l ∈ [Lock.heapManager, .bootPhysMemManager, .mailboxQueue],
      d.Needs l → ¬s.Held l
  | _ => True

instance (uses : List HeapUse) (l : Lock) : Decidable (Needs uses l) := by
  cases l <;> unfold Needs <;> infer_instance

instance (d : Dispatch) (l : Lock) : Decidable (d.Needs l) := by
  unfold Dispatch.Needs
  infer_instance

instance (s : State Lock) (e : Event) : Decidable (Undisturbed s e) := by
  cases e <;> unfold Undisturbed <;> infer_instance

/-- The code that a task calls. -/
def Calls (masked : Bool) (code : Code) : Prop :=
  ∃ c : Call, c.code = code ∧ (c.needsMask = true → masked = true)

/-- The code of an interrupt. -/
def Interrupts (code : Code) : Prop := ∃ d, globalIrqDispatch d = code

theorem discipline : Discipline Lock.Masking Lock.Plain Lock.rank Calls Interrupts := by
  constructor
  · rintro masked _ ⟨c, rfl, hmask⟩ config hopen rfl
    exact c.code_passes hopen hmask
  · rintro _ ⟨d, rfl⟩
    exact globalIrqDispatch_serves d

/-- An event of the kernel is one of a processor that executes its code. -/
theorem Undisturbed.preemption {e : Event} {t : State Lock} (he : Undisturbed s e)
    (hst : step s e = some t) :
    Step Preemption.step (Preemption.Undisturbed Lock.Plain Calls Interrupts) s t := by
  cases e with
  | exec => exact ⟨.exec, trivial, hst⟩
  | call c =>
      rw [step] at hst
      split at hst
      · cases hst
      rename_i task htask
      split at hst
      · cases hst
      rename_i hmask
      refine ⟨.call c.code, fun task' htask' => ⟨c, rfl, fun hneeds => ?_⟩, hst⟩
      obtain rfl := Option.some.inj (htask.symm.trans htask')
      simpa [hneeds] using hmask
  | dispatch d =>
      refine ⟨.interrupt (globalIrqDispatch d), ⟨⟨d, rfl⟩, fun l hl hmem => ?_⟩, hst⟩
      apply he l _ (d.needs_of_mem hl hmem)
      cases l <;> simp_all [Lock.Plain]
  | spawn => exact ⟨.spawn, trivial, hst⟩

/-- In every run whose interrupts meet the condition, an interrupt finds the locks free
that it takes, and each thing it does brings it closer to its end. -/
theorem undisturbed_safe (h : Reachable Started (Step step Undisturbed) s) :
    Safe s ∧ Advances s := by
  obtain ⟨s₀, h₀, hrun⟩ := h
  have hsteps := Relation.ReflTransGen.mono
    (fun _ _ ⟨_, he, hst⟩ => Undisturbed.preemption he hst) _ _ hrun
  have hsafe : Safe s := discipline.safe ⟨s₀, h₀, hsteps⟩
  exact ⟨hsafe, hsafe.advances⟩

/-- The processor after the start, with interrupts masked. -/
def started : State Lock := ⟨[⟨⟨⟨[], [], true⟩, []⟩, none⟩], 0⟩

theorem started_started : Started started := ⟨true, rfl⟩

/-- The mailbox has one word, and its queue does not grow. -/
def wordArrives : Dispatch := ⟨[.mailbox [[]]], none⟩

/-- The code that an interrupt still has to do on the processor. -/
def pendingCode (s : State Lock) : Option Code :=
  (s.tasks[s.current]?.bind fun t => t.interrupt).map fun f => f.code

/-- A word arrives while the task does nothing with the mailbox. -/
theorem undisturbed_safe_mailbox :
    ∃ s, pendingCode s = some [.lock .mailboxQueue, .unlock .mailboxQueue] ∧
      Safe s ∧ Advances s := by
  have hrun : (run step Undisturbed started [.call .localEnableIrqFiq, .exec,
      .dispatch wordArrives, .exec, .exec]).map pendingCode =
        some (some [.lock .mailboxQueue, .unlock .mailboxQueue]) := by
    decide +kernel
  obtain ⟨s, hs, hcode⟩ := Option.map_eq_some_iff.mp hrun
  exact ⟨s, hcode, undisturbed_safe ⟨started, started_started, reflTransGen_of_run _ hs⟩⟩

/-- A word arrives while a task holds the queue in `receive`: the interrupt tries the
lock of the queue for ever. -/
theorem receive_not_safe : ¬∀ s, Reachable Started (Step step fun _ _ => True) s →
    Safe s ∧ Advances s := by
  intro h
  have hrun : (run step (fun _ _ => True) started [.call .localEnableIrqFiq, .exec,
      .call (.work (.mailboxReceive [])), .exec, .dispatch wordArrives, .exec, .exec]).any
        fun s => pendingCode s = some [.lock .mailboxQueue, .unlock .mailboxQueue] ∧
          s.Held .mailboxQueue := by
    decide +kernel
  obtain ⟨s, hs, hstuck⟩ := (Option.any_eq_true _ _).mp hrun
  obtain ⟨hcode, hheld⟩ := of_decide_eq_true hstuck
  obtain ⟨hsafe, -⟩ := h s ⟨started, started_started, reflTransGen_of_run _ hs⟩
  obtain ⟨f, hf, hfcode⟩ := Option.map_eq_some_iff.mp hcode
  obtain ⟨t, ht, htf⟩ := Option.bind_eq_some_iff.mp hf
  exact hsafe t f _ _ ht htf hfcode hheld

end Kruspix.Kernel.Locks
