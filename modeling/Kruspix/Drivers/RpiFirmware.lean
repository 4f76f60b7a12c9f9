import Kruspix.Drivers.Mailbox
import Kruspix.Mm.Layout

/-!
# Property calls to the firmware

A call puts the address of its message into the mailbox and waits for one word.
The firmware answers an accepted request at any later time: it writes the
response code into the message and the word of the request into the mailbox. It
may write other words as well. A call holds the lock of the driver, so there is
one call at a time, but what a call leaves in the mailbox stays there for the next.
-/

namespace Kruspix.Drivers.RpiFirmware

open Lib.Transition Mm.Layout
open Mailbox (Word status_empty_iff)

def MBOX_0_CH_8_ARM_VC_TAGS : Word := 8#32

def REQUEST_CODE : Word := 0#32
def RESPONSE_CODE_SUCCESS : Word := 0x80000000#32

/-- The word that a call for the message at this address sends. -/
def requestWord (virtAddr : Nat) : Word :=
  BitVec.ofNat 32 (virtToPhys virtAddr) ||| MBOX_0_CH_8_ARM_VC_TAGS

/-- The next step of a call. `receive` stands for the steps of `receive_blocking`. -/
inductive PropertyStep where
  | ready
  | send
  | receive
  | check (result : Word)
  deriving DecidableEq, Repr

/-- A call with the message that it sends. -/
structure Call where
  id : Nat
  data : Word
  next : PropertyStep
  deriving DecidableEq, Repr

/-- What is recorded of a call that has returned: whether its request was
accepted and whether it was answered by then. -/
structure Return where
  id : Nat
  accepted : Bool
  answered : Bool
  isOk : Bool
  deriving DecidableEq, Repr

/-- The mailbox, the call that holds the lock, the accepted requests without an
answer, the oldest first, and the codes that the firmware has written. -/
structure State where
  mbox : Mailbox.State
  enabled : Bool
  call : Option Call
  calls : Nat
  pending : List (Nat × Word)
  answers : List (Nat × Word)
  returned : List Return
  deriving DecidableEq, Repr

/-- What happens next. A step of the call names what the status register of
mailbox 1 says and what a read of the empty FIFO returns. -/
inductive Event where
  | property (virtAddr : Nat)
  | call (full : Bool) (stale : Word)
  | answer (code : Word)
  | unrelated (word : Word)
  | preempt
  | handleIrq (stale : Word)
  deriving DecidableEq, Repr

/-- The mailbox has been taken, and it is enabled unless the device is not. -/
def start (enabled : Bool) : State := ⟨Mailbox.start, enabled, none, 0, [], [], []⟩

/-- `MailboxDevice::ready`. -/
def ready (enabled full : Bool) : Bool := enabled && !full

/-- `req_res_code` of the message of a call. -/
def State.reqResCode (s : State) (id : Nat) : Word := (s.answers.lookup id).getD REQUEST_CODE

/-- The call returns. -/
def State.ret (s : State) (call : Call) (accepted isOk : Bool) : State :=
  { s with
    call := none
    returned := ⟨call.id, accepted, (s.answers.lookup call.id).isSome, isOk⟩ :: s.returned }

/-- The word that the next step of `receive_blocking` returns. -/
def received (mbox : Mailbox.State) : Option Word :=
  if mbox.task = .popFront then mbox.queue.head? else none

/-- One step of `property`. -/
def callStep (s : State) (call : Call) (full : Bool) (stale : Word) : Option State :=
  match call.next with
  | .ready =>
      if ready s.enabled full then some { s with call := some { call with next := .send } }
      else some (s.ret call false false)
  | .send =>
      if !s.enabled then some (s.ret call false false)
      else
        match Mailbox.step s.mbox .receiveBlocking with
        | none => none
        | some mbox => some
            { s with
              mbox := mbox
              pending := s.pending ++ [(call.id, call.data)]
              call := some { call with next := .receive } }
  | .receive =>
      match Mailbox.step s.mbox (.task stale) with
      | none => none
      | some mbox =>
          match received s.mbox with
          | none => some { s with mbox := mbox }
          | some result => some
              { s with mbox := mbox, call := some { call with next := .check result } }
  | .check result =>
      if result ≠ call.data then some (s.ret call true false)
      else if s.reqResCode call.id ≠ RESPONSE_CODE_SUCCESS then some (s.ret call true false)
      else some (s.ret call true true)

/-- One event. A call moves only while no interrupt handler runs. -/
def step (s : State) : Event → Option State
  | .property virtAddr =>
      match s.call with
      | some _ => none
      | none => some
          { s with
            call := some ⟨s.calls, requestWord virtAddr, .ready⟩
            calls := s.calls + 1 }
  | .call full stale =>
      match s.call with
      | none => none
      | some call => if s.mbox.irq = none then callStep s call full stale else none
  | .answer code =>
      match s.pending with
      | [] => none
      | (id, word) :: pending =>
          match Mailbox.step s.mbox (.videoCoreWrite word) with
          | none => none
          | some mbox => some
              { s with mbox := mbox, pending := pending, answers := (id, code) :: s.answers }
  | .unrelated word =>
      match Mailbox.step s.mbox (.videoCoreWrite word) with
      | none => none
      | some mbox => some { s with mbox := mbox }
  | .preempt =>
      match Mailbox.step s.mbox .preempt with
      | none => none
      | some mbox => some { s with mbox := mbox }
  | .handleIrq stale =>
      match Mailbox.step s.mbox (.handleIrq stale) with
      | none => none
      | some mbox => some { s with mbox := mbox }

/-- The steps of the processor: it runs the handler, and the call when it is done. -/
def Event.OnCpu (_ : State) : Event → Prop
  | .call _ _ => True
  | .handleIrq _ => True
  | _ => False

/-- No word of another kind is in the mailbox or the queue when a request is
sent, and none is written while a call waits for its answer. -/
def Undisturbed (s : State) : Event → Prop
  | .call _ _ => ∀ call ∈ s.call, call.next = .send → s.mbox.fifo = [] ∧ s.mbox.queue = []
  | .unrelated _ => ∀ call ∈ s.call, call.next ≠ .receive
  | _ => True

instance (s : State) (e : Event) : Decidable (Undisturbed s e) := by
  cases e <;> unfold Undisturbed <;> infer_instance

/-- No call has returned before the answer to its request, and a call whose
request is answered with success returns, and returns `Ok`. -/
structure Sound (s : State) : Prop where
  answered : ∀ r ∈ s.returned, r.accepted → r.answered
  isOk : ∀ r ∈ s.returned, s.answers.lookup r.id = some RESPONSE_CODE_SUCCESS → r.isOk
  returns : ∀ call ∈ s.call, s.answers.lookup call.id = some RESPONSE_CODE_SUCCESS →
    Inevitable (Step step Event.OnCpu) (fun t => ∃ r ∈ t.returned, r.id = call.id ∧ r.isOk) s

/-- The handler reads the FIFO only when there is a word in it. -/
def IrqReads (m : Mailbox.State) : Prop := m.irq = some .readMbox0 → m.fifo ≠ []

/-- A call waits, and there is no word on its way. -/
structure Waiting (m : Mailbox.State) : Prop where
  fifo : m.fifo = []
  queue : m.queue = []
  irq : m.irqHeld = []
  task : m.task = .receive .getStatus ∨ m.task = .popFront

/-- A call waits, and `data` is the first word it will get. -/
structure Delivered (data : Word) (m : Mailbox.State) : Prop where
  task : m.task ≠ .idle
  word : (∃ rest, m.queue = data :: rest) ∨
    m.queue = [] ∧ m.task.held ++ m.irqHeld ++ m.fifo = [data]

variable {m m' : Mailbox.State} {data stale : Word}

theorem IrqReads.step {e : Mailbox.Event} (h : IrqReads m) (hst : Mailbox.step m e = some m') :
    IrqReads m' := by
  cases e with
  | videoCoreWrite word =>
      cases hst
      exact fun _ => by simp
  | receiveBlocking =>
      simp only [Mailbox.step] at hst
      split_ifs at hst
      cases hst
      exact h
  | task stale =>
      simp only [Mailbox.step] at hst
      split_ifs at hst with hirq
      have hirq' : m'.irq = none := by
        simp only [Mailbox.taskStep] at hst
        split at hst
        · cases hst
        · split_ifs at hst <;> cases hst <;> exact hirq
        · cases hst
          exact hirq
        · cases hst
          exact hirq
        · split at hst <;> cases hst <;> exact hirq
      intro hread
      rw [hirq'] at hread
      cases hread
  | preempt =>
      simp only [Mailbox.step] at hst
      split_ifs at hst
      cases hst
      exact fun hread => by cases hread
  | handleIrq stale =>
      simp only [Mailbox.step, Mailbox.irqStep] at hst
      split at hst
      · cases hst
      · split_ifs at hst with hempty <;> cases hst
        · exact fun hread => by cases hread
        · exact fun _ => (status_empty_iff _).not.mp hempty
      · cases hst
        exact fun hread => by cases hread
      · cases hst
        exact fun hread => by cases hread

/-- The steps the processor takes at most until `receive_blocking` returns: the
handler empties the FIFO first. -/
def stepsLeft (m : Mailbox.State) : Nat :=
  (match m.irq with
    | none => 0
    | some .getStatus => 3 * m.fifo.length + 1
    | some .readMbox0 => 3 * m.fifo.length
    | some (.pushBack _) => 3 * m.fifo.length + 2) +
  match m.task with
    | .idle => 0
    | .popFront => if m.queue.isEmpty then 5 else 1
    | .receive .getStatus => 4
    | .receive .readMbox0 => 3
    | .receive (.pushBack _) => 2

theorem Waiting.preempt (h : Waiting m) (hst : Mailbox.step m .preempt = some m') :
    Waiting m' := by
  simp only [Mailbox.step] at hst
  split_ifs at hst
  cases hst
  exact ⟨h.fifo, h.queue, rfl, h.task⟩

theorem Waiting.handleIrq (h : Waiting m) (hreads : IrqReads m)
    (hst : Mailbox.step m (.handleIrq stale) = some m') : Waiting m' := by
  simp only [Mailbox.step, Mailbox.irqStep] at hst
  split at hst
  · cases hst
  · rw [if_pos ((status_empty_iff m.fifo).mpr h.fifo)] at hst
    cases hst
    exact ⟨h.fifo, h.queue, rfl, h.task⟩
  · rename_i hread
    exact absurd h.fifo (hreads hread)
  · rename_i msg hpush
    have hheld := h.irq
    rw [Mailbox.State.irqHeld, hpush] at hheld
    cases hheld

/-- A call that waits polls the FIFO and the queue. -/
theorem Waiting.receive (h : Waiting m) (hst : Mailbox.step m (.task stale) = some m') :
    received m = none ∧ Waiting m' := by
  simp only [Mailbox.step] at hst
  split_ifs at hst
  rcases h.task with htask | htask <;> simp only [Mailbox.taskStep, htask] at hst
  · rw [if_pos ((status_empty_iff m.fifo).mpr h.fifo)] at hst
    cases hst
    exact ⟨by simp [received, htask], h.fifo, h.queue, h.irq, .inr rfl⟩
  · simp only [h.queue, Option.some.injEq] at hst
    subst hst
    exact ⟨by simp [received, htask, h.queue], h.fifo, rfl, h.irq, .inl rfl⟩

theorem Waiting.write (h : Waiting m) (hst : Mailbox.step m (.videoCoreWrite data) = some m') :
    Delivered data m' := by
  cases hst
  refine ⟨?_, .inr ⟨h.queue, ?_⟩⟩
  · rcases h.task with htask | htask <;> simp [htask]
  · have hirq := h.irq
    rw [Mailbox.State.irqHeld] at hirq
    rcases h.task with htask | htask <;>
      simp [Mailbox.State.irqHeld, hirq, h.fifo, htask, Mailbox.TaskStep.held,
        Mailbox.ReadStep.held]

theorem Delivered.preempt (h : Delivered data m) (hst : Mailbox.step m .preempt = some m') :
    Delivered data m' := by
  simp only [Mailbox.step] at hst
  split_ifs at hst with hirq
  cases hst
  refine ⟨h.task, h.word.imp_right fun hword => ⟨hword.1, ?_⟩⟩
  simpa [Mailbox.State.irqHeld, hirq, Mailbox.ReadStep.held] using hword.2

theorem Delivered.handleIrq (h : Delivered data m) (hreads : IrqReads m)
    (hst : Mailbox.step m (.handleIrq stale) = some m') : Delivered data m' := by
  have hword := h.word
  simp only [Mailbox.step, Mailbox.irqStep] at hst
  split at hst
  · cases hst
  · rename_i hirq
    simp only [Mailbox.State.irqHeld, hirq, Option.map_some, Option.getD_some,
      Mailbox.ReadStep.held] at hword
    split_ifs at hst <;> cases hst <;> exact ⟨h.task, hword⟩
  · rename_i hirq
    obtain ⟨msg, fifo, hfifo⟩ := List.exists_cons_of_ne_nil (hreads hirq)
    simp only [Mailbox.State.irqHeld, hirq, hfifo, Option.map_some, Option.getD_some,
      Mailbox.ReadStep.held] at hword
    rw [hfifo] at hst
    cases hst
    refine ⟨h.task, ?_⟩
    simpa [Mailbox.readMbox0, Mailbox.State.irqHeld, Mailbox.ReadStep.held] using hword
  · rename_i msg hirq
    simp only [Mailbox.State.irqHeld, hirq, Option.map_some, Option.getD_some,
      Mailbox.ReadStep.held] at hword
    cases hst
    refine ⟨h.task, .inl ?_⟩
    rcases hword with ⟨rest, hqueue⟩ | ⟨hqueue, hword⟩
    · exact ⟨rest ++ [msg], by simp [Mailbox.State.pushBack, hqueue]⟩
    · have hmsg : msg ∈ [data] := by
        rw [← hword]
        simp
      exact ⟨[], by simp [Mailbox.State.pushBack, hqueue, List.mem_singleton.mp hmsg]⟩

theorem stepsLeft_handleIrq (hreads : IrqReads m)
    (hst : Mailbox.step m (.handleIrq stale) = some m') : stepsLeft m' < stepsLeft m := by
  simp only [Mailbox.step, Mailbox.irqStep] at hst
  split at hst
  · cases hst
  · rename_i hirq
    split_ifs at hst <;> cases hst <;> simp [stepsLeft, hirq]
  · rename_i hirq
    obtain ⟨msg, fifo, hfifo⟩ := List.exists_cons_of_ne_nil (hreads hirq)
    rw [hfifo] at hst
    cases hst
    simp only [stepsLeft, hirq, hfifo, Mailbox.readMbox0, List.length_cons]
    omega
  · rename_i msg hirq
    cases hst
    simp only [stepsLeft, Mailbox.State.pushBack, hirq]
    split
    · simp
    · simp
      split
      · omega
      · omega
    · simp
    · simp
    · simp

/-- A call that waits gets the word as soon as it is in the queue. -/
theorem Delivered.receive (h : Delivered data m) (hst : Mailbox.step m (.task stale) = some m') :
    ((received m = some data ∧ m'.task = .idle) ∨ (received m = none ∧ Delivered data m')) ∧
      stepsLeft m' < stepsLeft m := by
  have hword := h.word
  simp only [Mailbox.step] at hst
  split_ifs at hst with hirq
  simp only [Mailbox.State.irqHeld, hirq, Option.map_none, Option.getD_none,
    List.append_nil] at hword
  simp only [Mailbox.taskStep] at hst
  split at hst
  · rename_i htask
    exact absurd htask h.task
  · rename_i htask
    rw [htask] at hword
    split_ifs at hst with hempty <;> cases hst
    · rw [status_empty_iff] at hempty
      rw [hempty] at hword
      obtain ⟨rest, hqueue⟩ : ∃ rest, m.queue = data :: rest := by
        rcases hword with hqueue | ⟨-, hword⟩
        · exact hqueue
        · cases hword
      refine ⟨.inr ⟨by simp [received, htask], by simp, .inl ⟨rest, hqueue⟩⟩, ?_⟩
      simp [stepsLeft, hirq, htask, hqueue]
    · refine ⟨.inr ⟨by simp [received, htask], by simp, ?_⟩, by simp [stepsLeft, hirq, htask]⟩
      simpa [Mailbox.State.irqHeld, hirq, Mailbox.TaskStep.held, Mailbox.ReadStep.held] using hword
  · rename_i htask
    rw [htask] at hword
    cases hst
    refine ⟨.inr ⟨by simp [received, htask], by simp, ?_⟩, by simp [stepsLeft, hirq, htask]⟩
    rcases hword with hqueue | ⟨hqueue, hword⟩
    · exact .inl hqueue
    · cases hfifo : m.fifo with
      | nil =>
          rw [hfifo] at hword
          cases hword
      | cons msg fifo =>
          rw [hfifo] at hword
          refine .inr ⟨hqueue, ?_⟩
          simpa [Mailbox.State.irqHeld, hirq, Mailbox.readMbox0, Mailbox.TaskStep.held,
            Mailbox.ReadStep.held] using hword
  · rename_i msg htask
    rw [htask] at hword
    cases hst
    refine ⟨.inr ⟨by simp [received, htask], by simp, .inl ?_⟩, ?_⟩
    · rcases hword with ⟨rest, hqueue⟩ | ⟨hqueue, hword⟩
      · exact ⟨rest ++ [msg], by simp [Mailbox.State.pushBack, hqueue]⟩
      · have hmsg : msg ∈ [data] := by
          rw [← hword]
          simp [Mailbox.TaskStep.held, Mailbox.ReadStep.held]
        exact ⟨[], by simp [Mailbox.State.pushBack, hqueue, List.mem_singleton.mp hmsg]⟩
    · simp [stepsLeft, Mailbox.State.pushBack, hirq, htask]
  · rename_i htask
    rw [htask] at hword
    split at hst <;> rename_i hqueue <;> cases hst
    · refine ⟨.inr ⟨by simp [received, htask, hqueue], by simp, ?_⟩,
        by simp [stepsLeft, hirq, htask, hqueue]⟩
      simpa [Mailbox.State.irqHeld, hirq, Mailbox.TaskStep.held, Mailbox.ReadStep.held] using hword
    · refine ⟨.inl ?_, by simp [stepsLeft, hirq, htask, hqueue]⟩
      rcases hword with ⟨rest, hqueue'⟩ | ⟨hqueue', -⟩
      · rw [hqueue] at hqueue'
        cases hqueue'
        exact ⟨by simp [received, htask, hqueue], rfl⟩
      · rw [hqueue] at hqueue'
        cases hqueue'

/-- How far the call in progress has got, and what is in the mailbox for it. -/
inductive Phase (s : State) : Option Call → Prop
  | idle (hpending : s.pending = []) (htask : s.mbox.task = .idle) : Phase s none
  | unsent (call : Call) (hnext : call.next = .ready ∨ call.next = .send)
      (hpending : s.pending = []) (htask : s.mbox.task = .idle)
      (hanswer : s.answers.lookup call.id = none) : Phase s (some call)
  | waiting (call : Call) (hnext : call.next = .receive)
      (hpending : s.pending = [(call.id, call.data)])
      (hanswer : s.answers.lookup call.id = none) (hmbox : Waiting s.mbox) : Phase s (some call)
  | delivered (call : Call) (hnext : call.next = .receive) (hpending : s.pending = [])
      (hanswer : (s.answers.lookup call.id).isSome) (hmbox : Delivered call.data s.mbox) :
      Phase s (some call)
  | received (call : Call) (hnext : call.next = .check call.data) (hpending : s.pending = [])
      (htask : s.mbox.task = .idle) (hanswer : (s.answers.lookup call.id).isSome) :
      Phase s (some call)

/-- The invariant of the calls. -/
structure Inv (s : State) : Prop where
  reads : IrqReads s.mbox
  phase : Phase s s.call
  current : ∀ call ∈ s.call, call.id < s.calls ∧ ∀ r ∈ s.returned, r.id ≠ call.id
  answers : ∀ a ∈ s.answers, a.1 < s.calls
  ids : ∀ r ∈ s.returned, r.id < s.calls
  returned : ∀ r ∈ s.returned, (r.accepted → r.answered) ∧
    (s.answers.lookup r.id = some RESPONSE_CODE_SUCCESS → r.isOk)

variable {s t : State} {call : Call}

/-- Only the mailbox and the step of the call have changed. -/
theorem Inv.congr (h : Inv s) (hcall : s.call = some call) {mbox : Mailbox.State}
    (next : PropertyStep) (hreads : IrqReads mbox)
    (hphase : Phase { s with mbox := mbox, call := some { call with next := next } }
      (some { call with next := next })) :
    Inv { s with mbox := mbox, call := some { call with next := next } } := by
  refine ⟨hreads, hphase, ?_, h.answers, h.ids, h.returned⟩
  rintro c ⟨rfl⟩
  exact h.current call hcall

/-- A call returns whose request has not been sent, or has been answered. -/
theorem Inv.ret (h : Inv s) (hcall : s.call = some call) (hpending : s.pending = [])
    (htask : s.mbox.task = .idle) {accepted isOk : Bool}
    (haccepted : accepted → (s.answers.lookup call.id).isSome)
    (hisOk : s.answers.lookup call.id = some RESPONSE_CODE_SUCCESS → isOk) :
    Inv (s.ret call accepted isOk) := by
  refine ⟨h.reads, .idle hpending htask, fun c hc => (by cases hc), h.answers, ?_, ?_⟩
  · intro r hr
    rcases List.mem_cons.mp hr with rfl | hr
    · exact (h.current call hcall).1
    · exact h.ids r hr
  · intro r hr
    rcases List.mem_cons.mp hr with rfl | hr
    · exact ⟨haccepted, hisOk⟩
    · exact h.returned r hr

/-- A call whose answer is there moves towards it, or takes it. -/
theorem delivered_callStep {full : Bool} (hnext : call.next = .receive)
    (hmbox : Delivered call.data s.mbox) (hst : callStep s call full stale = some t) :
    ∃ mbox, Mailbox.step s.mbox (.task stale) = some mbox ∧ stepsLeft mbox < stepsLeft s.mbox ∧
      ((mbox.task = .idle ∧
          t = { s with mbox := mbox, call := some { call with next := .check call.data } }) ∨
        (Delivered call.data mbox ∧ t = { s with mbox := mbox })) := by
  simp only [callStep, hnext] at hst
  split at hst
  · cases hst
  · rename_i mbox hmstep
    obtain ⟨hreceive, hlt⟩ := hmbox.receive hmstep
    refine ⟨mbox, hmstep, hlt, ?_⟩
    rcases hreceive with ⟨hsome, htask⟩ | ⟨hnone, hmbox'⟩
    · rw [hsome] at hst
      cases hst
      exact .inl ⟨htask, rfl⟩
    · rw [hnone] at hst
      cases hst
      exact .inr ⟨hmbox', rfl⟩

/-- A step of the call. A request is sent only when the mailbox is empty. -/
theorem Inv.callStep (h : Inv s) (hcall : s.call = some call) (hirq : s.mbox.irq = none)
    {full : Bool} (hempty : call.next = .send → s.mbox.fifo = [] ∧ s.mbox.queue = [])
    (hst : RpiFirmware.callStep s call full stale = some t) : Inv t := by
  have hphase := h.phase
  rw [hcall] at hphase
  cases hphase with
  | unsent _ hnext hpending htask hanswer =>
      have hret : Inv (s.ret call false false) :=
        h.ret hcall hpending htask (by simp) (by simp [hanswer])
      rcases hnext with hnext | hnext
      · simp only [RpiFirmware.callStep, hnext] at hst
        split_ifs at hst <;> cases hst
        · exact h.congr hcall .send h.reads (.unsent _ (.inr rfl) hpending htask hanswer)
        · exact hret
      · simp only [RpiFirmware.callStep, hnext, Mailbox.step, hirq, htask, and_self,
          if_true] at hst
        split_ifs at hst <;> cases hst
        · exact hret
        · obtain ⟨hfifo, hqueue⟩ := hempty hnext
          refine ⟨fun hread => (by cases hread), .waiting _ rfl ?_ hanswer
            ⟨hfifo, hqueue, rfl, .inl rfl⟩, ?_, h.answers, h.ids, h.returned⟩
          · simp [hpending]
          · rintro c ⟨rfl⟩
            exact h.current call hcall
  | waiting _ hnext hpending hanswer hmbox =>
      simp only [RpiFirmware.callStep, hnext] at hst
      split at hst
      · cases hst
      · rename_i mbox hmstep
        obtain ⟨hnone, hmbox'⟩ := hmbox.receive hmstep
        rw [hnone] at hst
        cases hst
        refine ⟨h.reads.step hmstep, ?_, h.current, h.answers, h.ids, h.returned⟩
        rw [hcall]
        exact .waiting call hnext hpending hanswer hmbox'
  | delivered _ hnext hpending hanswer hmbox =>
      obtain ⟨mbox, hmstep, -, ⟨htask, rfl⟩ | ⟨hmbox', rfl⟩⟩ :=
        delivered_callStep hnext hmbox hst
      · exact h.congr hcall (.check call.data) (h.reads.step hmstep)
          (.received _ rfl hpending htask hanswer)
      · refine ⟨h.reads.step hmstep, ?_, h.current, h.answers, h.ids, h.returned⟩
        rw [hcall]
        exact .delivered call hnext hpending hanswer hmbox'
  | received _ hnext hpending htask hanswer =>
      simp only [RpiFirmware.callStep, hnext] at hst
      rw [if_neg (by simp)] at hst
      split at hst <;> rename_i hcode <;> cases hst
      · refine h.ret hcall hpending htask (fun _ => hanswer) fun hsuccess => ?_
        rw [State.reqResCode, hsuccess] at hcode
        exact absurd rfl hcode
      · exact h.ret hcall hpending htask (fun _ => hanswer) fun _ => rfl

/-- The interrupt steps leave the task where it is. -/
theorem interrupt_task {e : Mailbox.Event} (he : e = .preempt ∨ e = .handleIrq stale)
    (hst : Mailbox.step m e = some m') : m'.task = m.task := by
  rcases he with rfl | rfl
  · simp only [Mailbox.step] at hst
    split_ifs at hst
    cases hst
    rfl
  · simp only [Mailbox.step, Mailbox.irqStep] at hst
    split at hst
    · cases hst
    · split_ifs at hst <;> cases hst <;> rfl
    · cases hst
      rfl
    · cases hst
      rfl

/-- An interrupt step moves words, but the call is in the phase it was in. -/
theorem Phase.interrupt {call? : Option Call} (h : Phase s call?) (hreads : IrqReads s.mbox)
    {e : Mailbox.Event} (he : e = .preempt ∨ e = .handleIrq stale) {mbox : Mailbox.State}
    (hst : Mailbox.step s.mbox e = some mbox) : Phase { s with mbox := mbox } call? := by
  have htask := interrupt_task he hst
  cases h with
  | idle hpending hidle => exact .idle hpending (htask.trans hidle)
  | unsent call hnext hpending hidle hanswer =>
      exact .unsent call hnext hpending (htask.trans hidle) hanswer
  | waiting call hnext hpending hanswer hmbox =>
      refine .waiting call hnext hpending hanswer ?_
      rcases he with rfl | rfl
      · exact hmbox.preempt hst
      · exact hmbox.handleIrq hreads hst
  | delivered call hnext hpending hanswer hmbox =>
      refine .delivered call hnext hpending hanswer ?_
      rcases he with rfl | rfl
      · exact hmbox.preempt hst
      · exact hmbox.handleIrq hreads hst
  | received call hnext hpending hidle hanswer =>
      exact .received call hnext hpending (htask.trans hidle) hanswer

/-- A word that nobody waits for goes into the FIFO. -/
theorem Phase.unrelated {call? : Option Call} (h : Phase s call?)
    (hnext : ∀ call ∈ call?, call.next ≠ .receive) {word : Word} {mbox : Mailbox.State}
    (hst : Mailbox.step s.mbox (.videoCoreWrite word) = some mbox) :
    Phase { s with mbox := mbox } call? := by
  cases hst
  cases h with
  | idle hpending hidle => exact .idle hpending hidle
  | unsent call hunsent hpending hidle hanswer =>
      exact .unsent call hunsent hpending hidle hanswer
  | waiting call hreceive => exact absurd hreceive (hnext call rfl)
  | delivered call hreceive => exact absurd hreceive (hnext call rfl)
  | received call hcheck hpending hidle hanswer =>
      exact .received call hcheck hpending hidle hanswer

/-- The oldest request is the one of the call that waits, and its answer is the
only word in the mailbox. -/
theorem Phase.answer {call? : Option Call} (h : Phase s call?) {id : Nat} {word : Word}
    {pending : List (Nat × Word)} (hpending : s.pending = (id, word) :: pending) (code : Word)
    {mbox : Mailbox.State} (hst : Mailbox.step s.mbox (.videoCoreWrite word) = some mbox) :
    (∃ call ∈ call?, call.id = id) ∧
      Phase { s with mbox := mbox, pending := pending, answers := (id, code) :: s.answers }
        call? := by
  cases h with
  | idle hnone =>
      rw [hnone] at hpending
      cases hpending
  | unsent call hunsent hnone =>
      rw [hnone] at hpending
      cases hpending
  | waiting call hreceive hone hanswer hmbox =>
      rw [hone] at hpending
      cases hpending
      exact ⟨⟨call, rfl, rfl⟩, .delivered call hreceive rfl (by simp) (hmbox.write hst)⟩
  | delivered call hreceive hnone =>
      rw [hnone] at hpending
      cases hpending
  | received call hcheck hnone =>
      rw [hnone] at hpending
      cases hpending

theorem Inv.interrupt (h : Inv s) {e : Mailbox.Event} (he : e = .preempt ∨ e = .handleIrq stale)
    {mbox : Mailbox.State} (hst : Mailbox.step s.mbox e = some mbox) :
    Inv { s with mbox := mbox } :=
  ⟨h.reads.step hst, h.phase.interrupt h.reads he hst, h.current, h.answers, h.ids, h.returned⟩

/-- Every step whose condition holds keeps the invariant. -/
theorem Inv.step {e : Event} (h : Inv s) (hallowed : Undisturbed s e)
    (hst : RpiFirmware.step s e = some t) : Inv t := by
  cases e with
  | property virtAddr =>
      simp only [RpiFirmware.step] at hst
      split at hst
      · cases hst
      · rename_i hcall
        cases hst
        have hphase := h.phase
        rw [hcall] at hphase
        have hfresh : s.answers.lookup s.calls = none := by
          rw [List.lookup_eq_none_iff]
          intro a ha
          have hlt := h.answers a ha
          have hne : s.calls ≠ a.1 := by omega
          simpa using hne
        cases hphase with
        | idle hpending htask =>
            refine ⟨h.reads, .unsent _ (.inl rfl) hpending htask hfresh, ?_, ?_, ?_, h.returned⟩
            · rintro c ⟨rfl⟩
              exact ⟨Nat.lt_succ_self _, fun r hr => Nat.ne_of_lt (h.ids r hr)⟩
            · exact fun a ha => Nat.lt_succ_of_lt (h.answers a ha)
            · exact fun r hr => Nat.lt_succ_of_lt (h.ids r hr)
  | call full stale =>
      simp only [RpiFirmware.step] at hst
      split at hst
      · cases hst
      · rename_i call hcall
        split_ifs at hst with hirq
        exact h.callStep hcall hirq (hallowed call hcall) hst
  | answer code =>
      simp only [RpiFirmware.step] at hst
      split at hst
      · cases hst
      · rename_i id word pending hpending
        split at hst
        · cases hst
        · rename_i mbox hmstep
          cases hst
          obtain ⟨⟨call, hcall, hid⟩, hphase⟩ := h.phase.answer hpending code hmstep
          obtain ⟨hlt, hother⟩ := h.current call hcall
          refine ⟨h.reads.step hmstep, hphase, h.current, ?_, h.ids, fun r hr => ?_⟩
          · rintro a ha
            rcases List.mem_cons.mp ha with rfl | ha
            · exact hid ▸ hlt
            · exact h.answers a ha
          · obtain ⟨hanswered, hisOk⟩ := h.returned r hr
            refine ⟨hanswered, fun hsuccess => hisOk ?_⟩
            have hne : (r.id == id) = false := beq_eq_false_iff_ne.mpr (hid ▸ hother r hr)
            rwa [List.lookup_cons, hne] at hsuccess
  | unrelated word =>
      simp only [RpiFirmware.step] at hst
      split at hst
      · cases hst
      · rename_i mbox hmstep
        cases hst
        exact ⟨h.reads.step hmstep, h.phase.unrelated hallowed hmstep, h.current, h.answers,
          h.ids, h.returned⟩
  | preempt =>
      simp only [RpiFirmware.step] at hst
      split at hst
      · cases hst
      · rename_i hmstep
        cases hst
        exact h.interrupt (.inl rfl : _ ∨ Mailbox.Event.preempt = .handleIrq 0) hmstep
  | handleIrq stale =>
      simp only [RpiFirmware.step] at hst
      split at hst
      · cases hst
      · rename_i hmstep
        cases hst
        exact h.interrupt (.inr rfl) hmstep

/-- The call with this number is in progress, and its request is answered. -/
structure Answered (id : Nat) (s : State) : Prop where
  inv : Inv s
  answer : s.answers.lookup id = some RESPONSE_CODE_SUCCESS
  call : ∃ call ∈ s.call, call.id = id

/-- An answered call can be in two phases. -/
theorem Answered.phase {id : Nat} (h : Answered id s) : ∃ call, s.call = some call ∧
    call.id = id ∧ ((call.next = .receive ∧ Delivered call.data s.mbox) ∨
      call.next = .check call.data) := by
  obtain ⟨call, hcall, hid⟩ := h.call
  have hphase := h.inv.phase
  rw [hcall] at hphase
  refine ⟨call, hcall, hid, ?_⟩
  cases hphase with
  | unsent _ hnext hpending htask hanswer =>
      rw [hid, h.answer] at hanswer
      cases hanswer
  | waiting _ hnext hpending hanswer hmbox =>
      rw [hid, h.answer] at hanswer
      cases hanswer
  | delivered _ hnext hpending hanswer hmbox => exact .inl ⟨hnext, hmbox⟩
  | received _ hnext hpending htask hanswer => exact .inr hnext

/-- The processor can go on: the handler runs to its end, and then the call. -/
theorem Answered.progress {id : Nat} (h : Answered id s) :
    ∃ t, Step step Event.OnCpu s t := by
  obtain ⟨call, hcall, -, hphase⟩ := h.phase
  cases hirq : s.mbox.irq with
  | some next =>
      have hsome : (Mailbox.step s.mbox (.handleIrq 0)).isSome := by
        cases next <;> simp only [Mailbox.step, Mailbox.irqStep, hirq]
        · split_ifs <;> rfl
        · rfl
        · rfl
      obtain ⟨mbox, hmbox⟩ := Option.isSome_iff_exists.mp hsome
      exact ⟨{ s with mbox := mbox }, .handleIrq 0, trivial, by simp only [step, hmbox]⟩
  | none =>
      have hsome : (callStep s call false 0).isSome := by
        rcases hphase with ⟨hnext, hmbox⟩ | hnext
        · have htask : (Mailbox.step s.mbox (.task 0)).isSome := by
            simp only [Mailbox.step, hirq, if_true, Mailbox.taskStep]
            split
            · rename_i hidle
              exact absurd hidle hmbox.task
            · split_ifs <;> rfl
            · rfl
            · rfl
            · split <;> rfl
          obtain ⟨mbox, hmstep⟩ := Option.isSome_iff_exists.mp htask
          simp only [callStep, hnext, hmstep]
          split <;> rfl
        · simp only [callStep, hnext]
          split_ifs <;> rfl
      obtain ⟨t, ht⟩ := Option.isSome_iff_exists.mp hsome
      exact ⟨t, .call false 0, trivial, by simp only [step, hcall, hirq, if_true, ht]⟩

/-- A step of the processor brings an answered call to its end, or nearer to it. -/
theorem Answered.step {id : Nat} (h : Answered id s) (hst : Step step Event.OnCpu s t) :
    (∃ r ∈ t.returned, r.id = id ∧ r.isOk) ∨
      (Answered id t ∧ stepsLeft t.mbox < stepsLeft s.mbox) := by
  obtain ⟨call, hcall, hid, hphase⟩ := h.phase
  obtain ⟨e, hcpu, ht⟩ := hst
  cases e with
  | property virtAddr => cases hcpu
  | answer code => cases hcpu
  | unrelated word => cases hcpu
  | preempt => cases hcpu
  | handleIrq stale =>
      have hinv := h.inv.step (e := .handleIrq stale) trivial ht
      simp only [RpiFirmware.step] at ht
      split at ht
      · cases ht
      · rename_i mbox hmstep
        cases ht
        exact .inr ⟨⟨hinv, h.answer, call, hcall, hid⟩, stepsLeft_handleIrq h.inv.reads hmstep⟩
  | call full stale =>
      have hunsent : call.next ≠ .send := by
        rcases hphase with ⟨hnext, -⟩ | hnext <;> simp [hnext]
      have hinv := h.inv.step (e := .call full stale)
        (fun c hc hsend => (by rw [hcall] at hc; cases hc; exact absurd hsend hunsent)) ht
      simp only [RpiFirmware.step, hcall] at ht
      split_ifs at ht with hirq
      rcases hphase with ⟨hnext, hmbox⟩ | hnext
      · right
        obtain ⟨mbox, -, hlt, ⟨-, rfl⟩ | ⟨-, rfl⟩⟩ := delivered_callStep hnext hmbox ht
        · exact ⟨⟨hinv, h.answer, _, rfl, hid⟩, hlt⟩
        · exact ⟨⟨hinv, h.answer, call, hcall, hid⟩, hlt⟩
      · left
        have hcode : s.reqResCode call.id = RESPONSE_CODE_SUCCESS := by
          rw [State.reqResCode, hid, h.answer]
          rfl
        simp only [callStep, hnext] at ht
        rw [if_neg (by simp), if_neg (by simp [hcode])] at ht
        cases ht
        exact ⟨_, List.mem_cons_self, hid, rfl⟩

theorem Inv.sound (h : Inv s) : Sound s := by
  refine ⟨fun r hr => (h.returned r hr).1, fun r hr => (h.returned r hr).2,
    fun call hcall hanswer => ?_⟩
  exact .of_measure (Answered call.id) (fun s => stepsLeft s.mbox) (fun s hs => hs.progress)
    (fun s t hs hst => hs.step hst) ⟨h, hanswer, call, hcall, rfl⟩

/-- In every run in which no other word is in the mailbox when a request is
sent, and none comes while a call waits. -/
theorem undisturbed_sound (s : State)
    (h : Reachable (fun s => ∃ enabled, s = start enabled) (Step step Undisturbed) s) :
    Sound s := by
  refine (h.invariant (P := Inv) ?_ fun s t _ hs hst => ?_).sound
  · rintro s ⟨enabled, rfl⟩
    exact ⟨fun hread => (by cases hread), .idle rfl rfl, fun c hc => (by cases hc),
      fun a ha => (by cases ha), fun r hr => (by cases hr), fun r hr => (by cases hr)⟩
  · obtain ⟨e, hallowed, ht⟩ := hst
    exact hs.step hallowed ht

/-- The address of a message on a kernel stack. -/
def stackMessage : Nat := linearMapOffset + 0x80000

/-- A call gets its answer from the handler, and another word comes afterwards. -/
theorem undisturbed_sound_answered :
    ∃ s, s.returned = [⟨0, true, true, true⟩] ∧ Sound s := by
  have hrun : (run step Undisturbed (start true)
      [.property stackMessage, .call false 0, .call false 0, .call false 0, .answer 0x80000000,
        .preempt, .handleIrq 0, .handleIrq 0, .handleIrq 0, .handleIrq 0, .call false 0,
        .call false 0, .unrelated 0x18]).map State.returned = some [⟨0, true, true, true⟩] := by
    decide
  obtain ⟨s, hs, hreturned⟩ := Option.map_eq_some_iff.mp hrun
  exact ⟨s, hreturned, undisturbed_sound s ⟨start true, ⟨true, rfl⟩, reflTransGen_of_run _ hs⟩⟩

/-- A word of another channel reaches the first call, which fails before its
request is answered. The answer then reaches the second call, which fails though
its own request is answered with success. -/
theorem unrelated_not_sound :
    ∃ s, Reachable (fun s => ∃ enabled, s = start enabled) (Step step fun _ _ => True) s ∧
      (∃ r ∈ s.returned, r.accepted ∧ ¬r.answered) ∧
      ∃ r ∈ s.returned, s.answers.lookup r.id = some RESPONSE_CODE_SUCCESS ∧ ¬r.isOk := by
  have hrun : (run step (fun _ _ => True) (start true)
      [.unrelated 0x18, .property stackMessage, .call false 0, .call false 0, .call false 0,
        .call false 0, .call false 0, .call false 0, .call false 0,
        .property (stackMessage + 0x100), .answer 0x80000000, .call false 0, .call false 0,
        .answer 0x80000000, .call false 0, .call false 0, .call false 0, .call false 0,
        .call false 0]).any fun s =>
        (∃ r ∈ s.returned, r.accepted ∧ ¬r.answered) ∧
        ∃ r ∈ s.returned, s.answers.lookup r.id = some RESPONSE_CODE_SUCCESS ∧ ¬r.isOk := by
    decide
  obtain ⟨s, hs, hend⟩ := (Option.any_eq_true _ _).mp hrun
  exact ⟨s, ⟨start true, ⟨true, rfl⟩, reflTransGen_of_run _ hs⟩, of_decide_eq_true hend⟩

end Kruspix.Drivers.RpiFirmware
