import Kruspix.Common.RingQueue
import Kruspix.Kernel.LineDiscipline
import Kruspix.Lib.Transition
import Mathlib.Data.List.ReduceOption

/-!
# From the input devices to the listeners

The interrupt handler of an input device puts bytes into a ring behind a lock. The task of the
shell takes them out with `SystemTerminal::poll`, puts them through the line discipline, and calls
the listeners with each line, while other tasks may add listeners.
-/

namespace Kruspix.Kernel.TerminalInput

open Common LineDiscipline Lib.LineEditing Lib.DroppingQueue Lib.Transition

/-- Who holds the lock of a ring. A reader may have looked at its length. -/
inductive Owner
  | handler
  | reader (len : Option Nat)
  deriving DecidableEq, Repr

/-- A serial line or a keyboard. -/
structure InputDevice where
  size : Nat
  buffer : RingArray UInt8 size
  owner : Option Owner

/-- Where the task is in `poll`, with the bytes that it still has of an input. It holds the lock
of the listeners while it calls them. -/
inductive Poll
  | idle
  | reading (input : Nat)
  | bytes (input : Nat) (rawBytes : List UInt8)
  | locking (input : Nat) (rawBytes line : List UInt8)
  | notifying (input : Nat) (rawBytes line : List UInt8) (next : Nat)
  | panicked

/-- Where the task goes on after a byte, which may have completed a line. -/
def Poll.afterByte (i : Nat) (rawBytes : List UInt8) : Option (List UInt8) → Poll
  | none => .bytes i rawBytes
  | some line => .locking i rawBytes line

/-- The inputs, the line, the number of listeners, and where the poll is. -/
structure Machine where
  inputs : List InputDevice
  state : TerminalState
  listeners : Nat
  poll : Poll

/-- The handler of an input locks the ring, pushes a byte or unlocks it again. A keyboard also
gets bytes when it is read. -/
inductive Event
  | lock (input : Nat)
  | push (input : Nat) (byte : UInt8)
  | unlock (input : Nat)
  | poll
  | addListener

/-- What happens, as far as it can be observed. -/
inductive Mark
  | pushed (input : Nat) (byte : UInt8)
  | drained (input : Nat)
  | taken (input : Nat) (byte : UInt8)
  | notified (line : List UInt8)
  | added (listener : Nat)
  | onLine (listener : Nat) (line : List UInt8)
  deriving DecidableEq

namespace Machine

variable (m : Machine)

def setInput (i : Nat) (dev : InputDevice) : Machine := { m with inputs := m.inputs.set i dev }

/-- `InputDevice::read` of input `i`, in its steps under the lock. A drain into a slice that is
too short is a panic. -/
def read (i : Nat) (dev : InputDevice) : Option (Machine × List Mark) :=
  match dev.owner with
  | some .handler => none
  | none => some (m.setInput i { dev with owner := some (.reader none) }, [])
  | some (.reader none) =>
      some (m.setInput i { dev with owner := some (.reader (some dev.buffer.len)) }, [])
  | some (.reader (some len)) =>
      match dev.buffer.drain (List.replicate len 0) with
      | none => some ({ m with poll := .panicked }, [])
      | some (_, output, buffer) =>
          some ({ m.setInput i { dev with buffer := buffer, owner := none } with
            poll := .bytes i output }, [.drained i])

/-- One step of the poll: the next input, the next of its bytes, and a finished line to each of the
listeners in turn. -/
def pollStep : Option (Machine × List Mark) :=
  match m.poll with
  | .idle => some ({ m with poll := .reading 0 }, [])
  | .reading i =>
      match m.inputs[i]? with
      | none => some ({ m with poll := .idle }, [])
      | some dev => m.read i dev
  | .bytes i [] => some ({ m with poll := .reading (i + 1) }, [])
  | .bytes i (byte :: rawBytes) =>
      let outcome := lineDiscipline m.state byte
      some ({ m with state := outcome.state, poll := .afterByte i rawBytes outcome.line },
        [.taken i byte])
  | .locking i rawBytes line =>
      some ({ m with poll := .notifying i rawBytes line 0 }, [.notified line])
  | .notifying i rawBytes line next =>
      if next < m.listeners then
        some ({ m with poll := .notifying i rawBytes line (next + 1) }, [.onLine next line])
      else some ({ m with poll := .bytes i rawBytes }, [])
  | .panicked => none

/-- The next state and what happens. `none` is an event that cannot happen now. -/
def step : Event → Option (Machine × List Mark)
  | .lock i =>
      match m.inputs[i]? with
      | none => none
      | some dev =>
          if dev.owner = none then some (m.setInput i { dev with owner := some .handler }, [])
          else none
  | .push i byte =>
      match m.inputs[i]? with
      | none => none
      | some dev =>
          if dev.owner = some .handler ∨ dev.owner = some (.reader none) then
            some (m.setInput i { dev with buffer := dev.buffer.push byte }, [.pushed i byte])
          else none
  | .unlock i =>
      match m.inputs[i]? with
      | none => none
      | some dev =>
          if dev.owner = some .handler then some (m.setInput i { dev with owner := none }, [])
          else none
  | .poll => m.pollStep
  | .addListener =>
      match m.poll with
      | .notifying _ _ _ _ => none
      | _ => some ({ m with listeners := m.listeners + 1 }, [.added m.listeners])

/-- The terminal as `init` leaves it. -/
def Starts (m : Machine) : Prop :=
  (∀ dev ∈ m.inputs, dev.buffer.items = [] ∧ dev.owner = none) ∧
    m.state = ⟨[], true⟩ ∧ m.listeners = 0 ∧ m.poll = .idle

end Machine

/-- The machine with all that has happened. -/
def next (s : Machine × List Mark) (e : Event) : Option (Machine × List Mark) :=
  (s.1.step e).map fun r => (r.1, s.2 ++ r.2)

/-- A machine and its trace after some steps. -/
def Reached : Machine × List Mark → Prop :=
  Reachable (fun s => s.1.Starts ∧ s.2 = []) (Step next fun _ _ => True)

/-! ## What is observed -/

section Trace

/-- What happens to the ring of an input. A drain is `none`. -/
def Mark.ring? (i : Nat) : Mark → Option (Option UInt8)
  | .pushed j byte => if j = i then some (some byte) else none
  | .drained j => if j = i then some none else none
  | _ => none

/-- The bytes that were pushed between one drain and the next. -/
def batches (i : Nat) (trace : List Mark) : List (List UInt8) :=
  (complete Option.isNone (trace.filterMap (Mark.ring? i))).map List.reduceOption

/-- The bytes since the last drain. -/
def unread (i : Nat) (trace : List Mark) : List UInt8 :=
  (current Option.isNone (trace.filterMap (Mark.ring? i))).reduceOption

/-- The byte that a mark takes from an input. -/
def Mark.taken? (i : Nat) : Mark → Option UInt8
  | .taken j byte => if j = i then some byte else none
  | _ => none

/-- The bytes of an input that went through the line discipline. -/
def takenFrom (i : Nat) (trace : List Mark) : List UInt8 := trace.filterMap (Mark.taken? i)

/-- The byte that a mark takes. -/
def Mark.byte? : Mark → Option UInt8
  | .taken _ byte => some byte
  | _ => none

/-- The bytes that were taken from the inputs. -/
def bytes (trace : List Mark) : List UInt8 := trace.filterMap Mark.byte?

/-- The line that a mark announces. -/
def Mark.line? : Mark → Option (List UInt8)
  | .notified line => some line
  | _ => none

/-- The lines that the listeners are called with. -/
def announced (trace : List Mark) : List (List UInt8) := trace.filterMap Mark.line?

/-- The line that a mark hands to a listener. -/
def Mark.call? (l : Nat) : Mark → Option (List UInt8)
  | .onLine k line => if k = l then some line else none
  | _ => none

/-- The lines that a listener was called with. -/
def calls (l : Nat) (trace : List Mark) : List (List UInt8) := trace.filterMap (Mark.call? l)

/-- The lines since a listener was added. -/
def heard (l : Nat) : List Mark → List (List UInt8)
  | [] => []
  | mark :: trace => if mark = .added l then announced trace else heard l trace

end Trace

/-- The bytes of an input that the task has read and not yet taken. -/
def Poll.pending (i : Nat) : Poll → List UInt8
  | .bytes j rawBytes => if j = i then rawBytes else []
  | .locking j rawBytes _ => if j = i then rawBytes else []
  | .notifying j rawBytes _ _ => if j = i then rawBytes else []
  | _ => []

/-- A line that is complete, before the listeners are locked. -/
def Poll.unannounced : Poll → List (List UInt8)
  | .locking _ _ line => [line]
  | _ => []

/-- A listener that is not called yet. -/
def Machine.uncalled (m : Machine) (l : Nat) : List (List UInt8) :=
  match m.poll with
  | .notifying _ _ line next => if next ≤ l ∧ l < m.listeners then [line] else []
  | _ => []

section Concat

variable (i l : Nat) (trace : List Mark) (mark : Mark)

theorem filterMap_concat {α β : Type*} (f : α → Option β) (as : List α) (a : α) :
    (as ++ [a]).filterMap f = as.filterMap f ++ (f a).toList := by
  rw [List.filterMap_append]
  cases h : f a with
  | none => simp [h]
  | some b => simp [h]

@[simp] theorem takenFrom_concat :
    takenFrom i (trace ++ [mark]) = takenFrom i trace ++ (mark.taken? i).toList :=
  filterMap_concat _ _ _

@[simp] theorem bytes_concat : bytes (trace ++ [mark]) = bytes trace ++ mark.byte?.toList :=
  filterMap_concat _ _ _

@[simp] theorem announced_concat :
    announced (trace ++ [mark]) = announced trace ++ mark.line?.toList :=
  filterMap_concat _ _ _

@[simp] theorem calls_concat : calls l (trace ++ [mark]) = calls l trace ++ (mark.call? l).toList :=
  filterMap_concat _ _ _

theorem batches_concat :
    batches i (trace ++ [mark]) =
      batches i trace ++ if mark.ring? i = some none then [unread i trace] else [] := by
  rw [batches, filterMap_concat]
  cases h : mark.ring? i with
  | none => simp [batches]
  | some item =>
      rw [Option.toList_some, complete_concat, List.map_append]
      cases item <;> rfl

theorem unread_concat :
    unread i (trace ++ [mark]) =
      match mark.ring? i with
      | none => unread i trace
      | some none => []
      | some (some byte) => unread i trace ++ [byte] := by
  rw [unread, filterMap_concat]
  cases h : mark.ring? i with
  | none => simp [unread]
  | some item =>
      rw [Option.toList_some, current_concat]
      cases item with
      | none => rfl
      | some byte =>
          rw [Option.isNone_some, if_neg Bool.false_ne_true, ← List.concat_eq_append, List.reduceOption_concat_of_some,
            List.concat_eq_append]
          rfl

theorem heard_concat_of_mem {l : Nat} {trace : List Mark} (h : .added l ∈ trace) (mark : Mark) :
    heard l (trace ++ [mark]) = heard l trace ++ mark.line?.toList := by
  induction trace with
  | nil => cases h
  | cons first trace ih =>
      rw [List.cons_append, heard, heard]
      by_cases hfirst : first = .added l
      · rw [if_pos hfirst, if_pos hfirst, announced_concat]
      · rw [if_neg hfirst, if_neg hfirst]
        exact ih ((List.mem_cons.mp h).resolve_left (Ne.symm hfirst))

theorem heard_of_notMem {l : Nat} {trace : List Mark} (h : .added l ∉ trace) : heard l trace = [] := by
  induction trace with
  | nil => rfl
  | cons first trace ih =>
      rw [List.mem_cons, not_or] at h
      rw [heard, if_neg (Ne.symm h.1), ih h.2]

/-- A listener hears nothing of what happened until it is added. -/
theorem heard_concat_added {l k : Nat} {trace : List Mark} (h : .added k ∉ trace) :
    heard l (trace ++ [.added k]) = heard l trace := by
  by_cases hl : .added l ∈ trace
  · rw [heard_concat_of_mem hl]
    exact List.append_nil _
  · rw [heard_of_notMem hl]
    by_cases hk : k = l
    · subst hk
      induction trace with
      | nil => rw [List.nil_append, heard, if_pos rfl]; rfl
      | cons first trace ih =>
          rw [List.mem_cons, not_or] at h
          rw [List.cons_append, heard, if_neg (Ne.symm h.1)]
          exact ih h.2 h.2
    · apply heard_of_notMem
      rw [List.mem_append, List.mem_singleton, not_or]
      exact ⟨hl, fun heq => hk (Mark.added.inj heq).symm⟩

end Concat

/-! ## The invariant -/

/-- What is in the ring of an input, and what came out of it. -/
structure Tracks (poll : Poll) (i : Nat) (dev : InputDevice) (trace : List Mark) : Prop where
  unread : dev.buffer.items = (unread i trace).rtake dev.size
  taken : takenFrom i trace ++ poll.pending i = (batches i trace).flatMap (·.rtake dev.size)
  len : ∀ len, dev.owner = some (.reader (some len)) → len = dev.buffer.len
  reading : ∀ len, dev.owner = some (.reader len) → poll = .reading i

/-- What the line discipline and the listeners got. -/
structure Announces (m : Machine) (trace : List Mark) : Prop where
  typed : m.state = ⟨typed key (bytes trace), true⟩
  announced : announced trace ++ m.poll.unannounced = lines key (bytes trace)
  added : ∀ l, .added l ∈ trace ↔ l < m.listeners
  next : ∀ i rawBytes line next, m.poll = .notifying i rawBytes line next → next ≤ m.listeners
  calls : ∀ l, calls l trace ++ m.uncalled l = heard l trace
  alive : m.poll ≠ .panicked

/-- The trace agrees with the inputs and with the line. -/
structure Consistent (m : Machine) (trace : List Mark) : Prop where
  input : ∀ i dev, m.inputs[i]? = some dev → Tracks m.poll i dev trace
  announces : Announces m trace

section Steps

variable {m : Machine} {trace : List Mark} {i j : Nat} {dev dev' : InputDevice} {poll : Poll}

theorem getElem?_setInput (h : m.inputs[i]? = some dev) (dev' : InputDevice) (j : Nat) :
    (m.setInput i dev').inputs[j]? = if i = j then some dev' else m.inputs[j]? := by
  have hlt : i < m.inputs.length := (List.getElem?_eq_some_iff.mp h).1
  rw [Machine.setInput, List.getElem?_set]
  by_cases hij : i = j
  · rw [if_pos hij, if_pos hij, if_pos (hij ▸ hlt)]
  · rw [if_neg hij, if_neg hij]

/-- What happens elsewhere. -/
theorem Tracks.frame (h : Tracks m.poll i dev trace) {mark : Mark} (hring : mark.ring? i = none)
    (htaken : mark.taken? i = none) (hpending : poll.pending i = m.poll.pending i)
    (hreading : m.poll = .reading i → poll = .reading i) :
    Tracks poll i dev (trace ++ [mark]) := by
  refine ⟨?_, ?_, h.len, fun len howner => hreading (h.reading len howner)⟩
  · rw [unread_concat, hring]
    exact h.unread
  · rw [takenFrom_concat, htaken, batches_concat, hring, hpending, if_neg nofun, List.append_nil]
    rw [Option.toList_none, List.append_nil]
    exact h.taken

theorem Tracks.congr (h : Tracks m.poll i dev trace) (hpending : poll.pending i = m.poll.pending i)
    (hreading : m.poll = .reading i → poll = .reading i) : Tracks poll i dev trace :=
  ⟨h.unread, hpending ▸ h.taken, h.len, fun len howner => hreading (h.reading len howner)⟩

/-- A mark that only says what happens to a ring. -/
structure Mark.Quiet (mark : Mark) : Prop where
  byte : mark.byte? = none
  line : mark.line? = none
  call : ∀ l, mark.call? l = none
  added : ∀ l, mark ≠ .added l

theorem heard_concat_same {mark : Mark} {l : Nat} (hline : mark.line? = none)
    (hadded : mark ≠ .added l) : heard l (trace ++ [mark]) = heard l trace := by
  by_cases hl : .added l ∈ trace
  · rw [heard_concat_of_mem hl, hline, Option.toList_none, List.append_nil]
  · rw [heard_of_notMem hl]
    apply heard_of_notMem
    rw [List.mem_append, List.mem_singleton, not_or]
    exact ⟨hl, Ne.symm hadded⟩

theorem mem_concat_added {mark : Mark} {l : Nat} (hadded : mark ≠ .added l) :
    .added l ∈ trace ++ [mark] ↔ .added l ∈ trace := by
  rw [List.mem_append, List.mem_singleton]
  exact or_iff_left (Ne.symm hadded)

theorem Announces.congr {m' : Machine} (h : Announces m trace) (hstate : m'.state = m.state)
    (hlisteners : m'.listeners = m.listeners) (halive : m'.poll ≠ .panicked)
    (hunannounced : m'.poll.unannounced = m.poll.unannounced)
    (huncalled : ∀ l, m'.uncalled l = m.uncalled l)
    (hnext : ∀ i rawBytes line next, m'.poll = .notifying i rawBytes line next →
      next ≤ m.listeners) : Announces m' trace := by
  refine ⟨hstate.trans h.typed, ?_, fun l => ?_, hlisteners ▸ hnext, fun l => ?_, halive⟩
  · rw [hunannounced]
    exact h.announced
  · rw [hlisteners]
    exact h.added l
  · rw [huncalled]
    exact h.calls l

theorem Announces.quiet (h : Announces m trace) {mark : Mark} (hmark : mark.Quiet) :
    Announces m (trace ++ [mark]) := by
  have hbytes : bytes (trace ++ [mark]) = bytes trace := by
    rw [bytes_concat, hmark.byte, Option.toList_none, List.append_nil]
  refine ⟨hbytes ▸ h.typed, ?_, fun l => ?_, h.next, fun l => ?_, h.alive⟩
  · rw [announced_concat, hmark.line, Option.toList_none, List.append_nil, hbytes]
    exact h.announced
  · exact (mem_concat_added (hmark.added l)).trans (h.added l)
  · rw [calls_concat, hmark.call, Option.toList_none, List.append_nil,
      heard_concat_same hmark.line (hmark.added l)]
    exact h.calls l

/-- The owner of a ring changes. -/
theorem Consistent.setOwner (h : Consistent m trace) (hdev : m.inputs[i]? = some dev)
    {owner : Option Owner} (hlen : ∀ len, owner = some (.reader (some len)) → len = dev.buffer.len)
    (hreading : ∀ len, owner = some (.reader len) → m.poll = .reading i) :
    Consistent (m.setInput i { dev with owner := owner }) trace := by
  refine ⟨fun j dev' hj => ?_, h.announces.congr rfl rfl h.announces.alive rfl (fun _ => rfl)
    h.announces.next⟩
  rw [getElem?_setInput hdev] at hj
  split at hj
  · rename_i hij
    cases hj
    subst hij
    obtain ⟨hunread, htaken, -, -⟩ := h.input i dev hdev
    exact ⟨hunread, htaken, hlen, hreading⟩
  · exact h.input j dev' hj

theorem items_push_rtake {N : Nat} (r : RingArray UInt8 N) {l : List UInt8} (h : r.items = l.rtake N)
    (byte : UInt8) : (r.push byte).items = (l ++ [byte]).rtake N := by
  rw [← rtake_rtake_append, ← h]
  exact r.items_foldl_push [byte]

theorem Consistent.push (h : Consistent m trace) (hdev : m.inputs[i]? = some dev)
    (howner : dev.owner = some .handler ∨ dev.owner = some (.reader none)) (byte : UInt8) :
    Consistent (m.setInput i { dev with buffer := dev.buffer.push byte })
      (trace ++ [.pushed i byte]) := by
  constructor
  · intro j dev' hj
    rw [getElem?_setInput hdev] at hj
    split at hj
    · rename_i hij
      cases hj
      subst hij
      obtain ⟨hunread, htaken, hlen, hreading⟩ := h.input i dev hdev
      refine ⟨?_, ?_, fun len hsome => ?_, hreading⟩
      · rw [unread_concat, Mark.ring?, if_pos rfl]
        exact items_push_rtake dev.buffer hunread byte
      · rw [takenFrom_concat, batches_concat, Mark.ring?, if_pos rfl, if_neg nofun, List.append_nil]
        exact (congrArg (· ++ _) (List.append_nil _)).trans htaken
      · rcases howner with hno | hno
        · cases hno.symm.trans hsome
        · cases hno.symm.trans hsome
    · rename_i hij
      exact (h.input j dev' hj).frame (if_neg hij) rfl rfl id
  · apply Announces.quiet _ ⟨rfl, rfl, fun _ => rfl, fun _ => Mark.noConfusion⟩
    exact h.announces.congr rfl rfl h.announces.alive rfl (fun _ => rfl) h.announces.next

/-- A drain takes all that is in the ring. -/
theorem Consistent.drain (h : Consistent m trace) (hpoll : m.poll = .reading i)
    (hdev : m.inputs[i]? = some dev) {len : Nat} (howner : dev.owner = some (.reader (some len))) :
    ∃ buffer, dev.buffer.drain (List.replicate len 0) = some (len, dev.buffer.items, buffer) ∧
      buffer.items = [] ∧
      Consistent { m.setInput i { dev with buffer := buffer, owner := none } with
        poll := .bytes i dev.buffer.items } (trace ++ [.drained i]) := by
  obtain ⟨hunread, htaken, hlen, -⟩ := h.input i dev hdev
  obtain rfl := hlen len howner
  have hroom : dev.buffer.len ≤ (List.replicate dev.buffer.len (0 : UInt8)).length := by
    rw [List.length_replicate]
  obtain ⟨buffer, hdrain, hempty⟩ := dev.buffer.drain_eq hroom
  rw [List.drop_replicate, Nat.sub_self, List.replicate_zero, List.append_nil] at hdrain
  refine ⟨buffer, hdrain, hempty, ?_, ?_⟩
  · intro j dev' hj
    have hj' := (getElem?_setInput hdev { dev with buffer := buffer, owner := none } j).symm.trans hj
    split at hj'
    · rename_i hij
      cases hj'
      subst hij
      rw [hpoll] at htaken
      refine ⟨?_, ?_, nofun, nofun⟩
      · rw [unread_concat, Mark.ring?, if_pos rfl]
        exact hempty.trans (List.rtake_nil dev.size).symm
      · rw [takenFrom_concat, batches_concat, Mark.ring?, if_pos rfl, if_pos rfl,
          List.flatMap_append, ← htaken]
        simp only [Mark.taken?, Poll.pending, Option.toList_none, List.append_nil, if_pos,
          List.flatMap_singleton, hunread]
    · rename_i hij
      have hring : Mark.ring? j (.drained i) = none := if_neg hij
      apply (h.input j dev' hj').frame hring rfl
      · rw [hpoll]
        exact if_neg hij
      · intro hno
        rw [hpoll] at hno
        cases hno
        exact absurd rfl hij
  · apply Announces.quiet _ ⟨rfl, rfl, fun _ => rfl, fun _ => Mark.noConfusion⟩
    refine h.announces.congr rfl rfl Poll.noConfusion ?_ (fun l => ?_) nofun
    · rw [hpoll]
      rfl
    · rw [Machine.uncalled, Machine.uncalled, hpoll]

theorem Consistent.read (h : Consistent m trace) (hpoll : m.poll = .reading i)
    (hdev : m.inputs[i]? = some dev) {m' : Machine} {marks : List Mark}
    (hread : m.read i dev = some (m', marks)) : Consistent m' (trace ++ marks) := by
  rw [Machine.read] at hread
  split at hread
  · cases hread
  · cases hread
    rw [List.append_nil]
    exact h.setOwner hdev nofun fun _ _ => hpoll
  · cases hread
    rw [List.append_nil]
    refine h.setOwner hdev (fun len hlen => ?_) fun _ _ => hpoll
    cases hlen
    rfl
  · rename_i len howner
    obtain ⟨buffer, hdrain, -, hconsistent⟩ := h.drain hpoll hdev howner
    rw [hdrain] at hread
    cases hread
    exact hconsistent

/-- The task goes on with the inputs. -/
theorem Consistent.goto (h : Consistent m trace) (hpoll : m.poll = .idle ∨ (∃ i, m.poll = .bytes i []) ∨
      ∃ i, m.poll = .reading i ∧ m.inputs[i]? = none)
    (hnext : poll = .idle ∨ ∃ i, poll = .reading i) : Consistent { m with poll := poll } trace := by
  have hpending (j : Nat) : m.poll.pending j = [] := by
    rcases hpoll with hpoll | ⟨i, hpoll⟩ | ⟨i, hpoll, -⟩
    · rw [hpoll]
      rfl
    · rw [hpoll]
      exact ite_self []
    · rw [hpoll]
      rfl
  have hsilent : m.poll.unannounced = [] ∧ ∀ l, m.uncalled l = [] := by
    rcases hpoll with hpoll | ⟨i, hpoll⟩ | ⟨i, hpoll, -⟩
    all_goals
      rw [hpoll]
      refine ⟨rfl, fun l => ?_⟩
      rw [Machine.uncalled, hpoll]
  have hafter : (∀ j, poll.pending j = []) ∧ poll.unannounced = [] ∧ poll ≠ .panicked ∧
      (∀ l, Machine.uncalled { m with poll := poll } l = []) ∧
      ∀ i rawBytes line next, poll ≠ .notifying i rawBytes line next := by
    rcases hnext with rfl | ⟨i, rfl⟩
    · exact ⟨fun _ => rfl, rfl, Poll.noConfusion, fun _ => rfl, fun _ _ _ _ => Poll.noConfusion⟩
    · exact ⟨fun _ => rfl, rfl, Poll.noConfusion, fun _ => rfl, fun _ _ _ _ => Poll.noConfusion⟩
  obtain ⟨hafterPending, hunannounced, halive, huncalled, hquiet⟩ := hafter
  constructor
  · intro j dev hj
    apply (h.input j dev hj).congr ((hafterPending j).trans (hpending j).symm)
    intro hreading
    rcases hpoll with hpoll | ⟨i, hpoll⟩ | ⟨i, hpoll, hnone⟩
    · cases hpoll.symm.trans hreading
    · cases hpoll.symm.trans hreading
    · cases hpoll.symm.trans hreading
      cases hnone.symm.trans hj
  · exact h.announces.congr rfl rfl halive (hunannounced.trans hsilent.1.symm)
      (fun l => (huncalled l).trans (hsilent.2 l).symm)
      fun i rawBytes line next hno => absurd hno (hquiet i rawBytes line next)

/-- One byte goes through the line discipline. -/
theorem Consistent.take (h : Consistent m trace) {byte : UInt8} {rawBytes : List UInt8}
    (hpoll : m.poll = .bytes i (byte :: rawBytes)) :
    Consistent { m with
      state := (lineDiscipline m.state byte).state
      poll := .afterByte i rawBytes (lineDiscipline m.state byte).line }
      (trace ++ [.taken i byte]) := by
  obtain ⟨htyped, hannounced, hadded, -, hcalls, -⟩ := h.announces
  obtain ⟨hstate, hlines⟩ :=
    lineDiscipline_typed m.state (congrArg TerminalState.lineBuffer htyped) byte
  generalize lineDiscipline m.state byte = outcome at hstate hlines ⊢
  obtain ⟨state, writes, line⟩ := outcome
  have hpending (j : Nat) : (Poll.afterByte i rawBytes line).pending j =
      if i = j then rawBytes else [] := by
    cases line <;> rfl
  have hunannounced : (Poll.afterByte i rawBytes line).unannounced = line.toList := by
    cases line <;> rfl
  constructor
  · intro j dev hj
    obtain ⟨hunread, htaken, hlen, hreading⟩ := h.input j dev hj
    refine ⟨?_, ?_, hlen, fun len howner => ?_⟩
    · rw [unread_concat]
      exact hunread
    · have hring : Mark.ring? j (.taken i byte) = none := rfl
      rw [takenFrom_concat, batches_concat, hring, if_neg nofun, List.append_nil, ← htaken, hpoll,
        hpending]
      simp only [Poll.pending, Mark.taken?]
      split <;> simp
    · cases hpoll.symm.trans (hreading len howner)
  · have hbytes : bytes (trace ++ [.taken i byte]) = bytes trace ++ [byte] := bytes_concat _ _
    have hsame : Mark.line? (.taken i byte) = none := rfl
    refine ⟨?_, ?_, fun l => ?_, fun j rest line' next hno => ?_, fun l => ?_, ?_⟩
    · rw [hbytes]
      rw [htyped] at hstate
      exact hstate
    · rw [announced_concat, hsame, hbytes, hlines, ← hannounced, hpoll, hunannounced]
      simp only [Poll.unannounced, Option.toList_none, List.append_nil]
    · exact (mem_concat_added Mark.noConfusion).trans (hadded l)
    · cases line <;> cases hno
    · have hbefore := hcalls l
      rw [Machine.uncalled, hpoll] at hbefore
      rw [calls_concat, heard_concat_same hsame Mark.noConfusion, ← hbefore]
      cases line <;> exact List.append_nil _
    · cases line <;> exact Poll.noConfusion

/-- The listeners are called, or were called. -/
theorem Tracks.notify (h : Tracks m.poll i dev trace) {mark : Mark} (hring : mark.ring? i = none)
    (htaken : mark.taken? i = none) (hpending : poll.pending i = m.poll.pending i)
    (hreading : ∀ i, m.poll ≠ .reading i) : Tracks poll i dev (trace ++ [mark]) :=
  h.frame hring htaken hpending fun hno => absurd hno (hreading i)

theorem Consistent.notify (h : Consistent m trace) {rawBytes line : List UInt8}
    (hpoll : m.poll = .locking i rawBytes line) :
    Consistent { m with poll := .notifying i rawBytes line 0 } (trace ++ [.notified line]) := by
  obtain ⟨htyped, hannounced, hadded, -, hcalls, -⟩ := h.announces
  constructor
  · intro j dev hj
    apply (h.input j dev hj).notify rfl rfl
    · rw [hpoll]
      rfl
    · rw [hpoll]
      exact fun _ => Poll.noConfusion
  · have hbytes : bytes (trace ++ [.notified line]) = bytes trace :=
      (bytes_concat _ _).trans (List.append_nil _)
    refine ⟨hbytes ▸ htyped, ?_, fun l => ?_, fun j rest line' next hno => ?_, fun l => ?_,
      Poll.noConfusion⟩
    · rw [announced_concat, hbytes, ← hannounced, hpoll]
      exact List.append_nil _
    · exact (mem_concat_added Mark.noConfusion).trans (hadded l)
    · cases hno
      exact Nat.zero_le _
    · have hbefore := hcalls l
      rw [Machine.uncalled, hpoll, List.append_nil] at hbefore
      have hcall : calls l (trace ++ [.notified line]) = calls l trace :=
        (calls_concat _ _ _).trans (List.append_nil _)
      rw [hcall, hbefore]
      simp only [Machine.uncalled, Nat.zero_le, true_and]
      by_cases hl : l < m.listeners
      · rw [if_pos hl, heard_concat_of_mem ((hadded l).mpr hl)]
        rfl
      · have hnot : .added l ∉ trace := fun hmem => hl ((hadded l).mp hmem)
        have hnot' : .added l ∉ trace ++ [.notified line] :=
          fun hmem => hnot ((mem_concat_added Mark.noConfusion).mp hmem)
        rw [if_neg hl, heard_of_notMem hnot, heard_of_notMem hnot', List.append_nil]

/-- The next listener is called. -/
theorem Consistent.onLine (h : Consistent m trace) {rawBytes line : List UInt8} {next : Nat}
    (hpoll : m.poll = .notifying i rawBytes line next) (hlt : next < m.listeners) :
    Consistent { m with poll := .notifying i rawBytes line (next + 1) }
      (trace ++ [.onLine next line]) := by
  obtain ⟨htyped, hannounced, hadded, -, hcalls, -⟩ := h.announces
  constructor
  · intro j dev hj
    apply (h.input j dev hj).notify rfl rfl
    · rw [hpoll]
      rfl
    · rw [hpoll]
      exact fun _ => Poll.noConfusion
  · have hbytes : bytes (trace ++ [.onLine next line]) = bytes trace :=
      (bytes_concat _ _).trans (List.append_nil _)
    have hsame : Mark.line? (.onLine next line) = none := rfl
    refine ⟨hbytes ▸ htyped, ?_, fun l => ?_, fun j rest line' next' hno => ?_, fun l => ?_,
      Poll.noConfusion⟩
    · rw [announced_concat, hsame, hbytes, ← hannounced, hpoll]
      simp only [Poll.unannounced, Option.toList_none, List.append_nil]
    · exact (mem_concat_added Mark.noConfusion).trans (hadded l)
    · cases hno
      exact hlt
    · have hbefore := hcalls l
      rw [Machine.uncalled, hpoll] at hbefore
      rw [heard_concat_same hsame Mark.noConfusion, ← hbefore, calls_concat, List.append_assoc]
      simp only [Machine.uncalled, Mark.call?]
      congr 1
      by_cases hl : next = l
      · subst hl
        rw [if_pos rfl, if_neg (by omega), if_pos ⟨Nat.le_refl _, hlt⟩]
        rfl
      · rw [if_neg hl, Option.toList_none, List.nil_append]
        exact if_congr (by omega) rfl rfl

/-- All listeners have been called. -/
theorem Consistent.notified (h : Consistent m trace) {rawBytes line : List UInt8} {next : Nat}
    (hpoll : m.poll = .notifying i rawBytes line next) (hlast : ¬next < m.listeners) :
    Consistent { m with poll := .bytes i rawBytes } trace := by
  constructor
  · intro j dev hj
    apply (h.input j dev hj).congr
    · rw [hpoll]
      rfl
    · rw [hpoll]
      exact Poll.noConfusion
  · refine h.announces.congr rfl rfl Poll.noConfusion ?_ (fun l => ?_) fun _ _ _ _ => Poll.noConfusion
    · rw [hpoll]
      rfl
    · rw [Machine.uncalled, Machine.uncalled, hpoll]
      exact (if_neg (by omega)).symm

theorem Consistent.addListener (h : Consistent m trace)
    (hpoll : ∀ i rawBytes line next, m.poll ≠ .notifying i rawBytes line next) :
    Consistent { m with listeners := m.listeners + 1 } (trace ++ [.added m.listeners]) := by
  obtain ⟨htyped, hannounced, hadded, -, hcalls, halive⟩ := h.announces
  have hfresh : .added m.listeners ∉ trace :=
    fun hmem => Nat.lt_irrefl _ ((hadded m.listeners).mp hmem)
  have hquiet (n l : Nat) : Machine.uncalled { m with listeners := n } l = [] := by
    rw [Machine.uncalled]
    split
    · rename_i i rawBytes line next heq
      exact absurd heq (hpoll i rawBytes line next)
    · rfl
  constructor
  · exact fun j dev hj => (h.input j dev hj).frame rfl rfl rfl id
  · have hbytes : bytes (trace ++ [.added m.listeners]) = bytes trace :=
      (bytes_concat _ _).trans (List.append_nil _)
    refine ⟨hbytes ▸ htyped, ?_, fun l => ?_, fun i rawBytes line next hno => ?_, fun l => ?_, halive⟩
    · rw [hbytes, ← hannounced, announced_concat]
      exact congrArg (· ++ _) (List.append_nil _)
    · rw [List.mem_append, List.mem_singleton, hadded l, Mark.added.injEq]
      dsimp only
      omega
    · exact absurd hno (hpoll i rawBytes line next)
    · have hbefore := hcalls l
      have hnone : m.uncalled l = [] := hquiet m.listeners l
      have hcall : calls l (trace ++ [.added m.listeners]) = calls l trace :=
        (calls_concat _ _ _).trans (List.append_nil _)
      rw [hnone] at hbefore
      rw [heard_concat_added hfresh, ← hbefore, hcall, hquiet]

theorem Consistent.pollStep (h : Consistent m trace) {m' : Machine} {marks : List Mark}
    (hst : m.pollStep = some (m', marks)) : Consistent m' (trace ++ marks) := by
  rw [Machine.pollStep] at hst
  split at hst
  · rename_i hpoll
    cases hst
    rw [List.append_nil]
    exact h.goto (.inl hpoll) (.inr ⟨0, rfl⟩)
  · rename_i i hpoll
    split at hst
    · rename_i hnone
      cases hst
      rw [List.append_nil]
      exact h.goto (.inr (.inr ⟨i, hpoll, hnone⟩)) (.inl rfl)
    · rename_i dev hdev
      exact h.read hpoll hdev hst
  · rename_i i hpoll
    cases hst
    rw [List.append_nil]
    exact h.goto (.inr (.inl ⟨i, hpoll⟩)) (.inr ⟨i + 1, rfl⟩)
  · rename_i i byte rawBytes hpoll
    cases hst
    exact h.take hpoll
  · rename_i i rawBytes line hpoll
    cases hst
    exact h.notify hpoll
  · rename_i i rawBytes line next hpoll
    split at hst
    · rename_i hlt
      cases hst
      exact h.onLine hpoll hlt
    · rename_i hlast
      cases hst
      rw [List.append_nil]
      exact h.notified hpoll hlast
  · cases hst

theorem Consistent.step (h : Consistent m trace) {e : Event} {m' : Machine} {marks : List Mark}
    (hst : m.step e = some (m', marks)) : Consistent m' (trace ++ marks) := by
  cases e with
  | lock i =>
      simp only [Machine.step] at hst
      split at hst
      · cases hst
      · rename_i dev hdev
        split at hst
        · cases hst
          rw [List.append_nil]
          exact h.setOwner hdev nofun nofun
        · cases hst
  | push i byte =>
      simp only [Machine.step] at hst
      split at hst
      · cases hst
      · rename_i dev hdev
        split at hst
        · rename_i howner
          cases hst
          exact h.push hdev howner byte
        · cases hst
  | unlock i =>
      simp only [Machine.step] at hst
      split at hst
      · cases hst
      · rename_i dev hdev
        split at hst
        · cases hst
          rw [List.append_nil]
          exact h.setOwner hdev nofun nofun
        · cases hst
  | poll => exact h.pollStep hst
  | addListener =>
      simp only [Machine.step] at hst
      split at hst
      · cases hst
      · rename_i hpoll
        cases hst
        exact h.addListener hpoll

end Steps

theorem Machine.Starts.consistent {m : Machine} (h : m.Starts) : Consistent m [] := by
  obtain ⟨hinputs, hstate, hlisteners, hpoll⟩ := h
  constructor
  · intro i dev hdev
    obtain ⟨hitems, howner⟩ := hinputs dev (List.mem_of_getElem? hdev)
    refine ⟨hitems.trans (List.rtake_nil dev.size).symm, ?_, fun len hlen => ?_, fun len hlen => ?_⟩
    · rw [hpoll]
      rfl
    · cases howner.symm.trans hlen
    · cases howner.symm.trans hlen
  · refine ⟨hstate, ?_, fun l => ?_, fun i rawBytes line next hno => ?_, fun l => ?_, ?_⟩
    · rw [hpoll]
      rfl
    · rw [hlisteners]
      exact iff_of_false List.not_mem_nil (Nat.not_lt_zero l)
    · cases hpoll.symm.trans hno
    · rw [Machine.uncalled, hpoll]
      rfl
    · rw [hpoll]
      exact Poll.noConfusion

theorem Reached.consistent {s : Machine × List Mark} (h : Reached s) : Consistent s.1 s.2 := by
  refine Reachable.invariant (P := fun s => Consistent s.1 s.2) ?_ ?_ h
  · rintro ⟨m, trace⟩ ⟨hstarts, rfl⟩
    exact hstarts.consistent
  · rintro s t - hs ⟨e, -, hst⟩
    obtain ⟨⟨m, marks⟩, hstep, rfl⟩ := Option.map_eq_some_iff.mp hst
    exact hs.step hstep

end Kruspix.Kernel.TerminalInput
