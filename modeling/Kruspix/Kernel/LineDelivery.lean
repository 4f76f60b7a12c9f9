import Kruspix.Kernel.TerminalInput

/-!
# Lines get to the listeners

Whatever the order of the steps, each listener gets the lines that were typed since it was added.
A poll that is not disturbed takes all bytes that are there.
-/

namespace Kruspix.Kernel.TerminalInput

open Common LineDiscipline Lib.LineEditing Lib.DroppingQueue Lib.Transition

section Poll

variable {m m' : Machine} {trace marks : List Mark} {i : Nat} {dev : InputDevice}

/-- The task steps alone. -/
def Alone (s t : Machine × List Mark) : Prop := next s .poll = some t

/-- The inputs that the task is done with, or has read at least. -/
def Poll.done : Poll → Nat
  | .reading i => i
  | .bytes i _ => i + 1
  | .locking i _ _ => i + 1
  | .notifying i _ _ _ => i + 1
  | _ => 0

/-- No handler is in the way, and the inputs that are done are empty. -/
structure Undisturbed (m : Machine) : Prop where
  free : ∀ dev ∈ m.inputs, dev.owner ≠ some .handler
  empty : ∀ i dev, m.inputs[i]? = some dev → i < m.poll.done → dev.buffer.items = []

/-- The number of steps for each byte. -/
def Machine.perByte (m : Machine) : Nat := m.listeners + 3

/-- The steps that the bytes of an input take at most. -/
def cost (perByte : Nat) (dev : InputDevice) : Nat := dev.buffer.items.length * perByte + 4

/-- The steps of a read that are left, by who holds the ring. -/
def phase : Option Owner → Nat
  | none => 3
  | some (.reader none) => 2
  | _ => 1

theorem phase_le (owner : Option Owner) : phase owner ≤ 3 := by
  rw [phase.eq_def]
  split <;> decide

/-- The number of steps for the inputs from `i` on. -/
def Machine.rest (m : Machine) (i : Nat) : Nat :=
  (m.inputs.drop i).foldr (fun dev n => cost m.perByte dev + n) 0

/-- The number of steps that are left. -/
def Machine.left (m : Machine) : Nat :=
  match m.poll with
  | .idle => m.rest 0 + 2
  | .reading i =>
      match m.inputs[i]? with
      | none => 1
      | some dev => phase dev.owner + dev.buffer.items.length * m.perByte + m.rest (i + 1) + 2
  | .bytes i rawBytes => rawBytes.length * m.perByte + m.rest (i + 1) + 2
  | .locking i rawBytes _ =>
      m.listeners + 2 + rawBytes.length * m.perByte + m.rest (i + 1) + 2
  | .notifying i rawBytes _ next =>
      m.listeners - next + 1 + rawBytes.length * m.perByte + m.rest (i + 1) + 2
  | .panicked => 0

theorem rest_eq (hdev : m.inputs[i]? = some dev) :
    m.rest i = cost m.perByte dev + m.rest (i + 1) := by
  obtain ⟨hlt, hget⟩ := List.getElem?_eq_some_iff.mp hdev
  rw [Machine.rest, List.drop_eq_getElem_cons hlt, List.foldr_cons, hget]
  rfl

theorem rest_setInput (dev : InputDevice) : (m.setInput i dev).rest (i + 1) = m.rest (i + 1) := by
  rw [Machine.rest, Machine.rest, Machine.setInput]
  dsimp only
  rw [List.drop_set_of_lt (Nat.lt_succ_self i)]
  rfl

theorem left_reading (m : Machine) (i : Nat) :
    Machine.left { m with poll := .reading i } ≤ m.rest i + 1 := by
  cases hdev : m.inputs[i]? with
  | none =>
      simp only [Machine.left, hdev]
      omega
  | some dev =>
      have hphase := phase_le dev.owner
      simp only [Machine.left, hdev]
      rw [rest_eq hdev, cost]
      change phase dev.owner + dev.buffer.items.length * m.perByte + m.rest (i + 1) + 2 ≤ _
      omega

/-- Nothing is left in the inputs. -/
def Emptied (m : Machine) : Prop := m.poll = .idle ∧ ∀ dev ∈ m.inputs, dev.buffer.items = []

/-- The machine takes a step, after which less is left to do. -/
def Advances (m : Machine) : Prop :=
  ∃ m' marks, m.pollStep = some (m', marks) ∧ (Emptied m' ∨ (Undisturbed m' ∧ m'.left < m.left))

theorem Undisturbed.setInput (h : Undisturbed m) (hpoll : m.poll = .reading i)
    (hdev : m.inputs[i]? = some dev) {dev' : InputDevice} (howner : dev'.owner ≠ some .handler)
    {poll : Poll} (hdone : poll.done = i ∨ (poll.done = i + 1 ∧ dev'.buffer.items = [])) :
    Undisturbed { m.setInput i dev' with poll := poll } := by
  constructor
  · intro e he
    rcases List.mem_or_eq_of_mem_set he with hmem | rfl
    · exact h.free e hmem
    · exact howner
  · intro j e hj hlt
    have hj' := (getElem?_setInput hdev dev' j).symm.trans hj
    split at hj'
    · rename_i hij
      cases hj'
      subst hij
      rcases hdone with hdone | ⟨-, hempty⟩
      · exact absurd (hdone ▸ hlt) (Nat.lt_irrefl _)
      · exact hempty
    · rename_i hij
      apply h.empty j e hj'
      rw [hpoll]
      change j < i
      dsimp only at hlt
      omega

theorem Undisturbed.goto (h : Undisturbed m) {poll : Poll} (hdone : poll.done ≤ m.poll.done)
    (state : TerminalState) : Undisturbed { m with state := state, poll := poll } :=
  ⟨h.free, fun i dev hdev hlt => h.empty i dev hdev (Nat.lt_of_lt_of_le hlt hdone)⟩

theorem Undisturbed.read (h : Undisturbed m) (hm : Consistent m trace) (hpoll : m.poll = .reading i)
    (hdev : m.inputs[i]? = some dev) : Advances m := by
  have hlt : i < m.inputs.length := (List.getElem?_eq_some_iff.mp hdev).1
  have hstep : m.pollStep = m.read i dev := by
    rw [Machine.pollStep, hpoll]
    dsimp only
    rw [hdev]
  have hleft : m.left = phase dev.owner + dev.buffer.items.length * m.perByte + m.rest (i + 1) + 2 := by
    rw [Machine.left, hpoll]
    dsimp only
    rw [hdev]
  have hset (dev' : InputDevice) : Machine.left (m.setInput i dev') =
      phase dev'.owner + dev'.buffer.items.length * m.perByte + m.rest (i + 1) + 2 := by
    have hpoll' : (m.setInput i dev').poll = .reading i := hpoll
    have hget := getElem?_setInput hdev dev' i
    rw [if_pos rfl] at hget
    rw [Machine.left, hpoll']
    dsimp only
    rw [hget, rest_setInput]
    rfl
  have hdone : m.poll.done = i := by
    rw [hpoll]
    rfl
  cases howner : dev.owner with
  | none =>
      refine ⟨_, _, by rw [hstep, Machine.read, howner], .inr ⟨?_, ?_⟩⟩
      · exact h.setInput hpoll hdev (fun hno => by cases hno) (.inl hdone)
      · rw [hset, hleft, howner]
        change 2 + dev.buffer.items.length * m.perByte + m.rest (i + 1) + 2 <
          3 + dev.buffer.items.length * m.perByte + m.rest (i + 1) + 2
        omega
  | some owner =>
      cases owner with
      | handler => exact absurd howner (h.free dev (List.mem_of_getElem? hdev))
      | reader len =>
          cases len with
          | none =>
              refine ⟨_, _, by rw [hstep, Machine.read, howner], .inr ⟨?_, ?_⟩⟩
              · exact h.setInput hpoll hdev (fun hno => by cases hno) (.inl hdone)
              · rw [hset, hleft, howner]
                change 1 + dev.buffer.items.length * m.perByte + m.rest (i + 1) + 2 <
                  2 + dev.buffer.items.length * m.perByte + m.rest (i + 1) + 2
                omega
          | some len =>
              obtain ⟨buffer, hdrain, hempty, -⟩ := hm.drain hpoll hdev howner
              refine ⟨_, _, by rw [hstep, Machine.read, howner]; dsimp only; rw [hdrain], .inr ⟨?_, ?_⟩⟩
              · exact h.setInput hpoll hdev (fun hno => by cases hno) (.inr ⟨rfl, hempty⟩)
              · rw [hleft, howner]
                change dev.buffer.items.length * m.perByte + (m.setInput i _).rest (i + 1) + 2 <
                  1 + _ + _ + 2
                rw [rest_setInput]
                omega

theorem Undisturbed.advances (h : Undisturbed m) (hm : Consistent m trace) : Advances m := by
  cases hpoll : m.poll with
  | idle =>
      refine ⟨{ m with poll := .reading 0 }, [], by rw [Machine.pollStep, hpoll], .inr ⟨?_, ?_⟩⟩
      · exact h.goto (Nat.zero_le _) m.state
      · have hleft : m.left = m.rest 0 + 2 := by rw [Machine.left, hpoll]
        have hle := left_reading m 0
        omega
  | reading i =>
      cases hdev : m.inputs[i]? with
      | none =>
          refine ⟨{ m with poll := .idle }, [], ?_, .inl ⟨rfl, fun dev hmem => ?_⟩⟩
          · rw [Machine.pollStep, hpoll]
            dsimp only
            rw [hdev]
          · obtain ⟨j, hj⟩ := List.getElem?_of_mem hmem
            apply h.empty j dev hj
            rw [hpoll]
            have hlt := (List.getElem?_eq_some_iff.mp hj).1
            exact Nat.lt_of_lt_of_le hlt (List.getElem?_eq_none_iff.mp hdev)
      | some dev => exact h.read hm hpoll hdev
  | bytes i rawBytes =>
      have hdone : m.poll.done = i + 1 := by rw [hpoll]; rfl
      have hleft : m.left = rawBytes.length * m.perByte + m.rest (i + 1) + 2 := by
        rw [Machine.left, hpoll]
      cases rawBytes with
      | nil =>
          refine ⟨{ m with poll := .reading (i + 1) }, [], by rw [Machine.pollStep, hpoll],
            .inr ⟨h.goto ?_ m.state, ?_⟩⟩
          · exact Nat.le_of_eq hdone.symm
          have hle := left_reading m (i + 1)
          omega
      | cons byte rawBytes =>
          refine ⟨{ m with
            state := (lineDiscipline m.state byte).state
            poll := .afterByte i rawBytes (lineDiscipline m.state byte).line }, [.taken i byte],
            by rw [Machine.pollStep, hpoll], .inr ⟨h.goto ?_ _, ?_⟩⟩
          · rw [hdone]
            cases (lineDiscipline m.state byte).line <;> exact Nat.le_refl _
          · rw [hleft, List.length_cons, Nat.succ_mul, Machine.perByte]
            cases (lineDiscipline m.state byte).line with
            | none =>
                change rawBytes.length * m.perByte + m.rest (i + 1) + 2 < _
                rw [Machine.perByte]
                omega
            | some line =>
                change m.listeners + 2 + rawBytes.length * m.perByte + m.rest (i + 1) + 2 < _
                rw [Machine.perByte]
                omega
  | locking i rawBytes line =>
      refine ⟨{ m with poll := .notifying i rawBytes line 0 }, [.notified line],
        by rw [Machine.pollStep, hpoll], .inr ⟨h.goto ?_ m.state, ?_⟩⟩
      · rw [hpoll]
        exact Nat.le_refl _
      · have hleft : m.left = m.listeners + 2 + rawBytes.length * m.perByte + m.rest (i + 1) + 2 := by
          rw [Machine.left, hpoll]
        change m.listeners - 0 + 1 + rawBytes.length * m.perByte + m.rest (i + 1) + 2 < _
        omega
  | notifying i rawBytes line next =>
      have hdone : m.poll.done = i + 1 := by rw [hpoll]; rfl
      have hleft : m.left =
          m.listeners - next + 1 + rawBytes.length * m.perByte + m.rest (i + 1) + 2 := by
        rw [Machine.left, hpoll]
      by_cases hlt : next < m.listeners
      · refine ⟨{ m with poll := .notifying i rawBytes line (next + 1) }, [.onLine next line], ?_,
          .inr ⟨h.goto ?_ m.state, ?_⟩⟩
        · rw [Machine.pollStep, hpoll]
          exact if_pos hlt
        · exact Nat.le_of_eq hdone.symm
        · change m.listeners - (next + 1) + 1 + rawBytes.length * m.perByte + m.rest (i + 1) + 2 < _
          omega
      · refine ⟨{ m with poll := .bytes i rawBytes }, [], ?_, .inr ⟨h.goto ?_ m.state, ?_⟩⟩
        · rw [Machine.pollStep, hpoll]
          exact if_neg hlt
        · exact Nat.le_of_eq hdone.symm
        · change rawBytes.length * m.perByte + m.rest (i + 1) + 2 < _
          omega
  | panicked => exact absurd hpoll hm.announces.alive

end Poll

/-- What the observers of a run can rely on. An input gets through with the last bytes of each
batch, as many as its ring has room for. Of all bytes that get through, in their order, the lines
are announced, and each listener is called with those that are announced since it was added. -/
structure Delivers (m : Machine) (trace : List Mark) : Prop where
  alive : m.poll ≠ .panicked
  taken : ∀ i dev, m.inputs[i]? = some dev →
    takenFrom i trace ++ m.poll.pending i = (batches i trace).flatMap (·.rtake dev.size)
  unread : ∀ i dev, m.inputs[i]? = some dev → dev.buffer.items = (unread i trace).rtake dev.size
  announced : announced trace ++ m.poll.unannounced = lines key (bytes trace)
  calls : ∀ l, calls l trace ++ m.uncalled l = heard l trace
  waits : m.pollStep.isSome ∨ ∃ i, m.poll = .reading i ∧ (m.step (.unlock i)).isSome

theorem Consistent.delivers {m : Machine} {trace : List Mark} (h : Consistent m trace) :
    Delivers m trace := by
  refine ⟨h.announces.alive, fun i dev hdev => (h.input i dev hdev).taken,
    fun i dev hdev => (h.input i dev hdev).unread, h.announces.announced, h.announces.calls, ?_⟩
  cases hstep : m.pollStep with
  | some next => exact .inl rfl
  | none =>
      right
      rw [Machine.pollStep] at hstep
      split at hstep
      · cases hstep
      · rename_i i hpoll
        split at hstep
        · cases hstep
        · rename_i dev hdev
          refine ⟨i, hpoll, ?_⟩
          rw [Machine.read] at hstep
          split at hstep
          · rename_i howner
            simp only [Machine.step, hdev, howner, if_true, Option.isSome_some]
          · cases hstep
          · cases hstep
          · rename_i len howner
            obtain ⟨buffer, hdrain, -⟩ := h.drain hpoll hdev howner
            rw [hdrain] at hstep
            cases hstep
      · cases hstep
      · cases hstep
      · cases hstep
      · split at hstep
        · cases hstep
        · cases hstep
      · rename_i hpoll
        exact absurd hpoll h.announces.alive

/-- All that was there is delivered. -/
structure Delivered (m : Machine) (trace : List Mark) : Prop extends Delivers m trace where
  emptied : Emptied m
  heard : ∀ l, TerminalInput.calls l trace = TerminalInput.heard l trace
  lines : TerminalInput.announced trace = lines key (bytes trace)

theorem Consistent.delivered {m : Machine} {trace : List Mark} (h : Consistent m trace)
    (hempty : Emptied m) : Delivered m trace := by
  refine ⟨h.delivers, hempty, fun l => ?_, ?_⟩
  · have hcalls := h.announces.calls l
    rwa [Machine.uncalled, hempty.1, List.append_nil] at hcalls
  · have hannounced := h.announces.announced
    rwa [hempty.1, Poll.unannounced, List.append_nil] at hannounced
    all_goals exact fun _ _ _ => Poll.noConfusion

/-- Interrupts push bytes, the task polls and other tasks add listeners, in any order. Then no
drain panics, each input gets through but for the oldest bytes of a batch that is too long, and
each listener gets the lines that are announced since it was added, edited as they were typed.
The task only waits for a handler, which can go on. If no handler is in the way, a poll comes to
its end, and everything is delivered. -/
theorem lines_delivered {s : Machine × List Mark} (h : Reached s) :
    Delivers s.1 s.2 ∧
    (s.1.poll = .idle → (∀ dev ∈ s.1.inputs, dev.owner ≠ some .handler) →
      Inevitable Alone (fun t => Delivered t.1 t.2) s) := by
  refine ⟨h.consistent.delivers, fun hidle hfree => ?_⟩
  have hstart : Undisturbed s.1 := by
    refine ⟨hfree, fun i dev _ hlt => ?_⟩
    rw [hidle] at hlt
    exact absurd hlt (Nat.not_lt_zero i)
  apply Inevitable.of_measure (fun t => Consistent t.1 t.2 ∧ Undisturbed t.1) fun t => t.1.left
  · rintro t ⟨ht, hundisturbed⟩
    obtain ⟨m, marks, hst, -⟩ := hundisturbed.advances ht
    exact ⟨(m, t.2 ++ marks), congrArg (Option.map _) hst⟩
  · rintro t u ⟨ht, hundisturbed⟩ htu
    obtain ⟨m, marks, hst, hnext⟩ := hundisturbed.advances ht
    obtain rfl : (m, t.2 ++ marks) = u := Option.some.inj ((congrArg (Option.map _) hst).symm.trans htu)
    have hm := ht.pollStep hst
    rcases hnext with hempty | ⟨hundisturbed', hlt⟩
    · exact .inl (hm.delivered hempty)
    · exact .inr ⟨⟨hm, hundisturbed'⟩, hlt⟩
  · exact ⟨h.consistent, hstart⟩

theorem three_pos : 0 < 3 := by decide

/-- A serial line with room for three bytes. -/
def serial : Machine :=
  ⟨[⟨3, RingArray.new 0 three_pos, none⟩], ⟨[], true⟩, 0, .idle⟩

/-- Of `xabDEL CR` the first two bytes are lost. The listener is called with an empty line. -/
def typing : List Event :=
  [.addListener, .lock 0, .push 0 0x78, .push 0 0x61, .push 0 0x62, .push 0 0x7F, .push 0 0x0D,
    .unlock 0, .poll, .poll, .poll, .poll, .poll, .poll, .poll, .poll, .poll, .poll, .poll, .poll]

theorem lines_delivered_serial : ∃ s, Reached s ∧ bytes s.2 = [0x62, 0x7F, 0x0D] ∧
    calls 0 s.2 = [[]] ∧ Inevitable Alone (fun t => Delivered t.1 t.2) s := by
  obtain ⟨s, hrun, hbytes, hcalls, hidle, hfree⟩ : ∃ s, run next (fun _ _ => True) (serial, []) typing =
      some s ∧ bytes s.2 = [0x62, 0x7F, 0x0D] ∧ calls 0 s.2 = [[]] ∧ s.1.poll = .idle ∧
      ∀ dev ∈ s.1.inputs, dev.owner ≠ some .handler := by
    refine ⟨_, rfl, rfl, rfl, rfl, fun dev hmem => ?_⟩
    obtain rfl := List.mem_singleton.mp hmem
    exact fun hno => by cases hno
  have hreached : Reached s := by
    refine ⟨(serial, []), ⟨⟨?_, rfl, rfl, rfl⟩, rfl⟩, reflTransGen_of_run typing hrun⟩
    intro dev hmem
    obtain rfl := List.mem_singleton.mp hmem
    exact ⟨rfl, rfl⟩
  exact ⟨s, hreached, hbytes, hcalls, (lines_delivered hreached).2 hidle hfree⟩

end Kruspix.Kernel.TerminalInput
