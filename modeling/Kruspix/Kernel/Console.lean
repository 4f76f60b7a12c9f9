import Kruspix.Common.RingArray
import Kruspix.Lib.Bytes
import Mathlib.Data.List.TakeWhile

/-!
# The kernel console

Text goes to the system consoles, without any to the early console, and without that to a
buffer, which the early console reads when it is registered. A call runs to its end
before the next one.
-/

namespace Kruspix.Kernel.Console

open Common Lib.Bytes

variable {C : Type}

/-- A call of `write_str` on a console: of printed text on the early console, of the note at
its end, or of printed text on the system console that was registered at this index. -/
inductive Write (C : Type)
  | early (console : C) (s : String)
  | note (console : C) (s : String)
  | system (index : Nat) (console : C) (s : String)
  deriving DecidableEq, Repr

/-- The statics, with all that was written to consoles and all bytes that were printed. -/
structure State (C : Type) where
  bootConsole : RingArray UInt8 4096
  earlyConsole : Option C
  systemConsoles : List C
  output : List (Write C)
  printed : List UInt8

/-- No console, and nothing printed. -/
def State.new : State C := ⟨RingArray.new 0 (by decide), none, [], [], []⟩

/-- A text goes to the system consoles, else to the early console, else to the boot buffer. -/
def consoleWriteStr (s : State C) (text : String) : State C :=
  let s := { s with printed := s.printed ++ strBytes text }
  if !s.systemConsoles.isEmpty then
    { s with output := s.output ++ s.systemConsoles.mapIdx fun i console => .system i console text }
  else
    match s.earlyConsole with
    | some console => { s with output := s.output ++ [.early console text] }
    | none => { s with bootConsole := (strBytes text).foldl RingArray.push s.bootConsole }

/-- The formatter hands the text over in pieces. -/
def consolePrint (s : State C) (pieces : List String) : State C := pieces.foldl consoleWriteStr s

/-- The first system console replaces the early console. -/
def registerConsole (s : State C) (console : C) : State C :=
  let s := consolePrint s ["[kruspix] [INFO] Registering a new system console\n"]
  let s := { s with systemConsoles := s.systemConsoles ++ [console] }
  match s.earlyConsole with
  | none => s
  | some earlyConsole =>
      let note := "[kruspix] [INFO] Replacing early console with system console\n"
      let s := { s with earlyConsole := none, output := s.output ++ [.note earlyConsole note] }
      consolePrint s ["[kruspix] [INFO] Early console replaced by system console\n"]

/-- The first early console prints what the boot buffer holds. -/
def registerEarlyConsole (s : State C) (console : C) : State C :=
  let s :=
    match s.earlyConsole with
    | some _ => s
    | none =>
        -- each byte is a slice of its own, and not all of these are UTF-8
        let replayed := s.bootConsole.iter.collect.filterMap fun byte => str? [byte]
        { s with
          output := s.output ++ replayed.map (Write.early console)
          bootConsole := s.bootConsole.clear }
  { s with earlyConsole := some console }

/-- What happens to the consoles. -/
inductive Event (C : Type)
  | print (pieces : List String)
  | registerEarlyConsole (console : C)
  | registerConsole (console : C)

/-- One event. -/
def step (s : State C) : Event C → State C
  | .print pieces => consolePrint s pieces
  | .registerEarlyConsole console => Console.registerEarlyConsole s console
  | .registerConsole console => Console.registerConsole s console

/-- A run from the start. -/
def run (events : List (Event C)) : State C := events.foldl step State.new

/-! ## What the consoles receive -/

/-- The printed bytes of a write to the early console or to the system console that was
registered first. -/
def Write.received : Write C → List UInt8
  | .early _ s => strBytes s
  | .system 0 _ s => strBytes s
  | _ => []

/-- The bytes that were printed, in the order in which the consoles received them. -/
def State.received (s : State C) : List UInt8 := s.output.flatMap Write.received

/-- Each byte was received once, and in the order of printing. -/
def Delivered (s : State C) : Prop := s.received = s.printed

instance (s : State C) : Decidable (Delivered s) :=
  inferInstanceAs (Decidable (s.received = s.printed))

/-- The event is a print. -/
def Event.isPrint : Event C → Bool
  | .print _ => true
  | _ => false

/-- The bytes that an event prints. -/
def Event.bytes : Event C → List UInt8
  | .print pieces => pieces.flatMap strBytes
  | _ => []

/-- The bytes printed before the first registration. -/
def bytesBefore (events : List (Event C)) : List UInt8 :=
  (events.takeWhile Event.isPrint).flatMap Event.bytes

/-- The first console is an early one, and what was printed before it is ASCII. -/
def EarlyFirst (events : List (Event C)) : Prop :=
  ∀ event ∈ (events.dropWhile Event.isPrint).head?,
    (∃ console, event = .registerEarlyConsole console) ∧ ∀ byte ∈ bytesBefore events, byte < 128

theorem received_append (output more : List (Write C)) :
    (output ++ more).flatMap Write.received =
      output.flatMap Write.received ++ more.flatMap Write.received :=
  List.flatMap_append

/-- Only one of the system consoles counts. -/
theorem received_mapIdx {consoles : List C} (h : consoles ≠ []) (text : String) :
    (consoles.mapIdx fun i console => Write.system i console text).flatMap Write.received =
      strBytes text := by
  cases consoles with
  | nil => exact absurd rfl h
  | cons console consoles =>
      rw [List.mapIdx_cons, List.flatMap_cons, List.flatMap_eq_nil_iff.mpr]
      · exact List.append_nil _
      · intro write hwrite
        obtain ⟨i, hi, rfl⟩ := List.mem_mapIdx.mp hwrite
        rfl

/-- A single byte is UTF-8 when it is ASCII. -/
theorem str?_singleton (byte : UInt8) : (str? [byte]).isSome = decide (byte < 128) := by
  have hall : ∀ n : Fin 256, (str? [UInt8.ofNat n.val]).isSome = decide (n.val < 128) := by
    decide +kernel
  have hbyte := hall ⟨byte.toNat, byte.toNat_lt⟩
  rw [UInt8.ofNat_toNat] at hbyte
  rw [hbyte, decide_eq_decide, UInt8.lt_iff_toNat_lt]
  rfl

/-- The replay drops the bytes that are not ASCII. -/
theorem received_replay (console : C) (bytes : List UInt8) :
    ((bytes.filterMap fun byte => str? [byte]).map (Write.early console)).flatMap Write.received =
      bytes.filter (· < 128) := by
  induction bytes with
  | nil => rfl
  | cons byte bytes ih =>
      have hsome := str?_singleton byte
      rw [List.filterMap_cons, List.filter_cons, ← hsome]
      cases hstr : str? [byte] with
      | none => exact ih
      | some msg =>
          rw [List.map_cons, List.flatMap_cons, ih, Write.received, ← str?_eq_some.mp hstr]
          rfl

/-! ## With a console -/

/-- There is a console, and nothing waits in the buffer. -/
structure Inv (s : State C) : Prop where
  delivered : Delivered s
  empty : s.bootConsole.items = []
  listens : s.systemConsoles = [] → s.earlyConsole.isSome

theorem Inv.consoleWriteStr {s : State C} (h : Inv s) (text : String) :
    Inv (consoleWriteStr s text) := by
  have hdelivered := h.delivered
  rw [Delivered, State.received] at hdelivered
  rw [Console.consoleWriteStr]
  dsimp only
  split
  · rename_i hconsoles
    have hne : s.systemConsoles ≠ [] := by
      rintro heq
      rw [heq] at hconsoles
      cases hconsoles
    refine ⟨?_, h.empty, h.listens⟩
    rw [Delivered, State.received, received_append, received_mapIdx hne, hdelivered]
  · rename_i hconsoles
    have hnil : s.systemConsoles = [] := by
      rw [Bool.not_eq_true, Bool.not_eq_false'] at hconsoles
      exact List.isEmpty_iff.mp hconsoles
    split
    · refine ⟨?_, h.empty, h.listens⟩
      rw [Delivered, State.received, received_append, hdelivered]
      exact congrArg _ (List.append_nil _)
    · rename_i hnone
      have hsome := h.listens hnil
      rw [hnone] at hsome
      cases hsome

theorem Inv.consolePrint {s : State C} (h : Inv s) (pieces : List String) :
    Inv (consolePrint s pieces) := by
  induction pieces generalizing s with
  | nil => exact h
  | cons text pieces ih => exact ih (h.consoleWriteStr text)

/-- The note to the early console is not printed text. -/
theorem Inv.note {s : State C} (h : Inv s) (console early : C) (note : String) :
    Inv { s with
      systemConsoles := s.systemConsoles ++ [console]
      earlyConsole := none
      output := s.output ++ [.note early note] } := by
  refine ⟨?_, h.empty, fun hnil => ?_⟩
  · rw [Delivered, State.received, received_append]
    exact (List.append_nil _).trans h.delivered
  · exact absurd hnil (List.append_ne_nil_of_right_ne_nil _ (List.cons_ne_nil _ _))

theorem Inv.registerConsole {s : State C} (h : Inv s) (console : C) :
    Inv (registerConsole s console) := by
  have hprint := h.consolePrint ["[kruspix] [INFO] Registering a new system console\n"]
  rw [Console.registerConsole]
  dsimp only
  split
  · refine ⟨hprint.delivered, hprint.empty, fun hnil => ?_⟩
    exact absurd hnil (List.append_ne_nil_of_right_ne_nil _ (List.cons_ne_nil _ _))
  · exact (hprint.note console _ _).consolePrint _

/-- Nothing is replayed a second time. -/
theorem Inv.registerEarlyConsole {s : State C} (h : Inv s) (console : C) :
    Inv (registerEarlyConsole s console) := by
  rw [Console.registerEarlyConsole]
  split
  · exact ⟨h.delivered, h.empty, fun _ => rfl⟩
  · refine ⟨?_, rfl, fun _ => rfl⟩
    rw [RingArray.iter_collect, h.empty]
    exact (congrArg _ (List.append_nil _)).trans h.delivered

theorem Inv.step {s : State C} (h : Inv s) (event : Event C) : Inv (step s event) := by
  cases event with
  | print pieces => exact h.consolePrint pieces
  | registerEarlyConsole console => exact h.registerEarlyConsole console
  | registerConsole console => exact h.registerConsole console

theorem Inv.run {s : State C} (h : Inv s) (events : List (Event C)) :
    Inv (events.foldl Console.step s) := by
  induction events generalizing s with
  | nil => exact h
  | cons event events ih => exact ih (h.step event)

/-! ## Before the first console -/

/-- Nothing is registered, and these bytes were printed. They are in the buffer if they fit. -/
structure Boots (s : State C) (bytes : List UInt8) : Prop where
  systemConsoles : s.systemConsoles = []
  earlyConsole : s.earlyConsole = none
  output : s.output = []
  printed : s.printed = bytes
  items : bytes.length ≤ 4096 → s.bootConsole.items = bytes

theorem Boots.consoleWriteStr {s : State C} {bytes : List UInt8} (h : Boots s bytes)
    (text : String) : Boots (consoleWriteStr s text) (bytes ++ strBytes text) := by
  have hstep : Console.consoleWriteStr s text = { s with
      printed := s.printed ++ strBytes text
      bootConsole := (strBytes text).foldl RingArray.push s.bootConsole } := by
    simp only [Console.consoleWriteStr, h.systemConsoles, h.earlyConsole, List.isEmpty_nil,
      Bool.not_true, Bool.false_eq_true, if_false]
  rw [hstep]
  refine ⟨h.systemConsoles, h.earlyConsole, h.output, congrArg (· ++ _) h.printed, fun hfit => ?_⟩
  rw [List.length_append] at hfit
  rw [RingArray.items_foldl_push, h.items (by omega), List.length_append, Nat.sub_eq_zero_of_le hfit]
  rfl

theorem Boots.consolePrint {s : State C} {bytes : List UInt8} (h : Boots s bytes)
    (pieces : List String) : Boots (consolePrint s pieces) (bytes ++ pieces.flatMap strBytes) := by
  induction pieces generalizing s bytes with
  | nil =>
      rw [List.flatMap_nil, List.append_nil]
      exact h
  | cons text pieces ih =>
      rw [List.flatMap_cons, ← List.append_assoc]
      exact ih (h.consoleWriteStr text)

theorem Boots.run {s : State C} {bytes : List UInt8} (h : Boots s bytes) {events : List (Event C)}
    (hprints : ∀ event ∈ events, event.isPrint = true) :
    Boots (events.foldl step s) (bytes ++ events.flatMap Event.bytes) := by
  induction events generalizing s bytes with
  | nil =>
      rw [List.flatMap_nil, List.append_nil]
      exact h
  | cons event events ih =>
      cases event with
      | print pieces =>
          rw [List.flatMap_cons, ← List.append_assoc]
          exact ih (h.consolePrint pieces) fun event hevent => hprints event (.tail _ hevent)
      | registerEarlyConsole console => cases hprints _ List.mem_cons_self
      | registerConsole console => cases hprints _ List.mem_cons_self

theorem Boots.before (events : List (Event C)) :
    Boots (Console.run (events.takeWhile Event.isPrint)) (bytesBefore events) := by
  have hnew : Boots (State.new : State C) [] := ⟨rfl, rfl, rfl, rfl, fun _ => rfl⟩
  exact hnew.run fun event hevent => List.all_eq_true.mp List.all_takeWhile event hevent

/-- The early console gets the ASCII part of what was printed. -/
theorem Boots.registerEarlyConsole {s : State C} {bytes : List UInt8} (h : Boots s bytes)
    (hfit : bytes.length ≤ 4096) (console : C) :
    (registerEarlyConsole s console).received = bytes.filter (· < 128) ∧
      (registerEarlyConsole s console).printed = bytes := by
  rw [Console.registerEarlyConsole, h.earlyConsole]
  refine ⟨?_, h.printed⟩
  rw [State.received]
  dsimp only
  rw [RingArray.iter_collect, h.items hfit, h.output, List.nil_append, received_replay]

/-- A system console that comes first misses what was printed, its own message too. -/
theorem Boots.registerConsole {s : State C} {bytes : List UInt8} (h : Boots s bytes)
    (console : C) : ¬Delivered (registerConsole s console) := by
  have hprint := h.consolePrint ["[kruspix] [INFO] Registering a new system console\n"]
  rw [Console.registerConsole]
  dsimp only
  rw [hprint.earlyConsole]
  dsimp only
  rw [Delivered, State.received, hprint.output, hprint.printed]
  intro hnil
  have hpieces := (List.append_eq_nil_iff.mp hnil.symm).2
  revert hpieces
  decide +kernel

theorem run_eq (events : List (Event C)) : run events =
    (events.dropWhile Event.isPrint).foldl step (run (events.takeWhile Event.isPrint)) := by
  rw [run, run, ← List.foldl_append, List.takeWhile_append_dropWhile]

/-- The first registration of a part of the run is the first one of the run. -/
theorem dropWhile_prefix {done more : List (Event C)} {first : Event C} (rest : List (Event C))
    (h : done.dropWhile Event.isPrint = first :: more) :
    (done ++ rest).takeWhile Event.isPrint = done.takeWhile Event.isPrint ∧
      first ∈ ((done ++ rest).dropWhile Event.isPrint).head? := by
  have hsplit := @List.takeWhile_append_dropWhile _ Event.isPrint done
  rw [h] at hsplit
  constructor
  · rw [List.takeWhile_append, if_neg]
    intro hlen
    have hwhole := congrArg List.length hsplit
    rw [List.length_append, List.length_cons] at hwhole
    omega
  · rw [List.dropWhile_append, h]
    rfl

/-- The runs that deliver every byte, once and in order, at all times from the first
registration on. -/
theorem delivered_iff_earlyFirst (events : List (Event C))
    (hfit : (bytesBefore events).length ≤ 4096) :
    (∀ done rest, events = done ++ rest → (∃ event ∈ done, event.isPrint = false) →
      Delivered (run done)) ↔ EarlyFirst events := by
  have hboots := Boots.before events
  constructor
  · intro hall event hevent
    obtain ⟨rest, hdrop⟩ := List.head?_eq_some_iff.mp hevent
    have hevents : events = events.takeWhile Event.isPrint ++ [event] ++ rest := by
      rw [List.append_assoc, List.singleton_append, ← hdrop, List.takeWhile_append_dropWhile]
    have hregisters : event.isPrint = false := by
      have hnot := List.head?_dropWhile_not Event.isPrint events
      rw [hdrop] at hnot
      exact hnot
    have hnext := hall _ rest hevents ⟨event, List.mem_append_right _ (List.mem_singleton_self _),
      hregisters⟩
    rw [run, List.foldl_append, List.foldl_cons, List.foldl_nil, ← run] at hnext
    cases event with
    | print pieces => cases hregisters
    | registerConsole console => exact absurd hnext (hboots.registerConsole console)
    | registerEarlyConsole console =>
        obtain ⟨hreceived, hprinted⟩ := hboots.registerEarlyConsole hfit console
        refine ⟨⟨console, rfl⟩, fun byte hbyte => ?_⟩
        have hsame : (bytesBefore events).filter (· < 128) = bytesBefore events :=
          hreceived.symm.trans (Eq.trans hnext hprinted)
        exact of_decide_eq_true (List.filter_eq_self.mp hsame byte hbyte)
  · rintro hfirst done rest rfl ⟨event, hevent, hregisters⟩
    have hne : done.dropWhile Event.isPrint ≠ [] := by
      intro hnil
      rw [List.dropWhile_eq_nil_iff] at hnil
      rw [hnil event hevent] at hregisters
      cases hregisters
    obtain ⟨first, more, hdrop⟩ := List.exists_cons_of_ne_nil hne
    obtain ⟨hbefore, hhead⟩ := dropWhile_prefix rest hdrop
    obtain ⟨⟨console, rfl⟩, hascii⟩ := hfirst first hhead
    rw [run_eq, hdrop, List.foldl_cons]
    refine (Inv.run ?_ more).delivered
    rw [bytesBefore, hbefore] at hfit hascii
    obtain ⟨hreceived, hprinted⟩ := (Boots.before done).registerEarlyConsole hfit console
    refine ⟨?_, ?_, fun _ => rfl⟩
    · rw [Delivered, step, hreceived, hprinted, List.filter_eq_self]
      exact fun byte hbyte => decide_eq_true (hascii byte hbyte)
    · rw [step, Console.registerEarlyConsole, (Boots.before done).earlyConsole]
      rfl

/-- A line with a sign that is not ASCII comes after the early console. -/
theorem delivered_iff_earlyFirst_uart :
    let events : List (Event Nat) := [.print ["boot\n"], .registerEarlyConsole 0,
      .print ["temperature ", "40", " °C\n"], .registerConsole 1]
    EarlyFirst events ∧ ∀ done rest, events = done ++ rest →
      (∃ event ∈ done, event.isPrint = false) → Delivered (run done) := by
  intro events
  have hfirst : EarlyFirst events := by
    intro event hevent
    cases hevent
    exact ⟨⟨0, rfl⟩, by decide +kernel⟩
  exact ⟨hfirst, (delivered_iff_earlyFirst events (by decide +kernel)).mpr hfirst⟩

/-- The same line comes before the early console, which drops the bytes of the sign. -/
theorem not_delivered_degree :
    ∃ done : List (Event Nat), (bytesBefore done).length ≤ 4096 ∧
      (∃ event ∈ done, event.isPrint = false) ∧ ¬Delivered (run done) :=
  ⟨[.print ["temperature ", "40", " °C\n"], .registerEarlyConsole 0], by decide +kernel,
    ⟨_, .tail _ List.mem_cons_self, rfl⟩, by decide +kernel⟩

end Kruspix.Kernel.Console
