import Kruspix.Lib.Transition
import Mathlib.Data.List.Basic

/-!
# Spin locks and interrupts on one processor

Tasks share one processor and take spin locks. An interrupt runs on top of the task
it finds, unless that task has masked interrupts, and may leave the processor to
another task when it is done. It cannot wait for a lock: whoever holds the lock does
not run. So an interrupt must find every lock free that it takes.
-/

namespace Kruspix.Lib.Preemption

open Transition

/-- What code does to the locks, the interrupt mask and the processor. -/
inductive Op (L : Type*)
  | lock (l : L)
  | unlock (l : L)
  | disable
  | restore
  | enable
  | switch (task : Nat)
  deriving DecidableEq

/-- The guards that code holds, the masks it has saved, and the mask. -/
structure Config (L : Type*) where
  guards : List L
  handles : List Bool
  masked : Bool

/-- Code that is under way. -/
structure Frame (L : Type*) extends Config L where
  code : List (Op L)

/-- A task, and the interrupt that runs on top of it. -/
structure Task (L : Type*) where
  frame : Frame L
  interrupt : Option (Frame L)

/-- The tasks and the one that runs. -/
structure State (L : Type*) where
  tasks : List (Task L)
  current : Nat

variable {L : Type*} [DecidableEq L]

/-- What an operation does to the guards and the mask, when it goes on. -/
def Config.next (c : Config L) : Op L → Option (Config L)
  | .lock l => some { c with guards := l :: c.guards }
  | .unlock l => some { c with guards := c.guards.erase l }
  | .disable => some { c with handles := c.masked :: c.handles, masked := true }
  | .restore =>
      match c.handles with
      | [] => none
      | handle :: handles => some { c with handles := handles, masked := handle }
  | .enable => some { c with masked := false }
  | .switch _ => some c

namespace Task

/-- A task that has not run yet. -/
def fresh : Task L := ⟨⟨⟨[], [], false⟩, []⟩, none⟩

/-- The frame that executes: that of the interrupt, if there is one. -/
def active (t : Task L) : Frame L := t.interrupt.getD t.frame

/-- Replace the frame that executes: that of the interrupt, if the task is interrupted. -/
def setActive (t : Task L) (f : Frame L) : Task L :=
  match t.interrupt with
  | none => { t with frame := f }
  | some _ => { t with interrupt := some f }

/-- The locks held by a task and by the handler that interrupts it. -/
def guards (t : Task L) : List L :=
  t.frame.guards ++ (t.interrupt.map fun f => f.guards).getD []

end Task

namespace State

/-- Some task holds the lock. -/
def Held (s : State L) (l : L) : Prop := ∃ t ∈ s.tasks, l ∈ t.guards

instance (s : State L) (l : L) : Decidable (s.Held l) := by
  unfold Held
  infer_instance

/-- The operation waits for a lock. -/
def Blocked (s : State L) : Op L → Prop
  | .lock l => s.Held l
  | _ => False

instance (s : State L) (op : Op L) : Decidable (s.Blocked op) := by
  cases op <;> unfold Blocked <;> infer_instance

/-- The task that runs after an operation. -/
def target (s : State L) : Op L → Nat
  | .switch task => task
  | _ => s.current

/-- The running task makes one operation. A lock that is held is tried again. -/
def exec (s : State L) : Option (State L) :=
  match s.tasks[s.current]? with
  | none => none
  | some t =>
      match t.active.code with
      | [] =>
          if t.interrupt.isSome then
            some { s with tasks := s.tasks.set s.current { t with interrupt := none } }
          else none
      | op :: rest =>
          if s.Blocked op then some s
          else
            match t.active.toConfig.next op with
            | none => none
            | some c =>
                if s.target op < s.tasks.length then
                  some ⟨s.tasks.set s.current (t.setActive ⟨c, rest⟩), s.target op⟩
                else none

/-- The running task calls some code. -/
def call (s : State L) (code : List (Op L)) : Option (State L) :=
  match s.tasks[s.current]? with
  | none => none
  | some t =>
      if t.interrupt.isNone ∧ t.frame.code = [] then
        some { s with
          tasks := s.tasks.set s.current { t with frame := { t.frame with code := code } } }
      else none

/-- An interrupt is taken. -/
def interrupt (s : State L) (code : List (Op L)) : Option (State L) :=
  match s.tasks[s.current]? with
  | none => none
  | some t =>
      if t.interrupt.isNone ∧ t.frame.masked = false then
        some { s with
          tasks := s.tasks.set s.current { t with interrupt := some ⟨⟨[], [], true⟩, code⟩ } }
      else none

def spawn (s : State L) : State L := { s with tasks := s.tasks ++ [Task.fresh] }

end State

/-- What happens next. -/
inductive Event (L : Type*)
  | exec
  | call (code : List (Op L))
  | interrupt (code : List (Op L))
  | spawn

/-- One event of a run; `none` when it cannot happen. -/
def step (s : State L) : Event L → Option (State L)
  | .exec => s.exec
  | .call code => s.call code
  | .interrupt code => s.interrupt code
  | .spawn => some s.spawn

/-- An interrupt that takes a lock finds it free. -/
def Safe (s : State L) : Prop :=
  ∀ t f l rest, s.tasks[s.current]? = some t → t.interrupt = some f →
    f.code = .lock l :: rest → ¬s.Held l

/-- Whatever an interrupt does brings it closer to its end. -/
def Advances (s : State L) : Prop :=
  ∀ t f u, s.tasks[s.current]? = some t → t.interrupt = some f → s.exec = some u →
    ∃ t', u.tasks[s.current]? = some t' ∧
      ∀ f', t'.interrupt = some f' → f'.code.length < f.code.length

/-! ## What the code of tasks and interrupts must keep -/

variable (masking : L → Prop)

/-- None of the guards is one that has to be held with interrupts masked. -/
def Config.Open (c : Config L) : Prop := ∀ l ∈ c.guards, ¬masking l

/-- Interrupts are masked, or no guard wants them masked. -/
def Config.Ok (c : Config L) : Prop := c.masked = true ∨ c.Open masking

/-- The code of a task holds a masking lock only while interrupts are masked, and
none when it leaves the processor or ends. -/
def Passes : Config L → List (Op L) → Prop
  | c, [] => c.Open masking
  | c, op :: rest => ((op matches .switch _) → c.Open masking) ∧
      ∃ d, c.next op = some d ∧ d.Ok masking ∧ Passes d rest

variable (shared : L → Prop) (rank : L → Nat)

/-- The code of an interrupt takes shared locks in the order of their ranks, keeps
interrupts masked, and takes no lock after it has left the processor. -/
def Serves : Config L → List (Op L) → Prop
  | _, [] => True
  | c, op :: rest =>
      (match op with
        | .lock l => shared l ∧ ∀ g ∈ c.guards, rank g < rank l
        | .switch _ => c.guards = [] ∧ ∀ l, .lock l ∉ rest
        | _ => True) ∧
      ∃ d, c.next op = some d ∧ d.masked = true ∧ Serves d rest

/-! ## Rules for the code of tasks -/

/-- The code can be put in front of other code, wherever the configuration has `P`. -/
def Keeps (P : Config L → Prop) (code : List (Op L)) : Prop :=
  ∀ c rest, P c → Passes masking c rest → Passes masking c (code ++ rest)

namespace Keeps

variable {masking} {P Q : Config L → Prop} {code body : List (Op L)}

theorem nil : Keeps masking P ([] : List (Op L)) := fun _ _ _ h => h

theorem append {code' : List (Op L)} (h : Keeps masking P code) (h' : Keeps masking P code') :
    Keeps masking P (code ++ code') := by
  intro c rest hP hrest
  rw [List.append_assoc]
  apply h c _ hP
  exact h' c rest hP hrest

theorem flatMap {α : Type*} {f : α → List (Op L)} (h : ∀ a, Keeps masking P (f a))
    (xs : List α) : Keeps masking P (xs.flatMap f) := by
  induction xs with
  | nil => exact nil
  | cons x xs ih =>
      rw [List.flatMap_cons]
      exact (h x).append ih

theorem mono (h : Keeps masking Q code) (hPQ : ∀ c, P c → Q c) : Keeps masking P code :=
  fun c rest hP hrest => h c rest (hPQ c hP) hrest

/-- A section of a lock. -/
theorem lock {l : L} (hbody : Keeps masking Q body)
    (hP : ∀ c, P c → c.Ok masking ∧ Q { c with guards := l :: c.guards })
    (hQ : ∀ c, Q c → c.Ok masking) : Keeps masking P (.lock l :: (body ++ [.unlock l])) := by
  intro c rest hc hrest
  obtain ⟨hok, hinner⟩ := hP c hc
  rw [List.cons_append, List.append_assoc]
  refine ⟨fun hswitch => (by cases hswitch), _, rfl, hQ _ hinner, ?_⟩
  apply hbody _ _ hinner
  refine ⟨fun hswitch => (by cases hswitch), c, ?_, hok, hrest⟩
  simp only [Config.next, List.erase_cons_head]

/-- A section with interrupts masked. -/
theorem disable (hbody : Keeps masking (fun c => c.masked = true) body)
    (hP : ∀ c, P c → c.Ok masking) : Keeps masking P (.disable :: (body ++ [.restore])) := by
  intro c rest hc hrest
  rw [List.cons_append, List.append_assoc]
  refine ⟨fun hswitch => (by cases hswitch), _, rfl, .inl rfl, ?_⟩
  apply hbody _ _ rfl
  exact ⟨fun hswitch => (by cases hswitch), c, rfl, hP c hc, hrest⟩

/-- The processor is left with interrupts masked and without a masking guard. -/
theorem leave (hbody : Keeps masking (fun c => c.masked = true) body) (task : Nat) :
    Keeps masking (fun c => c.Open masking) (.disable :: (body ++ [.switch task, .restore])) := by
  intro c rest hc hrest
  rw [List.cons_append, List.append_assoc]
  refine ⟨fun hswitch => (by cases hswitch), _, rfl, .inl rfl, ?_⟩
  apply hbody _ _ rfl
  refine ⟨fun _ => hc, _, rfl, .inl rfl, ?_⟩
  exact ⟨fun hswitch => (by cases hswitch), c, rfl, .inr hc, hrest⟩

end Keeps

/-! ## Rules for the code of interrupts -/

/-- The code takes locks of rank `n` and above. -/
def Ascends (n : Nat) (code : List (Op L)) : Prop :=
  ∀ c rest, c.masked = true → (∀ g ∈ c.guards, rank g < n) → Serves shared rank c rest →
    Serves shared rank c (code ++ rest)

namespace Ascends

variable {shared rank} {n : Nat} {code body : List (Op L)}

theorem nil : Ascends shared rank n ([] : List (Op L)) := fun _ _ _ _ h => h

theorem append {code' : List (Op L)} (h : Ascends shared rank n code)
    (h' : Ascends shared rank n code') : Ascends shared rank n (code ++ code') := by
  intro c rest hmasked hbelow hrest
  rw [List.append_assoc]
  apply h c _ hmasked hbelow
  exact h' c rest hmasked hbelow hrest

theorem flatMap {α : Type*} {f : α → List (Op L)} (h : ∀ a, Ascends shared rank n (f a))
    (xs : List α) : Ascends shared rank n (xs.flatMap f) := by
  induction xs with
  | nil => exact nil
  | cons x xs ih =>
      rw [List.flatMap_cons]
      exact (h x).append ih

theorem mono {m : Nat} (h : Ascends shared rank n code) (hle : m ≤ n) :
    Ascends shared rank m code :=
  fun c rest hmasked hbelow hrest =>
    h c rest hmasked (fun g hg => Nat.lt_of_lt_of_le (hbelow g hg) hle) hrest

theorem lock {l : L} (hl : shared l) (hrank : n ≤ rank l)
    (hbody : Ascends shared rank (rank l + 1) body) :
    Ascends shared rank n (.lock l :: (body ++ [.unlock l])) := by
  intro c rest hmasked hbelow hrest
  rw [List.cons_append, List.append_assoc]
  refine ⟨⟨hl, fun g hg => Nat.lt_of_lt_of_le (hbelow g hg) hrank⟩, _, rfl, hmasked, ?_⟩
  apply hbody { c with guards := l :: c.guards } _ hmasked
  · intro g hg
    rcases List.mem_cons.mp hg with rfl | hg
    · exact Nat.lt_succ_self _
    · exact Nat.lt_succ_of_lt (Nat.lt_of_lt_of_le (hbelow g hg) hrank)
  · refine ⟨trivial, c, ?_, hmasked, hrest⟩
    simp only [Config.next, List.erase_cons_head]

theorem disable (hbody : Ascends shared rank n body) :
    Ascends shared rank n (.disable :: (body ++ [.restore])) := by
  intro c rest hmasked hbelow hrest
  rw [List.cons_append, List.append_assoc]
  refine ⟨trivial, _, rfl, rfl, ?_⟩
  apply hbody { c with handles := c.masked :: c.handles, masked := true } _ rfl hbelow
  exact ⟨trivial, c, rfl, hmasked, hrest⟩

end Ascends

end Kruspix.Lib.Preemption
