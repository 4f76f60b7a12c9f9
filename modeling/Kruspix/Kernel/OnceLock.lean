import Kruspix.Lib.History
import Kruspix.Lib.Transition

/-!
# Locks that are set once

Calls of `set` and `get` run at the same time, on cores or in tasks. The status is an atomic word,
and the data is written and read by plain accesses.
-/

namespace Kruspix.Kernel.OnceLock

open Lib.History Lib.Transition

/-- The values of the status. -/
def UNINITIALIZED : UInt8 := 0
def INITIALIZING : UInt8 := 1
def INITIALIZED : UInt8 := 2

/-- Where a call of `set` is. `loaded` has a value of the status in hand. -/
inductive SetPhase
  | entered
  | loaded (status : UInt8)
  | writing
  | storing
  | returned (ok : Bool)

/-- How far a call of `get` is. -/
inductive GetPhase (T : Type)
  | entered
  | reading
  | returned (result : Option T)

/-- A call with its phase. -/
inductive Call (T : Type)
  | set (value : T) (phase : SetPhase)
  | get (phase : GetPhase T)

/-- What a call does at one moment. -/
inductive Effect (T : Type)
  | initialized (value : T)
  | refused (value : T)
  | got (result : Option T)

/-- A call begins, or one of the calls takes a step. -/
inductive Event (T : Type)
  | set (value : T)
  | get
  | step (id : Nat)

variable {T : Type}

/-- The calls in progress have numbers below `next`. The history is of no account for a step. -/
structure Machine (T : Type) where
  status : UInt8
  data : Option T
  calls : Nat → Option (Call T)
  next : Nat
  history : List (Mark (Effect T))

namespace Machine

/-- An empty cell without calls. -/
def new : Machine T := ⟨UNINITIALIZED, none, fun _ => none, 0, []⟩

variable (m : Machine T)

/-- Replace the state of a call. -/
def withCall (id : Nat) (call : Option (Call T)) : Machine T :=
  { m with calls := Function.update m.calls id call }

/-- A further mark in the history. -/
def withMark (mark : Mark (Effect T)) : Machine T := { m with history := m.history ++ [mark] }

/-- A call of `set` has a new value of the status, which settles it if the lock is set. -/
def load (id : Nat) (value : T) : Machine T :=
  let m' := m.withCall id (some (.set value (.loaded m.status)))
  if m.status = INITIALIZED then m'.withMark (.effect id (.refused value)) else m'

/-- One access of a call. `none` is a panic. -/
def stepCall (id : Nat) : Call T → Option (Machine T)
  | .set value .entered => some (m.load id value)
  | .set value (.loaded status) =>
      if status = INITIALIZED then some (m.withCall id (some (.set value (.returned false))))
      else if status = INITIALIZING then some (m.load id value)
      else if status = UNINITIALIZED then
        if m.status = UNINITIALIZED then
          some ({ m with status := INITIALIZING }.withCall id (some (.set value .writing)))
        else some (m.load id value)
      else none
  | .set value .writing =>
      some ({ m with data := some value }.withCall id (some (.set value .storing)))
  | .set value .storing =>
      some (({ m with status := INITIALIZED }.withCall id
        (some (.set value (.returned true)))).withMark (.effect id (.initialized value)))
  | .get .entered =>
      if m.status = INITIALIZED then
        some ((m.withCall id (some (.get .reading))).withMark (.effect id (.got m.data)))
      else
        some ((m.withCall id (some (.get (.returned none)))).withMark (.effect id (.got none)))
  | .get .reading => some (m.withCall id (some (.get (.returned m.data))))
  | .set _ (.returned _) | .get (.returned _) => some ((m.withCall id none).withMark (.finish id))

/-- A new call with the next id. -/
def begin (call : Call T) : Machine T :=
  { m with
    calls := Function.update m.calls m.next (some call)
    next := m.next + 1
    history := m.history ++ [.start m.next] }

/-- One event. -/
def step : Event T → Option (Machine T)
  | .set value => some (m.begin (.set value .entered))
  | .get => some (m.begin (.get .entered))
  | .step id => (m.calls id).bind (m.stepCall id)

/-- What `get` finds. -/
def content : Option T := if m.status = INITIALIZED then m.data else none

end Machine

/-- The calls before the one that sets the lock find nothing, and those after it its value. -/
def InOrder (es : List (Effect T)) : Option T → Prop
  | none => ∀ e ∈ es, e = .got none
  | some v => ∃ pre post, es = pre ++ .initialized v :: post ∧ (∀ e ∈ pre, e = .got none) ∧
      ∀ e ∈ post, e = .got (some v) ∨ ∃ w, e = .refused w

/-- The data is what `get` finds while a call is at its data. -/
def Call.stage (data : Option T) : Call T → Stage (Effect T)
  | .set _ .entered | .set _ .writing | .set _ .storing | .get .entered => .started
  | .set value (.loaded status) =>
      if status = INITIALIZED then .done (.refused value) else .started
  | .set value (.returned ok) => .done (if ok then .initialized value else .refused value)
  | .get .reading => .done (.got data)
  | .get (.returned result) => .done (.got result)

/-- The call has found the lock free. -/
def Call.owns : Call T → Bool
  | .set _ .writing | .set _ .storing => true
  | _ => false

/-- What a call in progress relies on. -/
def Call.Ok (status : UInt8) (data : Option T) : Call T → Prop
  | .set _ (.loaded s) => s = UNINITIALIZED ∨ s = INITIALIZING ∨ s = INITIALIZED
  | .set _ .writing => status = INITIALIZING
  | .set value .storing => status = INITIALIZING ∧ data = some value
  | .get .reading => status = INITIALIZED
  | _ => True

/-- How far a call is, for the history. -/
def Machine.stage (m : Machine T) (id : Nat) : Option (Stage (Effect T)) :=
  (m.calls id).map (Call.stage m.data)

/-- The history fits the calls, at most one call owns the cell while it is initialized, and the
value is there once the status says so. -/
structure Inv (m : Machine T) : Prop where
  recorded : Recorded m.stage m.next m.history
  ordered : InOrder (effects m.history) m.content
  status : m.status = UNINITIALIZED ∨ m.status = INITIALIZING ∨
    (m.status = INITIALIZED ∧ m.data.isSome)
  ok : ∀ id call, m.calls id = some call → call.Ok m.status m.data
  alone : ∀ id id' call call', m.calls id = some call → m.calls id' = some call' →
    call.owns = true → call'.owns = true → id = id'
  owned : m.status = INITIALIZING → ∃ id call, m.calls id = some call ∧ call.owns = true

section Order

variable {es : List (Effect T)} {e : Effect T} {value : T}

theorem InOrder.got {content : Option T} (h : InOrder es content) :
    InOrder (es ++ [.got content]) content := by
  cases content with
  | none =>
      intro e he
      rcases List.mem_append.mp he with he | he
      · exact h e he
      · exact List.mem_singleton.mp he
  | some v =>
      obtain ⟨pre, post, rfl, hpre, hpost⟩ := h
      refine ⟨pre, post ++ [.got (some v)], by simp, hpre, fun e he => ?_⟩
      rcases List.mem_append.mp he with he | he
      · exact hpost e he
      · exact .inl (List.mem_singleton.mp he)

theorem InOrder.refused {content : Option T} (h : InOrder es content) (hsome : content.isSome) :
    InOrder (es ++ [.refused value]) content := by
  obtain ⟨v, rfl⟩ := Option.isSome_iff_exists.mp hsome
  obtain ⟨pre, post, rfl, hpre, hpost⟩ := h
  refine ⟨pre, post ++ [.refused value], by simp, hpre, fun e he => ?_⟩
  rcases List.mem_append.mp he with he | he
  · exact hpost e he
  · exact .inr ⟨value, List.mem_singleton.mp he⟩

theorem InOrder.initialized (h : InOrder es none) :
    InOrder (es ++ [.initialized value]) (some value) :=
  ⟨es, [], rfl, h, nofun⟩

end Order

section Step

variable {m m' : Machine T} {id : Nat} {call : Call T} {next : Option (Call T)} {value : T}

theorem Machine.stage_eq (hcalls : m'.calls = Function.update m.calls id next)
    (hothers : ∀ k call, k ≠ id → m.calls k = some call → call.stage m'.data = call.stage m.data) :
    m'.stage = Function.update m.stage id (next.map (Call.stage m'.data)) := by
  funext k
  by_cases hk : k = id
  · rw [hk, stage, hcalls, Function.update_self, Function.update_self]
  · rw [stage, hcalls, Function.update_of_ne hk, Function.update_of_ne hk, stage]
    cases hcall : m.calls k with
    | none => rfl
    | some call => exact congrArg some (hothers k call hk hcall)

theorem Machine.stage_some (hcall : m.calls id = some call) :
    m.stage id = some (call.stage m.data) := by
  rw [stage, hcall, Option.map_some]

theorem update_cases {calls : Nat → Option (Call T)} {k : Nat}
    (hk : Function.update calls id next k = some call) :
    (k = id ∧ next = some call) ∨ (k ≠ id ∧ calls k = some call) := by
  by_cases hid : k = id
  · rw [hid, Function.update_self] at hk
    exact .inl ⟨hid, hk⟩
  · rw [Function.update_of_ne hid] at hk
    exact .inr ⟨hid, hk⟩

/-- A step that leaves the lock as it is, of a call that has not found it free. -/
theorem Inv.quiet {history : List (Mark (Effect T))} (h : Inv m)
    (hcalls : ∀ call, m.calls id = some call → call.owns = false)
    (hnext : ∀ call, next = some call → call.Ok m.status m.data ∧ call.owns = false)
    {count : Nat} (hrecorded : Recorded (Function.update m.stage id
      (next.map (Call.stage m.data))) count history)
    (hordered : InOrder (effects history) m.content) :
    Inv { m with
      calls := Function.update m.calls id next
      next := count
      history := history } := by
  refine ⟨?_, hordered, h.status, fun k call hk => ?_, fun k k' call call' hk hk' ho ho' => ?_,
    fun hstatus => ?_⟩
  · exact hrecorded.congr (congrFun (Machine.stage_eq rfl fun _ _ _ _ => rfl))
  · rcases update_cases hk with ⟨-, hsome⟩ | ⟨-, hcall⟩
    · exact (hnext call hsome).1
    · exact h.ok k call hcall
  · rcases update_cases hk with ⟨-, hsome⟩ | ⟨-, hcall⟩
    · rw [(hnext call hsome).2] at ho
      cases ho
    · rcases update_cases hk' with ⟨-, hsome⟩ | ⟨-, hcall'⟩
      · rw [(hnext call' hsome).2] at ho'
        cases ho'
      · exact h.alone k k' call call' hcall hcall' ho ho'
  · obtain ⟨k, call, hk, ho⟩ := h.owned hstatus
    refine ⟨k, call, ?_, ho⟩
    have hne : k ≠ id := by
      rintro rfl
      rw [hcalls call hk] at ho
      cases ho
    exact (Function.update_of_ne hne _ _).trans hk

/-- The owner of the lock goes on, or a call becomes the owner. -/
theorem Inv.owner {history : List (Mark (Effect T))} {status : UInt8} {data : Option T}
    {call' : Call T} (h : Inv m)
    (halone : ∀ k call, k ≠ id → m.calls k = some call → call.owns = false)
    (hothers : ∀ call : Call T, call.owns = false → call.Ok m.status m.data →
      call.Ok status data ∧ call.stage data = call.stage m.data)
    (hmine : call'.Ok status data) (howned : status = INITIALIZING → call'.owns = true)
    (hstatus : status = INITIALIZING ∨ (status = INITIALIZED ∧ data.isSome))
    (hrecorded : Recorded (Function.update m.stage id (some (call'.stage data))) m.next history)
    (hordered : InOrder (effects history) (if status = INITIALIZED then data else none)) :
    Inv { m with
      status := status
      data := data
      calls := Function.update m.calls id (some call')
      history := history } := by
  refine ⟨?_, hordered, .inr hstatus, fun k call hk => ?_, fun k k' c c' hk hk' ho ho' => ?_,
    fun heq => ⟨id, call', Function.update_self _ _ _, howned heq⟩⟩
  · refine hrecorded.congr fun k => (congrFun (Machine.stage_eq rfl ?_) k).trans rfl
    intro k call hk hcall
    exact (hothers call (halone k call hk hcall) (h.ok k call hcall)).2
  · rcases update_cases hk with ⟨-, hsome⟩ | ⟨hne, hcall⟩
    · cases hsome
      exact hmine
    · exact (hothers call (halone k call hne hcall) (h.ok k call hcall)).1
  · have hid (j : Nat) (c : Call T) (hj : Function.update m.calls id (some call') j = some c)
        (hc : c.owns = true) : j = id := by
      rcases update_cases hj with ⟨heq, -⟩ | ⟨hne, hcall⟩
      · exact heq
      · rw [halone j c hne hcall] at hc
        cases hc
    rw [hid k c hk ho, hid k' c' hk' ho']

theorem Inv.kept (h : Inv m) (hcall : m.calls id = some call) {st : Stage (Effect T)}
    (hst : st = call.stage m.data) :
    Recorded (Function.update m.stage id (some st)) m.next m.history := by
  rw [hst, ← Machine.stage_some hcall, Function.update_eq_self]
  exact h.recorded

theorem Inv.content_isSome (h : Inv m) (hstatus : m.status = INITIALIZED) :
    m.content.isSome := by
  rw [Machine.content, if_pos hstatus]
  rcases h.status with hno | hno | ⟨-, hdata⟩
  · cases hstatus.symm.trans hno
  · cases hstatus.symm.trans hno
  · exact hdata

/-- The status that a call finds. -/
theorem Inv.load (h : Inv m) (hcall : m.calls id = some call) (howns : call.owns = false)
    (hstarted : call.stage m.data = .started) : Inv (m.load id value) := by
  have howns' (c : Call T) (hc : m.calls id = some c) : c.owns = false := by
    rw [hcall] at hc
    cases hc
    exact howns
  have hok (c : Call T) (hc : some (.set value (.loaded m.status)) = some c) :
      c.Ok m.status m.data ∧ c.owns = false := by
    cases hc
    refine ⟨?_, rfl⟩
    rcases h.status with hstatus | hstatus | ⟨hstatus, -⟩
    · exact .inl hstatus
    · exact .inr (.inl hstatus)
    · exact .inr (.inr hstatus)
  rw [Machine.load]
  split
  · rename_i hstatus
    refine h.quiet howns' hok ?_ ?_
    · rw [Option.map_some, Call.stage, if_pos hstatus]
      exact h.recorded.effect ((Machine.stage_some hcall).trans (congrArg some hstarted))
    · rw [effects_concat]
      exact h.ordered.refused (h.content_isSome hstatus)
  · rename_i hstatus
    refine h.quiet howns' hok (h.kept hcall ?_) h.ordered
    rw [Call.stage, if_neg hstatus, hstarted]

/-- A call that has not found the lock free does not rely on its status, but for `get`, which
needs that the lock is set. -/
theorem ok_of_ne {status : UInt8} {data : Option T} (hstatus : m.status ≠ INITIALIZED)
    (call : Call T) (howns : call.owns = false) (hok : call.Ok m.status m.data) :
    call.Ok status data ∧ call.stage data = call.stage m.data := by
  rcases call with ⟨v, _ | s | _ | _ | b⟩ | _ | _ | r
  case set.loaded => exact ⟨hok, rfl⟩
  case get.reading => exact absurd hok hstatus
  case set.writing | set.storing => cases howns
  all_goals exact ⟨trivial, rfl⟩

/-- What one access of a call does. -/
theorem Inv.stepCall (h : Inv m) (hcall : m.calls id = some call)
    (hst : m.stepCall id call = some m') : Inv m' := by
  have hok := h.ok id call hcall
  have howner (k : Nat) (c : Call T) (hk : m.calls k = some c) (hc : c.owns = true) :
      m.status = INITIALIZING := by
    have hokc := h.ok k c hk
    rcases c with ⟨v, _ | s | _ | _ | b⟩ | p
    case set.writing => exact hokc
    case set.storing => exact hokc.1
    all_goals cases hc
  have hothers (hown : call.owns = true) (k : Nat) (c : Call T) (hk : k ≠ id)
      (hc : m.calls k = some c) : c.owns = false := by
    by_contra ho
    exact hk (h.alone k id c call hc hcall (Bool.not_eq_false _ ▸ ho) hown)
  have hquiet (hown : call.owns = false) (c : Call T) (hc : m.calls id = some c) :
      c.owns = false := by
    rw [hcall] at hc
    cases hc
    exact hown
  rcases call with ⟨value, _ | status | _ | _ | ok⟩ | _ | _ | result
  case set.entered =>
    cases hst
    exact h.load hcall rfl rfl
  case set.loaded =>
    rw [Machine.stepCall] at hst
    split at hst
    · rename_i hs
      cases hst
      refine h.quiet (hquiet rfl) ?_ (h.kept hcall ?_) h.ordered
      · rintro _ ⟨⟩
        exact ⟨trivial, rfl⟩
      · rw [Call.stage, Call.stage, if_pos hs]
        rfl
    · rename_i hs
      have hstarted : (Call.set value (.loaded status)).stage m.data = .started := if_neg hs
      split at hst
      · cases hst
        exact h.load hcall rfl hstarted
      · split at hst
        · split at hst
          · rename_i hfree
            cases hst
            have hne : m.status ≠ INITIALIZED := by
              rw [hfree]
              decide
            refine h.owner (fun k c _ hk => ?_) (ok_of_ne hne) rfl (fun _ => rfl) (.inl rfl)
              (h.kept hcall hstarted.symm) ?_
            · by_contra ho
              have hinit := howner k c hk (Bool.not_eq_false _ ▸ ho)
              rw [hfree] at hinit
              cases hinit
            · have hordered := h.ordered
              rw [Machine.content, if_neg hne] at hordered
              exact hordered
          · cases hst
            exact h.load hcall rfl hstarted
        · cases hst
  case set.writing =>
    cases hst
    have hne : m.status ≠ INITIALIZED := by
      rw [show m.status = INITIALIZING from hok]
      decide
    have hordered := h.ordered
    rw [Machine.content, if_neg hne] at hordered
    exact h.owner (hothers rfl) (ok_of_ne hne) ⟨hok, rfl⟩ (fun _ => rfl) (.inl hok)
      (h.kept hcall rfl) ((if_neg hne).symm ▸ hordered)
  case set.storing =>
    cases hst
    obtain ⟨hstatus, hdata⟩ := hok
    have hne : m.status ≠ INITIALIZED := by
      rw [hstatus]
      decide
    have hordered := h.ordered
    rw [Machine.content, if_neg hne] at hordered
    refine h.owner (hothers rfl) (ok_of_ne hne) trivial nofun (.inr ⟨rfl, hdata ▸ rfl⟩)
      (h.recorded.effect (Machine.stage_some hcall)) ?_
    change InOrder (effects (m.history ++ [.effect id (.initialized value)]))
      (if INITIALIZED = INITIALIZED then m.data else none)
    rw [if_pos rfl, hdata, effects_concat]
    exact hordered.initialized
  case get.entered =>
    rw [Machine.stepCall] at hst
    split at hst
    · rename_i hstatus
      cases hst
      refine h.quiet (hquiet rfl) ?_ (h.recorded.effect (Machine.stage_some hcall)) ?_
      · rintro _ ⟨⟩
        exact ⟨hstatus, rfl⟩
      · have hordered := h.ordered.got
        rw [effects_concat]
        rw [Machine.content, if_pos hstatus] at hordered ⊢
        exact hordered
    · rename_i hstatus
      cases hst
      refine h.quiet (hquiet rfl) ?_ (h.recorded.effect (Machine.stage_some hcall)) ?_
      · rintro _ ⟨⟩
        exact ⟨trivial, rfl⟩
      · have hordered := h.ordered.got
        rw [effects_concat]
        rw [Machine.content, if_neg hstatus] at hordered ⊢
        exact hordered
  case get.reading =>
    cases hst
    refine h.quiet (hquiet rfl) ?_ (h.kept hcall rfl) h.ordered
    rintro _ ⟨⟩
    exact ⟨trivial, rfl⟩
  case set.returned | get.returned =>
    cases hst
    refine h.quiet (hquiet rfl) ?_ (h.recorded.finish (Machine.stage_some hcall)) ?_
    · rintro _ ⟨⟩
    · rw [effects_concat]
      exact (List.append_nil _).symm ▸ h.ordered

theorem Inv.begin (h : Inv m) (hok : call.Ok m.status m.data) (howns : call.owns = false)
    (hstarted : call.stage m.data = .started) : Inv (m.begin call) := by
  obtain ⟨hfresh, -⟩ := h.recorded.fresh m.next (Nat.le_refl _)
  have hnone : m.calls m.next = none := Option.map_eq_none_iff.mp hfresh
  refine h.quiet (fun c hc => ?_) ?_ ?_ ?_
  · rw [hnone] at hc
    cases hc
  · rintro _ ⟨⟩
    exact ⟨hok, howns⟩
  · rw [Option.map_some, hstarted]
    exact h.recorded.start
  · rw [effects_concat]
    exact (List.append_nil _).symm ▸ h.ordered

theorem Inv.step {e : Event T} (h : Inv m) (hst : m.step e = some m') : Inv m' := by
  cases e with
  | set value =>
      cases hst
      exact h.begin trivial rfl rfl
  | get =>
      cases hst
      exact h.begin trivial rfl rfl
  | step id =>
      obtain ⟨call, hcall, hst⟩ := Option.bind_eq_some_iff.mp hst
      exact h.stepCall hcall hst

theorem inv_new : Inv (Machine.new : Machine T) :=
  ⟨recorded_nil, nofun, .inl rfl, nofun, nofun, nofun⟩

/-- The branch that is marked unreachable is. -/
theorem Inv.stepCall_isSome (h : Inv m) (hcall : m.calls id = some call) :
    (m.stepCall id call).isSome := by
  have hok := h.ok id call hcall
  rcases call with ⟨value, _ | status | _ | _ | ok⟩ | _ | _ | result
  case set.loaded =>
    rw [Machine.stepCall]
    rcases hok with rfl | rfl | rfl
    · rw [if_neg (by decide), if_neg (by decide), if_pos rfl]
      split
      · rfl
      · rfl
    · rfl
    · rfl
  case get.entered =>
    rw [Machine.stepCall]
    split
    · rfl
    · rfl
  all_goals rfl

theorem Inv.initializing (h : Inv m) (hcall : m.calls id = some call) (howns : call.owns = true) :
    m.status = INITIALIZING := by
  have hok := h.ok id call hcall
  rcases call with ⟨value, _ | status | _ | _ | ok⟩ | phase
  case set.writing => exact hok
  case set.storing => exact hok.1
  all_goals cases howns

end Step

/-- In any order of the accesses of calls of `set` and `get`, each call has its effect at one
moment between its start and its end. One call sets the lock, those of `get` before it find
nothing, and from then on each finds its value and each other `set` is refused. No call panics,
the data is written by one call alone and not while it is read, and a call waits only while that
call is in progress. -/
theorem calls_in_order {m : Machine T}
    (h : Reachable (· = Machine.new) (Step Machine.step fun _ _ => True) m) :
    InOrder (effects m.history) m.content ∧ Recorded m.stage m.next m.history ∧
      (∀ id call, m.calls id = some call → (m.stepCall id call).isSome) ∧
      (∀ id call, m.calls id = some call → call.owns = true →
        ∀ k other, m.calls k = some other → (other.owns = true → k = id) ∧
          other ≠ .get .reading) ∧
      (m.status = INITIALIZING → ∃ id call, m.calls id = some call ∧ call.owns = true) := by
  have hinv : Inv m := by
    refine Reachable.invariant ?_ ?_ h
    · rintro _ rfl
      exact inv_new
    · rintro s t - hs ⟨e, -, hst⟩
      exact hs.step hst
  refine ⟨hinv.ordered, hinv.recorded, fun id call => hinv.stepCall_isSome,
    fun id call hcall howns k other hk => ⟨fun ho => hinv.alone k id other call hk hcall ho howns,
      ?_⟩, hinv.owned⟩
  rintro rfl
  have hstatus : m.status = INITIALIZED := hinv.ok k _ hk
  have hinitializing := hinv.initializing hcall howns
  rw [hstatus] at hinitializing
  cases hinitializing

/-- Two calls of `set` find the lock free, and one of them takes it. -/
theorem calls_in_order_two : ∃ m : Machine Nat, m.status = INITIALIZING ∧
    m.calls 1 = some (.set 6 (.loaded UNINITIALIZED)) ∧
      InOrder (effects m.history) m.content ∧ Recorded m.stage m.next m.history := by
  have hstart : Reachable (· = Machine.new) (Step Machine.step fun _ _ => True)
      (Machine.new : Machine Nat) := .start rfl
  have hboth := (hstart.next ⟨.set 5, trivial, rfl⟩).next ⟨.set 6, trivial, rfl⟩
  have hloaded := (hboth.next ⟨.step 0, trivial, rfl⟩).next ⟨.step 1, trivial, rfl⟩
  have hown := hloaded.next ⟨.step 0, trivial, rfl⟩
  obtain ⟨hordered, hrecorded, -⟩ := calls_in_order hown
  exact ⟨_, rfl, rfl, hordered, hrecorded⟩

end Kruspix.Kernel.OnceLock
