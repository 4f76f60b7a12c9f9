import Kruspix.Lib.History
import Kruspix.Lib.TestAndSet
import Kruspix.Lib.Transition
import Mathlib.Data.Fintype.Basic

/-!
# The interrupt lines of the cores

Each core turns its lines on and off in registers of the local interrupt controller. A register
is read and written back with the lock that belongs to its address. While a core has that lock,
or waits for it, IRQ and FIQ are masked and it runs nothing else.
-/

namespace Kruspix.Drivers.LocalInterrupts

open Lib.History Lib.TestAndSet Lib.Transition

abbrev Addr := BitVec 64

abbrev Word := BitVec 32

def GOLDEN_RATIO_MUL : Addr := 0x9e3779b97f4a7c15

/-- The hash that spreads register addresses over the locks. -/
def fibonacciHash (addr : Addr) : Addr := (addr >>> 2) * GOLDEN_RATIO_MUL

def ADDR_LOCK_BITS : Nat := 8

def ADDR_LOCK_COUNT : Nat := 1 <<< ADDR_LOCK_BITS

def ADDR_LOCK_COUNT_SHIFT : Nat := 64 - ADDR_LOCK_BITS

/-- The index into the locks is in range for every address. -/
def addrLock (addr : Addr) : Fin ADDR_LOCK_COUNT :=
  ⟨(fibonacciHash addr >>> ADDR_LOCK_COUNT_SHIFT).toNat, by
    have hlt := (fibonacciHash addr).isLt
    rw [BitVec.toNat_ushiftRight, Nat.shiftRight_eq_div_pow]
    exact Nat.div_lt_of_lt_mul hlt⟩

def AXI_OUTSTANDING_IRQ_REG_OFFSET : Addr := 0x30
def LOCAL_TIMER_CTRL_AND_STATUS_REG_OFFSET : Addr := 0x34
def CORE_TIMERS_INT_CTRL_REG_OFFSET : Addr := 0x40
def CORE_MBOX_INT_CTRL_REG_OFFSET : Addr := 0x50

/-- Where a line is turned on: at a bit of a register, or in the routing of the performance
monitors, which has a register to set bits and one to clear them. -/
inductive Place
  | bit (reg : Addr) (bit : Fin 32)
  | pmuRouting (core : Fin 4)
  deriving DecidableEq

section Line

variable (regBase : Addr) (core : Fin 4)

/-- A bit of a register that every core has one of. -/
def coreRelatedReg (offset : Addr) (bit : Fin 32) : Place :=
  .bit (regBase + offset + BitVec.ofNat 64 (core * 4)) bit

/-- A bit of a register that all cores share. -/
def coreUnrelatedReg (offset : Addr) (bit : Fin 32) : Place := .bit (regBase + offset) bit

/-- `enable` and `disable` select the same place. The GPU interrupt is always enabled. -/
def line : Fin 12 → Option Place
  | 0 => some (coreRelatedReg regBase core CORE_TIMERS_INT_CTRL_REG_OFFSET 0)
  | 1 => some (coreRelatedReg regBase core CORE_TIMERS_INT_CTRL_REG_OFFSET 1)
  | 2 => some (coreRelatedReg regBase core CORE_TIMERS_INT_CTRL_REG_OFFSET 2)
  | 3 => some (coreRelatedReg regBase core CORE_TIMERS_INT_CTRL_REG_OFFSET 3)
  | 4 => some (coreRelatedReg regBase core CORE_MBOX_INT_CTRL_REG_OFFSET 0)
  | 5 => some (coreRelatedReg regBase core CORE_MBOX_INT_CTRL_REG_OFFSET 1)
  | 6 => some (coreRelatedReg regBase core CORE_MBOX_INT_CTRL_REG_OFFSET 2)
  | 7 => some (coreRelatedReg regBase core CORE_MBOX_INT_CTRL_REG_OFFSET 3)
  | 8 => none
  | 9 => some (.pmuRouting core)
  | 10 => some (coreUnrelatedReg regBase AXI_OUTSTANDING_IRQ_REG_OFFSET 20)
  | 11 => some (coreUnrelatedReg regBase LOCAL_TIMER_CTRL_AND_STATUS_REG_OFFSET 29)

end Line

/-- Set or clear one bit. -/
def setBit (value : Word) (bit : Nat) (enable : Bool) : Word :=
  if enable then value ||| 1#32 <<< bit else value &&& ~~~(1#32 <<< bit)

/-- Where a call of `enable` or `disable` is. -/
inductive Phase
  | entered
  | locking
  | reading
  | writing (value : Word)
  | unlocking
  | restoring
  | returning

/-- IRQ and FIQ are masked by the call. -/
def Phase.masked : Phase → Bool
  | .entered | .returning => false
  | _ => true

/-- A call of `enable` or `disable` for a line of a core. -/
structure Call where
  core : Fin 4
  place : Option Place
  enable : Bool
  phase : Phase

/-- The calls in progress have numbers below `next`. The history is of no account for a step. -/
structure Machine where
  regs : Addr → Word
  pmuRouting : Word
  locks : Fin ADDR_LOCK_COUNT → Bool
  calls : Nat → Option Call
  next : Nat
  history : List (Mark (Option Place × Bool))

/-- A call begins, or one of the calls takes a step. -/
inductive Event
  | call (core : Fin 4) (hwirq : Fin 12) (enable : Bool)
  | step (id : Nat)

namespace Machine

/-- No calls, and no lock held. -/
def new (regs : Addr → Word) (pmuRouting : Word) : Machine :=
  ⟨regs, pmuRouting, fun _ => false, fun _ => none, 0, []⟩

variable (m : Machine)

/-- Replace the phase of a call. -/
def withPhase (id : Nat) (call : Call) (phase : Phase) : Machine :=
  { m with calls := Function.update m.calls id (some { call with phase := phase }) }

/-- The call has had its effect. -/
def withEffect (id : Nat) (call : Call) : Machine :=
  { m with history := m.history ++ [.effect id (call.place, call.enable)] }

/-- One access of a call, or one change of the mask. -/
def stepCall (id : Nat) (call : Call) : Option Machine :=
  match call.phase, call.place with
  | .entered, none => some ((m.withPhase id call .returning).withEffect id call)
  | .entered, some (.pmuRouting core) =>
      some ({ m with pmuRouting := setBit m.pmuRouting core call.enable }.withPhase id call
        .returning |>.withEffect id call)
  | .entered, some (.bit _ _) => some (m.withPhase id call .locking)
  | .locking, some (.bit reg _) =>
      if m.locks (addrLock reg) then some m
      else
        some ({ m with locks := Function.update m.locks (addrLock reg) true }.withPhase id call
          .reading)
  | .reading, some (.bit reg _) => some (m.withPhase id call (.writing (m.regs reg)))
  | .writing value, some (.bit reg bit) =>
      some ({ m with
        regs := Function.update m.regs reg (setBit value bit call.enable) }.withPhase id call
          .unlocking |>.withEffect id call)
  | .unlocking, some (.bit reg _) =>
      some ({ m with locks := Function.update m.locks (addrLock reg) false }.withPhase id call
        .restoring)
  | .restoring, _ => some (m.withPhase id call .returning)
  | .returning, _ =>
      some { m with
        calls := Function.update m.calls id none
        history := m.history ++ [.finish id] }
  | _, _ => none

/-- One event. -/
def step (regBase : Addr) : Event → Option Machine
  | .call core hwirq enable =>
      some { m with
        calls := Function.update m.calls m.next
          (some ⟨core, line regBase core hwirq, enable, .entered⟩)
        next := m.next + 1
        history := m.history ++ [.start m.next] }
  | .step id =>
      match m.calls id with
      | none => none
      | some call => m.stepCall id call

/-- No call of a core has masked interrupts, but for one with this number. -/
def Unmasked (core : Fin 4) (except : Nat) : Prop :=
  ∀ id call, m.calls id = some call → call.core = core → call.phase.masked = true → id = except

/-- A core with masked interrupts goes on with the call that masked them. -/
def Allowed : Event → Prop
  | .call core _ _ => m.Unmasked core m.next
  | .step id => ∀ call, m.calls id = some call → m.Unmasked call.core id

/-- A line is on. -/
def read : Place → Bool
  | .bit reg bit => (m.regs reg).getLsbD bit
  | .pmuRouting core => m.pmuRouting.getLsbD core

end Machine

/-- The lock that a call has. -/
def Call.lock? (call : Call) : Option (Fin ADDR_LOCK_COUNT) :=
  match call.phase, call.place with
  | .reading, some (.bit reg _) | .writing _, some (.bit reg _) | .unlocking, some (.bit reg _) =>
      some (addrLock reg)
  | _, _ => none

/-- How far a call is, for the history: its effect is the write. -/
def Call.stage (call : Call) : Stage (Option Place × Bool) :=
  match call.phase with
  | .entered | .locking | .reading | .writing _ => .started
  | .unlocking | .restoring | .returning => .done (call.place, call.enable)

namespace Machine

variable (m : Machine)

/-- The lock that a call holds. -/
def held (id : Nat) : List (Fin ADDR_LOCK_COUNT) := ((m.calls id).bind Call.lock?).toList

def stage (id : Nat) : Option (Stage (Option Place × Bool)) := (m.calls id).map Call.stage

end Machine

/-- The lines that are on, as far as one call changes them. -/
def setLine (lines : Place → Bool) : Option Place × Bool → Place → Bool
  | (none, _) => lines
  | (some place, enable) => Function.update lines place enable

section Line

theorem getLsbD_setBit (value : Word) {bit i : Nat} (hi : i < 32) (enable : Bool) :
    (setBit value bit enable).getLsbD i = if i = bit then enable else value.getLsbD i := by
  rw [setBit, ← BitVec.twoPow_eq]
  by_cases h : bit = i
  · subst h
    cases enable with
    | true => simp [hi]
    | false => simp [hi]
  · have hne := Ne.symm h
    cases enable with
    | true => simp [h, hne]
    | false => simp [hne, hi]

variable {m : Machine}

theorem read_bit {reg : Addr} {bit : Fin 32} {enable : Bool} :
    Machine.read { m with regs := Function.update m.regs reg (setBit (m.regs reg) bit enable) } =
      setLine m.read (some (.bit reg bit), enable) := by
  funext place
  cases place with
  | pmuRouting core =>
      have hne : Place.pmuRouting core ≠ .bit reg bit := nofun
      rw [setLine, Function.update_of_ne hne]
      rfl
  | bit reg' bit' =>
      rw [setLine, Machine.read]
      by_cases hreg : reg' = reg
      · rw [hreg]
        dsimp only
        rw [Function.update_self, getLsbD_setBit _ bit'.isLt]
        by_cases hbit : bit' = bit
        · rw [hbit, Function.update_self, if_pos rfl]
        · rw [Function.update_of_ne fun h => hbit (Place.bit.inj h).2,
            if_neg fun h => hbit (Fin.ext h)]
          rfl
      · rw [Function.update_of_ne fun h => hreg (Place.bit.inj h).1]
        dsimp only
        rw [Function.update_of_ne hreg]
        rfl

theorem read_pmuRouting {core : Fin 4} {enable : Bool} :
    Machine.read { m with pmuRouting := setBit m.pmuRouting core enable } =
      setLine m.read (some (.pmuRouting core), enable) := by
  funext place
  cases place with
  | bit reg bit =>
      have hne : Place.bit reg bit ≠ .pmuRouting core := nofun
      rw [setLine, Function.update_of_ne hne]
      rfl
  | pmuRouting core' =>
      rw [setLine, Machine.read]
      dsimp only
      rw [getLsbD_setBit _ (by omega)]
      by_cases hcore : core' = core
      · rw [hcore, Function.update_self, if_pos rfl]
      · rw [Function.update_of_ne fun h => hcore (Place.pmuRouting.inj h),
          if_neg fun h => hcore (Fin.ext h)]
        rfl

end Line

/-- What the calls in progress rely on. -/
structure Coherent (regs : Addr → Word) (calls : Nat → Option Call) : Prop where
  alone : ∀ id id' call call', calls id = some call → calls id' = some call' →
    call.core = call'.core → call.phase.masked = true → call'.phase.masked = true → id = id'
  placed : ∀ id call, calls id = some call → call.phase.masked = true →
    ∃ reg bit, call.place = some (.bit reg bit)
  value : ∀ id call value reg bit, calls id = some call → call.phase = .writing value →
    call.place = some (.bit reg bit) → value = regs reg

/-- One call goes on, or one call begins or ends. -/
theorem Coherent.update {regs regs' : Addr → Word} {calls : Nat → Option Call} {id : Nat}
    {core : Fin 4} {next : Option Call} (h : Coherent regs calls)
    (hunmasked : ∀ k call, calls k = some call → call.core = core → call.phase.masked = true →
      k = id)
    (hcore : ∀ call, next = some call → call.core = core)
    (hplaced : ∀ call, next = some call → call.phase.masked = true →
      ∃ reg bit, call.place = some (.bit reg bit))
    (hvalue : ∀ call value reg bit, next = some call → call.phase = .writing value →
      call.place = some (.bit reg bit) → value = regs' reg)
    (hregs : ∀ k call value reg bit, k ≠ id → calls k = some call → call.phase = .writing value →
      call.place = some (.bit reg bit) → regs' reg = regs reg) :
    Coherent regs' (Function.update calls id next) := by
  have hcases (k : Nat) (call : Call) (hk : Function.update calls id next k = some call) :
      (k = id ∧ next = some call) ∨ (k ≠ id ∧ calls k = some call) := by
    by_cases hid : k = id
    · rw [hid, Function.update_self] at hk
      exact .inl ⟨hid, hk⟩
    · rw [Function.update_of_ne hid] at hk
      exact .inr ⟨hid, hk⟩
  refine ⟨fun k k' call call' hk hk' hsame hmasked hmasked' => ?_, fun k call hk hmasked => ?_,
    fun k call value reg bit hk hphase hplace => ?_⟩
  · rcases hcases k call hk with ⟨hid, hnext⟩ | ⟨hid, hcall⟩
    · rcases hcases k' call' hk' with ⟨hid', -⟩ | ⟨hid', hcall'⟩
      · rw [hid, hid']
      · exact absurd (hunmasked k' call' hcall' (hsame ▸ hcore call hnext) hmasked') hid'
    · rcases hcases k' call' hk' with ⟨hid', hnext'⟩ | ⟨hid', hcall'⟩
      · exact absurd (hunmasked k call hcall (hsame ▸ hcore call' hnext') hmasked) hid
      · exact h.alone k k' call call' hcall hcall' hsame hmasked hmasked'
  · rcases hcases k call hk with ⟨-, hnext⟩ | ⟨-, hcall⟩
    · exact hplaced call hnext hmasked
    · exact h.placed k call hcall hmasked
  · rcases hcases k call hk with ⟨-, hnext⟩ | ⟨hid, hcall⟩
    · exact hvalue call value reg bit hnext hphase hplace
    · rw [hregs k call value reg bit hid hcall hphase hplace]
      exact h.value k call value reg bit hcall hphase hplace

/-- The lock is exclusive, no write in flight is stale, and the registers show the effects. -/
structure Inv (lines : Place → Bool) (m : Machine) : Prop where
  locked : Exclusive m.locks m.held
  coherent : Coherent m.regs m.calls
  recorded : Recorded m.stage m.next m.history
  lines : m.read = (effects m.history).foldl setLine lines

section Step

variable {lines : Place → Bool} {m m' : Machine} {id : Nat} {call : Call} {next : Option Call}
  {phase : Phase} {locks : Fin ADDR_LOCK_COUNT → Bool}

theorem Machine.held_eq (h : m'.calls = Function.update m.calls id next) :
    m'.held = Function.update m.held id (next.bind Call.lock?).toList := by
  funext k
  by_cases hk : k = id
  · rw [hk, held, h, Function.update_self, Function.update_self]
  · rw [held, h, Function.update_of_ne hk, Function.update_of_ne hk, held]

theorem Machine.stage_eq (h : m'.calls = Function.update m.calls id next) :
    m'.stage = Function.update m.stage id (next.map Call.stage) := by
  funext k
  by_cases hk : k = id
  · rw [hk, stage, h, Function.update_self, Function.update_self]
  · rw [stage, h, Function.update_of_ne hk, Function.update_of_ne hk, stage]

theorem Machine.held_some (hcall : m.calls id = some call) : m.held id = call.lock?.toList := by
  rw [held, hcall, Option.bind_some]

theorem Machine.stage_some (hcall : m.calls id = some call) : m.stage id = some call.stage := by
  rw [stage, hcall, Option.map_some]

/-- A step that neither the registers nor the history show. -/
theorem Inv.move (h : Inv lines m) (hcall : m.calls id = some call)
    (hallowed : m.Unmasked call.core id)
    (hstage : { call with phase := phase }.stage = call.stage)
    (hlocked : Exclusive locks
      (Function.update m.held id { call with phase := phase }.lock?.toList))
    (hplaced : phase.masked = true → ∃ reg bit, call.place = some (.bit reg bit))
    (hvalue : ∀ value reg bit, phase = .writing value → call.place = some (.bit reg bit) →
      value = m.regs reg) :
    Inv lines ({ m with locks := locks }.withPhase id call phase) := by
  refine ⟨?_, ?_, ?_, h.lines⟩
  · rw [Machine.held_eq (m := m) rfl]
    exact hlocked
  · refine h.coherent.update hallowed ?_ ?_ ?_ fun _ _ _ _ _ _ _ _ _ => rfl
    · rintro _ ⟨⟩
      rfl
    · rintro _ ⟨⟩
      exact hplaced
    · rintro _ value reg bit ⟨⟩
      exact hvalue value reg bit
  · rw [Machine.stage_eq (m := m) rfl]
    refine h.recorded.congr fun k => ?_
    rw [Option.map_some, hstage, ← Machine.stage_some hcall, Function.update_eq_self]

/-- The step with the effect of a call. -/
theorem Inv.effect {regs : Addr → Word} {pmuRouting : Word} (h : Inv lines m)
    (hcall : m.calls id = some call) (hallowed : m.Unmasked call.core id)
    (hstarted : call.stage = .started)
    (hdone : { call with phase := phase }.stage = .done (call.place, call.enable))
    (hlock : { call with phase := phase }.lock? = call.lock?)
    (hplaced : phase.masked = true → ∃ reg bit, call.place = some (.bit reg bit))
    (hphase : ∀ value, phase ≠ .writing value)
    (hregs : ∀ k other value reg bit, k ≠ id → m.calls k = some other →
      other.phase = .writing value → other.place = some (.bit reg bit) → regs reg = m.regs reg)
    (hread : Machine.read { m with regs := regs, pmuRouting := pmuRouting } =
      setLine m.read (call.place, call.enable)) :
    Inv lines (({ m with regs := regs, pmuRouting := pmuRouting }.withPhase id call
      phase).withEffect id call) := by
  refine ⟨?_, ?_, ?_, ?_⟩
  · rw [Machine.held_eq (m := m) rfl, Option.bind_some, hlock, ← Machine.held_some hcall,
      Function.update_eq_self]
    exact h.locked
  · refine h.coherent.update hallowed ?_ ?_ ?_ hregs
    · rintro _ ⟨⟩
      rfl
    · rintro _ ⟨⟩
      exact hplaced
    · rintro _ value reg bit ⟨⟩ hwriting
      exact absurd hwriting (hphase value)
  · rw [Machine.stage_eq (m := m) rfl, Option.map_some, hdone]
    exact h.recorded.effect (hstarted ▸ Machine.stage_some hcall)
  · change Machine.read { m with regs := regs, pmuRouting := pmuRouting } =
      (effects (m.history ++ [_])).foldl setLine lines
    rw [hread, effects_concat, List.foldl_append, ← h.lines]
    rfl

/-- What one access of a call does. -/
theorem Inv.stepCall (h : Inv lines m) (hcall : m.calls id = some call)
    (hallowed : m.Unmasked call.core id) (hst : m.stepCall id call = some m') : Inv lines m' := by
  have hheld := Machine.held_some hcall
  have hsame : Exclusive m.locks (Function.update m.held id call.lock?.toList) := by
    rw [← hheld, Function.update_eq_self]
    exact h.locked
  have hplaced := h.coherent.placed id call hcall
  have hvalue := h.coherent.value id call
  obtain ⟨core, place, enable, phase⟩ := call
  cases phase with
  | entered =>
      cases place with
      | none =>
          cases hst
          exact h.effect hcall hallowed rfl rfl rfl nofun nofun (fun _ _ _ _ _ _ _ _ _ => rfl) rfl
      | some place =>
          cases place with
          | bit reg bit =>
              cases hst
              exact h.move hcall hallowed rfl hsame (fun _ => ⟨reg, bit, rfl⟩) nofun
          | pmuRouting core' =>
              cases hst
              exact h.effect hcall hallowed rfl rfl rfl nofun nofun (fun _ _ _ _ _ _ _ _ _ => rfl)
                read_pmuRouting
  | returning =>
      cases hst
      refine ⟨?_, ?_, ?_, ?_⟩
      · rw [Machine.held_eq (m := m) rfl]
        exact hsame
      · exact h.coherent.update hallowed nofun nofun nofun fun _ _ _ _ _ _ _ _ _ => rfl
      · rw [Machine.stage_eq (m := m) rfl]
        exact h.recorded.finish (Machine.stage_some hcall)
      · change m.read = _
        rw [h.lines, effects_concat]
        exact congrArg _ (List.append_nil _).symm
  | locking =>
      obtain ⟨reg, bit, rfl⟩ := hplaced rfl
      rw [Machine.stepCall] at hst
      dsimp only at hst
      split at hst
      · cases hst
        exact h
      · rename_i hfree
        cases hst
        refine h.move hcall hallowed rfl ?_ (fun _ => ⟨reg, bit, rfl⟩) nofun
        have hacquire := h.locked.acquire (c := id) (Bool.eq_false_iff.mpr hfree)
        rwa [hheld] at hacquire
  | reading =>
      obtain ⟨reg, bit, rfl⟩ := hplaced rfl
      cases hst
      refine h.move hcall hallowed rfl hsame (fun _ => ⟨reg, bit, rfl⟩) ?_
      rintro _ _ _ ⟨⟩ ⟨⟩
      rfl
  | writing value =>
      obtain ⟨reg, bit, rfl⟩ := hplaced rfl
      have heq := hvalue value reg bit hcall rfl rfl
      cases hst
      refine h.effect hcall hallowed rfl rfl rfl (fun _ => ⟨reg, bit, rfl⟩) nofun ?_ ?_
      · intro k other value' reg' bit' hk hother hphase hplace
        refine Function.update_of_ne (fun hreg => hk ?_) _ _
        -- both calls would have the lock of the register
        refine h.locked.alone k id (addrLock reg) ?_ ?_
        · rw [Machine.held_some hother, Call.lock?, hphase, hplace, hreg]
          exact List.mem_singleton_self _
        · rw [hheld]
          exact List.mem_singleton_self _
      · rw [heq]
        exact read_bit
  | unlocking =>
      obtain ⟨reg, bit, rfl⟩ := hplaced rfl
      cases hst
      refine h.move hcall hallowed rfl ?_ (fun _ => ⟨reg, bit, rfl⟩) nofun
      apply h.locked.release
      rw [hheld]
      rfl
  | restoring =>
      cases hst
      exact h.move hcall hallowed rfl hsame nofun nofun

theorem Inv.step {regBase : Addr} {e : Event} (h : Inv lines m) (hallowed : m.Allowed e)
    (hst : m.step regBase e = some m') : Inv lines m' := by
  cases e with
  | step id =>
      rw [Machine.step] at hst
      split at hst
      · cases hst
      · rename_i call hcall
        exact h.stepCall hcall (hallowed call hcall) hst
  | call core hwirq enable =>
      cases hst
      obtain ⟨hfresh, -⟩ := h.recorded.fresh m.next (Nat.le_refl _)
      have hnone : m.calls m.next = none := Option.map_eq_none_iff.mp hfresh
      refine ⟨?_, ?_, ?_, ?_⟩
      · rw [Machine.held_eq (m := m) rfl]
        have hheld : m.held m.next = [] := by
          rw [Machine.held, hnone]
          rfl
        change Exclusive m.locks (Function.update m.held m.next [])
        rw [← hheld, Function.update_eq_self]
        exact h.locked
      · refine h.coherent.update hallowed ?_ ?_ ?_ fun _ _ _ _ _ _ _ _ _ => rfl
        · rintro _ ⟨⟩
          rfl
        · rintro _ ⟨⟩ ⟨⟩
        · rintro _ _ _ _ ⟨⟩ ⟨⟩
      · rw [Machine.stage_eq (m := m) rfl]
        exact h.recorded.start
      · change m.read = _
        rw [h.lines, effects_concat]
        exact congrArg _ (List.append_nil _).symm

theorem inv_new (regs : Addr → Word) (pmuRouting : Word) :
    Inv (Machine.new regs pmuRouting).read (Machine.new regs pmuRouting) :=
  ⟨exclusive_free, ⟨nofun, nofun, nofun⟩, recorded_nil, rfl⟩

/-- No call is ever stuck for good at one of its own steps. -/
theorem Coherent.stepCall_isSome (h : Coherent m.regs m.calls) (hcall : m.calls id = some call) :
    (m.stepCall id call).isSome := by
  have hplaced := h.placed id call hcall
  obtain ⟨core, place, enable, phase⟩ := call
  cases phase with
  | entered =>
      rcases place with _ | ⟨reg, bit⟩ | core'
      · rfl
      · rfl
      · rfl
  | locking =>
      obtain ⟨reg, bit, rfl⟩ := hplaced rfl
      rw [Machine.stepCall]
      dsimp only
      split
      · rfl
      · rfl
  | reading | writing | unlocking =>
      obtain ⟨reg, bit, rfl⟩ := hplaced rfl
      rfl
  | restoring | returning => rfl

/-- Who has the lock that a call waits for runs on another core, and is not kept from going on. -/
theorem Inv.exists_holder (h : Inv lines m) (hcall : m.calls id = some call)
    (hphase : call.phase = .locking) {reg : Addr} (hl : m.locks (addrLock reg) = true) :
    ∃ k other, m.calls k = some other ∧ other.lock? = some (addrLock reg) ∧
      other.core ≠ call.core ∧ m.Allowed (.step k) := by
  obtain ⟨k, hk⟩ := (h.locked.taken (addrLock reg)).mp hl
  rw [Machine.held, Option.mem_toList, Option.bind_eq_some_iff] at hk
  obtain ⟨other, hother, hlock⟩ := hk
  have hmasked : other.phase.masked = true := by
    obtain ⟨core, place, enable, phase⟩ := other
    cases phase with
    | entered | returning => cases hlock
    | locking | reading | writing | unlocking | restoring => rfl
  refine ⟨k, other, hother, hlock, fun hsame => ?_, fun other' hother' j call' hj hcore hm => ?_⟩
  · have heq := h.coherent.alone k id other call hother hcall hsame hmasked (by rw [hphase]; rfl)
    rw [heq, hcall] at hother
    cases hother
    rw [Call.lock?, hphase] at hlock
    cases hlock
  · rw [hother] at hother'
    cases hother'
    exact h.coherent.alone j k call' other hj hother hcore hm hmasked

end Step

/-- A state that calls of `enable` and `disable` lead to, on any cores and in any order of their
accesses. -/
def Reached (regBase : Addr) (regs : Addr → Word) (pmuRouting : Word) : Machine → Prop :=
  Reachable (· = Machine.new regs pmuRouting)
    (Step (fun m => m.step regBase) fun m => m.Allowed)

/-- Each call changes its own line and no other, at one moment between its start and its end, and
so no change is lost, of lines that share a register or of registers that share a lock. A call
that waits for a lock waits for a call on another core, which goes on. -/
theorem calls_linear {regBase : Addr} {regs : Addr → Word} {pmuRouting : Word} {m : Machine}
    (h : Reached regBase regs pmuRouting m) :
    m.read = (effects m.history).foldl setLine (Machine.new regs pmuRouting).read ∧
      Recorded m.stage m.next m.history ∧
      (∀ id call, m.calls id = some call → (m.stepCall id call).isSome) ∧
      ∀ id call reg bit, m.calls id = some call → call.phase = .locking →
        call.place = some (.bit reg bit) → m.locks (addrLock reg) = true →
          ∃ k other, m.calls k = some other ∧ other.lock? = some (addrLock reg) ∧
            other.core ≠ call.core ∧ m.Allowed (.step k) := by
  have hinv : Inv (Machine.new regs pmuRouting).read m := by
    refine Reachable.invariant ?_ ?_ h
    · rintro _ rfl
      exact inv_new regs pmuRouting
    · rintro s t - hs ⟨e, hallowed, hst⟩
      exact hs.step hallowed hst
  exact ⟨hinv.lines, hinv.recorded, fun id call => hinv.coherent.stepCall_isSome,
    fun id call reg bit hcall hphase _ => hinv.exists_holder hcall hphase⟩

section Two

/-- The call with the number of a core is on this core. -/
def OnCores (m : Machine) : Prop := ∀ id call, m.calls id = some call → call.core.val = id

/-- Each core makes one call, in the order of their numbers. -/
def InTurn (m : Machine) : Event → Prop
  | .call core _ _ => core.val = m.next
  | .step _ => True

instance (m : Machine) (e : Event) : Decidable (InTurn m e) := by
  cases e <;> unfold InTurn <;> infer_instance

variable {regBase : Addr} {regs : Addr → Word} {pmuRouting : Word} {m t : Machine} {id : Nat}
  {call : Call}

theorem OnCores.update (h : OnCores m) (hcalls : t.calls = Function.update m.calls id (some call))
    (hcore : call.core.val = id) : OnCores t := by
  intro k other hk
  rw [hcalls] at hk
  by_cases hid : k = id
  · rw [hid, Function.update_self] at hk
    cases hk
    exact hcore.trans hid.symm
  · rw [Function.update_of_ne hid] at hk
    exact h k other hk

theorem OnCores.stepCall (h : OnCores m) (hcall : m.calls id = some call)
    (hst : m.stepCall id call = some t) : OnCores t := by
  have hcore := h id call hcall
  simp only [Machine.stepCall] at hst
  split at hst
  case h_4 =>
    split at hst
    · cases hst
      exact h
    · cases hst
      exact h.update rfl hcore
  case h_9 =>
    cases hst
    intro k other hk
    dsimp only at hk
    by_cases hid : k = id
    · rw [hid, Function.update_self] at hk
      cases hk
    · rw [Function.update_of_ne hid] at hk
      exact h k other hk
  case h_10 => cases hst
  all_goals
    cases hst
    exact h.update rfl hcore

theorem reached_inTurn (h : Reachable (· = Machine.new regs pmuRouting)
    (Step (fun m => m.step regBase) InTurn) m) : Reached regBase regs pmuRouting m ∧ OnCores m := by
  obtain ⟨_, rfl, hrun⟩ := h
  induction hrun with
  | refl => exact ⟨.start rfl, nofun⟩
  | @tail s t _ hst ih =>
      obtain ⟨hreached, hs⟩ := ih
      obtain ⟨e, hturn, hst⟩ := hst
      have hfree {core : Fin 4} {id : Nat} (hcore : core.val = id) : s.Unmasked core id :=
        fun k other hk hsame _ => by rw [← hs k other hk, hsame, hcore]
      cases e with
      | call core hwirq enable =>
          refine ⟨hreached.next ⟨.call core hwirq enable, hfree hturn, hst⟩, ?_⟩
          cases hst
          exact hs.update rfl hturn
      | step id =>
          refine ⟨hreached.next ⟨.step id, fun call hcall => hfree (hs id call hcall), hst⟩, ?_⟩
          simp only [Machine.step] at hst
          split at hst
          · cases hst
          · rename_i call hcall
            exact hs.stepCall hcall hst

/-- Core 0 turns the line of the AXI bus on while core 1 waits for the lock to turn it off. -/
theorem calls_linear_axi :
    ∃ m : Machine, Recorded m.stage m.next m.history ∧
      (m.stage 0).isSome ∧ (m.stage 1).isSome ∧
      effects m.history = [(line 0x40000000 0 10, true), (line 0x40000000 1 10, false)] ∧
      m.read = (effects m.history).foldl setLine (Machine.new (fun _ => 0) 0).read := by
  have hrun : (run (fun m => m.step 0x40000000) InTurn (Machine.new (fun _ => 0) 0)
      [.call 0 10 true, .call 1 10 false, .step 0, .step 1, .step 0, .step 1, .step 0, .step 0,
        .step 0, .step 1, .step 1, .step 1]).map (fun m =>
          ((m.stage 0).isSome, (m.stage 1).isSome, effects m.history)) =
      some (true, true, [(line 0x40000000 0 10, true), (line 0x40000000 1 10, false)]) := by
    decide +kernel
  obtain ⟨m, hm, heq⟩ := Option.map_eq_some_iff.mp hrun
  simp only [Prod.mk.injEq] at heq
  obtain ⟨hlines, hrecorded, -⟩ :=
    calls_linear (reached_inTurn ⟨_, rfl, reflTransGen_of_run _ hm⟩).1
  exact ⟨m, hrecorded, heq.1, heq.2.1, heq.2.2, hlines⟩

end Two

end Kruspix.Drivers.LocalInterrupts
