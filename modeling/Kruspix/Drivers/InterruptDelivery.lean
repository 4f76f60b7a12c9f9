import Kruspix.Drivers.InterruptLines
import Kruspix.Drivers.PendingInterrupt
import Mathlib.Data.List.Perm.Subperm

/-!
# Delivering the pending interrupts

The root controller has a loop over the pending lines of a core, and the control logic behind one
of them has a loop of its own over the lines of the devices. A loop ends when it finds no line.
-/

namespace Kruspix.Drivers.InterruptDelivery

open InterruptController Kernel.Devicetree Kernel.Irq Lib.Transition

/-- Line 8 of a core comes from the control logic. -/
inductive Source
  | core (hwirq : Nat) (hlt : hwirq < 12) (hne : hwirq ≠ 8)
  | gpu (l : Line)

/-- What the registers of the two controllers show of the devices. Both show a line as long as
the device raises it. -/
structure Hardware (σ : Type) where
  source : σ → Word
  pending : σ → PendingRegs
  presents : ∀ s, (pending s).Presents
  cascade : ∀ s, (source s).getLsbD 8 = true ↔
    ∃ l : Line, (pending s).raised l.bank l.irq = true
  high : ∀ s i, 12 ≤ i → (source s).getLsbD i = false

/-- The handler of a device changes the devices, and may ask for the scheduler. -/
inductive InterruptHandler (σ : Type)
  | controller (virqBase : Option Nat)
  | device (handleIrq : σ → σ × Bool)

/-- The dispatch loops: that of the core, and that of a controller. -/
inductive Loop
  | root
  | armctrl (virqBase : Option Nat)
  deriving DecidableEq

/-- A core in `global_irq_dispatch`, with the loops that it is in, the innermost one first, and
the handlers of devices that it has called. `yielded` says whether it gave up the task. -/
structure Machine (σ : Type) where
  dev : σ
  scheduleFlag : Bool
  loops : List Loop
  calls : List (Nat × Bool)
  yielded : Option Bool

variable {σ C : Type}

namespace Machine

/-- The core has just taken an interrupt. -/
def start (dev : σ) (scheduleFlag : Bool) : Machine σ := ⟨dev, scheduleFlag, [.root], [], none⟩

variable (irq : State C (InterruptHandler σ)) (m : Machine σ)

/-- Hand a virq to its handler: a controller starts its loop, a device runs. -/
def dispatchIrq (virq : Nat) : Machine σ :=
  match irq.dispatchIrq virq with
  | none => m
  | some (.controller virqBase) => { m with loops := .armctrl virqBase :: m.loops }
  | some (.device handleIrq) =>
      let (dev, schedule) := handleIrq m.dev
      { m with
        dev := dev
        scheduleFlag := m.scheduleFlag || schedule
        calls := m.calls ++ [(virq, schedule)] }

/-- One turn of the innermost loop, or what comes after the loops. `none` is a panic, or the end.
To acknowledge a line does nothing. -/
def step (hw : Hardware σ) : Option (Machine σ) :=
  match m.loops with
  | [] =>
      match m.yielded with
      | some _ => none
      | none => some { m with scheduleFlag := false, yielded := some m.scheduleFlag }
  | .root :: rest =>
      match irq.rootController with
      | none => some { m with loops := rest }
      | some root =>
          if hw.source m.dev = 0#32 then some { m with loops := rest }
          else some (m.dispatchIrq irq (root.virqBase + (hw.source m.dev).ctz.toNat))
  | .armctrl virqBase :: rest =>
      match pendingHwirq (hw.pending m.dev) with
      | .error _ => none
      | .ok none => some { m with loops := rest }
      | .ok (some hwirq) =>
          match virqBase with
          | none => some { m with loops := rest }
          | some virqBase => some (m.dispatchIrq irq (virqBase + hwirq))

end Machine

/-- The line of a source is up. -/
def Hardware.raised (hw : Hardware σ) (s : σ) : Source → Bool
  | .core hwirq _ _ => (hw.source s).getLsbD hwirq
  | .gpu l => (hw.pending s).raised l.bank l.irq

/-- GPU interrupts 62 and 63. -/
def sd : Source := .gpu ⟨2, 30, by decide⟩

/-- The last line of the second bank. -/
def last : Source := .gpu ⟨2, 31, by decide⟩

/-- The virtual interrupt of a line, from the bases of the two controllers. -/
def virq (rootBase gpuBase : Nat) : Source → Nat
  | .core hwirq _ _ => rootBase + hwirq
  | .gpu l => gpuBase + l.hwirq

/-- The two controllers are registered. A line has the handler of a device, or none. The control
logic has no line 102. -/
structure Routing (irq : State C (InterruptHandler σ)) (rootBase gpuBase : Nat) : Prop where
  root : ∃ d, irq.rootController = some d ∧ d.virqBase = rootBase
  cascade : irq.dispatchIrq (rootBase + 8) = some (.controller (some gpuBase))
  apart : rootBase + 12 ≤ gpuBase ∨ gpuBase + HWIRQ_COUNT ≤ rootBase
  device : ∀ x virqBase, irq.dispatchIrq (virq rootBase gpuBase x) ≠ some (.controller virqBase)
  stray : irq.dispatchIrq (gpuBase + 102) = none

/-- A handler makes its device lower its line, and no other line changes. -/
def Serving (hw : Hardware σ) (irq : State C (InterruptHandler σ)) (rootBase gpuBase : Nat) :
    Prop :=
  ∀ x handleIrq s, irq.dispatchIrq (virq rootBase gpuBase x) = some (.device handleIrq) →
    hw.raised s x = true → hw.raised (handleIrq s).1 x = false ∧
      ∀ y, y ≠ x → hw.raised (handleIrq s).1 y = hw.raised s y

/-- Each raised line has a handler, and interrupt 62 does not come without interrupt 63. -/
def Deliverable (hw : Hardware σ) (irq : State C (InterruptHandler σ)) (rootBase gpuBase : Nat)
    (dev : σ) : Prop :=
  (∀ x, hw.raised dev x = true → (irq.dispatchIrq (virq rootBase gpuBase x)).isSome) ∧
    (hw.raised dev sd = true → hw.raised dev last = true)

/-- The core is done: the handler of each line that was raised has been called once, and no
other, no line is raised any more, and the task is given up if that was asked for. -/
structure Delivered (hw : Hardware σ) (rootBase gpuBase : Nat) (dev : σ) (scheduleFlag : Bool)
    (t : Machine σ) : Prop where
  lowered : ∀ x, hw.raised t.dev x = false
  once : (t.calls.map Prod.fst).Nodup
  called : ∀ v, v ∈ t.calls.map Prod.fst ↔
    ∃ x, hw.raised dev x = true ∧ v = virq rootBase gpuBase x
  yielded : t.yielded = some (scheduleFlag || t.calls.any Prod.snd)

section Pending

variable {regs : PendingRegs}

/-- The line that is found is raised, or is line 102 for interrupt 62 alone. -/
theorem pendingHwirq_cases (h : regs.Presents) :
    (pendingHwirq regs = .ok none ∧ ∀ l : Line, regs.raised l.bank l.irq = false) ∨
      (pendingHwirq regs = .ok (some 102) ∧ regs.Only 2 30) ∨
      ∃ l : Line, pendingHwirq regs = .ok (some l.hwirq) ∧ regs.raised l.bank l.irq = true := by
  by_cases hzero : regs.basic = 0#32
  · refine .inl ⟨if_pos hzero, fun l => ?_⟩
    by_contra hraised
    obtain ⟨i, hi, -⟩ := h.shown (Bool.eq_true_of_not_eq_false hraised)
    rw [hzero, BitVec.getLsbD_zero] at hi
    cases hi
  by_cases htwenty : regs.basic.ctz.toNat = 20
  · exact .inr (.inl ⟨PendingRegs.pendingHwirq_of_twenty hzero htwenty,
      h.ctz_eq_twenty_iff.mp ⟨hzero, htwenty⟩⟩)
  rcases h.dispatches 0 none hzero htwenty with ⟨hnone, hall⟩ | ⟨hwirq, bank, irq, hsome, -, hx, hr⟩
  · exact .inl ⟨hnone, fun l => hall l.bank l.irq⟩
  · obtain ⟨l, rest, hspecifier, rfl⟩ := exists_line hx
    obtain ⟨rfl, hrest⟩ := List.cons.inj hspecifier
    obtain ⟨rfl, -⟩ := List.cons.inj hrest
    exact .inr (.inr ⟨l, hsome, hr⟩)

/-- The lines 70 and 71 are found through the summary bit of their bank only. -/
theorem pendingHwirq_high {hwirq : Nat} (hp : pendingHwirq regs = .ok (some hwirq))
    (hhigh : hwirq = 70 ∨ hwirq = 71) : regs.basic.getLsbD 9 = true ∧ regs.pending2 ≠ 0#32 ∧
      regs.pending2.ctz.toNat + 40 = hwirq := by
  rw [pendingHwirq] at hp
  split at hp
  · cases hp
  rename_i hne
  have hbit := BitVec.getLsbD_true_ctz_of_ne_zero hne
  dsimp only at hp
  generalize regs.basic.ctz.toNat = next at hp hbit
  have hsome {n : Nat} (hn : (Except.ok (some n) : Except Fault (Option Nat)) = .ok (some hwirq)) :
      n = hwirq := Option.some.inj (Except.ok.inj hn)
  rw [HWIRQ_BASIC_RANGE_END] at hp
  split at hp
  · have heq := hsome hp
    omega
  split at hp
  · split at hp
    · cases hp
    · rename_i hpending
      have heq := hsome hp
      have hlt := ctz_lt hpending
      rw [HWIRQ_1_RANGE_START] at heq
      omega
  split at hp
  · rename_i hnine
    split at hp
    · cases hp
    · rename_i hpending
      exact ⟨hnine ▸ hbit, hpending, hsome hp⟩
  -- the bits from 10 on give lines below 66, and line 102
  exfalso
  simp only [HWIRQ_1_RANGE_START, HWIRQ_2_RANGE_START] at hp
  split_ifs at hp
  all_goals
    have heq := hsome hp
    omega

theorem pendingHwirq_last (hp : pendingHwirq regs = .ok (some 71)) :
    regs.raised 2 30 = false := by
  obtain ⟨-, -, hctz⟩ := pendingHwirq_high hp (.inr rfl)
  exact BitVec.getLsbD_false_of_lt_ctz (by omega)

theorem pendingHwirq_sd (h : regs.Presents) (hp : pendingHwirq regs = .ok (some 70)) :
    regs.raised 2 31 = true := by
  obtain ⟨hbit, hne, hctz⟩ := pendingHwirq_high hp (.inl rfl)
  obtain ⟨irq, hirq, hmem, hraised⟩ := (h.summary 1 (by omega)).mp hbit
  have hle := ctz_le (x := regs.pending2) hraised
  have hcases : irq = 30 ∨ irq = 31 := by omega
  rcases hcases with rfl | rfl
  · exact absurd (by decide) hmem
  · exact hraised

end Pending

section Step

variable {irq : State C (InterruptHandler σ)} {hw : Hardware σ} {rootBase gpuBase : Nat}
  {m t : Machine σ} {x y : Source}

theorem Line.hwirq_lt (l : Line) : l.hwirq < HWIRQ_COUNT := by
  rw [HWIRQ_COUNT]
  rcases l.bank_cases with ⟨-, hlt, hhw⟩ | ⟨-, hlt, hhw⟩ | ⟨-, hlt, hhw⟩ <;> omega

theorem Line.ext {l k : Line} (hbank : l.bank = k.bank) (hirq : l.irq = k.irq) : l = k := by
  obtain ⟨bank, irq, hlt⟩ := l
  obtain ⟨bank', irq', hlt'⟩ := k
  cases hbank
  cases hirq
  rfl

/-- The lines have virtual interrupts of their own. -/
theorem Routing.virq_inj (hr : Routing irq rootBase gpuBase)
    (h : virq rootBase gpuBase x = virq rootBase gpuBase y) : x = y := by
  have hapart := hr.apart
  rw [HWIRQ_COUNT] at hapart
  cases x with
  | core i hi hi' =>
      cases y with
      | core j hj hj' =>
          obtain rfl : i = j := Nat.add_left_cancel h
          rfl
      | gpu l =>
          have hlt := Line.hwirq_lt l
          rw [HWIRQ_COUNT] at hlt
          simp only [virq] at h
          omega
  | gpu l =>
      cases y with
      | core j hj hj' =>
          have hlt := Line.hwirq_lt l
          rw [HWIRQ_COUNT] at hlt
          simp only [virq] at h
          omega
      | gpu k =>
          obtain ⟨hbank, hirq⟩ := Line.eq_of_hwirq_eq (Nat.add_left_cancel h)
          rw [Line.ext hbank hirq]

/-- What one turn does to a core whose innermost loop is that of the root controller, or that of
the control logic inside it. -/
inductive Turn (irq : State C (InterruptHandler σ)) (hw : Hardware σ) (rootBase gpuBase : Nat)
    (m t : Machine σ) : Prop
  | done (hloops : m.loops = [.root]) (hquiet : ∀ x, hw.raised m.dev x = false)
      (ht : t = { m with loops := [] })
  | entered (hloops : m.loops = [.root]) (l : Line) (hraised : hw.raised m.dev (.gpu l) = true)
      (ht : t = { m with loops := [.armctrl (some gpuBase), .root] })
  | left (hloops : m.loops = [.armctrl (some gpuBase), .root])
      (hquiet : ∀ l, hw.raised m.dev (.gpu l) = false) (ht : t = { m with loops := [.root] })
  | stray (hloops : m.loops = [.armctrl (some gpuBase), .root])
      (honly : (hw.pending m.dev).Only 2 30) (ht : t = m)
  | served (x : Source) (hraised : hw.raised m.dev x = true)
      (hlast : x = last → hw.raised m.dev sd = false)
      (hsd : x = sd → hw.raised m.dev last = true)
      (ht : t = m.dispatchIrq irq (virq rootBase gpuBase x))

theorem Routing.root_turn (hr : Routing irq rootBase gpuBase) (hloops : m.loops = [.root]) :
    ∃ t, m.step irq hw = some t ∧ Turn irq hw rootBase gpuBase m t := by
  obtain ⟨root, hroot, hbase⟩ := hr.root
  by_cases hzero : hw.source m.dev = 0#32
  · refine ⟨_, ?_, .done hloops (fun x => ?_) rfl⟩
    · rw [Machine.step, hloops]
      dsimp only
      rw [hroot]
      exact if_pos hzero
    · cases x with
      | core i hi hne =>
          rw [Hardware.raised, hzero]
          exact BitVec.getLsbD_zero
      | gpu l =>
          by_contra hraised
          have hbit := (hw.cascade m.dev).mpr ⟨l, Bool.eq_true_of_not_eq_false hraised⟩
          rw [hzero, BitVec.getLsbD_zero] at hbit
          cases hbit
  · have hstep : m.step irq hw =
        some (m.dispatchIrq irq (rootBase + (hw.source m.dev).ctz.toNat)) := by
      rw [Machine.step, hloops]
      dsimp only
      rw [hroot, ← hbase]
      exact if_neg hzero
    have hbit := BitVec.getLsbD_true_ctz_of_ne_zero hzero
    have hlt : (hw.source m.dev).ctz.toNat < 12 := by
      by_contra hge
      rw [hw.high m.dev _ (Nat.le_of_not_lt hge)] at hbit
      cases hbit
    refine ⟨_, hstep, ?_⟩
    by_cases height : (hw.source m.dev).ctz.toNat = 8
    · rw [height] at hbit ⊢
      obtain ⟨l, hl⟩ := (hw.cascade m.dev).mp hbit
      refine .entered hloops l hl ?_
      rw [Machine.dispatchIrq, hr.cascade, hloops]
    · exact .served (.core _ hlt height) hbit nofun nofun rfl

theorem Routing.armctrl_turn (hr : Routing irq rootBase gpuBase)
    (hloops : m.loops = [.armctrl (some gpuBase), .root]) :
    ∃ t, m.step irq hw = some t ∧ Turn irq hw rootBase gpuBase m t := by
  have hpresents := hw.presents m.dev
  rcases pendingHwirq_cases hpresents with ⟨hnone, hquiet⟩ | ⟨hstray, honly⟩ | ⟨l, hline, hraised⟩
  · refine ⟨{ m with loops := [.root] }, ?_, .left hloops hquiet rfl⟩
    rw [Machine.step, hloops]
    dsimp only
    rw [hnone]
  · refine ⟨m, ?_, .stray hloops honly rfl⟩
    rw [Machine.step, hloops]
    dsimp only
    rw [hstray]
    dsimp only
    rw [Machine.dispatchIrq, hr.stray]
  · refine ⟨_, ?_, .served (.gpu l) hraised ?_ ?_ rfl⟩
    · rw [Machine.step, hloops]
      dsimp only
      rw [hline]
      rfl
    · rintro ⟨⟩
      exact pendingHwirq_last hline
    · rintro ⟨⟩
      exact pendingHwirq_sd hpresents hline

/-- The handler of a device is called, or there is none. -/
theorem Routing.dispatchIrq_cases (hr : Routing irq rootBase gpuBase) (m : Machine σ)
    (x : Source) :
    (irq.dispatchIrq (virq rootBase gpuBase x) = none ∧
      m.dispatchIrq irq (virq rootBase gpuBase x) = m) ∨
    ∃ handleIrq, irq.dispatchIrq (virq rootBase gpuBase x) = some (.device handleIrq) ∧
      m.dispatchIrq irq (virq rootBase gpuBase x) = { m with
        dev := (handleIrq m.dev).1
        scheduleFlag := m.scheduleFlag || (handleIrq m.dev).2
        calls := m.calls ++ [(virq rootBase gpuBase x, (handleIrq m.dev).2)] } := by
  rw [Machine.dispatchIrq]
  cases h : irq.dispatchIrq (virq rootBase gpuBase x) with
  | none => exact .inl ⟨rfl, rfl⟩
  | some handler =>
      cases handler with
      | controller virqBase => exact absurd h (hr.device x virqBase)
      | device handleIrq => exact .inr ⟨handleIrq, rfl, rfl⟩

/-- The loops that a core is in. -/
def Machine.Nested (gpuBase : Nat) (m : Machine σ) : Prop :=
  m.loops = [.root] ∨ m.loops = [.armctrl (some gpuBase), .root]

theorem Routing.turn (hr : Routing irq rootBase gpuBase) (hw : Hardware σ) (h : m.Nested gpuBase) :
    ∃ t, m.step irq hw = some t ∧ Turn irq hw rootBase gpuBase m t := by
  rcases h with hloops | hloops
  · exact hr.root_turn hloops
  · exact hr.armctrl_turn hloops

theorem Routing.dispatchIrq_loops (hr : Routing irq rootBase gpuBase) (m : Machine σ)
    (x : Source) : (m.dispatchIrq irq (virq rootBase gpuBase x)).loops = m.loops ∧
      (m.dispatchIrq irq (virq rootBase gpuBase x)).yielded = m.yielded := by
  rcases hr.dispatchIrq_cases m x with ⟨-, heq⟩ | ⟨handleIrq, -, heq⟩
  · rw [heq]
    exact ⟨rfl, rfl⟩
  · rw [heq]
    exact ⟨rfl, rfl⟩

/-- The loops of the next state. -/
theorem Turn.nested (hr : Routing irq rootBase gpuBase) (h : m.Nested gpuBase)
    (ht : Turn irq hw rootBase gpuBase m t) : t.yielded = m.yielded ∧
      (t.Nested gpuBase ∨ (t.loops = [] ∧ ∀ x, hw.raised m.dev x = false)) := by
  cases ht with
  | done hloops hquiet ht => exact ht ▸ ⟨rfl, .inr ⟨rfl, hquiet⟩⟩
  | entered hloops l hraised ht => exact ht ▸ ⟨rfl, .inl (.inr rfl)⟩
  | left hloops hquiet ht => exact ht ▸ ⟨rfl, .inl (.inl rfl)⟩
  | stray hloops honly ht =>
      rw [ht]
      exact ⟨rfl, .inl h⟩
  | served x hraised hlast hsd ht =>
      obtain ⟨hloops, hyielded⟩ := hr.dispatchIrq_loops m x
      refine ht ▸ ⟨hyielded, .inl ?_⟩
      rwa [Machine.Nested, hloops]

/-- A handler is called for a line that is raised. -/
theorem Turn.calls (hr : Routing irq rootBase gpuBase)
    (ht : Turn irq hw rootBase gpuBase m t) : t.calls = m.calls ∨
      ∃ x schedule, hw.raised m.dev x = true ∧
        t.calls = m.calls ++ [(virq rootBase gpuBase x, schedule)] := by
  cases ht with
  | done hloops hquiet ht => exact .inl (by rw [ht])
  | entered hloops l hraised ht => exact .inl (by rw [ht])
  | left hloops hquiet ht => exact .inl (by rw [ht])
  | stray hloops honly ht => exact .inl (by rw [ht])
  | served x hraised hlast hsd ht =>
      rcases hr.dispatchIrq_cases m x with ⟨-, heq⟩ | ⟨handleIrq, -, heq⟩
      · exact .inl (by rw [ht, heq])
      · exact .inr ⟨x, _, hraised, by rw [ht, heq]⟩

/-- The core and the devices, which change at any time. -/
def Interleaved (irq : State C (InterruptHandler σ)) (hw : Hardware σ) (s t : Machine σ) : Prop :=
  s.step irq hw = some t ∨ ∃ dev, t = { s with dev := dev }

theorem nested_interleaved (hr : Routing irq rootBase gpuBase) {dev : σ} {scheduleFlag : Bool}
    (h : Reachable (· = Machine.start dev scheduleFlag) (Interleaved irq hw) m) :
    m.Nested gpuBase ∨ m.loops = [] := by
  refine Reachable.invariant (P := fun s => s.Nested gpuBase ∨ s.loops = []) ?_ ?_ h
  · rintro _ rfl
    exact .inl (.inl rfl)
  · rintro s t - hs (hst | ⟨dev, rfl⟩)
    · rcases hs with hnested | hnil
      · obtain ⟨u, hu, hturn⟩ := hr.turn hw hnested
        rw [hst] at hu
        cases hu
        exact (hturn.nested hr hnested).2.imp id And.left
      · rw [Machine.step, hnil] at hst
        dsimp only at hst
        split at hst
        · cases hst
        · cases hst
          exact .inr rfl
    · exact hs

end Step

section Run

variable {irq : State C (InterruptHandler σ)} {hw : Hardware σ} {rootBase gpuBase : Nat}
  {dev : σ} {scheduleFlag : Bool} {m t : Machine σ}

/-- The lines that are still raised are those whose handlers have not been called. -/
structure Serves (hw : Hardware σ) (rootBase gpuBase : Nat) (dev : σ) (scheduleFlag : Bool)
    (m : Machine σ) : Prop where
  nested : m.Nested gpuBase ∨ (m.loops = [] ∧ ∀ x, hw.raised m.dev x = false)
  running : m.yielded = none
  raised : ∀ x, hw.raised m.dev x = true ↔
    hw.raised dev x = true ∧ virq rootBase gpuBase x ∉ m.calls.map Prod.fst
  called : ∀ v ∈ m.calls.map Prod.fst,
    ∃ x, hw.raised dev x = true ∧ v = virq rootBase gpuBase x
  once : (m.calls.map Prod.fst).Nodup
  flag : m.scheduleFlag = (scheduleFlag || m.calls.any Prod.snd)
  covered : hw.raised m.dev sd = true → hw.raised m.dev last = true

theorem Serves.congr (h : Serves hw rootBase gpuBase dev scheduleFlag m)
    (hnested : t.Nested gpuBase ∨ (t.loops = [] ∧ ∀ x, hw.raised t.dev x = false))
    (hdev : t.dev = m.dev) (hcalls : t.calls = m.calls) (hflag : t.scheduleFlag = m.scheduleFlag)
    (hyielded : t.yielded = m.yielded) : Serves hw rootBase gpuBase dev scheduleFlag t := by
  obtain ⟨-, hrunning, hraised, hcalled, honce, hf, hsd⟩ := h
  refine ⟨hnested, hyielded.trans hrunning, ?_, ?_, ?_, ?_, ?_⟩
  · rwa [hdev, hcalls]
  · rwa [hcalls]
  · rwa [hcalls]
  · rwa [hflag, hcalls]
  · rwa [hdev]

/-- One handler is called. -/
theorem Serves.serve (h : Serves hw rootBase gpuBase dev scheduleFlag m)
    (hr : Routing irq rootBase gpuBase) (hs : Serving hw irq rootBase gpuBase) {x : Source}
    {handleIrq : σ → σ × Bool} (hnested : m.Nested gpuBase) (hraised : hw.raised m.dev x = true)
    (hlast : x = last → hw.raised m.dev sd = false)
    (hhandler : irq.dispatchIrq (virq rootBase gpuBase x) = some (.device handleIrq)) :
    Serves hw rootBase gpuBase dev scheduleFlag { m with
      dev := (handleIrq m.dev).1
      scheduleFlag := m.scheduleFlag || (handleIrq m.dev).2
      calls := m.calls ++ [(virq rootBase gpuBase x, (handleIrq m.dev).2)] } := by
  obtain ⟨hlowered, hothers⟩ := hs x handleIrq m.dev hhandler hraised
  obtain ⟨hbefore, hnew⟩ := (h.raised x).mp hraised
  have hfst : (m.calls ++ [(virq rootBase gpuBase x, (handleIrq m.dev).2)]).map Prod.fst =
      m.calls.map Prod.fst ++ [virq rootBase gpuBase x] := List.map_append
  refine ⟨.inl hnested, h.running, fun y => ?_, ?_, ?_, ?_, fun hsd => ?_⟩
  · rw [hfst, List.mem_append, List.mem_singleton, not_or]
    by_cases hy : y = x
    · rw [hy]
      exact iff_of_false (fun hno => Bool.false_ne_true (hlowered.symm.trans hno))
        fun hno => hno.2.2 rfl
    · have hne : virq rootBase gpuBase y ≠ virq rootBase gpuBase x :=
        fun heq => hy (hr.virq_inj heq)
      dsimp only
      rw [hothers y hy, h.raised y]
      exact and_congr_right fun _ => (and_iff_left hne).symm
  · rw [hfst, List.forall_mem_append, List.forall_mem_singleton]
    exact ⟨h.called, x, hbefore, rfl⟩
  · rw [hfst]
    exact List.nodup_append.mpr ⟨h.once, List.nodup_singleton _, fun v hv w hw' heq =>
      hnew (List.mem_singleton.mp hw' ▸ heq ▸ hv)⟩
  · dsimp only
    rw [h.flag, List.any_append, List.any_cons, List.any_nil, Bool.or_false, Bool.or_assoc]
  · have hne : sd ≠ x := by
      rintro rfl
      exact Bool.false_ne_true (hlowered.symm.trans hsd)
    rw [hothers sd hne] at hsd
    have hne' : last ≠ x := by
      intro heq
      exact Bool.false_ne_true ((hlast heq.symm).symm.trans hsd)
    dsimp only
    rw [hothers last hne']
    exact h.covered hsd

/-- The state of a core that has nothing left to do but to look at the flag. -/
theorem Serves.delivered (h : Serves hw rootBase gpuBase dev scheduleFlag m) (hloops : m.loops = [])
    (hst : m.step irq hw = some t) : Delivered hw rootBase gpuBase dev scheduleFlag t := by
  have hquiet : ∀ x, hw.raised m.dev x = false := by
    rcases h.nested with hno | ⟨-, hquiet⟩
    · rcases hno with hno | hno
      · rw [hloops] at hno
        cases hno
      · rw [hloops] at hno
        cases hno
    · exact hquiet
  rw [Machine.step, hloops, h.running] at hst
  cases hst
  refine ⟨hquiet, h.once, fun v => ⟨h.called v, ?_⟩, congrArg some h.flag⟩
  rintro ⟨x, hx, rfl⟩
  by_contra hnew
  have hraised := (h.raised x).mpr ⟨hx, hnew⟩
  exact Bool.false_ne_true ((hquiet x).symm.trans hraised)

/-- The numbers of the calls are different, and below this one. -/
theorem Serves.length_le (h : Serves hw rootBase gpuBase dev scheduleFlag m) :
    m.calls.length ≤ rootBase + gpuBase + 84 := by
  have hsub : m.calls.map Prod.fst ⊆ List.range (rootBase + gpuBase + 84) := by
    intro v hv
    obtain ⟨x, -, rfl⟩ := h.called v hv
    rw [List.mem_range]
    cases x with
    | core i hi hne =>
        simp only [virq]
        omega
    | gpu l =>
        have hlt := Line.hwirq_lt l
        rw [HWIRQ_COUNT] at hlt
        simp only [virq]
        omega
  have hle := (h.once.subperm hsub).length_le
  rwa [List.length_map, List.length_range] at hle

open Classical in
/-- Each turn makes this number smaller: a loop is entered to call a handler at least. -/
noncomputable def rank (hw : Hardware σ) (bound : Nat) (m : Machine σ) : Nat :=
  4 * (bound - m.calls.length) +
    if m.loops = [] then 0
    else if m.loops = [.root] then 2
    else if ∃ l, hw.raised m.dev (.gpu l) = true then 1
    else 3

theorem rank_nested (hw : Hardware σ) (bound : Nat) (h : m.Nested gpuBase) :
    4 * (bound - m.calls.length) < rank hw bound m := by
  have hne : m.loops ≠ [] := by
    rcases h with hloops | hloops <;> rw [hloops] <;> exact nofun
  rw [rank, if_neg hne]
  split_ifs <;> omega

theorem rank_le {bound : Nat} : rank hw bound m ≤ 4 * (bound - m.calls.length) + 3 := by
  rw [rank]
  split_ifs <;> omega

/-- With a handler for each raised line, the core gets to the end. -/
theorem Deliverable.inevitable (hd : Deliverable hw irq rootBase gpuBase dev)
    (hr : Routing irq rootBase gpuBase) (hs : Serving hw irq rootBase gpuBase) :
    Inevitable (fun (s t : Machine σ) => s.step irq hw = some t)
      (Delivered hw rootBase gpuBase dev scheduleFlag) (Machine.start dev scheduleFlag) := by
  apply Inevitable.of_measure (Serves hw rootBase gpuBase dev scheduleFlag)
    (rank hw (rootBase + gpuBase + 84))
  · intro m h
    rcases h.nested with hnested | ⟨hloops, -⟩
    · obtain ⟨t, ht, -⟩ := hr.turn hw hnested
      exact ⟨t, ht⟩
    · refine ⟨{ m with scheduleFlag := false, yielded := some m.scheduleFlag }, ?_⟩
      rw [Machine.step, hloops, h.running]
  · intro m t h hst
    rcases h.nested with hnested | ⟨hloops, -⟩
    · right
      obtain ⟨u, hu, hturn⟩ := hr.turn hw hnested
      rw [hst] at hu
      cases hu
      cases hturn with
      | done hloops hquiet ht =>
          rw [ht]
          refine ⟨h.congr (.inr ⟨rfl, hquiet⟩) rfl rfl rfl rfl, ?_⟩
          simp only [rank, hloops, if_true, reduceCtorEq, if_false]
          omega
      | entered hloops l hraised ht =>
          rw [ht]
          refine ⟨h.congr (.inl (.inr rfl)) rfl rfl rfl rfl, ?_⟩
          have hex : ∃ l, hw.raised m.dev (.gpu l) = true := ⟨l, hraised⟩
          simp [rank, hloops, hex]
      | left hloops hquiet ht =>
          rw [ht]
          refine ⟨h.congr (.inl (.inl rfl)) rfl rfl rfl rfl, ?_⟩
          simp [rank, hloops, hquiet]
      | stray hloops honly ht =>
          -- interrupt 63 would be raised as well
          have hsd : hw.raised m.dev sd = true := (honly 2 30).mpr ⟨rfl, rfl⟩
          exact absurd ((honly 2 31).mp (h.covered hsd)) (by decide)
      | served x hraised hlast hsd ht =>
          rcases hr.dispatchIrq_cases m x with ⟨hnone, -⟩ | ⟨handleIrq, hhandler, heq⟩
          · have hsome := hd.1 x ((h.raised x).mp hraised).1
            rw [hnone] at hsome
            cases hsome
          · rw [ht, heq]
            have hserve := h.serve hr hs hnested hraised hlast hhandler
            refine ⟨hserve, ?_⟩
            have hle := hserve.length_le
            have hbefore := rank_nested hw (rootBase + gpuBase + 84) hnested
            refine Nat.lt_of_le_of_lt rank_le ?_
            simp only [List.length_append, List.length_singleton] at hle ⊢
            omega
    · exact .inl (h.delivered hloops hst)
  · exact ⟨.inl (.inl rfl), rfl, fun x => ⟨fun hx => ⟨hx, List.not_mem_nil⟩, And.left⟩, nofun,
      List.nodup_nil, (Bool.or_false _).symm, hd.2⟩

/-- A line that no handler lowers keeps the core in its loops. -/
structure Stuck (hw : Hardware σ) (irq : State C (InterruptHandler σ)) (rootBase gpuBase : Nat)
    (x : Source) (m : Machine σ) : Prop where
  nested : m.Nested gpuBase
  running : m.yielded = none
  raised : hw.raised m.dev x = true
  unserved : irq.dispatchIrq (virq rootBase gpuBase x) = none ∨
    (x = sd ∧ hw.raised m.dev last = false)

theorem Stuck.step {x : Source} (h : Stuck hw irq rootBase gpuBase x m)
    (hr : Routing irq rootBase gpuBase) (hs : Serving hw irq rootBase gpuBase)
    (hst : m.step irq hw = some t) : Stuck hw irq rootBase gpuBase x t := by
  obtain ⟨u, hu, hturn⟩ := hr.turn hw h.nested
  rw [hst] at hu
  cases hu
  obtain ⟨hyielded, hnested | ⟨-, hquiet⟩⟩ := hturn.nested hr h.nested
  · have hsame (hdev : t.dev = m.dev) : Stuck hw irq rootBase gpuBase x t :=
      ⟨hnested, hyielded.trans h.running, hdev ▸ h.raised, hdev ▸ h.unserved⟩
    cases hturn with
    | done hloops hquiet ht => exact hsame (by rw [ht])
    | entered hloops l hraised ht => exact hsame (by rw [ht])
    | left hloops hquiet ht => exact hsame (by rw [ht])
    | stray hloops honly ht => exact hsame (by rw [ht])
    | served y hraised hlast hsd ht =>
        rcases hr.dispatchIrq_cases m y with ⟨-, heq⟩ | ⟨handleIrq, hhandler, heq⟩
        · exact hsame (by rw [ht, heq])
        · obtain ⟨-, hothers⟩ := hs y handleIrq m.dev hhandler hraised
          have hdev : t.dev = (handleIrq m.dev).1 := by rw [ht, heq]
          have hne : x ≠ y := by
            rintro rfl
            rcases h.unserved with hnone | ⟨hx, hno⟩
            · rw [hnone] at hhandler
              cases hhandler
            · exact Bool.false_ne_true (hno.symm.trans (hsd hx))
          refine ⟨hnested, hyielded.trans h.running, ?_, h.unserved.imp id ?_⟩
          · rw [hdev, hothers x hne]
            exact h.raised
          · rintro ⟨hx, hno⟩
            have hne' : last ≠ y := by
              rintro rfl
              exact Bool.false_ne_true (hno.symm.trans hraised)
            rw [hdev, hothers last hne']
            exact ⟨hx, hno⟩
  · exact absurd ((hquiet x).symm.trans h.raised) Bool.false_ne_true

/-- Otherwise it never does. -/
theorem never_done (hd : ¬Deliverable hw irq rootBase gpuBase dev)
    (hr : Routing irq rootBase gpuBase) (hs : Serving hw irq rootBase gpuBase)
    (hrun : Relation.ReflTransGen (fun (s t : Machine σ) => s.step irq hw = some t)
      (Machine.start dev scheduleFlag) t) : t.yielded = none := by
  obtain ⟨x, hx⟩ : ∃ x, Stuck hw irq rootBase gpuBase x (.start dev scheduleFlag) := by
    rw [Deliverable, not_and_or] at hd
    push Not at hd
    rcases hd with ⟨x, hraised, hnone⟩ | ⟨hsd, hlast⟩
    · refine ⟨x, .inl rfl, rfl, hraised, .inl ?_⟩
      cases h : irq.dispatchIrq (virq rootBase gpuBase x) with
      | none => rfl
      | some handler =>
          rw [h] at hnone
          exact absurd rfl hnone
    · exact ⟨sd, .inl rfl, rfl, hsd, .inr ⟨rfl, Bool.eq_false_iff.mpr hlast⟩⟩
  have hstuck : Stuck hw irq rootBase gpuBase x t := by
    induction hrun with
    | refl => exact hx
    | tail _ hst ih => exact ih.step hr hs hst
  exact hstuck.running

end Run

/-- The two controllers are registered (`Routing`), a handler lowers its own line and no other
one (`Serving`), and a turn of a loop, with its reads of the registers and the handler's call, is
one step. While devices change at any time between the turns, a core in `global_irq_dispatch`
calls a handler only for a line that is raised at that moment, and it leaves its loops only when
no line is raised. While only the handlers change the devices, it calls the handler of each
raised line once, exactly if each has one and GPU interrupt 62 is not raised without 63.
Otherwise it stays in its loops for ever. -/
theorem delivered_iff {irq : State C (InterruptHandler σ)} {hw : Hardware σ}
    {rootBase gpuBase : Nat} (hr : Routing irq rootBase gpuBase)
    (hs : Serving hw irq rootBase gpuBase) (dev : σ) (scheduleFlag : Bool) :
    (∀ m t, Reachable (· = Machine.start dev scheduleFlag) (Interleaved irq hw) m →
      m.step irq hw = some t →
        (t.calls = m.calls ∨ ∃ x schedule, hw.raised m.dev x = true ∧
          t.calls = m.calls ++ [(virq rootBase gpuBase x, schedule)]) ∧
        (m.loops ≠ [] → t.loops = [] → ∀ x, hw.raised m.dev x = false)) ∧
    (Inevitable (fun (s t : Machine σ) => s.step irq hw = some t)
      (Delivered hw rootBase gpuBase dev scheduleFlag) (Machine.start dev scheduleFlag) ↔
        Deliverable hw irq rootBase gpuBase dev) ∧
    (¬Deliverable hw irq rootBase gpuBase dev → ∀ t : Machine σ, Relation.ReflTransGen
      (fun (s t : Machine σ) => s.step irq hw = some t) (Machine.start dev scheduleFlag) t →
        t.yielded = none) := by
  refine ⟨fun m t hm hst => ?_, ⟨fun h => ?_, fun hd => hd.inevitable hr hs⟩,
    fun hd t => never_done hd hr hs⟩
  · rcases nested_interleaved hr hm with hnested | hnil
    · obtain ⟨u, hu, hturn⟩ := hr.turn hw hnested
      rw [hst] at hu
      cases hu
      refine ⟨hturn.calls hr, fun _ hnil => ?_⟩
      rcases (hturn.nested hr hnested).2 with hno | ⟨-, hquiet⟩
      · rcases hno with hno | hno
        · rw [hnil] at hno
          cases hno
        · rw [hnil] at hno
          cases hno
      · exact hquiet
    · refine ⟨.inl ?_, fun hne => absurd hnil hne⟩
      rw [Machine.step, hnil] at hst
      dsimp only at hst
      split at hst
      · cases hst
      · cases hst
        rfl
  · by_contra hd
    obtain ⟨t, hrun, ht⟩ := h.exists_reached
    have hno := never_done hd hr hs hrun
    rw [ht.yielded] at hno
    cases hno

section Uart

theorem raised_zero (bank irq : Nat) : PendingRegs.raised ⟨0#32, 0#32, 0#32⟩ bank irq = false := by
  unfold PendingRegs.raised
  split
  · rw [BitVec.getLsbD_zero, Bool.and_false]
  · exact BitVec.getLsbD_zero
  · exact BitVec.getLsbD_zero
  · rfl

theorem getLsbD_uart {i : Nat} : (1#32 <<< 25).getLsbD i = true ↔ i = 25 := by
  constructor
  · intro h
    have hlt := BitVec.lt_of_getLsbD h
    revert h
    revert i
    decide
  · rintro rfl
    rfl

theorem raised_uart {l : Line} :
    PendingRegs.raised ⟨1#32 <<< 19, 0#32, 1#32 <<< 25⟩ l.bank l.irq = true ↔
      l = ⟨2, 25, by decide⟩ := by
  constructor
  · intro h
    rcases l.bank_cases with ⟨hbank, hlt, -⟩ | ⟨hbank, hlt, -⟩ | ⟨hbank, hlt, -⟩
    · rw [hbank] at h
      have hlow : ∀ i < 8, PendingRegs.raised ⟨1#32 <<< 19, 0#32, 1#32 <<< 25⟩ 0 i = false := by
        decide
      rw [hlow _ hlt] at h
      cases h
    · rw [hbank] at h
      exact absurd (BitVec.getLsbD_zero.symm.trans h) Bool.false_ne_true
    · rw [hbank] at h
      exact Line.ext hbank (getLsbD_uart.mp h)
  · rintro rfl
    rfl

/-- The UART alone. The state says whether it raises its line. -/
def uart : Hardware Bool where
  source up := if up then 1#32 <<< 8 else 0#32
  pending up := if up then ⟨1#32 <<< 19, 0#32, 1#32 <<< 25⟩ else ⟨0#32, 0#32, 0#32⟩
  presents up := by
    cases up with
    | false => exact ⟨by decide, by decide, by decide⟩
    | true => exact ⟨by decide, by decide, by decide⟩
  cascade up := by
    cases up with
    | false =>
        refine iff_of_false Bool.false_ne_true ?_
        rintro ⟨l, hl⟩
        exact Bool.false_ne_true ((raised_zero l.bank l.irq).symm.trans hl)
    | true => exact iff_of_true rfl ⟨⟨2, 25, by decide⟩, rfl⟩
  high up i hi := by
    cases up with
    | false => exact BitVec.getLsbD_zero
    | true =>
        have hhigh : ∀ i < 32, 12 ≤ i → (1#32 <<< 8).getLsbD i = false := by decide
        by_cases hlt : i < 32
        · exact hhigh i hlt hi
        · exact BitVec.getLsbD_of_ge _ _ (Nat.le_of_not_lt hlt)

/-- Both controllers registered, and a uart on line 65 of the second one. -/
def uartIrq : State Unit (InterruptHandler Bool) where
  nextVirqBase := 84
  rootController := some ⟨[], (), 0, 12⟩
  controllers := [⟨[], (), 12, 72⟩]
  globalHandlers := [(8, .controller (some 12)), (77, .device fun _ => (false, false))]
  enabled := []

theorem uart_raised {x : Source} {up : Bool} (h : uart.raised up x = true) :
    up = true ∧ x = .gpu ⟨2, 25, by decide⟩ := by
  cases up with
  | false =>
      cases x with
      | core i hlt hne => exact absurd (BitVec.getLsbD_zero.symm.trans h) Bool.false_ne_true
      | gpu l => exact absurd ((raised_zero l.bank l.irq).symm.trans h) Bool.false_ne_true
  | true =>
      cases x with
      | core i hlt hne =>
          have hcore : ∀ i < 12, i ≠ 8 → (1#32 <<< 8).getLsbD i = false := by decide
          exact absurd ((hcore i hlt hne).symm.trans h) Bool.false_ne_true
      | gpu l => exact ⟨rfl, congrArg Source.gpu (raised_uart.mp h)⟩

theorem uart_dispatchIrq {v : Nat} {h : InterruptHandler Bool} (hv : uartIrq.dispatchIrq v = some h) :
    (v = 8 ∧ h = .controller (some 12)) ∨ (v = 77 ∧ h = .device fun _ => (false, false)) := by
  rw [State.dispatchIrq] at hv
  split_ifs at hv with hlt
  simp only [uartIrq, List.lookup_cons, List.lookup_nil] at hv
  grind

theorem uart_routing : Routing uartIrq 0 12 where
  root := ⟨⟨[], (), 0, 12⟩, rfl, rfl⟩
  cascade := rfl
  apart := .inl (by decide)
  device x virqBase h := by
    rcases uart_dispatchIrq h with ⟨hv, -⟩ | ⟨-, hno⟩
    · cases x with
      | core i hlt hne => exact hne (by simpa [virq] using hv)
      | gpu l =>
          rw [virq] at hv
          omega
    · cases hno
  stray := rfl

theorem uart_serving : Serving uart uartIrq 0 12 := by
  intro x handleIrq up hx hraised
  obtain ⟨rfl, rfl⟩ := uart_raised hraised
  cases hx
  refine ⟨rfl, fun y hy => ?_⟩
  have hup {up : Bool} : uart.raised up y = false :=
    Bool.eq_false_iff.mpr fun h => hy (uart_raised h).2
  exact hup.trans hup.symm

theorem delivered_iff_uart : Inevitable (fun (s t : Machine Bool) => s.step uartIrq uart = some t)
    (Delivered uart 0 12 true false) (Machine.start true false) := by
  refine (delivered_iff uart_routing uart_serving true false).2.1.mpr ⟨fun x hx => ?_, fun h => ?_⟩
  · obtain ⟨-, rfl⟩ := uart_raised hx
    rfl
  · cases (uart_raised h).2

end Uart

end Kruspix.Drivers.InterruptDelivery
