import Kruspix.Kernel.Devicetree.DeviceTree
import Kruspix.Lib.Transition
import Mathlib.Data.List.Pairwise

/-!
# Interrupt domains

A controller that is registered gets a range of virtual interrupts of its own.
The root controller is kept apart from the others. An interrupt is enabled at
the controller whose range it is in, and a line of a device is found through the
controller of the node that is its interrupt parent.
-/

namespace Kruspix.Kernel.Irq

open Devicetree Lib.Result Lib.Bytes Lib.Transition

/-- The errors of the interrupt subsystem. -/
inductive IrqError
  | invalidConfig
  | invalidControllerParent
  | translationFailed
  | invalidVirq
  | busy
  deriving DecidableEq, Repr

/-- What a call returns instead of a value. -/
inductive Stop
  | panic (fault : Fault)
  | err (error : IrqError)
  deriving DecidableEq, Repr

/-- The methods of a controller that are called here. `setVirqBase` returns the
controller with the base it has kept. -/
class InterruptController (C : Type) where
  setVirqBase : C → Nat → Except IrqError C
  xlate : C → List Nat → Except Stop Nat

/-- The address of the node is its position in the tree. -/
structure IrqDomain (C : Type) where
  nodeAddr : List Nat
  controller : C
  virqBase : Nat
  irqCount : Nat

def MAX_IRQS : Nat := 256

/-- The statics of the module, and the calls of `enable` so far. -/
structure State (C H : Type) where
  nextVirqBase : Nat
  rootController : Option (IrqDomain C)
  controllers : List (IrqDomain C)
  globalHandlers : List (Nat × H)
  enabled : List (C × Nat)

variable {C H : Type}

/-- The subsystem changes its state and may stop. -/
abbrev IrqM (C H : Type) := EStateM Stop (State C H)

namespace State

/-- The statics before the first call. -/
def new : State C H := ⟨0, none, [], [], []⟩

/-- The domains in the order in which they are searched. -/
def domains (s : State C H) : List (IrqDomain C) := s.rootController.toList ++ s.controllers

/-- The handler that `dispatch_irq` calls. -/
def dispatchIrq (s : State C H) (virq : Nat) : Option H :=
  if virq ≥ MAX_IRQS then none else s.globalHandlers.lookup virq

end State

/-- The domain's range of virtual interrupts. -/
def IrqDomain.Contains (d : IrqDomain C) (virq : Nat) : Prop :=
  virq ≥ d.virqBase ∧ virq < d.virqBase + d.irqCount

instance (d : IrqDomain C) (virq : Nat) : Decidable (d.Contains virq) := by
  unfold IrqDomain.Contains
  infer_instance

/-- The ranges of the domains do not overlap. -/
def IrqDomain.Apart (d e : IrqDomain C) : Prop :=
  d.virqBase + d.irqCount ≤ e.virqBase ∨ e.virqBase + e.irqCount ≤ d.virqBase

instance : Std.Symm (IrqDomain.Apart (C := C)) := ⟨fun _ _ => Or.symm⟩

/-- A controller is the root when its own node is its interrupt parent. Without
an interrupt parent the parent node stands in for it. -/
def isRootController (node : NodePtr) : Bool :=
  match node.node.interruptParent with
  | some phandle =>
      match node.node.phandle with
      | some ownPhandle => ownPhandle == phandle
      | none => false
  | none =>
      match node.parent with
      | some parent => !parent.isInterruptController
      | none => true

variable [InterruptController C]

/-- `register_controller`, with the controller as it is after the call. -/
def registerController (node : NodePtr) (controller : C) (irqCount : Nat) : IrqM C H C := do
  let isRoot := isRootController node
  if isRoot = (← get).rootController.isSome then throw (.err .invalidControllerParent)
  if irqCount > MAX_IRQS then throw (.panic .overflow)
  if (← get).nextVirqBase ≥ MAX_IRQS - irqCount then throw (.err .invalidConfig)
  let virqBase ← modifyGet fun s =>
    (s.nextVirqBase, { s with nextVirqBase := s.nextVirqBase + irqCount })
  match InterruptController.setVirqBase controller virqBase with
  | .error e => throw (.err e)
  | .ok controller =>
      let irqDomain := ⟨node.addr, controller, virqBase, irqCount⟩
      if isRoot then
        if (← get).rootController.isSome then
          modify fun s => { s with nextVirqBase := s.nextVirqBase - irqCount }
          throw (.err .invalidControllerParent)
        else modify fun s => { s with rootController := some irqDomain }
      else modify fun s => { s with controllers := s.controllers ++ [irqDomain] }
      return controller

omit [InterruptController C] in
/-- A virq has one handler, and a second one is refused. -/
def registerHandler (virq : Nat) (handler : H) : IrqM C H Unit := do
  if virq ≥ MAX_IRQS then throw (.err .invalidVirq)
  if ((← get).globalHandlers.lookup virq).isSome then throw (.err .busy)
  modify fun s => { s with globalHandlers := (virq, handler) :: s.globalHandlers }

omit [InterruptController C] in
/-- The controller whose range holds the virq enables its line. -/
def enableIrq (virq : Nat) : IrqM C H Unit := do
  match (← get).domains.find? fun d => d.Contains virq with
  | none => throw (.err .invalidVirq)
  | some domain =>
      let hwirq := virq - domain.virqBase
      modify fun s => { s with enabled := s.enabled ++ [(domain.controller, hwirq)] }

/-- The first interrupt parent on the way from the node to the root. -/
def interruptParentOf (dt : DeviceTree) : List Node → Option NodePtr
  | [] => none
  | node :: ancestors =>
      match node.interruptParent with
      | some phandle => dt.nodeByPhandle phandle
      | none => interruptParentOf dt ancestors

omit [InterruptController C] in
/-- The first part of `resolve_virq`: the node of the controller and the
specifier of the line. -/
def resolveLine (dt : DeviceTree) (node : NodePtr) (index : Nat) :
    Except Stop (NodePtr × List Nat) :=
  if node.node.interruptsExtended.isSome then .error (.panic .unimplemented)
  else
    match node.node.interrupts, interruptParentOf dt (node.node :: node.ancestors) with
    | none, _ => .error (.err .invalidConfig)
    | some _, none => .error (.err .invalidControllerParent)
    | some interrupts, some intParent =>
        if !intParent.node.isInterruptController then .error (.err .invalidControllerParent)
        else if intParent.node.interruptMap.isSome then .error (.panic .unimplemented)
        else
          match intParent.node.interruptCells with
          | none => .error (.err .invalidConfig)
          | some interruptCells =>
              if interruptCells = 0 then .error (.panic .assertion)
              else
                match (chunksExact interruptCells interrupts)[index]? with
                | none => .error (.err .invalidConfig)
                | some specifier => .ok (intParent, specifier)

/-- The virq of an interrupt of a node. The controller that it is routed to translates the
specifier. -/
def resolveVirq (dt : DeviceTree) (node : NodePtr) (index : Nat) : IrqM C H Nat := do
  let (intParent, specifier) ← ofExcept (resolveLine dt node index)
  match (← get).domains.find? fun d => d.nodeAddr == intParent.addr with
  | none => throw (.err .invalidControllerParent)
  | some domain =>
      let hwirq ← ofExcept (InterruptController.xlate domain.controller specifier)
      return domain.virqBase + hwirq

omit [InterruptController C] in
/-- A registered handler is the only change to the table, at a free place. -/
theorem registerHandler_ok {s t : State C H} {virq : Nat} {handler : H}
    (h : registerHandler virq handler s = .ok () t) :
    s.globalHandlers.lookup virq = none ∧
      t = { s with globalHandlers := (virq, handler) :: s.globalHandlers } := by
  simp only [registerHandler] at h
  by_cases hvirq : virq ≥ MAX_IRQS
  · rw [if_pos hvirq] at h
    cases h
  rw [if_neg hvirq, bind_ok get_apply] at h
  cases hlookup : s.globalHandlers.lookup virq with
  | some registered =>
      rw [hlookup] at h
      cases h
  | none =>
      rw [hlookup] at h
      cases h
      exact ⟨rfl, rfl⟩

omit [InterruptController C] in
theorem registerHandler_free {s : State C H} {virq : Nat} {handler : H} (hlt : virq < MAX_IRQS)
    (hfree : s.globalHandlers.lookup virq = none) :
    registerHandler virq handler s =
      .ok () { s with globalHandlers := (virq, handler) :: s.globalHandlers } := by
  simp only [registerHandler]
  rw [if_neg (by omega), bind_ok get_apply, if_neg (by simp [hfree])]
  rfl

omit [InterruptController C] in
theorem registerHandler_error {s t : State C H} {virq : Nat} {handler : H} {stop : Stop}
    (h : registerHandler virq handler s = .error stop t) : t = s := by
  simp only [registerHandler] at h
  by_cases hvirq : virq ≥ MAX_IRQS
  · rw [if_pos hvirq] at h
    cases h
    rfl
  rw [if_neg hvirq, bind_ok get_apply] at h
  cases hlookup : s.globalHandlers.lookup virq with
  | some registered =>
      rw [hlookup] at h
      cases h
      rfl
  | none =>
      rw [hlookup] at h
      cases h

omit [InterruptController C] in
/-- A handler at a free place hides no other. -/
theorem lookup_cons_of_free {s : State C H} {virq : Nat} {handler : H}
    (hfree : s.globalHandlers.lookup virq = none) (v : Nat) (h : H)
    (hlookup : s.globalHandlers.lookup v = some h) :
    ((virq, handler) :: s.globalHandlers).lookup v = some h := by
  have hne : v ≠ virq := by
    rintro rfl
    rw [hfree] at hlookup
    cases hlookup
  rw [List.lookup_cons, beq_eq_false_iff_ne.mpr hne]
  exact hlookup

/-- A line is resolved through the first domain of the controller's node. -/
theorem resolveVirq_eq_ok {dt : DeviceTree} {node : NodePtr} {index virq : Nat} {s t : State C H} :
    resolveVirq dt node index s = .ok virq t ↔
      t = s ∧ ∃ ctl specifier d hwirq, resolveLine dt node index = .ok (ctl, specifier) ∧
        (s.domains.find? fun d => d.nodeAddr == ctl.addr) = some d ∧
        InterruptController.xlate d.controller specifier = .ok hwirq ∧
        virq = d.virqBase + hwirq := by
  rw [resolveVirq]
  cases hline : resolveLine dt node index with
  | error stop =>
      rw [bind_error ofExcept_error]
      simp
  | ok line =>
      obtain ⟨ctl, specifier⟩ := line
      rw [bind_ok ofExcept_ok]
      dsimp only
      rw [bind_ok get_apply]
      cases hfind : s.domains.find? fun d => d.nodeAddr == ctl.addr with
      | none => simp [hfind]
      | some d =>
          simp only
          cases hx : InterruptController.xlate d.controller specifier with
          | error stop =>
              rw [bind_error ofExcept_error]
              simp [hfind, hx]
          | ok hwirq =>
              rw [bind_ok ofExcept_ok]
              simp [hfind, hx, eq_comm, and_comm]

/-- A line that is resolved leaves the statics as they are. -/
theorem resolveVirq_run' {dt : DeviceTree} {node : NodePtr} {index virq : Nat} {s : State C H} :
    (resolveVirq dt node index).run' s = some virq ↔ resolveVirq dt node index s = .ok virq s := by
  delta EStateM.run' EStateM.run
  cases hres : resolveVirq dt node index s with
  | ok v t =>
      obtain ⟨rfl, -⟩ := resolveVirq_eq_ok.mp hres
      simp
  | error stop t => simp

/-- A controller that is out of place, or does not fit, changes nothing. -/
theorem registerController_refused {node : NodePtr} {controller : C} {irqCount : Nat}
    {s : State C H} (h : isRootController node = s.rootController.isSome ∨
      MAX_IRQS ≤ s.nextVirqBase + irqCount) :
    ∃ stop, registerController node controller irqCount s = .error stop s ∧
      (irqCount ≤ MAX_IRQS → ∃ e, stop = .err e) := by
  by_cases hroot : isRootController node = s.rootController.isSome
  · refine ⟨.err .invalidControllerParent, ?_, fun _ => ⟨_, rfl⟩⟩
    simp only [registerController]
    rw [bind_ok get_apply, if_pos hroot]
    rfl
  by_cases hcount : irqCount > MAX_IRQS
  · refine ⟨.panic .overflow, ?_, fun hle => absurd hle (Nat.not_le_of_gt hcount)⟩
    simp only [registerController]
    rw [bind_ok get_apply, if_neg hroot, if_pos hcount]
    rfl
  refine ⟨.err .invalidConfig, ?_, fun _ => ⟨_, rfl⟩⟩
  have hle := h.resolve_left hroot
  have hfull : s.nextVirqBase ≥ MAX_IRQS - irqCount := by omega
  simp only [registerController]
  rw [bind_ok get_apply, if_neg hroot, if_neg hcount, bind_ok get_apply, if_pos hfull]
  rfl

/-- A controller that refuses its base leaves its range taken. -/
theorem registerController_leaks {node : NodePtr} {controller : C} {irqCount : Nat}
    {s : State C H} {e : IrqError} (hroot : ¬isRootController node = s.rootController.isSome)
    (hlt : s.nextVirqBase + irqCount < MAX_IRQS)
    (hset : InterruptController.setVirqBase controller s.nextVirqBase = .error e) :
    registerController node controller irqCount s =
      .error (.err e) { s with nextVirqBase := s.nextVirqBase + irqCount } := by
  have hcount : ¬irqCount > MAX_IRQS := by omega
  have hfull : ¬s.nextVirqBase ≥ MAX_IRQS - irqCount := by omega
  simp only [registerController]
  rw [bind_ok get_apply, if_neg hroot, if_neg hcount, bind_ok get_apply, if_neg hfull,
    bind_ok modifyGet_apply, hset]
  rfl

theorem registerController_accepts {node : NodePtr} {controller controller' : C} {irqCount : Nat}
    {s : State C H} (hroot : ¬isRootController node = s.rootController.isSome)
    (hlt : s.nextVirqBase + irqCount < MAX_IRQS)
    (hset : InterruptController.setVirqBase controller s.nextVirqBase = .ok controller') :
    (isRootController node = true ∧ s.rootController = none ∧
      registerController node controller irqCount s = .ok controller' { s with
        nextVirqBase := s.nextVirqBase + irqCount
        rootController := some ⟨node.addr, controller', s.nextVirqBase, irqCount⟩ }) ∨
    (isRootController node = false ∧ s.rootController.isSome ∧
      registerController node controller irqCount s = .ok controller' { s with
        nextVirqBase := s.nextVirqBase + irqCount
        controllers := s.controllers ++
          [⟨node.addr, controller', s.nextVirqBase, irqCount⟩] }) := by
  have hcount : ¬irqCount > MAX_IRQS := by omega
  have hfull : ¬s.nextVirqBase ≥ MAX_IRQS - irqCount := by omega
  simp only [registerController]
  rw [bind_ok get_apply, if_neg hroot, if_neg hcount, bind_ok get_apply, if_neg hfull,
    bind_ok modifyGet_apply, hset]
  cases hisRoot : isRootController node with
  | true =>
      have hnone : s.rootController = none := by simpa [hisRoot] using hroot
      refine .inl ⟨rfl, hnone, ?_⟩
      simp only [if_true]
      rw [bind_ok get_apply, if_neg (by simp [hnone])]
      rfl
  | false =>
      have hsome : s.rootController.isSome := by
        simpa [hisRoot, Option.isSome_iff_ne_none] using hroot
      exact .inr ⟨rfl, hsome, rfl⟩

/-- What `registerController` does: it stops before it takes a range, it stops
after it has taken one, or it adds the domain. -/
theorem registerController_cases (node : NodePtr) (controller : C) (irqCount : Nat)
    (s : State C H) :
    (∃ stop, registerController node controller irqCount s = .error stop s) ∨
    s.nextVirqBase + irqCount < MAX_IRQS ∧
      ((∃ e, registerController node controller irqCount s =
          .error (.err e) { s with nextVirqBase := s.nextVirqBase + irqCount }) ∨
        ∃ controller', InterruptController.setVirqBase controller s.nextVirqBase =
            .ok controller' ∧
          ((isRootController node = true ∧ s.rootController = none ∧
            registerController node controller irqCount s = .ok controller' { s with
              nextVirqBase := s.nextVirqBase + irqCount
              rootController := some ⟨node.addr, controller', s.nextVirqBase, irqCount⟩ }) ∨
          (isRootController node = false ∧ s.rootController.isSome ∧
            registerController node controller irqCount s = .ok controller' { s with
              nextVirqBase := s.nextVirqBase + irqCount
              controllers := s.controllers ++
                [⟨node.addr, controller', s.nextVirqBase, irqCount⟩] }))) := by
  by_cases hrefused : isRootController node = s.rootController.isSome ∨
      MAX_IRQS ≤ s.nextVirqBase + irqCount
  · obtain ⟨stop, hstop, -⟩ := registerController_refused hrefused
    exact .inl ⟨stop, hstop⟩
  obtain ⟨hroot, hle⟩ := not_or.mp hrefused
  refine .inr ⟨Nat.lt_of_not_le hle, ?_⟩
  cases hset : InterruptController.setVirqBase controller s.nextVirqBase with
  | error e => exact .inl ⟨e, registerController_leaks hroot (Nat.lt_of_not_le hle) hset⟩
  | ok controller' =>
      exact .inr ⟨controller', rfl,
        registerController_accepts hroot (Nat.lt_of_not_le hle) hset⟩

/-- A registration that fails adds no domain. -/
theorem registerController_error {node : NodePtr} {controller : C} {irqCount : Nat}
    {s t : State C H} {stop : Stop}
    (h : registerController node controller irqCount s = .error stop t) :
    t.rootController = s.rootController ∧ t.controllers = s.controllers ∧
      t.globalHandlers = s.globalHandlers := by
  rcases registerController_cases node controller irqCount s with
    ⟨stop, heq⟩ | ⟨-, ⟨e, heq⟩ | ⟨controller', -, ⟨-, -, heq⟩ | ⟨-, -, heq⟩⟩⟩
  · rw [heq] at h
    cases h
    exact ⟨rfl, rfl, rfl⟩
  · rw [heq] at h
    cases h
    exact ⟨rfl, rfl, rfl⟩
  · rw [heq] at h
    cases h
  · rw [heq] at h
    cases h

/-- A registration that succeeds adds a domain at the end: the root is the first one. -/
theorem registerController_ok {node : NodePtr} {controller controller' : C} {irqCount : Nat}
    {s t : State C H} (hroot : s.rootController = none → s.controllers = [])
    (h : registerController node controller irqCount s = .ok controller' t) :
    t.domains = s.domains ++ [⟨node.addr, controller', s.nextVirqBase, irqCount⟩] ∧
      t.globalHandlers = s.globalHandlers ∧ t.rootController.isSome ∧
      InterruptController.setVirqBase controller s.nextVirqBase = .ok controller' := by
  rcases registerController_cases node controller irqCount s with
    ⟨stop, heq⟩ | ⟨-, ⟨e, heq⟩ | ⟨controller', hset, ⟨-, hnone, heq⟩ | ⟨-, hsome, heq⟩⟩⟩
  · rw [heq] at h
    cases h
  · rw [heq] at h
    cases h
  · rw [heq] at h
    cases h
    refine ⟨?_, rfl, rfl, hset⟩
    simp [State.domains, hnone, hroot hnone]
  · rw [heq] at h
    cases h
    refine ⟨?_, rfl, hsome, hset⟩
    simp [State.domains]

/-- A controller that is registered, and one that is not, as one step. -/
structure Register (C : Type) where
  node : NodePtr
  controller : C
  irqCount : Nat

/-- A registration, successful or refused. -/
def step (s : State C H) (e : Register C) : Option (State C H) :=
  match registerController e.node e.controller e.irqCount s with
  | .ok _ t => some t
  | .error (.err _) t => some t
  | .error (.panic _) _ => none

/-- The ranges lie below the next base and do not overlap. -/
structure Ranged (s : State C H) : Prop where
  below : ∀ d ∈ s.domains, d.virqBase + d.irqCount ≤ s.nextVirqBase
  apart : s.domains.Pairwise IrqDomain.Apart
  bound : s.nextVirqBase < MAX_IRQS

omit [InterruptController C] in
/-- A range that starts at the next base can be added anywhere. -/
theorem Ranged.insert {s t : State C H} {d : IrqDomain C} (h : Ranged s)
    (pre post : List (IrqDomain C)) (hs : s.domains = pre ++ post) (ht : t.domains = pre ++ d :: post)
    (hbase : d.virqBase = s.nextVirqBase) (hnext : t.nextVirqBase = s.nextVirqBase + d.irqCount)
    (hbound : t.nextVirqBase < MAX_IRQS) : Ranged t := by
  have hbelow := h.below
  have hapart := h.apart
  simp only [hs, List.mem_append, List.pairwise_append] at hbelow hapart
  refine ⟨fun e he => ?_, ?_, hbound⟩
  · rw [ht, List.mem_append, List.mem_cons] at he
    rcases he with he | rfl | he
    · have hle := hbelow e (.inl he)
      omega
    · omega
    · have hle := hbelow e (.inr he)
      omega
  · rw [ht, List.pairwise_append, List.pairwise_cons]
    refine ⟨hapart.1, ⟨fun e he => .inr ?_, hapart.2.1⟩, fun e he f hf => ?_⟩
    · rw [hbase]
      exact hbelow e (.inr he)
    · rcases List.mem_cons.mp hf with rfl | hf
      · left
        rw [hbase]
        exact hbelow e (.inl he)
      · exact hapart.2.2 e he f hf

omit [InterruptController C] in
theorem Ranged.congr {s t : State C H} (h : Ranged s) (hnext : t.nextVirqBase = s.nextVirqBase)
    (hroot : t.rootController = s.rootController) (hcontrollers : t.controllers = s.controllers) :
    Ranged t := by
  obtain ⟨hbelow, hapart, hbound⟩ := h
  refine ⟨?_, ?_, by omega⟩
  · rw [State.domains, hroot, hcontrollers, hnext]
    exact hbelow
  · rw [State.domains, hroot, hcontrollers]
    exact hapart

theorem Ranged.registerController {s : State C H} (h : Ranged s) (node : NodePtr) (controller : C)
    (irqCount : Nat) :
    (∀ c t, Irq.registerController node controller irqCount s = .ok c t → Ranged t) ∧
      ∀ stop t, Irq.registerController node controller irqCount s = .error stop t → Ranged t := by
  rcases registerController_cases node controller irqCount s with
    ⟨stop, heq⟩ | ⟨hlt, ⟨e, heq⟩ | ⟨controller', -, ⟨-, hnone, heq⟩ | ⟨-, -, heq⟩⟩⟩
  · rw [heq]
    refine ⟨fun c t ht => (by cases ht), fun stop t ht => ?_⟩
    cases ht
    exact h
  · rw [heq]
    refine ⟨fun c t ht => (by cases ht), fun stop t ht => ?_⟩
    cases ht
    exact ⟨fun d hd => Nat.le_trans (h.below d hd) (Nat.le_add_right _ _), h.apart, hlt⟩
  · rw [heq]
    refine ⟨fun c t ht => ?_, fun stop t ht => (by cases ht)⟩
    cases ht
    exact h.insert [] s.controllers (by simp [State.domains, hnone]) (by simp [State.domains]; rfl)
      rfl rfl hlt
  · rw [heq]
    refine ⟨fun c t ht => ?_, fun stop t ht => (by cases ht)⟩
    cases ht
    exact h.insert s.domains [] (by simp) (by simp [State.domains]; rfl) rfl rfl hlt

theorem ranged_step {s t : State C H} {e : Register C} (h : Ranged s) (hst : step s e = some t) :
    Ranged t := by
  obtain ⟨hok, herr⟩ := h.registerController e.node e.controller e.irqCount
  simp only [step] at hst
  split at hst
  · rename_i heq
    cases hst
    exact hok _ t heq
  · rename_i heq
    cases hst
    exact herr _ t heq
  · cases hst

/-- The states that calls of `register_controller` reach. -/
abbrev Registered (s : State C H) : Prop :=
  Reachable (fun s => s = State.new)
    (Step step fun _ (e : Register C) => 1 ≤ e.irqCount ∧ e.irqCount ≤ MAX_IRQS) s

theorem registered_ranged {s : State C H} (h : Registered s) : Ranged s := by
  refine h.invariant ?_ fun s t _ hs hst => ?_
  · rintro s rfl
    exact ⟨by simp [State.new, State.domains], by simp [State.new, State.domains],
      by simp [State.new, MAX_IRQS]⟩
  · obtain ⟨e, -, ht⟩ := hst
    exact ranged_step hs ht

omit [InterruptController C] in
/-- An interrupt in a domain's range is found in that domain. -/
theorem Ranged.find_domain {s : State C H} (h : Ranged s) {d : IrqDomain C} (hd : d ∈ s.domains)
    (virq : Nat) (hvirq : d.Contains virq) :
    s.domains.find? (fun d => d.Contains virq) = some d := by
  have hsome : (s.domains.find? fun d => d.Contains virq).isSome := by
    rw [List.find?_isSome]
    exact ⟨d, hd, decide_eq_true hvirq⟩
  obtain ⟨f, hf⟩ := Option.isSome_iff_exists.mp hsome
  have hcontains : f.Contains virq := of_decide_eq_true (List.find?_some hf :)
  rw [hf]
  congr 1
  by_contra hne
  have hapart := h.apart.forall (List.mem_of_find?_eq_some hf) hd hne
  simp only [IrqDomain.Apart] at hapart
  simp only [IrqDomain.Contains] at hcontains hvirq
  omega

omit [InterruptController C] in
/-- An interrupt in a range is enabled at the domain's controller. -/
theorem Ranged.enableIrq {s : State C H} (h : Ranged s) {d : IrqDomain C} (hd : d ∈ s.domains)
    (virq : Nat) (hvirq : d.Contains virq) : Irq.enableIrq virq s =
      .ok () { s with enabled := s.enabled ++ [(d.controller, virq - d.virqBase)] } := by
  rw [Irq.enableIrq, bind_ok get_apply, h.find_domain hd virq hvirq]
  rfl

/-- The ranges of the domains do not overlap and lie below `MAX_IRQS`, and an
interrupt in a range is enabled at the controller of that range and nowhere else. -/
structure Routed (s : State C H) : Prop where
  apart : s.domains.Pairwise IrqDomain.Apart
  bound : ∀ d ∈ s.domains, d.virqBase + d.irqCount ≤ MAX_IRQS
  enable : ∀ d ∈ s.domains, ∀ hwirq < d.irqCount, enableIrq (d.virqBase + hwirq) s =
    .ok () { s with enabled := s.enabled ++ [(d.controller, hwirq)] }

/-- Whatever controllers are registered, and whichever of them fail. -/
theorem registered_routed (s : State C H) (h : Registered s) : Routed s := by
  have hr := registered_ranged h
  refine ⟨hr.apart, fun d hd => Nat.le_trans (hr.below d hd) (Nat.le_of_lt hr.bound),
    fun d hd hwirq hlt => ?_⟩
  have henable := hr.enableIrq hd (d.virqBase + hwirq)
    ⟨Nat.le_add_right _ _, Nat.add_lt_add_left hlt _⟩
  rw [Nat.add_sub_cancel_left] at henable
  exact henable

/-- A root controller, a controller that refuses its base and one below the root. -/
theorem registered_routed_two :
    let _ : InterruptController Bool :=
      ⟨fun accepts _ => if accepts then .ok true else .error .invalidVirq, fun _ _ => .ok 0⟩
    ∃ s : State Bool Unit, s.domains.map IrqDomain.virqBase = [0, 84] ∧ Routed s := by
  intro inst
  let intc : Node :=
    ⟨"local_intc", [⟨"interrupt-controller", .interrupts .interruptController, rfl⟩], []⟩
  refine ⟨_, ?_, registered_routed _ ⟨State.new, rfl, reflTransGen_of_run
    [⟨⟨intc, [], []⟩, true, 12⟩, ⟨⟨intc, [intc], [0]⟩, false, 72⟩, ⟨⟨intc, [intc], [0]⟩, true, 72⟩]
    rfl⟩⟩
  rfl

/-- The node is in place: it is the root and there is none, or it is not and there is one. The
range fits, and the controller takes its base. -/
def Admissible (node : NodePtr) (controller : C) (irqCount : Nat) (s : State C H) : Prop :=
  ¬isRootController node = s.rootController.isSome ∧ s.nextVirqBase + irqCount ≤ MAX_IRQS ∧
    ∃ controller', InterruptController.setVirqBase controller s.nextVirqBase = .ok controller'

/-- A controller is registered exactly when it is admissible, and a registration that fails
returns an error and leaves the room it found. -/
structure Registers (node : NodePtr) (controller : C) (irqCount : Nat) (s : State C H) :
    Prop where
  ok : (∃ controller' t, registerController node controller irqCount s = .ok controller' t) ↔
    Admissible node controller irqCount s
  error : ∀ stop t, registerController node controller irqCount s = .error stop t →
    (∃ e, stop = .err e) ∧ t.nextVirqBase = s.nextVirqBase ∧
      t.rootController = s.rootController ∧ t.controllers = s.controllers

/-- The range does not end at the last interrupt, and a controller that refuses its base has
asked for no range, or for one that does not fit. -/
def Roomy (controller : C) (irqCount : Nat) (s : State C H) : Prop :=
  match InterruptController.setVirqBase controller s.nextVirqBase with
  | .ok _ => s.nextVirqBase + irqCount ≠ MAX_IRQS
  | .error _ => irqCount = 0 ∨ MAX_IRQS ≤ s.nextVirqBase + irqCount

theorem registers_of_error {node : NodePtr} {controller : C} {irqCount : Nat} {s t : State C H}
    {stop : Stop} (h : registerController node controller irqCount s = .error stop t) :
    Registers node controller irqCount s ↔ ¬Admissible node controller irqCount s ∧
      (∃ e, stop = .err e) ∧ t.nextVirqBase = s.nextVirqBase ∧
        t.rootController = s.rootController ∧ t.controllers = s.controllers := by
  constructor
  · rintro ⟨hok, herror⟩
    refine ⟨fun hadm => ?_, herror stop t h⟩
    obtain ⟨controller', u, hu⟩ := hok.mpr hadm
    rw [h] at hu
    cases hu
  · rintro ⟨hadm, hkept⟩
    refine ⟨⟨?_, fun hadm' => absurd hadm' hadm⟩, fun stop' u hu => ?_⟩
    · rintro ⟨controller', u, hu⟩
      rw [h] at hu
      cases hu
    · rw [h] at hu
      cases hu
      exact hkept

theorem registers_of_ok {node : NodePtr} {controller controller' : C} {irqCount : Nat}
    {s t : State C H} (h : registerController node controller irqCount s = .ok controller' t)
    (hadm : Admissible node controller irqCount s) : Registers node controller irqCount s := by
  refine ⟨⟨fun _ => hadm, fun _ => ⟨controller', t, h⟩⟩, fun stop u hu => ?_⟩
  rw [h] at hu
  cases hu

/-- A registration keeps its promise apart from the exact fit and from the base that is refused. -/
theorem registerController_registers_iff {node : NodePtr} {controller : C} {irqCount : Nat}
    (s : State C H) (hcount : irqCount ≤ MAX_IRQS) :
    Registers node controller irqCount s ↔
      (¬isRootController node = s.rootController.isSome → Roomy controller irqCount s) := by
  rw [Roomy]
  by_cases hrefused : isRootController node = s.rootController.isSome ∨
      MAX_IRQS ≤ s.nextVirqBase + irqCount
  · obtain ⟨stop, hstop, herr⟩ :
        ∃ stop, registerController node controller irqCount s = .error stop s ∧ _ :=
      registerController_refused hrefused
    rw [registers_of_error hstop]
    simp only [herr hcount, and_true, Admissible]
    cases InterruptController.setVirqBase controller s.nextVirqBase with
    | error e =>
        simp only [reduceCtorEq, exists_false, and_false, not_false_eq_true, true_iff]
        exact fun hroot => .inr (hrefused.resolve_left hroot)
    | ok controller' =>
        simp only [Except.ok.injEq, exists_eq', and_true, not_and, ne_eq]
        refine forall_congr' fun hroot => ?_
        have hle := hrefused.resolve_left hroot
        omega
  · obtain ⟨hroot, hle⟩ := not_or.mp hrefused
    have hlt := Nat.lt_of_not_le hle
    cases hset : InterruptController.setVirqBase controller s.nextVirqBase with
    | error e =>
        rw [registers_of_error (registerController_leaks hroot hlt hset)]
        simp only [Admissible, hset, hroot, reduceCtorEq, exists_false, and_false,
          not_false_eq_true, true_and, and_true, forall_const, Stop.err.injEq, exists_eq']
        omega
    | ok controller' =>
        have hadm : Admissible node controller irqCount s :=
          ⟨hroot, Nat.le_of_lt hlt, controller', hset⟩
        have hregisters : Registers node controller irqCount s := by
          rcases registerController_accepts hroot hlt hset with ⟨-, -, heq⟩ | ⟨-, -, heq⟩
          · exact registers_of_ok heq hadm
          · exact registers_of_ok heq hadm
        exact ⟨fun _ _ => Nat.ne_of_lt hlt, fun _ => hregisters⟩

/-- A second controller behind a root controller of twelve lines. -/
theorem registerController_registers_second :
    let _ : InterruptController Bool :=
      ⟨fun accepts _ => if accepts then .ok true else .error .invalidVirq, fun _ _ => .ok 0⟩
    let intc : Node :=
      ⟨"local_intc", [⟨"interrupt-controller", .interrupts .interruptController, rfl⟩], []⟩
    ∃ s : State Bool Unit, s.nextVirqBase = 12 ∧ Registers ⟨intc, [intc], [0]⟩ true 72 s := by
  intro inst intc
  let s : State Bool Unit := ⟨12, some ⟨[], true, 0, 12⟩, [], [], []⟩
  refine ⟨s, rfl, (registerController_registers_iff s (by decide)).mpr fun _ => ?_⟩
  change 12 + 72 ≠ 256
  decide

/-- The lines that are left are not enough for a controller with exactly as many lines. -/
theorem exact_fit_not_registers :
    let _ : InterruptController Bool :=
      ⟨fun accepts _ => if accepts then .ok true else .error .invalidVirq, fun _ _ => .ok 0⟩
    ¬ ∀ (node : NodePtr) (controller : Bool) (irqCount : Nat) (s : State Bool Unit), Registered s →
      irqCount ≤ MAX_IRQS → Registers node controller irqCount s := by
  intro inst hall
  let intc : Node :=
    ⟨"local_intc", [⟨"interrupt-controller", .interrupts .interruptController, rfl⟩], []⟩
  let s : State Bool Unit := ⟨12, some ⟨[], true, 0, 12⟩, [], [], []⟩
  have hreach : Registered s := ⟨State.new, rfl, reflTransGen_of_run [⟨⟨intc, [], []⟩, true, 12⟩] rfl⟩
  have hregisters := hall ⟨intc, [intc], [0]⟩ true 244 s hreach (by decide)
  have hadm : Admissible ⟨intc, [intc], [0]⟩ true 244 s := ⟨by decide, by decide, true, rfl⟩
  obtain ⟨controller', t, hok⟩ := hregisters.ok.mpr hadm
  cases hok

end Kruspix.Kernel.Irq
