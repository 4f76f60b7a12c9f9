import Kruspix.Kernel.Irq
import Mathlib.Tactic.SplitIfs

/-!
# Bringing up the interrupt controllers

A driver is tried on every node it matches, in any order, until no node can be
tried with success. Each try makes a new device. The ARM control logic driver
registers its device first and asks for the line to its parent after that, and a
try that fails in between is made again later, with another device.
-/

namespace Kruspix.Drivers.InterruptController

open Kernel.Devicetree Kernel.Irq Lib.Result Lib.Transition

/-- The device objects of the two drivers. `id` tells the objects apart. -/
inductive ControllerDevice
  | l1Intc (id : Nat)
  | armctrl (id : Nat) (virqBase : Option Nat)
  deriving DecidableEq, Repr

/-- The handlers in the table: a device of the ARM control logic, or any other. -/
inductive Handler
  | controller (device : ControllerDevice)
  | other
  deriving DecidableEq, Repr

/-- `COUNT` of the one driver and `HWIRQ_COUNT` of the other. -/
def ControllerDevice.hwirqCount : ControllerDevice → Nat
  | .l1Intc _ => 12
  | .armctrl _ _ => 72

/-- The base is kept in a `OnceLock`. The other driver does not keep one. -/
def ControllerDevice.setVirqBase : ControllerDevice → Nat → Except IrqError ControllerDevice
  | .l1Intc id, _ => .ok (.l1Intc id)
  | .armctrl id none, virqBase => .ok (.armctrl id (some virqBase))
  | .armctrl _ (some _), _ => .error .invalidVirq

def HWIRQ_BASIC_RANGE_END : Nat := 7
def HWIRQ_1_RANGE_START : Nat := 8
def HWIRQ_1_RANGE_END : Nat := 39
def HWIRQ_2_RANGE_START : Nat := 40
def HWIRQ_2_RANGE_END : Nat := 71

/-- A line of bank 1 or 2, whose lines start at `first`. -/
def bankLine (intNum first last : Nat) : Except Stop Nat :=
  if intNum + first ≥ 2 ^ 32 then .error (.panic .overflow)
  else if intNum + first > last then .error (.err .translationFailed)
  else .ok (intNum + first)

/-- The line of a specifier: one of the twelve of the core, or a bank and a number. -/
def ControllerDevice.xlate : ControllerDevice → List Nat → Except Stop Nat
  | .l1Intc _, hwirq :: _ =>
      if hwirq < 12 then .ok hwirq else .error (.err .translationFailed)
  | .armctrl _ _, bank :: intNum :: _ =>
      match bank with
      | 0 =>
          if intNum > HWIRQ_BASIC_RANGE_END then .error (.err .translationFailed) else .ok intNum
      | 1 => bankLine intNum HWIRQ_1_RANGE_START HWIRQ_1_RANGE_END
      | 2 => bankLine intNum HWIRQ_2_RANGE_START HWIRQ_2_RANGE_END
      | _ => .error (.err .translationFailed)
  | _, _ => .error (.err .translationFailed)

instance : InterruptController ControllerDevice where
  setVirqBase := ControllerDevice.setVirqBase
  xlate := ControllerDevice.xlate

/-- The handler that `handle_irq` of the device calls for a pending line. -/
def ControllerDevice.dispatch (device : ControllerDevice) (s : State ControllerDevice Handler)
    (hwirq : Nat) : Option Handler :=
  match device with
  | .armctrl _ (some virqBase) => s.dispatchIrq (virqBase + hwirq)
  | _ => none

/-- The drivers, each by the one string it is compatible with. -/
def PLATFORM_DRIVERS : List String :=
  ["brcm,bcm2836-l1-intc", "brcm,bcm2836-armctrl-ic", "fixed-clock", "brcm,bcm2835-aux",
    "arm,armv7-timer", "brcm,bcm2835-system-timer", "brcm,bcm2835-pm-wdt", "brcm,bcm2835-rng",
    "brcm,bcm2835-aux-uart", "brcm,bcm2835-mbox", "raspberrypi,bcm2835-firmware",
    "brcm,bcm2835-dma", "brcm,bcm2708-fb", "brcm,bcm2708-usb"]

/-- The first platform driver that the node is compatible with. -/
def matchDriver (node : Node) : Option String :=
  node.compatible.bind fun compatibleList => compatibleList.find? (· ∈ PLATFORM_DRIVERS)

/-- The errors of the drivers of the controllers. -/
inductive DriverInitError
  | retry
  | deviceTreeError
  deriving DecidableEq, Repr

/-- The statics of `irq` with the number of devices made, the nodes that are to
be tried and those that a controller driver has brought up. -/
structure System where
  irq : State ControllerDevice Handler
  devices : Nat
  uninitializedDeviceNodes : List NodePtr
  initialized : List NodePtr

/-- The nodes `init_platform_drivers` starts with. -/
def deviceNodes (dt : DeviceTree) : List NodePtr :=
  dt.nodes.filter fun ptr =>
    ptr.node.compatible.isSome && (ptr.node.status.isNone || ptr.node.status == some .okay)

/-- Nothing is initialized. -/
def System.new (dt : DeviceTree) : System := ⟨State.new, 0, deviceNodes dt, []⟩

/-- Why a driver gives up on a node. An error of `irq` makes it ask for another try. -/
inductive Failure
  | panic (fault : Fault)
  | error (error : DriverInitError)
  deriving DecidableEq, Repr

/-- Drivers change the interrupt subsystem and may fail. -/
abbrev InitM := EStateM Failure (State ControllerDevice Handler)

/-- `map_err(|_| DriverInitError::Retry)`. -/
def orRetry {α : Type} (x : IrqM ControllerDevice Handler α) : InitM α := fun s =>
  match x s with
  | .ok a t => .ok a t
  | .error (.err _) t => .error (.error .retry) t
  | .error (.panic fault) t => .error (.panic fault) t

/-- The checks both drivers make before they map the registers. -/
def checkNode (ptr : NodePtr) : Except Failure Unit :=
  if !ptr.node.isInterruptController then .error (.error .deviceTreeError)
  else if ptr.node.interruptCells ≠ some 2 then .error (.error .deviceTreeError)
  else if ptr.node.reg.map List.length ≠ some 1 then .error (.error .deviceTreeError)
  else
    match ptr.resolvePhysAddressAndLength 0 with
    | .error fault => .error (.panic fault)
    | .ok none => .error (.error .deviceTreeError)
    | .ok (some _) => .ok ()

/-- The node is connected to an interrupt parent. -/
def hasParentLine (ptr : NodePtr) : Bool :=
  ptr.node.interrupts.isSome || ptr.node.interruptsExtended.isSome

/-- `try_init` of the root controller's driver. -/
def l1IntcTryInit (id : Nat) (ptr : NodePtr) : InitM Unit := do
  ofExcept (checkNode ptr)
  let device := ControllerDevice.l1Intc id
  let _ ← orRetry (registerController ptr device device.hwirqCount)

/-- `try_init` of the ARM control logic driver. -/
def armctrlTryInit (dt : DeviceTree) (id : Nat) (ptr : NodePtr) : InitM Unit := do
  ofExcept (checkNode ptr)
  let device := ControllerDevice.armctrl id none
  let device ← orRetry (registerController ptr device device.hwirqCount)
  if hasParentLine ptr then
    let parentVirq ← orRetry (resolveVirq dt ptr 0)
    orRetry (registerHandler parentVirq (.controller device))
    orRetry (enableIrq parentVirq)

/-- `try_init` of the driver of the node, for the controller drivers. -/
def tryInit? (dt : DeviceTree) (id : Nat) (ptr : NodePtr) : Option (InitM Unit) :=
  match matchDriver ptr.node with
  | some "brcm,bcm2836-l1-intc" => some (l1IntcTryInit id ptr)
  | some "brcm,bcm2836-armctrl-ic" => some (armctrlTryInit dt id ptr)
  | _ => none

/-- A controller's node is tried, or another driver registers a handler. -/
inductive Event
  | tryInit (index : Nat)
  | registerHandler (virq : Nat)

/-- The node is done with, except when the driver asks for another try. -/
def step (dt : DeviceTree) (s : System) : Event → Option System
  | .tryInit index =>
      match s.uninitializedDeviceNodes[index]? with
      | none => none
      | some ptr =>
          match tryInit? dt s.devices ptr with
          | none => none
          | some tryInit =>
              match tryInit s.irq with
              | .ok _ irq => some ⟨irq, s.devices + 1, s.uninitializedDeviceNodes.eraseIdx index,
                  ptr :: s.initialized⟩
              | .error (.error .retry) irq => some { s with irq := irq, devices := s.devices + 1 }
              | .error (.error .deviceTreeError) irq => some
                  { s with
                    irq := irq
                    uninitializedDeviceNodes := s.uninitializedDeviceNodes.eraseIdx index }
              | .error (.panic _) _ => none
  | .registerHandler virq =>
      match registerHandler virq .other s.irq with
      | .ok _ irq => some { s with irq := irq }
      | .error _ irq => some { s with irq := irq }

/-- An ARM control logic that is registered now gets its line to the parent as
well: the parent is registered, its specifier is valid and the line is free. -/
def parentReady (dt : DeviceTree) (s : System) (ptr : NodePtr) : Bool :=
  let device := ControllerDevice.armctrl s.devices none
  match registerController ptr device device.hwirqCount s.irq with
  | .error _ _ => true
  | .ok _ irq =>
      !hasParentLine ptr ||
        match resolveVirq dt ptr 0 irq with
        | .error _ _ => false
        | .ok parentVirq _ => (irq.globalHandlers.lookup parentVirq).isNone

/-- The control logic is not tried before its parent is there. -/
def Ordered (dt : DeviceTree) (s : System) : Event → Prop
  | .tryInit index => ∀ ptr ∈ s.uninitializedDeviceNodes[index]?,
      matchDriver ptr.node = some "brcm,bcm2836-armctrl-ic" → parentReady dt s ptr = true
  | .registerHandler _ => True

instance (dt : DeviceTree) (s : System) (e : Event) : Decidable (Ordered dt s e) :=
  match e with
  | .tryInit index => inferInstanceAs (Decidable (∀ ptr ∈ s.uninitializedDeviceNodes[index]?,
      matchDriver ptr.node = some "brcm,bcm2836-armctrl-ic" → parentReady dt s ptr = true))
  | .registerHandler _ => isTrue trivial

/-- A controller that has been brought up routes the lines of its devices: the
device whose handler is on the line to the parent is the one in whose range the
line of a child is. -/
def Routed (dt : DeviceTree) (s : System) (ptr : NodePtr) : Prop :=
  ∀ child index ctl specifier virq, resolveLine dt child index = .ok (ctl, specifier) →
    ctl.addr = ptr.addr → resolveVirq dt child index s.irq = .ok virq s.irq →
    ∃ line id virqBase hwirq, resolveVirq dt ptr 0 s.irq = .ok line s.irq ∧
      let device := ControllerDevice.armctrl id (some virqBase)
      s.irq.globalHandlers.lookup line = some (.controller device) ∧
      virqBase ≤ virq ∧ virq < virqBase + device.hwirqCount ∧
      device.xlate specifier = .ok hwirq ∧ device.dispatch s.irq hwirq = s.irq.dispatchIrq virq

/-- The domains belong to different nodes, and every second controller is routed. -/
structure Sound (dt : DeviceTree) (s : System) : Prop where
  unique : (s.irq.domains.map IrqDomain.nodeAddr).Nodup
  routed : ∀ ptr ∈ s.initialized, matchDriver ptr.node = some "brcm,bcm2836-armctrl-ic" →
    hasParentLine ptr → Routed dt s ptr

theorem xlate_lt {device : ControllerDevice} {specifier : List Nat} {hwirq : Nat}
    (h : device.xlate specifier = .ok hwirq) : hwirq < device.hwirqCount := by
  cases device with
  | l1Intc id =>
      cases specifier with
      | nil => cases h
      | cons line rest =>
          simp only [ControllerDevice.xlate] at h
          split_ifs at h with hlt
          cases h
          exact hlt
  | armctrl id virqBase =>
      rcases specifier with - | ⟨bank, - | ⟨intNum, rest⟩⟩
      · cases h
      · cases h
      · have hbank {first last : Nat} (hlast : last < 72) (hb : bankLine intNum first last =
            .ok hwirq) : hwirq < 72 := by
          simp only [bankLine] at hb
          split_ifs at hb
          cases hb
          omega
        simp only [ControllerDevice.xlate] at h
        split at h
        · split_ifs at h
          cases h
          simp only [HWIRQ_BASIC_RANGE_END, ControllerDevice.hwirqCount] at *
          omega
        · exact hbank (by decide) h
        · exact hbank (by decide) h
        · cases h

/-- The node has a domain whose device is the handler of the line to the parent. -/
def Wired (dt : DeviceTree) (irq : State ControllerDevice Handler) (ptr : NodePtr) : Prop :=
  ∃ d ∈ irq.domains, d.nodeAddr = ptr.addr ∧
    (∃ id, d.controller = .armctrl id (some d.virqBase)) ∧
    ∃ line, resolveVirq dt ptr 0 irq = .ok line irq ∧
      irq.globalHandlers.lookup line = some (.controller d.controller)

/-- The invariant of the bring-up. A node that is still to be tried has no domain. -/
structure Inv (dt : DeviceTree) (s : System) : Prop where
  ranged : Ranged s.irq
  root : s.irq.rootController = none → s.irq.controllers = []
  counts : ∀ d ∈ s.irq.domains, d.irqCount = d.controller.hwirqCount
  unique : (s.irq.domains.map IrqDomain.nodeAddr).Nodup
  nodes : (s.uninitializedDeviceNodes.map NodePtr.addr).Nodup
  fresh : ∀ d ∈ s.irq.domains, d.nodeAddr ∉ s.uninitializedDeviceNodes.map NodePtr.addr
  wired : ∀ ptr ∈ s.initialized, matchDriver ptr.node = some "brcm,bcm2836-armctrl-ic" →
    hasParentLine ptr → Wired dt s.irq ptr

variable {dt : DeviceTree} {irq irq' : State ControllerDevice Handler}

theorem resolveVirq_mono {ptr : NodePtr} {index virq : Nat}
    {l : List (IrqDomain ControllerDevice)} (hdomains : irq'.domains = irq.domains ++ l)
    (h : resolveVirq dt ptr index irq = .ok virq irq) :
    resolveVirq dt ptr index irq' = .ok virq irq' := by
  rw [resolveVirq_eq_ok] at h ⊢
  obtain ⟨-, ctl, specifier, d, hwirq, hline, hfind, hx, rfl⟩ := h
  refine ⟨rfl, ctl, specifier, d, hwirq, hline, ?_, hx, rfl⟩
  rw [hdomains, List.find?_append, hfind]
  rfl

/-- New domains come last and no handler is replaced, so wires stay. -/
theorem Wired.mono {ptr : NodePtr} {l : List (IrqDomain ControllerDevice)}
    (h : Wired dt irq ptr) (hdomains : irq'.domains = irq.domains ++ l)
    (hhandlers : ∀ virq handler, irq.globalHandlers.lookup virq = some handler →
      irq'.globalHandlers.lookup virq = some handler) : Wired dt irq' ptr := by
  obtain ⟨d, hd, haddr, hid, line, hline, hhandler⟩ := h
  refine ⟨d, ?_, haddr, hid, line, resolveVirq_mono hdomains hline, hhandlers line _ hhandler⟩
  rw [hdomains]
  exact List.mem_append_left l hd

/-- The wires of an initialized node route the lines of its children. -/
theorem Inv.sound {s : System} (h : Inv dt s) : Sound dt s := by
  refine ⟨h.unique, fun ptr hptr hdriver hline child index ctl specifier virq hres haddr hv => ?_⟩
  obtain ⟨d, hd, hnode, ⟨id, hcontroller⟩, line, hparent, hhandler⟩ := h.wired ptr hptr hdriver hline
  rw [resolveVirq_eq_ok] at hv
  obtain ⟨-, ctl', specifier', e, hwirq, hres', hfind, hx, rfl⟩ := hv
  rw [hres] at hres'
  cases hres'
  have hed : e = d := by
    have heq : e.nodeAddr = d.nodeAddr := by
      have hfound := List.find?_some hfind
      rw [beq_iff_eq] at hfound
      rw [hfound, haddr, hnode]
    exact List.inj_on_of_nodup_map h.unique (List.mem_of_find?_eq_some hfind) hd heq
  subst hed
  rw [hcontroller] at hx hhandler
  have hlt := xlate_lt hx
  refine ⟨line, id, e.virqBase, hwirq, hparent, hhandler, by omega, ?_, hx, rfl⟩
  omega

/-- The invariant when neither domains nor nodes are added and handlers stay. -/
theorem Inv.congr {s t : System} (h : Inv dt s) (hranged : Ranged t.irq)
    (hroot : t.irq.rootController = s.irq.rootController)
    (hcontrollers : t.irq.controllers = s.irq.controllers)
    (hhandlers : ∀ virq handler, s.irq.globalHandlers.lookup virq = some handler →
      t.irq.globalHandlers.lookup virq = some handler)
    (hnodes : t.uninitializedDeviceNodes.Sublist s.uninitializedDeviceNodes)
    (hinit : t.initialized = s.initialized) : Inv dt t := by
  have hdomains : t.irq.domains = s.irq.domains := by
    rw [State.domains, State.domains, hroot, hcontrollers]
  refine ⟨hranged, ?_, ?_, ?_, ?_, ?_, ?_⟩
  · rw [hroot, hcontrollers]
    exact h.root
  · rw [hdomains]
    exact h.counts
  · rw [hdomains]
    exact h.unique
  · exact h.nodes.sublist (hnodes.map _)
  · rw [hdomains]
    exact fun d hd hmem => h.fresh d hd ((hnodes.map _).subset hmem)
  · rw [hinit]
    intro ptr hptr hdriver hline
    refine (h.wired ptr hptr hdriver hline).mono (l := []) ?_ hhandlers
    rw [hdomains, List.append_nil]

/-- The invariant when a node has got its domain and, if it has one, its line. -/
theorem Inv.init {s t : System} {ptr : NodePtr} {index : Nat} {device : ControllerDevice}
    {virqBase : Nat} (h : Inv dt s) (hptr : s.uninitializedDeviceNodes[index]? = some ptr)
    (hranged : Ranged t.irq) (hroot : t.irq.rootController.isSome)
    (hdomains : t.irq.domains =
      s.irq.domains ++ [⟨ptr.addr, device, virqBase, device.hwirqCount⟩])
    (hhandlers : ∀ virq handler, s.irq.globalHandlers.lookup virq = some handler →
      t.irq.globalHandlers.lookup virq = some handler)
    (hnodes : t.uninitializedDeviceNodes = s.uninitializedDeviceNodes.eraseIdx index)
    (hinit : t.initialized = ptr :: s.initialized)
    (hwired : matchDriver ptr.node = some "brcm,bcm2836-armctrl-ic" → hasParentLine ptr →
      Wired dt t.irq ptr) : Inv dt t := by
  have hmem : ptr.addr ∈ s.uninitializedDeviceNodes.map NodePtr.addr :=
    List.mem_map_of_mem (List.mem_of_getElem? hptr)
  have hsub : t.uninitializedDeviceNodes.Sublist s.uninitializedDeviceNodes := by
    rw [hnodes]
    exact List.eraseIdx_sublist _ _
  have hgone : ptr.addr ∉ t.uninitializedDeviceNodes.map NodePtr.addr := by
    intro hin
    obtain ⟨p, hp, haddr⟩ := List.mem_map.mp hin
    rw [hnodes, List.mem_eraseIdx_iff_getElem?] at hp
    obtain ⟨j, hne, hj⟩ := hp
    obtain ⟨hlt, -⟩ := List.getElem?_eq_some_iff.mp hj
    refine hne ((List.getElem?_inj (by simpa using hlt) h.nodes).mp ?_)
    rw [List.getElem?_map, List.getElem?_map, hj, hptr, Option.map_some, Option.map_some, haddr]
  refine ⟨hranged, fun hnone => ?_, fun d hd => ?_, ?_, h.nodes.sublist (hsub.map _),
    fun d hd => ?_, fun p hp hdriver hline => ?_⟩
  · rw [hnone] at hroot
    cases hroot
  · rw [hdomains, List.mem_append, List.mem_singleton] at hd
    rcases hd with hd | rfl
    · exact h.counts d hd
    · rfl
  · rw [hdomains, List.map_append, List.nodup_append]
    refine ⟨h.unique, List.nodup_singleton _, fun a ha b hb hab => ?_⟩
    rw [List.map_singleton, List.mem_singleton] at hb
    obtain ⟨d, hd, rfl⟩ := List.mem_map.mp ha
    exact h.fresh d hd (by rw [hab, hb]; exact hmem)
  · rw [hdomains, List.mem_append, List.mem_singleton] at hd
    rcases hd with hd | rfl
    · exact fun hmem => h.fresh d hd ((hsub.map _).subset hmem)
    · exact hgone
  · rw [hinit, List.mem_cons] at hp
    rcases hp with rfl | hp
    · exact hwired hdriver hline
    · exact (h.wired p hp hdriver hline).mono hdomains hhandlers

theorem orRetry_ok {α : Type} {x : IrqM ControllerDevice Handler α} {a : α} :
    orRetry x irq = .ok a irq' ↔ x irq = .ok a irq' := by
  simp only [orRetry]
  split <;> rename_i heq <;> rw [heq] <;> simp

theorem orRetry_error {α : Type} {x : IrqM ControllerDevice Handler α} {e : Failure}
    (h : orRetry x irq = .error e irq') : ∃ stop, x irq = .error stop irq' := by
  simp only [orRetry] at h
  split at h <;> rename_i heq
  · cases h
  · cases h
    exact ⟨_, heq⟩
  · cases h
    exact ⟨_, heq⟩

/-- The controller drivers fail before they register, or when they register, or
they are done. -/
theorem l1IntcTryInit_cases (id : Nat) (ptr : NodePtr) :
    (∃ e irq', l1IntcTryInit id ptr irq = .error e irq' ∧ (irq' = irq ∨
      ∃ stop, registerController ptr (.l1Intc id) 12 irq = .error stop irq')) ∨
    ∃ device irq', registerController ptr (.l1Intc id) 12 irq = .ok device irq' ∧
      l1IntcTryInit id ptr irq = .ok () irq' := by
  cases hcheck : checkNode ptr with
  | error e =>
      refine .inl ⟨e, irq, ?_, .inl rfl⟩
      rw [l1IntcTryInit, hcheck, bind_error ofExcept_error]
  | ok u =>
      have hrun : l1IntcTryInit id ptr irq = (do
          let _ ← orRetry (registerController ptr (ControllerDevice.l1Intc id) 12)) irq := by
        rw [l1IntcTryInit, hcheck, bind_ok ofExcept_ok]
        rfl
      cases hreg : orRetry (registerController ptr (ControllerDevice.l1Intc id) 12) irq with
      | error e irq' =>
          rw [bind_error hreg] at hrun
          exact .inl ⟨e, irq', hrun, .inr (orRetry_error hreg)⟩
      | ok device irq' =>
          rw [bind_ok hreg] at hrun
          exact .inr ⟨device, irq', orRetry_ok.mp hreg, hrun⟩

/-- The line of a parent that is ready is in the range of its domain. -/
theorem parentReady_line {s : System} {ptr : NodePtr} {device : ControllerDevice}
    {irq : State ControllerDevice Handler} (h : Inv dt s)
    (hready : parentReady dt s ptr = true) (hparent : hasParentLine ptr = true)
    (hreg : registerController ptr (.armctrl s.devices none) 72 s.irq = .ok device irq) :
    ∃ line d, resolveVirq dt ptr 0 irq = .ok line irq ∧ irq.globalHandlers.lookup line = none ∧
      d ∈ irq.domains ∧ d.Contains line := by
  obtain ⟨hdomains, -, -, hset⟩ := registerController_ok h.root hreg
  have hcounts : ∀ d ∈ irq.domains, d.irqCount = d.controller.hwirqCount := by
    intro d hd
    rw [hdomains, List.mem_append, List.mem_singleton] at hd
    rcases hd with hd | rfl
    · exact h.counts d hd
    · cases hset
      rfl
  simp only [parentReady, ControllerDevice.hwirqCount, hreg, hparent, Bool.not_true,
    Bool.false_or] at hready
  split at hready
  · cases hready
  · rename_i line irq' hres
    have hres' := hres
    rw [resolveVirq_eq_ok] at hres'
    obtain ⟨rfl, ctl, specifier, d, hwirq, -, hfind, hx, rfl⟩ := hres'
    have hd := List.mem_of_find?_eq_some hfind
    have hlt := xlate_lt hx
    have hcount := hcounts d hd
    exact ⟨_, d, hres, Option.isNone_iff_eq_none.mp hready, hd, Nat.le_add_right _ _, by omega⟩

/-- A parent that is ready gives the line, so the control logic does not fail
once it is registered. -/
theorem armctrlTryInit_cases {s : System} {ptr : NodePtr} (h : Inv dt s)
    (hready : parentReady dt s ptr = true) :
    (∃ e irq', armctrlTryInit dt s.devices ptr s.irq = .error e irq' ∧ (irq' = s.irq ∨
      ∃ stop, registerController ptr (.armctrl s.devices none) 72 s.irq = .error stop irq')) ∨
    ∃ device irq, registerController ptr (.armctrl s.devices none) 72 s.irq = .ok device irq ∧
      ((hasParentLine ptr = false ∧ armctrlTryInit dt s.devices ptr s.irq = .ok () irq) ∨
        ∃ line enabled, resolveVirq dt ptr 0 irq = .ok line irq ∧
          irq.globalHandlers.lookup line = none ∧
          armctrlTryInit dt s.devices ptr s.irq = .ok () { irq with
            globalHandlers := (line, .controller device) :: irq.globalHandlers
            enabled := enabled }) := by
  cases hcheck : checkNode ptr with
  | error e =>
      refine .inl ⟨e, s.irq, ?_, .inl rfl⟩
      rw [armctrlTryInit, hcheck, bind_error ofExcept_error]
  | ok u =>
      cases hreg : registerController ptr (.armctrl s.devices none) 72 s.irq with
      | error stop irq' =>
          refine .inl ?_
          rw [armctrlTryInit, hcheck, bind_ok ofExcept_ok]
          dsimp only [ControllerDevice.hwirqCount]
          cases horRetry : orRetry (registerController ptr (.armctrl s.devices none) 72) s.irq with
          | ok device irq'' =>
              rw [orRetry_ok, hreg] at horRetry
              cases horRetry
          | error e irq'' =>
              rw [bind_error horRetry]
              obtain ⟨stop', hstop⟩ := orRetry_error horRetry
              exact ⟨e, irq'', rfl, .inr ⟨stop', by rw [← hstop, hreg]⟩⟩
      | ok device irq =>
          refine .inr ⟨device, irq, rfl, ?_⟩
          have hranged := (h.ranged.registerController ptr (.armctrl s.devices none) 72).1 _ _ hreg
          rw [armctrlTryInit, hcheck, bind_ok ofExcept_ok]
          dsimp only [ControllerDevice.hwirqCount]
          rw [bind_ok (orRetry_ok.mpr hreg)]
          cases hparent : hasParentLine ptr with
          | false => exact .inl ⟨rfl, rfl⟩
          | true =>
              obtain ⟨line, d, hres, hfree, hd, hcontains⟩ := parentReady_line h hready hparent hreg
              have hlt : line < MAX_IRQS := by
                have hbelow := hranged.below d hd
                have hbound := hranged.bound
                have hline := hcontains.2
                omega
              refine .inr ⟨line, irq.enabled ++ [(d.controller, line - d.virqBase)], hres, hfree, ?_⟩
              rw [if_pos rfl, bind_ok (orRetry_ok.mpr hres)]
              rw [bind_ok (orRetry_ok.mpr (registerHandler_free hlt hfree)), orRetry_ok]
              exact (hranged.congr (t := { irq with
                globalHandlers := (line, .controller device) :: irq.globalHandlers })
                rfl rfl rfl).enableIrq hd line hcontains

/-- A try that fails leaves the invariant, whether or not the node is kept. -/
theorem Inv.failed {s t : System} {device : ControllerDevice} {ptr : NodePtr} {irqCount : Nat}
    (h : Inv dt s) (herr : t.irq = s.irq ∨
      ∃ stop, registerController ptr device irqCount s.irq = .error stop t.irq)
    (hnodes : t.uninitializedDeviceNodes.Sublist s.uninitializedDeviceNodes)
    (hinit : t.initialized = s.initialized) : Inv dt t := by
  rcases herr with heq | ⟨stop, hstop⟩
  · refine h.congr ?_ ?_ ?_ ?_ hnodes hinit
    · rw [heq]
      exact h.ranged
    · rw [heq]
    · rw [heq]
    · rw [heq]
      exact fun _ _ hlookup => hlookup
  · obtain ⟨hroot, hcontrollers, hhandlers⟩ := registerController_error hstop
    refine h.congr ((h.ranged.registerController _ _ _).2 _ _ hstop) hroot hcontrollers ?_
      hnodes hinit
    rw [hhandlers]
    exact fun _ _ hlookup => hlookup

/-- What one try does to the statics: nothing that counts, or the node gets its
domain and its line. -/
inductive Tried (dt : DeviceTree) (s : System) (ptr : NodePtr) :
    EStateM.Result Failure (State ControllerDevice Handler) Unit → Prop
  | failed (e : Failure) (irq : State ControllerDevice Handler) (device : ControllerDevice)
      (irqCount : Nat) (h : irq = s.irq ∨
        ∃ stop, registerController ptr device irqCount s.irq = .error stop irq) :
      Tried dt s ptr (.error e irq)
  | ok (irq : State ControllerDevice Handler) (device : ControllerDevice) (virqBase : Nat)
      (hranged : Ranged irq) (hroot : irq.rootController.isSome)
      (hdomains : irq.domains =
        s.irq.domains ++ [⟨ptr.addr, device, virqBase, device.hwirqCount⟩])
      (hhandlers : ∀ virq handler, s.irq.globalHandlers.lookup virq = some handler →
        irq.globalHandlers.lookup virq = some handler)
      (hwired : matchDriver ptr.node = some "brcm,bcm2836-armctrl-ic" → hasParentLine ptr →
        Wired dt irq ptr) :
      Tried dt s ptr (.ok () irq)

theorem l1IntcTryInit_tried {s : System} {ptr : NodePtr} (h : Inv dt s)
    (hdriver : matchDriver ptr.node = some "brcm,bcm2836-l1-intc") :
    Tried dt s ptr (l1IntcTryInit s.devices ptr s.irq) := by
  rcases @l1IntcTryInit_cases s.irq s.devices ptr with
    ⟨e, irq, hrun, herr⟩ | ⟨device, irq, hreg, hrun⟩
  · rw [hrun]
    exact .failed e irq _ _ herr
  · obtain ⟨hdomains, hhandlers, hroot, hset⟩ := registerController_ok h.root hreg
    cases hset
    rw [hrun]
    refine .ok irq (.l1Intc s.devices) s.irq.nextVirqBase
      ((h.ranged.registerController _ _ _).1 _ _ hreg) hroot hdomains ?_ ?_
    · rw [hhandlers]
      exact fun _ _ hlookup => hlookup
    · rw [hdriver]
      exact fun hother => absurd (Option.some.inj hother) (by decide)

theorem armctrlTryInit_tried {s : System} {ptr : NodePtr} (h : Inv dt s)
    (hready : parentReady dt s ptr = true) :
    Tried dt s ptr (armctrlTryInit dt s.devices ptr s.irq) := by
  rcases armctrlTryInit_cases h hready with
    ⟨e, irq, hrun, herr⟩ | ⟨device, irq, hreg, hline⟩
  · rw [hrun]
    exact .failed e irq _ _ herr
  · obtain ⟨hdomains, hhandlers, hroot, hset⟩ := registerController_ok h.root hreg
    have hranged := (h.ranged.registerController _ _ _).1 _ _ hreg
    cases hset
    rcases hline with ⟨hnone, hrun⟩ | ⟨line, enabled, hres, hfree, hrun⟩
    · rw [hrun]
      refine .ok irq (.armctrl s.devices (some s.irq.nextVirqBase)) s.irq.nextVirqBase hranged
        hroot hdomains ?_ fun _ hparent => ?_
      · rw [hhandlers]
        exact fun _ _ hlookup => hlookup
      · rw [hnone] at hparent
        cases hparent
    · rw [hrun]
      refine .ok _ (.armctrl s.devices (some s.irq.nextVirqBase)) s.irq.nextVirqBase
        (hranged.congr rfl rfl rfl) hroot hdomains (fun virq handler hlookup => ?_)
        fun _ _ => ⟨⟨ptr.addr, _, s.irq.nextVirqBase, 72⟩, ?_, rfl, ⟨s.devices, rfl⟩, line,
          resolveVirq_mono (l := []) (by rw [List.append_nil]; rfl) hres, List.lookup_cons_self⟩
      · refine lookup_cons_of_free hfree virq handler ?_
        rw [hhandlers]
        exact hlookup
      · exact hdomains ▸ List.mem_append_right _ (List.mem_singleton_self _)

theorem Inv.step {s t : System} {e : Event} (h : Inv dt s) (hallowed : Ordered dt s e)
    (hst : InterruptController.step dt s e = some t) : Inv dt t := by
  cases e with
  | registerHandler virq =>
      simp only [InterruptController.step] at hst
      split at hst
      · rename_i heq
        cases hst
        obtain ⟨hfree, rfl⟩ := registerHandler_ok heq
        exact h.congr (h.ranged.congr rfl rfl rfl) rfl rfl (lookup_cons_of_free hfree)
          (.refl _) rfl
      · rename_i heq
        cases hst
        cases registerHandler_error heq
        exact h
  | tryInit index =>
      simp only [InterruptController.step] at hst
      split at hst
      · cases hst
      · rename_i ptr hptr
        split at hst
        · cases hst
        · rename_i tryInit htry
          have htried : Tried dt s ptr (tryInit s.irq) := by
            simp only [tryInit?] at htry
            split at htry
            · rename_i hdriver
              cases htry
              exact l1IntcTryInit_tried h hdriver
            · rename_i hdriver
              cases htry
              exact armctrlTryInit_tried h (hallowed ptr hptr hdriver)
            · cases htry
          split at hst <;> rename_i heq
          · cases hst
            rw [heq] at htried
            cases htried with
            | ok irq device virqBase hranged hroot hdomains hhandlers hwired =>
                exact h.init hptr hranged hroot hdomains hhandlers rfl rfl hwired
          · cases hst
            rw [heq] at htried
            cases htried with
            | failed e irq device irqCount herr => exact h.failed herr (.refl _) rfl
          · cases hst
            rw [heq] at htried
            cases htried with
            | failed e irq device irqCount herr =>
                exact h.failed herr (List.eraseIdx_sublist _ _) rfl
          · cases hst

theorem Inv.new (dt : DeviceTree) : Inv dt (System.new dt) := by
  have hdomains : (System.new dt).irq.domains = [] := rfl
  refine ⟨⟨?_, ?_, ?_⟩, fun _ => rfl, ?_, ?_, ?_, ?_, ?_⟩
  · simp [hdomains]
  · simp [hdomains]
  · simp [System.new, State.new, MAX_IRQS]
  · simp [hdomains]
  · simp [hdomains]
  · exact (Node.iter_nodup [] [] dt.root).sublist (List.filter_sublist.map NodePtr.addr)
  · simp [hdomains]
  · simp [System.new]

/-- The controllers are brought up in any order in which each parent is ready
when the control logic below it is registered. -/
theorem ordered_sound (dt : DeviceTree) (s : System)
    (h : Reachable (fun s => s = System.new dt) (Step (step dt) (Ordered dt)) s) : Sound dt s := by
  refine (h.invariant (P := Inv dt) ?_ fun s t _ hs hst => ?_).sound
  · rintro s rfl
    exact Inv.new dt
  · obtain ⟨e, hallowed, ht⟩ := hst
    exact hs.step hallowed ht

/-- A controller below the control logic with the phandle `parent`. -/
def controlLogic (phandle parent : Nat) (interrupts : List Nat) : Node :=
  ⟨"interrupt-controller",
    [⟨"compatible", .standard (.compatible ["brcm,bcm2836-armctrl-ic"]), rfl⟩,
      ⟨"reg", .standard (.reg [⟨[0, 0x7e00b200], [0x200]⟩]), rfl⟩,
      ⟨"interrupt-controller", .interrupts .interruptController, rfl⟩,
      ⟨"#interrupt-cells", .interrupts (.interruptCells 2), rfl⟩,
      ⟨"interrupt-parent", .interrupts (.interruptParent parent), rfl⟩,
      ⟨"interrupts", .interrupts (.interrupts interrupts), rfl⟩,
      ⟨"phandle", .standard (.phandle phandle), rfl⟩], []⟩

/-- The controller of the cores, as a device tree describes it. -/
def localIntc : Node :=
  ⟨"local_intc",
    [⟨"compatible", .standard (.compatible ["brcm,bcm2836-l1-intc"]), rfl⟩,
      ⟨"reg", .standard (.reg [⟨[0, 0x40000000], [0x100]⟩]), rfl⟩,
      ⟨"interrupt-controller", .interrupts .interruptController, rfl⟩,
      ⟨"#interrupt-cells", .interrupts (.interruptCells 2), rfl⟩,
      ⟨"interrupt-parent", .interrupts (.interruptParent 1), rfl⟩,
      ⟨"phandle", .standard (.phandle 1), rfl⟩], []⟩

theorem named_compatible (compatible : String) :
    (PropertyValue.standard (.compatible [compatible])).Named "compatible" := rfl

/-- A device at the local controller, with its interrupts. -/
def localDevice (name compatible : String) (interrupts : List Nat) : Node :=
  ⟨name,
    [⟨"compatible", .standard (.compatible [compatible]), named_compatible compatible⟩,
      ⟨"reg", .standard (.reg [⟨[0, 0x7e003000], [0x1000]⟩]), rfl⟩,
      ⟨"interrupt-parent", .interrupts (.interruptParent 1), rfl⟩,
      ⟨"interrupts", .interrupts (.interrupts interrupts), rfl⟩], []⟩

/-- A uart on line 3 of bank 1. -/
def uart (parent : Nat) : Node :=
  ⟨"uart",
    [⟨"interrupt-parent", .interrupts (.interruptParent parent), rfl⟩,
      ⟨"interrupts", .interrupts (.interrupts [1, 3]), rfl⟩], []⟩

/-- Two stages of control logic, `first` and `second` in the order of the tree,
behind the local controller, and a device at the last stage. -/
def cascade (first second : Node) : DeviceTree where
  address := 0x100
  size := 0x1000
  version := 17
  lastCompVersion := 16
  bootCpuidPhys := 0
  memoryReservations := []
  root := ⟨"", [], [localIntc, first, second, uart 3]⟩
  phandleMap := [(1, [0]), (2, [if first.phandle = some 2 then 1 else 2]),
    (3, [if first.phandle = some 3 then 1 else 2])]

/-- The parent stands before its child in the tree. -/
theorem ordered_sound_cascade :
    let dt := cascade (controlLogic 2 1 [8, 4]) (controlLogic 3 2 [1, 0])
    ∃ s, s.irq.domains.map IrqDomain.virqBase = [0, 12, 84] ∧ Sound dt s := by
  intro dt
  have hrun : (run (step dt) (Ordered dt) (System.new dt)
      [.tryInit 0, .tryInit 0, .tryInit 0]).map (fun s => s.irq.domains.map IrqDomain.virqBase) =
        some [0, 12, 84] := by
    decide +kernel
  obtain ⟨s, hs, hbases⟩ := Option.map_eq_some_iff.mp hrun
  exact ⟨s, hbases, ordered_sound dt s ⟨System.new dt, rfl, reflTransGen_of_run _ hs⟩⟩

/-- The child stands before its parent: it registers once, asks for another try
as its parent is missing, and registers again with the next device. -/
theorem cascade_not_sound :
    let dt := cascade (controlLogic 3 2 [1, 0]) (controlLogic 2 1 [8, 4])
    ∃ s, Reachable (fun s => s = System.new dt) (Step (step dt) fun _ _ => True) s ∧
      ¬(s.irq.domains.map IrqDomain.nodeAddr).Nodup ∧
      ∃ ptr ∈ s.initialized, matchDriver ptr.node = some "brcm,bcm2836-armctrl-ic" ∧
        hasParentLine ptr ∧ ¬Routed dt s ptr := by
  intro dt
  let child : NodePtr := ⟨uart 3, [dt.root], [3]⟩
  have hrun : (run (step dt) (fun _ _ => True) (System.new dt)
      [.tryInit 0, .tryInit 0, .tryInit 1, .tryInit 0]).any fun s =>
        ¬(s.irq.domains.map IrqDomain.nodeAddr).Nodup ∧
        (∃ ptr ∈ s.initialized, matchDriver ptr.node = some "brcm,bcm2836-armctrl-ic" ∧
          hasParentLine ptr ∧ ptr.addr = [1] ∧ (resolveVirq dt ptr 0).run' s.irq = some 92) ∧
        s.irq.globalHandlers.lookup 92 = some (.controller (.armctrl 3 (some 156))) ∧
        (resolveVirq dt child 0).run' s.irq = some 23 := by
    decide +kernel
  obtain ⟨s, hs, hend⟩ := (Option.any_eq_true _ _).mp hrun
  obtain ⟨hdup, ⟨ptr, hptr, hdriver, hparent, haddr, hline⟩, hhandler, hvirq⟩ :=
    of_decide_eq_true hend
  refine ⟨s, ⟨System.new dt, rfl, reflTransGen_of_run _ hs⟩, hdup, ptr, hptr, hdriver, hparent,
    fun hrouted => ?_⟩
  rw [resolveVirq_run'] at hline hvirq
  obtain ⟨-, ctl, specifier, -, -, hres, -⟩ := resolveVirq_eq_ok.mp hvirq
  have hctl : (resolveLine dt child 0).toOption.map (fun l => l.1.addr) = some [1] := by
    decide +kernel
  rw [hres] at hctl
  obtain ⟨line, id, virqBase, hwirq, hline', hhandler', hle, -⟩ :=
    hrouted child 0 ctl specifier 23 hres ((Option.some.inj hctl).trans haddr.symm) hvirq
  rw [hline] at hline'
  cases hline'
  rw [hhandler] at hhandler'
  cases hhandler'
  omega

end Kruspix.Drivers.InterruptController
