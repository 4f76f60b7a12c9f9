import Kruspix.Drivers.PlatformDrivers
import Mathlib.Logic.Function.Basic

/-!
# Drivers and their registries

A driver keeps the devices it has made in a registry of its own, by their paths. The device
manager keeps the driver and the path, and asks the driver for the device.
-/

namespace Kruspix.Drivers.DeviceManager

open Kernel.Devicetree Lib.Result
open Kernel.Irq (IrqM enableIrq registerHandler registerController resolveVirq)
open InterruptController (ControllerDevice Handler InitM l1IntcTryInit armctrlTryInit matchDriver)
open PlatformDrivers (Attempt DriverInitError TryInit initPlatformDrivers)

/-- The devices of the generic timer's driver and of the auxiliary clock's driver, and those of
any other driver. -/
inductive Device
  | genericTimer (id : String) (virq : Nat)
  | auxClock (id : String)
  | other (driver id : String)
  deriving DecidableEq, Repr

/-- `Device::id`. That of the auxiliary clock is still to be written. -/
def Device.id : Device → Except Fault String
  | .genericTimer id _ => .ok id
  | .auxClock _ => .error .unimplemented
  | .other _ id => .ok id

/-- The driver that makes such a device. -/
def Device.driver : Device → String
  | .genericTimer _ _ => "arm,armv7-timer"
  | .auxClock _ => "brcm,bcm2835-aux"
  | .other driver _ => driver

/-- The statics of `irq` with the number of controllers made, the alarm in the local data of
the core, the registry of each driver and the calls of `local_setup` by `local_init`. -/
structure System where
  irq : Kernel.Irq.State ControllerDevice Handler
  devices : Nat
  alarm : Option String
  devRegistry : String → List (String × Device)
  localSetups : List ((String × String) × Device)

/-- A panic, or an error that the manager handles. -/
inductive Failure
  | panic (fault : Fault)
  | error (error : DriverInitError)
  deriving DecidableEq, Repr

/-- Drivers change the system and may fail. -/
abbrev DriverM := EStateM Failure System

namespace System

def new : System := ⟨.new, 0, none, fun _ => [], []⟩

/-- `insert` replaces the device of an equal path. -/
def addDevice (s : System) (driver id : String) (device : Device) : System :=
  { s with
    devRegistry := Function.update s.devRegistry driver ((id, device) :: s.devRegistry driver) }

/-- `get_device` of a driver. -/
def driverDevice (s : System) (driver id : String) : Option Device :=
  (s.devRegistry driver).lookup id

/-- `get_device` of the device manager. -/
def getDevice (s : System) (bindings : List (String × String)) (path : String) : Option Device :=
  bindings.findSome? fun binding =>
    if binding.2 = path then s.driverDevice binding.1 binding.2 else none

end System

/-- A call of `irq` whose errors are mapped to this error of the driver. -/
def withIrq {α : Type} (error : DriverInitError) (x : IrqM ControllerDevice Handler α) :
    DriverM α := fun s =>
  match x s.irq with
  | .ok a irq => .ok a { s with irq := irq }
  | .error (.err _) irq => .error (.error error) { s with irq := irq }
  | .error (.panic fault) irq => .error (.panic fault) { s with irq := irq }

/-- The part of `try_init` of a controller driver that brings up a new device. -/
def withController (x : Nat → InitM Unit) : DriverM Unit := fun s =>
  match x s.devices s.irq with
  | .ok _ irq => .ok () { s with irq := irq, devices := s.devices + 1 }
  | .error (.error .retry) irq =>
      .error (.error .retry) { s with irq := irq, devices := s.devices + 1 }
  | .error (.error .deviceTreeError) irq =>
      .error (.error .deviceTreeError) { s with irq := irq, devices := s.devices + 1 }
  | .error (.panic fault) irq =>
      .error (.panic fault) { s with irq := irq, devices := s.devices + 1 }

/-- The generic timer is the alarm of the core, which is set once. The other devices return
`Ok` at once or write their registers. -/
def Device.localSetup : Device → DriverM Unit
  | .genericTimer id virq => do
      withIrq .toDo (enableIrq virq)
      if (← get).alarm.isSome then throw (.panic .assertion)
      modify fun s => { s with alarm := some id }
  | .auxClock _ => pure ()
  | .other _ _ => pure ()

/-- Bind a device to its driver. -/
def addDevice (driver id : String) (device : Device) : DriverM Unit :=
  modify fun s => s.addDevice driver id device

/-- The checks of the one region in `reg`, before it is mapped. -/
def checkReg (ptr : NodePtr) : Except Failure Unit :=
  if ptr.node.reg.map List.length ≠ some 1 then .error (.error .deviceTreeError)
  else
    match ptr.resolvePhysAddressAndLength 0 with
    | .error fault => .error (.panic fault)
    | .ok none => .error (.error .deviceTreeError)
    | .ok (some _) => .ok ()

/-! ## The drivers -/

/-- `try_init` in `bcm2836_l1_intc`. -/
def bcm2836L1Intc (ptr : NodePtr) : DriverM Unit := do
  withController fun id => l1IntcTryInit id ptr
  let device := Device.other "brcm,bcm2836-l1-intc" ptr.path
  device.localSetup
  addDevice "brcm,bcm2836-l1-intc" ptr.path device

/-- `try_init` in `bcm2836_armctrl_ic`. -/
def bcm2836ArmctrlIc (dt : DeviceTree) (ptr : NodePtr) : DriverM Unit := do
  withController fun id => armctrlTryInit dt id ptr
  addDevice "brcm,bcm2836-armctrl-ic" ptr.path (.other "brcm,bcm2836-armctrl-ic" ptr.path)

/-- `try_init` in `bcm2835_aux`. The clock is registered without an error. -/
def bcm2835Aux (ptr : NodePtr) : DriverM Unit := do
  if ptr.node.clockCells ≠ some 1 then throw (.error .deviceTreeError)
  ofExcept (checkReg ptr)
  addDevice "brcm,bcm2835-aux" ptr.path (.auxClock ptr.path)

/-- `try_init` in `arm_generic_timer`. -/
def armGenericTimer (dt : DeviceTree) (ptr : NodePtr) : DriverM Unit := do
  let virq ← withIrq .retry (resolveVirq dt ptr 2)
  let device := Device.genericTimer ptr.path virq
  device.localSetup
  addDevice "arm,armv7-timer" ptr.path device

/-- `try_init` in `bcm2835_system_timer`. The device is registered as a timer and as an alarm,
and is not put into `dev_registry`. -/
def bcm2835SystemTimer (dt : DeviceTree) (ptr : NodePtr) : DriverM Unit := do
  ofExcept (checkReg ptr)
  let _ ← withIrq .retry (resolveVirq dt ptr 3)

/-- What a driver does with a node before it adds the device, after these calls of `try_init`:
the lines for which it registers a handler, and its result. -/
abbrev Setup := String → List Attempt → NodePtr → List Nat × Except Failure Unit

/-- A handler that is not the device of a controller, when the place for it is free. -/
def registerOther (virq : Nat) : DriverM Unit := fun s =>
  match registerHandler virq .other s.irq with
  | .ok _ irq => .ok () { s with irq := irq }
  | .error _ irq => .ok () { s with irq := irq }

variable (setup : Setup) (dt : DeviceTree)

/-- `try_init` of a driver that adds its device when the setup has passed. -/
def afterSetup (driver : String) (history : List Attempt) (ptr : NodePtr) : DriverM Unit := do
  (setup driver history ptr).1.forM registerOther
  ofExcept (setup driver history ptr).2
  addDevice driver ptr.path (.other driver ptr.path)

/-- `try_init` of a driver. Those of the drivers that are not modelled are a parameter. -/
def tryInit (driver : String) (history : List Attempt) (ptr : NodePtr) : DriverM Unit :=
  match driver with
  | "brcm,bcm2836-l1-intc" => bcm2836L1Intc ptr
  | "brcm,bcm2836-armctrl-ic" => bcm2836ArmctrlIc dt ptr
  | "brcm,bcm2835-aux" => bcm2835Aux ptr
  | "arm,armv7-timer" => armGenericTimer dt ptr
  | "brcm,bcm2835-system-timer" => bcm2835SystemTimer dt ptr
  | _ => afterSetup setup driver history ptr

/-! ## A run of the drivers -/

/-- A call of `try_init`, with its result unless it panics. -/
def call (driver : String) (history : List Attempt) (ptr : NodePtr) (s : System) :
    Except Fault (System × Except DriverInitError Unit) :=
  match tryInit setup dt driver history ptr s with
  | .ok _ t => .ok (t, .ok ())
  | .error (.error e) t => .ok (t, .error e)
  | .error (.panic fault) _ => .error fault

/-- The system after these calls, which come after those of `history`. -/
def replay (history : List Attempt) (s : System) : List Attempt → Except Fault System
  | [] => .ok s
  | attempt :: attempts =>
      match matchDriver attempt.node.node with
      | none => replay (history ++ [attempt]) s attempts
      | some driver => do
          let called ← call setup dt driver history attempt.node s
          replay (history ++ [attempt]) called.1 attempts

/-- The answers of the drivers, until one of them panics. -/
def answers : TryInit := fun driver history ptr =>
  match replay setup dt [] System.new history >>= call setup dt driver history ptr with
  | .ok (_, result) => result
  | .error _ => .error .deviceFailed

/-- `init_platform_drivers` with the system it leaves. -/
def initDrivers : Except Fault (PlatformDrivers.State × System) :=
  let s := initPlatformDrivers (answers setup dt) dt
  (replay setup dt [] System.new s.history).map fun system => (s, system)

/-! ## The setup of a core -/

/-- `local_init`, which no driver overrides. -/
def localInit (driver id : String) : DriverM Unit := do
  match (← get).driverDevice driver id with
  | none => pure ()
  | some device =>
      modify fun s => { s with localSetups := s.localSetups ++ [((driver, id), device)] }
      device.localSetup

/-- The local devices of a further core. -/
def initLocalDevices (bindings : List (String × String)) : DriverM Unit :=
  bindings.forM fun binding => localInit binding.1 binding.2

/-- The calls of `local_setup` when the devices are initialized on a core that starts. -/
def localSetups (bindings : List (String × String)) (s : System) :
    List ((String × String) × Device) :=
  match initLocalDevices bindings { s with alarm := none, localSetups := [] } with
  | .ok _ t => t.localSetups
  | .error _ t => t.localSetups

end Kruspix.Drivers.DeviceManager
