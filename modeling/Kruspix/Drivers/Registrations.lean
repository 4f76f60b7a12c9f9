import Kruspix.Drivers.DeviceManager

/-!
# Registered devices

A binding of the device manager is of use when the driver has the device in its registry.
Two drivers break this: the system timer's driver makes a device and drops it, and the
device of the auxiliary clock has no id.
-/

namespace Kruspix.Drivers.DeviceManager

open Kernel.Devicetree Lib.Result
open Kernel.Irq (IrqM IrqDomain enableIrq registerHandler registerController resolveVirq
  registerController_cases registerHandler_ok registerHandler_error resolveVirq_eq_ok)
open InterruptController (ControllerDevice Handler InitM l1IntcTryInit armctrlTryInit matchDriver
  orRetry checkNode)
open PlatformDrivers (Attempt DriverInitError TryInit initPlatformDrivers registrations)

/-- The interrupt subsystem with its controllers and handlers. -/
abbrev Irq := Kernel.Irq.State ControllerDevice Handler

/-! ## Domains are never removed -/

/-- No domain gets lost. -/
def Grows (s t : Irq) : Prop := ∀ d ∈ s.domains, d ∈ t.domains

theorem Grows.refl (s : Irq) : Grows s s := fun _ => id

theorem grows_trans (s t u : Irq) (h : Grows s t) (h' : Grows t u) : Grows s u :=
  fun d hd => h' d (h d hd)

theorem registerController_grows (ptr : NodePtr) (device : ControllerDevice) (irqCount : Nat)
    (s : Irq) : Moves Grows (registerController ptr device irqCount) s := by
  rw [Moves]
  rcases registerController_cases ptr device irqCount s with
    ⟨stop, heq⟩ | ⟨-, ⟨e, heq⟩ | ⟨device', -, ⟨-, hnone, heq⟩ | ⟨-, -, heq⟩⟩⟩
  · rw [heq]
    exact .refl s
  · rw [heq]
    exact .refl s
  · rw [heq]
    intro d hd
    rw [Kernel.Irq.State.domains, hnone] at hd
    exact List.mem_append_right _ hd
  · rw [heq]
    intro d hd
    rcases List.mem_append.mp hd with hd | hd
    · exact List.mem_append_left _ hd
    · exact List.mem_append_right _ (List.mem_append_left _ hd)

theorem resolveVirq_grows (dt : DeviceTree) (ptr : NodePtr) (index : Nat) (s : Irq) :
    Moves Grows (resolveVirq dt ptr index) s := by
  apply Moves.bind grows_trans (.ofExcept (.refl s))
  intro line t _
  apply Moves.bind grows_trans (.get (.refl t))
  intro irq u hget
  cases hget
  split
  · exact Grows.refl t
  · apply Moves.bind grows_trans (.ofExcept (.refl t))
    intro hwirq u _
    exact Grows.refl u

theorem registerHandler_grows (virq : Nat) (handler : Handler) (s : Irq) :
    Moves Grows (registerHandler virq handler) s := by
  apply moves_of
  · intro a t ht
    obtain ⟨-, rfl⟩ := registerHandler_ok ht
    exact .refl s
  · intro e t ht
    cases registerHandler_error ht
    exact .refl s

theorem enableIrq_grows (virq : Nat) (s : Irq) : Moves Grows (enableIrq virq) s := by
  apply Moves.bind grows_trans (.get (.refl s))
  intro irq t hget
  cases hget
  dsimp only
  split
  · exact Grows.refl s
  · exact Grows.refl s

/-- An interrupt can be enabled when it is in the range of a domain. -/
theorem enableIrq_ok_iff (virq : Nat) (s : Irq) :
    (∃ enabled, enableIrq virq s = .ok () { s with enabled := enabled }) ↔
      ∃ d ∈ s.domains, d.Contains virq := by
  cases hfind : s.domains.find? fun d => decide (d.Contains virq) with
  | none =>
      have hrun : enableIrq virq s = .error (.err .invalidVirq) s := by
        rw [enableIrq, bind_ok get_apply, hfind]
        rfl
      rw [List.find?_eq_none] at hfind
      constructor
      · rintro ⟨enabled, hok⟩
        rw [hrun] at hok
        cases hok
      · rintro ⟨d, hd, hcontains⟩
        exact absurd (decide_eq_true hcontains) (hfind d hd)
  | some d =>
      refine iff_of_true ⟨s.enabled ++ [(d.controller, virq - d.virqBase)], ?_⟩
        ⟨d, List.mem_of_find?_eq_some hfind, of_decide_eq_true (List.find?_some hfind :)⟩
      rw [enableIrq, bind_ok get_apply, hfind]
      rfl

theorem enableIrq_ok {virq : Nat} {s t : Irq} (h : enableIrq virq s = .ok () t) :
    ∃ enabled, t = { s with enabled := enabled } := by
  rw [enableIrq, bind_ok get_apply] at h
  dsimp only at h
  cases hfind : s.domains.find? fun d => decide (d.Contains virq) with
  | none =>
      rw [hfind] at h
      cases h
  | some d =>
      rw [hfind] at h
      cases h
      exact ⟨_, rfl⟩

theorem orRetry_grows {α : Type} {x : IrqM ControllerDevice Handler α} {s : Irq}
    (h : Moves Grows x s) : Moves Grows (orRetry x) s := by
  rw [Moves, orRetry]
  split
  · rename_i heq
    split at heq <;> cases heq
    exact h.ok ‹_›
  · rename_i heq
    split at heq <;> cases heq
    · exact h.error ‹_›
    · exact h.error ‹_›

theorem l1IntcTryInit_grows (id : Nat) (ptr : NodePtr) (s : Irq) :
    Moves Grows (l1IntcTryInit id ptr) s := by
  apply Moves.bind grows_trans (.ofExcept (.refl s))
  intro _ t _
  apply Moves.bind grows_trans (orRetry_grows (registerController_grows ptr _ _ t))
  intro _ u _
  exact Grows.refl u

theorem armctrlTryInit_grows (dt : DeviceTree) (id : Nat) (ptr : NodePtr) (s : Irq) :
    Moves Grows (armctrlTryInit dt id ptr) s := by
  apply Moves.bind grows_trans (.ofExcept (.refl s))
  intro _ t _
  apply Moves.bind grows_trans (orRetry_grows (registerController_grows ptr _ _ t))
  intro device u _
  split
  · apply Moves.bind grows_trans (orRetry_grows (resolveVirq_grows dt ptr 0 u))
    intro virq v _
    apply Moves.bind grows_trans (orRetry_grows (registerHandler_grows virq _ v))
    intro _ w _
    exact orRetry_grows (enableIrq_grows virq w)
  · exact Grows.refl u

/-! ## What `try_init` does to the system -/

/-- Nothing is put into a registry or taken from it. -/
structure Kept (s t : System) : Prop where
  irq : Grows s.irq t.irq
  alarm : t.alarm = none → s.alarm = none
  devRegistry : t.devRegistry = s.devRegistry

theorem Kept.refl (s : System) : Kept s s := ⟨.refl s.irq, id, rfl⟩

theorem kept_trans (s t u : System) (h : Kept s t) (h' : Kept t u) : Kept s u :=
  ⟨grows_trans _ _ _ h.irq h'.irq, h.alarm ∘ h'.alarm, h'.devRegistry.trans h.devRegistry⟩

theorem withIrq_kept {α : Type} {error : DriverInitError} {x : IrqM ControllerDevice Handler α}
    {s : System} (h : Moves Grows x s.irq) : Moves Kept (withIrq error x) s := by
  rw [Moves, withIrq]
  split
  · rename_i heq
    split at heq <;> cases heq
    exact ⟨h.ok ‹_›, id, rfl⟩
  · rename_i heq
    split at heq <;> cases heq
    · exact ⟨h.error ‹_›, id, rfl⟩
    · exact ⟨h.error ‹_›, id, rfl⟩

theorem withController_kept {x : Nat → InitM Unit} {s : System}
    (h : Moves Grows (x s.devices) s.irq) : Moves Kept (withController x) s := by
  rw [Moves, withController]
  split
  · rename_i heq
    split at heq <;> cases heq
    exact ⟨h.ok ‹_›, id, rfl⟩
  · rename_i heq
    split at heq <;> cases heq
    · exact ⟨h.error ‹_›, id, rfl⟩
    · exact ⟨h.error ‹_›, id, rfl⟩
    · exact ⟨h.error ‹_›, id, rfl⟩

theorem registerOther_kept (virq : Nat) (s : System) : Moves Kept (registerOther virq) s := by
  have h := registerHandler_grows virq .other s.irq
  rw [Moves, registerOther]
  split
  · rename_i heq
    split at heq <;> cases heq
    · exact ⟨h.ok ‹_›, id, rfl⟩
    · exact ⟨h.error ‹_›, id, rfl⟩
  · rename_i heq
    split at heq <;> cases heq

theorem forM_registerOther_kept (virqs : List Nat) (s : System) :
    Moves Kept (virqs.forM registerOther) s := by
  induction virqs generalizing s with
  | nil => exact Kept.refl s
  | cons virq virqs ih =>
      apply Moves.bind kept_trans (registerOther_kept virq s)
      intro _ t _
      exact ih t

theorem localSetup_kept (device : Device) (s : System) : Moves Kept device.localSetup s := by
  cases device with
  | genericTimer id virq =>
      apply Moves.bind kept_trans (withIrq_kept (enableIrq_grows virq s.irq))
      intro _ t _
      apply Moves.bind kept_trans (.get (.refl t))
      intro system u hget
      cases hget
      split
      · exact Kept.refl t
      · exact ⟨.refl t.irq, nofun, rfl⟩
  | auxClock id => exact Kept.refl s
  | other driver id => exact Kept.refl s

/-- The interrupt of the device is in the range of a domain. -/
def Device.Ready (irq : Irq) : Device → Prop
  | .genericTimer _ virq => ∃ d ∈ irq.domains, d.Contains virq
  | .auxClock _ => True
  | .other _ _ => True

theorem Device.Ready.mono {irq irq' : Irq} {device : Device} (h : device.Ready irq)
    (hgrows : Grows irq irq') : device.Ready irq' := by
  cases device with
  | genericTimer id virq =>
      obtain ⟨d, hd, hcontains⟩ := h
      exact ⟨d, hgrows d hd, hcontains⟩
  | auxClock id => trivial
  | other driver id => trivial

/-- A device of the driver, made for the path. -/
structure Device.Made (driver path : String) (irq : Irq) (device : Device) : Prop where
  madeBy : device.driver = driver
  id : device.id = .ok path ↔ driver ≠ "brcm,bcm2835-aux"
  ready : device.Ready irq

theorem Device.Made.mono {driver path : String} {irq irq' : Irq} {device : Device}
    (h : device.Made driver path irq) (hgrows : Grows irq irq') : device.Made driver path irq' :=
  ⟨h.madeBy, h.id, h.ready.mono hgrows⟩

theorem made_other {driver path : String} {irq : Irq} (h : driver ≠ "brcm,bcm2835-aux") :
    (Device.other driver path).Made driver path irq :=
  ⟨rfl, iff_of_true rfl h, trivial⟩

theorem localSetup_ok {device : Device} {s t : System} (h : device.localSetup s = .ok () t) :
    device.Ready s.irq := by
  cases device with
  | genericTimer id virq =>
      obtain ⟨_, u, henable, -⟩ := bind_eq_ok h
      rw [withIrq] at henable
      split at henable
      · rename_i heq
        obtain ⟨enabled, rfl⟩ := enableIrq_ok heq
        exact (enableIrq_ok_iff virq s.irq).mp ⟨enabled, heq⟩
      · cases henable
      · cases henable
  | auxClock id => trivial
  | other driver id => trivial

/-- The core gets its alarm when it has none yet. -/
theorem localSetup_alarm {id : String} {virq : Nat} {s t : System}
    (h : (Device.genericTimer id virq).localSetup s = .ok () t) :
    s.alarm = none ∧ t.alarm = some id := by
  obtain ⟨_, u, henable, hrest⟩ := bind_eq_ok h
  have halarm : u.alarm = s.alarm := by
    rw [withIrq] at henable
    split at henable <;> cases henable
    rfl
  rw [bind_ok get_apply] at hrest
  split at hrest
  · cases hrest
  · rename_i hnone
    cases hrest
    rw [Option.not_isSome_iff_eq_none, halarm] at hnone
    exact ⟨hnone, rfl⟩

/-- A call of `try_init` that returns `Ok` adds the device, unless the driver is that of the
system timer. -/
inductive Initialized (driver path : String) (s : System) : System → Prop
  | dropped {t : System} (hdriver : driver = "brcm,bcm2835-system-timer") (h : Kept s t) :
      Initialized driver path s t
  | added {t : System} (device : Device) (hdriver : driver ≠ "brcm,bcm2835-system-timer")
      (h : Kept s t) (hmade : device.Made driver path t.irq)
      (halarm : driver = "arm,armv7-timer" → s.alarm = none ∧ t.alarm.isSome) :
      Initialized driver path s (t.addDevice driver path device)

variable {setup : Setup} {dt : DeviceTree} {history : List Attempt} {ptr : NodePtr} {s t : System}

theorem bcm2836L1Intc_ok (h : bcm2836L1Intc ptr s = .ok () t) :
    Initialized "brcm,bcm2836-l1-intc" ptr.path s t := by
  obtain ⟨_, u, hinit, hadd⟩ := bind_eq_ok h
  cases hadd
  exact .added _ (by decide) ((withController_kept (l1IntcTryInit_grows _ ptr _)).ok hinit)
    (made_other (by decide)) (absurd · (by decide))

theorem bcm2836ArmctrlIc_ok (h : bcm2836ArmctrlIc dt ptr s = .ok () t) :
    Initialized "brcm,bcm2836-armctrl-ic" ptr.path s t := by
  obtain ⟨_, u, hinit, hadd⟩ := bind_eq_ok h
  cases hadd
  exact .added _ (by decide) ((withController_kept (armctrlTryInit_grows dt _ ptr _)).ok hinit)
    (made_other (by decide)) (absurd · (by decide))

theorem bcm2835Aux_ok (h : bcm2835Aux ptr s = .ok () t) :
    Initialized "brcm,bcm2835-aux" ptr.path s t := by
  rw [bcm2835Aux] at h
  split at h
  · cases h
  · obtain ⟨_, u, hcheck, hadd⟩ := bind_eq_ok h
    cases hadd
    exact .added _ (by decide) (Moves.ok (.ofExcept (Kept.refl s)) hcheck)
      ⟨rfl, iff_of_false nofun (absurd rfl), trivial⟩ (absurd · (by decide))

theorem armGenericTimer_ok (h : armGenericTimer dt ptr s = .ok () t) :
    Initialized "arm,armv7-timer" ptr.path s t := by
  obtain ⟨virq, u, hvirq, hrest⟩ := bind_eq_ok h
  obtain ⟨_, v, hsetup, hadd⟩ := bind_eq_ok hrest
  cases hadd
  have hresolved : Kept s u := (withIrq_kept (resolveVirq_grows dt ptr 2 s.irq)).ok hvirq
  have hlocal : Kept u v := (localSetup_kept _ u).ok hsetup
  obtain ⟨hnone, hsome⟩ := localSetup_alarm hsetup
  refine .added _ (by decide) (kept_trans s u v hresolved hlocal)
    ⟨rfl, iff_of_true rfl (by decide), (localSetup_ok hsetup).mono hlocal.irq⟩
    fun _ => ⟨hresolved.alarm hnone, ?_⟩
  rw [hsome]
  rfl

theorem bcm2835SystemTimer_kept (dt : DeviceTree) (ptr : NodePtr) (s : System) :
    Moves Kept (bcm2835SystemTimer dt ptr) s := by
  apply Moves.bind kept_trans (.ofExcept (.refl s))
  intro _ t _
  apply Moves.bind kept_trans (withIrq_kept (resolveVirq_grows dt ptr 3 t.irq))
  intro _ u _
  exact Kept.refl u

theorem afterSetup_ok {driver : String} (haux : driver ≠ "brcm,bcm2835-aux")
    (htimer : driver ≠ "arm,armv7-timer") (hdriver : driver ≠ "brcm,bcm2835-system-timer")
    (h : afterSetup setup driver history ptr s = .ok () t) :
    Initialized driver ptr.path s t := by
  obtain ⟨_, u, hlines, hrest⟩ := bind_eq_ok h
  obtain ⟨_, v, hresult, hadd⟩ := bind_eq_ok hrest
  cases hadd
  have hkept : Kept u v := Moves.ok (.ofExcept (Kept.refl u)) hresult
  exact .added _ hdriver (kept_trans s u v ((forM_registerOther_kept _ s).ok hlines) hkept)
    (made_other haux) (absurd · htimer)

theorem tryInit_ok {driver : String} (h : tryInit setup dt driver history ptr s = .ok () t) :
    Initialized driver ptr.path s t := by
  unfold tryInit at h
  split at h
  · exact bcm2836L1Intc_ok h
  · exact bcm2836ArmctrlIc_ok h
  · exact bcm2835Aux_ok h
  · exact armGenericTimer_ok h
  · exact .dropped rfl ((bcm2835SystemTimer_kept dt ptr s).ok h)
  · exact afterSetup_ok ‹_› ‹_› ‹_› h

/-- The device is added at the end, so a call that fails adds none. -/
theorem addDevice_error {x : DriverM Unit} {driver id : String} {device : Device} {e : Failure}
    (hx : Moves Kept x s) (h : (x >>= fun _ => addDevice driver id device) s = .error e t) :
    Kept s t := by
  rcases bind_eq_error h with hfailed | ⟨_, u, -, hadd⟩
  · exact hx.error hfailed
  · cases hadd

theorem armGenericTimer_error {e : Failure} (h : armGenericTimer dt ptr s = .error e t) :
    Kept s t := by
  rcases bind_eq_error h with hvirq | ⟨virq, u, hvirq, hrest⟩
  · exact (withIrq_kept (resolveVirq_grows dt ptr 2 s.irq)).error hvirq
  · exact kept_trans s u t ((withIrq_kept (resolveVirq_grows dt ptr 2 s.irq)).ok hvirq)
      (addDevice_error (localSetup_kept _ u) hrest)

theorem afterSetup_error {driver : String} {e : Failure}
    (h : afterSetup setup driver history ptr s = .error e t) : Kept s t := by
  rcases bind_eq_error h with hlines | ⟨_, u, hlines, hrest⟩
  · exact (forM_registerOther_kept _ s).error hlines
  · exact kept_trans s u t ((forM_registerOther_kept _ s).ok hlines)
      (addDevice_error (.ofExcept (Kept.refl u)) hrest)

theorem tryInit_error {driver : String} {e : Failure}
    (h : tryInit setup dt driver history ptr s = .error e t) : Kept s t := by
  unfold tryInit at h
  split at h
  · exact addDevice_error (withController_kept (l1IntcTryInit_grows _ ptr _)) h
  · exact addDevice_error (withController_kept (armctrlTryInit_grows dt _ ptr _)) h
  · rw [bcm2835Aux] at h
    split at h
    · cases h
      exact .refl s
    · exact addDevice_error (.ofExcept (Kept.refl s)) h
  · exact armGenericTimer_error h
  · exact (bcm2835SystemTimer_kept dt ptr s).error h
  · exact afterSetup_error h

/-! ## The bindings and the registries -/

/-- The invariant of the device manager and the drivers. One core has one alarm, so one generic
timer is bound. -/
structure Inv (bindings : List (String × String)) (s : System) : Prop where
  made : ∀ driver path device, s.driverDevice driver path = some device →
    device.Made driver path s.irq
  bound : ∀ binding ∈ bindings, binding.1 ≠ "brcm,bcm2835-system-timer" →
    (s.driverDevice binding.1 binding.2).isSome
  dropped : ∀ path, s.driverDevice "brcm,bcm2835-system-timer" path = none
  alarm : s.alarm = none → ∀ binding ∈ bindings, binding.1 ≠ "arm,armv7-timer"
  timers : bindings.Pairwise fun binding binding' =>
    binding.1 = "arm,armv7-timer" → binding'.1 ≠ "arm,armv7-timer"

theorem Kept.driverDevice (h : Kept s t) (driver path : String) :
    t.driverDevice driver path = s.driverDevice driver path := by
  rw [System.driverDevice, h.devRegistry, System.driverDevice]

theorem driverDevice_addDevice (s : System) (driver id : String) (device : Device)
    (driver' id' : String) :
    (s.addDevice driver id device).driverDevice driver' id' =
      if driver' = driver ∧ id' = id then some device else s.driverDevice driver' id' := by
  rw [System.driverDevice, System.driverDevice, System.addDevice]
  dsimp only
  by_cases hdriver : driver' = driver
  · subst hdriver
    rw [Function.update_self, List.lookup_cons]
    by_cases hid : id' = id
    · simp [hid]
    · rw [beq_eq_false_iff_ne.mpr hid, if_neg fun h => hid h.2]
  · rw [Function.update_of_ne hdriver, if_neg fun h => hdriver h.1]

variable {bindings : List (String × String)}

theorem Inv.kept (h : Inv bindings s) (hkept : Kept s t) : Inv bindings t := by
  refine ⟨fun driver path device hdevice => ?_, fun binding hbinding hdriver => ?_, fun path => ?_,
    fun hnone => h.alarm (hkept.alarm hnone), h.timers⟩
  · rw [hkept.driverDevice] at hdevice
    exact (h.made driver path device hdevice).mono hkept.irq
  · rw [hkept.driverDevice]
    exact h.bound binding hbinding hdriver
  · rw [hkept.driverDevice]
    exact h.dropped path

/-- A device that is added gets its binding. -/
theorem Inv.initialized {driver path : String} (h : Inv bindings s)
    (hinit : Initialized driver path s t) : Inv (bindings ++ [(driver, path)]) t := by
  cases hinit with
  | dropped hdriver hkept =>
      have ht := h.kept hkept
      have htimer : driver ≠ "arm,armv7-timer" := by
        rw [hdriver]
        decide
      refine ⟨ht.made, fun binding hbinding hne => ?_, ht.dropped, fun hnone binding hbinding => ?_,
        List.pairwise_append.mpr ⟨ht.timers, List.pairwise_singleton _ _, ?_⟩⟩
      · rcases List.mem_append.mp hbinding with hbinding | hbinding
        · exact ht.bound binding hbinding hne
        · cases List.mem_singleton.mp hbinding
          exact absurd hdriver hne
      · rcases List.mem_append.mp hbinding with hbinding | hbinding
        · exact ht.alarm hnone binding hbinding
        · cases List.mem_singleton.mp hbinding
          exact htimer
      · intro binding _ binding' hbinding' _
        cases List.mem_singleton.mp hbinding'
        exact htimer
  | @added u device hdriver hkept hmade halarm =>
      have hu := h.kept hkept
      refine ⟨fun driver' path' device' hdevice => ?_, fun binding hbinding hne => ?_, fun path' => ?_,
        fun hnone binding hbinding => ?_,
        List.pairwise_append.mpr ⟨hu.timers, List.pairwise_singleton _ _, ?_⟩⟩
      · rw [driverDevice_addDevice] at hdevice
        split at hdevice
        · rename_i hsame
          cases hdevice
          rw [hsame.1, hsame.2]
          exact hmade
        · exact hu.made driver' path' device' hdevice
      · rw [driverDevice_addDevice]
        split
        · rfl
        · rename_i hother
          rcases List.mem_append.mp hbinding with hbinding | hbinding
          · exact hu.bound binding hbinding hne
          · cases List.mem_singleton.mp hbinding
            exact absurd ⟨rfl, rfl⟩ hother
      · rw [driverDevice_addDevice, if_neg fun hsame => hdriver hsame.1.symm]
        exact hu.dropped path'
      · rcases List.mem_append.mp hbinding with hbinding | hbinding
        · exact hu.alarm hnone binding hbinding
        · cases List.mem_singleton.mp hbinding
          intro htimer
          have hsome := (halarm htimer).2
          rw [show u.alarm = none from hnone] at hsome
          cases hsome
      · intro binding hbinding binding' hbinding' htimer
        cases List.mem_singleton.mp hbinding'
        intro htimer'
        exact h.alarm (halarm htimer').1 binding hbinding htimer

theorem Inv.new : Inv [] System.new := by
  refine ⟨fun driver path device hdevice => ?_, fun binding hbinding => ?_, fun _ => rfl,
    fun _ binding hbinding => ?_, .nil⟩
  · cases hdevice
  · cases hbinding
  · cases hbinding

/-! ## The setup of a core -/

/-- The alarm of the core is free, or the device is none. -/
theorem localSetup_runs {device : Device} (hready : device.Ready s.irq)
    (halarm : device.driver = "arm,armv7-timer" → s.alarm = none) :
    ∃ t, device.localSetup s = .ok () t ∧ t.localSetups = s.localSetups ∧
      (device.driver ≠ "arm,armv7-timer" → t.alarm = s.alarm) := by
  cases device with
  | genericTimer id virq =>
      obtain ⟨enabled, henable⟩ := (enableIrq_ok_iff virq s.irq).mpr hready
      have hrun : withIrq .toDo (enableIrq virq) s =
          .ok () { s with irq := { s.irq with enabled := enabled } } := by
        rw [withIrq, henable]
      refine ⟨{ s with irq := { s.irq with enabled := enabled }, alarm := some id }, ?_, rfl,
        absurd rfl⟩
      rw [Device.localSetup, bind_ok hrun, bind_ok get_apply, halarm rfl]
      rfl
  | auxClock id => exact ⟨s, rfl, rfl, fun _ => rfl⟩
  | other driver id => exact ⟨s, rfl, rfl, fun _ => rfl⟩

/-- The calls of `local_setup` for bindings whose drivers have these devices. -/
def reached (bindings : List (String × String)) (s : System) :
    List ((String × String) × Device) :=
  bindings.filterMap fun binding =>
    (s.driverDevice binding.1 binding.2).map fun device => (binding, device)

theorem reached_cons (binding : String × String) (bindings : List (String × String)) (s : System) :
    reached (binding :: bindings) s =
      ((s.driverDevice binding.1 binding.2).map fun device => (binding, device)).toList ++
        reached bindings s := by
  rw [reached, List.filterMap_cons]
  cases s.driverDevice binding.1 binding.2 with
  | none => rfl
  | some device => rfl

theorem Kept.reached_eq (h : Kept s t) (bindings : List (String × String)) :
    reached bindings t = reached bindings s := by
  simp only [reached, h.driverDevice]

/-- No `local_setup` fails, so all devices are reached. -/
theorem initLocalDevices_runs
    (hmade : ∀ driver path device, s.driverDevice driver path = some device →
      device.Made driver path s.irq)
    (halarm : s.alarm = none ∨ ∀ binding ∈ bindings, binding.1 ≠ "arm,armv7-timer")
    (htimers : bindings.Pairwise fun binding binding' =>
      binding.1 = "arm,armv7-timer" → binding'.1 ≠ "arm,armv7-timer") :
    ∃ t, initLocalDevices bindings s = .ok () t ∧
      t.localSetups = s.localSetups ++ reached bindings s := by
  induction bindings generalizing s with
  | nil => exact ⟨s, rfl, (List.append_nil _).symm⟩
  | cons binding bindings ih =>
      rw [List.pairwise_cons] at htimers
      cases hdevice : s.driverDevice binding.1 binding.2 with
      | none =>
          have hlocal : localInit binding.1 binding.2 s = .ok () s := by
            rw [localInit, bind_ok get_apply, hdevice]
            rfl
          obtain ⟨t, hrun, hsetups⟩ := ih hmade
            (halarm.imp_right fun hno b hb => hno b (List.mem_cons_of_mem _ hb)) htimers.2
          refine ⟨t, (bind_ok hlocal).trans hrun, ?_⟩
          rw [hsetups, reached_cons, hdevice]
          rfl
      | some device =>
          obtain ⟨hdriver, -, hready⟩ := hmade _ _ device hdevice
          let called : System :=
            { s with localSetups := s.localSetups ++ [((binding.1, binding.2), device)] }
          have hfree : device.driver = "arm,armv7-timer" → called.alarm = none := by
            intro htimer
            rcases halarm with hnone | hno
            · exact hnone
            · exact absurd (hdriver.symm.trans htimer) (hno binding List.mem_cons_self)
          obtain ⟨u, hsetup, hcalls, hkeeps⟩ := @localSetup_runs called device hready hfree
          have hkept : Kept called u := (localSetup_kept device called).ok hsetup
          have hlocal : localInit binding.1 binding.2 s = .ok () u := by
            rw [localInit, bind_ok get_apply, hdevice]
            exact (bind_ok modify_apply).trans hsetup
          have hlookup : ∀ driver path, u.driverDevice driver path = s.driverDevice driver path :=
            hkept.driverDevice
          have hmade' : ∀ driver path device, u.driverDevice driver path = some device →
              device.Made driver path u.irq := by
            intro driver path device' hdevice'
            rw [hlookup] at hdevice'
            exact (hmade driver path device' hdevice').mono hkept.irq
          have halarm' : u.alarm = none ∨ ∀ b ∈ bindings, b.1 ≠ "arm,armv7-timer" := by
            by_cases htimer : device.driver = "arm,armv7-timer"
            · exact .inr fun b hb => htimers.1 b hb (hdriver.symm.trans htimer)
            · rw [hkeeps htimer]
              exact halarm.imp_right fun hno b hb => hno b (List.mem_cons_of_mem _ hb)
          obtain ⟨t, hrun, hsetups⟩ := ih hmade' halarm' htimers.2
          refine ⟨t, (bind_ok hlocal).trans hrun, ?_⟩
          rw [hsetups, hcalls, hkept.reached_eq, reached_cons, hdevice, List.append_assoc]
          rfl

theorem Inv.localSetups_eq (h : Inv bindings s) : localSetups bindings s = reached bindings s := by
  obtain ⟨t, hrun, hsetups⟩ := @initLocalDevices_runs
    { s with alarm := none, localSetups := [] } bindings h.made (.inl rfl) h.timers
  rw [localSetups, hrun]
  exact hsetups

/-! ## Runs -/

/-- What is promised of a binding: the device manager finds a device with the path as its id,
and a core that starts sets this device up through the driver of the binding. -/
def Served (bindings : List (String × String)) (s : System) (binding : String × String) : Prop :=
  ∃ device, s.getDevice bindings binding.2 = some device ∧ device.id = .ok binding.2 ∧
    (binding, device) ∈ localSetups bindings s

/-- Neither of the two drivers is among them, and those of one path have one driver. -/
structure Regular (bindings : List (String × String)) : Prop where
  added : ∀ binding ∈ bindings, binding.1 ≠ "brcm,bcm2835-system-timer"
  named : ∀ binding ∈ bindings, binding.1 ≠ "brcm,bcm2835-aux"
  alone : ∀ binding ∈ bindings, ∀ binding' ∈ bindings, binding.2 = binding'.2 →
    binding.1 = binding'.1

theorem Inv.mem_localSetups (h : Inv bindings s) {binding : String × String} {device : Device} :
    (binding, device) ∈ localSetups bindings s ↔
      binding ∈ bindings ∧ s.driverDevice binding.1 binding.2 = some device := by
  rw [h.localSetups_eq, reached, List.mem_filterMap]
  constructor
  · rintro ⟨binding', hmem, hsome⟩
    obtain ⟨device', hdevice, heq⟩ := Option.map_eq_some_iff.mp hsome
    cases heq
    exact ⟨hmem, hdevice⟩
  · rintro ⟨hmem, hdevice⟩
    exact ⟨binding, hmem, by rw [hdevice]; rfl⟩

/-- The first binding of the path decides, so it is enough that all of them have the device. -/
theorem getDevice_eq {path : String} {device : Device}
    (h : ∀ binding ∈ bindings, binding.2 = path →
      s.driverDevice binding.1 binding.2 = some device)
    (hbound : ∃ binding ∈ bindings, binding.2 = path) :
    s.getDevice bindings path = some device := by
  cases hfound : s.getDevice bindings path with
  | none =>
      obtain ⟨binding, hmem, hpath⟩ := hbound
      have hnone := List.findSome?_eq_none_iff.mp hfound binding hmem
      rw [if_pos hpath, h binding hmem hpath] at hnone
      cases hnone
  | some device' =>
      obtain ⟨binding, hmem, hsome⟩ := List.exists_of_findSome?_eq_some hfound
      split at hsome
      · rename_i hpath
        rw [h binding hmem hpath] at hsome
        exact hsome.symm
      · cases hsome

/-- The bindings are served when, and only when, they are regular. -/
theorem Inv.served_iff (h : Inv bindings s) :
    (∀ binding ∈ bindings, Served bindings s binding) ↔ Regular bindings := by
  constructor
  · intro hserved
    refine ⟨fun binding hmem hdriver => ?_, fun binding hmem hdriver => ?_,
      fun binding hmem binding' hmem' hpath => ?_⟩
    · obtain ⟨device, -, -, hreached⟩ := hserved binding hmem
      have hdevice := (h.mem_localSetups.mp hreached).2
      rw [hdriver, h.dropped] at hdevice
      cases hdevice
    · obtain ⟨device, -, hid, hreached⟩ := hserved binding hmem
      have hmade := h.made _ _ device (h.mem_localSetups.mp hreached).2
      exact hmade.id.mp hid hdriver
    · obtain ⟨device, hfound, -, hreached⟩ := hserved binding hmem
      obtain ⟨device', hfound', -, hreached'⟩ := hserved binding' hmem'
      rw [← hpath, hfound] at hfound'
      cases hfound'
      exact (h.made _ _ device (h.mem_localSetups.mp hreached).2).madeBy.symm.trans
        (h.made _ _ device (h.mem_localSetups.mp hreached').2).madeBy
  · intro hregular binding hmem
    obtain ⟨device, hdevice⟩ :=
      Option.isSome_iff_exists.mp (h.bound binding hmem (hregular.added binding hmem))
    refine ⟨device, ?_, (h.made _ _ device hdevice).id.mpr (hregular.named binding hmem),
      h.mem_localSetups.mpr ⟨hmem, hdevice⟩⟩
    refine getDevice_eq (fun binding' hmem' hpath => ?_) ⟨binding, hmem, rfl⟩
    rw [hregular.alone binding' hmem' binding hmem hpath, hpath]
    exact hdevice

theorem replay_append (before : List Attempt) (s : System) (attempts : List Attempt)
    (attempt : Attempt) :
    replay setup dt before s (attempts ++ [attempt]) =
      replay setup dt before s attempts >>= fun t =>
        match matchDriver attempt.node.node with
        | none => .ok t
        | some driver => (call setup dt driver (before ++ attempts) attempt.node t).map Prod.fst := by
  induction attempts generalizing before s with
  | nil =>
      rw [List.nil_append, List.append_nil, replay, replay, except_ok_bind]
      cases matchDriver attempt.node.node with
      | none => rfl
      | some driver =>
          dsimp only
          cases call setup dt driver before attempt.node s with
          | error fault => rfl
          | ok called => rfl
  | cons first attempts ih =>
      rw [List.cons_append, replay, replay]
      cases matchDriver first.node.node with
      | none =>
          dsimp only
          rw [ih, List.append_assoc]
          rfl
      | some driver =>
          dsimp only
          cases call setup dt driver before first.node s with
          | error fault => rfl
          | ok called =>
              rw [except_ok_bind, except_ok_bind, ih, List.append_assoc]
              rfl

/-- The bindings fit the system that the calls have left. -/
def Fits (setup : Setup) (dt : DeviceTree) (s : PlatformDrivers.State) : Prop :=
  ∀ system, replay setup dt [] System.new s.history = .ok system → Inv s.bindings system

/-- One try keeps the invariant. -/
theorem Fits.tryNode {s : PlatformDrivers.State} (h : Fits setup dt s) (node : NodePtr) :
    Fits setup dt (PlatformDrivers.tryNode (answers setup dt) s node).1 := by
  intro system hsystem
  cases hdriver : matchDriver node.node with
  | none =>
      rw [PlatformDrivers.tryNode, hdriver] at hsystem ⊢
      exact h system hsystem
  | some driver =>
      have hhistory : (PlatformDrivers.tryNode (answers setup dt) s node).1.history =
          s.history ++ [⟨node, answers setup dt driver s.history node⟩] := by
        rw [PlatformDrivers.tryNode, hdriver]
        dsimp only
        split <;> rfl
      rw [hhistory, replay_append, except_bind_eq_ok] at hsystem
      obtain ⟨before, hbefore, hcall⟩ := hsystem
      simp only [hdriver, List.nil_append] at hcall
      obtain ⟨⟨after, result⟩, hcalled, rfl⟩ := except_map_eq_ok.mp hcall
      have hresult : answers setup dt driver s.history node = result := by
        rw [answers, hbefore, except_ok_bind, hcalled]
      have hinv := h before hbefore
      rw [PlatformDrivers.tryNode, hdriver]
      dsimp only
      rw [hresult]
      rw [call] at hcalled
      split at hcalled
      · rename_i heq
        cases hcalled
        exact hinv.initialized (tryInit_ok heq)
      · rename_i e t heq
        cases hcalled
        have hkept := hinv.kept (tryInit_error heq)
        cases e <;> exact hkept
      · cases hcalled

/-- The invariant holds after `init_platform_drivers`. -/
theorem initDrivers_inv {s : PlatformDrivers.State} {system : System}
    (h : initDrivers setup dt = .ok (s, system)) : Inv s.bindings system := by
  obtain ⟨system', hreplay, heq⟩ := except_map_eq_ok.mp h
  cases heq
  have hstart : Fits setup dt PlatformDrivers.State.new := by
    intro system hsystem
    cases hsystem
    exact Inv.new
  have hend : Fits setup dt (initPlatformDrivers (answers setup dt) dt) :=
    PlatformDrivers.initNodes_keeps (answers setup dt) (fun s hs => hs)
      (fun s node hs => hs.tryNode node) _ hstart
  exact hend system hreplay

theorem initDrivers_registered {s : PlatformDrivers.State} {system : System}
    (h : initDrivers setup dt = .ok (s, system)) : s.bindings = registrations s.history := by
  obtain ⟨system', -, heq⟩ := except_map_eq_ok.mp h
  cases heq
  exact PlatformDrivers.initNodes_registered _ _

/-- Of all runs, those serve their bindings in which the drivers of the system timer and of the
auxiliary clock never return `Ok` and drivers that do so for one path are the same. -/
theorem initDrivers_served_iff {s : PlatformDrivers.State} {system : System}
    (h : initDrivers setup dt = .ok (s, system)) :
    (∀ binding ∈ s.bindings, Served s.bindings system binding) ↔
      Regular (registrations s.history) := by
  rw [← initDrivers_registered h]
  exact (initDrivers_inv h).served_iff

/-- The local controller and two devices. -/
def board (first second : Node) : DeviceTree where
  address := 0x100
  size := 0x1000
  version := 17
  lastCompVersion := 16
  bootCpuidPhys := 0
  memoryReservations := []
  root := ⟨"", [], [first, InterruptController.localIntc, second]⟩
  phandleMap := [(1, [1])]

/-- The drivers whose devices always come up. -/
def allUp : Setup := fun _ _ _ => ([], .ok ())

theorem exists_initDrivers {setup : Setup} {dt : DeviceTree} {bindings : List (String × String)}
    (h : (initDrivers setup dt).toOption.map (fun run => run.1.bindings) = some bindings) :
    ∃ s system, initDrivers setup dt = .ok (s, system) ∧ s.bindings = bindings := by
  cases hrun : initDrivers setup dt with
  | error fault =>
      rw [hrun] at h
      cases h
  | ok run =>
      rw [hrun] at h
      exact ⟨run.1, run.2, rfl, Option.some.inj h⟩

/-- The timer asks for another try until the controller is there. -/
theorem initDrivers_served_board :
    let dt := board (InterruptController.localDevice "timer" "arm,armv7-timer" [0, 4, 1, 4, 3, 4])
      (InterruptController.localDevice "rng" "brcm,bcm2835-rng" [])
    ∃ s system, initDrivers allUp dt = .ok (s, system) ∧
      s.bindings = [("brcm,bcm2836-l1-intc", "/local_intc"), ("brcm,bcm2835-rng", "/rng"),
        ("arm,armv7-timer", "/timer")] ∧
      ∀ binding ∈ s.bindings, Served s.bindings system binding := by
  intro dt
  obtain ⟨s, system, hrun, hbindings⟩ := @exists_initDrivers allUp dt
    [("brcm,bcm2836-l1-intc", "/local_intc"), ("brcm,bcm2835-rng", "/rng"),
      ("arm,armv7-timer", "/timer")] (by decide +kernel)
  refine ⟨s, system, hrun, hbindings, (initDrivers_served_iff hrun).mpr ?_⟩
  rw [← initDrivers_registered hrun, hbindings]
  exact ⟨by decide, by decide, by decide⟩

/-- The system timer is brought up and bound, and the device manager does not find it. -/
theorem not_served_system_timer :
    ¬∀ (setup : Setup) (dt : DeviceTree) (s : PlatformDrivers.State) (system : System),
      initDrivers setup dt = .ok (s, system) →
        ∀ binding ∈ s.bindings, Served s.bindings system binding := by
  intro hall
  obtain ⟨s, system, hrun, hbindings⟩ := @exists_initDrivers allUp
    (board (InterruptController.localDevice "timer" "brcm,bcm2835-system-timer"
        [0, 4, 1, 4, 2, 4, 3, 4])
      (InterruptController.localDevice "rng" "brcm,bcm2835-rng" []))
    [("brcm,bcm2836-l1-intc", "/local_intc"), ("brcm,bcm2835-rng", "/rng"),
      ("brcm,bcm2835-system-timer", "/timer")] (by decide +kernel)
  have hregular := (initDrivers_inv hrun).served_iff.mp (hall _ _ s system hrun)
  refine hregular.added ("brcm,bcm2835-system-timer", "/timer") ?_ rfl
  rw [hbindings]
  decide

end Kruspix.Drivers.DeviceManager
