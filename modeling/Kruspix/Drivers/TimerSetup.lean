import Kruspix.Drivers.Timers
import Kruspix.Kernel.Devicetree.Node
import Kruspix.Kernel.TimeRegistry
import Kruspix.Lib.Transition

/-!
# Bringing up the timers

The frequency of the generic timer comes from its register, or else from its node, and is zero
if neither has one. That of the system timer comes from its node, or else is 1 MHz.
-/

namespace Kruspix.Drivers.TimerSetup

open Kernel.Devicetree Kernel.TimeRegistry Lib.Transition Timers

/-- The devices behind the traits of timers and alarms. -/
inductive ClockDevice
  | system (dev : TimerDevice)
  | generic (dev : GenericTimerDevice)
  deriving DecidableEq, Repr

instance : Clocked ClockDevice where
  frequencyHz
    | .system dev => dev.frequencyHz
    | .generic dev => dev.frequencyHz

/-- The errors of the drivers of the timers. -/
inductive DriverInitError
  | retry
  | deviceTreeError
  | toDo
  deriving DecidableEq, Repr

/-- What a driver returns, with the registry. `none` is a panic. -/
abbrev Init := Option (Except DriverInitError Unit × Registry ClockDevice)

/-- `global_setup` of the generic timer before the registration. -/
def overrideFrequency (dev : GenericTimerDevice) (cntfrq : UInt64) : GenericTimerDevice :=
  if cntfrq > 0 then { dev with clockFrequency := cntfrq } else dev

/-- `local_setup` of the generic timer before its interrupt is enabled. -/
def disableVirtualTimer (dev : GenericTimerDevice) : GenericTimerDevice :=
  { dev with regs := { dev.regs with ctl := 0b10, tval := 0xffffffff } }

/-- `GenericTimerDriver::try_init`. The results of `resolve_virq` and of `enable_irq` and the
registers of the core are given. -/
def genericTryInit (ptr : NodePtr) (virq : Option UInt32) (irqEnabled : Bool) (cntfrq : UInt64)
    (regs : TimerRegisters) (r : Registry ClockDevice) : Init :=
  let frequency := ptr.node.clockFrequency.getD (.u32 0)
  match virq with
  | none => some (.error .retry, r)
  | some virq => do
      let dev : GenericTimerDevice := ⟨ptr.path, frequency.asU64, virq, regs⟩
      let dev := overrideFrequency dev cntfrq
      let r ← r.registerGlobalTimer (.generic dev)
      let dev := disableVirtualTimer dev
      if irqEnabled then
        let r ← r.registerLocalAlarm (.generic dev)
        return (.ok (), r)
      else return (.error .toDo, r)

/-- `TimerDriver::try_init`. The results of `resolve_phys_address_and_length` and of
`resolve_virq` and the mapped registers are given. -/
def systemTryInit (ptr : NodePtr) (resolved : Bool) (virq : Option UInt32) (regs : Registers)
    (r : Registry ClockDevice) : Init :=
  match ptr.node.reg with
  | none => some (.error .deviceTreeError, r)
  | some reg =>
      if reg.length ≠ 1 then some (.error .deviceTreeError, r)
      else
        let rate := ptr.node.clockFrequency.elim 1_000_000 ClockFrequency.asU64
        match resolved, virq with
        | false, _ => some (.error .deviceTreeError, r)
        | true, none => some (.error .retry, r)
        | true, some virq => do
            -- the match bit is cleared by writing it
            let dev : TimerDevice := ⟨ptr.path, rate, virq, regs⟩
            let dev := dev.clearIrq.setCompare 0
            let r ← r.registerGlobalTimer (.system dev)
            let r ← r.registerGlobalAlarm (.system dev)
            return (.ok (), r)

/-- The tries of the two drivers. -/
inductive Event
  | generic (ptr : NodePtr) (virq : Option UInt32) (irqEnabled : Bool) (cntfrq : UInt64)
      (regs : TimerRegisters)
  | system (ptr : NodePtr) (resolved : Bool) (virq : Option UInt32) (regs : Registers)

/-- `try_init` of the driver of either timer. -/
def tryInit (r : Registry ClockDevice) : Event → Init
  | .generic ptr virq irqEnabled cntfrq regs => genericTryInit ptr virq irqEnabled cntfrq regs r
  | .system ptr resolved virq regs => systemTryInit ptr resolved virq regs r

/-- `none` is a panic. -/
def step (s : Option (Registry ClockDevice)) (e : Event) : Option (Registry ClockDevice) :=
  s.bind fun r => (tryInit r e).map Prod.snd

/-- Nothing has panicked, and no conversion will. -/
def Sound (s : Option (Registry ClockDevice)) : Prop := ∃ r, s = some r ∧ r.Sound

/-- The device that is registered has a frequency, and the core no alarm yet. -/
def KnownIn (r : Registry ClockDevice) : Event → Prop
  | .generic ptr virq irqEnabled cntfrq _ => virq.isSome →
      (cntfrq ≠ 0 ∨ ∃ frequency, ptr.node.clockFrequency = some frequency ∧ frequency.asU64 ≠ 0) ∧
        (irqEnabled = true → r.localAlarm = none)
  | .system ptr resolved virq _ =>
      ptr.node.reg.map List.length = some 1 → resolved = true → virq.isSome →
        ∀ frequency, ptr.node.clockFrequency = some frequency → frequency.asU64 ≠ 0

/-- The condition on the registry, as long as nothing has panicked. -/
def Known (s : Option (Registry ClockDevice)) (e : Event) : Prop := ∀ r, s = some r → KnownIn r e

section Steps

variable {r : Registry ClockDevice} {ptr : NodePtr} {virq : UInt32} {cntfrq : UInt64}
  {regs : TimerRegisters}

theorem frequencyHz_generic {dev : GenericTimerDevice} :
    frequencyHz (ClockDevice.generic dev) = dev.clockFrequency := rfl

theorem frequencyHz_system {dev : TimerDevice} :
    frequencyHz (ClockDevice.system dev) = dev.clockFrequency := rfl

theorem asU64_getD_ne_zero {frequency : Option ClockFrequency} :
    (frequency.getD (.u32 0)).asU64 ≠ 0 ↔ ∃ f, frequency = some f ∧ f.asU64 ≠ 0 := by
  cases frequency with
  | none => exact iff_of_false (fun h => h rfl) (fun ⟨_, h, _⟩ => by cases h)
  | some f => simp

theorem asU64_elim_ne_zero {frequency : Option ClockFrequency} :
    frequency.elim 1_000_000 ClockFrequency.asU64 ≠ 0 ↔
      ∀ f, frequency = some f → f.asU64 ≠ 0 := by
  cases frequency with
  | none => exact iff_of_true (by decide) nofun
  | some f => simp

theorem overrideFrequency_ne_zero {dev : GenericTimerDevice} :
    (overrideFrequency dev cntfrq).clockFrequency ≠ 0 ↔ cntfrq ≠ 0 ∨ dev.clockFrequency ≠ 0 := by
  rw [overrideFrequency]
  split
  · rename_i hpos
    have hne : cntfrq ≠ 0 := UInt64.pos_iff_ne_zero.mp hpos
    exact iff_of_true hne (.inl hne)
  · rename_i hzero
    have heq : cntfrq = 0 := not_not.mp fun hne => hzero (UInt64.pos_iff_ne_zero.mpr hne)
    simp [heq]

/-- A generic timer is brought up with a frequency, on a core without an alarm. -/
theorem genericTryInit_sound_iff (h : r.Sound) {virq : Option UInt32} {irqEnabled : Bool} :
    (∃ t, (genericTryInit ptr virq irqEnabled cntfrq regs r).map Prod.snd = some t ∧ t.Sound) ↔
      KnownIn r (.generic ptr virq irqEnabled cntfrq regs) := by
  cases virq with
  | none => exact iff_of_true ⟨r, rfl, h⟩ nofun
  | some virq =>
      generalize hdev : overrideFrequency ⟨ptr.path, (ptr.node.clockFrequency.getD (.u32 0)).asU64,
        virq, regs⟩ cntfrq = dev
      have hfrequency : frequencyHz (ClockDevice.generic dev) ≠ 0 ↔ cntfrq ≠ 0 ∨
          ∃ f, ptr.node.clockFrequency = some f ∧ f.asU64 ≠ 0 := by
        rw [frequencyHz_generic, ← hdev, overrideFrequency_ne_zero]
        exact or_congr Iff.rfl asU64_getD_ne_zero
      have hinit : genericTryInit ptr (some virq) irqEnabled cntfrq regs r = (do
          let r ← r.registerGlobalTimer (.generic dev)
          if irqEnabled then
            let r ← r.registerLocalAlarm (.generic (disableVirtualTimer dev))
            return (.ok (), r)
          else return (.error .toDo, r) : Init) := by
        rw [genericTryInit, ← hdev]
      rw [hinit, KnownIn, ← hfrequency]
      constructor
      · rintro ⟨t, ht, hsound⟩ -
        obtain ⟨⟨result, r'⟩, hrun, rfl⟩ := Option.map_eq_some_iff.mp ht
        rw [Option.bind_eq_bind, Option.bind_eq_some_iff] at hrun
        obtain ⟨r₁, hr₁, hrun⟩ := hrun
        obtain ⟨htimers, hlocal⟩ := Registry.registerGlobalTimer_eq_some hr₁
        have hmem : ClockDevice.generic dev ∈ r₁.globalTimers := by
          rw [htimers]
          exact List.mem_append_right _ (List.mem_singleton_self _)
        cases irqEnabled with
        | false =>
            cases hrun
            exact ⟨converts_iff.mp (hsound.globalTimers _ hmem), nofun⟩
        | true =>
            obtain ⟨r₂, hr₂, hrun⟩ := Option.bind_eq_some_iff.mp hrun
            obtain ⟨hnone, htimers₂⟩ := Registry.registerLocalAlarm_eq_some hr₂
            cases hrun
            refine ⟨converts_iff.mp (hsound.globalTimers _ ?_), fun _ => hlocal ▸ hnone⟩
            rwa [htimers₂]
      · intro hknown
        obtain ⟨hne, hlocal⟩ := hknown rfl
        obtain ⟨r₁, hr₁, hs₁⟩ := h.registerGlobalTimer hne
        rw [hr₁]
        cases irqEnabled with
        | false => exact ⟨r₁, rfl, hs₁⟩
        | true =>
            have hnone := (Registry.registerGlobalTimer_eq_some hr₁).2.trans (hlocal rfl)
            have hne' : frequencyHz (ClockDevice.generic (disableVirtualTimer dev)) ≠ 0 := hne
            obtain ⟨r₂, hr₂, hs₂⟩ := hs₁.registerLocalAlarm hne' hnone
            refine ⟨r₂, ?_, hs₂⟩
            simp only [Option.bind_eq_bind, Option.bind_some, if_true, hr₂]
            rfl

/-- A system timer is brought up with a frequency. -/
theorem systemTryInit_sound_iff (h : r.Sound) {resolved : Bool} {virq : Option UInt32}
    {regs : Registers} :
    (∃ t, (systemTryInit ptr resolved virq regs r).map Prod.snd = some t ∧ t.Sound) ↔
      KnownIn r (.system ptr resolved virq regs) := by
  rw [systemTryInit, KnownIn]
  cases hreg : ptr.node.reg with
  | none => exact iff_of_true ⟨r, rfl, h⟩ nofun
  | some reg =>
      dsimp only
      by_cases hlength : reg.length ≠ 1
      · rw [if_pos hlength]
        exact iff_of_true ⟨r, rfl, h⟩ fun hone => absurd (Option.some.inj hone) hlength
      · rw [if_neg hlength]
        cases resolved with
        | false => exact iff_of_true ⟨r, rfl, h⟩ (fun _ hfalse => by cases hfalse)
        | true =>
            cases virq with
            | none => exact iff_of_true ⟨r, rfl, h⟩ (fun _ _ hnone => by cases hnone)
            | some virq =>
                generalize hdev : (TimerDevice.clearIrq ⟨ptr.path,
                  ptr.node.clockFrequency.elim 1_000_000 ClockFrequency.asU64, virq,
                  regs⟩).setCompare 0 = dev
                have hfrequency : frequencyHz (ClockDevice.system dev) ≠ 0 ↔
                    ∀ f, ptr.node.clockFrequency = some f → f.asU64 ≠ 0 := by
                  rw [frequencyHz_system, ← hdev]
                  exact asU64_elim_ne_zero
                dsimp only
                rw [hdev, ← hfrequency]
                constructor
                · rintro ⟨t, ht, hsound⟩ - - -
                  obtain ⟨⟨result, r'⟩, hrun, rfl⟩ := Option.map_eq_some_iff.mp ht
                  rw [Option.bind_eq_bind, Option.bind_eq_some_iff] at hrun
                  obtain ⟨r₁, hr₁, hrun⟩ := hrun
                  obtain ⟨r₂, hr₂, hrun⟩ := Option.bind_eq_some_iff.mp hrun
                  cases hrun
                  refine converts_iff.mp (hsound.globalTimers _ ?_)
                  rw [Registry.registerGlobalAlarm_eq_some hr₂,
                    (Registry.registerGlobalTimer_eq_some hr₁).1]
                  exact List.mem_append_right _ (List.mem_singleton_self _)
                · intro hknown
                  have hne := hknown (congrArg some (not_not.mp hlength)) rfl rfl
                  obtain ⟨r₁, hr₁, hs₁⟩ := h.registerGlobalTimer hne
                  obtain ⟨r₂, hr₂, hs₂⟩ := hs₁.registerGlobalAlarm hne
                  refine ⟨r₂, ?_, hs₂⟩
                  rw [hr₁]
                  simp only [Option.bind_eq_bind, Option.bind_some, hr₂]
                  rfl

end Steps

/-- Along any tries of the drivers from an empty registry nothing panics, no conversion of a
registered device does, and no device without a frequency is chosen, exactly if each device
that is registered has a frequency and the core gets one alarm. -/
theorem sound_along_iff (es : List Event) :
    (∀ s ∈ states step (some .new) es, Sound s) ↔ Along step Known (some .new) es := by
  refine forall_states_iff (fun s e => ?_) ⟨.new, rfl, Registry.sound_new⟩ es
  rintro ⟨r, rfl, hr⟩
  have hstep : Sound (step (some r) e) ↔ KnownIn r e := by
    cases e with
    | generic ptr virq irqEnabled cntfrq regs => exact genericTryInit_sound_iff hr
    | system ptr resolved virq regs => exact systemTryInit_sound_iff hr
  rw [hstep, Known]
  exact ⟨fun h r' hr' => Option.some.inj hr' ▸ h, fun h => h r rfl⟩

/-- A generic timer of a tree without a clock frequency. -/
def unclockedNode : NodePtr := ⟨⟨"timer", [], []⟩, [], [0]⟩

/-- Its register has no frequency either. -/
def unclockedEvents : List Event := [.generic unclockedNode (some 3) true 0 ⟨0, 0, 0⟩]

/-- The timer is chosen with the frequency zero. -/
theorem not_sound_unclocked : ¬ ∀ s ∈ states step (some .new) unclockedEvents, Sound s := by
  intro h
  obtain ⟨r, hr, hsound⟩ := h _ (.tail _ (.head _))
  cases hr
  exact hsound.systemTimer _ rfl rfl

end Kruspix.Drivers.TimerSetup
