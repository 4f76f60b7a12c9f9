import Kruspix.Drivers.Usb.InterruptSteps
import Kruspix.Lib.Transition

/-!
# The phase of the transfer and the mask of the channel

Between two sections the transfer is in flight exactly when the channel is armed
for it and not masked. A recovery writes the phase of whatever transfer it finds
when it ends, so it must not find one in flight.
-/

namespace Kruspix.Drivers.Usb

open Lib.Masks Lib.Transition

variable {ctl : Controller} {s t : State} {c : Channel}

/-- The state agrees with the channel when the lock is free. -/
structure Consistent (s : State) : Prop where
  inFlight : ∀ state, s.interrupt = some state → (state.pollPhase = .inFlight ↔
    s.channel.intMask ≠ 0 ∧ s.channel.armedFor = some state.id)
  split : ∀ state, s.interrupt = some state →
    (state.splitPhase = .none ↔ state.transfer.route.usesSplitTransactions = false)
  retries : ∀ state, s.interrupt = some state →
    state.splitCompleteRetries ≤ MAX_SPLIT_COMPLETE_RETRIES ∧
      state.errorRetries ≤ MAX_INTERRUPT_ERROR_RETRIES
  absent : s.interrupt = none → s.channel.intMask = 0

/-- A recovery that ends does not find a transfer in flight. -/
def RecoveryAlone (s : State) : Event → Prop
  | .recover index _ _ => s.recoveries[index]? = some .finish →
      ∀ state ∈ s.interrupt, state.pollPhase ≠ .inFlight
  | _ => True

instance (s : State) (e : Event) : Decidable (RecoveryAlone s e) :=
  match e with
  | .recover index _ _ => inferInstanceAs (Decidable (s.recoveries[index]? = some .finish →
      ∀ state ∈ s.interrupt, state.pollPhase ≠ .inFlight))
  | .submitInterruptIn _ _ => inferInstanceAs (Decidable True)
  | .cancelInterruptIn _ _ _ => inferInstanceAs (Decidable True)
  | .pollInterruptTransfers _ => inferInstanceAs (Decidable True)
  | .stop _ _ => inferInstanceAs (Decidable True)
  | .handleIrq _ => inferInstanceAs (Decidable True)
  | .raise _ => inferInstanceAs (Decidable True)

/-- A state and the channel it uses. -/
structure Sane (ctl : Controller) (c : Channel) (state : AsyncInterruptState) : Prop where
  startable : Startable ctl state.transfer
  inFlight : state.pollPhase = .inFlight →
    c.intMask = INTERRUPT_IRQ_MASK ∧ c.armedFor = some state.id
  masked : state.pollPhase ≠ .inFlight → c.intMask = 0
  split : state.splitPhase = .none ↔ state.transfer.route.usesSplitTransactions = false
  splitRetries : state.splitCompleteRetries ≤ MAX_SPLIT_COMPLETE_RETRIES
  errorRetries : state.errorRetries ≤ MAX_INTERRUPT_ERROR_RETRIES

/-- No transfer was stopped, the one there is agrees with the channel, and without one the channel
is masked. -/
structure Inv (ctl : Controller) (s : State) : Prop where
  stops : s.stops = []
  present : ∀ state, s.interrupt = some state → Sane ctl s.channel state
  absent : s.interrupt = none → s.channel.intMask = 0

theorem Inv.consistent (h : Inv ctl s) : Consistent s := by
  refine ⟨fun state hstate => ?_, fun state hstate => (h.present state hstate).split,
    fun state hstate => ?_, h.absent⟩
  · have hsane := h.present state hstate
    constructor
    · intro hphase
      obtain ⟨hmask, harmed⟩ := hsane.inFlight hphase
      exact ⟨by rw [hmask]; decide, harmed⟩
    · rintro ⟨hmask, -⟩
      by_contra hphase
      exact hmask (hsane.masked hphase)
  · have hsane := h.present state hstate
    exact ⟨hsane.splitRetries, hsane.errorRetries⟩

@[simp] theorem armed_intMask (c : Channel) (state : AsyncInterruptState) (dmaAddr : Word)
    (r : Readings) : (c.armed state dmaAddr r).intMask = INTERRUPT_IRQ_MASK := by
  simp only [Channel.armed, Channel.halted, react_intMask]
  rfl

/-- An idle transfer with a masked channel. -/
theorem Inv.idle (h : Inv ctl s) (state : AsyncInterruptState) (now : UInt64)
    (hstart : Startable ctl state.transfer)
    (herror : state.errorRetries ≤ MAX_INTERRUPT_ERROR_RETRIES) :
    Inv ctl (s.idle state now) := by
  refine ⟨h.stops, ?_, fun hnone => by cases hnone⟩
  rintro st ⟨rfl⟩
  exact ⟨hstart, fun hphase => (by cases hphase), fun _ => rfl,
    firstSplitPhase_eq_none _, Nat.zero_le _, herror⟩

/-- A transfer that has just been started. -/
theorem Inv.started (h : Inv ctl s) (state : AsyncInterruptState) (r : Readings) (dmaAddr : Word)
    (hstart : Startable ctl state.transfer)
    (hsplit : state.splitPhase = .none ↔ state.transfer.route.usesSplitTransactions = false)
    (hretries : state.splitCompleteRetries ≤ MAX_SPLIT_COMPLETE_RETRIES)
    (herror : state.errorRetries ≤ MAX_INTERRUPT_ERROR_RETRIES) :
    Inv ctl { s with
      interrupt := some (state.started r), channel := s.channel.armed state dmaAddr r } := by
  refine ⟨h.stops, ?_, fun hnone => by cases hnone⟩
  rintro st ⟨rfl⟩
  exact ⟨hstart, fun _ => ⟨armed_intMask _ _ _ _, rfl⟩, fun hphase => absurd rfl hphase, hsplit,
    hretries, herror⟩

theorem Inv.stopInterruptWithError (h : Inv ctl s) (error : UsbError) (reply : Option Raise) :
    Inv ctl (stopInterruptWithError error reply s) := by
  simp only [Usb.stopInterruptWithError, State.takeInterrupt]
  split
  · rename_i hnone
    refine ⟨h.stops, fun st hst => ?_, fun _ => rfl⟩
    rw [hnone] at hst
    cases hst
  · exact ⟨h.stops, fun st hst => (by cases hst), fun _ => rfl⟩

theorem Inv.records (h : Inv ctl s) (toggles : Nat) (handled : List (List UInt8)) :
    Inv ctl { s with toggles := toggles, handled := handled } :=
  ⟨h.stops, h.present, h.absent⟩

theorem Inv.acked (h : Inv ctl s) : Inv ctl s.acked := by
  refine ⟨h.stops, fun st hst => ?_, h.absent⟩
  obtain ⟨hstart, hflight, hmasked, hsplit, hretries, herror⟩ := h.present st hst
  exact ⟨hstart, hflight, hmasked, hsplit, hretries, herror⟩

theorem Inv.handleInterruptChannelIrq (h : Inv ctl s) (i : IrqReadings) :
    Inv ctl (handleInterruptChannelIrq ctl i s) := by
  have hhandled := handleInterruptChannelIrq_handled ctl i s
  generalize Usb.handleInterruptChannelIrq ctl i s = t at hhandled ⊢
  cases hhandled with
  | ignored hskip => exact h
  | absent hstate =>
      refine ⟨h.stops, fun st hst => ?_, fun _ => rfl⟩
      rw [hstate] at hst
      cases hst
  | retried state hstate herror hretries =>
      exact h.acked.idle _ i.now (h.present state hstate).startable hretries
  | stopped error hstate => exact h.acked.stopInterruptWithError error i.stopReply
  | nothing state hstate hnak =>
      exact h.acked.idle _ i.now (h.present state hstate).startable (Nat.zero_le _)
  | nyet state hstate hrecovering hnyet hsplit hphase hretries =>
      have hsane := h.present state hstate
      obtain ⟨dmaAddr, -, hrestart⟩ := restart_ok { state with
        errorRetries := 0, splitCompleteRetries := state.splitCompleteRetries + 1 }
        hsane.startable i s.acked
      rw [hrestart]
      exact h.acked.started _ i.toReadings dmaAddr hsane.startable hsane.split hretries
        (Nat.zero_le _)
  | splitStarted state hstate hrecovering hcompletion hsplit hphase =>
      have hsane := h.present state hstate
      obtain ⟨dmaAddr, -, hrestart⟩ := restart_ok { state with
        errorRetries := 0, splitPhase := .complete, splitCompleteRetries := 0 }
        hsane.startable i s.acked
      rw [hrestart]
      exact h.acked.started _ i.toReadings dmaAddr hsane.startable (by simp [hsplit])
        (Nat.zero_le _) (Nat.zero_le _)
  | completed state hstate hrecovering hcompletion hphase =>
      exact Inv.idle (h.acked.records _ _) _ i.now (h.present state hstate).startable (Nat.zero_le _)

theorem Inv.handleIrq (h : Inv ctl s) (i : IrqReadings) : Inv ctl (handleIrq ctl i s) := by
  apply handleIrq_rule h
  · intro error reply _ u hu
    exact hu.stopInterruptWithError error reply
  · intro u hu
    exact hu.handleInterruptChannelIrq i
  · exact fun _ => id

/-- The halt of a recovery does not touch the mask, and its end finds a masked channel. -/
theorem Inv.recoverStep {index : Nat} {timedOut : Bool} {now : UInt64} (h : Inv ctl s)
    (halone : RecoveryAlone s (.recover index timedOut now))
    (hst : Usb.recoverStep s index timedOut now = some t) : Inv ctl t := by
  have hchannel : ∀ (hcint hcchar : Word) (enabled : Bool) (recoveries : List RecoverStep),
      Inv ctl { s with
        channel := { s.channel with hcint := hcint, hcchar := hcchar, enabled := enabled }
        recoveries := recoveries } := by
    intro hcint hcchar enabled recoveries
    refine ⟨h.stops, fun st hst => ?_, h.absent⟩
    obtain ⟨hstart, hflight, hmasked, hsplit, hretries, herror⟩ := h.present st hst
    exact ⟨hstart, hflight, hmasked, hsplit, hretries, herror⟩
  simp only [Usb.recoverStep] at hst
  split at hst
  · cases hst
  · cases hst
    exact hchannel _ _ _ _
  · cases hst
    exact hchannel _ _ _ _
  · split_ifs at hst
    · cases hst
      exact hchannel _ _ _ _
    · cases hst
      exact hchannel _ _ _ _
    · cases hst
      exact h
  · cases hst
    exact hchannel _ _ _ _
  · cases hst
    exact hchannel _ _ _ _
  · rename_i hfinish
    cases hst
    refine ⟨h.stops, fun st hst => ?_, fun hnone => h.absent (by simpa using hnone)⟩
    obtain ⟨state, hstate, rfl⟩ := Option.map_eq_some_iff.mp hst
    obtain ⟨hstart, -, hmasked, hsplit, hretries, herror⟩ := h.present state hstate
    exact ⟨hstart, fun hphase => (by cases hphase),
      fun _ => hmasked (halone hfinish state hstate), hsplit, hretries, herror⟩

theorem Inv.step {e : Event} (h : Inv ctl s) (halone : RecoveryAlone s e)
    (hst : Usb.step ctl s e = some t) : Inv ctl t := by
  cases e with
  | submitInterruptIn transfer r =>
      simp only [Usb.step] at hst
      split_ifs at hst
      cases hst
      have hsubmitted := @submitInterruptIn_submitted ctl transfer r s
      generalize submitInterruptIn ctl transfer r s = out at hsubmitted ⊢
      cases hsubmitted with
      | refused e => exact ⟨h.stops, h.present, h.absent⟩
      | failed e hnone =>
          refine ⟨h.stops, fun st hst => ?_, h.absent⟩
          obtain ⟨hstart, hflight, hmasked, hsplit, hretries, herror⟩ := h.present st hst
          exact ⟨hstart, hflight, hmasked, hsplit, hretries, herror⟩
      | ok state dmaAddr hvalid hnone hstart haddr hstate =>
          subst hstate
          obtain ⟨hstops, hpresent, habsent⟩ := h.started
            (AsyncInterruptState.new s.submitted transfer
              (ctl.interruptIntervalTicks transfer.route transfer.endpoint) r.now) r dmaAddr hstart
            (firstSplitPhase_eq_none _) (Nat.zero_le _) (Nat.zero_le _)
          exact ⟨hstops, hpresent, habsent⟩
  | cancelInterruptIn route endpoint reply =>
      simp only [Usb.step, Option.some.injEq] at hst
      subst hst
      simp only [cancelInterruptIn]
      split
      · split_ifs
        · exact ⟨h.stops, fun st hst => (by cases hst), fun _ => rfl⟩
        · exact h
      · exact h
  | pollInterruptTransfers r =>
      simp only [Usb.step, Option.some.injEq] at hst
      subst hst
      have hpolled := serviceInterruptPolls_polled r fun st hst => (h.present st hst).startable
      generalize serviceInterruptPolls ctl r s = t at hpolled ⊢
      cases hpolled with
      | waits => exact h
      | recovers state hstate hphase =>
          obtain ⟨hstart, -, -, -, -, herror⟩ := h.present state hstate
          refine ⟨h.stops, ?_, fun hnone => (by cases hnone)⟩
          rintro st ⟨rfl⟩
          exact ⟨hstart, fun hflight => (by cases hflight), fun _ => rfl,
            firstSplitPhase_eq_none _, Nat.zero_le _, herror⟩
      | starts state hstate hphase hdue dmaAddr haddr =>
          have hsane := h.present state hstate
          exact h.started _ r dmaAddr hsane.startable hsane.split hsane.splitRetries
            hsane.errorRetries
  | recover index timedOut now =>
      exact h.recoverStep halone hst
  | stop index reply =>
      simp only [Usb.step, stopStep, h.stops, List.getElem?_nil] at hst
      cases hst
  | handleIrq i =>
      simp only [Usb.step, Option.some.injEq] at hst
      subst hst
      exact h.handleIrq i
  | raise r =>
      simp only [Usb.step, Option.some.injEq] at hst
      subst hst
      refine ⟨h.stops, fun st hst => ?_, fun hnone => ?_⟩
      · obtain ⟨hstart, hflight, hmasked, hsplit, hretries, herror⟩ := h.present st hst
        exact ⟨hstart, by simpa using hflight, by simpa using hmasked, hsplit, hretries, herror⟩
      · simpa using h.absent hnone

/-- In every run in which no recovery ends while another transfer is in flight. A stop
is under way in none of them, as a transfer that was started can be started again. -/
theorem alone_consistent (s : State)
    (h : Reachable Started (Step (step ctl) RecoveryAlone) s) : Consistent s := by
  refine (h.invariant (P := Inv ctl) ?_ fun s t _ hs hst => ?_).consistent
  · rintro s ⟨hmask, -, -, -, hinterrupt, -, hstops, -⟩
    refine ⟨hstops, fun st hst => ?_, fun _ => hmask⟩
    rw [hinterrupt] at hst
    cases hst
  · obtain ⟨e, hallowed, ht⟩ := hst
    exact hs.step hallowed ht

/-- A recovery that finds a transfer in flight breaks the relation. -/
theorem recoverStep_not_consistent {index : Nat} {timedOut : Bool} {now : UInt64}
    (h : Consistent s) (halone : ¬RecoveryAlone s (.recover index timedOut now))
    (hst : Usb.step ctl s (.recover index timedOut now) = some t) : ¬Consistent t := by
  simp only [RecoveryAlone, not_forall] at halone
  obtain ⟨hfinish, state, hstate, hphase⟩ := halone
  have hflight : state.pollPhase = .inFlight := not_not.mp hphase
  have hstate : s.interrupt = some state := hstate
  simp only [Usb.step, Usb.recoverStep, hfinish, hstate] at hst
  cases hst
  intro hconsistent
  have hidle := (hconsistent.inFlight _ rfl).mpr ((h.inFlight state hstate).mp hflight)
  cases hidle

/-- A transfer that was recovered and started again. -/
theorem alone_consistent_recovered :
    ∃ s, (s.interrupt.map fun state => state.pollPhase) = some .inFlight ∧ Consistent s := by
  have hrun : (run (step slowController) RecoveryAlone setUp
      [.submitInterruptIn (keyboardReports 0x1000) (quiet 0),
        .pollInterruptTransfers (quiet 50), .recover 0 false 50, .recover 0 false 50,
        .recover 0 true 150, .recover 0 false 150, .recover 0 false 150,
        .pollInterruptTransfers (quiet 160)]).map
        (fun s => s.interrupt.map fun state => state.pollPhase) = some (some .inFlight) := by
    decide +kernel
  obtain ⟨s, hs, hphase⟩ := Option.map_eq_some_iff.mp hrun
  exact ⟨s, hphase, alone_consistent s ⟨setUp, setUp_started, reflTransGen_of_run _ hs⟩⟩

/-- A transfer is cancelled during its recovery, and the next one is submitted. When
the recovery ends, the next one is idle though the channel is armed for it. -/
theorem resubmitted_not_consistent :
    ∃ s, Reachable Started (Step (step slowController) fun _ _ => True) s ∧
      s.stops = [] ∧ ¬Consistent s := by
  have hrun : (run (step slowController) (fun _ _ => True) setUp
      [.submitInterruptIn (keyboardReports 0x1000) (quiet 0),
        .pollInterruptTransfers (quiet 50),
        .cancelInterruptIn (keyboardReports 0x1000).route
          (keyboardReports 0x1000).endpoint.address (some ⟨HCINT_HALTED, []⟩),
        .submitInterruptIn (keyboardReports 0x2000) (quiet 60), .recover 0 false 60,
        .recover 0 false 60, .recover 0 true 160, .recover 0 false 160,
        .recover 0 false 160]).any fun s =>
        s.stops = [] ∧ s.channel.intMask ≠ 0 ∧ s.interrupt.any fun state =>
          state.pollPhase ≠ .inFlight ∧ s.channel.armedFor = some state.id := by
    decide +kernel
  obtain ⟨s, hs, hend⟩ := (Option.any_eq_true _ _).mp hrun
  obtain ⟨hstops, hmask, hany⟩ := of_decide_eq_true hend
  obtain ⟨state, hstate, hphase⟩ := (Option.any_eq_true _ _).mp hany
  obtain ⟨hphase, harmed⟩ := of_decide_eq_true hphase
  exact ⟨s, ⟨setUp, setUp_started, reflTransGen_of_run _ hs⟩, hstops, fun h =>
    hphase ((h.inFlight state hstate).mpr ⟨hmask, harmed⟩)⟩

end Kruspix.Drivers.Usb
