import Kruspix.Drivers.Usb.InterruptSteps
import Kruspix.Lib.Transition

/-!
# The page of a transfer and the channel

The channel keeps the address it was armed with. A transfer is taken out of the lock
after the channel was halted, and the halt can fail: the page goes back then while
the channel may still write to it. When the channel answers every such halt, the page
it is enabled with is the page of the present transfer.
-/

namespace Kruspix.Drivers.Usb

open Lib.Masks Lib.Transition

variable {ctl : Controller} {s t : State} {c : Channel}

/-- The present transfer has the page that the channel was last armed with. -/
def State.OwnsPage (s : State) : Prop :=
  ∃ state ∈ s.interrupt, state.transfer.buffer.physAddr = s.channel.dmaPhys

instance (s : State) : Decidable s.OwnsPage := by
  unfold State.OwnsPage
  infer_instance

/-- The channel is enabled only with the page of the present transfer, and was not
enabled with any page that went back. -/
structure Confined (s : State) : Prop where
  owned : s.channel.enabled → s.OwnsPage
  released : ∀ r ∈ s.released, r.enabled = false

/-- A channel that is enabled halts in time. -/
def Channel.Halts (c : Channel) (reply : Option Raise) : Prop :=
  c.enabled → ∃ r ∈ reply, has r.bits HCINT_HALTED

instance (c : Channel) (reply : Option Raise) : Decidable (c.Halts reply) := by
  unfold Channel.Halts
  infer_instance

/-- A halt that comes before the transfer is taken out is answered, and a recovery
enables the channel again only for the transfer it was armed for. A reply that is
not asked for is not read. -/
def HaltsInTime (s : State) : Event → Prop
  | .cancelInterruptIn _ _ reply => s.channel.Halts reply
  | .handleIrq i => s.channel.Halts i.portReply ∧ s.channel.Halts i.disconnectReply ∧
      s.channel.Halts i.stopReply
  | .recover index _ _ =>
      ∀ step ∈ s.recoveries[index]?, (step matches .disable _) → s.OwnsPage
  | _ => True

instance (s : State) (e : Event) : Decidable (HaltsInTime s e) := by
  cases e <;> unfold HaltsInTime <;> infer_instance

/-- What the sections keep. -/
structure Guarded (ctl : Controller) (s : State) : Prop extends Confined s where
  stops : s.stops = []
  startable : ∀ state, s.interrupt = some state → Startable ctl state.transfer

theorem haltChannel_enabled {reply : Option Raise} (h : c.Halts reply) :
    (c.haltChannel reply).2.enabled = false := by
  rw [Channel.haltChannel]
  cases henabled : c.enabled with
  | false =>
      exact henabled
  | true =>
      obtain ⟨r, rfl, hhalted⟩ := h henabled
      have hlow : (c.react (some r)).enabled = false := by
        simp only [Channel.react, Channel.raise, raisedBits_has (k := HCINT_HALTED) rfl, hhalted]
        split <;> simp
      simp only [Bool.not_true, Bool.false_eq_true, if_false]
      split_ifs
      · exact hlow
      · exact hlow

theorem State.release_released (s : State) (buffer : UsbDmaBuffer)
    (hs : ∀ r ∈ s.released, r.enabled = false)
    (h : s.channel.enabled → s.channel.dmaPhys ≠ buffer.physAddr) :
    ∀ r ∈ (s.release buffer).released, r.enabled = false := by
  intro r hr
  rcases List.mem_cons.mp hr with rfl | hr
  · simpa using h
  · exact hs r hr

/-- The registers and the transfer may change as long as the channel is not enabled
with another page. -/
theorem Guarded.update (h : Guarded ctl s) (c : Channel) (henabled : c.enabled → s.channel.enabled)
    (hphys : c.dmaPhys = s.channel.dmaPhys) (state state' : AsyncInterruptState)
    (hstate : s.interrupt = some state) (htransfer : state'.transfer = state.transfer) :
    Guarded ctl { s with channel := c, interrupt := some state' } := by
  refine ⟨⟨fun hc => ⟨state', rfl, ?_⟩, h.released⟩, h.stops, ?_⟩
  · obtain ⟨st, hst, hpage⟩ := h.owned (henabled hc)
    obtain rfl : st = state := Option.some.inj (hst.symm.trans hstate)
    change state'.transfer.buffer.physAddr = c.dmaPhys
    rw [htransfer, hpage, hphys]
  · rintro st ⟨rfl⟩
    rw [htransfer]
    exact h.startable state hstate

/-- A transfer that has been started owns the page of the channel. -/
theorem Guarded.started (h : Guarded ctl s) (state : AsyncInterruptState) (r : Readings)
    (dmaAddr : Word) (hstart : Startable ctl state.transfer) :
    Guarded ctl { s with
      interrupt := some (state.started r), channel := s.channel.armed state dmaAddr r } := by
  refine ⟨⟨fun _ => ⟨_, rfl, rfl⟩, h.released⟩, h.stops, ?_⟩
  rintro st ⟨rfl⟩
  exact hstart

theorem Guarded.stopInterruptWithError (h : Guarded ctl s) (error : UsbError)
    {reply : Option Raise} (hreply : s.channel.Halts reply) :
    Guarded ctl (stopInterruptWithError error reply s) ∧
      (Usb.stopInterruptWithError error reply s).channel.enabled = false := by
  have henabled : ∀ mask, ((s.channel.haltChannel reply).2.configureChannelIrq mask).enabled =
      false := fun _ => haltChannel_enabled hreply
  simp only [Usb.stopInterruptWithError, State.takeInterrupt]
  split
  · rename_i hnone
    refine ⟨⟨⟨fun hc => ?_, h.released⟩, h.stops, h.startable⟩, henabled 0⟩
    exact absurd hc (by simp [henabled])
  · refine ⟨⟨⟨fun hc => ?_, ?_⟩, h.stops, fun st hst => (by cases hst)⟩, henabled 0⟩
    · exact absurd hc (by simp [State.release, henabled])
    · apply State.release_released
      · exact h.released
      · intro hc
        exact absurd hc (by simp [henabled])

theorem Guarded.acked (h : Guarded ctl s) : Guarded ctl s.acked :=
  ⟨⟨h.owned, h.released⟩, h.stops, h.startable⟩

theorem Guarded.idle (h : Guarded ctl s) (state state' : AsyncInterruptState) (now : UInt64)
    (hstate : s.interrupt = some state) (htransfer : state'.transfer = state.transfer) :
    Guarded ctl (s.idle state' now) := by
  apply h.update
  · exact id
  · rfl
  · exact hstate
  · exact htransfer

theorem Guarded.handleInterruptChannelIrq (h : Guarded ctl s) (i : IrqReadings)
    (hreply : s.channel.Halts i.stopReply) :
    Guarded ctl (handleInterruptChannelIrq ctl i s) := by
  have hhandled := handleInterruptChannelIrq_handled ctl i s
  generalize Usb.handleInterruptChannelIrq ctl i s = t at hhandled ⊢
  cases hhandled with
  | ignored hskip => exact h
  | absent hstate => exact ⟨⟨h.owned, h.released⟩, h.stops, h.startable⟩
  | retried state hstate herror hretries => exact h.acked.idle state _ i.now hstate rfl
  | stopped error hstate => exact (h.acked.stopInterruptWithError error hreply).1
  | nothing state hstate hnak => exact h.acked.idle state _ i.now hstate rfl
  | nyet state hstate hrecovering hnyet hsplit hphase hretries =>
      have hstart := h.startable state hstate
      obtain ⟨dmaAddr, -, hrestart⟩ := restart_ok { state with
        errorRetries := 0, splitCompleteRetries := state.splitCompleteRetries + 1 } hstart i s.acked
      rw [hrestart]
      exact h.acked.started _ i.toReadings dmaAddr hstart
  | splitStarted state hstate hrecovering hcompletion hsplit hphase =>
      have hstart := h.startable state hstate
      obtain ⟨dmaAddr, -, hrestart⟩ := restart_ok { state with
        errorRetries := 0, splitPhase := .complete, splitCompleteRetries := 0 } hstart i s.acked
      rw [hrestart]
      exact h.acked.started _ i.toReadings dmaAddr hstart
  | completed state hstate hrecovering hcompletion hphase =>
      have hrecords : Guarded ctl { s.acked with
          toggles := s.acked.toggles + 1
          handled := if state.actualLen s.channel.hctsiz > 0 then
            s.acked.handled ++ [(s.channel.memory state.transfer.buffer.physAddr).take
              (state.actualLen s.channel.hctsiz)] else s.acked.handled } :=
        ⟨⟨h.owned, h.released⟩, h.stops, h.startable⟩
      exact hrecords.idle state _ i.now hstate rfl

/-- A stop halts the channel, so a later stop or the handler finds it halted. -/
theorem Guarded.handleIrq (h : Guarded ctl s) (i : IrqReadings)
    (hreply : HaltsInTime s (.handleIrq i)) : Guarded ctl (handleIrq ctl i s) := by
  obtain ⟨hport, hdisconnect, hstop⟩ := hreply
  apply handleIrq_rule
    (P := fun u => Guarded ctl u ∧ (u.channel.enabled → s.channel.enabled)) ⟨h, id⟩
  · rintro error reply hmem u ⟨hu, henabled⟩
    have hhalts : s.channel.Halts reply := by
      simp only [List.mem_cons, List.not_mem_nil, or_false] at hmem
      rcases hmem with rfl | rfl
      · exact hport
      · exact hdisconnect
    obtain ⟨hstopped, hlow⟩ := hu.stopInterruptWithError error fun hc => hhalts (henabled hc)
    exact ⟨hstopped, fun hc => absurd hc (by simp [hlow])⟩
  · rintro u ⟨hu, henabled⟩
    exact hu.handleInterruptChannelIrq i fun hc => hstop (henabled hc)
  · exact fun u hu => hu.1

/-- Only the write that disables enables the channel. -/
theorem Guarded.recoverStep {index : Nat} {timedOut : Bool} {now : UInt64} (h : Guarded ctl s)
    (hpage : HaltsInTime s (.recover index timedOut now))
    (hst : Usb.recoverStep s index timedOut now = some t) : Guarded ctl t := by
  have hchannel : ∀ (hcint : Word) (recoveries : List RecoverStep), Guarded ctl { s with
      channel := { s.channel with hcint := hcint }, recoveries := recoveries } :=
    fun _ _ => ⟨⟨h.owned, h.released⟩, h.stops, h.startable⟩
  simp only [Usb.recoverStep] at hst
  split at hst
  · cases hst
  · cases hst
    exact hchannel s.channel.hcint _
  · rename_i hcchar hdisable
    cases hst
    refine ⟨⟨fun _ => ?_, h.released⟩, h.stops, h.startable⟩
    exact hpage (.disable hcchar) hdisable rfl
  · split_ifs at hst
    · cases hst
      exact hchannel s.channel.hcint _
    · cases hst
      exact hchannel s.channel.hcint _
    · cases hst
      exact h
  · cases hst
    exact hchannel _ _
  · cases hst
    exact hchannel 0 _
  · cases hst
    cases hstate : s.interrupt with
    | none =>
        refine ⟨⟨fun hc => ?_, h.released⟩, h.stops, fun st hst => (by cases hst)⟩
        obtain ⟨st, hst, -⟩ := h.owned hc
        rw [hstate] at hst
        cases hst
    | some state =>
        obtain ⟨⟨howned, hreleased⟩, hstops, hstart⟩ := h.update s.channel id rfl state
          { state with pollPhase := .idle, nextDue := now } hstate rfl
        exact ⟨⟨howned, hreleased⟩, hstops, hstart⟩

/-- The page of a transfer that is submitted is not the page of the present one. -/
theorem Guarded.submitInterruptIn {transfer : InterruptInTransfer} {r : Readings}
    (h : Guarded ctl s)
    (hpage : ∀ state ∈ s.interrupt, state.transfer.buffer.physAddr ≠ transfer.buffer.physAddr) :
    Guarded ctl (submitInterruptIn ctl transfer r s).2 := by
  have hfree : s.channel.enabled → s.channel.dmaPhys ≠ transfer.buffer.physAddr := by
    intro hc
    obtain ⟨state, hstate, hphys⟩ := h.owned hc
    rw [← hphys]
    exact hpage state hstate
  have hsubmitted := @submitInterruptIn_submitted ctl transfer r s
  generalize Usb.submitInterruptIn ctl transfer r s = out at hsubmitted ⊢
  cases hsubmitted with
  | refused e =>
      exact ⟨⟨h.owned, s.release_released _ h.released hfree⟩, h.stops, h.startable⟩
  | failed e hnone =>
      exact ⟨⟨h.owned, State.release_released _ _ h.released hfree⟩, h.stops, h.startable⟩
  | ok state dmaAddr hvalid hnone hstart haddr hstate =>
      subst hstate
      apply h.started
      exact hstart

theorem Guarded.step {e : Event} (h : Guarded ctl s) (hallowed : HaltsInTime s e)
    (hst : Usb.step ctl s e = some t) : Guarded ctl t := by
  cases e with
  | submitInterruptIn transfer r =>
      simp only [Usb.step, Option.ite_none_left_eq_some, Option.some.injEq] at hst
      obtain ⟨hpage, rfl⟩ := hst
      obtain ⟨⟨howned, hreleased⟩, hstops, hstart⟩ :=
        @Guarded.submitInterruptIn ctl s transfer r h fun state hstate => by
          simpa [Option.mem_def.mp hstate] using hpage
      exact ⟨⟨howned, hreleased⟩, hstops, hstart⟩
  | cancelInterruptIn route endpoint reply =>
      simp only [Usb.step, Option.some.injEq] at hst
      subst hst
      have henabled : ∀ mask, ((s.channel.haltChannel reply).2.configureChannelIrq mask).enabled =
          false := fun _ => haltChannel_enabled hallowed
      simp only [cancelInterruptIn]
      split
      · split_ifs
        · refine ⟨⟨fun hc => ?_, ?_⟩, h.stops, fun st hst => (by cases hst)⟩
          · exact absurd hc (by simp [State.release, henabled])
          · apply State.release_released
            · exact h.released
            · exact fun hc => absurd hc (by simp [henabled])
        · exact h
      · exact h
  | pollInterruptTransfers r =>
      simp only [Usb.step, Option.some.injEq] at hst
      subst hst
      have hpolled := serviceInterruptPolls_polled r h.startable
      generalize serviceInterruptPolls ctl r s = t at hpolled ⊢
      cases hpolled with
      | waits => exact h
      | recovers state hstate hphase =>
          obtain ⟨⟨howned, hreleased⟩, hstops, hstart⟩ := h.update
            (s.channel.configureChannelIrq 0) id rfl state
            { state.resetSplitPhase with pollPhase := .recovering } hstate rfl
          exact ⟨⟨howned, hreleased⟩, hstops, hstart⟩
      | starts state hstate hphase hdue dmaAddr haddr =>
          exact h.started state r dmaAddr (h.startable state hstate)
  | recover index timedOut now =>
      exact h.recoverStep hallowed hst
  | stop index reply =>
      simp only [Usb.step, stopStep, h.stops, List.getElem?_nil] at hst
      cases hst
  | handleIrq i =>
      simp only [Usb.step, Option.some.injEq] at hst
      subst hst
      exact h.handleIrq i hallowed
  | raise r =>
      simp only [Usb.step, Option.some.injEq] at hst
      subst hst
      refine ⟨⟨fun hc => ?_, h.released⟩, h.stops, h.startable⟩
      obtain ⟨state, hstate, hphys⟩ := h.owned (raise_enabled _ _ hc)
      exact ⟨state, hstate, by simpa using hphys⟩

/-- In every run in which the channel answers the halts that come before a release, and
no recovery enables a channel that was halted for another owner of its page. -/
theorem answered_confined (s : State)
    (h : Reachable Started (Step (step ctl) HaltsInTime) s) : Confined s := by
  refine (h.invariant (P := Guarded ctl) ?_ fun s t _ hs hst => ?_).toConfined
  · rintro s ⟨-, henabled, -, -, hinterrupt, -, hstops, -, -, hreleased⟩
    refine ⟨⟨fun hc => ?_, fun r hr => ?_⟩, hstops, fun st hst => ?_⟩
    · rw [henabled] at hc
      cases hc
    · rw [hreleased] at hr
      cases hr
    · rw [hinterrupt] at hst
      cases hst
  · obtain ⟨e, hallowed, ht⟩ := hst
    exact hs.step hallowed ht

/-- A transfer is cancelled, and its channel halts. -/
theorem answered_confined_cancelled :
    ∃ s, s.released = [⟨0x1000, false⟩] ∧ Confined s := by
  have hrun : (run (step slowController) HaltsInTime setUp
      [.submitInterruptIn (keyboardReports 0x1000) (quiet 0),
        .cancelInterruptIn (keyboardReports 0x1000).route
          (keyboardReports 0x1000).endpoint.address (some ⟨HCINT_HALTED, []⟩)]).map
        State.released = some [⟨0x1000, false⟩] := by
    decide +kernel
  obtain ⟨s, hs, hreleased⟩ := Option.map_eq_some_iff.mp hrun
  exact ⟨s, hreleased, answered_confined s ⟨setUp, setUp_started, reflTransGen_of_run _ hs⟩⟩

/-- The channel does not report that it has halted. -/
theorem cancelled_not_confined :
    ∃ s, Reachable Started (Step (step slowController) fun _ _ => True) s ∧
      s.interrupt = none ∧ ∃ r ∈ s.released, r.enabled := by
  have hrun : (run (step slowController) (fun _ _ => True) setUp
      [.submitInterruptIn (keyboardReports 0x1000) (quiet 0),
        .cancelInterruptIn (keyboardReports 0x1000).route
          (keyboardReports 0x1000).endpoint.address none]).any fun s =>
        s.interrupt = none ∧ ∃ r ∈ s.released, r.enabled := by
    decide +kernel
  obtain ⟨s, hs, hend⟩ := (Option.any_eq_true _ _).mp hrun
  exact ⟨s, ⟨setUp, setUp_started, reflTransGen_of_run _ hs⟩, of_decide_eq_true hend⟩

end Kruspix.Drivers.Usb
