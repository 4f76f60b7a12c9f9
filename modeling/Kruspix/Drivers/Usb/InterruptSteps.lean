import Kruspix.Drivers.Usb.ChannelSteps
import Kruspix.Drivers.Usb.InterruptIn

/-!
# What a section does to an interrupt transfer

Each section is described once, by its outcomes: a poll, a channel interrupt and a
submission. A transfer that has been started once can be started again.
-/

namespace Kruspix.Drivers.Usb

open Lib.Masks

variable {ctl : Controller} {s : State}

/-- The channel can be armed for the transfer. This never changes. -/
def Startable (ctl : Controller) (transfer : InterruptInTransfer) : Prop :=
  transfer.buffer.physAddr < 2 ^ 32 ∧ INTERRUPT_CHANNEL < ctl.channelCount

instance (ctl : Controller) (transfer : InterruptInTransfer) :
    Decidable (Startable ctl transfer) := by
  unfold Startable
  infer_instance

/-- The channel when `arm_channel` has halted it and set its mask. -/
def Channel.halted (c : Channel) (irqMask : Word) (reply : Channel.Reply) : Channel :=
  ({ (c.haltChannel reply.halt).2 with hcint := 0 }.configureChannelIrq irqMask).react reply.late

/-- The buffer is cleared before the channel is armed. -/
def Channel.clearBuffer (c : Channel) (buffer : UsbDmaBuffer) : Channel :=
  { c with
    memory := Function.update c.memory buffer.physAddr
      (List.replicate buffer.len 0 ++ (c.memory buffer.physAddr).drop buffer.len) }

/-- The channel when it has been armed for the transfer. -/
def Channel.armed (c : Channel) (state : AsyncInterruptState) (dmaAddr : Word) (r : Readings) :
    Channel :=
  { (c.clearBuffer state.transfer.buffer).halted INTERRUPT_IRQ_MASK r.reply with
    splitCtrl := (state.request r.oddFrame).splitCtrl
    hctsiz := (state.request r.oddFrame).xferSize
    dmaAddr := dmaAddr
    hcchar := (state.request r.oddFrame).hcchar
    enabled := true
    armedFor := some state.id
    dmaPhys := state.transfer.buffer.physAddr }

/-- The transfer when the channel has been armed for it. -/
def AsyncInterruptState.started (state : AsyncInterruptState) (r : Readings) :
    AsyncInterruptState :=
  { state with
    lastRequestLen := (state.request r.oddFrame).transferSize
    pollPhase := .inFlight
    inflightSince := r.armedAt }

theorem firstSplitPhase_eq_none (route : UsbRoute) :
    route.firstSplitPhase = .none ↔ route.usesSplitTransactions = false := by
  rw [UsbRoute.firstSplitPhase]
  cases route.usesSplitTransactions <;> simp

theorem programmedTransferSize_lt (state : AsyncInterruptState) (oddFrame : Bool) :
    programmedTransferSize (state.request oddFrame) < 2 ^ 32 := by
  have hsize := state.transfer.endpoint.maxPacketSize.toNat_lt
  simp only [programmedTransferSize, AsyncInterruptState.request]
  split_ifs <;> omega

/-- A transfer that can be started is started. -/
theorem startInterruptLocked_ok (state : AsyncInterruptState) (h : Startable ctl state.transfer)
    (r : Readings) (c : Channel) :
    ∃ dmaAddr, busAddress state.transfer.buffer.physAddr = .ok dmaAddr ∧
      startInterruptLocked ctl state r c = (.ok (), state.started r, c.armed state dmaAddr r) := by
  obtain ⟨hphys, hcount⟩ := h
  refine ⟨_, if_pos hphys, ?_⟩
  have hsize := programmedTransferSize_lt state r.oddFrame
  simp only [startInterruptLocked, busAddress, if_pos hphys, Channel.armChannel,
    if_neg (Nat.not_le.mpr hcount), if_neg (Nat.not_le.mpr hsize)]
  rfl

/-- A transfer that cannot be started is refused before the channel is touched. -/
theorem startInterruptLocked_error (state : AsyncInterruptState)
    (h : ¬Startable ctl state.transfer) (r : Readings) (c : Channel) :
    ∃ e, startInterruptLocked ctl state r c =
      (.error e, { state with lastRequestLen := (state.request r.oddFrame).transferSize },
        c.clearBuffer state.transfer.buffer) := by
  by_cases hphys : state.transfer.buffer.physAddr < 2 ^ 32
  · have hcount : INTERRUPT_CHANNEL ≥ ctl.channelCount := Nat.not_lt.mp fun hlt => h ⟨hphys, hlt⟩
    refine ⟨.unsupported, ?_⟩
    simp only [startInterruptLocked, busAddress, if_pos hphys, Channel.armChannel, if_pos hcount]
    rfl
  · refine ⟨.unsupported, ?_⟩
    simp only [startInterruptLocked, busAddress, if_neg hphys]
    rfl

/-- The handler has written the bits it has read. -/
def State.acked (s : State) : State := { s with channel := { s.channel with hcint := 0 } }

/-- The bits of a transaction that went through. -/
structure Completion (hcint : Word) : Prop where
  nonzero : hcint ≠ 0
  error : has hcint HCINT_ERROR_MASK = false
  nak : has hcint (HCINT_NAK ||| HCINT_NYET) = false

/-- What the channel interrupt does, by what is read from the channel. -/
inductive Handled (ctl : Controller) (i : IrqReadings) (s : State) : State → Prop
  | ignored (h : s.channel.hcint = 0 ∨
      ∃ state, s.interrupt = some state ∧ state.pollPhase = .recovering) : Handled ctl i s s
  | absent (hstate : s.interrupt = none) :
      Handled ctl i s { s with channel := { s.channel with hcint := 0 }.configureChannelIrq 0 }
  | retried (state : AsyncInterruptState) (hstate : s.interrupt = some state)
      (herror : has s.channel.hcint HCINT_ERROR_MASK)
      (hretries : state.errorRetries < MAX_INTERRUPT_ERROR_RETRIES) :
      Handled ctl i s (s.acked.idle { state with errorRetries := state.errorRetries + 1 } i.now)
  | stopped (error : UsbError) (hstate : s.interrupt.isSome) :
      Handled ctl i s (stopInterruptWithError error i.stopReply s.acked)
  | nothing (state : AsyncInterruptState) (hstate : s.interrupt = some state)
      (hnak : has s.channel.hcint (HCINT_NAK ||| HCINT_NYET)) :
      Handled ctl i s (s.acked.idle { state with errorRetries := 0 } i.now)
  | nyet (state : AsyncInterruptState) (hstate : s.interrupt = some state)
      (hrecovering : state.pollPhase ≠ .recovering)
      (hnyet : has s.channel.hcint HCINT_NYET)
      (hsplit : state.transfer.route.usesSplitTransactions)
      (hphase : state.splitPhase = .complete)
      (hretries : state.splitCompleteRetries < MAX_SPLIT_COMPLETE_RETRIES) :
      Handled ctl i s (s.acked.restart ctl i { state with
        errorRetries := 0, splitCompleteRetries := state.splitCompleteRetries + 1 })
  | splitStarted (state : AsyncInterruptState) (hstate : s.interrupt = some state)
      (hrecovering : state.pollPhase ≠ .recovering) (hcompletion : Completion s.channel.hcint)
      (hsplit : state.transfer.route.usesSplitTransactions) (hphase : state.splitPhase = .start) :
      Handled ctl i s (s.acked.restart ctl i { state with
        errorRetries := 0, splitPhase := .complete, splitCompleteRetries := 0 })
  | completed (state : AsyncInterruptState) (hstate : s.interrupt = some state)
      (hrecovering : state.pollPhase ≠ .recovering) (hcompletion : Completion s.channel.hcint)
      (hphase : ¬(state.transfer.route.usesSplitTransactions ∧ state.splitPhase = .start)) :
      Handled ctl i s (s.acked.complete { state with errorRetries := 0 } i.now)

theorem handleInterruptChannelIrq_handled (ctl : Controller) (i : IrqReadings) (s : State) :
    Handled ctl i s (handleInterruptChannelIrq ctl i s) := by
  simp only [handleInterruptChannelIrq]
  by_cases hcint : s.channel.hcint = 0
  · rw [if_pos hcint]
    exact .ignored (.inl hcint)
  rw [if_neg hcint]
  split
  · rename_i hstate
    exact .absent hstate
  · rename_i state hstate
    by_cases hrecovering : state.pollPhase = .recovering
    · rw [if_pos hrecovering]
      exact .ignored (.inr ⟨state, hstate, hrecovering⟩)
    rw [if_neg hrecovering]
    by_cases herror : has s.channel.hcint HCINT_ERROR_MASK
    · rw [if_pos herror]
      split_ifs with hretry
      · exact .retried state hstate herror hretry.2
      · exact .stopped _ (by rw [hstate]; rfl)
    rw [if_neg herror]
    by_cases hnak : has s.channel.hcint (HCINT_NAK ||| HCINT_NYET)
    · rw [if_pos hnak]
      split_ifs with hnyet hretries
      · exact .nyet state hstate hrecovering hnyet.2.2 hnyet.1 hnyet.2.1 hretries
      · exact .nothing state hstate hnak
      · exact .nothing state hstate hnak
    rw [if_neg hnak]
    have hcompletion : Completion s.channel.hcint :=
      ⟨hcint, by simpa using herror, by simpa using hnak⟩
    split_ifs with hphase
    · exact .splitStarted state hstate hrecovering hcompletion hphase.1 hphase.2
    · exact .completed state hstate hrecovering hcompletion hphase

/-- The handler is at its end when the transaction went through and was not the start
of a split transaction. -/
theorem handleInterruptChannelIrq_completed {state : AsyncInterruptState} (i : IrqReadings)
    (h : Completion s.channel.hcint) (hstate : s.interrupt = some state)
    (hrecovering : state.pollPhase ≠ .recovering)
    (hphase : ¬(state.transfer.route.usesSplitTransactions ∧ state.splitPhase = .start)) :
    handleInterruptChannelIrq ctl i s =
      s.acked.complete { state with errorRetries := 0 } i.now := by
  simp only [handleInterruptChannelIrq, if_neg h.nonzero, hstate, if_neg hrecovering, h.error,
    h.nak, Bool.false_eq_true, if_false]
  rw [if_neg hphase]
  rfl

theorem restart_ok (state : AsyncInterruptState) (h : Startable ctl state.transfer)
    (i : IrqReadings) (s : State) :
    ∃ dmaAddr, busAddress state.transfer.buffer.physAddr = .ok dmaAddr ∧
      s.restart ctl i state = { s with
        interrupt := some (state.started i.toReadings)
        channel := s.channel.armed state dmaAddr i.toReadings } := by
  obtain ⟨dmaAddr, haddr, hstart⟩ := startInterruptLocked_ok state h i.toReadings s.channel
  refine ⟨dmaAddr, haddr, ?_⟩
  rw [State.restart, hstart]

/-- What the stops of an interrupt keep, and what follows of it when the channel is
served. -/
theorem handleIrq_rule {i : IrqReadings} {P Q : State → Prop} (hs : P s)
    (hstop : ∀ error, ∀ reply ∈ [i.portReply, i.disconnectReply], ∀ u, P u →
      P (stopInterruptWithError error reply u))
    (hchannel : ∀ u, P u → Q (handleInterruptChannelIrq ctl i u)) (hQ : ∀ u, P u → Q u) :
    Q (handleIrq ctl i s) := by
  simp only [handleIrq]
  split
  · exact hQ s hs
  have hport : P (if has i.pending GINTSTS_PRTINT then
      handlePortInterrupt i.connected i.portReply s else s) := by
    simp only [handlePortInterrupt]
    split_ifs
    · exact hstop _ _ (by simp) s hs
    · exact hs
    · exact hs
  generalize (if has i.pending GINTSTS_PRTINT then
    handlePortInterrupt i.connected i.portReply s else s) = t at hport ⊢
  have hdisconnect : P (if has i.pending GINTSTS_DISCONNINT then
      stopInterruptWithError .disconnected i.disconnectReply t else t) := by
    split
    · exact hstop _ _ (by simp) t hport
    · exact hport
  split
  · exact hchannel _ hdisconnect
  · exact hQ _ hdisconnect

/-- A poll leaves the transfer alone, hands it to a recovery or starts it. -/
inductive Polled (ctl : Controller) (r : Readings) (s : State) : State → Prop
  | waits : Polled ctl r s s
  | recovers (state : AsyncInterruptState) (hstate : s.interrupt = some state)
      (hphase : state.pollPhase = .inFlight) :
      Polled ctl r s { s with
        channel := s.channel.configureChannelIrq 0
        interrupt := some { state.resetSplitPhase with pollPhase := .recovering }
        recoveries := s.recoveries ++ [.halt] }
  | starts (state : AsyncInterruptState) (hstate : s.interrupt = some state)
      (hphase : state.pollPhase = .idle) (hdue : state.isDue r.now) (dmaAddr : Word)
      (haddr : busAddress state.transfer.buffer.physAddr = .ok dmaAddr) :
      Polled ctl r s { s with
        interrupt := some (state.started r), channel := s.channel.armed state dmaAddr r }

theorem serviceInterruptPolls_polled (r : Readings)
    (h : ∀ state, s.interrupt = some state → Startable ctl state.transfer) :
    Polled ctl r s (serviceInterruptPolls ctl r s) := by
  simp only [serviceInterruptPolls]
  split
  · exact .waits
  · rename_i state hstate
    split
    · exact .waits
    · rename_i hphase
      split_ifs
      · exact .waits
      · exact .recovers state hstate hphase
    · rename_i hphase
      split_ifs with hdue
      · exact .waits
      · obtain ⟨dmaAddr, haddr, hstart⟩ := startInterruptLocked_ok state (h state hstate) r s.channel
        rw [hstart]
        exact .starts state hstate hphase (by simpa using hdue) dmaAddr haddr

/-- A transfer that is submitted is dropped or started. -/
inductive Submitted (ctl : Controller) (transfer : InterruptInTransfer) (r : Readings) (s : State) :
    Except UsbError Unit × State → Prop
  | refused (e : UsbError) : Submitted ctl transfer r s (.error e, s.release transfer.buffer)
  | failed (e : UsbError) (hnone : s.interrupt = none) : Submitted ctl transfer r s (.error e,
      { s with channel := s.channel.clearBuffer transfer.buffer }.release transfer.buffer)
  | ok (state : AsyncInterruptState) (dmaAddr : Word) (hvalid : transfer.validate = .ok ())
      (hnone : s.interrupt = none) (hstart : Startable ctl transfer)
      (haddr : busAddress transfer.buffer.physAddr = .ok dmaAddr)
      (hstate : state = .new s.submitted transfer
        (ctl.interruptIntervalTicks transfer.route transfer.endpoint) r.now) :
      Submitted ctl transfer r s (.ok (), { s with
        interrupt := some (state.started r), channel := s.channel.armed state dmaAddr r })

theorem submitInterruptIn_submitted (transfer : InterruptInTransfer) (r : Readings) (s : State) :
    Submitted ctl transfer r s (submitInterruptIn ctl transfer r s) := by
  simp only [submitInterruptIn]
  cases hvalid : transfer.validate with
  | error e => exact .refused e
  | ok u =>
      dsimp only
      by_cases hsome : s.interrupt.isSome
      · rw [if_pos hsome]
        exact .refused .busy
      rw [if_neg hsome]
      have hnone : s.interrupt = none := by simpa using hsome
      by_cases h : Startable ctl transfer
      · obtain ⟨dmaAddr, haddr, hstart⟩ := startInterruptLocked_ok
          (.new s.submitted transfer
            (ctl.interruptIntervalTicks transfer.route transfer.endpoint) r.now) h r s.channel
        rw [hstart]
        exact .ok _ dmaAddr hvalid hnone h haddr rfl
      · obtain ⟨e, hstart⟩ := startInterruptLocked_error
          (.new s.submitted transfer
            (ctl.interruptIntervalTicks transfer.route transfer.endpoint) r.now) h r s.channel
        rw [hstart]
        exact .failed e hnone

/-- A controller with a counter of one tick a millisecond. -/
def slowController : Controller := ⟨8, 1000⟩

/-- The channels are set up and nothing has been submitted. -/
def setUp : State where
  channel := ⟨0, 0, 0, 0, 0, 0, 0, false, fun _ => [], none, 0, []⟩
  interrupt := none
  recoveries := []
  stops := []
  submitted := 0
  toggles := 0
  handled := []
  errors := []
  released := []

theorem setUp_started : Started setUp :=
  ⟨rfl, rfl, rfl, rfl, rfl, rfl, rfl, rfl, rfl, rfl⟩

/-- The reports of a keyboard behind a high speed hub, with a buffer at an address. -/
def keyboardReports (physAddr : Nat) : InterruptInTransfer where
  route := ⟨5, .full, 1, 2, .high⟩
  endpoint := ⟨⟨0x81⟩, 3, 8, 10⟩
  expectedLen := 8
  buffer := ⟨physAddr, 8, by decide⟩

/-- Nothing happens in the section. -/
def quiet (now : UInt64) : Readings := ⟨now, now, false, ⟨none, none⟩⟩

end Kruspix.Drivers.Usb
