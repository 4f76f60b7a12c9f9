import Kruspix.Drivers.Usb.InterruptSteps
import Mathlib.Order.MinMax

/-!
# How many bytes have arrived

The polling loop and the interrupt handler count the bytes of a transaction each for
itself. The loop starts from the size that was programmed, the handler from the size
that was asked for, and the two are not the same when the device is behind a hub.
-/

namespace Kruspix.Drivers.Usb

open Lib.Masks

def MAX_TRANSACTION_RETRIES : Nat := 256

/-- What an attempt reads when the channel has answered, or the error of the wait. -/
structure Attempt where
  result : Except UsbError Word
  hctsiz : Word
  connected : Bool

/-- What the loop makes of an attempt, if it does not make another one. -/
def Attempt.outcome (attempt : Attempt) (request : ChannelRequest) :
    Option (Except UsbError Nat) :=
  match attempt.result with
  | .error e => some (.error e)
  | .ok hcint =>
      let split := request.route.usesSplitTransactions
      if has hcint HCINT_ERROR_MASK then
        some (.error (translateChannelError hcint attempt.connected))
      else if split ∧ request.splitPhase = .complete ∧ has hcint HCINT_NYET then none
      else if split ∧ request.splitPhase = .complete ∧ has hcint HCINT_NAK then
        some (.error .busy)
      else if has hcint (HCINT_NAK ||| HCINT_NYET) then none
      else if request.splitPhase = .start then some (.ok 0)
      else if request.splitPhase = .complete ∧ request.direction ≠ .dirIn ∧
          has hcint (HCINT_ACK ||| HCINT_XFER_COMPLETE) then
        some (.ok request.transferSize)
      else
        let remaining := (attempt.hctsiz &&& HCTSIZ_TRANSFER_SIZE_MASK).toNat
        let actual := min (programmedTransferSize request - remaining) request.transferSize
        if has hcint HCINT_XFER_COMPLETE ∨ request.transferSize = 0 ∨ actual > 0 then
          some (.ok actual)
        else none

/-- The loop of `run_single_transaction_polling`. Each attempt arms the channel. -/
def pollTransaction (request : ChannelRequest) : (Nat → Attempt) → Nat → Except UsbError Nat
  | _, 0 => .error .timeout
  | attempts, n + 1 =>
      match (attempts 0).outcome request with
      | some outcome => outcome
      | none => pollTransaction request (fun k => attempts (k + 1)) n

/-- `run_single_transaction_polling`, with the attempts that the channel answers. -/
def runSingleTransactionPolling (ctl : Controller) (channel : Nat) (request : ChannelRequest)
    (attempts : Nat → Attempt) : Except UsbError Nat :=
  if channel ≥ ctl.channelCount then .error .unsupported
  else if programmedTransferSize request ≥ 2 ^ 32 then .error .bufferTooLarge
  else pollTransaction request attempts MAX_TRANSACTION_RETRIES

variable {ctl : Controller} {s : State}

/-- The bytes that an interrupt of the channel passes to the handler of the transfer. -/
def passedBytes (ctl : Controller) (i : IrqReadings) (s : State) : List UInt8 :=
  ((handleInterruptChannelIrq ctl i s).handled.drop s.handled.length).flatten

/-- What the polling loop reports for the request when `remaining` bytes are left. -/
def polledLen (request : ChannelRequest) (remaining : Nat) : Nat :=
  min (programmedTransferSize request - remaining) request.transferSize

/-- Both counts are the same. The handler starts from what was asked for, so it needs
that the programmed size is not larger, that nothing is left, or that nothing came. -/
def SameCount (transfer : InterruptInTransfer) (remaining : Nat) : Prop :=
  transfer.route.usesSplitTransactions = false ∨
    transfer.endpoint.maxPacketSize.toNat ≤ transfer.expectedLen ∨ remaining = 0 ∨
    remaining = transfer.endpoint.maxPacketSize.toNat

instance (transfer : InterruptInTransfer) (remaining : Nat) :
    Decidable (SameCount transfer remaining) := by
  unfold SameCount
  infer_instance

/-- The bytes that are programmed for one packet of the transfer. -/
def InterruptInTransfer.programmedLen (transfer : InterruptInTransfer) : Nat :=
  let requestLen := min transfer.expectedLen transfer.endpoint.maxPacketSize.toNat
  if transfer.route.usesSplitTransactions then
    max requestLen transfer.endpoint.maxPacketSize.toNat
  else requestLen

theorem programmedTransferSize_request (state : AsyncInterruptState) (oddFrame : Bool) :
    programmedTransferSize (state.request oddFrame) = state.transfer.programmedLen := by
  simp [programmedTransferSize, AsyncInterruptState.request, InterruptInTransfer.programmedLen]

theorem InterruptInTransfer.programmedLen_lt (transfer : InterruptInTransfer) :
    transfer.programmedLen < 2 ^ 19 := by
  have hsize := transfer.endpoint.maxPacketSize.toNat_lt
  simp only [InterruptInTransfer.programmedLen]
  split_ifs <;> omega

/-- The loop reports a transaction that went through with the first answer. -/
theorem runSingleTransactionPolling_completed {state : AsyncInterruptState} {oddFrame : Bool}
    {channel : Nat} {hcint : Word} {attempts : Nat → Attempt} (hchannel : channel < ctl.channelCount)
    (hphase : state.splitPhase ≠ .start) (h : Completion hcint)
    (hread : (attempts 0).result = .ok hcint)
    (hdone : has hcint HCINT_XFER_COMPLETE ∨ 0 < polledLen (state.request oddFrame)
      ((attempts 0).hctsiz &&& HCTSIZ_TRANSFER_SIZE_MASK).toNat) :
    runSingleTransactionPolling ctl channel (state.request oddFrame) attempts =
      .ok (polledLen (state.request oddFrame)
        ((attempts 0).hctsiz &&& HCTSIZ_TRANSFER_SIZE_MASK).toNat) := by
  have hnak := h.nak
  rw [has_mask_or, Bool.or_eq_false_iff] at hnak
  obtain ⟨hnak, hnyet⟩ := hnak
  have hin : (state.request oddFrame).direction = .dirIn := rfl
  have hstart : (state.request oddFrame).splitPhase ≠ .start := hphase
  rw [runSingleTransactionPolling, if_neg (Nat.not_le.mpr hchannel),
    if_neg (Nat.not_le.mpr (programmedTransferSize_lt state oddFrame))]
  have houtcome : (attempts 0).outcome (state.request oddFrame) = some (.ok (polledLen
      (state.request oddFrame) ((attempts 0).hctsiz &&& HCTSIZ_TRANSFER_SIZE_MASK).toNat)) := by
    simp only [Attempt.outcome, hread, h.error, h.nak, hnak, hnyet, hin, Bool.false_eq_true,
      and_false, false_and, if_false, ne_eq, not_true_eq_false, if_neg hstart]
    apply if_pos
    rcases hdone with hxfer | hlen
    · exact .inl hxfer
    · exact .inr (.inr hlen)
  simp only [MAX_TRANSACTION_RETRIES, pollTransaction, houtcome]

/-- The count of the handler and the count of the loop, when `m` bytes were programmed
for a request of `e` bytes. -/
theorem min_sub_eq_iff {e m r : Nat} (he : 0 < e) (hr : r ≤ max (min e m) m) :
    min (min e m - r) e = min (max (min e m) m - r) (min e m) ↔ m ≤ e ∨ r = 0 ∨ r = m := by
  rcases Nat.le_total m e with hle | hle
  · simp only [Nat.min_eq_right hle, Nat.max_self]
    omega
  · simp only [Nat.min_eq_left hle, Nat.max_eq_right hle] at hr ⊢
    omega

/-- A start that succeeds leaves the state as `started` has it. -/
theorem startInterruptLocked_eq {state state' : AsyncInterruptState} {r : Readings}
    {c c' : Channel} (h : startInterruptLocked ctl state r c = (.ok (), state', c')) :
    Startable ctl state.transfer ∧ state' = state.started r := by
  by_cases hstart : Startable ctl state.transfer
  · obtain ⟨dmaAddr, -, hok⟩ := startInterruptLocked_ok state hstart r c
    rw [hok] at h
    cases h
    exact ⟨hstart, rfl⟩
  · obtain ⟨e, herror⟩ := startInterruptLocked_error state hstart r c
    rw [herror] at h
    cases h

theorem validate_eq_ok {transfer : InterruptInTransfer} (h : transfer.validate = .ok ()) :
    0 < transfer.expectedLen ∧ transfer.expectedLen ≤ transfer.buffer.len := by
  simp only [InterruptInTransfer.validate] at h
  split_ifs at h with hin htype hlen
  omega

/-- What is passed on has the length that the handler counts. -/
theorem passedBytes_length {state : AsyncInterruptState} (i : IrqReadings)
    (hcompletion : Completion s.channel.hcint) (hstate : s.interrupt = some state)
    (hrecovering : state.pollPhase ≠ .recovering) (hphase : state.splitPhase ≠ .start)
    (hpage : state.transfer.expectedLen ≤
      (s.channel.memory state.transfer.buffer.physAddr).length) :
    (passedBytes ctl i s).length = state.actualLen s.channel.hctsiz := by
  have hlen : state.actualLen s.channel.hctsiz ≤ state.transfer.expectedLen :=
    Nat.min_le_right _ _
  rw [passedBytes, handleInterruptChannelIrq_completed i hcompletion hstate hrecovering
    fun hstart => hphase hstart.2]
  change ((if state.actualLen s.channel.hctsiz > 0 then s.handled ++
    [(s.channel.memory state.transfer.buffer.physAddr).take (state.actualLen s.channel.hctsiz)]
    else s.handled).drop s.handled.length).flatten.length = _
  split_ifs with hpos
  · rw [List.drop_left, List.flatten_singleton, List.length_take]
    exact Nat.min_eq_left (hlen.trans hpage)
  · rw [List.drop_length, List.flatten_nil, List.length_nil]
    exact (Nat.eq_zero_of_not_pos hpos).symm

/-- The handler gets as many bytes as the polling loop would report if and only if the
two counts agree. -/
theorem passedBytes_length_iff (state state' : AsyncInterruptState) (r : Readings)
    (c c' : Channel) (i : IrqReadings) (attempts : Nat → Attempt)
    (hvalid : state.transfer.validate = .ok ()) (hphase : state.splitPhase ≠ .start)
    (harm : startInterruptLocked ctl state r c = (.ok (), state', c'))
    (hstate : s.interrupt = some state') (hcompletion : Completion s.channel.hcint)
    (hleft : s.channel.remaining ≤ programmedTransferSize (state.request r.oddFrame))
    (hpage : state.transfer.buffer.len ≤
      (s.channel.memory state.transfer.buffer.physAddr).length)
    (hread : (attempts 0).result = .ok s.channel.hcint)
    (hctsiz : (attempts 0).hctsiz = s.channel.hctsiz) :
    (has s.channel.hcint HCINT_XFER_COMPLETE ∨
        0 < polledLen (state.request r.oddFrame) s.channel.remaining →
      runSingleTransactionPolling ctl INTERRUPT_CHANNEL (state.request r.oddFrame) attempts =
        .ok (polledLen (state.request r.oddFrame) s.channel.remaining)) ∧
    ((passedBytes ctl i s).length = polledLen (state.request r.oddFrame) s.channel.remaining ↔
      SameCount state.transfer s.channel.remaining) := by
  obtain ⟨hstart, rfl⟩ := startInterruptLocked_eq harm
  obtain ⟨hpos, hfits⟩ := validate_eq_ok hvalid
  constructor
  · intro hdone
    have hpolled := @runSingleTransactionPolling_completed ctl state r.oddFrame INTERRUPT_CHANNEL
      _ attempts hstart.2 hphase hcompletion hread (by rw [hctsiz]; exact hdone)
    rw [hctsiz] at hpolled
    exact hpolled
  · rw [passedBytes_length i hcompletion hstate (by simp [AsyncInterruptState.started]) hphase
      (hfits.trans hpage)]
    change min (min state.transfer.expectedLen state.transfer.endpoint.maxPacketSize.toNat -
      s.channel.remaining) state.transfer.expectedLen = min _ (min _ _) ↔ _
    rw [programmedTransferSize_request, InterruptInTransfer.programmedLen] at hleft
    rw [programmedTransferSize_request, SameCount, InterruptInTransfer.programmedLen]
    cases hsplit : state.transfer.route.usesSplitTransactions with
    | false =>
        simp only [Bool.false_eq_true, if_false, true_or, iff_true]
        omega
    | true =>
        simp only [hsplit, if_true] at hleft ⊢
        rw [min_sub_eq_iff hpos hleft]
        simp

/-- A transfer that is completing a split transaction, with packets of some size. -/
def completing (maxPacketSize : UInt16) : AsyncInterruptState :=
  { AsyncInterruptState.new 0
      { keyboardReports 0x1000 with endpoint := ⟨⟨0x81⟩, 3, maxPacketSize, 10⟩ } 10 0 with
    splitPhase := .complete }

/-- Eight bytes have arrived. -/
def eightBytes : Raise := ⟨HCINT_XFER_COMPLETE ||| HCINT_HALTED, List.replicate 8 1⟩

/-- The transfer has been started and the bytes have arrived. -/
def arrived (maxPacketSize : UInt16) : State :=
  let out := startInterruptLocked slowController (completing maxPacketSize) (quiet 0) setUp.channel
  { setUp with interrupt := some out.2.1, channel := out.2.2.raise eightBytes }

/-- The channel is served, and nothing else has happened. -/
def served : IrqReadings where
  toReadings := quiet 1
  pending := GINTSTS_HCHINT
  allChannelInt := 1#32 <<< INTERRUPT_CHANNEL
  connected := true
  portReply := none
  disconnectReply := none
  stopReply := none

/-- Packets of eight bytes behind a hub. -/
theorem passedBytes_length_iff_keyboard :
    (passedBytes slowController served (arrived 8)).length = 8 := by
  have hcompletion : Completion (arrived 8).channel.hcint :=
    ⟨by decide +kernel, by decide +kernel, by decide +kernel⟩
  have hcount := (@passedBytes_length_iff slowController (arrived 8) (completing 8)
    ((completing 8).started (quiet 0)) (quiet 0) setUp.channel _ served
    (fun _ => ⟨.ok (arrived 8).channel.hcint, (arrived 8).channel.hctsiz, true⟩)
    rfl (by decide) rfl rfl hcompletion (by decide +kernel) (by decide +kernel) rfl rfl).2
  exact hcount.mpr (by decide +kernel)

/-- Packets of sixty-four bytes behind a hub. The device sends a report of eight, and
the handler is not called. -/
theorem largePackets_passedBytes :
    (completing 64).transfer.validate = .ok () ∧ Completion (arrived 64).channel.hcint ∧
      (arrived 64).channel.remaining = 56 ∧
      programmedTransferSize ((completing 64).request false) = 64 ∧
      runSingleTransactionPolling slowController INTERRUPT_CHANNEL ((completing 64).request false)
        (fun _ => ⟨.ok (arrived 64).channel.hcint, (arrived 64).channel.hctsiz, true⟩) = .ok 8 ∧
      (passedBytes slowController served (arrived 64)).length = 0 := by
  refine ⟨rfl, ⟨?_, ?_, ?_⟩, ?_, ?_, ?_, ?_⟩ <;> decide +kernel

end Kruspix.Drivers.Usb
