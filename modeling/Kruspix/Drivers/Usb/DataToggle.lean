import Kruspix.Drivers.Usb.TransferLength
import Kruspix.Lib.Transition
import Mathlib.Logic.Function.Iterate

/-!
# The data toggle and the reports

The channel completes a data phase by a bit that stays until it is written. The handler
accounts for it when it finds the bit: one toggle, and one report if bytes have come.
Whoever else writes the bit, to recover the channel or to arm it again, loses both.
-/

namespace Kruspix.Drivers.Usb

open Lib.Masks Lib.Transition

variable {ctl : Controller} {s t : State} {state : AsyncInterruptState} {c : Channel}

/-- A data phase has completed that nobody has accounted for. -/
def State.outstanding (s : State) : Bool :=
  s.channel.dataPhase && has s.channel.hcint HCINT_XFER_COMPLETE

/-- The calls of the handler for completed data phases. -/
def reports (expectedLen : Nat) (completed : List (List UInt8)) : List (List UInt8) :=
  (completed.map fun payload => payload.take expectedLen).filter fun report => report ≠ []

/-- Every data phase that was completed has been toggled and reported once, except one
whose bit is still set. When the channel is armed there is no such one. -/
structure Accounted (s : State) : Prop where
  toggles : s.toggles + s.outstanding.toNat = s.channel.completed.length
  packetId : ∀ state ∈ s.interrupt, state.packetId = PacketId.toggled^[s.toggles] .data0
  handled : ∀ state ∈ s.interrupt, s.handled =
    reports state.transfer.expectedLen (s.channel.completed.take s.toggles)
  armed : s.channel.packetPending → s.toggles = s.channel.completed.length

/-- A completion does not come with an error or a refusal. -/
def Unmixed (hcint : Word) : Prop :=
  has hcint HCINT_XFER_COMPLETE →
    has hcint HCINT_ERROR_MASK = false ∧ has hcint (HCINT_NAK ||| HCINT_NYET) = false

instance (hcint : Word) : Decidable (Unmixed hcint) := by
  unfold Unmixed
  infer_instance

/-- The transfer is not cancelled or stopped, and no bits are mixed. -/
def OneTransfer (ctl : Controller) (s : State) (e : Event) : Prop :=
  ∀ t ∈ step ctl s e, t.interrupt.isSome ∧ Unmixed t.channel.hcint

instance (s : State) (e : Event) : Decidable (OneTransfer ctl s e) := by
  unfold OneTransfer
  infer_instance

/-- No data phase completes while the channel is armed for the next one. -/
def Channel.ArmsCleanly (c : Channel) (reply : Channel.Reply) : Prop :=
  c.packetPending →
    (c.dataPhase → ∀ r ∈ reply.halt, has r.bits HCINT_XFER_COMPLETE = false) ∧
      ∀ r ∈ reply.late, has r.bits HCINT_XFER_COMPLETE = false

/-- The handler finds the bit when it takes a transaction for a completed one, and
counts its bytes as the polling loop does. -/
def State.Attended (s : State) (state : AsyncInterruptState) : Prop :=
  if state.transfer.route.usesSplitTransactions ∧ state.splitPhase = .start then
    s.outstanding = false
  else
    has s.channel.hcint HCINT_XFER_COMPLETE ∧ SameCount state.transfer s.channel.remaining

/-- The bit is written by the handler only, when it accounts for the data phase. -/
def Attended (s : State) : Event → Prop
  | .pollInterruptTransfers r => ∀ state ∈ s.interrupt,
      state.pollPhase = .idle → state.isDue r.now →
        s.outstanding = false ∧ s.channel.ArmsCleanly r.reply
  | .recover index _ _ => ∀ step ∈ s.recoveries[index]?,
      (step matches .acknowledge _ | .clear) → s.outstanding = false
  | .handleIrq i => s.channel.hcint ≠ 0 → ∀ state ∈ s.interrupt, state.pollPhase ≠ .recovering →
      s.channel.ArmsCleanly i.reply ∧ (Completion s.channel.hcint → s.Attended state)
  | _ => True

instance (c : Channel) (reply : Channel.Reply) : Decidable (c.ArmsCleanly reply) := by
  unfold Channel.ArmsCleanly
  infer_instance

instance (hcint : Word) : Decidable (Completion hcint) :=
  decidable_of_iff (hcint ≠ 0 ∧ has hcint HCINT_ERROR_MASK = false ∧
    has hcint (HCINT_NAK ||| HCINT_NYET) = false)
    ⟨fun h => ⟨h.1, h.2.1, h.2.2⟩, fun h => ⟨h.nonzero, h.error, h.nak⟩⟩

instance (s : State) (state : AsyncInterruptState) : Decidable (s.Attended state) := by
  unfold State.Attended
  infer_instance

instance (s : State) (e : Event) : Decidable (Attended s e) :=
  match e with
  | .pollInterruptTransfers r => inferInstanceAs (Decidable (∀ state ∈ s.interrupt,
      state.pollPhase = .idle → state.isDue r.now →
        s.outstanding = false ∧ s.channel.ArmsCleanly r.reply))
  | .recover index _ _ => inferInstanceAs (Decidable (∀ step ∈ s.recoveries[index]?,
      (step matches .acknowledge _ | .clear) → s.outstanding = false))
  | .handleIrq i => inferInstanceAs (Decidable (s.channel.hcint ≠ 0 → ∀ state ∈ s.interrupt,
      state.pollPhase ≠ .recovering →
        s.channel.ArmsCleanly i.reply ∧ (Completion s.channel.hcint → s.Attended state)))
  | .submitInterruptIn _ _ => inferInstanceAs (Decidable True)
  | .cancelInterruptIn _ _ _ => inferInstanceAs (Decidable True)
  | .stop _ _ => inferInstanceAs (Decidable True)
  | .raise _ => inferInstanceAs (Decidable True)

/-- A transfer has just been submitted. -/
def JustSubmitted (ctl : Controller) (s : State) : Prop :=
  ∃ s₀ transfer r, Started s₀ ∧ submitInterruptIn ctl transfer r s₀ = (.ok (), s)

/-- What the sections keep of the channel and the transfer. -/
structure Ledger (ctl : Controller) (s : State) (state : AsyncInterruptState) : Prop
    extends Accounted s where
  stops : s.stops = []
  present : s.interrupt = some state
  startable : Startable ctl state.transfer
  split : state.splitPhase = .none ↔ state.transfer.route.usesSplitTransactions = false
  requestLen : state.lastRequestLen =
    min state.transfer.expectedLen state.transfer.endpoint.maxPacketSize.toNat
  page : s.channel.dmaPhys = state.transfer.buffer.physAddr
  dataPhase : ¬(state.transfer.route.usesSplitTransactions ∧ state.splitPhase = .start) →
    s.channel.dataPhase
  unmixed : Unmixed s.channel.hcint
  pending : s.channel.packetPending → s.channel.OnePacket state.transfer.programmedLen ∧
    has s.channel.hcint HCINT_XFER_COMPLETE = false
  received : s.outstanding → ∃ before payload rest, s.channel.completed = before ++ [payload] ∧
    s.channel.remaining + payload.length = state.transfer.programmedLen ∧
    s.channel.memory s.channel.dmaPhys = payload ++ rest

theorem halted_completed {reply : Channel.Reply} (h : c.ArmsCleanly reply) (mask : Word) :
    (c.halted mask reply).completed = c.completed := by
  have hhalt : (c.haltChannel reply.halt).2.completed = c.completed :=
    haltChannel_completed _ fun hpending hdata => (h hpending).1 hdata
  rw [Channel.halted]
  cases hlate : reply.late with
  | none => exact hhalt
  | some r =>
      change (Channel.raise _ r).completed = _
      rw [raise_completed]
      · exact hhalt
      · intro hpending _
        cases hbefore : c.packetPending with
        | true => exact (h hbefore).2 r (by rw [hlate]; rfl)
        | false =>
            change (c.haltChannel reply.halt).2.packetPending = true at hpending
            rw [haltChannel_not_pending reply.halt hbefore] at hpending
            cases hpending

theorem halted_xfer {reply : Channel.Reply} (h : c.ArmsCleanly reply) (mask : Word) :
    has (c.halted mask reply).hcint HCINT_XFER_COMPLETE = false := by
  rw [Channel.halted]
  cases hlate : reply.late with
  | none => exact has_zero
  | some r =>
      change has (Channel.raise _ r).hcint _ = false
      rw [raise_hcint, has_or, raisedBits_xfer]
      change (has 0#32 _ || _) = false
      rw [has_zero, Bool.false_or]
      cases hbefore : c.packetPending with
      | true => rw [(h hbefore).2 r (by rw [hlate]; rfl), Bool.and_false]
      | false =>
          have hafter := haltChannel_not_pending reply.halt hbefore
          rw [Bool.and_eq_false_iff]
          exact .inl hafter

/-- The channel is in a data phase when it was not armed to start a split transaction. -/
theorem splitCtrl_dataPhase {request : ChannelRequest} (hctrl : c.splitCtrl = request.splitCtrl)
    (h : request.route.usesSplitTransactions → request.splitPhase = .complete) : c.dataPhase := by
  rw [Channel.dataPhase, hctrl, ChannelRequest.splitCtrl]
  cases hsplit : request.route.usesSplitTransactions with
  | false =>
      rw [if_neg Bool.false_ne_true]
      decide
  | true =>
      have hcomplete : has HCSPLT_COMPLETE_SPLIT HCSPLT_COMPLETE_SPLIT = true := rfl
      simp only [if_true, if_pos (h hsplit), has_or, hcomplete, Bool.or_true, Bool.true_or,
        Bool.not_true, Bool.and_false, Bool.not_false]

/-- The channel has been armed when every completed data phase was accounted for. -/
theorem Ledger.of_armed (r : Readings) (dmaAddr : Word) (hstops : s.stops = [])
    (hstart : Startable ctl state.transfer)
    (hsplit : state.splitPhase = .none ↔ state.transfer.route.usesSplitTransactions = false)
    (hquiet : s.channel.ArmsCleanly r.reply) (htoggles : s.toggles = s.channel.completed.length)
    (hpacket : state.packetId = PacketId.toggled^[s.toggles] .data0)
    (hhandled : s.handled = reports state.transfer.expectedLen s.channel.completed) :
    Ledger ctl { s with
      interrupt := some (state.started r), channel := s.channel.armed state dmaAddr r }
      (state.started r) := by
  have hclean : (s.channel.clearBuffer state.transfer.buffer).ArmsCleanly r.reply := hquiet
  have hcompleted : (s.channel.armed state dmaAddr r).completed = s.channel.completed :=
    halted_completed hclean _
  have hxfer : has (s.channel.armed state dmaAddr r).hcint HCINT_XFER_COMPLETE = false :=
    halted_xfer hclean _
  have hsize := xferSize_onePacket (c := s.channel.armed state dmaAddr r)
    (state.request r.oddFrame) rfl (by
      rw [programmedTransferSize_request]
      exact state.transfer.programmedLen_lt)
  rw [programmedTransferSize_request] at hsize
  have hnone : ({ s with
      interrupt := some (state.started r)
      channel := s.channel.armed state dmaAddr r } : State).outstanding = false := by
    rw [State.outstanding, Bool.and_eq_false_iff]
    exact .inr hxfer
  refine ⟨⟨?_, ?_, ?_, ?_⟩, hstops, rfl, hstart, hsplit, rfl, rfl, ?_, ?_, ?_, ?_⟩
  · rw [hnone]
    exact htoggles.trans (congrArg List.length hcompleted).symm
  · rintro st ⟨rfl⟩
    exact hpacket
  · rintro st ⟨rfl⟩
    change s.handled = reports _ ((s.channel.armed state dmaAddr r).completed.take s.toggles)
    rw [hcompleted, htoggles, List.take_length]
    exact hhandled
  · intro _
    exact htoggles.trans (congrArg List.length hcompleted).symm
  · intro hphase
    apply @splitCtrl_dataPhase _ (state.request r.oddFrame) rfl
    intro hroute
    change state.splitPhase = .complete
    cases hfirst : state.splitPhase with
    | none => simp [hsplit.mp hfirst, AsyncInterruptState.request] at hroute
    | start => exact absurd ⟨hroute, hfirst⟩ hphase
    | complete => rfl
  · intro hcomplete
    simp [hxfer] at hcomplete
  · exact fun _ => ⟨hsize, hxfer⟩
  · intro hcomplete
    simp [hnone] at hcomplete

/-- The sections that do not write the bit, or write it when it is not set. -/
theorem Ledger.update (h : Ledger ctl s state) (state' : AsyncInterruptState)
    (hcint intMask allIntMask hcchar : Word) (enabled : Bool) (recoveries : List RecoverStep)
    (htransfer : state'.transfer = state.transfer) (hpacket : state'.packetId = state.packetId)
    (hrequest : state'.lastRequestLen = state.lastRequestLen)
    (hsplit : state'.splitPhase = state.splitPhase ∨
      state'.splitPhase = state.transfer.route.firstSplitPhase)
    (hunmixed : Unmixed hcint)
    (hbit : has hcint HCINT_XFER_COMPLETE = has s.channel.hcint HCINT_XFER_COMPLETE ∨
      s.outstanding = false ∧ has hcint HCINT_XFER_COMPLETE = false) :
    Ledger ctl { s with
      interrupt := some state'
      channel := { s.channel with
        hcint := hcint, intMask := intMask, allIntMask := allIntMask, hcchar := hcchar
        enabled := enabled }
      recoveries := recoveries } state' := by
  have hout : (s.channel.dataPhase && has hcint HCINT_XFER_COMPLETE) = s.outstanding := by
    rcases hbit with hsame | ⟨hout, hclear⟩
    · rw [hsame, State.outstanding]
    · rw [hclear, hout, Bool.and_false]
  refine ⟨⟨?_, ?_, ?_, ?_⟩, h.stops, rfl, ?_, ?_, ?_, ?_, ?_, hunmixed, ?_, ?_⟩
  · change s.toggles + (s.channel.dataPhase && has hcint HCINT_XFER_COMPLETE).toNat = _
    rw [hout]
    exact h.toggles
  · rintro st ⟨rfl⟩
    exact hpacket.trans (h.packetId state h.present)
  · rintro st ⟨rfl⟩
    rw [htransfer]
    exact h.handled state h.present
  · exact h.armed
  · rw [htransfer]
    exact h.startable
  · rw [htransfer]
    rcases hsplit with hsplit | hsplit
    · rw [hsplit]
      exact h.split
    · rw [hsplit]
      exact firstSplitPhase_eq_none _
  · rw [hrequest, htransfer]
    exact h.requestLen
  · rw [htransfer]
    exact h.page
  · rw [htransfer]
    intro hphase
    apply h.dataPhase
    rintro ⟨hroute, hstart⟩
    apply hphase
    rcases hsplit with hsplit | hsplit
    · exact ⟨hroute, hsplit.trans hstart⟩
    · exact ⟨hroute, by rw [hsplit, UsbRoute.firstSplitPhase, if_pos hroute]⟩
  · intro hpending
    obtain ⟨hsize, hclear⟩ := h.pending hpending
    rw [htransfer]
    refine ⟨hsize, ?_⟩
    rcases hbit with hsame | ⟨-, hnow⟩
    · exact hsame.trans hclear
    · exact hnow
  · intro hnow
    rw [htransfer]
    exact h.received (hout.symm.trans hnow)

theorem Ledger.idle (h : Ledger ctl s state) (hout : s.outstanding = false)
    (state' : AsyncInterruptState) (now : UInt64) (htransfer : state'.transfer = state.transfer)
    (hpacket : state'.packetId = state.packetId)
    (hrequest : state'.lastRequestLen = state.lastRequestLen) :
    Ledger ctl (s.acked.idle state' now) (state'.markIdleUntilNextInterval now) := by
  apply h.update (state'.markIdleUntilNextInterval now) 0 0 _ s.channel.hcchar s.channel.enabled
    s.recoveries htransfer hpacket hrequest
  · right
    change state'.transfer.route.firstSplitPhase = _
    rw [htransfer]
  · intro hxfer
    simp at hxfer
  · exact .inr ⟨hout, has_zero⟩

theorem reports_concat (expectedLen : Nat) (completed : List (List UInt8)) (payload : List UInt8) :
    reports expectedLen (completed ++ [payload]) =
      if 0 < min payload.length expectedLen then
        reports expectedLen completed ++ [payload.take expectedLen]
      else reports expectedLen completed := by
  have hempty : payload.take expectedLen ≠ [] ↔ 0 < min payload.length expectedLen := by
    rw [← List.length_pos_iff, List.length_take, Nat.min_comm]
  rw [reports, List.map_append, List.filter_append, List.map_singleton]
  split_ifs with hpos
  · rw [List.filter_cons_of_pos]
    · rfl
    · exact decide_eq_true (hempty.mpr hpos)
  · rw [List.filter_cons_of_neg]
    · exact List.append_nil _
    · exact fun hkeep => hpos (hempty.mp (of_decide_eq_true hkeep))

/-- The count of the handler when it agrees with the polling loop. -/
theorem actualLen_eq (hrequest : state.lastRequestLen =
      min state.transfer.expectedLen state.transfer.endpoint.maxPacketSize.toNat)
    (hleft : c.remaining ≤ state.transfer.programmedLen)
    (hsame : SameCount state.transfer c.remaining) :
    state.actualLen c.hctsiz =
      min (state.transfer.programmedLen - c.remaining) state.transfer.expectedLen := by
  change min (state.lastRequestLen - c.remaining) _ = _
  rw [hrequest]
  simp only [SameCount, InterruptInTransfer.programmedLen] at hsame hleft ⊢
  generalize state.transfer.expectedLen = e at *
  generalize state.transfer.endpoint.maxPacketSize.toNat = m at *
  cases hsplit : state.transfer.route.usesSplitTransactions with
  | false =>
      rw [hsplit] at hleft
      simp only [Bool.false_eq_true, if_false]
  | true =>
      simp only [hsplit, if_true, Bool.true_eq_false, false_or] at hsame hleft ⊢
      omega

/-- The handler accounts for the data phase that it finds. -/
theorem Ledger.complete (h : Ledger ctl s state) (hout : s.outstanding)
    (hsame : SameCount state.transfer s.channel.remaining) (state' : AsyncInterruptState)
    (now : UInt64) (htransfer : state'.transfer = state.transfer)
    (hpacket : state'.packetId = state.packetId)
    (hrequest : state'.lastRequestLen = state.lastRequestLen) :
    Ledger ctl (s.acked.complete state' now)
      ({ state' with packetId := state'.packetId.toggled }.markIdleUntilNextInterval now) := by
  obtain ⟨before, payload, rest, hcompleted, hlen, hmemory⟩ := h.received hout
  have htoggles : s.toggles = before.length := by
    have hcount := h.toggles
    rw [hout, hcompleted, List.length_append, List.length_singleton, Bool.toNat_true] at hcount
    omega
  have hactual : state'.actualLen s.channel.hctsiz =
      min payload.length state.transfer.expectedLen := by
    rw [actualLen_eq (c := s.channel) (by rw [hrequest, htransfer]; exact h.requestLen)
      (by rw [htransfer]; omega) (by rw [htransfer]; exact hsame), htransfer]
    congr 1
    omega
  have hdata : (s.channel.memory state'.transfer.buffer.physAddr).take
      (state'.actualLen s.channel.hctsiz) = payload.take state.transfer.expectedLen := by
    rw [htransfer, ← h.page, hmemory, hactual,
      List.take_append_of_le_length (Nat.min_le_left _ _)]
    exact List.take_eq_take_iff.mpr (by omega)
  have hbefore : s.channel.completed.take s.toggles = before := by
    rw [hcompleted, htoggles, List.take_left]
  have hall : s.channel.completed.take (s.toggles + 1) = before ++ [payload] := by
    rw [hcompleted, htoggles]
    exact List.take_of_length_le (by simp)
  have hhandled := h.handled state h.present
  rw [hbefore] at hhandled
  refine ⟨⟨?_, ?_, ?_, ?_⟩, h.stops, rfl, ?_, ?_, ?_, ?_, ?_, ?_, ?_, ?_⟩
  · have hnone : (s.acked.complete state' now).outstanding = false := by
      change (_ && has 0#32 HCINT_XFER_COMPLETE) = false
      rw [has_zero, Bool.and_false]
    rw [hnone]
    change s.toggles + 1 + 0 = s.channel.completed.length
    rw [htoggles, hcompleted, List.length_append, List.length_singleton]
  · rintro st ⟨rfl⟩
    change state'.packetId.toggled = PacketId.toggled^[s.toggles + 1] .data0
    rw [Function.iterate_succ_apply', hpacket, h.packetId state h.present]
  · rintro st ⟨rfl⟩
    change (if state'.actualLen s.channel.hctsiz > 0 then s.handled ++
      [(s.channel.memory state'.transfer.buffer.physAddr).take
        (state'.actualLen s.channel.hctsiz)] else s.handled) =
      reports state'.transfer.expectedLen (s.channel.completed.take (s.toggles + 1))
    rw [hdata, hall, htransfer, reports_concat, ← hhandled, hactual]
  · intro hpending
    have hclear := (h.pending hpending).2
    rw [State.outstanding, hclear, Bool.and_false] at hout
    cases hout
  · change Startable ctl state'.transfer
    rw [htransfer]
    exact h.startable
  · exact firstSplitPhase_eq_none _
  · change state'.lastRequestLen = min state'.transfer.expectedLen _
    rw [hrequest, htransfer]
    exact h.requestLen
  · change s.channel.dmaPhys = state'.transfer.buffer.physAddr
    rw [htransfer]
    exact h.page
  · intro _
    exact (Bool.and_eq_true_iff.mp hout).1
  · intro hxfer
    change has 0#32 _ = true at hxfer
    simp at hxfer
  · intro hpending
    have hclear := (h.pending hpending).2
    rw [State.outstanding, hclear, Bool.and_false] at hout
    cases hout
  · intro hnow
    change (_ && has 0#32 HCINT_XFER_COMPLETE) = true at hnow
    rw [has_zero, Bool.and_false] at hnow
    cases hnow

theorem Ledger.not_outstanding (h : Ledger ctl s state)
    (hbits : has s.channel.hcint HCINT_ERROR_MASK ∨
      has s.channel.hcint (HCINT_NAK ||| HCINT_NYET)) : s.outstanding = false := by
  rw [State.outstanding, Bool.and_eq_false_iff]
  right
  by_contra hxfer
  obtain ⟨herror, hnak⟩ := h.unmixed (by simpa using hxfer)
  rcases hbits with hbits | hbits
  · simp [herror] at hbits
  · simp [hnak] at hbits

/-- The channel is armed for the next transaction of the transfer. -/
theorem Ledger.started (h : Ledger ctl s state) (hout : s.outstanding = false)
    (state' : AsyncInterruptState) (r : Readings) (dmaAddr : Word)
    (hquiet : s.channel.ArmsCleanly r.reply) (htransfer : state'.transfer = state.transfer)
    (hpacket : state'.packetId = state.packetId)
    (hsplit : state'.splitPhase = .none ↔ state.transfer.route.usesSplitTransactions = false) :
    Ledger ctl { s with
      interrupt := some (state'.started r), channel := s.channel.armed state' dmaAddr r }
      (state'.started r) := by
  have htoggles : s.toggles = s.channel.completed.length := by
    have hcount := h.toggles
    rwa [hout, Bool.toNat_false, Nat.add_zero] at hcount
  apply Ledger.of_armed
  · exact h.stops
  · rw [htransfer]
    exact h.startable
  · rw [htransfer]
    exact hsplit
  · exact hquiet
  · exact htoggles
  · exact hpacket.trans (h.packetId state h.present)
  · have hhandled := h.handled state h.present
    rw [htoggles, List.take_length] at hhandled
    rw [htransfer]
    exact hhandled

theorem acked_outstanding (s : State) : s.acked.outstanding = false := by
  change (_ && has 0#32 HCINT_XFER_COMPLETE) = false
  rw [has_zero, Bool.and_false]

theorem Ledger.acked (h : Ledger ctl s state) (hout : s.outstanding = false) :
    Ledger ctl s.acked state := by
  have hupdate := h.update state 0 s.channel.intMask s.channel.allIntMask s.channel.hcchar
    s.channel.enabled s.recoveries rfl rfl rfl (.inl rfl) (fun hxfer => by simp at hxfer)
    (.inr ⟨hout, has_zero⟩)
  rw [← h.present] at hupdate
  exact hupdate

theorem stopInterruptWithError_interrupt (error : UsbError) (reply : Option Raise) (s : State) :
    (stopInterruptWithError error reply s).interrupt = none := by
  simp only [stopInterruptWithError, State.takeInterrupt]
  split
  · rename_i hnone
    exact hnone
  · rfl

theorem Ledger.handleInterruptChannelIrq (h : Ledger ctl s state) (i : IrqReadings)
    (hattended : s.channel.hcint ≠ 0 → state.pollPhase ≠ .recovering →
      s.channel.ArmsCleanly i.reply ∧ (Completion s.channel.hcint → s.Attended state))
    (hkept : (handleInterruptChannelIrq ctl i s).interrupt.isSome) :
    ∃ state', Ledger ctl (handleInterruptChannelIrq ctl i s) state' := by
  have hsame : ∀ st, s.interrupt = some st → st = state :=
    fun st hst => Option.some.inj (hst.symm.trans h.present)
  have hhandled := handleInterruptChannelIrq_handled ctl i s
  generalize Usb.handleInterruptChannelIrq ctl i s = t at hhandled hkept ⊢
  cases hhandled with
  | ignored hskip => exact ⟨state, h⟩
  | absent hstate =>
      rw [h.present] at hstate
      cases hstate
  | retried st hstate herror hretries =>
      obtain rfl := hsame st hstate
      exact ⟨_, h.idle (h.not_outstanding (.inl herror)) _ i.now rfl rfl rfl⟩
  | stopped error hstate =>
      rw [stopInterruptWithError_interrupt] at hkept
      cases hkept
  | nothing st hstate hnak =>
      obtain rfl := hsame st hstate
      exact ⟨_, h.idle (h.not_outstanding (.inr hnak)) _ i.now rfl rfl rfl⟩
  | nyet st hstate hrecovering hnyet hsplit hphase hretries =>
      obtain rfl := hsame st hstate
      have hbits : has s.channel.hcint (HCINT_NAK ||| HCINT_NYET) := by
        rw [has_mask_or, hnyet, Bool.or_true]
      have hout := h.not_outstanding (.inr hbits)
      have hcint : s.channel.hcint ≠ 0 := by
        intro hzero
        rw [hzero] at hnyet
        simp at hnyet
      obtain ⟨dmaAddr, -, hrestart⟩ := restart_ok { st with
        errorRetries := 0, splitCompleteRetries := st.splitCompleteRetries + 1 }
        h.startable i s.acked
      rw [hrestart]
      exact ⟨_, (h.acked hout).started (acked_outstanding s) _ i.toReadings dmaAddr
        (hattended hcint hrecovering).1 rfl rfl h.split⟩
  | splitStarted st hstate hrecovering hcompletion hsplit hphase =>
      obtain rfl := hsame st hstate
      obtain ⟨hquiet, hbranch⟩ := hattended hcompletion.nonzero hrecovering
      have hout : s.outstanding = false := by
        have hstart := hbranch hcompletion
        rwa [State.Attended, if_pos ⟨hsplit, hphase⟩] at hstart
      obtain ⟨dmaAddr, -, hrestart⟩ := restart_ok { st with
        errorRetries := 0, splitPhase := .complete, splitCompleteRetries := 0 }
        h.startable i s.acked
      rw [hrestart]
      exact ⟨_, (h.acked hout).started (acked_outstanding s) _ i.toReadings dmaAddr hquiet rfl
        rfl (by simp [hsplit])⟩
  | completed st hstate hrecovering hcompletion hphase =>
      obtain rfl := hsame st hstate
      obtain ⟨hxfer, hcount⟩ : has s.channel.hcint HCINT_XFER_COMPLETE ∧
          SameCount st.transfer s.channel.remaining := by
        have hdone := (hattended hcompletion.nonzero hrecovering).2 hcompletion
        rwa [State.Attended, if_neg hphase] at hdone
      have hout : s.outstanding := Bool.and_eq_true_iff.mpr ⟨h.dataPhase hphase, hxfer⟩
      exact ⟨_, h.complete hout hcount _ i.now rfl rfl rfl⟩

theorem handleInterruptChannelIrq_interrupt (i : IrqReadings) (h : s.interrupt = none) :
    (handleInterruptChannelIrq ctl i s).interrupt = none := by
  rw [handleInterruptChannelIrq]
  split
  · exact h
  · rw [h]

/-- A stop takes the transfer out for good, so the channel is served in the state that
the interrupt has found. -/
theorem Ledger.handleIrq (h : Ledger ctl s state) (i : IrqReadings)
    (hattended : Attended s (.handleIrq i)) (hkept : (handleIrq ctl i s).interrupt.isSome) :
    ∃ state', Ledger ctl (handleIrq ctl i s) state' := by
  revert hkept
  apply handleIrq_rule (P := fun u => u = s ∨ u.interrupt = none)
    (Q := fun u => u.interrupt.isSome → ∃ state', Ledger ctl u state') (.inl rfl)
  · intro error reply _ u _
    exact .inr (stopInterruptWithError_interrupt error reply u)
  · rintro u (rfl | hnone) hkept
    · exact h.handleInterruptChannelIrq i
        (fun hcint hrecovering => hattended hcint state h.present hrecovering) hkept
    · rw [handleInterruptChannelIrq_interrupt i hnone] at hkept
      cases hkept
  · rintro u (rfl | hnone) hkept
    · exact ⟨state, h⟩
    · rw [hnone] at hkept
      cases hkept

theorem Ledger.recoverStep {index : Nat} {timedOut : Bool} {now : UInt64}
    (h : Ledger ctl s state) (hattended : Attended s (.recover index timedOut now))
    (hunmixed : Unmixed t.channel.hcint)
    (hst : Usb.recoverStep s index timedOut now = some t) : ∃ state', Ledger ctl t state' := by
  have hquiet : ∀ hcchar enabled recoveries, Ledger ctl { s with
      channel := { s.channel with hcchar := hcchar, enabled := enabled }
      recoveries := recoveries } state := by
    intro hcchar enabled recoveries
    have hupdate := h.update state s.channel.hcint s.channel.intMask s.channel.allIntMask hcchar
      enabled recoveries rfl rfl rfl (.inl rfl) h.unmixed (.inl rfl)
    rw [← h.present] at hupdate
    exact hupdate
  have hwritten : ∀ hcint recoveries, Unmixed hcint →
      (has hcint HCINT_XFER_COMPLETE = has s.channel.hcint HCINT_XFER_COMPLETE ∨
        s.outstanding = false ∧ has hcint HCINT_XFER_COMPLETE = false) → Ledger ctl { s with
          channel := { s.channel with hcint := hcint }, recoveries := recoveries } state := by
    intro hcint recoveries hunmixed hbit
    have hupdate := h.update state hcint s.channel.intMask s.channel.allIntMask s.channel.hcchar
      s.channel.enabled recoveries rfl rfl rfl (.inl rfl) hunmixed hbit
    rw [← h.present] at hupdate
    exact hupdate
  simp only [Usb.recoverStep] at hst
  split at hst
  · cases hst
  · cases hst
    exact ⟨state, hquiet _ _ _⟩
  · cases hst
    exact ⟨state, hquiet _ _ _⟩
  · split_ifs at hst
    · cases hst
      exact ⟨state, hquiet _ _ _⟩
    · cases hst
      exact ⟨state, hquiet _ _ _⟩
    · cases hst
      exact ⟨state, h⟩
  · rename_i hcint hacknowledge
    cases hst
    refine ⟨state, hwritten _ _ hunmixed ?_⟩
    -- a bit that is left was there before
    cases hafter : has (s.channel.hcint &&& ~~~hcint) HCINT_XFER_COMPLETE with
    | true => exact .inl (has_of_and hafter).symm
    | false => exact .inr ⟨hattended _ hacknowledge rfl, rfl⟩
  · rename_i hclear
    cases hst
    exact ⟨state, hwritten 0 _ hunmixed (.inr ⟨hattended _ hclear rfl, has_zero⟩)⟩
  · cases hst
    rw [h.present]
    exact ⟨_, h.update { state with pollPhase := .idle, nextDue := now } s.channel.hcint
      s.channel.intMask s.channel.allIntMask s.channel.hcchar s.channel.enabled _ rfl rfl rfl
      (.inl rfl) h.unmixed (.inl rfl)⟩

/-- A packet that completes is outstanding, and it was the only one. -/
theorem Ledger.raise (h : Ledger ctl s state) (r : Raise)
    (hunmixed : Unmixed (s.channel.raise r).hcint) :
    Ledger ctl { s with channel := s.channel.raise r } state := by
  cases hxfer : has (s.channel.raisedBits r.bits) HCINT_XFER_COMPLETE with
  | false =>
      have hupdate := h.update state (s.channel.hcint ||| s.channel.raisedBits r.bits)
        s.channel.intMask s.channel.allIntMask s.channel.hcchar
        (s.channel.enabled && !has (s.channel.raisedBits r.bits) HCINT_HALTED) s.recoveries rfl rfl
        rfl (.inl rfl) (by rwa [raise_hcint] at hunmixed)
        (.inl (by rw [has_or, hxfer, Bool.or_false]))
      rw [← h.present] at hupdate
      have hraise : s.channel.raise r = { s.channel with
          hcint := s.channel.hcint ||| s.channel.raisedBits r.bits
          enabled := s.channel.enabled &&
            !has (s.channel.raisedBits r.bits) HCINT_HALTED } := by
        simp only [Channel.raise, hxfer, Bool.false_eq_true, if_false]
      rw [hraise]
      exact hupdate
  | true =>
      have hpending : s.channel.packetPending := by
        rw [raisedBits_xfer] at hxfer
        exact (Bool.and_eq_true_iff.mp hxfer).1
      obtain ⟨hsize, hclear⟩ := h.pending hpending
      have htoggles := h.armed hpending
      obtain ⟨payload, rest, hlen, hleft, hdone, hmemory, hcompleted⟩ :=
        hsize.raise state.transfer.programmedLen_lt hxfer
      have hout : ({ s with channel := s.channel.raise r } : State).outstanding =
          s.channel.dataPhase := by
        rw [State.outstanding, raise_dataPhase, raise_hcint, has_or, hxfer, Bool.or_true,
          Bool.and_true]
      refine ⟨⟨?_, h.packetId, ?_, fun hnow => absurd hnow hdone⟩, h.stops, h.present, h.startable,
        h.split, h.requestLen, ?_, ?_, hunmixed, fun hnow => absurd hnow hdone, ?_⟩
      · rw [hout, htoggles]
        change _ = (s.channel.raise r).completed.length
        rw [hcompleted]
        cases s.channel.dataPhase with
        | false => rfl
        | true =>
            rw [if_pos rfl, List.length_append]
            rfl
      · intro st hst
        change s.handled = reports _ ((s.channel.raise r).completed.take s.toggles)
        rw [h.handled st hst, hcompleted]
        congr 1
        split
        · exact (List.take_append_of_le_length htoggles.le).symm
        · rfl
      · exact (raise_dmaPhys _ _).trans h.page
      · intro hphase
        exact (raise_dataPhase _ _).trans (h.dataPhase hphase)
      · intro hnow
        rw [hout] at hnow
        refine ⟨s.channel.completed, payload, rest, ?_, hleft, ?_⟩
        · exact hcompleted.trans (if_pos hnow)
        · change (s.channel.raise r).memory (s.channel.raise r).dmaPhys = _
          rw [raise_dmaPhys]
          exact hmemory

theorem Ledger.step {e : Event} (h : Ledger ctl s state) (hone : OneTransfer ctl s e)
    (hattended : Attended s e) (hst : Usb.step ctl s e = some t) :
    ∃ state', Ledger ctl t state' := by
  obtain ⟨hkept, hunmixed⟩ := hone t hst
  cases e with
  | submitInterruptIn transfer r =>
      simp only [Usb.step, Option.ite_none_left_eq_some, Option.some.injEq] at hst
      obtain ⟨-, rfl⟩ := hst
      have hsubmitted := @submitInterruptIn_submitted ctl transfer r s
      generalize submitInterruptIn ctl transfer r s = out at hsubmitted ⊢
      cases hsubmitted with
      | refused e =>
          exact ⟨state, ⟨⟨h.toggles, h.packetId, h.handled, h.armed⟩, h.stops, h.present,
            h.startable, h.split, h.requestLen, h.page, h.dataPhase, h.unmixed, h.pending,
            h.received⟩⟩
      | failed e hnone =>
          rw [h.present] at hnone
          cases hnone
      | ok st dmaAddr hvalid hnone hstart haddr hst =>
          rw [h.present] at hnone
          cases hnone
  | cancelInterruptIn route endpoint reply =>
      simp only [Usb.step, Option.some.injEq] at hst
      subst hst
      simp only [cancelInterruptIn, h.present] at hkept ⊢
      split_ifs at hkept ⊢
      · cases hkept
      · exact ⟨state, h⟩
  | pollInterruptTransfers r =>
      simp only [Usb.step, Option.some.injEq] at hst
      subst hst
      have hsame : ∀ st, s.interrupt = some st → st = state :=
        fun st hst => Option.some.inj (hst.symm.trans h.present)
      have hpolled := serviceInterruptPolls_polled r fun st hst => (by
        obtain rfl := hsame st hst
        exact h.startable)
      generalize serviceInterruptPolls ctl r s = t at hpolled ⊢
      cases hpolled with
      | waits => exact ⟨state, h⟩
      | recovers st hstate hphase =>
          obtain rfl := hsame st hstate
          exact ⟨_, h.update { st.resetSplitPhase with pollPhase := .recovering } s.channel.hcint 0 _
            s.channel.hcchar s.channel.enabled _ rfl rfl rfl (.inr rfl) h.unmixed (.inl rfl)⟩
      | starts st hstate hphase hdue dmaAddr haddr =>
          obtain rfl := hsame st hstate
          obtain ⟨hout, hquiet⟩ := hattended st hstate hphase hdue
          exact ⟨_, h.started hout st r dmaAddr hquiet rfl rfl h.split⟩
  | recover index timedOut now => exact h.recoverStep hattended hunmixed hst
  | stop index reply =>
      simp only [Usb.step, stopStep, h.stops, List.getElem?_nil] at hst
      cases hst
  | handleIrq i =>
      simp only [Usb.step, Option.some.injEq] at hst
      subst hst
      exact h.handleIrq i hattended hkept
  | raise r =>
      simp only [Usb.step, Option.some.injEq] at hst
      subst hst
      exact ⟨state, h.raise r hunmixed⟩

theorem JustSubmitted.ledger (h : JustSubmitted ctl s) : ∃ state, Ledger ctl s state := by
  obtain ⟨s₀, transfer, r, hstarted, hsubmit⟩ := h
  obtain ⟨-, -, hpending, hcompleted, -, -, hstops, htoggles, hhandled, -⟩ := hstarted
  have hsubmitted := @submitInterruptIn_submitted ctl transfer r s₀
  rw [hsubmit] at hsubmitted
  cases hsubmitted with
  | ok state dmaAddr hvalid hnone hstart haddr hstate =>
      subst hstate
      refine ⟨_, Ledger.of_armed r dmaAddr hstops hstart (firstSplitPhase_eq_none _) ?_ ?_ ?_ ?_⟩
      · intro hnow
        rw [hpending] at hnow
        cases hnow
      · rw [htoggles, hcompleted]
        rfl
      · rw [htoggles]
        rfl
      · rw [hhandled, hcompleted]
        rfl

/-- In every run of one transfer in which the bit of a completed data phase is written
by the handler only. -/
theorem attended_accounted (s : State)
    (h : Reachable (JustSubmitted ctl)
      (Step (step ctl) fun s e => OneTransfer ctl s e ∧ Attended s e) s) : Accounted s := by
  obtain ⟨state, hledger⟩ := h.invariant (P := fun s => ∃ state, Ledger ctl s state)
    (fun _ => JustSubmitted.ledger) (by
      rintro s t - ⟨state, hs⟩ ⟨e, ⟨hone, hattended⟩, ht⟩
      exact hs.step hone hattended ht)
  exact hledger.toAccounted

/-- The keyboard has been asked for its first report. -/
def keyboardSubmitted : State :=
  (submitInterruptIn slowController (keyboardReports 0x1000) (quiet 0) setUp).2

theorem keyboardSubmitted_justSubmitted : JustSubmitted slowController keyboardSubmitted :=
  ⟨setUp, keyboardReports 0x1000, quiet 0, setUp_started, rfl⟩

/-- The split transaction is started, completed and reported. -/
theorem attended_accounted_report :
    ∃ s, (s.toggles, s.handled) = (1, [List.replicate 8 1]) ∧ Accounted s := by
  have hrun : (run (step slowController)
      (fun s e => OneTransfer slowController s e ∧ Attended s e) keyboardSubmitted
      [.raise ⟨HCINT_ACK ||| HCINT_HALTED, []⟩, .handleIrq served, .raise eightBytes,
        .handleIrq served]).map (fun s => (s.toggles, s.handled)) =
        some (1, [List.replicate 8 1]) := by
    decide +kernel
  obtain ⟨s, hs, hreport⟩ := Option.map_eq_some_iff.mp hrun
  exact ⟨s, hreport, attended_accounted s
    ⟨keyboardSubmitted, keyboardSubmitted_justSubmitted, reflTransGen_of_run _ hs⟩⟩

/-- The interrupt of a completed data phase is lost. The watchdog recovers the channel,
and it is armed again with the same toggle and without the report. -/
theorem recovered_not_accounted :
    ∃ s, Reachable (JustSubmitted slowController)
        (Step (step slowController) (OneTransfer slowController)) s ∧
      s.channel.completed = [List.replicate 8 1] ∧ s.handled = [] ∧ ¬Accounted s := by
  have hrun : (run (step slowController) (OneTransfer slowController) keyboardSubmitted
      [.raise ⟨HCINT_ACK ||| HCINT_HALTED, []⟩, .handleIrq served, .raise eightBytes,
        .pollInterruptTransfers (quiet 100), .recover 0 false 100, .recover 0 false 100,
        .recover 0 false 100, .pollInterruptTransfers (quiet 100)]).any fun s =>
        s.channel.completed = [List.replicate 8 1] ∧ s.handled = [] ∧
          s.channel.packetPending ∧ s.toggles = 0 := by
    decide +kernel
  obtain ⟨s, hs, hend⟩ := (Option.any_eq_true _ _).mp hrun
  obtain ⟨hcompleted, hhandled, hpending, htoggles⟩ := of_decide_eq_true hend
  refine ⟨s, ⟨keyboardSubmitted, keyboardSubmitted_justSubmitted, reflTransGen_of_run _ hs⟩,
    hcompleted, hhandled, fun h => ?_⟩
  have hcount := h.armed hpending
  rw [htoggles, hcompleted] at hcount
  cases hcount

end Kruspix.Drivers.Usb
