import Kruspix.Drivers.Usb.Channel

/-!
# Asynchronous interrupt transfers

One transfer is polled at a time. Its state is behind a lock that masks
interrupts, so a section that holds the lock is one step, and so is the interrupt
handler, as there is one processor. The watchdog recovers the channel between two
such sections, with interrupts enabled and the lock free.
-/

namespace Kruspix.Drivers.Usb

open Lib.Masks

def INTERRUPT_IRQ_MASK : Word :=
  HCINT_HALTED ||| HCINT_XFER_COMPLETE ||| HCINT_STALL ||| HCINT_NAK ||| HCINT_ACK |||
    HCINT_NYET ||| HCINT_XACT_ERROR ||| HCINT_AHB_ERROR ||| HCINT_BABBLE_ERROR |||
    HCINT_FRAME_OVERRUN ||| HCINT_DATA_TOGGLE_ERROR

def GINTSTS_PRTINT : Word := 0x01000000
def GINTSTS_HCHINT : Word := 0x02000000
def GINTSTS_DISCONNINT : Word := 0x20000000

def MAX_SPLIT_COMPLETE_RETRIES : Nat := 4
def MAX_INTERRUPT_ERROR_RETRIES : Nat := 8

/-- `INTERRUPT_INFLIGHT_TIMEOUT`, the 50 ms of the watchdog, in nanoseconds. -/
def INTERRUPT_INFLIGHT_TIMEOUT : Nat := 50_000_000

/-- What is fixed when the controller has been set up. -/
structure Controller where
  channelCount : Nat
  counterFrequency : UInt64

/-- `duration_to_counter_ticks`, for a duration in nanoseconds. -/
def Controller.durationToCounterTicks (ctl : Controller) (nanos : Nat) : UInt64 :=
  if ctl.counterFrequency = 0 then 0
  else
    .ofNat (nanos / 10 ^ 9 * ctl.counterFrequency.toNat +
      nanos % 10 ^ 9 * ctl.counterFrequency.toNat / 10 ^ 9)

/-- The interval of an endpoint: at high speed a power of two of 125 µs, else milliseconds. -/
def Controller.interruptIntervalTicks (ctl : Controller) (route : UsbRoute)
    (endpoint : EndpointInfo) : UInt64 :=
  let interval := max endpoint.interval.toNat 1
  let nanos :=
    if route.speed = .high then 2 ^ (min interval 16 - 1) * 125_000 else interval * 1_000_000
  max (ctl.durationToCounterTicks nanos) 1

/-- What the transfer waits for. -/
inductive InterruptPollPhase
  | idle
  | inFlight
  | recovering
  deriving DecidableEq, Repr

/-- The state of the transfer. `id` tells the submitted transfers apart. -/
structure AsyncInterruptState where
  id : Nat
  transfer : InterruptInTransfer
  packetId : PacketId
  splitPhase : SplitPhase
  pollPhase : InterruptPollPhase
  lastRequestLen : Nat
  intervalTicks : UInt64
  nextDue : UInt64
  splitCompleteRetries : Nat
  inflightSince : UInt64
  errorRetries : Nat
  deriving DecidableEq, Repr

/-- The phase a poll begins with. -/
def UsbRoute.firstSplitPhase (route : UsbRoute) : SplitPhase :=
  if route.usesSplitTransactions then .start else .none

namespace AsyncInterruptState

/-- A transfer that is due at once. -/
def new (id : Nat) (transfer : InterruptInTransfer) (intervalTicks now : UInt64) :
    AsyncInterruptState where
  id := id
  transfer := transfer
  packetId := .data0
  splitPhase := transfer.route.firstSplitPhase
  pollPhase := .idle
  lastRequestLen := 0
  intervalTicks := intervalTicks
  nextDue := now
  splitCompleteRetries := 0
  inflightSince := now
  errorRetries := 0

/-- The next transaction starts from its first phase. -/
def resetSplitPhase (state : AsyncInterruptState) : AsyncInterruptState :=
  { state with splitPhase := state.transfer.route.firstSplitPhase, splitCompleteRetries := 0 }

/-- The transfer waits for its next interval. -/
def markIdleUntilNextInterval (state : AsyncInterruptState) (now : UInt64) :
    AsyncInterruptState :=
  { state with pollPhase := .idle, nextDue := now + state.intervalTicks }.resetSplitPhase

/-- The interval is over. Times are compared modulo 2^64. -/
def isDue (state : AsyncInterruptState) (now : UInt64) : Bool :=
  now - state.nextDue < (1 : UInt64) <<< 63

/-- The request that `start_interrupt_locked` makes. -/
def request (state : AsyncInterruptState) (oddFrame : Bool) : ChannelRequest where
  route := state.transfer.route
  endpointNumber := state.transfer.endpoint.address.number
  endpointType := .interrupt
  direction := .dirIn
  maxPacketSize := state.transfer.endpoint.maxPacketSize
  packetId := state.packetId
  transferSize :=
    min state.transfer.expectedLen state.transfer.endpoint.maxPacketSize.toNat
  oddFrame := oddFrame
  splitPhase := state.splitPhase

end AsyncInterruptState

/-- The steps of `recover_wedged_interrupt_channel`, with interrupts enabled. Those of
`halt_channel` come first; a register is written some time after it was read. -/
inductive RecoverStep
  | halt
  | disable (hcchar : Word)
  | wait
  | acknowledge (hcint : Word)
  | clear
  | finish
  deriving DecidableEq, Repr

/-- The steps of `stop_interrupt_with_error` outside of the interrupt handler. -/
inductive StopStep
  | halt
  | mask
  | take
  deriving DecidableEq, Repr

/-- A page that went back, and whether the channel was enabled with it then. -/
structure Release where
  physAddr : Nat
  enabled : Bool
  deriving DecidableEq, Repr

/-- The channel, the state behind the lock, and the recoveries and stops that are
under way in tasks. The other fields record what has happened: the toggles, the
calls of the handler and the pages that went back. -/
structure State where
  channel : Channel
  interrupt : Option AsyncInterruptState
  recoveries : List RecoverStep
  stops : List StopStep
  submitted : Nat
  toggles : Nat
  handled : List (List UInt8)
  errors : List UsbError
  released : List Release

/-- What a section reads: the counter, first and when it arms the channel, the
frame, and what the channel does meanwhile. -/
structure Readings where
  now : UInt64
  armedAt : UInt64
  oddFrame : Bool
  reply : Channel.Reply

/-- What the interrupt handler reads, with the replies of the channel. -/
structure IrqReadings extends Readings where
  pending : Word
  allChannelInt : Word
  connected : Bool
  portReply : Option Raise
  disconnectReply : Option Raise
  stopReply : Option Raise

/-- The buffer of a transfer is dropped. -/
def State.release (s : State) (buffer : UsbDmaBuffer) : State :=
  { s with released :=
      ⟨buffer.physAddr, s.channel.enabled && s.channel.dmaPhys == buffer.physAddr⟩ :: s.released }

/-- `start_interrupt_locked`: clear the buffer, arm the channel, and note when. If that fails
the transfer stays as it is. -/
def startInterruptLocked (ctl : Controller) (state : AsyncInterruptState) (r : Readings)
    (c : Channel) : Except UsbError Unit × AsyncInterruptState × Channel :=
  let request := state.request r.oddFrame
  let state := { state with lastRequestLen := request.transferSize }
  let buffer := state.transfer.buffer
  let c := { c with
    memory := Function.update c.memory buffer.physAddr
      (List.replicate buffer.len 0 ++ (c.memory buffer.physAddr).drop buffer.len) }
  match busAddress buffer.physAddr with
  | .error e => (.error e, state, c)
  | .ok dmaAddr =>
      match c.armChannel ctl.channelCount request dmaAddr INTERRUPT_IRQ_MASK r.reply with
      | (.error e, c) => (.error e, state, c)
      | (.ok (), c) =>
          (.ok (), { state with pollPhase := .inFlight, inflightSince := r.armedAt },
            { c with armedFor := some state.id, dmaPhys := buffer.physAddr })

/-- The watchdog takes the channel when the time of a transaction is over. -/
def serviceInterruptPolls (ctl : Controller) (r : Readings) (s : State) : State :=
  match s.interrupt with
  | none => s
  | some state =>
      match state.pollPhase with
      | .recovering => s
      | .inFlight =>
          let timeout := ctl.durationToCounterTicks INTERRUPT_INFLIGHT_TIMEOUT
          if timeout = 0 ∨ r.now - state.inflightSince < timeout then s
          else
            { s with
              channel := s.channel.configureChannelIrq 0
              interrupt := some { state.resetSplitPhase with pollPhase := .recovering }
              recoveries := s.recoveries ++ [.halt] }
      | .idle =>
          if !state.isDue r.now then s
          else
            match startInterruptLocked ctl state r s.channel with
            | (.ok (), state, c) => { s with interrupt := some state, channel := c }
            | (.error _, state, c) =>
                { s with interrupt := some state, channel := c, stops := s.stops ++ [.halt] }

/-- One step of a recovery. `HCCHAR_ENABLE` is written with the bit that disables, and
the loop of `halt_channel` waits for the channel. -/
def recoverStep (s : State) (index : Nat) (timedOut : Bool) (now : UInt64) : Option State :=
  match s.recoveries[index]? with
  | none => none
  | some .halt =>
      let next := if !s.channel.enabled then .clear else .disable s.channel.hcchar
      some { s with recoveries := s.recoveries.set index next }
  | some (.disable hcchar) =>
      some { s with
        channel := { s.channel with hcchar := hcchar, enabled := true }
        recoveries := s.recoveries.set index .wait }
  | some .wait =>
      if has s.channel.hcint HCINT_HALTED then
        some { s with recoveries := s.recoveries.set index (.acknowledge s.channel.hcint) }
      else if timedOut then some { s with recoveries := s.recoveries.set index .clear }
      else some s
  | some (.acknowledge hcint) =>
      some { s with
        channel := { s.channel with hcint := s.channel.hcint &&& ~~~hcint }
        recoveries := s.recoveries.set index .clear }
  | some .clear =>
      some { s with
        channel := { s.channel with hcint := 0 }
        recoveries := s.recoveries.set index .finish }
  | some .finish =>
      some { s with
        interrupt := s.interrupt.map fun state =>
          { state with pollPhase := .idle, nextDue := now }
        recoveries := s.recoveries.eraseIdx index }

/-- The transfer is taken out of the lock, told the error and dropped. -/
def State.takeInterrupt (s : State) (error : UsbError) : State :=
  match s.interrupt with
  | none => s
  | some state =>
      { s with interrupt := none, errors := s.errors ++ [error] }.release state.transfer.buffer

/-- `stop_interrupt_with_error` in the interrupt handler. -/
def stopInterruptWithError (error : UsbError) (reply : Option Raise) (s : State) : State :=
  let c := (s.channel.haltChannel reply).2
  { s with channel := c.configureChannelIrq 0 }.takeInterrupt error

/-- One step of a stop in a task. It is made when a poll cannot start. -/
def stopStep (s : State) (index : Nat) (reply : Option Raise) : Option State :=
  match s.stops[index]? with
  | none => none
  | some .halt => some { s with
      channel := (s.channel.haltChannel reply).2
      stops := s.stops.set index .mask }
  | some .mask => some { s with
      channel := s.channel.configureChannelIrq 0
      stops := s.stops.set index .take }
  | some .take => some ({ s with stops := s.stops.eraseIdx index }.takeInterrupt .hardwareFault)

/-- The error that the owner is told of. -/
def translateChannelError (hcint : Word) (connected : Bool) : UsbError :=
  if has hcint HCINT_STALL then .stall
  else if !connected then .disconnected
  else .hardwareFault

/-- The errors that are worth another try. -/
def transientError (hcint : Word) (connected : Bool) : Bool :=
  has hcint (HCINT_XACT_ERROR ||| HCINT_FRAME_OVERRUN ||| HCINT_DATA_TOGGLE_ERROR) &&
    !has hcint (HCINT_STALL ||| HCINT_AHB_ERROR ||| HCINT_BABBLE_ERROR) && connected

/-- The transfer is idle, and its channel is masked. -/
def State.idle (s : State) (state : AsyncInterruptState) (now : UInt64) : State :=
  { s with
    interrupt := some (state.markIdleUntilNextInterval now)
    channel := s.channel.configureChannelIrq 0 }

/-- The handler arms the channel again. -/
def State.restart (ctl : Controller) (i : IrqReadings) (s : State) (state : AsyncInterruptState) :
    State :=
  match startInterruptLocked ctl state i.toReadings s.channel with
  | (.ok (), state, c) => { s with interrupt := some state, channel := c }
  | (.error _, state, c) =>
      stopInterruptWithError .hardwareFault i.stopReply { s with interrupt := some state, channel := c }

/-- The bytes of a completed transaction, as the handler counts them. -/
def AsyncInterruptState.actualLen (state : AsyncInterruptState) (hctsiz : Word) : Nat :=
  let remaining := (hctsiz &&& HCTSIZ_TRANSFER_SIZE_MASK).toNat
  min (state.lastRequestLen - remaining) state.transfer.expectedLen

/-- The end of `handle_interrupt_channel_irq`, where the transaction is done. -/
def State.complete (s : State) (state : AsyncInterruptState) (now : UInt64) : State :=
  let actualLen := state.actualLen s.channel.hctsiz
  let data := (s.channel.memory state.transfer.buffer.physAddr).take actualLen
  { s with
    toggles := s.toggles + 1
    handled := if actualLen > 0 then s.handled ++ [data] else s.handled }.idle
      { state with packetId := state.packetId.toggled } now

/-- `handle_interrupt_channel_irq`: without a transfer the channel is masked, and a recovery is left
alone. A transient error waits for the next interval, any other one stops the transfer. A split is
completed, and its NYET tried again, at once; everything else waits for the next interval. -/
def handleInterruptChannelIrq (ctl : Controller) (i : IrqReadings) (s : State) : State :=
  let hcint := s.channel.hcint
  if hcint = 0 then s
  else
    match s.interrupt with
    | none =>
        { s with channel := { s.channel with hcint := 0 }.configureChannelIrq 0 }
    | some state =>
        if state.pollPhase = .recovering then s
        else
          let s := { s with channel := { s.channel with hcint := 0 } }
          if has hcint HCINT_ERROR_MASK then
            if transientError hcint i.connected ∧
                state.errorRetries < MAX_INTERRUPT_ERROR_RETRIES then
              s.idle { state with errorRetries := state.errorRetries + 1 } i.now
            else stopInterruptWithError (translateChannelError hcint i.connected) i.stopReply s
          else
            let state := { state with errorRetries := 0 }
            let split := state.transfer.route.usesSplitTransactions
            if has hcint (HCINT_NAK ||| HCINT_NYET) then
              if split ∧ state.splitPhase = .complete ∧ has hcint HCINT_NYET then
                if state.splitCompleteRetries < MAX_SPLIT_COMPLETE_RETRIES then
                  s.restart ctl i
                    { state with splitCompleteRetries := state.splitCompleteRetries + 1 }
                else s.idle state i.now
              else s.idle state i.now
            else if split ∧ state.splitPhase = .start then
              s.restart ctl i { state with splitPhase := .complete, splitCompleteRetries := 0 }
            else s.complete state i.now

/-- The device is gone: stop its transfer. -/
def handlePortInterrupt (connected : Bool) (reply : Option Raise) (s : State) : State :=
  if !connected then stopInterruptWithError .disconnected reply s else s

/-- `handle_irq`. `connected` is what the port register says. -/
def handleIrq (ctl : Controller) (i : IrqReadings) (s : State) : State :=
  if i.pending = 0 then s
  else
    let s := if has i.pending GINTSTS_PRTINT then handlePortInterrupt i.connected i.portReply s
      else s
    let s := if has i.pending GINTSTS_DISCONNINT then
        stopInterruptWithError .disconnected i.disconnectReply s
      else s
    if has i.pending GINTSTS_HCHINT && has i.allChannelInt (1#32 <<< INTERRUPT_CHANNEL) then
      handleInterruptChannelIrq ctl i s
    else s

/-- `submit_interrupt_in`. A transfer that is refused is dropped. -/
def submitInterruptIn (ctl : Controller) (transfer : InterruptInTransfer) (r : Readings)
    (s : State) : Except UsbError Unit × State :=
  match transfer.validate with
  | .error e => (.error e, s.release transfer.buffer)
  | .ok () =>
      if s.interrupt.isSome then (.error .busy, s.release transfer.buffer)
      else
        let intervalTicks := ctl.interruptIntervalTicks transfer.route transfer.endpoint
        let state := AsyncInterruptState.new s.submitted transfer intervalTicks r.now
        match startInterruptLocked ctl state r s.channel with
        | (.error e, _, c) => (.error e, { s with channel := c }.release transfer.buffer)
        | (.ok (), state, c) => (.ok (), { s with interrupt := some state, channel := c })

/-- `cancel_interrupt_in`: halt the channel, mask it, and give the buffer back. -/
def cancelInterruptIn (route : UsbRoute) (endpoint : EndpointAddress) (reply : Option Raise)
    (s : State) : Except UsbError Unit × State :=
  match s.interrupt with
  | some state =>
      if state.transfer.route = route ∧ state.transfer.endpoint.address = endpoint then
        let c := (s.channel.haltChannel reply).2
        (.ok (), { s with channel := c.configureChannelIrq 0, interrupt := none }.release
          state.transfer.buffer)
      else (.error .invalidState, s)
  | none => (.error .invalidState, s)

/-- What happens next. -/
inductive Event
  | submitInterruptIn (transfer : InterruptInTransfer) (r : Readings)
  | cancelInterruptIn (route : UsbRoute) (endpoint : EndpointAddress) (reply : Option Raise)
  | pollInterruptTransfers (r : Readings)
  | recover (index : Nat) (timedOut : Bool) (now : UInt64)
  | stop (index : Nat) (reply : Option Raise)
  | handleIrq (i : IrqReadings)
  | raise (r : Raise)

/-- One event. A page has one owner, so a new transfer does not bring the page of
the present one. -/
def step (ctl : Controller) (s : State) : Event → Option State
  | .submitInterruptIn transfer r =>
      if s.interrupt.any fun state =>
          state.transfer.buffer.physAddr == transfer.buffer.physAddr then none
      else some { (submitInterruptIn ctl transfer r s).2 with submitted := s.submitted + 1 }
  | .cancelInterruptIn route endpoint reply => some (cancelInterruptIn route endpoint reply s).2
  | .pollInterruptTransfers r => some (serviceInterruptPolls ctl r s)
  | .recover index timedOut now => recoverStep s index timedOut now
  | .stop index reply => stopStep s index reply
  | .handleIrq i => some (handleIrq ctl i s)
  | .raise r => some { s with channel := s.channel.raise r }

/-- The controller has been set up: the channels are masked and have never been
enabled, and there is no transfer. -/
def Started (s : State) : Prop :=
  s.channel.intMask = 0 ∧ s.channel.enabled = false ∧ s.channel.packetPending = false ∧
    s.channel.completed = [] ∧ s.interrupt = none ∧ s.recoveries = [] ∧ s.stops = [] ∧
    s.toggles = 0 ∧ s.handled = [] ∧ s.released = []

end Kruspix.Drivers.Usb
