import Kruspix.Drivers.Usb.Core
import Kruspix.Lib.Masks
import Mathlib.Logic.Function.Basic

/-!
# A host channel

The registers of the interrupt channel and the pages it writes to. The channel
works on its own: it sets bits in its interrupt register at any time, and they
stay until the driver writes them. A section of the driver that waits for the
channel, or during which the channel may go on, names what the channel does.
-/

namespace Kruspix.Drivers.Usb

open Lib.Masks

abbrev Word := BitVec 32

def INTERRUPT_CHANNEL : Nat := 1

def USB_BUS_UNCACHED_ALIAS : Word := 0xC0000000

/-- The fields of HCCHAR. -/
def HCCHAR_MAX_PACKET_SIZE_MASK : Word := 0x7FF
def HCCHAR_ENDPOINT_DIRECTION_IN : Word := 0x00008000
def HCCHAR_LOW_SPEED_DEVICE : Word := 0x00020000
def HCCHAR_MULTI_COUNT_SHIFT : Nat := 20
def HCCHAR_ENDPOINT_NUMBER_SHIFT : Nat := 11
def HCCHAR_ENDPOINT_TYPE_SHIFT : Nat := 18
def HCCHAR_DEVICE_ADDRESS_SHIFT : Nat := 22
def HCCHAR_ODD_FRAME : Word := 0x20000000

/-- The fields of HCSPLT. -/
def HCSPLT_PORT_ADDRESS_MASK : Word := 0x7F
def HCSPLT_HUB_ADDRESS_SHIFT : Nat := 7
def HCSPLT_XACT_POSITION : Word := 0x0000C000
def HCSPLT_COMPLETE_SPLIT : Word := 0x00010000
def HCSPLT_SPLIT_ENABLE : Word := 0x80000000

/-- The bits of HCINT. -/
def HCINT_XFER_COMPLETE : Word := 0x001
def HCINT_HALTED : Word := 0x002
def HCINT_AHB_ERROR : Word := 0x004
def HCINT_STALL : Word := 0x008
def HCINT_NAK : Word := 0x010
def HCINT_ACK : Word := 0x020
def HCINT_NYET : Word := 0x040
def HCINT_XACT_ERROR : Word := 0x080
def HCINT_BABBLE_ERROR : Word := 0x100
def HCINT_FRAME_OVERRUN : Word := 0x200
def HCINT_DATA_TOGGLE_ERROR : Word := 0x400

def HCINT_ERROR_MASK : Word :=
  HCINT_AHB_ERROR ||| HCINT_STALL ||| HCINT_XACT_ERROR ||| HCINT_BABBLE_ERROR |||
    HCINT_FRAME_OVERRUN ||| HCINT_DATA_TOGGLE_ERROR

/-- The fields of HCTSIZ. -/
def HCTSIZ_TRANSFER_SIZE_MASK : Word := 0x7FFFF
def HCTSIZ_PACKET_COUNT_SHIFT : Nat := 19
def HCTSIZ_PID_SHIFT : Nat := 29

/-- The packet ids of a transfer. -/
inductive PacketId
  | data0
  | data1
  | setup
  deriving DecidableEq, Repr

/-- The packet id as a field of HCTSIZ. -/
def PacketId.bits : PacketId → Word
  | .data0 => 0
  | .data1 => 2
  | .setup => 3

/-- The packet id of the next data packet. -/
def PacketId.toggled : PacketId → PacketId
  | .data0 => .data1
  | .data1 => .data0
  | .setup => .setup

/-- The phase of a split transaction. -/
inductive SplitPhase
  | none
  | start
  | complete
  deriving DecidableEq, Repr

/-- What a channel is armed for. -/
structure ChannelRequest where
  route : UsbRoute
  endpointNumber : UInt8
  endpointType : UsbEndpointType
  direction : UsbDirection
  maxPacketSize : UInt16
  packetId : PacketId
  transferSize : Nat
  oddFrame : Bool
  splitPhase : SplitPhase
  deriving DecidableEq, Repr

/-- The endpoint type as a field of HCCHAR. -/
def endpointTypeBits : UsbEndpointType → Word
  | .control => 0
  | .isochronous => 1
  | .bulk => 2
  | .interrupt => 3

/-- The uncached alias of an address; there is none from 4 GiB on. -/
def busAddress (physAddr : Nat) : Except UsbError Word :=
  if physAddr < 2 ^ 32 then
    .ok (BitVec.ofNat 32 physAddr &&& ~~~USB_BUS_UNCACHED_ALIAS ||| USB_BUS_UNCACHED_ALIAS)
  else .error .unsupported

/-- The size that the channel gets. An IN split gets room for a whole packet, an OUT completion
sends nothing. -/
def programmedTransferSize (request : ChannelRequest) : Nat :=
  if request.route.usesSplitTransactions then
    if request.splitPhase = .complete ∧ request.direction ≠ .dirIn then 0
    else if request.direction = .dirIn then max request.transferSize request.maxPacketSize.toNat
    else request.transferSize
  else request.transferSize

/-- What is written to the split register for a request. -/
def ChannelRequest.splitCtrl (request : ChannelRequest) : Word :=
  if request.route.usesSplitTransactions then
    let split := request.route.parentPort.toBitVec.setWidth 32 &&& HCSPLT_PORT_ADDRESS_MASK
    let split := split |||
      request.route.parentHubAddress.toBitVec.setWidth 32 <<< HCSPLT_HUB_ADDRESS_SHIFT
    let split := split ||| HCSPLT_XACT_POSITION
    let split := if request.splitPhase = .complete then split ||| HCSPLT_COMPLETE_SPLIT else split
    split ||| HCSPLT_SPLIT_ENABLE
  else 0

/-- What is written to the transfer register, for one packet. -/
def ChannelRequest.xferSize (request : ChannelRequest) : Word :=
  (BitVec.ofNat 32 (programmedTransferSize request) &&& HCTSIZ_TRANSFER_SIZE_MASK) |||
    1#32 <<< HCTSIZ_PACKET_COUNT_SHIFT ||| request.packetId.bits <<< HCTSIZ_PID_SHIFT

/-- What is written to the character register, next to the bit that enables. -/
def ChannelRequest.hcchar (request : ChannelRequest) : Word :=
  let hcchar := request.maxPacketSize.toBitVec.setWidth 32 &&& HCCHAR_MAX_PACKET_SIZE_MASK
  let hcchar := hcchar |||
    request.endpointNumber.toBitVec.setWidth 32 <<< HCCHAR_ENDPOINT_NUMBER_SHIFT
  let hcchar := hcchar ||| endpointTypeBits request.endpointType <<< HCCHAR_ENDPOINT_TYPE_SHIFT
  let hcchar := hcchar ||| 1#32 <<< HCCHAR_MULTI_COUNT_SHIFT
  let hcchar := hcchar |||
    request.route.address.toBitVec.setWidth 32 <<< HCCHAR_DEVICE_ADDRESS_SHIFT
  let hcchar := if request.direction = .dirIn then hcchar ||| HCCHAR_ENDPOINT_DIRECTION_IN
    else hcchar
  let hcchar := if request.route.speed = .low then hcchar ||| HCCHAR_LOW_SPEED_DEVICE else hcchar
  if request.endpointType = .interrupt ∧ request.oddFrame then hcchar ||| HCCHAR_ODD_FRAME
  else hcchar

/-- The registers of the channel, `HCCHAR_ENABLE` apart from the rest of its
register, and the pages by physical address. `armedFor` and `dmaPhys` record the
transfer and the page the channel was last armed with, `completed` the bytes of
the data phases that the channel has completed. -/
structure Channel where
  hcint : Word
  intMask : Word
  allIntMask : Word
  splitCtrl : Word
  hctsiz : Word
  dmaAddr : Word
  hcchar : Word
  enabled : Bool
  memory : Nat → List UInt8
  armedFor : Option Nat
  dmaPhys : Nat
  completed : List (List UInt8)

/-- Bits that the channel sets, and the bytes it has received if it completes. -/
structure Raise where
  bits : Word
  payload : List UInt8
  deriving DecidableEq, Repr

namespace Channel

/-- The channel was not armed to start a split transaction. -/
def dataPhase (c : Channel) : Bool :=
  !(has c.splitCtrl HCSPLT_SPLIT_ENABLE && !has c.splitCtrl HCSPLT_COMPLETE_SPLIT)

/-- The bytes that the channel can still take. -/
def remaining (c : Channel) : Nat := (c.hctsiz &&& HCTSIZ_TRANSFER_SIZE_MASK).toNat

/-- The packet that the channel was armed for is still to come. -/
def packetPending (c : Channel) : Bool :=
  has (c.hctsiz >>> HCTSIZ_PACKET_COUNT_SHIFT) 0x3FF

/-- The bits that are set. The channel completes the packet it was armed for, once. -/
def raisedBits (c : Channel) (bits : Word) : Word :=
  if c.packetPending then bits else bits &&& ~~~HCINT_XFER_COMPLETE

/-- The channel sets the bits. When it completes a data phase, the bytes go to the page
and are taken off the transfer size. -/
def raise (c : Channel) (r : Raise) : Channel :=
  let bits := c.raisedBits r.bits
  let c' := { c with
    hcint := c.hcint ||| bits
    enabled := c.enabled && !has bits HCINT_HALTED }
  if has bits HCINT_XFER_COMPLETE then
    let payload := if c.dataPhase then r.payload.take c.remaining else []
    { c' with
      hctsiz := c.hctsiz - BitVec.ofNat 32 payload.length - 1#32 <<< HCTSIZ_PACKET_COUNT_SHIFT
      memory := Function.update c.memory c.dmaPhys
        (payload ++ (c.memory c.dmaPhys).drop payload.length)
      completed := if c.dataPhase then c.completed ++ [payload] else c.completed }
  else c'

/-- What the channel does in a section, if it does anything. -/
def react (c : Channel) : Option Raise → Channel
  | none => c
  | some r => c.raise r

/-- Set the mask of the channel, and its bit in the mask of all channels. -/
def configureChannelIrq (c : Channel) (mask : Word) : Channel :=
  { c with
    intMask := mask
    allIntMask :=
      if mask = 0 then c.allIntMask &&& ~~~(1#32 <<< INTERRUPT_CHANNEL)
      else c.allIntMask ||| 1#32 <<< INTERRUPT_CHANNEL }

/-- `halt_channel`. The channel does what `reply` says before the time is over;
the bits are written that were read. -/
def haltChannel (c : Channel) (reply : Option Raise) : Except UsbError Unit × Channel :=
  if !c.enabled then (.ok (), c)
  else
    let c := c.react reply
    if has c.hcint HCINT_HALTED then (.ok (), { c with hcint := 0 }) else (.error .timeout, c)

/-- What the channel does while it is armed: when it is halted, and after that,
if it goes on, until it is enabled again. -/
structure Reply where
  halt : Option Raise
  late : Option Raise
  deriving DecidableEq, Repr

/-- `arm_channel`, without the records. -/
def armChannel (c : Channel) (channelCount : Nat) (request : ChannelRequest)
    (dmaAddr irqMask : Word) (reply : Reply) : Except UsbError Unit × Channel :=
  if INTERRUPT_CHANNEL ≥ channelCount then (.error .unsupported, c)
  else
    let c := (c.haltChannel reply.halt).2
    let c := { c with hcint := 0 }
    let c := c.configureChannelIrq irqMask
    let c := c.react reply.late
    let c := { c with splitCtrl := request.splitCtrl }
    if programmedTransferSize request ≥ 2 ^ 32 then (.error .bufferTooLarge, c)
    else
      (.ok (), { c with
        hctsiz := request.xferSize
        dmaAddr := dmaAddr
        hcchar := request.hcchar
        enabled := true })

end Channel

end Kruspix.Drivers.Usb
