import Kruspix.Mm.Layout

/-!
# Routes, endpoints and transfers

What the host controller is asked for: a route to the device, an endpoint and a
buffer in a page of its own that the controller writes to.
-/

namespace Kruspix.Drivers.Usb

/-- The errors of the USB stack. -/
inductive UsbError
  | noMemory
  | bufferTooLarge
  | bufferTooSmall
  | invalidDescriptor
  | invalidPacket
  | invalidEndpoint
  | invalidState
  | disconnected
  | timeout
  | stall
  | busy
  | unsupported
  | shortPacket
  | hardwareFault
  deriving DecidableEq, Repr

/-- The speed of a device. -/
inductive UsbSpeed
  | low
  | full
  | high
  deriving DecidableEq, Repr

/-- The direction of a transfer, as the host sees it. -/
inductive UsbDirection
  | dirOut
  | dirIn
  deriving DecidableEq, Repr

def USB_REQ_DIR_IN : UInt8 := 0x80

/-- The direction in bit 7 of an endpoint address. -/
def UsbDirection.fromEndpointAddress (endpointAddress : UInt8) : UsbDirection :=
  if endpointAddress &&& USB_REQ_DIR_IN ≠ 0 then .dirIn else .dirOut

/-- The types of endpoints. -/
inductive UsbEndpointType
  | control
  | isochronous
  | bulk
  | interrupt
  deriving DecidableEq, Repr

/-- The type in the low two bits of the attributes. -/
def UsbEndpointType.fromAttributes (attributes : UInt8) : UsbEndpointType :=
  match (attributes &&& 0x03).toNat with
  | 0 => .control
  | 1 => .isochronous
  | 2 => .bulk
  | _ => .interrupt

/-- A device and the hub that it is reached through. -/
structure UsbRoute where
  address : UInt8
  speed : UsbSpeed
  parentHubAddress : UInt8
  parentPort : UInt8
  parentHubSpeed : UsbSpeed
  deriving DecidableEq, Repr

/-- A slower device behind a high speed hub is reached by split transactions. -/
def UsbRoute.usesSplitTransactions (route : UsbRoute) : Bool :=
  route.parentHubAddress != 0 && route.parentPort != 0 && route.parentHubSpeed == .high &&
    route.speed != .high

/-- The address of an endpoint, as a descriptor has it. -/
structure EndpointAddress where
  raw : UInt8
  deriving DecidableEq, Repr

def EndpointAddress.number (address : EndpointAddress) : UInt8 := address.raw &&& 0x0F

/-- The direction of the endpoint. -/
def EndpointAddress.direction (address : EndpointAddress) : UsbDirection :=
  .fromEndpointAddress address.raw

/-- What a descriptor says of an endpoint. -/
structure EndpointInfo where
  address : EndpointAddress
  attributes : UInt8
  maxPacketSize : UInt16
  interval : UInt8
  deriving DecidableEq, Repr

/-- The type of the endpoint. -/
def EndpointInfo.endpointType (endpoint : EndpointInfo) : UsbEndpointType :=
  .fromAttributes endpoint.attributes

/-- A buffer at the start of a page. `new_zeroed` makes no other lengths. -/
structure UsbDmaBuffer where
  physAddr : Nat
  len : Nat
  fits : 0 < len ∧ len ≤ Mm.Layout.pageSize
  deriving DecidableEq, Repr

/-- A transfer that polls an endpoint into a buffer. -/
structure InterruptInTransfer where
  route : UsbRoute
  endpoint : EndpointInfo
  expectedLen : Nat
  buffer : UsbDmaBuffer
  deriving DecidableEq, Repr

/-- The endpoint is an interrupt IN one, and the buffer has room. -/
def InterruptInTransfer.validate (transfer : InterruptInTransfer) : Except UsbError Unit :=
  if transfer.endpoint.address.direction ≠ .dirIn then .error .invalidEndpoint
  else if transfer.endpoint.endpointType ≠ .interrupt then .error .invalidEndpoint
  else if transfer.expectedLen = 0 ∨ transfer.expectedLen > transfer.buffer.len then
    .error .bufferTooSmall
  else .ok ()

end Kruspix.Drivers.Usb
