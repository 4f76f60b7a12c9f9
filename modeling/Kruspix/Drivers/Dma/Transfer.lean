/-!
# DMA transfers

What the drivers see of a DMA engine.
-/

namespace Kruspix.Drivers.Dma

/-- The errors of a transfer. -/
inductive DmaError
  | unavailable
  | busy
  | invalidTransfer
  | timeout
  | fault
  deriving DecidableEq, Repr

/-- Rows of some bytes, and the strides between them at the source and the destination. -/
structure Dma2DTransfer where
  srcBusAddr : Nat
  dstBusAddr : Nat
  rowLenBytes : Nat
  rowCount : Nat
  srcStride : Nat
  dstStride : Nat
  deriving DecidableEq, Repr

end Kruspix.Drivers.Dma
