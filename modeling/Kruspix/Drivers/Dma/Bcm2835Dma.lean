import Kruspix.Drivers.Dma.Transfer
import Kruspix.Lib.Masks

/-!
# A channel of the DMA controller

`copy_2d` and `handle_irq` work on the registers of one channel and on two
flags. Each register or flag access is a step of its own. The interrupt handler
may come between any two steps of `copy_2d` and then runs to its end, and the
channel may set bits between any two steps of either.

Transfers are numbered in the order they are started. The bits of the channel
and the flags carry the number of the transfer that they come from, which the
code does not store.
-/

namespace Kruspix.Drivers.Dma.Bcm2835Dma

open Lib.Masks

/-- A register of the channel. -/
abbrev Word := BitVec 32

/-- The bits of the control register. -/
def BCM2835_DMA_CS_END : Word := 1#32 <<< 1
def BCM2835_DMA_CS_INT : Word := 1#32 <<< 2
def BCM2835_DMA_CS_ERR : Word := 1#32 <<< 8
def BCM2835_DMA_CS_RESET : Word := 1#32 <<< 31

/-- The fields of the transfer information. -/
def BCM2835_DMA_TI_INT_EN : Word := 1#32 <<< 0
def BCM2835_DMA_TI_TDMODE : Word := 1#32 <<< 1
def BCM2835_DMA_TI_D_INC : Word := 1#32 <<< 4
def BCM2835_DMA_TI_D_WIDTH : Word := 1#32 <<< 5
def BCM2835_DMA_TI_S_INC : Word := 1#32 <<< 8
def BCM2835_DMA_TI_S_WIDTH : Word := 1#32 <<< 9

/-- The error bits of the debug register. -/
def BCM2835_DMA_DEBUG_LAST_NOT_SET_ERR : Word := 1#32 <<< 0
def BCM2835_DMA_DEBUG_FIFO_ERR : Word := 1#32 <<< 1
def BCM2835_DMA_DEBUG_READ_ERR : Word := 1#32 <<< 2
def BCM2835_DMA_DEBUG_CLEAR_MASK : Word :=
  BCM2835_DMA_DEBUG_LAST_NOT_SET_ERR ||| BCM2835_DMA_DEBUG_FIFO_ERR |||
    BCM2835_DMA_DEBUG_READ_ERR

def DMA_BUS_ALIAS_MASK : Word := 0xC0000000
def DMA_BUS_ALIAS_NONALLOCATING : Word := 0x80000000
def DMA_RESET_POLL_LIMIT : Nat := 1_000_000
def DMA_WAIT_POLL_LIMIT : Nat := 128_000_000

/-- The eight words of a control block. -/
structure DmaControlBlock where
  info : Word
  src : Word
  dst : Word
  length : Word
  stride : Word
  next : Word
  pad : Word × Word
  deriving DecidableEq, Repr

def DmaControlBlock.new : DmaControlBlock := ⟨0, 0, 0, 0, 0, 0, (0, 0)⟩

def burstLength (value : Word) : Word := (value &&& 0xF) <<< 12

/-- An address with the alias that does not allocate in the cache. -/
def dmaBusAddr (addr : Word) : Word :=
  addr &&& ~~~DMA_BUS_ALIAS_MASK ||| DMA_BUS_ALIAS_NONALLOCATING

/-- The control block that `fill_control_block` writes for a transfer on this channel. -/
def fillControlBlock (channel : Nat) (transfer : Dma2DTransfer) :
    Except DmaError DmaControlBlock :=
  if transfer.rowLenBytes = 0 ∨ transfer.rowCount = 0 ∨ 0xFFFF < transfer.rowLenBytes ∨
      0xFFFF < transfer.rowCount ∨ 0xFFFF < transfer.srcStride ∨ 0xFFFF < transfer.dstStride then
    .error .invalidTransfer
  else
    let burstSize := if channel = 0 then 8 else 2
    .ok {
      info := BCM2835_DMA_TI_INT_EN ||| BCM2835_DMA_TI_TDMODE ||| BCM2835_DMA_TI_D_INC |||
        BCM2835_DMA_TI_D_WIDTH ||| BCM2835_DMA_TI_S_INC ||| BCM2835_DMA_TI_S_WIDTH |||
        burstLength burstSize
      src := dmaBusAddr (BitVec.ofNat 32 transfer.srcBusAddr)
      dst := dmaBusAddr (BitVec.ofNat 32 transfer.dstBusAddr)
      length := BitVec.ofNat 32 transfer.rowLenBytes ||| BitVec.ofNat 32 transfer.rowCount <<< 16
      stride := BitVec.ofNat 32 transfer.srcStride ||| BitVec.ofNat 32 transfer.dstStride <<< 16
      next := 0
      pad := (0, 0) }

/-- The bits `END` and `INT` and the error bits of the channel, each with the transfer that
set it. They stay until they are written. -/
structure Status where
  endBit : Option Nat
  intBit : Option Nat
  errBits : Option Nat
  deriving DecidableEq, Repr

namespace Status

def clear : Status := ⟨none, none, none⟩

/-- The transfer that a set `END` or `INT` comes from. -/
def completion (s : Status) : Option Nat := s.endBit <|> s.intBit

/-- A transfer sets some of the bits. -/
def raise (s : Status) (id : Nat) (endBit intBit err : Bool) : Status where
  endBit := if endBit then some id else s.endBit
  intBit := if intBit then some id else s.intBit
  errBits := if err then some id else s.errBits

/-- `END | INT | ERR` is written to the control register, where `ERR` cannot be written. -/
def writeCs (s : Status) : Status := { s with endBit := none, intBit := none }

/-- The clear mask is written to the debug register. -/
def writeDebug (s : Status) : Status := { s with errBits := none }

/-- The control register reads so. -/
def ShowsCs (s : Status) (cs : Word) : Prop :=
  has cs BCM2835_DMA_CS_END = s.endBit.isSome ∧ has cs BCM2835_DMA_CS_INT = s.intBit.isSome ∧
    has cs BCM2835_DMA_CS_ERR = s.errBits.isSome

instance (s : Status) (cs : Word) : Decidable (s.ShowsCs cs) :=
  inferInstanceAs (Decidable (_ ∧ _))

/-- The debug register reads so. -/
def ShowsDebug (s : Status) (debug : Word) : Prop :=
  has debug BCM2835_DMA_DEBUG_CLEAR_MASK = s.errBits.isSome

instance (s : Status) (debug : Word) : Decidable (s.ShowsDebug debug) :=
  inferInstanceAs (Decidable (_ = _))

end Status

/-- What a call is about to return, and the transfer that the result was read from. -/
structure Verdict where
  result : Except DmaError Unit
  cause : Option Nat

/-- Where `reset_channel` returns to: `start_transfer`, or `abort_channel` with what
`copy_2d` returns then. -/
inductive ResetFor
  | start
  | abort (v : Verdict)

/-- Where `clear_channel_state` returns to: `reset_channel`, or `poll_transfer_result`. -/
inductive ClearFor
  | reset (r : ResetFor)
  | poll (v : Verdict)

/-- The next access of `copy_2d`. The two loops count the turns that are left. -/
inductive Pc
  | idle
  | reset (r : ResetFor)
  | resetPoll (r : ResetFor) (left : Nat)
  | clearCs (c : ClearFor)
  | clearDebug (c : ClearFor)
  | storeComplete
  | storeError
  | writeAddr
  | writeActive
  | swapError (left : Nat)
  | swapComplete (left : Nat)
  | readCs (left : Nat)
  | readDebug (left : Nat) (cs : Word) (seen : Status)
  | abort (v : Verdict)

/-- The next access of `handle_irq`. -/
inductive IrqPc
  | readCs
  | readDebug (cs : Word) (seen : Status)
  | storeError (cause : Option Nat)
  | storeComplete (cause : Option Nat)
  | clearCs
  | clearDebug

/-- What a call has returned, and the transfer it started, if it started one. -/
structure Return extends Verdict where
  transfer : Option Nat

/-- The channel, its flags, the running call and the handler. -/
structure State where
  channel : Nat
  controlBlock : DmaControlBlock
  status : Status
  active : Option Nat
  started : Nat
  ended : List Nat
  failed : List Nat
  irqComplete : Bool
  irqError : Bool
  completeBy : Option Nat
  errorBy : Option Nat
  current : Option Nat
  pc : Pc
  irq : Option IrqPc
  returned : List Return

/-- What happens next. A step of `copy_2d` or of the handler names what the register reads. -/
inductive Event
  | copy2d (transfer : Dma2DTransfer)
  | task (read : Word)
  | preempt
  | handleIrq (read : Word)
  | raise (endBit intBit err : Bool)
  | resetClears

/-- A driver that has just been initialized: no transfer was started, and no one waits. -/
def start (channel : Nat) : State where
  channel := channel
  controlBlock := .new
  status := .clear
  active := none
  started := 0
  ended := []
  failed := []
  irqComplete := false
  irqError := false
  completeBy := none
  errorBy := none
  current := none
  pc := .idle
  irq := none
  returned := []

/-- The running call returns, and drops its guard. -/
def State.return (s : State) (v : Verdict) : State :=
  { s with pc := .idle, returned := s.returned ++ [{ v with transfer := s.current }] }

/-- A transfer sets bits: it has ended, or it has failed. -/
def State.raise (s : State) (id : Nat) (endBit intBit err : Bool) : State :=
  { s with
    status := s.status.raise id endBit intBit err
    ended := if endBit || intBit then id :: s.ended else s.ended
    failed := if err then id :: s.failed else s.failed }

/-- The call of `copy_2d`, up to the reset of the channel. The lock is held by a running call. -/
def copy2d (s : State) (transfer : Dma2DTransfer) : State :=
  match s.pc with
  | .idle =>
      match fillControlBlock s.channel transfer with
      | .error err => { s with current := none }.return ⟨.error err, none⟩
      | .ok controlBlock =>
          { s with controlBlock := controlBlock, current := none, pc := .reset .start }
  | _ => { s with returned := s.returned ++ [⟨⟨.error .busy, none⟩, none⟩] }

/-- The transfer that an error comes from: `ERR` was read, or a bit of the debug register is. -/
def faultCause (cs : Word) (seen now : Status) : Option Nat :=
  if has cs BCM2835_DMA_CS_ERR then seen.errBits else now.errBits

/-- The end of `poll_transfer_result`, once both registers are read. -/
def pollResult (cs debug : Word) (seen now : Status) : Option Verdict :=
  if has cs BCM2835_DMA_CS_ERR || has debug BCM2835_DMA_DEBUG_CLEAR_MASK then
    some ⟨.error .fault, faultCause cs seen now⟩
  else if has cs (BCM2835_DMA_CS_END ||| BCM2835_DMA_CS_INT) then
    some ⟨.ok (), seen.completion⟩
  else none

/-- One step of `copy_2d`. -/
def taskStep (s : State) (read : Word) : Option State :=
  match s.pc with
  | .idle => none
  | .reset r => some { s with pc := .resetPoll r DMA_RESET_POLL_LIMIT }
  | .resetPoll .start 0 => some (s.return ⟨.error .timeout, none⟩)
  | .resetPoll (.abort v) 0 => some (s.return v)
  | .resetPoll r (left + 1) =>
      if has read BCM2835_DMA_CS_RESET then some { s with pc := .resetPoll r left }
      else some { s with active := none, pc := .clearCs (.reset r) }
  | .clearCs c => some { s with status := s.status.writeCs, pc := .clearDebug c }
  | .clearDebug c =>
      let s := { s with status := s.status.writeDebug }
      match c with
      | .reset .start => some { s with pc := .storeComplete }
      | .reset (.abort v) => some (s.return v)
      | .poll v =>
          match v.result with
          | .ok () => some (s.return v)
          | .error _ => some { s with pc := .abort v }
  | .storeComplete => some { s with irqComplete := false, completeBy := none, pc := .storeError }
  | .storeError => some { s with irqError := false, errorBy := none, pc := .writeAddr }
  | .writeAddr => some { s with pc := .writeActive }
  | .writeActive =>
      some { s with
        active := some s.started
        current := some s.started
        started := s.started + 1
        pc := .swapError DMA_WAIT_POLL_LIMIT }
  | .swapError 0 => some { s with pc := .abort ⟨.error .timeout, none⟩ }
  | .swapError (left + 1) =>
      if s.irqError then
        some { s with
          irqError := false
          errorBy := none
          pc := .abort ⟨.error .fault, s.errorBy⟩ }
      else some { s with pc := .swapComplete left }
  | .swapComplete left =>
      if s.irqComplete then
        some ({ s with irqComplete := false, completeBy := none }.return ⟨.ok (), s.completeBy⟩)
      else some { s with pc := .readCs left }
  | .readCs left => some { s with pc := .readDebug left read s.status }
  | .readDebug left cs seen =>
      match pollResult cs read seen s.status with
      | some v => some { s with pc := .clearCs (.poll v) }
      | none => some { s with pc := .swapError left }
  | .abort v => some { s with pc := .reset (.abort v) }

/-- One step of `handle_irq`. -/
def irqStep (s : State) (read : Word) : Option State :=
  match s.irq with
  | none => none
  | some .readCs => some { s with irq := some (.readDebug read s.status) }
  | some (.readDebug cs seen) =>
      if !has cs (BCM2835_DMA_CS_END ||| BCM2835_DMA_CS_INT ||| BCM2835_DMA_CS_ERR) &&
          !has read BCM2835_DMA_DEBUG_CLEAR_MASK then
        some { s with irq := none }
      else if has cs BCM2835_DMA_CS_ERR || has read BCM2835_DMA_DEBUG_CLEAR_MASK then
        some { s with irq := some (.storeError (faultCause cs seen s.status)) }
      else some { s with irq := some (.storeComplete seen.completion) }
  | some (.storeError cause) =>
      some { s with irqError := true, errorBy := cause, irq := some .clearCs }
  | some (.storeComplete cause) =>
      some { s with irqComplete := true, completeBy := cause, irq := some .clearCs }
  | some .clearCs => some { s with status := s.status.writeCs, irq := some .clearDebug }
  | some .clearDebug => some { s with status := s.status.writeDebug, irq := none }

/-- One event. The handler does not nest and nothing else runs while it does. Only the transfer
that was started last and not stopped sets bits, and a channel in reset may clear them. -/
def step (s : State) : Event → Option State
  | .copy2d transfer => if s.irq.isNone then some (copy2d s transfer) else none
  | .task read => if s.irq.isNone then taskStep s read else none
  | .preempt => if s.irq.isNone then some { s with irq := some .readCs } else none
  | .handleIrq read => irqStep s read
  | .raise endBit intBit err =>
      match s.active with
      | none => none
      | some id => some (s.raise id endBit intBit err)
  | .resetClears =>
      match s.pc with
      | .resetPoll _ _ => some { s with status := .clear }
      | _ => none

/-- The registers read what the channel has set. -/
def Reads (s : State) : Event → Prop
  | .task read =>
      match s.pc with
      | .readCs _ => s.status.ShowsCs read
      | .readDebug _ _ _ => s.status.ShowsDebug read
      | _ => True
  | .handleIrq read =>
      match s.irq with
      | some .readCs => s.status.ShowsCs read
      | some (.readDebug _ _) => s.status.ShowsDebug read
      | _ => True
  | _ => True

instance (s : State) (e : Event) : Decidable (Reads s e) := by
  unfold Reads
  cases e <;> dsimp only <;> first | infer_instance | (split <;> infer_instance)

end Kruspix.Drivers.Dma.Bcm2835Dma
