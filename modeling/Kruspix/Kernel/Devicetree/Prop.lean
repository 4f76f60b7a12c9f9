import Kruspix.Kernel.Devicetree.Fdt.StructureBlock
import Mathlib.Algebra.Group.Nat.Even

/-!
# Properties of the device tree

A property has a name and a value that fits the name: a standard property has
the value its name stands for, and a value without a meaning has none of the
names the kernel knows.
-/

namespace Kruspix.Kernel.Devicetree

/-- The number in the cells, if it fits a `usize`. -/
def cellsAsUsize (cells : List Nat) : Option Nat :=
  if cells.length * 4 > 8 then none
  else some (cells.foldl (fun n part => (n <<< 32) % 2 ^ 64 ||| part) 0)

/-- One item of `reg`, in cells. -/
structure RegItemValue where
  address : List Nat
  length : List Nat
  deriving DecidableEq, Repr

def RegItemValue.addressAsUsize (item : RegItemValue) : Option Nat := cellsAsUsize item.address

def RegItemValue.lengthAsUsize (item : RegItemValue) : Option Nat := cellsAsUsize item.length

/-- One item of `ranges`, in cells. -/
structure RangesItemValue where
  childBusAddr : List Nat
  parentBusAddr : List Nat
  length : List Nat
  deriving DecidableEq, Repr

/-- The address on the bus of the node, if it fits `usize`. -/
def RangesItemValue.childBusAddrAsUsize (item : RangesItemValue) : Option Nat :=
  cellsAsUsize item.childBusAddr

/-- The address on the bus of the parent, if it fits `usize`. -/
def RangesItemValue.parentBusAddrAsUsize (item : RangesItemValue) : Option Nat :=
  cellsAsUsize item.parentBusAddr

def RangesItemValue.lengthAsUsize (item : RangesItemValue) : Option Nat := cellsAsUsize item.length

/-- One item of `dma-ranges`, in cells. -/
structure DmaRangesItemValue where
  childBusAddr : List Nat
  parentBusAddr : List Nat
  length : List Nat
  deriving DecidableEq, Repr

/-- What `status` says of a node. -/
inductive StatusValue
  | okay
  | disabled
  | reserved
  | fail (status : String)
  deriving DecidableEq, Repr

/-- The standard properties. `name` and `deviceType` are deprecated. -/
inductive StandardProperty
  | compatible (compatibleList : List String)
  | model (model : String)
  | phandle (phandle : Nat)
  | status (status : StatusValue)
  | addressCells (cells : Nat)
  | sizeCells (cells : Nat)
  | reg (items : List RegItemValue)
  | virtualReg (address : Nat)
  | ranges (items : List RangesItemValue)
  | dmaRanges (items : List DmaRangesItemValue)
  | dmaCoherent
  | dmaNoncoherent
  | name (name : String)
  | deviceType (deviceType : String)
  deriving DecidableEq, Repr

/-- The name of a standard property. -/
def StandardProperty.asStr : StandardProperty → String
  | .compatible _ => "compatible"
  | .model _ => "model"
  | .phandle _ => "phandle"
  | .status _ => "status"
  | .addressCells _ => "#address-cells"
  | .sizeCells _ => "#size-cells"
  | .reg _ => "reg"
  | .virtualReg _ => "virtual-reg"
  | .ranges _ => "ranges"
  | .dmaRanges _ => "dma-ranges"
  | .dmaCoherent => "dma-coherent"
  | .dmaNoncoherent => "dma-noncoherent"
  | .name _ => "name"
  | .deviceType _ => "device_type"

/-- The raw data of `interrupts` and similar properties is a list of cells. -/
inductive InterruptsProperty
  | interrupts (rawData : List Nat)
  | extendedInterrupts (rawData : List Nat)
  | interruptParent (phandle : Nat)
  | interruptCells (cells : Nat)
  | interruptController
  | interruptMap (rawData : List Nat)
  | interruptMapMask (mask : List Nat)
  deriving DecidableEq, Repr

/-- The name of an interrupt property. -/
def InterruptsProperty.asStr : InterruptsProperty → String
  | .interrupts _ => "interrupts"
  | .extendedInterrupts _ => "interrupts-extended"
  | .interruptParent _ => "interrupt-parent"
  | .interruptCells _ => "#interrupt-cells"
  | .interruptController => "interrupt-controller"
  | .interruptMap _ => "interrupt-map"
  | .interruptMapMask _ => "interrupt-map-mask"

/-- A frequency of one or two cells. -/
inductive ClockFrequency
  | u32 (frequency : Nat)
  | u64 (frequency : Nat)
  deriving DecidableEq, Repr

/-- The frequency, whatever its width. -/
def ClockFrequency.asU64 : ClockFrequency → UInt64
  | .u32 frequency => .ofNat frequency
  | .u64 frequency => .ofNat frequency

/-- The other properties with a name that the kernel knows. -/
inductive MiscellaneousProperty
  | clockCells (cells : Nat)
  | clockFrequency (frequency : ClockFrequency)
  | bootArgs (bootArgs : String)
  | stdoutPath (path : String)
  | stdinPath (path : String)
  deriving DecidableEq, Repr

/-- The name of such a property. -/
def MiscellaneousProperty.asStr : MiscellaneousProperty → String
  | .clockCells _ => "#clock-cells"
  | .clockFrequency _ => "clock-frequency"
  | .bootArgs _ => "bootargs"
  | .stdoutPath _ => "stdout-path"
  | .stdinPath _ => "stdin-path"

/-- A decoded value: of a known property, unknown bytes, or nothing. -/
inductive PropertyValue
  | standard (prop : StandardProperty)
  | interrupts (prop : InterruptsProperty)
  | miscellaneous (prop : MiscellaneousProperty)
  | unknown (data : List UInt8)
  | empty
  deriving DecidableEq, Repr

/-- The names that have a meaning of their own. -/
def knownNames : List String :=
  ["compatible", "model", "phandle", "status", "#address-cells", "#size-cells", "reg",
    "virtual-reg", "ranges", "dma-ranges", "dma-coherent", "dma-noncoherent", "interrupts",
    "interrupts-extended", "interrupt-parent", "#interrupt-cells", "interrupt-controller",
    "interrupt-map", "interrupt-map-mask", "#clock-cells", "clock-frequency", "bootargs",
    "stdout-path", "stdin-path"]

/-- The value is one that a property of this name has. -/
def PropertyValue.Named : PropertyValue → String → Prop
  | .standard prop, name => prop.asStr = name
  | .interrupts prop, name => prop.asStr = name
  | .miscellaneous prop, name => prop.asStr = name
  | .unknown _, name => name ∉ knownNames
  | .empty, name => name ∉ knownNames

instance (value : PropertyValue) (name : String) : Decidable (value.Named name) := by
  cases value <;> unfold PropertyValue.Named <;> infer_instance

/-- A property. The fields are private in the source, and `from_raw` is the
only way to make one. -/
structure Property where
  name : String
  value : PropertyValue
  named : value.Named name
  deriving DecidableEq

end Kruspix.Kernel.Devicetree
