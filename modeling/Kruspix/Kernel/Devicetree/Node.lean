import Kruspix.Kernel.Devicetree.Prop
import Mathlib.Algebra.Group.Nat.Even

/-!
# Nodes of the device tree

A node is looked at together with its ancestors, the nearest first: the source
keeps a pointer to the parent. Where the source compares the addresses of
nodes, the model compares their positions in the tree.

An accessor finds the first property of a name and takes the value apart. The
value has the kind the accessor expects, as the name determines the kind, so the
branch that the source marks as unreachable is never taken.
-/

namespace Kruspix.Kernel.Devicetree

/-- A node with its decoded properties. -/
structure Node where
  name : String
  properties : List Property
  children : List Node

namespace Node

/-- The value of the first property of this name. -/
def property? (node : Node) (name : String) : Option PropertyValue :=
  (node.properties.find? fun p => p.name == name).map Property.value

/-- The list in `compatible`. -/
def compatible (node : Node) : Option (List String) :=
  match node.property? "compatible" with
  | some (.standard (.compatible compatibleList)) => some compatibleList
  | _ => none

/-- The value of `phandle`. -/
def phandle (node : Node) : Option Nat :=
  match node.property? "phandle" with
  | some (.standard (.phandle phandle)) => some phandle
  | _ => none

/-- The value of `status`. -/
def status (node : Node) : Option StatusValue :=
  match node.property? "status" with
  | some (.standard (.status status)) => some status
  | _ => none

/-- The value of `#address-cells`, by default 2. -/
def addressCells (node : Node) : Nat :=
  match node.property? "#address-cells" with
  | some (.standard (.addressCells cells)) => cells
  | _ => 2

/-- The value of `#size-cells`, by default 1. -/
def sizeCells (node : Node) : Nat :=
  match node.property? "#size-cells" with
  | some (.standard (.sizeCells cells)) => cells
  | _ => 1

/-- The items of `reg`. -/
def reg (node : Node) : Option (List RegItemValue) :=
  match node.property? "reg" with
  | some (.standard (.reg items)) => some items
  | _ => none

/-- The items of `ranges`. -/
def ranges (node : Node) : Option (List RangesItemValue) :=
  match node.property? "ranges" with
  | some (.standard (.ranges items)) => some items
  | _ => none

/-- The cells of `interrupts`. -/
def interrupts (node : Node) : Option (List Nat) :=
  match node.property? "interrupts" with
  | some (.interrupts (.interrupts rawData)) => some rawData
  | _ => none

/-- The cells of `interrupts-extended`. -/
def interruptsExtended (node : Node) : Option (List Nat) :=
  match node.property? "interrupts-extended" with
  | some (.interrupts (.extendedInterrupts rawData)) => some rawData
  | _ => none

/-- The phandle in `interrupt-parent`. -/
def interruptParent (node : Node) : Option Nat :=
  match node.property? "interrupt-parent" with
  | some (.interrupts (.interruptParent phandle)) => some phandle
  | _ => none

/-- The node has the property `interrupt-controller`. -/
def isInterruptController (node : Node) : Bool :=
  node.properties.any fun p => p.name == "interrupt-controller"

/-- The cells of `interrupt-map`. -/
def interruptMap (node : Node) : Option (List Nat) :=
  match node.property? "interrupt-map" with
  | some (.interrupts (.interruptMap rawData)) => some rawData
  | _ => none

/-- The value of `#interrupt-cells`. -/
def interruptCells (node : Node) : Option Nat :=
  match node.property? "#interrupt-cells" with
  | some (.interrupts (.interruptCells cells)) => some cells
  | _ => none

/-- The value of `#clock-cells`. -/
def clockCells (node : Node) : Option Nat :=
  match node.property? "#clock-cells" with
  | some (.miscellaneous (.clockCells cells)) => some cells
  | _ => none

/-- The value of `clock-frequency`. -/
def clockFrequency (node : Node) : Option ClockFrequency :=
  match node.property? "clock-frequency" with
  | some (.miscellaneous (.clockFrequency frequency)) => some frequency
  | _ => none

end Node

/-- A pointer to a node: the node, its ancestors, the nearest first, and its
position, which stands for its address. -/
structure NodePtr where
  node : Node
  ancestors : List Node
  addr : List Nat

/-- The test that finds the entry of `ranges` for an address. -/
def RangesItemValue.holds (address : Nat) (range : RangesItemValue) : Except Fault Bool :=
  match range.childBusAddrAsUsize, range.parentBusAddrAsUsize, range.lengthAsUsize with
  | some childBusAddr, some _, some length =>
      if address ≥ childBusAddr then
        if childBusAddr + length ≥ 2 ^ 64 then .error .overflow
        else .ok (address < childBusAddr + length)
      else .ok false
  | _, _, _ => .ok false

/-- The address behind an entry. -/
def RangesItemValue.translate (length address : Nat) (range : RangesItemValue) :
    Except Fault Nat :=
  match range.childBusAddrAsUsize, range.parentBusAddrAsUsize, range.lengthAsUsize with
  | some childBusAddr, some parentBusAddr, some rangeLength =>
      if ¬ rangeLength > length then .error .assertion
      else if parentBusAddr + (address - childBusAddr) ≥ 2 ^ 64 then .error .overflow
      else .ok (parentBusAddr + (address - childBusAddr))
  | _, _, _ => .error .unwrap

/-- The loop of `resolve_phys_address_and_length` over the ancestors. -/
def climb (length address : Nat) : List Node → Except Fault Nat
  | [] => .ok address
  | parentNode :: ancestors =>
      match parentNode.ranges with
      | none => .ok address
      | some ranges =>
          match ranges.findM? (RangesItemValue.holds address) with
          | .error e => .error e
          | .ok none => .ok address
          | .ok (some range) =>
              match range.translate length address with
              | .error e => .error e
              | .ok address => climb length address ancestors

namespace NodePtr

def parent (ptr : NodePtr) : Option Node := ptr.ancestors.head?

/-- The names on the way from the root. A node without a name, as the root, has no segment. -/
def path (ptr : NodePtr) : String :=
  let segments := ((ptr.node :: ptr.ancestors).map Node.name).filter fun name => name ≠ ""
  if segments.isEmpty then "/" else segments.reverse.foldl (fun path name => path ++ "/" ++ name) ""

/-- `resolve_phys_address_and_length`: an item of `reg` with its address taken through the `ranges`
of the nodes above. -/
def resolvePhysAddressAndLength (ptr : NodePtr) (regIndex : Nat) :
    Except Fault (Option (Nat × Nat)) :=
  match ptr.node.reg.bind fun reg => reg[regIndex]? with
  | none => .ok none
  | some reg =>
      match reg.addressAsUsize, reg.lengthAsUsize with
      | some address, some length =>
          match climb length address ptr.ancestors with
          | .error e => .error e
          | .ok address => .ok (some (address, length))
      | _, _ => .ok none

end NodePtr

end Kruspix.Kernel.Devicetree
