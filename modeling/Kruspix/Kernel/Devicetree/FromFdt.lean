import Kruspix.Kernel.Devicetree.DeviceTree
import Kruspix.Kernel.Devicetree.Fdt
import Kruspix.Kernel.Devicetree.FromRaw

/-!
# The device tree from its flattened form

The entries of the structure block are taken one by one. A stack holds the nodes
that have begun and not ended, the innermost first.
-/

namespace Kruspix.Kernel.Devicetree

open Lib.Iterator Lib.Result

/-- What the loop of `from_fdt` changes. -/
structure Builder where
  nodesStack : List Node
  phandleMap : List (Nat × List Nat)

namespace Builder

/-- The position of the node on top of the stack in the tree. -/
def position (stack : List Node) : List Nat :=
  (stack.tail.map fun node => node.children.length).reverse

/-- A node starts: it becomes the top of the stack. -/
def beginNode (b : Builder) (node : RawNode) : Builder :=
  { b with nodesStack := ⟨node.name, [], []⟩ :: b.nodesStack }

/-- The end of a node: of a child, of the root or of none. -/
def endNode (b : Builder) : Builder ⊕ Option (Node × List (Nat × List Nat)) :=
  match b.nodesStack with
  | [] => .inr none
  | [root] => .inr (some (root, b.phandleMap))
  | child :: parent :: above =>
      .inl { b with nodesStack := { parent with children := parent.children ++ [child] } :: above }

/-- A property is decoded and pushed to the node on top of the stack. A phandle is entered in the
map with the place of its node. -/
def prop (b : Builder) (prop : RawProp) : Except Fault Builder :=
  match b.nodesStack with
  | [] => .ok b
  | node :: above =>
      match Property.fromRaw prop node above.head? with
      | .error e => .error e
      | .ok property =>
          let phandleMap :=
            if property.name = "phandle" then
              match prop.valueAsPhandle with
              | some phandle => (phandle, position b.nodesStack) :: b.phandleMap
              | none => b.phandleMap
            else b.phandleMap
          .ok ⟨{ node with properties := node.properties ++ [property] } :: above, phandleMap⟩

/-- The body of the loop. -/
def entry (b : Builder) : Except Unit StructureBlockEntry →
    Except Fault (Builder ⊕ Option (Node × List (Nat × List Nat)))
  | .error _ => .ok (.inr none)
  | .ok (.beginNode node) => .ok (.inl (b.beginNode node))
  | .ok .endNode => .ok b.endNode
  | .ok (.prop prop) =>
      match b.prop prop with
      | .error e => .error e
      | .ok b => .ok (.inl b)

end Builder

/-- `from_fdt`. -/
def DeviceTree.fromFdt (fdt : Fdt) : Except Fault (Option DeviceTree) := do
  let size ← fdt.size
  let version ← fdt.version
  let lastCompVersion ← fdt.lastCompatibleVersion
  let bootCpuidPhys ← fdt.bootCpuidPhys
  let memoryReservations ← FdtReserveEntryIter.iter.collect (← fdt.memoryReservationBlockIter)
  match ← StructureBlockIter.iter.forEach Builder.entry ⟨[], []⟩ (← fdt.structureBlockIter) with
  | .inl _ => return none
  | .inr none => return none
  | .inr (some (root, phandleMap)) =>
      return some ⟨fdt.address, size, version, lastCompVersion, bootCpuidPhys, memoryReservations,
        root, phandleMap⟩

end Kruspix.Kernel.Devicetree
