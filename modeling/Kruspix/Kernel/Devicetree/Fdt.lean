import Kruspix.Kernel.Devicetree.Fdt.RawNode
import Kruspix.Kernel.Devicetree.Fdt.RawProp
import Mathlib.Algebra.Group.Int.Defs

/-!
# The flattened device tree

The blob is read in place: its header gives the offsets of its blocks, and every
look-up walks over them.
-/

namespace Kruspix.Kernel.Devicetree

open Lib.Iterator Lib.Result

/-- `u64::from_be(*ptr)`. -/
def Cursor.readBe64 (c : Cursor) : Except Fault Nat := do
  let high ← c.readBe32
  let low ← (c.skip 4).readBe32
  return high * 2 ^ 32 + low

namespace FdtReserveEntryIter

/-- The iterator over the reserved memory ends at an entry of zeros. -/
def next (c : Cursor) : Except Fault (Option (Nat × Nat) × Cursor) := do
  let address ← c.readBe64
  let size ← (c.skip 8).readBe64
  if address = 0 ∧ size = 0 then return (none, c)
  else return (some (address, size), c.skip 16)

theorem next_length {c d : Cursor} {entry : Nat × Nat} (h : next c = .ok (some entry, d)) :
    d.bytes.length < c.bytes.length := by
  obtain ⟨address, haddress, h⟩ := except_bind_eq_ok.mp h
  obtain ⟨size, -, h⟩ := except_bind_eq_ok.mp h
  obtain ⟨high, hhigh, -⟩ := except_bind_eq_ok.mp haddress
  have hlen := Cursor.readBe32_ok hhigh
  split at h <;> cases h
  simp only [Cursor.skip_bytes, List.length_drop]
  omega

/-- `impl Iterator`. -/
def iter : Iter Fault Cursor (Nat × Nat) where
  next := next
  size c := c.bytes.length
  size_lt := next_length

end FdtReserveEntryIter

/-- A blob, by the place of its header. -/
structure Fdt where
  header : Cursor
  deriving DecidableEq

namespace Fdt

/-- The most segments of a path. -/
def maxPathDepth : Nat := 64

variable (fdt : Fdt)

def address : Nat := fdt.header.addr

/-- The word of the header with the size of the blob. -/
def size : Except Fault Nat := (fdt.header.skip 4).readBe32

def structureBlockOffset : Except Fault Nat := (fdt.header.skip 8).readBe32

def stringsBlockOffset : Except Fault Nat := (fdt.header.skip 12).readBe32

def memRsvMapOffset : Except Fault Nat := (fdt.header.skip 16).readBe32

def version : Except Fault Nat := (fdt.header.skip 20).readBe32

def lastCompatibleVersion : Except Fault Nat := (fdt.header.skip 24).readBe32

def bootCpuidPhys : Except Fault Nat := (fdt.header.skip 28).readBe32

/-- The place of the first reservation. -/
def memoryReservationBlockIter : Except Fault Cursor := do
  return fdt.header.skip (← fdt.memRsvMapOffset)

/-- An iterator over the entries of the structure block. -/
def structureBlockIter : Except Fault StructureBlockIter := do
  let structureBlockOffset ← fdt.structureBlockOffset
  let stringsBlockOffset ← fdt.stringsBlockOffset
  return .new (fdt.header.skip structureBlockOffset) (fdt.header.skip stringsBlockOffset)

/-- An iterator over all nodes. -/
def nodeIter : Except Fault NodeIter := do
  let structureBlockOffset ← fdt.structureBlockOffset
  let stringsBlockOffset ← fdt.stringsBlockOffset
  return .new (fdt.header.skip structureBlockOffset) (fdt.header.skip stringsBlockOffset)
    (2 ^ 63 - 1)

/-- The first node that a test finds. -/
def findNode (p : RawNode → Bool) : Except Fault (Option RawNode) := do
  NodeIter.iter.find p (← fdt.nodeIter)

/-- The node with the empty name. -/
def rootNode : Except Fault (Option RawNode) := fdt.findNode RawNode.isRoot

def aliasesNode : Except Fault (Option RawNode) := fdt.findNode RawNode.isAliases

def chosenNode : Except Fault (Option RawNode) := fdt.findNode RawNode.isChosen

/-- An iterator over the properties of a node. -/
def propIter (node : RawNode) : Except Fault PropIter := do
  return .new node.propsPtr (fdt.header.skip (← fdt.stringsBlockOffset))

/-- An iterator over the children of a node. -/
def childIter (node : RawNode) : Except Fault NodeIter := do
  return .new node.childrenPtr (fdt.header.skip (← fdt.stringsBlockOffset)) 1

/-- The first property of a node that a test finds. -/
def findProp (node : RawNode) (p : RawProp → Bool) : Except Fault (Option RawProp) := do
  PropIter.iter.find p (← fdt.propIter node)

/-- The first child of this name. -/
def findChild (node : RawNode) (name : String) : Except Fault (Option RawNode) := do
  NodeIter.iter.find (fun child => child.name == name) (← fdt.childIter node)

/-- The path that a name stands for: a path is its own, an alias is a property of `/aliases`. -/
def aliasPath (name : String) : Except Fault (Option String) :=
  if name = "" then .ok none
  else if '/' ∈ name.toList then .ok (some name)
  else do
    match ← fdt.aliasesNode with
    | none => return none
    | some node =>
        match ← fdt.findProp node fun prop => prop.name == name with
        | none => return none
        | some prop => return prop.valueAsString

/-- The segments of a path. -/
def segments (path : String) : List String := (split '/' path).filter fun s => s ≠ ""

/-- The loop of `get_nodes_path`: the nodes up to this one, this one first. -/
def walkPath (above : List RawNode) (node : RawNode) :
    List String → Except Fault (Option (List RawNode))
  | [] => .ok (some (node :: above))
  | segment :: segments => do
      match ← fdt.findChild node segment with
      | none => return none
      | some child =>
          if above.length + 1 < maxPathDepth then walkPath (node :: above) child segments
          else return none

/-- `get_nodes_path`, the node of the path first and the root last. -/
def getNodesPath (path : String) : Except Fault (Option (List RawNode)) := do
  match ← fdt.aliasPath path with
  | none => return none
  | some path =>
      match ← fdt.rootNode with
      | none => .error .unwrap
      | some root => fdt.walkPath [] root (segments path)

/-- The loop of `get_node_by_path`. -/
def walkNode (currentNode : RawNode) : List String → Except Fault (Option RawNode)
  | [] => .ok (some currentNode)
  | segment :: segments => do
      match ← fdt.findChild currentNode segment with
      | none => return none
      | some nextNode => walkNode nextNode segments

/-- The node at a path or alias. -/
def getNodeByPath (path : String) : Except Fault (Option RawNode) := do
  match ← fdt.aliasPath path with
  | none => return none
  | some path =>
      match ← fdt.rootNode with
      | none => return none
      | some root => fdt.walkNode root (segments path)

/-- The property of a node with a standard name. -/
def parseStandardProp (node : RawNode) (standardProp : StandardProperty) :
    Except Fault (Option RawProp) :=
  fdt.findProp node fun prop => StandardProperty.tryFrom prop.name == some standardProp

/-- The number of a property of cells, if the node has it. -/
def parseCells (node : RawNode) (standardProp : StandardProperty) (default : Nat) :
    Except Fault Nat := do
  match ← fdt.parseStandardProp node standardProp with
  | none => return default
  | some prop =>
      match prop.valueAsU32 with
      | none => .error .unwrap
      | some cells => return cells

/-- `#address-cells` and `#size-cells` of a node, by default 2 and 1. -/
def parseAddressAndSizeCells (node : RawNode) : Except Fault (Nat × Nat) := do
  let addressCells ← fdt.parseCells node .addressCells 2
  let sizeCells ← fdt.parseCells node .sizeCells 1
  return (addressCells, sizeCells)

/-- What `parse_chosen` returns. -/
structure Chosen where
  bootargs : Option String
  stdoutPath : Option String
  stdinPath : Option String
  deriving DecidableEq, Repr

/-- `extract_and_set_path`. -/
def extractAndSetPath (prop : RawProp) (dest : Option String) : Option String :=
  match prop.valueAsString with
  | none => dest
  | some path => some ((split ':' path).head?.getD path)

/-- The body of the loop over the properties of the chosen node. -/
def Chosen.set (chosen : Chosen) (prop : RawProp) : Chosen :=
  if prop.name = "bootargs" then
    match prop.valueAsString with
    | none => chosen
    | some value => { chosen with bootargs := some value }
  else if "stdout-path".toList <:+ prop.name.toList then
    { chosen with stdoutPath := extractAndSetPath prop chosen.stdoutPath }
  else if prop.name = "stdin-path" then
    { chosen with stdinPath := extractAndSetPath prop chosen.stdinPath }
  else chosen

/-- The properties of `/chosen`. -/
def parseChosen : Except Fault Chosen := do
  match ← fdt.chosenNode with
  | none => return ⟨none, none, none⟩
  | some node =>
      let props ← PropIter.iter.collect (← fdt.propIter node)
      return props.foldl Chosen.set ⟨none, none, none⟩

/-- The test that finds the entry of `ranges` for an address. -/
def rangeHolds (address : Nat) (range : Nat × Nat × Nat) : Except Fault Bool :=
  if address ≥ range.1 then
    if range.1 + range.2.2 ≥ 2 ^ 64 then .error .overflow
    else .ok (address < range.1 + range.2.2)
  else .ok false

/-- The loop of `resolve_phys_addr` over the ancestors, the nearest first. -/
def translate (address : Nat) : List RawNode → Except Fault Nat
  | [] => .ok address
  | ancestor :: above => do
      match ← fdt.parseStandardProp ancestor .ranges with
      | none => translate address above
      | some rangesProp =>
          let (addressCells, sizeCells) ← fdt.parseAddressAndSizeCells ancestor
          match above with
          | [] => .error .assertion
          | parent :: _ =>
              let (parentAddressCells, _) ← fdt.parseAddressAndSizeCells parent
              let ranges ← rangesProp.cellsTriplets addressCells parentAddressCells sizeCells
              match ← ranges.findM? (rangeHolds address) with
              | none => translate address above
              | some (childAddr, parentAddr, _) =>
                  if address - childAddr + parentAddr ≥ 2 ^ 64 then .error .overflow
                  else translate (address - childAddr + parentAddr) above

/-- The first address of a node's `reg`, in the cells of its parent. -/
def regAddress (node : RawNode) : List RawNode → Except Fault Nat
  | [] => .error .assertion
  | parent :: _ => do
      match ← fdt.parseStandardProp node .reg with
      | none => .error .unwrap
      | some prop =>
          let (addressCells, sizeCells) ← fdt.parseAddressAndSizeCells parent
          match ← prop.cellsPairs addressCells sizeCells with
          | [] => .error .unwrap
          | (unitAddress, _) :: _ => return unitAddress

/-- `resolve_phys_addr`: the unit address of the node, else its `reg`, through the `ranges` of the
nodes above. -/
def resolvePhysAddr (path : String) : Except Fault (Option Nat) := do
  match ← fdt.getNodesPath path with
  | none => return none
  | some [] => .error .unwrap
  | some (node :: ancestors) =>
      match node.unitAddress.bind fromStrRadix16 with
      | some unitAddress => return some (← fdt.translate unitAddress ancestors)
      | none =>
          let unitAddress ← fdt.regAddress node ancestors
          return some (← fdt.translate unitAddress ancestors)

end Fdt

end Kruspix.Kernel.Devicetree
