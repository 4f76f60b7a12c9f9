import Kruspix.Kernel.Devicetree.Blob

/-!
# The properties of a raw node

The pointer to the properties of a node is null when the node has none, and the iterator
over properties reads it before it looks whether it is null.
-/

namespace Kruspix.Kernel.Devicetree

open Lib.Iterator Lib.Iterator.Iter Lib.Result

namespace FdtTree

variable (tree : FdtTree)

/-- The first standard property of this kind. -/
def standardProp (kind : Fdt.StandardProperty) : Option RawProp :=
  tree.props.find? fun prop => Fdt.StandardProperty.tryFrom prop.name == some kind

/-- The number of cells that a property gives, which must be a word. -/
def cells (kind : Fdt.StandardProperty) (default : Nat) : Except Fault Nat :=
  match tree.standardProp kind with
  | none => .ok default
  | some prop => unwrap prop.valueAsU32

/-- What the chosen node says. -/
def chosen : Fdt.Chosen := tree.props.foldl Fdt.Chosen.set ⟨none, none, none⟩

end FdtTree

/-- The functions on the properties of the raw node see those of the tree. -/
structure Fdt.SeesProps (fdt : Fdt) (raw : RawNode) (tree : FdtTree) : Prop where
  props : ∃ s, fdt.propIter raw = .ok s ∧ Yields PropIter.iter s tree.props
  standardProp : ∀ kind, fdt.parseStandardProp raw kind = .ok (tree.standardProp kind)
  cells : fdt.parseAddressAndSizeCells raw = (do
    let addressCells ← tree.cells .addressCells 2
    let sizeCells ← tree.cells .sizeCells 1
    return (addressCells, sizeCells))
  chosen : fdt.chosenNode = .ok (some raw) → fdt.parseChosen = .ok tree.chosen

variable {fdt : Fdt} {h : Header} {tree node : FdtTree} {reservations : List (Nat × Nat)}
  {raw : RawNode}

theorem Fdt.Encodes.propIter (henc : fdt.Encodes h tree reservations) (raw : RawNode) :
    fdt.propIter raw = .ok (.new raw.propsPtr (fdt.strings h)) := by
  rw [Fdt.propIter, henc.stringsBlockOffset]
  rfl

theorem Fdt.Encodes.parseStandardProp (henc : fdt.Encodes h tree reservations)
    (hyields : Yields PropIter.iter (.new raw.propsPtr (fdt.strings h)) node.props)
    (kind : StandardProperty) : fdt.parseStandardProp raw kind = .ok (node.standardProp kind) := by
  rw [Fdt.parseStandardProp, findProp, henc.propIter, except_ok_bind, hyields.find]
  rfl

theorem Fdt.Encodes.parseCells (henc : fdt.Encodes h tree reservations)
    (hyields : Yields PropIter.iter (.new raw.propsPtr (fdt.strings h)) node.props)
    (kind : StandardProperty) (default : Nat) :
    fdt.parseCells raw kind default = node.cells kind default := by
  rw [Fdt.parseCells, henc.parseStandardProp hyields, except_ok_bind, FdtTree.cells]
  cases node.standardProp kind with
  | none => rfl
  | some prop =>
      cases hvalue : prop.valueAsU32 with
      | none => simp only [hvalue, unwrap]
      | some cells => simp only [hvalue, unwrap, except_pure]

theorem Fdt.Encodes.seesProps (henc : fdt.Encodes h tree reservations)
    (hraw : Describes (fdt.strings h) raw node) (hprops : node.props ≠ []) :
    fdt.SeesProps raw node := by
  have hyields := hraw.yields_props hprops
  refine ⟨⟨_, henc.propIter raw, hyields⟩, henc.parseStandardProp hyields, ?_, fun hchosen => ?_⟩
  · rw [parseAddressAndSizeCells, henc.parseCells hyields, henc.parseCells hyields]
  · rw [parseChosen, hchosen, except_ok_bind]
    simp only [henc.propIter, except_ok_bind, hyields.collect, except_pure]
    rfl

/-- The properties of a node are seen exactly when it has one. -/
theorem Fdt.Encodes.seesProps_iff (henc : fdt.Encodes h tree reservations)
    (hraw : Describes (fdt.strings h) raw node) :
    fdt.SeesProps raw node ↔ node.props ≠ [] := by
  constructor
  · rintro ⟨⟨s, hs, hyields⟩, -⟩ hnone
    rw [henc.propIter raw] at hs
    cases hs
    rw [hnone] at hyields
    cases hyields with
    | done hnext =>
        change PropIter.next _ = _ at hnext
        rw [hraw.no_props hnone] at hnext
        cases hnext
  · exact henc.seesProps hraw

/-- The root of the blob with a bus and a device has a property. -/
theorem seesProps_uartRoot : ∃ raw, Describes (uartFdt.strings uartHeader) raw uartTree ∧
    uartFdt.SeesProps raw uartTree := by
  obtain ⟨s, raws, -, -, hraws⟩ := uartFdt_encodes.yields_nodes
  cases hraws with
  | cons hroot _ =>
      exact ⟨_, hroot, (uartFdt_encodes.seesProps_iff hroot).mpr (by simp [FdtTree.props])⟩

/-- The device has none, and its null pointer is read. -/
theorem uart_not_seesProps : ¬∀ node ∈ uartTree.nodes, ∀ raw,
    Describes (uartFdt.strings uartHeader) raw node → uartFdt.SeesProps raw node := by
  intro hall
  obtain ⟨s, raws, -, -, hraws⟩ := uartFdt_encodes.yields_nodes
  cases hraws with
  | cons _ hraws =>
      cases hraws with
      | @cons raw _ _ _ huart _ =>
          obtain ⟨s, hs, hyields⟩ :=
            (hall (.node "uart@10" [] []) (by simp [uartTree, FdtTree.nodes, FdtTree.nodesList])
              raw huart).props
          rw [uartFdt_encodes.propIter raw] at hs
          cases hs
          cases hyields with
          | done hnext =>
              change PropIter.next _ = _ at hnext
              rw [huart.no_props rfl] at hnext
              cases hnext

end Kruspix.Kernel.Devicetree
