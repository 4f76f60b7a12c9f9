import Kruspix.Kernel.Devicetree.NodeProps
import Kruspix.Kernel.Devicetree.Paths
import Kruspix.Lib.Windows

/-!
# The physical address of a path of the blob

The resolver of the blob starts from the unit address and goes through all ancestors: where
`ranges` has an entry for the address it takes it, and otherwise the address stays.
-/

namespace Kruspix.Kernel.Devicetree

open Lib.Iterator Lib.Iterator.Iter Lib.Result Lib.Search Lib.Windows

namespace FdtTree

/-- The cells of a node, of which the properties are read even if it has none. -/
def addressAndSizeCells (tree : FdtTree) : Except Fault (Nat × Nat) :=
  if tree.props = [] then .error .nullPointer
  else do
    let addressCells ← tree.cells .addressCells 2
    let sizeCells ← tree.cells .sizeCells 1
    return (addressCells, sizeCells)

/-- The entries of `ranges` of a node below others: none if it has no such property. -/
def entries (tree : FdtTree) (above : List FdtTree) : Except Fault (List (Nat × Nat × Nat)) :=
  if tree.props = [] then .error .nullPointer
  else
    match tree.standardProp .ranges with
    | none => .ok []
    | some rangesProp => do
        let (addressCells, sizeCells) ← tree.addressAndSizeCells
        match above with
        | [] => .error .assertion
        | parent :: _ =>
            let (parentAddressCells, _) ← parent.addressAndSizeCells
            rangesProp.cellsTriplets addressCells parentAddressCells sizeCells

/-- `resolve_phys_addr` from the address on. -/
def translate (address : Nat) : List FdtTree → Except Fault Nat
  | [] => .ok address
  | tree :: above => do
      let entries ← tree.entries above
      match ← entries.findM? (Fdt.rangeHolds address) with
      | none => translate address above
      | some (childAddr, parentAddr, _) =>
          if address - childAddr + parentAddr ≥ 2 ^ 64 then .error .overflow
          else translate (address - childAddr + parentAddr) above

/-- The window that an entry describes. -/
def entryWindow (entry : Nat × Nat × Nat) : Window := ⟨entry.1, entry.2.1, entry.2.2⟩

/-- The windows in the `ranges` of trees, of which each is below those behind it. -/
def busWindows : List FdtTree → List (List Window)
  | [] => []
  | tree :: above =>
      (match tree.entries above with
        | .error _ => []
        | .ok entries => entries.map entryWindow) :: busWindows above

variable {fdt : Fdt} {h : Header} {tree node root : FdtTree} {reservations : List (Nat × Nat)}
  {raw : RawNode} {raws : List RawNode} {trees above : List FdtTree} {address target : Nat}

/-! ## The blob -/

theorem parseStandardProp_describes (henc : fdt.Encodes h root reservations)
    (hraw : Describes (fdt.strings h) raw tree) (kind : Fdt.StandardProperty) :
    fdt.parseStandardProp raw kind =
      if tree.props = [] then .error .nullPointer else .ok (tree.standardProp kind) := by
  by_cases hprops : tree.props = []
  · rw [if_pos hprops, Fdt.parseStandardProp, Fdt.findProp, henc.propIter, except_ok_bind]
    exact find_error (hraw.no_props hprops) _
  · rw [if_neg hprops]
    exact (henc.seesProps hraw hprops).standardProp kind

theorem parseAddressAndSizeCells_describes (henc : fdt.Encodes h root reservations)
    (hraw : Describes (fdt.strings h) raw tree) :
    fdt.parseAddressAndSizeCells raw = tree.addressAndSizeCells := by
  rw [addressAndSizeCells]
  by_cases hprops : tree.props = []
  · rw [if_pos hprops, Fdt.parseAddressAndSizeCells, Fdt.parseCells,
      parseStandardProp_describes henc hraw, if_pos hprops]
    rfl
  · rw [if_neg hprops]
    exact (henc.seesProps hraw hprops).cells

/-- The resolver on the blob computes what it computes on the trees. -/
theorem translate_describes (henc : fdt.Encodes h root reservations)
    (hraws : List.Forall₂ (Describes (fdt.strings h)) raws trees) :
    fdt.translate address raws = translate address trees := by
  induction hraws generalizing address with
  | nil => rfl
  | @cons raw tree raws trees hraw hraws ih =>
      rw [Fdt.translate, parseStandardProp_describes henc hraw, translate, entries]
      by_cases hprops : tree.props = []
      · rw [if_pos hprops, if_pos hprops]
        rfl
      · rw [if_neg hprops, if_neg hprops, except_ok_bind]
        cases hranges : tree.standardProp .ranges with
        | none =>
            simp only [except_ok_bind]
            exact ih
        | some rangesProp =>
            simp only [parseAddressAndSizeCells_describes henc hraw]
            cases hcells : tree.addressAndSizeCells with
            | error e => rfl
            | ok cells =>
                simp only [except_ok_bind]
                cases hraws with
                | nil => rfl
                | @cons parent upper raws trees hparent hraws =>
                    simp only [parseAddressAndSizeCells_describes henc hparent, ih]
                    cases upper.addressAndSizeCells with
                    | error e => rfl
                    | ok upperCells => rfl

/-- The resolver of the blob gives the address that the one on the trees gives, unless the
path is too deep. -/
theorem resolvePhysAddr_describes (henc : fdt.Encodes h root reservations) {path : String}
    (hslash : '/' ∈ path.toList)
    (hpath : root.walkPath [] (Fdt.segments path) = some (node :: above))
    (hunit : ((split '@' node.name)[1]?.bind fromStrRadix16) = some address) :
    fdt.resolvePhysAddr path =
      if above.length < Fdt.maxPathDepth then (translate address above).map some
      else .ok none := by
  obtain ⟨raw, hroot, hraw⟩ := rootNode_describes henc
  have hwalk := walkPath_describes henc hraw .nil hpath (by decide)
  have hne : path ≠ "" := by
    rintro rfl
    cases hslash
  rw [Fdt.resolvePhysAddr, Fdt.getNodesPath, Fdt.aliasPath, if_neg hne, if_pos hslash]
  simp only [except_ok_bind, hroot]
  split at hwalk
  · rename_i hdepth
    obtain ⟨found, hfound, hall⟩ := hwalk
    rw [hfound, if_pos (by exact hdepth)]
    cases hall with
    | @cons raw' _ raws _ hnode habove =>
        have hunit' : raw'.unitAddress.bind fromStrRadix16 = some address := by
          rw [RawNode.unitAddress, hnode.name]
          exact hunit
        simp only [except_ok_bind, hunit', translate_describes henc habove]
        cases translate address above with
        | error e => rfl
        | ok target => rfl
  · rename_i hdepth
    rw [hwalk, if_neg (by exact hdepth)]
    rfl

/-! ## The windows -/

theorem rangeHolds_eq_ok {entry : Nat × Nat × Nat} {b : Bool}
    (h : Fdt.rangeHolds address entry = .ok b) :
    decide ((entryWindow entry).Holds address) = b := by
  rw [Fdt.rangeHolds] at h
  split at h
  · rename_i hle
    split at h
    · cases h
    · cases h
      simp only [entryWindow, Window.Holds, hle, true_and]
  · rename_i hlt
    cases h
    simp only [entryWindow, Window.Holds, hlt, false_and, decide_false]

/-- What the resolver finds on a bus maps the address as the bus does. -/
theorem raise_of_findM? {entries : List (Nat × Nat × Nat)} {found : Option (Nat × Nat × Nat)}
    (h : entries.findM? (Fdt.rangeHolds address) = .ok found) :
    raise (entries.map entryWindow) address =
      (found.map fun entry => (entryWindow entry).apply address).getD address := by
  cases found with
  | none =>
      have hnone := findM?_eq_none_iff.mp h
      have hfind : (entries.map entryWindow).find? (fun w => decide (w.Holds address)) = none := by
        rw [List.find?_eq_none]
        intro w hw
        obtain ⟨entry, hentry, rfl⟩ := List.mem_map.mp hw
        rw [rangeHolds_eq_ok (hnone entry hentry)]
        exact Bool.false_ne_true
      rw [raise, hfind]
      rfl
  | some entry =>
      obtain ⟨before, after, rfl, hbefore, hholds⟩ := findM?_eq_some_iff.mp h
      have hfront : (before.map entryWindow).find? (fun w => decide (w.Holds address)) = none := by
        rw [List.find?_eq_none]
        intro w hw
        obtain ⟨entry', hentry', rfl⟩ := List.mem_map.mp hw
        rw [rangeHolds_eq_ok (hbefore entry' hentry')]
        exact Bool.false_ne_true
      rw [raise, List.map_append, List.find?_append, hfront, Option.none_or, List.map_cons,
        List.find?_cons, rangeHolds_eq_ok hholds]
      rfl

/-- The resolver takes a step on each tree. -/
theorem translate_cons_eq_ok : translate address (tree :: above) = .ok target ↔
    ∃ entries found, tree.entries above = .ok entries ∧
      entries.findM? (Fdt.rangeHolds address) = .ok found ∧
        (∀ entry, found = some entry → (entryWindow entry).apply address < 2 ^ 64) ∧
          translate ((found.map fun entry => (entryWindow entry).apply address).getD address)
            above = .ok target := by
  rw [translate]
  constructor
  · intro h
    obtain ⟨entries, hentries, h⟩ := except_bind_eq_ok.mp h
    obtain ⟨found, hfind, h⟩ := except_bind_eq_ok.mp h
    refine ⟨entries, found, hentries, hfind, ?_⟩
    cases found with
    | none => exact ⟨nofun, h⟩
    | some entry =>
        obtain ⟨childAddr, parentAddr, size⟩ := entry
        dsimp only at h
        split at h
        · cases h
        · rename_i hfits
          rw [Nat.add_comm] at h hfits
          refine ⟨?_, h⟩
          rintro _ ⟨⟩
          exact Nat.lt_of_not_ge hfits
  · rintro ⟨entries, found, hentries, hfind, hfits, h⟩
    rw [hentries, except_ok_bind, hfind, except_ok_bind]
    cases found with
    | none => exact h
    | some entry =>
        have hlt := hfits entry rfl
        change translate ((entryWindow entry).apply address) above = _ at h
        rw [Window.apply, Nat.add_comm] at hlt h
        exact (if_neg (Nat.not_le.mpr hlt)).trans h

/-- The resolver ends where the windows lead. -/
theorem translate_eq_raiseAll (h : translate address trees = .ok target) :
    target = raiseAll (busWindows trees) address := by
  induction trees generalizing address with
  | nil => exact (Except.ok.inj h).symm
  | cons tree above ih =>
      obtain ⟨entries, found, hentries, hfind, -, h⟩ := translate_cons_eq_ok.mp h
      rw [busWindows, hentries, raiseAll_cons, raise_of_findM? hfind]
      exact ih h

end FdtTree

end Kruspix.Kernel.Devicetree
