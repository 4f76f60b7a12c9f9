import Kruspix.Kernel.Devicetree.Decodable
import Kruspix.Kernel.Devicetree.ParseMemory

/-!
# The reserved memory that is read

Reserved are the blob itself, the pairs of the children of the node for reserved memory and
the entries of the reservation block. The node is the first one of its name in the whole
tree, wherever it stands.
-/

namespace Kruspix.Kernel.Devicetree

open Lib.Bytes Lib.Iterator Lib.Iterator.Iter Lib.Result Lib.Search

namespace FdtTree

/-- The cells of addresses and sizes that a node gives to its children. -/
def cellPair (tree : FdtTree) : Nat × Nat :=
  (RawProp.addressCellsOf tree.props, RawProp.sizeCellsOf tree.props)

/-- The cells are words, and 1 or 2. -/
structure GivesCells (tree : FdtTree) : Prop where
  word : ∀ prop ∈ tree.props, prop.name = "#address-cells" ∨ prop.name = "#size-cells" →
    prop.IsWord
  address : IsCells tree.cellPair.1
  size : IsCells tree.cellPair.2

/-- The `reg` of the children of a node. -/
def childRegs (tree : FdtTree) : List RawProp :=
  (tree.children.flatMap FdtTree.props).filter fun prop => prop.name == "reg"

/-- The pairs of the children of a node. -/
def childPairs (tree : FdtTree) : List (Nat × Nat) :=
  tree.childRegs.flatMap fun reg => reg.pairs tree.cellPair.1 tree.cellPair.2

/-- The node for reserved memory: the first one of its name up to the unit address. -/
def reservedMemory (tree : FdtTree) : Option FdtTree :=
  tree.nodes.find? fun node => node.nodeName == "reserved-memory"

/-- The child of the root of this name. -/
def reservedMemoryPath (tree : FdtTree) : Option FdtTree :=
  tree.children.find? fun child => child.name == "reserved-memory"

/-- Every node has a property, the cells are 1 or 2, addresses are not translated, and the
`reg` below the node for reserved memory are made of whole pairs. -/
structure Reserves (tree : FdtTree) (reserved : Option FdtTree) : Prop where
  props : ∀ node ∈ tree.nodes, node.props ≠ []
  rootCells : tree.GivesCells
  cells : ∀ node, reserved = some node → node.GivesCells
  ranges : ∀ node, reserved = some node → ∀ prop ∈ node.props, prop.name = "ranges" →
    prop.value = []
  whole : ∀ node, reserved = some node → ∀ reg ∈ node.childRegs,
    reg.Whole node.cellPair.1 node.cellPair.2

/-- The regions of the array if there are not too many, and zeros behind them. -/
def fill (regions : List (Nat × Nat)) : Option (List (Nat × Nat)) :=
  if regions.length ≤ 32 then some (padded regions) else none

/-- What is reserved: the blob, the regions below the node for reserved memory, whose cells
have to be those of the root, and those of the reservation block. -/
def reservedRegions (tree : FdtTree) (reserved : Option FdtTree) (blob : Nat × Nat)
    (reservations : List (Nat × Nat)) : Option (List (Nat × Nat)) :=
  match reserved with
  | none => fill (blob :: reservations)
  | some memory =>
      if memory.cellPair = tree.cellPair then fill (blob :: (memory.childPairs ++ reservations))
      else none

variable {tree memory : FdtTree}

/-- The first property of a kind is the first one of its name. -/
theorem standardProp_eq_find? (tree : FdtTree) (kind : Fdt.StandardProperty) :
    tree.standardProp kind = tree.props.find? fun prop => prop.name == kind.asStr := by
  rw [standardProp]
  congr 1
  funext prop
  rw [Bool.eq_iff_iff, beq_iff_eq, beq_iff_eq]
  exact Fdt.StandardProperty.tryFrom_eq_some

theorem cells_eq_cellsOf {kind : Fdt.StandardProperty} {default : Nat}
    (hword : ∀ prop ∈ tree.props, prop.name = kind.asStr → prop.IsWord) :
    tree.cells kind default = .ok (RawProp.cellsOf kind.asStr default tree.props) := by
  rw [cells, standardProp_eq_find?, RawProp.cellsOf]
  cases hfind : tree.props.find? fun prop => prop.name == kind.asStr with
  | none => rfl
  | some prop =>
      have hname : (prop.name == kind.asStr) = true := by
        have hsome := List.find?_some hfind
        exact hsome
      have hisWord := hword prop (List.mem_of_find?_eq_some hfind) (beq_iff_eq.mp hname)
      cases hvalue : prop.valueAsU32 with
      | none => exact absurd hvalue (RawProp.valueAsU32_isSome.mpr hisWord)
      | some n => simp only [hvalue, unwrap, Option.getD_some]

theorem GivesCells.addressAndSizeCells (h : tree.GivesCells) (hprops : tree.props ≠ []) :
    tree.addressAndSizeCells = .ok tree.cellPair := by
  have haddress : tree.cells .addressCells 2 = .ok (RawProp.addressCellsOf tree.props) :=
    cells_eq_cellsOf fun prop hprop hname => h.word prop hprop (Or.inl hname)
  have hsize : tree.cells .sizeCells 1 = .ok (RawProp.sizeCellsOf tree.props) :=
    cells_eq_cellsOf fun prop hprop hname => h.word prop hprop (Or.inr hname)
  rw [FdtTree.addressAndSizeCells, if_neg hprops, haddress, hsize]
  rfl

end FdtTree

open FdtTree

variable {fdt : Fdt} {h : Header} {tree memory : FdtTree} {reservations : List (Nat × Nat)}
  {raw : RawNode} {addressCells sizeCells : Nat} {props : List RawProp} {regions : Regions}
  {written : List (Nat × Nat)}

/-! ## The loops -/

/-- The loop over the properties of the node itself passes empty `ranges`. -/
theorem forList_reservedMemoryProp
    (hranges : ∀ prop ∈ props, prop.name = "ranges" → prop.value = []) :
    forList Fdt.reservedMemoryProp () props = .ok (.inl ()) := by
  induction props with
  | nil => rfl
  | cons prop props ih =>
      obtain ⟨hprop, hprops⟩ := List.forall_mem_cons.mp hranges
      have hpass : Fdt.reservedMemoryProp () prop = .ok (.inl ()) := by
        rw [Fdt.reservedMemoryProp]
        split
        · rfl
        · rename_i hvalue
          split
          · rename_i hkind
            exact absurd (hprop (Fdt.StandardProperty.tryFrom_eq_some.mp hkind)) hvalue
          · rfl
      rw [forList, hpass]
      exact ih hprops

/-- A property of a child fills the array with its pairs if it is `reg`. -/
theorem reservedChildProp_filled (h : regions.Holds written) (haddress : IsCells addressCells)
    (hsize : IsCells sizeCells) {prop : RawProp}
    (hwhole : prop.name = "reg" → prop.Whole addressCells sizeCells) :
    Regions.Filled (Fdt.reservedChildProp addressCells sizeCells regions prop)
      (written ++ if prop.name = "reg" then prop.pairs addressCells sizeCells else []) := by
  rw [Fdt.reservedChildProp]
  by_cases hvalue : prop.value = []
  · rw [if_pos hvalue, RawProp.pairs_eq_nil hvalue, ite_self, List.append_nil]
    exact h.filled
  · by_cases hname : prop.name = "reg"
    · rw [if_neg hvalue, if_pos hname, if_pos hname,
        RawProp.cellsPairs_eq haddress hsize (hwhole hname)]
      exact Regions.forList_writeReserved h _
    · rw [if_neg hvalue, if_neg hname, if_neg hname, List.append_nil]
      exact h.filled

/-- The loop over the properties of the children fills the array with their pairs. -/
theorem forList_reservedChildProp (h : regions.Holds written) (haddress : IsCells addressCells)
    (hsize : IsCells sizeCells)
    (hwhole : ∀ reg ∈ props.filter fun prop => prop.name == "reg",
      reg.Whole addressCells sizeCells) :
    Regions.Filled (forList (Fdt.reservedChildProp addressCells sizeCells) regions props)
      (written ++ (props.filter fun prop => prop.name == "reg").flatMap fun reg =>
        reg.pairs addressCells sizeCells) := by
  induction props generalizing regions written with
  | nil =>
      rw [List.filter_nil, List.flatMap_nil, List.append_nil]
      exact h.filled
  | cons prop props ih =>
      have hhead : prop.name = "reg" → prop.Whole addressCells sizeCells := by
        intro hname
        apply hwhole
        exact List.mem_filter.mpr ⟨List.mem_cons_self, beq_iff_eq.mpr hname⟩
      have htail : ∀ reg ∈ props.filter fun prop => prop.name == "reg",
          reg.Whole addressCells sizeCells := by
        intro reg hreg
        apply hwhole
        obtain ⟨hmem, hname⟩ := List.mem_filter.mp hreg
        exact List.mem_filter.mpr ⟨List.mem_cons_of_mem _ hmem, hname⟩
      have hpairs : ((prop :: props).filter fun prop => prop.name == "reg").flatMap (fun reg =>
          reg.pairs addressCells sizeCells) =
            (if prop.name = "reg" then prop.pairs addressCells sizeCells else []) ++
              (props.filter fun prop => prop.name == "reg").flatMap fun reg =>
                reg.pairs addressCells sizeCells := by
        rw [List.filter_cons]
        by_cases hname : prop.name = "reg"
        · rw [if_pos (beq_iff_eq.mpr hname), List.flatMap_cons, if_pos hname]
        · rw [if_neg (fun heq => hname (beq_iff_eq.mp heq)), if_neg hname, List.nil_append]
      rw [forList_cons, hpairs, ← List.append_assoc]
      apply (reservedChildProp_filled h haddress hsize hhead).bind
      intro regions' hholds
      exact ih hholds htail

/-! ## The three sources -/

theorem Fdt.Encodes.reservedMemoryNode (henc : fdt.Encodes h tree reservations) :
    ∃ found, fdt.reservedMemoryNode = .ok found ∧
      Option.Rel (Describes (fdt.strings h)) found tree.reservedMemory := by
  obtain ⟨s, raws, hs, hyields, hraws⟩ := henc.yields_nodes
  refine ⟨raws.find? RawNode.isReservedMemory, ?_, ?_⟩
  · rw [Fdt.reservedMemoryNode, Fdt.findNode, hs, except_ok_bind, hyields.find]
  · apply find?_rel hraws
    intro raw node hraw
    rw [RawNode.isReservedMemory, hraw.nodeName]

/-- What the node for reserved memory says fills the array, if its cells are those of the root. -/
theorem Fdt.Encodes.parseReservedNode (henc : fdt.Encodes h tree reservations)
    (hreserves : tree.Reserves (some memory)) (hmemory : memory ∈ tree.nodes)
    (hraw : Describes (fdt.strings h) raw memory) (hregions : regions.Holds written) :
    if memory.cellPair = tree.cellPair then
      Regions.Filled (fdt.parseReservedNode regions raw) (written ++ memory.childPairs)
    else fdt.parseReservedNode regions raw = .ok (.inr ()) := by
  obtain ⟨root, hroot, hdescribes⟩ := FdtTree.rootNode_describes henc
  have hrootProps := hreserves.props tree (self_mem_nodes tree)
  have hprops := hreserves.props memory hmemory
  have hcells := hreserves.cells memory rfl
  have hrootPair : fdt.parseAddressAndSizeCells root = .ok tree.cellPair := by
    rw [parseAddressAndSizeCells_describes henc hdescribes]
    exact hreserves.rootCells.addressAndSizeCells hrootProps
  have hpair : fdt.parseAddressAndSizeCells raw = .ok memory.cellPair := by
    rw [parseAddressAndSizeCells_describes henc hraw]
    exact hcells.addressAndSizeCells hprops
  have hdiffer : memory.cellPair.1 ≠ tree.cellPair.1 ∨ memory.cellPair.2 ≠ tree.cellPair.2 ↔
      memory.cellPair ≠ tree.cellPair := by
    rw [ne_eq memory.cellPair, Prod.ext_iff, not_and_or]
  simp only [Fdt.parseReservedNode, hroot, except_ok_bind, hrootPair, hpair]
  by_cases hagree : memory.cellPair = tree.cellPair
  · obtain ⟨s, children, hs, hyields, hchildren⟩ := henc.yields_children hraw
    have hall : ∀ child ∈ memory.children, child.props ≠ [] := by
      intro child hchild
      exact hreserves.props child (child_mem_nodes hmemory hchild)
    rw [if_pos hagree, if_neg (fun hne => hdiffer.mp hne hagree), henc.propIter, except_ok_bind,
      (hraw.yields_props hprops).forEach,
      forList_reservedMemoryProp (hreserves.ranges memory rfl), except_ok_bind, hs,
      except_ok_bind, hyields.forEachFlat (henc.yields_props hchildren hall), ← List.flatMap_def]
    exact forList_reservedChildProp hregions hcells.address hcells.size
      (hreserves.whole memory rfl)
  · rw [if_neg hagree, if_pos (hdiffer.mpr hagree)]
    rfl

/-- The entries of the reservation block come last. -/
theorem Fdt.Encodes.parseReservedEntries (henc : fdt.Encodes h tree reservations)
    (hregions : regions.Holds written) :
    fdt.parseReservedEntries regions = .ok (fill (written ++ reservations)) := by
  obtain ⟨rest, hpoints⟩ := henc.memoryReservationBlock
  have hoffset : fdt.memRsvMapOffset = .ok h.offMemRsvmap := henc.readWord (i := 4) (by decide) rfl
  have hloop := (FdtReserveEntryIter.yields hpoints henc.reservations_lt).forEach
    Regions.writeReserved regions
  have hfilled := Regions.forList_writeReserved hregions reservations
  rw [Fdt.parseReservedEntries, memoryReservationBlockIter, hoffset, except_ok_bind, except_pure,
    except_ok_bind, hloop]
  rw [Regions.Filled] at hfilled
  split at hfilled
  · rename_i hle
    obtain ⟨regions', hloop', hholds⟩ := hfilled
    rw [hloop', fill, if_pos hle, ← hholds.entries]
    rfl
  · rename_i hgt
    rw [hfilled, fill, if_neg hgt]
    rfl

/-- The regions of the blob, of the node for reserved memory and of the reservation block. -/
theorem Fdt.Encodes.parseReservedMemory (henc : fdt.Encodes h tree reservations)
    (hmemory : tree.reservedMemory = some memory) (hreserves : tree.Reserves (some memory)) :
    fdt.parseReservedMemory =
      .ok (tree.reservedRegions (some memory) (fdt.address, h.totalSize) reservations) := by
  have hsize : fdt.size = .ok h.totalSize := henc.readWord (i := 1) (by decide) rfl
  obtain ⟨regions, hwrite, hholds⟩ :=
    Regions.write_holds Regions.new_holds (by decide) (fdt.address, h.totalSize)
  obtain ⟨found, hfound, hrel⟩ := henc.reservedMemoryNode
  rw [hmemory] at hrel
  obtain ⟨raw, rfl, hraw⟩ := rel_some hrel
  have hfilled := henc.parseReservedNode hreserves (List.mem_of_find?_eq_some hmemory) hraw hholds
  rw [Fdt.parseReservedMemory, hsize, except_ok_bind, hwrite, except_ok_bind, hfound,
    except_ok_bind, reservedRegions]
  split at hfilled
  · rename_i hagree
    rw [if_pos hagree, ← List.cons_append]
    rw [Regions.Filled] at hfilled
    split at hfilled
    · obtain ⟨regions', hnode, hholds'⟩ := hfilled
      simp only [hnode, except_ok_bind]
      exact henc.parseReservedEntries hholds'
    · rename_i hgt
      have hgt' : ¬((fdt.address, h.totalSize) :: memory.childPairs ++ reservations).length ≤
          32 := by
        rw [List.length_append]
        exact fun hle => hgt (Nat.le_trans (Nat.le_add_right _ _) hle)
      simp only [hfilled, except_ok_bind, except_pure, fill, if_neg hgt']
  · rename_i hdiffer
    simp only [if_neg hdiffer, hfilled, except_ok_bind, except_pure]

/-- `parse_reserved_memory` returns the blob, the pairs below the node for reserved memory and
the entries of the reservation block, unless there are too many or the cells differ. -/
theorem parseReservedMemory_eq (henc : fdt.Encodes h tree reservations)
    (hreserves : tree.Reserves tree.reservedMemory) :
    fdt.parseReservedMemory =
      .ok (tree.reservedRegions tree.reservedMemory (fdt.address, h.totalSize) reservations) := by
  cases hmemory : tree.reservedMemory with
  | none =>
      have hsize : fdt.size = .ok h.totalSize := henc.readWord (i := 1) (by decide) rfl
      obtain ⟨regions, hwrite, hholds⟩ :=
        Regions.write_holds Regions.new_holds (by decide) (fdt.address, h.totalSize)
      obtain ⟨found, hfound, hrel⟩ := henc.reservedMemoryNode
      rw [hmemory] at hrel
      cases hrel
      rw [Fdt.parseReservedMemory, hsize, except_ok_bind, hwrite, except_ok_bind, hfound,
        except_ok_bind]
      exact henc.parseReservedEntries hholds
  | some memory =>
      rw [hmemory] at hreserves
      exact henc.parseReservedMemory hmemory hreserves

/-- A node for reserved memory with one region below it, which begins at the address. -/
def firmware (addr : Nat) : FdtTree :=
  .node "reserved-memory"
    [⟨"#size-cells", [0, 0, 0, 1], addr + 32⟩, ⟨"ranges", [], addr + 48⟩]
    [.node "fw@0" [⟨"reg", [0, 0, 0, 0, 0, 0, 0, 0, 0, 0, 0x10, 0], addr + 72⟩] []]

/-- A node of a short name with one child and the cells of the node for reserved memory, which
begins at the address. -/
def parentOf (name : String) (addr : Nat) (child : Nat → FdtTree) : FdtTree :=
  .node name [⟨"#size-cells", [0, 0, 0, 1], addr + 20⟩] [child (addr + 24)]

/-- The firmware below the root, and below a bus of the root. -/
def firmwareTree : FdtTree := parentOf "" 0x1048 firmware

/-- The reserved memory below a bus. -/
def busFirmwareTree : FdtTree := parentOf "" 0x1048 fun addr => parentOf "soc" addr firmware

/-- The blob of a tree, with one reservation in the block of the header. -/
def reservedContent (tree : FdtTree) : Content :=
  ⟨0x1000, ["#size-cells", "ranges", "reg"], [(0x2000, 0x100)], tree⟩

theorem parentOf_givesCells (name : String) (addr : Nat) (child : Nat → FdtTree) :
    (parentOf name addr child).GivesCells :=
  ⟨by simp [parentOf, FdtTree.props, RawProp.IsWord], Or.inr rfl, Or.inl rfl⟩

theorem parentOf_reserves_firmware {name : String} {addr begin : Nat} {child : Nat → FdtTree}
    (hbegin : begin = 0x1060 ∨ begin = 0x1078)
    (hprops : ∀ node ∈ (parentOf name addr child).nodes, node.props ≠ []) :
    (parentOf name addr child).Reserves (some (firmware begin)) where
  props := hprops
  rootCells := parentOf_givesCells name addr child
  cells := by
    rintro _ ⟨⟩
    refine ⟨?_, Or.inr rfl, Or.inl rfl⟩
    rcases hbegin with rfl | rfl <;> decide +kernel
  ranges := by
    rintro _ ⟨⟩
    rcases hbegin with rfl | rfl <;> decide +kernel
  whole := by
    rintro _ ⟨⟩
    rcases hbegin with rfl | rfl <;> decide +kernel

/-- The region below `/reserved-memory` is reserved. -/
theorem parseReservedMemory_firmware :
    (reservedContent firmwareTree).fdt.parseReservedMemory =
      .ok (some (padded [(0x1000, 219), (0, 0x1000), (0x2000, 0x100)])) := by
  have hwritable : (reservedContent firmwareTree).Writable :=
    ⟨by decide, by decide, by decide +kernel, by decide, rfl,
      ⟨by decide +kernel, ⟨by decide +kernel, ⟨by decide +kernel, trivial⟩, trivial⟩, trivial⟩,
      by decide +kernel, by decide +kernel⟩
  have hreserved : firmwareTree.reservedMemory = some (firmware 0x1060) := rfl
  have hregions : firmwareTree.reservedRegions (some (firmware 0x1060))
      (0x1000, (reservedContent firmwareTree).header.totalSize) [(0x2000, 0x100)] =
        some (padded [(0x1000, 219), (0, 0x1000), (0x2000, 0x100)]) := by
    decide +kernel
  rw [← hregions, ← hreserved]
  apply parseReservedMemory_eq hwritable.encodes
  change firmwareTree.Reserves firmwareTree.reservedMemory
  rw [hreserved]
  exact parentOf_reserves_firmware (Or.inl rfl) (by decide +kernel)

/-- A node of this name below another node is taken for `/reserved-memory`, which the tree does
not have. -/
theorem parseReservedMemory_ne_path :
    (reservedContent busFirmwareTree).Writable ∧
      busFirmwareTree.Reserves busFirmwareTree.reservedMemoryPath ∧
      (reservedContent busFirmwareTree).fdt.parseReservedMemory ≠
        .ok (busFirmwareTree.reservedRegions busFirmwareTree.reservedMemoryPath
          (0x1000, (reservedContent busFirmwareTree).header.totalSize) [(0x2000, 0x100)]) := by
  have hwritable : (reservedContent busFirmwareTree).Writable :=
    ⟨by decide, by decide, by decide +kernel, by decide, rfl,
      ⟨by decide +kernel, ⟨by decide +kernel, ⟨by decide +kernel, ⟨by decide +kernel, trivial⟩,
        trivial⟩, trivial⟩, trivial⟩, by decide +kernel, by decide +kernel⟩
  have hprops : ∀ node ∈ busFirmwareTree.nodes, node.props ≠ [] := by decide +kernel
  have hreserved : busFirmwareTree.reservedMemory = some (firmware 0x1078) := rfl
  have hpath : busFirmwareTree.reservedMemoryPath = none := rfl
  rw [hpath]
  refine ⟨hwritable, ⟨hprops, parentOf_givesCells _ _ _, nofun, nofun, nofun⟩, ?_⟩
  have hread := hwritable.encodes.parseReservedMemory hreserved
    (parentOf_reserves_firmware (Or.inr rfl) hprops)
  rw [hread]
  intro heq
  exact absurd (Except.ok.inj heq) (by decide +kernel)

end Kruspix.Kernel.Devicetree
