import Kruspix.Kernel.Devicetree.RegPairs
import Kruspix.Kernel.Devicetree.ResolveFdt
import Kruspix.Kernel.Devicetree.WrittenBlob

/-!
# The memory banks that are read

`parse_memory` goes through the properties of all memory nodes and is left at the first
`reg`. The banks of the memory nodes behind it are lost.
-/

namespace Kruspix.Kernel.Devicetree

open Lib.Bytes Lib.Iterator Lib.Iterator.Iter Lib.Result

namespace FdtTree

/-- The name of a node up to its unit address. -/
def nodeName (tree : FdtTree) : String := (split '@' tree.name).head?.getD tree.name

/-- The memory nodes of a tree, in pre-order. -/
def memoryNodes (tree : FdtTree) : List FdtTree :=
  tree.nodes.filter fun node => node.nodeName == "memory"

/-- The `reg` of the memory nodes. -/
def memoryRegs (tree : FdtTree) : List RawProp :=
  tree.memoryNodes.filterMap fun node => node.standardProp .reg

/-- The pairs of all memory nodes. -/
def memoryPairs (tree : FdtTree) (addressCells sizeCells : Nat) : List (Nat × Nat) :=
  tree.memoryRegs.flatMap fun reg => reg.pairs addressCells sizeCells

/-- The root gives the cells of the memory nodes, whose `reg` is made of whole pairs. -/
structure HasMemory (tree : FdtTree) (addressCells sizeCells : Nat) : Prop where
  cells_address : tree.cells .addressCells 2 = .ok addressCells
  cells_size : tree.cells .sizeCells 1 = .ok sizeCells
  isCells_address : IsCells addressCells
  isCells_size : IsCells sizeCells
  props : ∀ node ∈ tree.memoryNodes, node.props ≠ []
  whole : ∀ reg ∈ tree.memoryRegs, reg.Whole addressCells sizeCells

/-- What is left of the array behind the first `reg` would only take zeros. -/
def FirstRegSuffices (tree : FdtTree) (addressCells sizeCells : Nat) : Prop :=
  match tree.memoryRegs with
  | [] => True
  | reg :: regs =>
      ∀ pair ∈ (regs.flatMap fun reg => reg.pairs addressCells sizeCells).take
        (32 - (reg.pairs addressCells sizeCells).length), pair = (0, 0)

end FdtTree

variable {fdt : Fdt} {h : Header} {tree : FdtTree} {reservations : List (Nat × Nat)}
  {raw : RawNode} {raws : List RawNode} {nodes : List FdtTree} {addressCells sizeCells : Nat}
  {props : List RawProp} {reg : RawProp}

theorem Describes.nodeName {strings : Cursor} (hraw : Describes strings raw tree) :
    raw.nodeName = tree.nodeName := by
  rw [RawNode.nodeName, FdtTree.nodeName, hraw.name]

/-- The iterators over the properties of nodes that have some yield them. -/
theorem Fdt.Encodes.yields_props (henc : fdt.Encodes h tree reservations)
    (hraws : List.Forall₂ (Describes (fdt.strings h)) raws nodes)
    (hprops : ∀ node ∈ nodes, node.props ≠ []) :
    List.Forall₂ (fun raw props => ∃ s, fdt.propIter raw = .ok s ∧ Yields PropIter.iter s props)
      raws (nodes.map FdtTree.props) := by
  induction hraws with
  | nil => exact .nil
  | @cons raw node raws nodes hraw _ ih =>
      obtain ⟨hnode, hnodes⟩ := List.forall_mem_cons.mp hprops
      exact .cons ⟨_, henc.propIter raw, hraw.yields_props hnode⟩ (ih hnodes)

theorem Fdt.Encodes.yields_memoryNodes (henc : fdt.Encodes h tree reservations) :
    ∃ s raws, fdt.nodeIter = .ok s ∧ Yields Fdt.memoryNodeIter s raws ∧
      List.Forall₂ (Describes (fdt.strings h)) raws tree.memoryNodes := by
  obtain ⟨s, raws, hs, hyields, hraws⟩ := henc.yields_nodes
  refine ⟨s, raws.filter RawNode.isMemory, hs, hyields.filter _, ?_⟩
  apply List.rel_filter _ hraws
  intro raw node hraw
  simp only [RawNode.isMemory, hraw.nodeName]

/-- The first `reg` among the properties of the memory nodes is that of the first of them
that has one. -/
theorem find?_reg (nodes : List FdtTree) :
    (nodes.map FdtTree.props).flatten.find?
        (fun prop => Fdt.StandardProperty.tryFrom prop.name == some .reg) =
      (nodes.filterMap fun node => node.standardProp .reg).head? := by
  induction nodes with
  | nil => rfl
  | cons node nodes ih =>
      rw [List.map_cons, List.flatten_cons, List.find?_append, ih, ← FdtTree.standardProp,
        List.filterMap_cons]
      cases node.standardProp .reg with
      | none => rw [Option.none_or]
      | some reg => rw [Option.some_or, List.head?_cons]

/-- Without a `reg` the loop goes through all properties. -/
theorem forList_memoryProp_none {regions : Regions}
    (hreg : props.find? (fun prop => Fdt.StandardProperty.tryFrom prop.name == some .reg) = none) :
    forList (Fdt.memoryProp addressCells sizeCells) regions props = .ok (.inl regions) := by
  induction props with
  | nil => rfl
  | cons prop props ih =>
      rw [List.find?_eq_none, List.forall_mem_cons] at hreg
      have hkind : Fdt.StandardProperty.tryFrom prop.name ≠ some .reg := by
        simpa using hreg.1
      have hprop : Fdt.memoryProp addressCells sizeCells regions prop = .ok (.inl regions) := by
        rw [Fdt.memoryProp]
        split
        · rename_i heq
          exact absurd heq hkind
        · rfl
      rw [forList, hprop]
      exact ih (List.find?_eq_none.mpr hreg.2)

/-- The first `reg` is written, and the loop is left. -/
theorem forList_memoryProp_some {regions : Regions} (hregions : regions.Holds [])
    (haddress : IsCells addressCells) (hsize : IsCells sizeCells)
    (hwhole : reg.Whole addressCells sizeCells)
    (hreg : props.find? (fun prop => Fdt.StandardProperty.tryFrom prop.name == some .reg) =
      some reg) :
    ∃ regions' : Regions, regions'.Holds ((reg.pairs addressCells sizeCells).take 32) ∧
      forList (Fdt.memoryProp addressCells sizeCells) regions props = .ok (.inr regions') := by
  induction props with
  | nil => cases hreg
  | cons prop props ih =>
      rw [List.find?_cons] at hreg
      rw [forList]
      split at hreg
      · rename_i hkind
        cases hreg
        obtain ⟨regions', hholds, hwritten⟩ :=
          Regions.forList_writeBank hregions (by decide) (reg.pairs addressCells sizeCells)
        refine ⟨regions', hholds, ?_⟩
        have hprop : Fdt.memoryProp addressCells sizeCells regions reg = .ok (.inr regions') := by
          rw [Fdt.memoryProp, beq_iff_eq.mp hkind]
          simp only [RawProp.cellsPairs_eq haddress hsize hwhole, except_ok_bind]
          rcases hwritten with hwritten | hwritten
          · rw [hwritten]
            rfl
          · rw [hwritten]
            rfl
        rw [hprop]
      · rename_i hkind
        have hprop : Fdt.memoryProp addressCells sizeCells regions prop = .ok (.inl regions) := by
          rw [Fdt.memoryProp]
          split
          · rename_i heq
            rw [heq] at hkind
            cases hkind
          · rfl
        rw [hprop]
        exact ih hreg

/-- Only the first `reg` is read. -/
theorem Fdt.Encodes.parseMemory (henc : fdt.Encodes h tree reservations)
    (hmemory : tree.HasMemory addressCells sizeCells) (hprops : tree.props ≠ []) :
    fdt.parseMemory = .ok (padded (((tree.memoryRegs.head?.map fun reg =>
      reg.pairs addressCells sizeCells).getD []).take 32)) := by
  obtain ⟨root, hroot, hdescribes⟩ := FdtTree.rootNode_describes henc
  obtain ⟨s, raws, hs, hyields, hraws⟩ := henc.yields_memoryNodes
  have hcells : fdt.parseAddressAndSizeCells root = .ok (addressCells, sizeCells) := by
    rw [(henc.seesProps hdescribes hprops).cells, hmemory.cells_address, hmemory.cells_size]
    rfl
  have hloop := hyields.forEachFlat (henc.yields_props hraws hmemory.props)
    (memoryProp addressCells sizeCells) Regions.new
  have hfind := find?_reg tree.memoryNodes
  rw [← FdtTree.memoryRegs] at hfind
  simp only [Fdt.parseMemory, hroot, except_ok_bind, hcells, hs, hloop]
  cases hregs : tree.memoryRegs with
  | nil =>
      rw [hregs] at hfind
      rw [forList_memoryProp_none hfind]
      rfl
  | cons reg regs =>
      rw [hregs] at hfind
      have hwhole : reg.Whole addressCells sizeCells :=
        hmemory.whole reg (hregs ▸ List.mem_cons_self)
      obtain ⟨regions, hholds, hwritten⟩ := forList_memoryProp_some Regions.new_holds
        hmemory.isCells_address hmemory.isCells_size hwhole hfind
      rw [hwritten]
      exact congrArg Except.ok hholds.entries

/-- Regions behind the first ones change nothing when only zeros fit into the array. -/
theorem padded_take_eq_iff {regions rest : List (Nat × Nat)} :
    padded (regions.take 32) = padded ((regions ++ rest).take 32) ↔
      ∀ region ∈ rest.take (32 - regions.length), region = (0, 0) := by
  have hlen : (rest.take (32 - regions.length)).length ≤ 32 - regions.length :=
    List.length_take_le _ _
  have hleft : (regions.take 32).length = min 32 regions.length := List.length_take
  rw [padded, padded, List.take_append, List.append_assoc, List.append_cancel_left_eq,
    List.length_append]
  constructor
  · intro heq region hregion
    have hmem := List.mem_append_left
      (List.replicate (32 - ((regions.take 32).length + (rest.take (32 - regions.length)).length))
        ((0, 0) : Nat × Nat)) hregion
    rw [← heq] at hmem
    exact List.eq_of_mem_replicate hmem
  · intro hzero
    rw [List.eq_replicate_iff.mpr ⟨rfl, hzero⟩, List.replicate_append_replicate,
      List.length_replicate]
    congr 1
    omega

/-- `parse_memory` returns the pairs of all memory nodes exactly when the root has a property
and the first `reg` suffices. -/
theorem parseMemory_eq_iff (henc : fdt.Encodes h tree reservations)
    (hmemory : tree.HasMemory addressCells sizeCells) :
    fdt.parseMemory = .ok (padded ((tree.memoryPairs addressCells sizeCells).take 32)) ↔
      tree.props ≠ [] ∧ tree.FirstRegSuffices addressCells sizeCells := by
  by_cases hprops : tree.props = []
  · obtain ⟨root, hroot, hdescribes⟩ := FdtTree.rootNode_describes henc
    have hfault : fdt.parseMemory = .error .nullPointer := by
      rw [Fdt.parseMemory, hroot, except_ok_bind]
      simp only [FdtTree.parseAddressAndSizeCells_describes henc hdescribes,
        FdtTree.addressAndSizeCells, if_pos hprops, except_error_bind]
    rw [hfault]
    constructor
    · intro heq
      cases heq
    · rintro ⟨hne, -⟩
      exact absurd hprops hne
  · rw [henc.parseMemory hmemory hprops, Except.ok.injEq, FdtTree.FirstRegSuffices,
      FdtTree.memoryPairs]
    cases hregs : tree.memoryRegs with
    | nil => exact iff_of_true rfl ⟨hprops, trivial⟩
    | cons reg regs =>
        rw [List.flatMap_cons, and_iff_right hprops]
        exact padded_take_eq_iff

/-- A memory node with a `reg` of one address of two cells and one size. The values of its two
properties stand one behind the other from the address on. -/
structure Bank where
  name : String
  reg : List UInt8
  addr : Nat

/-- The `reg` of a bank, behind its `device_type`. -/
def Bank.regProp (bank : Bank) : RawProp := ⟨"reg", bank.reg, bank.addr + 20⟩

/-- The memory node of a bank. -/
def Bank.fdtTree (bank : Bank) : FdtTree :=
  .node bank.name [⟨"device_type", strBytes "memory" ++ [0], bank.addr⟩, bank.regProp] []

/-- A root with memory nodes. -/
def banksTree (banks : List Bank) : FdtTree :=
  .node "" [⟨"#size-cells", [0, 0, 0, 1], 0x104c⟩] (banks.map Bank.fdtTree)

/-- The blob of a root with a memory node for each bank. -/
def banks (banks : List Bank) : Content :=
  ⟨0x1000, ["#size-cells", "device_type", "reg"], [], banksTree banks⟩

/-- A bank of 4 KiB at 0. -/
def lowBank : Bank := ⟨"memory@0", [0, 0, 0, 0, 0, 0, 0, 0, 0, 0, 0x10, 0], 0x106c⟩

/-- A second bank, with memory or without. -/
def highBank : Bank :=
  ⟨"memory@80000000", [0, 0, 0, 0, 0x80, 0, 0, 0, 0, 0, 0x10, 0], 0x10b0⟩

/-- A bank of no bytes at 0. -/
def spareBank : Bank := ⟨"memory@80000000", [0, 0, 0, 0, 0, 0, 0, 0, 0, 0, 0, 0], 0x10b0⟩

theorem banksTree_hasMemory {banks : List Bank}
    (hprops : ∀ node ∈ (banksTree banks).memoryNodes, node.props ≠ [])
    (hwhole : ∀ reg ∈ (banksTree banks).memoryRegs, reg.Whole 2 1) :
    (banksTree banks).HasMemory 2 1 :=
  ⟨rfl, rfl, Or.inr rfl, Or.inl rfl, hprops, hwhole⟩

/-- The first bank is read, and the second one has no memory to lose. -/
theorem parseMemory_lowBank :
    (banks [lowBank, spareBank]).fdt.parseMemory = .ok (padded [(0, 0x1000), (0, 0)]) := by
  have hwritable : (banks [lowBank, spareBank]).Writable :=
    ⟨by decide, by decide, by decide +kernel, by decide, rfl,
      ⟨by decide +kernel, ⟨by decide +kernel, trivial⟩, ⟨by decide +kernel, trivial⟩, trivial⟩,
      by decide +kernel, by decide +kernel⟩
  have hregs : (banksTree [lowBank, spareBank]).memoryRegs =
      [lowBank.regProp, spareBank.regProp] := by decide +kernel
  have hpairs : (banksTree [lowBank, spareBank]).memoryPairs 2 1 = [(0, 0x1000), (0, 0)] := by
    decide +kernel
  have hmemory : (banksTree [lowBank, spareBank]).HasMemory 2 1 :=
    banksTree_hasMemory (by decide +kernel) (by rw [hregs]; decide +kernel)
  have hsuffices : (banksTree [lowBank, spareBank]).FirstRegSuffices 2 1 := by
    rw [FdtTree.FirstRegSuffices, hregs]
    decide +kernel
  have hall := (parseMemory_eq_iff hwritable.encodes hmemory).mpr ⟨List.cons_ne_nil _ _, hsuffices⟩
  change _ = Except.ok (padded (((banksTree [lowBank, spareBank]).memoryPairs 2 1).take 32)) at hall
  rw [hpairs] at hall
  exact hall

/-- The second bank is lost. -/
theorem parseMemory_ne_banks :
    (banks [lowBank, highBank]).Writable ∧ (banksTree [lowBank, highBank]).HasMemory 2 1 ∧
      (banks [lowBank, highBank]).fdt.parseMemory ≠
        .ok (padded (((banksTree [lowBank, highBank]).memoryPairs 2 1).take 32)) := by
  have hwritable : (banks [lowBank, highBank]).Writable :=
    ⟨by decide, by decide, by decide +kernel, by decide, rfl,
      ⟨by decide +kernel, ⟨by decide +kernel, trivial⟩, ⟨by decide +kernel, trivial⟩, trivial⟩,
      by decide +kernel, by decide +kernel⟩
  have hregs : (banksTree [lowBank, highBank]).memoryRegs =
      [lowBank.regProp, highBank.regProp] := by decide +kernel
  have hpairs : (banksTree [lowBank, highBank]).memoryPairs 2 1 =
      [(0, 0x1000), (0x80000000, 0x1000)] := by decide +kernel
  have hmemory : (banksTree [lowBank, highBank]).HasMemory 2 1 :=
    banksTree_hasMemory (by decide +kernel) (by rw [hregs]; decide +kernel)
  have hfirst := hwritable.encodes.parseMemory hmemory (List.cons_ne_nil _ _)
  change _ = Except.ok (padded (((((banksTree [lowBank, highBank]).memoryRegs.head?.map fun reg =>
    reg.pairs 2 1).getD []).take 32))) at hfirst
  refine ⟨hwritable, hmemory, ?_⟩
  rw [hfirst, hregs, hpairs]
  intro heq
  exact absurd (Except.ok.inj heq) (by decide +kernel)

end Kruspix.Kernel.Devicetree
