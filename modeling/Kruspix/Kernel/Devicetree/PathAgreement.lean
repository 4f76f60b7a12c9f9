import Kruspix.Kernel.Devicetree.NodePaths
import Kruspix.Kernel.Devicetree.Paths
import Kruspix.Kernel.Devicetree.WrittenBlob

/-!
# Nodes by path, on the blob and on the tree

The blob and the tree that is parsed from it are walked down in the same way, so a path leads
to the same place in both, or to none.
-/

namespace Kruspix.Kernel.Devicetree

open Lib.Iterator Lib.Iterator.Iter Lib.Result Lib.Search

/-- The node of the blob at a place: the root, or the child at an index of a node at a place. -/
inductive Fdt.At (fdt : Fdt) : RawNode → List Nat → Prop
  | root {raw : RawNode} (h : fdt.rootNode = .ok (some raw)) : At fdt raw []
  | child {raw raw' : RawNode} {s : NodeIter} {raws : List RawNode} {addr : List Nat} {i : Nat}
      (h : At fdt raw addr) (hs : fdt.childIter raw = .ok s)
      (hraws : NodeIter.iter.collect s = .ok raws) (hraw : raws[i]? = some raw') :
      At fdt raw' (addr ++ [i])

/-- What is found on the blob and in the tree is at one place. -/
def Fdt.SamePlace (fdt : Fdt) (dt : DeviceTree) (raw : RawNode) (ptr : NodePtr) : Prop :=
  fdt.At raw ptr.addr ∧ ptr ∈ dt.nodes

variable {fdt : Fdt} {h : Header} {tree root : FdtTree} {reservations : List (Nat × Nat)}
  {raw : RawNode} {raws : List RawNode} {node : Node} {nodes : List Node} {addr : List Nat}
  {dt : DeviceTree}

/-- Of related lists of the same names the first ones of a name have the same index. -/
theorem findIdx_name {trees : List FdtTree} {strings : Cursor}
    (hraws : List.Forall₂ (Describes strings) raws trees)
    (hnodes : List.Forall₂ (fun tree n => tree.parse (some node) = .ok n) trees nodes)
    (name : String) : raws.findIdx (fun raw => raw.name == name) =
      nodes.findIdx (fun n => n.name == name) := by
  induction hraws generalizing nodes with
  | nil =>
      cases hnodes
      rfl
  | @cons raw tree raws trees hraw _ ih =>
      cases hnodes with
      | @cons _ n _ nodes hn hnodes =>
          rw [List.findIdx_cons, List.findIdx_cons, ih hnodes, hraw.name, FdtTree.parse_name hn]

/-- The two walks lead to one place. -/
theorem walkNode_walkPath (segments : List String) (ancestors : List Node)
    (henc : fdt.Encodes h root reservations) (hraw : Describes (fdt.strings h) raw tree)
    (hat : fdt.At raw addr) {parent : Option Node} (hparse : tree.parse parent = .ok node) :
    ∃ found, fdt.walkNode raw segments = .ok found ∧
      Option.Rel (fun raw ptr => fdt.At raw ptr.addr) found
        (node.walkPath ancestors addr segments) := by
  induction segments generalizing raw tree node addr ancestors parent with
  | nil => exact ⟨some raw, rfl, .some hat⟩
  | cons segment segments ih =>
      obtain ⟨s, raws, hs, hyields, hraws⟩ := henc.yields_children hraw
      have hnodes := FdtTree.parse_children hparse
      have hindex := findIdx_name hraws hnodes segment
      have hrel := find?_rel (p := fun raw => raw.name == segment)
        (q := fun child => child.name == segment) hraws fun raw tree hraw => by rw [hraw.name]
      have hrel' := find?_rel (p := fun child => child.name == segment)
        (q := fun n => n.name == segment) hnodes fun tree n hn => by rw [FdtTree.parse_name hn]
      have hfind : fdt.findChild raw segment =
          .ok (raws.find? fun raw => raw.name == segment) := by
        rw [Fdt.findChild, hs, except_ok_bind, hyields.find]
      rw [Fdt.walkNode, hfind, except_ok_bind, Node.walkPath]
      cases hchild : node.children.find? fun n => n.name == segment with
      | none =>
          rw [hchild] at hrel'
          cases htree : tree.children.find? fun child => child.name == segment with
          | none =>
              rw [htree] at hrel
              cases hraw' : raws.find? fun raw => raw.name == segment with
              | none => exact ⟨none, rfl, .none⟩
              | some raw' =>
                  rw [hraw'] at hrel
                  cases hrel
          | some child =>
              rw [htree] at hrel'
              cases hrel'
      | some n =>
          rw [hchild] at hrel'
          obtain ⟨child, htree, hn⟩ := rel_some hrel'
          rw [htree] at hrel
          obtain ⟨raw', hraw', hdescribes⟩ := rel_some hrel
          rw [hraw']
          rw [List.find?_eq_getElem?_findIdx, hindex] at hraw'
          exact ih _ hdescribes (.child hat hs hyields.collect hraw') hn

/-- A path with a separator leads to the same place on the blob and in the parsed tree. -/
theorem getNodeByPath_nodeByPath (henc : fdt.Encodes h root reservations)
    (hdt : DeviceTree.fromFdt fdt = .ok (some dt)) {path : String} (hslash : '/' ∈ path.toList) :
    ∃ found, fdt.getNodeByPath path = .ok found ∧
      Option.Rel (fdt.SamePlace dt) found (dt.nodeByPath path) := by
  obtain ⟨raw, hroot, hraw⟩ := FdtTree.rootNode_describes henc
  obtain ⟨found, hfound, hrel⟩ := walkNode_walkPath (Fdt.segments path) [] henc hraw (.root hroot)
    (henc.parse_root hdt)
  have hne : path ≠ "" := by
    rintro rfl
    cases hslash
  refine ⟨found, ?_, ?_⟩
  · rw [Fdt.getNodeByPath, Fdt.aliasPath, if_neg hne, if_pos hslash, except_ok_bind]
    simp only [hroot, except_ok_bind, hfound]
  · rw [DeviceTree.nodeByPath, DeviceTree.toPath_of_slash hslash]
    change Option.Rel _ found (dt.root.walkPath [] [] (Fdt.segments path))
    generalize hptr : dt.root.walkPath [] [] (Fdt.segments path) = result at hrel ⊢
    cases hrel with
    | none => exact .none
    | some hat => exact .some ⟨hat, Node.walkPath_mem_iter hptr⟩

/-- The nodes of a tree are named by their paths and visited in order, and the blob that the
tree is parsed from is walked as the tree is. -/
structure DeviceTree.Navigable (dt : DeviceTree) : Prop where
  nodeByPath : ∀ ptr ∈ dt.nodes, dt.nodeByPath ptr.path = some ptr
  path_injective : ∀ ptr ∈ dt.nodes, ∀ ptr' ∈ dt.nodes, ptr.path = ptr'.path → ptr = ptr'
  iter : Yields NodeStack.iter [⟨dt.root, [], []⟩] dt.nodes
  all : ∀ node ancestors addr, ⟨node, ancestors, addr⟩ ∈ dt.nodes ↔
    dt.root.descend [] addr = some (node, ancestors)
  order : dt.nodes.Pairwise fun ptr ptr' => List.Lex (fun i j => i < j) ptr.addr ptr'.addr
  once : (dt.nodes.map NodePtr.addr).Nodup
  getNodeByPath : ∀ fdt h tree reservations, fdt.Encodes h tree reservations →
    DeviceTree.fromFdt fdt = .ok (some dt) → ∀ path : String, '/' ∈ path.toList →
      ∃ found, fdt.getNodeByPath path = .ok found ∧
        Option.Rel (fdt.SamePlace dt) found (dt.nodeByPath path)

/-- A tree whose root has no name, and whose other nodes have names without separators that
differ from those of their siblings. -/
theorem navigable (hroot : dt.root.name = "")
    (hnames : ∀ ptr ∈ dt.nodes, ptr.node.NamesChildren) : dt.Navigable where
  nodeByPath ptr hptr := DeviceTree.nodeByPath_path hroot hnames hptr
  path_injective ptr hptr ptr' hptr' heq := by
    have hptr := DeviceTree.nodeByPath_path hroot hnames hptr
    have hptr' := DeviceTree.nodeByPath_path hroot hnames hptr'
    rw [heq, hptr'] at hptr
    exact (Option.some.inj hptr).symm
  iter := by
    have hyields := NodeStack.yields_remaining [⟨dt.root, [], []⟩]
    rw [NodeStack.remaining, List.reverse_singleton, List.flatMap_singleton] at hyields
    exact hyields
  all node ancestors addr := by
    rw [DeviceTree.nodes, Node.mem_iter]
    constructor
    · rintro ⟨path, haddr, hpath⟩
      change addr = path at haddr
      rw [haddr]
      exact hpath
    · intro hpath
      exact ⟨addr, rfl, hpath⟩
  order := Node.iter_pairwise [] [] dt.root
  once := Node.iter_nodup [] [] dt.root
  getNodeByPath fdt h tree reservations henc hdt path hslash :=
    getNodeByPath_nodeByPath henc hdt hslash

/-- The tree of a root and a device. -/
theorem navigable_uart : ∃ dt, DeviceTree.fromFdt uartFdt = .ok (some dt) ∧ dt.Navigable := by
  have hparse : uartTree.parse none = .ok ⟨"", [⟨"#size-cells", .standard (.sizeCells 1), rfl⟩],
      [⟨"uart@10", [], []⟩]⟩ := rfl
  obtain ⟨dt, hdt, hroot⟩ := uartFdt_encodes.fromFdt hparse
  refine ⟨dt, hdt, navigable (by rw [hroot]) ?_⟩
  intro ptr hptr
  rw [DeviceTree.nodes, hroot] at hptr
  simp only [Node.iter, Node.iterChildren, List.append_nil, List.nil_append, List.mem_cons,
    List.not_mem_nil, or_false] at hptr
  rcases hptr with rfl | rfl
  · constructor
    · simp only [List.forall_mem_singleton]
      decide
    · simp only [List.forall_mem_singleton]
      decide
    · exact List.nodup_singleton _
  · constructor
    · intro p hp
      cases hp
    · intro c hc
      cases hc
    · exact .nil

end Kruspix.Kernel.Devicetree
