import Kruspix.Kernel.Devicetree.Blob
import Kruspix.Kernel.Devicetree.NodeByPath
import Kruspix.Lib.Search

/-!
# Paths in a tree

A path of the blob and a path of the device tree that is parsed from it go through the
same trees.
-/

namespace Kruspix.Kernel.Devicetree

open Lib.Iterator Lib.Iterator.Iter Lib.Result Lib.Search

namespace FdtTree

/-- The trees on the way down a path, the last one first. -/
def walkPath (above : List FdtTree) (tree : FdtTree) : List String → Option (List FdtTree)
  | [] => some (tree :: above)
  | segment :: segments =>
      match tree.children.find? fun child => child.name == segment with
      | none => none
      | some child => walkPath (tree :: above) child segments

/-- The trees are parsed to the nodes, each below the next one. -/
inductive ParsedTo : List FdtTree → List Node → Prop
  | nil : ParsedTo [] []
  | cons {tree : FdtTree} {trees : List FdtTree} {node : Node} {nodes : List Node}
      (hnode : tree.parse (nodes.head?.map Node.leaf) = .ok node) (h : ParsedTo trees nodes) :
      ParsedTo (tree :: trees) (node :: nodes)

variable {tree : FdtTree} {trees chain : List FdtTree} {segments : List String}

theorem walkPath_length (h : tree.walkPath trees segments = some chain) :
    chain.length = trees.length + 1 + segments.length := by
  induction segments generalizing tree trees with
  | nil =>
      cases h
      rfl
  | cons segment segments ih =>
      rw [walkPath] at h
      split at h
      · cases h
      · rw [ih h, List.length_cons, List.length_cons]
        omega

/-! ## Paths of the blob -/

section blob

variable {fdt : Fdt} {h : Header} {root : FdtTree} {reservations : List (Nat × Nat)} {raw : RawNode}
  {raws : List RawNode}

/-- The first child of a name is that of the tree. -/
theorem findChild_describes (henc : fdt.Encodes h root reservations)
    (hraw : Describes (fdt.strings h) raw tree) (name : String) :
    ∃ found, fdt.findChild raw name = .ok found ∧
      Option.Rel (Describes (fdt.strings h)) found
        (tree.children.find? fun child => child.name == name) := by
  obtain ⟨s, children, hs, hyields, hchildren⟩ := henc.yields_children hraw
  have hrel := find?_rel (p := fun child => child.name == name)
    (q := fun child => child.name == name) hchildren fun raw tree hraw => by rw [hraw.name]
  refine ⟨_, ?_, hrel⟩
  rw [Fdt.findChild, hs, except_ok_bind, hyields.find]

/-- `get_nodes_path` goes through the trees of the path, unless there are too many. -/
theorem walkPath_describes (henc : fdt.Encodes h root reservations)
    (hraw : Describes (fdt.strings h) raw tree)
    (hraws : List.Forall₂ (Describes (fdt.strings h)) raws trees)
    (hpath : tree.walkPath trees segments = some chain) (hlen : trees.length < Fdt.maxPathDepth) :
    if chain.length ≤ Fdt.maxPathDepth then
      ∃ found, fdt.walkPath raws raw segments = .ok (some found) ∧
        List.Forall₂ (Describes (fdt.strings h)) found chain
    else fdt.walkPath raws raw segments = .ok none := by
  induction segments generalizing tree trees raw raws with
  | nil =>
      cases hpath
      rw [if_pos (by exact hlen)]
      exact ⟨raw :: raws, rfl, .cons hraw hraws⟩
  | cons segment segments ih =>
      obtain ⟨found, hfound, hrel⟩ := findChild_describes henc hraw segment
      rw [walkPath] at hpath
      split at hpath
      · cases hpath
      · rename_i child hchild
        rw [hchild] at hrel
        obtain ⟨next, rfl, hnext⟩ := rel_some hrel
        rw [Fdt.walkPath, hfound, except_ok_bind, hraws.length_eq]
        by_cases hdepth : trees.length + 1 < Fdt.maxPathDepth
        · simp only [if_pos hdepth]
          exact ih hnext (.cons hraw hraws) hpath hdepth
        · have hchain := walkPath_length hpath
          rw [List.length_cons] at hchain
          rw [if_neg (by omega)]
          simp only [if_neg hdepth, except_pure]

/-- The root is the first node without a name. -/
theorem rootNode_describes (henc : fdt.Encodes h root reservations) :
    ∃ raw, fdt.rootNode = .ok (some raw) ∧ Describes (fdt.strings h) raw root := by
  obtain ⟨s, raws, hs, hyields, hraws⟩ := henc.yields_nodes
  rw [nodes_eq] at hraws
  cases hraws with
  | @cons raw _ raws _ hraw _ =>
      refine ⟨raw, ?_, hraw⟩
      have hroot : raw.isRoot = true := by
        rw [RawNode.isRoot, RawNode.nodeName, hraw.name, henc.rootName]
        decide +kernel
      rw [Fdt.rootNode, Fdt.findNode, hs, except_ok_bind, hyields.find, List.find?_cons, hroot]

end blob

/-! ## Paths of the device tree -/

theorem parse_name {parent : Option Node} {node : Node} (h : tree.parse parent = .ok node) :
    node.name = tree.name := by
  rw [parse_eq] at h
  obtain ⟨parsed, hparsed, h⟩ := except_bind_eq_ok.mp h
  obtain ⟨nodes, -, h⟩ := except_bind_eq_ok.mp h
  cases h
  exact (parseProps_ok hparsed).1

theorem parseList_forall₂ {parent : Node} {nodes : List Node}
    (h : parseList parent trees = .ok nodes) :
    List.Forall₂ (fun tree node => tree.parse (some parent) = .ok node) trees nodes := by
  induction trees generalizing nodes with
  | nil =>
      cases h
      exact .nil
  | cons tree trees ih =>
      rw [parseList] at h
      obtain ⟨node, hnode, h⟩ := except_bind_eq_ok.mp h
      obtain ⟨nodes', hnodes, h⟩ := except_bind_eq_ok.mp h
      cases h
      exact .cons hnode (ih hnodes)

/-- The children of a node are parsed below it. -/
theorem parse_children {parent : Option Node} {node : Node} (h : tree.parse parent = .ok node) :
    List.Forall₂ (fun child n => child.parse (some node.leaf) = .ok n) tree.children
      node.children := by
  rw [parse_eq] at h
  obtain ⟨parsed, hparsed, h⟩ := except_bind_eq_ok.mp h
  obtain ⟨nodes, hnodes, h⟩ := except_bind_eq_ok.mp h
  cases h
  obtain ⟨-, hnone, -⟩ := parseProps_ok hparsed
  have hleaf : Node.leaf { parsed with children := nodes } = parsed := Node.leaf_eq hnone
  rw [hleaf]
  exact parseList_forall₂ hnodes

/-- `node_by_path` goes through the nodes of the trees of the path. -/
theorem walkPath_parsedTo {node : Node} {nodes : List Node} {addr : List Nat} {ptr : NodePtr}
    (h : ParsedTo (tree :: trees) (node :: nodes))
    (hptr : node.walkPath nodes addr segments = some ptr) :
    ∃ chain, tree.walkPath trees segments = some chain ∧
      ParsedTo chain (ptr.node :: ptr.ancestors) := by
  induction segments generalizing tree trees node nodes addr with
  | nil =>
      cases hptr
      exact ⟨tree :: trees, rfl, h⟩
  | cons segment segments ih =>
      rw [Node.walkPath] at hptr
      split at hptr
      · cases hptr
      · rename_i found hfound
        cases h with
        | cons hnode h =>
            have hrel := find?_rel (p := fun child => child.name == segment)
              (q := fun child => child.name == segment) (parse_children hnode)
              fun child n hn => by rw [parse_name hn]
            rw [hfound] at hrel
            obtain ⟨child, hchild, hparse⟩ := rel_some hrel
            have hbelow : ParsedTo (child :: tree :: trees) (found :: node :: nodes) :=
              .cons hparse (.cons hnode h)
            obtain ⟨chain, hchain, hparsed⟩ := ih hbelow hptr
            refine ⟨chain, ?_, hparsed⟩
            rw [walkPath, hchild]
            exact hchain

end FdtTree

end Kruspix.Kernel.Devicetree
