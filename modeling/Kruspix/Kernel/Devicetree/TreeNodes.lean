import Kruspix.Kernel.Devicetree.BlockEvents
import Mathlib.Data.Nat.Notation

/-!
# What the iterator over nodes sees of a tree

It yields the nodes of the tree in pre-order, down to a depth. With depth 1 behind the
properties of a node it yields the children of the node.
-/

namespace Kruspix.Kernel.Devicetree

open Lib.Iterator Lib.Iterator.Iter Lib.Result

namespace FdtTree

mutual

/-- The nodes of a tree in pre-order, down to a depth. -/
def nodesTo : Nat → FdtTree → List FdtTree
  | 0, _ => []
  | depth + 1, node name props children =>
      node name props children :: nodesToList depth children

/-- The nodes of trees down to a depth. -/
def nodesToList : Nat → List FdtTree → List FdtTree
  | _, [] => []
  | depth, tree :: trees => nodesTo depth tree ++ nodesToList depth trees

end

mutual

/-- The nodes of a tree in pre-order. -/
def nodes : FdtTree → List FdtTree
  | node name props children => node name props children :: nodesList children

/-- The nodes of trees, in document order. -/
def nodesList : List FdtTree → List FdtTree
  | [] => []
  | tree :: trees => nodes tree ++ nodesList trees

end

theorem nodesTo_succ (depth : Nat) (tree : FdtTree) :
    tree.nodesTo (depth + 1) = tree :: nodesToList depth tree.children := by
  cases tree with
  | node name props children => rw [nodesTo, FdtTree.children]

theorem nodes_eq (tree : FdtTree) : tree.nodes = tree :: nodesList tree.children := by
  cases tree with
  | node name props children => rw [nodes, FdtTree.children]

theorem mem_nodesList {tree : FdtTree} {trees : List FdtTree} :
    tree ∈ nodesList trees ↔ ∃ t ∈ trees, tree ∈ t.nodes := by
  induction trees with
  | nil => simp only [nodesList, List.not_mem_nil, false_and, exists_false]
  | cons t trees ih => simp only [nodesList, List.mem_append, ih, List.exists_mem_cons_iff]

theorem self_mem_nodes (tree : FdtTree) : tree ∈ tree.nodes := by
  rw [nodes_eq]
  exact List.mem_cons_self

/-- The children of the nodes of a tree are nodes of the tree. -/
theorem child_mem_nodes {root tree child : FdtTree} (htree : tree ∈ root.nodes)
    (hchild : child ∈ tree.children) : child ∈ root.nodes := by
  induction root using FdtTree.induction_on with
  | h root ih =>
      rw [nodes_eq, List.mem_cons] at htree ⊢
      right
      rw [mem_nodesList]
      rcases htree with rfl | htree
      · exact ⟨child, hchild, self_mem_nodes child⟩
      · obtain ⟨t, ht, htree⟩ := mem_nodesList.mp htree
        exact ⟨t, ht, ih t ht htree⟩

@[simp] theorem nodesTo_zero (tree : FdtTree) : tree.nodesTo 0 = [] := by
  cases tree with
  | node name props children => rw [nodesTo]

@[simp] theorem nodesToList_zero (trees : List FdtTree) : nodesToList 0 trees = [] := by
  induction trees with
  | nil => rw [nodesToList]
  | cons tree trees ih => rw [nodesToList, nodesTo_zero, ih, List.nil_append]

/-- Down to depth 1 there are only the trees themselves. -/
theorem nodesToList_one (trees : List FdtTree) : nodesToList 1 trees = trees := by
  induction trees with
  | nil => rw [nodesToList]
  | cons tree trees ih =>
      rw [nodesToList, nodesTo_succ, nodesToList_zero, ih, List.singleton_append]

theorem nodesToList_eq_nodesList {trees : List FdtTree} {depth : Nat}
    (h : ∀ tree ∈ trees, tree.nodesTo depth = tree.nodes) :
    nodesToList depth trees = nodesList trees := by
  induction trees with
  | nil => rw [nodesToList, nodesList]
  | cons tree trees ih =>
      obtain ⟨htree, htrees⟩ := List.forall_mem_cons.mp h
      rw [nodesToList, nodesList, htree, ih htrees]

theorem events_length_le {tree : FdtTree} {trees : List FdtTree} (h : tree ∈ trees) :
    tree.events.length ≤ (eventsList trees).length := by
  induction trees with
  | nil => exact absurd h List.not_mem_nil
  | cons t trees ih =>
      rw [eventsList, List.length_append]
      rcases List.mem_cons.mp h with rfl | h
      · exact Nat.le_add_right _ _
      · exact Nat.le_trans (ih h) (Nat.le_add_left _ _)

/-- A tree is not deeper than it has events. -/
theorem nodesTo_eq_nodes {tree : FdtTree} {depth : Nat} (h : tree.events.length ≤ depth) :
    tree.nodesTo depth = tree.nodes := by
  induction tree using FdtTree.induction_on generalizing depth with
  | h tree ih =>
      rw [events_eq, List.length_cons, List.length_append, childEvents, List.length_append] at h
      obtain ⟨depth, rfl⟩ := Nat.exists_eq_succ_of_ne_zero (show depth ≠ 0 by omega)
      rw [nodesTo_succ, nodes_eq]
      congr 1
      apply nodesToList_eq_nodesList
      intro child hchild
      apply ih child hchild
      have hle := events_length_le hchild
      omega

end FdtTree

variable {strings : Cursor} {tree : FdtTree} {rest : List Token} {s : NodeIter}

/-- What is left of the depth. -/
def NodeIter.left (s : NodeIter) : Nat := (s.maxDepth - s.currentDepth).toNat

/-- The iterator over nodes takes the tree, wherever the block spells it. -/
def Walked (strings : Cursor) (tree : FdtTree) : Prop :=
  ∀ {s : NodeIter} {rest : List Token},
    Ready strings s.structureBlockIter (tree.events.map Event.token ++ rest) → tree.Short →
    s.structureBlockIter.skipProps = true → 0 ≤ s.currentDepth →
      ∃ raws t, List.Forall₂ (Describes strings) raws (tree.nodesTo s.left) ∧
        t.skipProps = true ∧ t.prevToken = fdtEndNode ∧ Ready strings t rest ∧
        ∀ as, Yields NodeIter.iter { s with structureBlockIter := t } as →
          Yields NodeIter.iter s (raws ++ as)

theorem walk_trees {trees : List FdtTree} (htrees : ∀ tree ∈ trees, Walked strings tree)
    (hshort : ∀ tree ∈ trees, tree.Short)
    (h : Ready strings s.structureBlockIter
      ((FdtTree.eventsList trees).map Event.token ++ rest))
    (hskip : s.structureBlockIter.skipProps = true) (hdepth : 0 ≤ s.currentDepth) :
    ∃ raws t, List.Forall₂ (Describes strings) raws (FdtTree.nodesToList s.left trees) ∧
      t.skipProps = true ∧ Ready strings t rest ∧
      ∀ as, Yields NodeIter.iter { s with structureBlockIter := t } as →
        Yields NodeIter.iter s (raws ++ as) := by
  induction trees generalizing s with
  | nil =>
      rw [FdtTree.eventsList] at h
      rw [FdtTree.nodesToList]
      exact ⟨[], _, .nil, hskip, h, fun _ hyields => hyields⟩
  | cons tree trees ih =>
      rw [FdtTree.eventsList, List.map_append, List.append_assoc] at h
      obtain ⟨htree, htrees⟩ := List.forall_mem_cons.mp htrees
      obtain ⟨hname, hshort⟩ := List.forall_mem_cons.mp hshort
      obtain ⟨raws, t, hraws, htskip, -, hready, hyields⟩ := htree h hname hskip hdepth
      obtain ⟨raws', u, hraws', huskip, huready, hyields'⟩ :=
        ih (s := { s with structureBlockIter := t }) htrees hshort hready htskip hdepth
      refine ⟨raws ++ raws', u, ?_, huskip, huready, fun as has => ?_⟩
      · rw [FdtTree.nodesToList]
        exact List.rel_append hraws hraws'
      · rw [List.append_assoc]
        exact hyields _ (hyields' as has)

/-- The end of a node takes the iterator one level up. -/
theorem NodeIter.next_endNode {t : StructureBlockIter} (hdepth : 0 ≤ s.currentDepth)
    (h : s.structureBlockIter.next = .ok (some (.ok .endNode), t)) :
    s.next = NodeIter.next ⟨t, s.currentDepth - 1, s.maxDepth⟩ := by
  rw [NodeIter.next_eq, if_neg (by omega), h]

/-- The iterator over nodes takes every tree. -/
theorem walked (strings : Cursor) (tree : FdtTree) : Walked strings tree := by
  induction tree using FdtTree.induction_on with
  | h tree ih =>
      intro s rest h hshort hskip hdepth
      obtain ⟨hlen, hchildren⟩ := FdtTree.short_iff.mp hshort
      obtain ⟨raw, t, ht, -, hraw, htskip, -, hready⟩ := h.nextBegin hlen
      rw [FdtTree.readProps, if_pos hskip, List.map_nil, List.nil_append, FdtTree.childTokens,
        FdtTree.childEvents, List.map_append, List.append_assoc] at hready
      rw [hskip] at htskip
      obtain ⟨raws, u, hraws, huskip, huready, hyields⟩ :=
        walk_trees (s := ⟨t, s.currentDepth + 1, s.maxDepth⟩) ih hchildren
          hready htskip (by
          change 0 ≤ s.currentDepth + 1
          omega)
      obtain ⟨w, hw, hwskip, hwprev, hwready⟩ := Ready.nextEndNode huready
      have hup : ∀ as, Yields NodeIter.iter { s with structureBlockIter := w } as →
          Yields NodeIter.iter ⟨t, s.currentDepth + 1, s.maxDepth⟩ (raws ++ as) := by
        intro as has
        apply hyields
        apply has.congr
        change NodeIter.next ⟨u, s.currentDepth + 1, s.maxDepth⟩ = NodeIter.next _
        rw [NodeIter.next_endNode (by change 0 ≤ s.currentDepth + 1; omega) hw]
        congr 2
        change s.currentDepth + 1 - 1 = s.currentDepth
        omega
      have hnext := NodeIter.next_eq s
      rw [if_neg (by omega), ht] at hnext
      by_cases hmax : s.currentDepth + 1 > s.maxDepth
      · have hleft : s.left = 0 := by
          rw [NodeIter.left]
          omega
        have hleft' : NodeIter.left ⟨t, s.currentDepth + 1, s.maxDepth⟩ = 0 := by
          simp only [NodeIter.left]
          omega
        rw [hleft', FdtTree.nodesToList_zero] at hraws
        cases hraws
        rw [hleft, FdtTree.nodesTo_zero]
        refine ⟨[], w, .nil, hwskip.trans huskip, hwprev, hwready, fun as has => ?_⟩
        apply (hup as has).congr
        simp only [if_pos hmax] at hnext
        exact hnext
      · have hleft : s.left = NodeIter.left ⟨t, s.currentDepth + 1, s.maxDepth⟩ + 1 := by
          simp only [NodeIter.left]
          omega
        rw [hleft, FdtTree.nodesTo_succ]
        refine ⟨raw :: raws, w, .cons (hraw hshort) hraws, hwskip.trans huskip, hwprev, hwready,
          fun as has => ?_⟩
        simp only [if_neg hmax] at hnext
        exact .more hnext (hup as has)

/-- The pointer to the children of a node gives its children, in order. -/
theorem Describes.yields_children {raw : RawNode} (h : Describes strings raw tree) :
    ∃ raws, Yields NodeIter.iter (.new raw.childrenPtr strings 1) raws ∧
      List.Forall₂ (Describes strings) raws tree.children := by
  by_cases hchildren : tree.children = []
  · refine ⟨[], ?_, ?_⟩
    · rw [h.noChildren hchildren]
      apply Yields.done (t := .new .null strings 1)
      change NodeIter.next _ = _
      rw [NodeIter.next_eq]
      rfl
    · rw [hchildren]
      exact .nil
  · obtain ⟨rest, hspells⟩ := h.children hchildren
    rw [FdtTree.childTokens, FdtTree.childEvents, List.map_append, List.append_assoc] at hspells
    have hready : Ready strings (NodeIter.new raw.childrenPtr strings 1).structureBlockIter _ :=
      ⟨rfl, show 0 ≠ fdtEnd by decide, [], fun _ => rfl, hspells⟩
    obtain ⟨raws, t, hraws, htskip, htready, hyields⟩ :=
      walk_trees (fun tree _ => walked strings tree)
        (FdtTree.short_iff.mp h.short).2 hready rfl (Int.le_refl 0)
    obtain ⟨u, hu, -⟩ := Ready.nextEndNode htready
    refine ⟨raws, ?_, ?_⟩
    · rw [← List.append_nil raws]
      apply hyields
      apply Yields.done (t := ⟨u, -1, 1⟩)
      change NodeIter.next ⟨t, 0, 1⟩ = _
      rw [NodeIter.next_endNode (Int.le_refl 0) hu, NodeIter.next_eq]
      rfl
    · rw [← FdtTree.nodesToList_one tree.children]
      exact hraws

/-! ## Properties -/

theorem Spells.nextPropToken {c : Cursor} {token : Token} {tokens : List Token}
    (h : Spells strings c (token :: tokens)) :
    ∃ d, Stands strings d token tokens ∧
      Devicetree.nextPropToken c = .ok (if token.word = fdtProp then d else .null) := by
  obtain ⟨d, hstands, hd⟩ := @Spells.exists_stands _ _ _ _ _ Devicetree.nextPropToken
    (fun c hc => by rw [nextPropToken_eq, hc, except_ok_bind, if_neg (by decide), if_pos rfl]) h
  refine ⟨d, hstands, hd.trans ?_⟩
  rw [nextPropToken_eq, hstands.readBe32, except_ok_bind]
  split
  · rfl
  · rw [if_neg token.word_ne_nop]

/-- The iterator over properties yields the properties up to the next other token. -/
theorem Spells.yields_props {c : Cursor} {props : List RawProp} {token : Token}
    {tokens : List Token} (hne : token.word ≠ fdtProp)
    (h : Spells strings c (props.map .prop ++ token :: tokens)) :
    Yields PropIter.iter (.new c strings) props := by
  induction props generalizing c with
  | nil =>
      obtain ⟨d, -, hd⟩ := Spells.nextPropToken h
      rw [if_neg hne] at hd
      apply Yields.done (t := ⟨.null, strings⟩)
      change PropIter.next _ = _
      rw [PropIter.next, PropIter.new, hd]
      rfl
  | cons p props ih =>
      obtain ⟨d, hstands, hd⟩ := Spells.nextPropToken h
      rw [if_pos (show (Token.prop p).word = fdtProp from rfl)] at hd
      obtain ⟨-, -, hspells, hread⟩ := hstands.prop_fields
      apply Yields.more _ (ih hspells)
      change PropIter.next _ = _
      rw [PropIter.next, PropIter.new, hd, except_ok_bind, hstands.spells.notNull,
        if_neg Bool.false_ne_true, hread]
      rfl

theorem Describes.yields_props {raw : RawNode} (h : Describes strings raw tree)
    (hprops : tree.props ≠ []) : Yields PropIter.iter (.new raw.propsPtr strings) tree.props := by
  obtain ⟨rest, hspells⟩ := h.props hprops
  obtain ⟨token, tokens, hchild, hne, -⟩ := tree.childTokens_head rest
  rw [hchild] at hspells
  exact hspells.yields_props hne

/-- The pointer to the properties of a node without properties is null, and is read. -/
theorem Describes.no_props {raw : RawNode} (h : Describes strings raw tree)
    (hprops : tree.props = []) :
    PropIter.next (.new raw.propsPtr strings) = .error .nullPointer := by
  rw [h.noProps hprops, PropIter.next, PropIter.new, nextPropToken_eq]
  rfl

end Kruspix.Kernel.Devicetree
