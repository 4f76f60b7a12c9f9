import Kruspix.Kernel.Devicetree.Encoding
import Mathlib.Data.List.Forall2

/-!
# What the iterators see of a tree

The iterator over the structure block yields the events of the tree that the block
spells, and gives each node the pointers to its properties and to its children. With or
without properties, it takes the same steps.
-/

namespace Kruspix.Kernel.Devicetree

open Lib.Bytes Lib.Iterator Lib.Iterator.Iter Lib.Result

variable {strings c : Cursor} {tree : FdtTree} {rest : List Token}

def FdtTree.childTokens (tree : FdtTree) : List Token := tree.childEvents.map Event.token

/-- The raw node is that of the tree, with pointers to its properties and its children. -/
structure Describes (strings : Cursor) (raw : RawNode) (tree : FdtTree) : Prop where
  short : tree.Short
  name : raw.name = tree.name
  noProps : tree.props = [] → raw.propsPtr = .null
  props : tree.props ≠ [] →
    ∃ rest, Spells strings raw.propsPtr (tree.props.map .prop ++ (tree.childTokens ++ rest))
  noChildren : tree.children = [] → raw.childrenPtr = .null
  children : tree.children ≠ [] → ∃ rest, Spells strings raw.childrenPtr (tree.childTokens ++ rest)

/-- An entry of the iterator is the one for an event. -/
inductive Matches (strings : Cursor) : Except Unit StructureBlockEntry → Event → Prop
  | beginNode {raw : RawNode} {tree : FdtTree} (h : Describes strings raw tree) :
      Matches strings (.ok (.beginNode raw)) (.beginNode tree)
  | prop (p : RawProp) : Matches strings (.ok (.prop p)) (.prop p)
  | endNode : Matches strings (.ok .endNode) .endNode

/-- The iterator is about to read the tokens, behind properties that it skips. -/
structure Ready (strings : Cursor) (s : StructureBlockIter) (tokens : List Token) : Prop where
  stringsBlock : s.stringsBlock = strings
  going : s.prevToken ≠ fdtEnd
  spells : ∃ skipped : List RawProp, (s.skipProps = false → skipped = []) ∧
    Spells strings s.token (skipped.map .prop ++ tokens)

/-! ## One step -/

theorem Spells.notNull {token : Token} {tokens : List Token}
    (h : Spells strings c (token :: tokens)) : c.isNull = false := by
  obtain ⟨_, _, -, hpoints⟩ := h
  exact hpoints.isNull

variable {s : StructureBlockIter} {token : Token} {tokens : List Token}

/-- The iterator finds the next token, which is a property only if it reads them. -/
theorem Ready.next (h : Ready strings s (token :: tokens))
    (hprop : s.skipProps = true → token.word ≠ fdtProp) :
    ∃ c, s.next = s.nextToken token.word c ∧ Stands strings c token tokens := by
  obtain ⟨skipped, hskipped, hspells⟩ := h.spells
  have hnull : s.token.isNull = false := by
    cases skipped with
    | nil => exact hspells.notNull
    | cons p ps => exact hspells.notNull
  have hgo : ¬(s.prevToken = fdtEnd ∨ s.token.isNull = true) := by
    rw [hnull]
    rintro (hend | hnull')
    · exact h.going hend
    · cases hnull'
  rw [StructureBlockIter.next, if_neg hgo, StructureBlockIter.readToken]
  cases hskip : s.skipProps with
  | true =>
      obtain ⟨c, hc, hstands⟩ := hspells.nextNonNopTokenWithoutProps (hprop hskip)
      refine ⟨c, ?_, hstands⟩
      rw [if_pos rfl, hc, except_ok_bind]
  | false =>
      rw [hskipped hskip] at hspells
      obtain ⟨c, hc, hstands⟩ := Spells.nextNonNopToken hspells
      refine ⟨c, ?_, hstands⟩
      rw [if_neg Bool.false_ne_true, hc, except_ok_bind]

theorem eventsList_head {trees : List FdtTree} (h : trees ≠ []) (rest : List Token) :
    ∃ name tokens, (FdtTree.eventsList trees).map Event.token ++ rest =
      .beginNode name :: tokens := by
  cases trees with
  | nil => exact absurd rfl h
  | cons tree trees =>
      rw [FdtTree.eventsList, FdtTree.events_eq]
      exact ⟨tree.name, _, rfl⟩

/-- What follows the properties of a tree is the begin of its first child or its end. -/
theorem FdtTree.childTokens_head (tree : FdtTree) (rest : List Token) :
    ∃ token tokens, tree.childTokens ++ rest = token :: tokens ∧ token.word ≠ fdtProp ∧
      (token.word = fdtBeginNode ↔ tree.children ≠ []) := by
  rw [childTokens, childEvents, List.map_append, List.append_assoc]
  by_cases h : tree.children = []
  · rw [h, eventsList]
    exact ⟨.endNode, rest, rfl, by decide, by simp [Token.word, fdtEndNode, fdtBeginNode]⟩
  · obtain ⟨name, tokens, htokens⟩ := eventsList_head h ([Event.endNode].map Event.token ++ rest)
    exact ⟨.beginNode name, tokens, htokens, by simp [Token.word, fdtBeginNode, fdtProp],
      by simp [Token.word, h]⟩

/-- The begin of a tree, with the look ahead for its properties and its children. -/
theorem nextBeginNode_describes (hlen : (strBytes tree.name).length ≤ 51)
    (h : Stands strings c (.beginNode tree.name)
      (tree.props.map .prop ++ (tree.childTokens ++ rest))) :
    ∃ raw d, s.nextBeginNode c =
        .ok (some (.ok (.beginNode raw)), { s with token := d, prevToken := fdtBeginNode }) ∧
      raw.name = tree.name ∧ (tree.Short → Describes strings raw tree) ∧
      Spells strings d (tree.props.map .prop ++ (tree.childTokens ++ rest)) := by
  obtain ⟨hname, count, hcount, hspells⟩ := h.name_fields hlen
  obtain ⟨token, tokens, hchild, hne, hbegin⟩ := tree.childTokens_head rest
  -- the token behind the name is the first property, or else what follows the properties
  obtain ⟨next, d, hd, hspells', hnext⟩ : ∃ next d,
      nextNonNopToken (c.skip (4 * (1 + count))) = .ok (next, d) ∧
      Spells strings d (tree.props.map .prop ++ (tree.childTokens ++ rest)) ∧
      (next = fdtProp ↔ tree.props ≠ []) := by
    cases hprops : tree.props with
    | nil =>
        rw [hprops, List.map_nil, List.nil_append, hchild] at hspells
        obtain ⟨d, hd, hstands⟩ := Spells.nextNonNopToken hspells
        refine ⟨_, d, hd, ?_, by simp [hne]⟩
        rw [List.map_nil, List.nil_append, hchild]
        exact hstands.spells
    | cons p ps =>
        rw [hprops] at hspells
        obtain ⟨d, hd, hstands⟩ := Spells.nextNonNopToken hspells
        exact ⟨_, d, hd, hstands.spells, by simp [Token.word]⟩
  have hspells'' := hspells'
  rw [hchild] at hspells''
  obtain ⟨e, he, hstands⟩ := hspells''.nextNonNopTokenWithoutProps hne
  have hchildren := hstands.spells
  rw [← hchild] at hchildren
  refine ⟨⟨tree.name, if next = fdtProp then d else .null,
    if token.word = fdtBeginNode then e else .null⟩, d, ?_, rfl, fun hshort => ?_, hspells'⟩
  · rw [StructureBlockIter.nextBeginNode, hname, except_ok_bind, str?_strBytes]
    simp only [hcount, hd, he, except_ok_bind, except_pure]
  · refine ⟨hshort, rfl, fun hnone => ?_, fun hsome => ?_, fun hnone => ?_, fun hsome => ?_⟩
    · exact if_neg fun hprop => hnext.mp hprop hnone
    · refine ⟨rest, ?_⟩
      rw [if_pos (hnext.mpr hsome)]
      exact hspells'
    · exact if_neg fun hword => hbegin.mp hword hnone
    · refine ⟨rest, ?_⟩
      rw [if_pos (hbegin.mpr hsome)]
      exact hchildren

/-- The properties of a tree, unless the iterator skips them. -/
def FdtTree.readProps (tree : FdtTree) (skipProps : Bool) : List RawProp :=
  if skipProps then [] else tree.props

/-- The iterator at the begin of a tree. -/
theorem Ready.nextBegin (h : Ready strings s (tree.events.map Event.token ++ rest))
    (hlen : (strBytes tree.name).length ≤ 51) :
    ∃ raw t, s.next = .ok (some (.ok (.beginNode raw)), t) ∧ raw.name = tree.name ∧
      (tree.Short → Describes strings raw tree) ∧ t.skipProps = s.skipProps ∧ t.prevToken = fdtBeginNode ∧
      Ready strings t ((tree.readProps s.skipProps).map .prop ++ (tree.childTokens ++ rest)) := by
  rw [FdtTree.events_eq, List.map_cons, List.map_append, List.cons_append, List.append_assoc,
    List.map_map] at h
  obtain ⟨c, hc, hstands⟩ := h.next fun _ => by simp [Event.token, Token.word, fdtBeginNode, fdtProp]
  obtain ⟨raw, d, hd, hname, hraw, hspells⟩ := nextBeginNode_describes (s := s) hlen hstands
  refine ⟨raw, _, hc.trans hd, hname, hraw, rfl, rfl, h.stringsBlock,
    show fdtBeginNode ≠ fdtEnd by decide, ?_⟩
  cases hskip : s.skipProps with
  | true => exact ⟨tree.props, fun hfalse => by simp at hfalse, hspells⟩
  | false => exact ⟨[], fun _ => rfl, hspells⟩

/-- The iterator does not accept a name that is too long. -/
theorem Ready.nextBegin_long (h : Ready strings s (tree.events.map Event.token ++ rest))
    (hlen : 51 < (strBytes tree.name).length) : ∃ t, s.next = .ok (some (.error ()), t) := by
  rw [FdtTree.events_eq, List.map_cons, List.cons_append] at h
  obtain ⟨c, hc, hstands⟩ := h.next fun _ => by simp [Event.token, Token.word, fdtBeginNode, fdtProp]
  obtain ⟨hname, hcount⟩ := Stands.name_long hstands hlen
  have hnext : s.nextBeginNode c =
      .ok (some (.error ()), { s with token := .null, prevToken := fdtBeginNode }) := by
    rw [StructureBlockIter.nextBeginNode, hname, except_ok_bind, str?_strBytes]
    simp only [hcount, except_ok_bind, except_pure]
  exact ⟨_, hc.trans hnext⟩

theorem Ready.nextProp {p : RawProp} (h : Ready strings s (.prop p :: tokens))
    (hskip : s.skipProps = false) (hprev : s.prevToken ≠ fdtEndNode) :
    ∃ t, s.next = .ok (some (.ok (.prop p)), t) ∧ t.skipProps = false ∧
      t.prevToken = fdtProp ∧ Ready strings t tokens := by
  obtain ⟨c, hc, hstands⟩ := h.next fun htrue => by simp [hskip] at htrue
  obtain ⟨-, -, hspells, hread⟩ := hstands.prop_fields
  have hnext : s.nextProp c = .ok (some (.ok (.prop p)),
      { s with token := c.skipProp p.value.length, prevToken := fdtProp }) := by
    rw [StructureBlockIter.nextProp, if_neg hprev, h.stringsBlock, hread]
    rfl
  exact ⟨_, hc.trans hnext, hskip, rfl, h.stringsBlock, show fdtProp ≠ fdtEnd by decide, [],
    fun _ => rfl, hspells⟩

theorem Ready.nextEndNode (h : Ready strings s (.endNode :: tokens)) :
    ∃ t, s.next = .ok (some (.ok .endNode), t) ∧ t.skipProps = s.skipProps ∧
      t.prevToken = fdtEndNode ∧ Ready strings t tokens := by
  obtain ⟨c, hc, bytes, rest, htoken, -, hspells⟩ := h.next fun _ => by decide
  cases htoken
  exact ⟨_, hc, rfl, rfl, h.stringsBlock, show fdtEndNode ≠ fdtEnd by decide, [],
    fun _ => rfl, hspells⟩

/-- The end of the block ends the iterator, behind the end of a node. -/
theorem Ready.nextFinish (h : Ready strings s (.finish :: tokens))
    (hprev : s.prevToken = fdtEndNode) : ∃ t, s.next = .ok (none, t) := by
  obtain ⟨c, hc, -⟩ := h.next fun _ => by decide
  have hend : s.nextToken fdtEnd c = .ok s.nextEnd := rfl
  rw [hc]
  change ∃ t, s.nextToken fdtEnd c = _
  rw [hend, StructureBlockIter.nextEnd, hprev]
  exact ⟨_, rfl⟩

/-! ## Whole trees -/

theorem steps_props {props : List RawProp} (h : Ready strings s (props.map .prop ++ tokens))
    (hskip : s.skipProps = false) (hprev : s.prevToken ≠ fdtEndNode) :
    ∃ entries t, Steps StructureBlockIter.iter s entries t ∧
      List.Forall₂ (Matches strings) entries (props.map .prop) ∧
      t.skipProps = false ∧ Ready strings t tokens := by
  induction props generalizing s with
  | nil => exact ⟨[], s, .nil, .nil, hskip, h⟩
  | cons p props ih =>
      obtain ⟨t, ht, htskip, htprev, hready⟩ := Ready.nextProp h hskip hprev
      obtain ⟨entries, u, hsteps, hmatches, huskip, huready⟩ := ih hready htskip (by
        rw [htprev]
        decide)
      exact ⟨_, u, .cons ht hsteps, .cons (.prop p) hmatches, huskip, huready⟩

/-- The iterator takes the events of the tree, wherever the block spells them. -/
def Stepped (strings : Cursor) (tree : FdtTree) : Prop :=
  ∀ {s : StructureBlockIter} {rest : List Token},
    Ready strings s (tree.events.map Event.token ++ rest) → tree.Short → s.skipProps = false →
      ∃ entries t, Steps StructureBlockIter.iter s entries t ∧
        List.Forall₂ (Matches strings) entries tree.events ∧
        t.skipProps = false ∧ t.prevToken = fdtEndNode ∧ Ready strings t rest

theorem steps_trees {trees : List FdtTree} (htrees : ∀ tree ∈ trees, Stepped strings tree)
    (hshort : ∀ tree ∈ trees, tree.Short)
    (h : Ready strings s ((FdtTree.eventsList trees).map Event.token ++ rest))
    (hskip : s.skipProps = false) :
    ∃ entries t, Steps StructureBlockIter.iter s entries t ∧
      List.Forall₂ (Matches strings) entries (FdtTree.eventsList trees) ∧
      t.skipProps = false ∧ Ready strings t rest := by
  induction trees generalizing s with
  | nil =>
      rw [FdtTree.eventsList] at h ⊢
      exact ⟨[], s, .nil, .nil, hskip, h⟩
  | cons tree trees ih =>
      rw [FdtTree.eventsList, List.map_append, List.append_assoc] at h
      obtain ⟨htree, htrees⟩ := List.forall_mem_cons.mp htrees
      obtain ⟨hname, hshort⟩ := List.forall_mem_cons.mp hshort
      obtain ⟨entries, t, hsteps, hmatches, htskip, -, hready⟩ := htree h hname hskip
      obtain ⟨entries', u, hsteps', hmatches', huskip, huready⟩ := ih htrees hshort hready htskip
      rw [FdtTree.eventsList]
      exact ⟨entries ++ entries', u, hsteps.append hsteps',
        List.rel_append hmatches hmatches', huskip, huready⟩

/-- The iterator takes the events of every tree. -/
theorem stepped (strings : Cursor) (tree : FdtTree) : Stepped strings tree := by
  induction tree using FdtTree.induction_on with
  | h tree ih =>
      intro s rest h hshort hskip
      obtain ⟨hlen, hchildren⟩ := FdtTree.short_iff.mp hshort
      obtain ⟨raw, t, ht, -, hraw, htskip, htprev, hready⟩ := h.nextBegin hlen
      rw [hskip] at htskip hready
      obtain ⟨entries, u, hsteps, hmatches, huskip, huready⟩ := steps_props hready htskip (by
        rw [htprev]
        decide)
      rw [FdtTree.childTokens, FdtTree.childEvents, List.map_append, List.append_assoc] at huready
      obtain ⟨entries', v, hsteps', hmatches', hvskip, hvready⟩ := steps_trees ih hchildren
        huready huskip
      obtain ⟨w, hw, hwskip, hwprev, hwready⟩ := Ready.nextEndNode hvready
      refine ⟨.ok (.beginNode raw) :: (entries ++ (entries' ++ [.ok .endNode])), w, ?_, ?_,
        hwskip.trans hvskip, hwprev, hwready⟩
      · exact .cons ht (hsteps.append (hsteps'.append (.cons hw .nil)))
      · rw [FdtTree.events_eq, FdtTree.childEvents]
        refine .cons (.beginNode (hraw hshort)) (List.rel_append hmatches (List.rel_append hmatches' ?_))
        exact .cons .endNode .nil

end Kruspix.Kernel.Devicetree
