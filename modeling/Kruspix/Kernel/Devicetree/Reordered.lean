import Kruspix.Kernel.Devicetree.Cuts
import Kruspix.Kernel.Devicetree.Sites
import Mathlib.Data.List.Perm.Basic

/-!
# Trees that list their properties in another order

A property is decoded with the cells that are known where it stands, and a frequency of two
words only where it is aligned. Two trees that list the properties of their nodes in
different orders are parsed to the same tree, up to that order, when every property is
read in the same way in both.
-/

namespace Kruspix.Kernel.Devicetree

open Lib.Bytes Lib.Result Lib.Search

/-! ## The parsed tree -/

/-- The properties of a node are decoded where they stand, in any order. -/
def DecodesProps (upper : Option (List RawProp)) (all : List RawProp) :
    List RawProp → List Property → Prop :=
  List.Forall₂ fun p property => property.name = p.name ∧
    ∀ own after, all = own ++ p :: after →
      p.decode own (upper.getD own) = .ok property.value

namespace FdtTree

mutual

/-- The node has the name, the properties and the children of the tree, each property decoded
where it stands. -/
def Decodes (upper : Option (List RawProp)) : FdtTree → Node → Prop
  | .node name props children, n =>
      n.name = name ∧ DecodesProps upper props props n.properties ∧
        DecodesList props children n.children

/-- Every child decodes to the node at its place. -/
def DecodesList (upper : List RawProp) : List FdtTree → List Node → Prop
  | [], nodes => nodes = []
  | tree :: trees, nodes =>
      ∃ node nodes', nodes = node :: nodes' ∧ Decodes (some upper) tree node ∧
        DecodesList upper trees nodes'

end

mutual

/-- No node has two properties of one name. -/
def UniqueNames : FdtTree → Prop
  | .node _ props children => (props.map RawProp.name).Nodup ∧ UniqueNamesList children

/-- All trees have unique names. -/
def UniqueNamesList : List FdtTree → Prop
  | [] => True
  | tree :: trees => UniqueNames tree ∧ UniqueNamesList trees

end

theorem uniqueNamesList_iff {trees : List FdtTree} :
    UniqueNamesList trees ↔ ∀ tree ∈ trees, tree.UniqueNames := by
  induction trees with
  | nil => simp [UniqueNamesList]
  | cons tree trees ih => rw [UniqueNamesList, ih, List.forall_mem_cons]

theorem decodes_iff {upper : Option (List RawProp)} {tree : FdtTree} {node : Node} :
    tree.Decodes upper node ↔ node.name = tree.name ∧
      DecodesProps upper tree.props tree.props node.properties ∧
        DecodesList tree.props tree.children node.children := by
  cases tree with
  | node name props children => rw [Decodes, FdtTree.name, FdtTree.props, FdtTree.children]

theorem uniqueNames_iff {tree : FdtTree} : tree.UniqueNames ↔
    (tree.props.map RawProp.name).Nodup ∧ ∀ child ∈ tree.children, child.UniqueNames := by
  cases tree with
  | node name props children =>
      rw [UniqueNames, uniqueNamesList_iff, FdtTree.props, FdtTree.children]

variable {upper : Option (List RawProp)} {parent : Option Node}

/-- The parent has parsed its properties, if there is one. -/
def ParentParsed (parent : Option Node) (upper : Option (List RawProp)) : Prop :=
  Option.Rel Node.HasParsed parent upper

theorem ParentParsed.getD (h : ParentParsed parent upper) {node : Node} {own : List RawProp}
    (hnode : node.HasParsed own) : (parent.getD node).HasParsed (upper.getD own) := by
  cases h with
  | none => exact hnode
  | some hparent => exact hparent

theorem split_unique {own after own' after' : List RawProp} {p : RawProp}
    (hnodup : ((own ++ p :: after).map RawProp.name).Nodup)
    (h : own ++ p :: after = own' ++ p :: after') : own' = own := by
  have hnodup := hnodup.of_map
  rw [List.nodup_middle, List.nodup_cons, List.mem_append, not_or] at hnodup
  obtain ⟨⟨hown, hafter⟩, -⟩ := hnodup
  exact ((List.append_cons_inj_of_notMem hown hafter).mp h).1.symm

/-- The properties behind those that the node has are decoded where they stand. -/
theorem parseProps_eq_ok_iff (hparent : ParentParsed parent upper) {own props : List RawProp}
    {node node' : Node} (hnode : node.HasParsed own)
    (hnodup : ((own ++ props).map RawProp.name).Nodup) :
    parseProps parent node props = .ok node' ↔
      node'.name = node.name ∧ node'.children = node.children ∧
        ∃ properties, node'.properties = node.properties ++ properties ∧
          DecodesProps upper (own ++ props) props properties := by
  induction props generalizing node own with
  | nil =>
      rw [parseProps]
      constructor
      · intro h
        cases h
        exact ⟨rfl, rfl, [], (List.append_nil _).symm, .nil⟩
      · rintro ⟨hname, hchildren, properties, hprops, hdecodes⟩
        cases hdecodes
        rw [List.append_nil] at hprops
        obtain ⟨name, properties, children⟩ := node
        obtain ⟨name', properties', children'⟩ := node'
        cases hname
        cases hchildren
        cases hprops
        rfl
  | cons p props ih =>
      have hdecode := PropertyValue.fromRaw_eq_decode p hnode (hparent.getD hnode)
      have hassoc : own ++ p :: props = own ++ [p] ++ props := List.append_cons own p props
      have hrest : ∀ property, Property.fromRaw p node parent = .ok property →
          (parseProps parent { node with properties := node.properties ++ [property] } props =
              .ok node' ↔
            node'.name = node.name ∧ node'.children = node.children ∧
              ∃ properties, node'.properties = node.properties ++ [property] ++ properties ∧
                DecodesProps upper (own ++ p :: props) props properties) := by
        intro property hproperty
        obtain ⟨hname, hvalue⟩ := Property.fromRaw_eq_ok.mp hproperty
        have hparsed : Node.HasParsed { node with properties := node.properties ++ [property] }
            (own ++ [p]) :=
          List.rel_append hnode (.cons ⟨hname, _, _, hvalue⟩ .nil)
        rw [hassoc]
        exact ih hparsed (hassoc ▸ hnodup)
      constructor
      · intro h
        obtain ⟨property, hproperty, h⟩ := except_bind_eq_ok.mp h
        obtain ⟨hname, hvalue⟩ := Property.fromRaw_eq_ok.mp hproperty
        obtain ⟨hn, hc, properties, hprops, hdecodes⟩ := (hrest property hproperty).mp h
        refine ⟨hn, hc, property :: properties, ?_, .cons ⟨hname, ?_⟩ hdecodes⟩
        · rw [hprops, List.append_assoc, List.singleton_append]
        · intro own' after' hsplit
          rw [split_unique hnodup hsplit, ← hdecode]
          exact hvalue
      · rintro ⟨hn, hc, properties, hprops, hdecodes⟩
        cases hdecodes with
        | @cons _ property _ properties hp hdecodes =>
            have hproperty : Property.fromRaw p node parent = .ok property := by
              rw [Property.fromRaw_eq_ok, hdecode]
              exact ⟨hp.1, hp.2 own props rfl⟩
            rw [parseProps, hproperty, except_ok_bind, hrest property hproperty]
            exact ⟨hn, hc, properties, by rw [hprops, List.append_cons], hdecodes⟩

theorem parseProps_hasParsed {name : String} {props : List RawProp} {node : Node}
    (h : parseProps parent ⟨name, [], []⟩ props = .ok node) : node.HasParsed props := by
  obtain ⟨-, -, properties, hprops, hsame⟩ := parseProps_ok h
  rw [Node.HasParsed, hprops]
  exact hsame

theorem parseList_eq_ok_iff {parsed : Node} {trees : List FdtTree} {own : List RawProp}
    (htrees : ∀ tree ∈ trees, ∀ node, tree.parse (some parsed) = .ok node ↔
      tree.Decodes (some own) node) {nodes : List Node} :
    parseList parsed trees = .ok nodes ↔ DecodesList own trees nodes := by
  induction trees generalizing nodes with
  | nil =>
      rw [parseList, DecodesList, except_pure, Except.ok.injEq, eq_comm]
  | cons tree trees ih =>
      obtain ⟨htree, htrees⟩ := List.forall_mem_cons.mp htrees
      rw [parseList, DecodesList]
      constructor
      · intro h
        obtain ⟨node, hnode, h⟩ := except_bind_eq_ok.mp h
        obtain ⟨nodes', hnodes, h⟩ := except_bind_eq_ok.mp h
        cases h
        exact ⟨node, nodes', rfl, (htree node).mp hnode, (ih htrees).mp hnodes⟩
      · rintro ⟨node, nodes', rfl, hnode, hnodes⟩
        rw [(htree node).mpr hnode, except_ok_bind, (ih htrees).mpr hnodes]
        rfl

/-- Parsing a tree decodes its properties where they stand. -/
theorem parse_eq_ok_iff (hparent : ParentParsed parent upper) {tree : FdtTree}
    (hunique : tree.UniqueNames) {node : Node} :
    tree.parse parent = .ok node ↔ tree.Decodes upper node := by
  induction tree using FdtTree.induction_on generalizing parent upper node with
  | h tree ih =>
      obtain ⟨hnodup, hchildren⟩ := uniqueNames_iff.mp hunique
      have hnew : Node.HasParsed ⟨tree.name, [], []⟩ [] := List.Forall₂.nil
      have hprops : ∀ parsed, parseProps parent ⟨tree.name, [], []⟩ tree.props = .ok parsed ↔
          parsed.name = tree.name ∧ parsed.children = [] ∧ ∃ properties,
            parsed.properties = [] ++ properties ∧
              DecodesProps upper ([] ++ tree.props) tree.props properties :=
        fun parsed => parseProps_eq_ok_iff hparent hnew hnodup
      have hlist : ∀ {parsed : Node}, parsed.HasParsed tree.props → ∀ nodes,
          parseList parsed tree.children = .ok nodes ↔
            DecodesList tree.props tree.children nodes := by
        intro parsed hparsed nodes
        apply parseList_eq_ok_iff
        intro child hchild node
        exact ih child hchild (.some hparsed) (hchildren child hchild)
      rw [parse_eq, decodes_iff]
      constructor
      · intro h
        obtain ⟨parsed, hparsed, h⟩ := except_bind_eq_ok.mp h
        obtain ⟨nodes, hnodes, h⟩ := except_bind_eq_ok.mp h
        cases h
        obtain ⟨hname, -, properties, hproperties, hdecodes⟩ := (hprops parsed).mp hparsed
        refine ⟨hname, ?_, (hlist (parseProps_hasParsed hparsed) nodes).mp hnodes⟩
        rw [hproperties]
        exact hdecodes
      · rintro ⟨hname, hdecodes, hnodes⟩
        have hparsed : parseProps parent ⟨tree.name, [], []⟩ tree.props =
            .ok ⟨tree.name, node.properties, []⟩ :=
          (hprops _).mpr ⟨rfl, rfl, node.properties, rfl, hdecodes⟩
        rw [hparsed, except_ok_bind,
          (hlist (parseProps_hasParsed hparsed) node.children).mpr hnodes, except_ok_bind]
        obtain ⟨name, properties, children⟩ := node
        cases hname
        rfl

end FdtTree

/-! ## Two orders -/

mutual

/-- The nodes have the same properties, in any order, and their children are the same in
this sense. -/
def Node.SameUpToOrder : Node → Node → Prop
  | ⟨name, properties, children⟩, node' =>
      name = node'.name ∧ properties.Perm node'.properties ∧
        Node.SameUpToOrderList children node'.children

/-- Nodes that are the same up to order, one by one. -/
def Node.SameUpToOrderList : List Node → List Node → Prop
  | [], nodes' => nodes' = []
  | node :: nodes, nodes' => ∃ node' rest, nodes' = node' :: rest ∧
      Node.SameUpToOrder node node' ∧ Node.SameUpToOrderList nodes rest

end

theorem Node.sameUpToOrder_iff {node node' : Node} : node.SameUpToOrder node' ↔
    node.name = node'.name ∧ node.properties.Perm node'.properties ∧
      SameUpToOrderList node.children node'.children := by
  obtain ⟨name, properties, children⟩ := node
  rw [SameUpToOrder]

namespace FdtTree

mutual

/-- The trees differ only in the order in which each node lists its properties, and so in the
places of the values. -/
def Reordered : FdtTree → FdtTree → Prop
  | .node name props children, tree' =>
      name = tree'.name ∧
        (props.map RawProp.atZero).Perm (tree'.props.map RawProp.atZero) ∧
          ReorderedList children tree'.children

/-- Trees that are reordered, one by one. -/
def ReorderedList : List FdtTree → List FdtTree → Prop
  | [], trees' => trees' = []
  | tree :: trees, trees' => ∃ tree' rest, trees' = tree' :: rest ∧
      Reordered tree tree' ∧ ReorderedList trees rest

end

mutual

/-- Every property is read in the same way in both trees. -/
def SameReads (upper upper' : Option (List RawProp)) : FdtTree → FdtTree → Prop
  | .node _ props children, tree' =>
      (∀ p own after p' own' after', props = own ++ p :: after →
        tree'.props = own' ++ p' :: after' → p.atZero = p'.atZero →
          p.SameRead p' own (upper.getD own) own' (upper'.getD own')) ∧
        SameReadsList props tree'.props children tree'.children

/-- Trees that are read the same, one by one. -/
def SameReadsList (upper upper' : List RawProp) : List FdtTree → List FdtTree → Prop
  | [], _ => True
  | tree :: trees, trees' => ∀ tree' rest, trees' = tree' :: rest →
      SameReads (some upper) (some upper') tree tree' ∧ SameReadsList upper upper' trees rest

end

theorem reordered_iff {tree tree' : FdtTree} : tree.Reordered tree' ↔
    tree.name = tree'.name ∧
      (tree.props.map RawProp.atZero).Perm (tree'.props.map RawProp.atZero) ∧
        ReorderedList tree.children tree'.children := by
  cases tree with
  | node name props children => rw [Reordered, FdtTree.name, FdtTree.props, FdtTree.children]

theorem sameReads_iff {upper upper' : Option (List RawProp)} {tree tree' : FdtTree} :
    tree.SameReads upper upper' tree' ↔
      (∀ p own after p' own' after', tree.props = own ++ p :: after →
        tree'.props = own' ++ p' :: after' → p.atZero = p'.atZero →
          p.SameRead p' own (upper.getD own) own' (upper'.getD own')) ∧
        SameReadsList tree.props tree'.props tree.children tree'.children := by
  cases tree with
  | node name props children => rw [SameReads, FdtTree.props, FdtTree.children]

variable {upper upper' : Option (List RawProp)} {props props' : List RawProp}
  {properties : List Property}

/-- The value of a property where it stands. -/
theorem decodesProps_exists (h : DecodesProps upper props props properties) {p : RawProp}
    {own after : List RawProp} (hsplit : props = own ++ p :: after) :
    ∃ property ∈ properties, property.name = p.name ∧
      p.decode own (upper.getD own) = .ok property.value := by
  have hmem : p ∈ props := by
    rw [hsplit]
    exact List.mem_append_right _ List.mem_cons_self
  obtain ⟨property, hproperty, hname, hdecode⟩ := forall₂_exists_right h hmem
  exact ⟨property, hproperty, hname, hdecode own after hsplit⟩

/-- The property of a name has the value of the raw property of that name. -/
theorem decodesProps_of_mem (h : DecodesProps upper props props properties)
    (hnodup : (props.map RawProp.name).Nodup) {property : Property} (hmem : property ∈ properties)
    {p : RawProp} {own after : List RawProp} (hsplit : props = own ++ p :: after)
    (hname : property.name = p.name) : p.decode own (upper.getD own) = .ok property.value := by
  obtain ⟨q, hq, hqname, hdecode⟩ := forall₂_exists_right h.flip hmem
  have hmem : p ∈ props := by
    rw [hsplit]
    exact List.mem_append_right _ List.mem_cons_self
  obtain rfl : q = p :=
    List.inj_on_of_nodup_map hnodup hq hmem (hqname.symm.trans hname)
  exact hdecode own after hsplit

theorem nodup_names_of_perm (hnodup : (props.map RawProp.name).Nodup)
    (hperm : (props.map RawProp.atZero).Perm (props'.map RawProp.atZero)) :
    (props'.map RawProp.name).Nodup := by
  have hnames := hperm.map RawProp.name
  rw [List.map_map, List.map_map] at hnames
  exact hnames.nodup_iff.mp hnodup

theorem forall₂_mem {α β : Type} {r : α → β → Prop} {l : List α} {l' : List β}
    (h : List.Forall₂ r l l') : List.Forall₂ (fun a b => a ∈ l ∧ r a b) l l' := by
  have hmem : ∀ a ∈ l, a ∈ l := fun _ ha => ha
  exact (List.forall₂_and_left l l').mpr ⟨hmem, h⟩

/-- The properties in the order of the other tree, each with the value that it has in this
one. -/
theorem decodesProps_reorder (h : DecodesProps upper props props properties)
    (hperm : (props.map RawProp.atZero).Perm (props'.map RawProp.atZero)) :
    ∃ properties', properties.Perm properties' ∧ List.Forall₂ (fun p' property =>
      ∃ p ∈ props, p.atZero = p'.atZero ∧ property.name = p.name ∧
        ∀ own after, props = own ++ p :: after →
          p.decode own (upper.getD own) = .ok property.value) props' properties' := by
  have hvalues : List.Forall₂ (fun q property =>
      ∃ p ∈ props, p.atZero = q ∧ property.name = p.name ∧
        ∀ own after, props = own ++ p :: after →
          p.decode own (upper.getD own) = .ok property.value)
      (props.map RawProp.atZero) properties := by
    rw [List.forall₂_map_left_iff]
    exact (forall₂_mem h).imp fun p property hp => ⟨p, hp.1, rfl, hp.2⟩
  obtain ⟨properties', hdecodes, hproperties⟩ := List.perm_comp_forall₂ hperm.symm hvalues
  exact ⟨properties', hproperties.symm, List.forall₂_map_left_iff.mp hdecodes⟩

/-- The properties of a node are the same up to their order exactly when each is read in the
same way. -/
theorem decodesProps_perm_iff (upper' : Option (List RawProp))
    (hnodup : (props.map RawProp.name).Nodup)
    (hperm : (props.map RawProp.atZero).Perm (props'.map RawProp.atZero))
    (h : DecodesProps upper props props properties) :
    (∃ properties', DecodesProps upper' props' props' properties' ∧
      properties.Perm properties') ↔
        ∀ p own after p' own' after', props = own ++ p :: after →
          props' = own' ++ p' :: after' → p.atZero = p'.atZero →
            p.SameRead p' own (upper.getD own) own' (upper'.getD own') := by
  have hnodup' := nodup_names_of_perm hnodup hperm
  constructor
  · rintro ⟨properties', h', hproperties⟩ p own after p' own' after' hsplit hsplit' hzero
    obtain ⟨property, hproperty, hname, hdecode⟩ := decodesProps_exists h hsplit
    have hname' : property.name = p'.name := hname.trans (RawProp.name_eq_of_atZero hzero)
    have hdecode' :=
      decodesProps_of_mem h' hnodup' (hproperties.mem_iff.mp hproperty) hsplit' hname'
    rw [← RawProp.decode_eq_decode_iff hzero, hdecode, hdecode']
  · intro hreads
    obtain ⟨properties', hproperties, hvalues⟩ := decodesProps_reorder h hperm
    refine ⟨properties', hvalues.imp ?_, hproperties⟩
    rintro p' property ⟨p, hmem, hzero, hname, hdecode⟩
    refine ⟨hname.trans (RawProp.name_eq_of_atZero hzero), fun own' after' hsplit' => ?_⟩
    obtain ⟨own, after, hsplit⟩ := List.append_of_mem hmem
    have hread := hreads p own after p' own' after' hsplit hsplit' hzero
    rw [← RawProp.decode_eq_decode_iff hzero] at hread
    rw [← hread]
    exact hdecode own after hsplit

theorem decodesList_iff {trees trees' : List FdtTree} {nodes : List Node}
    {own : List RawProp} (own' : List RawProp) (hre : ReorderedList trees trees')
    (hdecodes : DecodesList own trees nodes)
    (htrees : ∀ tree ∈ trees, ∀ tree' node, tree.Reordered tree' →
      tree.Decodes (some own) node → ((∃ node', tree'.Decodes (some own') node' ∧
        node.SameUpToOrder node') ↔ tree.SameReads (some own) (some own') tree')) :
    (∃ nodes', DecodesList own' trees' nodes' ∧ Node.SameUpToOrderList nodes nodes') ↔
      SameReadsList own own' trees trees' := by
  induction trees generalizing trees' nodes with
  | nil =>
      rw [DecodesList] at hdecodes
      rw [ReorderedList] at hre
      rw [hre, hdecodes, SameReadsList]
      exact iff_of_true ⟨[], by rw [DecodesList], by rw [Node.SameUpToOrderList]⟩ trivial
  | cons tree trees ih =>
      obtain ⟨htree, htrees⟩ := List.forall_mem_cons.mp htrees
      rw [DecodesList] at hdecodes
      rw [ReorderedList] at hre
      obtain ⟨node, rest, rfl, hnode, hrest⟩ := hdecodes
      obtain ⟨tree', rest', rfl, htree', hrest'⟩ := hre
      rw [SameReadsList]
      constructor
      · rintro ⟨nodes', hdecodes', hsame⟩ u us hcons
        cases hcons
        rw [DecodesList] at hdecodes'
        obtain ⟨node', others, rfl, hnode', hothers⟩ := hdecodes'
        rw [Node.SameUpToOrderList] at hsame
        obtain ⟨n, ns, hcons, hsameNode, hsameRest⟩ := hsame
        cases hcons
        exact ⟨(htree tree' node htree' hnode).mp ⟨node', hnode', hsameNode⟩,
          (ih hrest' hrest htrees).mp ⟨others, hothers, hsameRest⟩⟩
      · intro hreads
        obtain ⟨hcut, hcutRest⟩ := hreads tree' rest' rfl
        obtain ⟨node', hnode', hsameNode⟩ := (htree tree' node htree' hnode).mpr hcut
        obtain ⟨others, hothers, hsameRest⟩ := (ih hrest' hrest htrees).mpr hcutRest
        refine ⟨node' :: others, ?_, ?_⟩
        · rw [DecodesList]
          exact ⟨node', others, rfl, hnode', hothers⟩
        · rw [Node.SameUpToOrderList]
          exact ⟨node', others, rfl, hsameNode, hsameRest⟩

/-- A reordered tree is decoded to the same node up to the order exactly when every property
is read in the same way. -/
theorem decodes_iff_sameReads {tree tree' : FdtTree} {node : Node} (hunique : tree.UniqueNames)
    (hre : tree.Reordered tree') (hdecodes : tree.Decodes upper node) :
    (∃ node', tree'.Decodes upper' node' ∧ node.SameUpToOrder node') ↔
      tree.SameReads upper upper' tree' := by
  induction tree using FdtTree.induction_on generalizing tree' node upper upper' with
  | h tree ih =>
      obtain ⟨hnodup, hchildren⟩ := uniqueNames_iff.mp hunique
      obtain ⟨hname, hperm, hlist⟩ := reordered_iff.mp hre
      obtain ⟨hnodeName, hprops, hnodes⟩ := decodes_iff.mp hdecodes
      have hproperties := decodesProps_perm_iff upper' hnodup hperm hprops
      have hchild := decodesList_iff tree'.props hlist hnodes
        fun child hmem child' node' hchild' hnode' =>
          ih child hmem (hchildren child hmem) hchild' hnode'
      rw [sameReads_iff, ← hproperties, ← hchild]
      constructor
      · rintro ⟨node', hdecodes', hsame⟩
        obtain ⟨-, hprops', hnodes'⟩ := decodes_iff.mp hdecodes'
        obtain ⟨-, hsameProps, hsameNodes⟩ := Node.sameUpToOrder_iff.mp hsame
        exact ⟨⟨_, hprops', hsameProps⟩, ⟨_, hnodes', hsameNodes⟩⟩
      · rintro ⟨⟨properties', hprops', hsameProps⟩, ⟨nodes', hnodes', hsameNodes⟩⟩
        refine ⟨⟨tree'.name, properties', nodes'⟩, decodes_iff.mpr ⟨rfl, hprops', hnodes'⟩,
          Node.sameUpToOrder_iff.mpr ⟨hnodeName.trans hname, hsameProps, hsameNodes⟩⟩

/-! ## Names -/

theorem reorderedList_forall {P : FdtTree → Prop} {trees trees' : List FdtTree}
    (hre : ReorderedList trees trees') (htrees : ∀ tree ∈ trees, P tree)
    (hstep : ∀ tree ∈ trees, ∀ tree', tree.Reordered tree' → P tree → P tree') :
    ∀ tree' ∈ trees', P tree' := by
  induction trees generalizing trees' with
  | nil =>
      rw [ReorderedList] at hre
      rw [hre]
      intro tree' htree'
      cases htree'
  | cons tree trees ih =>
      rw [ReorderedList] at hre
      obtain ⟨tree', rest, rfl, htree', hrest⟩ := hre
      obtain ⟨htree, htrees⟩ := List.forall_mem_cons.mp htrees
      obtain ⟨hstepTree, hstep⟩ := List.forall_mem_cons.mp hstep
      exact List.forall_mem_cons.mpr
        ⟨hstepTree tree' htree' htree, ih hrest htrees hstep⟩

theorem Reordered.short {tree tree' : FdtTree} (hre : tree.Reordered tree') (h : tree.Short) :
    tree'.Short := by
  induction tree using FdtTree.induction_on generalizing tree' with
  | h tree ih =>
      obtain ⟨hname, -, hlist⟩ := reordered_iff.mp hre
      obtain ⟨hlen, hchildren⟩ := short_iff.mp h
      refine short_iff.mpr ⟨hname ▸ hlen, ?_⟩
      exact reorderedList_forall hlist hchildren fun child hchild child' => ih child hchild

theorem Reordered.uniqueNames {tree tree' : FdtTree} (hre : tree.Reordered tree')
    (h : tree.UniqueNames) : tree'.UniqueNames := by
  induction tree using FdtTree.induction_on generalizing tree' with
  | h tree ih =>
      obtain ⟨-, hperm, hlist⟩ := reordered_iff.mp hre
      obtain ⟨hnodup, hchildren⟩ := uniqueNames_iff.mp h
      refine uniqueNames_iff.mpr ⟨nodup_names_of_perm hnodup hperm, ?_⟩
      exact reorderedList_forall hlist hchildren fun child hchild child' => ih child hchild

theorem mem_sitesList {own : List RawProp} {tree : FdtTree} {trees : List FdtTree} {site : Site}
    (htree : tree ∈ trees) (hsite : site ∈ tree.sites (some own)) :
    site ∈ sitesList own trees := by
  induction trees with
  | nil => cases htree
  | cons t trees ih =>
      rw [sitesList]
      rcases List.mem_cons.mp htree with rfl | htree
      · exact List.mem_append_left _ hsite
      · exact List.mem_append_right _ (ih htree)

theorem short_of_readable {tree : FdtTree} {upper : Option (List RawProp)}
    (h : ∀ site ∈ tree.sites upper, site.Readable) : tree.Short := by
  induction tree using FdtTree.induction_on generalizing upper with
  | h tree ih =>
      rw [sites_eq] at h
      obtain ⟨hlen, h⟩ := List.forall_mem_cons.mp h
      refine short_iff.mpr ⟨hlen, fun child hchild => ?_⟩
      exact ih child hchild fun site hsite =>
        h site (List.mem_append_right _ (mem_sitesList hchild hsite))

end FdtTree

/-! ## Blobs -/

section blobs

variable {fdt : Fdt} {h : Header} {tree : FdtTree} {reservations : List (Nat × Nat)}

/-- A tree that is returned has no name that is too long. -/
theorem Fdt.WellFormed.encodes (henc : fdt.WellFormed h tree reservations) {dt : DeviceTree}
    (hdt : DeviceTree.fromFdt fdt = .ok (some dt)) : fdt.Encodes h tree reservations := by
  refine ⟨henc, ?_⟩
  rw [henc.fromFdt_eq] at hdt
  obtain ⟨outcome, houtcome, hsome⟩ := except_map_eq_ok.mp hdt
  rcases outcome with b | _ | root
  · cases hsome
  · cases hsome
  · exact FdtTree.short_of_readable (henc.reaches.readable root houtcome)

/-- `from_fdt` returns the tree whose properties are decoded where they stand. -/
theorem Fdt.Encodes.fromFdt_iff (henc : fdt.Encodes h tree reservations)
    (hunique : tree.UniqueNames) {root : Node} :
    (∃ dt, DeviceTree.fromFdt fdt = .ok (some dt) ∧ dt.root = root) ↔
      tree.Decodes none root := by
  have hnone : FdtTree.ParentParsed none none := .none
  rw [← FdtTree.parse_eq_ok_iff hnone hunique]
  constructor
  · rintro ⟨dt, hdt, rfl⟩
    exact henc.parse_root hdt
  · exact henc.fromFdt

variable {fdt' : Fdt} {h' : Header} {tree' : FdtTree}

theorem Fdt.WellFormed.sameUpToOrder_iff (henc : fdt.WellFormed h tree reservations)
    (henc' : fdt'.WellFormed h' tree' reservations) (hunique : tree.UniqueNames)
    (hre : tree.Reordered tree') {dt : DeviceTree}
    (hdt : DeviceTree.fromFdt fdt = .ok (some dt)) :
    (∃ dt', DeviceTree.fromFdt fdt' = .ok (some dt') ∧ dt.root.SameUpToOrder dt'.root) ↔
      tree.SameReads none none tree' := by
  have hencodes := henc.encodes hdt
  have hencodes' : fdt'.Encodes h' tree' reservations := ⟨henc', hre.short hencodes.short⟩
  have hroot : tree.Decodes none dt.root :=
    (hencodes.fromFdt_iff hunique).mp ⟨dt, hdt, rfl⟩
  rw [← FdtTree.decodes_iff_sameReads hunique hre hroot]
  constructor
  · rintro ⟨dt', hdt', hsame⟩
    exact ⟨dt'.root, (hencodes'.fromFdt_iff (hre.uniqueNames hunique)).mp ⟨dt', hdt', rfl⟩, hsame⟩
  · rintro ⟨root', hroot', hsame⟩
    obtain ⟨dt', hdt', rfl⟩ :=
      (hencodes'.fromFdt_iff (hre.uniqueNames hunique)).mpr hroot'
    exact ⟨dt', hdt', hsame⟩

end blobs

/-- Where `from_fdt` returns a tree, it returns the same one up to the order for a blob that
lists the properties in another order, exactly when each property is read in the same way
in both. -/
theorem fromFdt_sameUpToOrder_iff (fdt fdt' : Fdt) (h h' : Header) (tree tree' : FdtTree)
    (reservations : List (Nat × Nat)) (henc : fdt.WellFormed h tree reservations)
    (henc' : fdt'.WellFormed h' tree' reservations) (hunique : tree.UniqueNames)
    (hre : tree.Reordered tree') (dt : DeviceTree)
    (hdt : DeviceTree.fromFdt fdt = .ok (some dt)) :
    (∃ dt', DeviceTree.fromFdt fdt' = .ok (some dt') ∧ dt.root.SameUpToOrder dt'.root) ↔
      tree.SameReads none none tree' :=
  henc.sameUpToOrder_iff henc' hunique hre hdt

/-! ## A bus that lists `ranges` ahead of its cells -/

def socCells (addr : Nat) : RawProp := ⟨"#address-cells", [0, 0, 0, 1], addr⟩

/-- The ranges of the bus: 0x7e000000 appears at 0x3f000000. -/
def socRanges (addr : Nat) : RawProp :=
  ⟨"ranges", [0x7e, 0, 0, 0, 0, 0, 0, 0, 0x3f, 0, 0, 0, 1, 0, 0, 0], addr⟩

/-- The properties of the bus, with the cells first or last. -/
def socProps (cellsFirst : Bool) : List RawProp :=
  if cellsFirst then [socCells 0x1054, socRanges 0x1064] else [socRanges 0x1054, socCells 0x1070]

def socTree (cellsFirst : Bool) : FdtTree := .node "" [] [.node "soc" (socProps cellsFirst) []]

/-- A bus whose `#address-cells` stand in front of its `ranges` or behind them. -/
def socBlock (cellsFirst : Bool) : List UInt8 :=
  beginNodeBytes "" ++ (beginNodeBytes "soc" ++
    (if cellsFirst then
      propBytes 0 (socCells 0).value ++ (propBytes 15 (socRanges 0).value ++
        (be32Bytes fdtEndNode ++ (be32Bytes fdtEndNode ++ (be32Bytes fdtEnd ++ []))))
    else
      propBytes 15 (socRanges 0).value ++ (propBytes 0 (socCells 0).value ++
        (be32Bytes fdtEndNode ++ (be32Bytes fdtEndNode ++ (be32Bytes fdtEnd ++ []))))))

def socHeader : Header := ⟨150, 56, 128, 40, 17, 16, 0, 22, 72⟩

def socStrings : List UInt8 := strBytes "#address-cells" ++ 0 :: (strBytes "ranges" ++ [0])

/-- The blob of that block at 0x1000. -/
def socFdt (cellsFirst : Bool) : Fdt :=
  ⟨⟨0x1000, socHeader.words.flatMap be32Bytes ++ (reservationBytes (0, 0) ++
    (socBlock cellsFirst ++ socStrings))⟩⟩

theorem socFdt_wellFormed (cellsFirst : Bool) :
    (socFdt cellsFirst).WellFormed socHeader (socTree cellsFirst) [] where
  aligned := ⟨0x200, rfl⟩
  aligned_rsvmap := by decide
  header := ⟨_, rfl⟩
  words_lt := by decide
  rootName := rfl
  structureBlock := by
    have hcells : Named ((socFdt cellsFirst).header.skip 128) 0 "#address-cells" := by
      refine ⟨Nat.succ_pos _, by decide, by decide +kernel, strBytes "ranges" ++ [0], ?_⟩
      cases cellsFirst <;> decide +kernel
    have hranges : Named ((socFdt cellsFirst).header.skip 128) 15 "ranges" := by
      refine ⟨Nat.succ_pos _, by decide, by decide +kernel, [], ?_⟩
      cases cellsFirst <;> decide +kernel
    refine ⟨socBlock cellsFirst, socStrings, ?_, ⟨Nat.succ_pos _, ⟨1038, rfl⟩, ?_⟩, ?_⟩
    · cases cellsFirst with
      | true =>
          exact .token (.beginNode (by decide +kernel)) (.token (.beginNode (by decide +kernel))
            (.token (.prop (by decide) (by decide +kernel) hcells) (.token (.prop (by decide) (by decide +kernel) hranges)
              (.token .endNode (.token .endNode (.token .finish .nil))))))
      | false =>
          exact .token (.beginNode (by decide +kernel)) (.token (.beginNode (by decide +kernel))
            (.token (.prop (by decide) (by decide +kernel) hranges) (.token (.prop (by decide) (by decide +kernel) hcells)
              (.token .endNode (.token .endNode (.token .finish .nil))))))
    · cases cellsFirst <;> decide +kernel
    · cases cellsFirst <;> decide +kernel
  memoryReservationBlock := by
    refine ⟨socBlock cellsFirst ++ socStrings, Nat.succ_pos _, ⟨1034, rfl⟩, ?_⟩
    cases cellsFirst <;> decide +kernel
  reservations_lt := by simp

theorem socTree_uniqueNames : (socTree true).UniqueNames := by
  simp only [socTree, FdtTree.UniqueNames, FdtTree.UniqueNamesList]
  decide

theorem socTree_reordered : (socTree true).Reordered (socTree false) := by
  simp only [socTree, FdtTree.Reordered, FdtTree.ReorderedList]
  exact ⟨rfl, .nil, _, _, rfl, ⟨rfl, .swap _ _ _, rfl⟩, rfl⟩

theorem socFdt_yields : ∃ dt, DeviceTree.fromFdt (socFdt true) = .ok (some dt) := by
  have hparse : ((socTree true).parse none).map (fun _ => ()) = .ok () := by decide +kernel
  obtain ⟨root, hroot, -⟩ := except_map_eq_ok.mp hparse
  have henc : (socFdt true).Encodes socHeader (socTree true) [] :=
    ⟨socFdt_wellFormed true, by
      simp only [socTree, FdtTree.Short, FdtTree.ShortList]
      decide⟩
  obtain ⟨dt, hdt, -⟩ := henc.fromFdt hroot
  exact ⟨dt, hdt⟩

theorem fromFdt_sameUpToOrder_soc : ∃ dt, DeviceTree.fromFdt (socFdt true) = .ok (some dt) ∧
    ((∃ dt', DeviceTree.fromFdt (socFdt false) = .ok (some dt') ∧
      dt.root.SameUpToOrder dt'.root) ↔
        (socTree true).SameReads none none (socTree false)) := by
  obtain ⟨dt, hdt⟩ := socFdt_yields
  exact ⟨dt, hdt, fromFdt_sameUpToOrder_iff _ _ _ _ _ _ _ (socFdt_wellFormed true)
    (socFdt_wellFormed false) socTree_uniqueNames socTree_reordered dt hdt⟩

/-- Ahead of the cells, an entry takes five words and the value has four. -/
theorem socTree_not_sameReads : ¬ (socTree true).SameReads none none (socTree false) := by
  intro h
  have hlist := (FdtTree.sameReads_iff.mp h).2
  simp only [socTree, FdtTree.props, FdtTree.children] at hlist
  rw [FdtTree.SameReadsList] at hlist
  obtain ⟨hreads, -⟩ := FdtTree.sameReads_iff.mp (hlist _ _ rfl).1
  have hread := hreads (socRanges 0x1064) [socCells 0x1054] [] (socRanges 0x1054) []
    [socCells 0x1070] rfl rfl rfl
  obtain ⟨hcut, -⟩ := hread
  revert hcut
  rw [RawProp.SameCut]
  decide

theorem fromFdt_not_sameUpToOrder : ¬ ∀ (fdt fdt' : Fdt) (h h' : Header) (tree tree' : FdtTree)
    (reservations : List (Nat × Nat)), fdt.WellFormed h tree reservations →
    fdt'.WellFormed h' tree' reservations → tree.UniqueNames → tree.Reordered tree' →
    ∀ dt, DeviceTree.fromFdt fdt = .ok (some dt) →
      ∃ dt', DeviceTree.fromFdt fdt' = .ok (some dt') ∧ dt.root.SameUpToOrder dt'.root := by
  intro hall
  obtain ⟨dt, hdt⟩ := socFdt_yields
  have hsame := hall _ _ _ _ _ _ _ (socFdt_wellFormed true) (socFdt_wellFormed false)
    socTree_uniqueNames socTree_reordered dt hdt
  exact socTree_not_sameReads (((socFdt_wellFormed true).sameUpToOrder_iff
    (socFdt_wellFormed false) socTree_uniqueNames socTree_reordered hdt).mp hsame)

end Kruspix.Kernel.Devicetree
