import Kruspix.Kernel.Devicetree.BlockEvents
import Kruspix.Kernel.Devicetree.FromFdt

/-!
# The device tree of a tree

The tree is turned into nodes node by node, each with its properties before its
children. The loop over the entries of the structure block does the same with a stack.
-/

namespace Kruspix.Kernel.Devicetree

open Lib.Iterator.Iter Lib.Result

namespace FdtTree

/-- The node with the properties added, in order. -/
def parseProps (parent : Option Node) (node : Node) : List RawProp → Except Fault Node
  | [] => .ok node
  | prop :: props => do
      let property ← Property.fromRaw prop node parent
      parseProps parent { node with properties := node.properties ++ [property] } props

mutual

/-- The node of a tree below a parent. -/
def parse (parent : Option Node) : FdtTree → Except Fault Node
  | .node name props children => do
      let node ← parseProps parent ⟨name, [], []⟩ props
      let nodes ← parseList node children
      return { node with children := nodes }

/-- The children, parsed one after the other. -/
def parseList (parent : Node) : List FdtTree → Except Fault (List Node)
  | [] => return []
  | tree :: trees => do
      let node ← parse (some parent) tree
      let nodes ← parseList parent trees
      return node :: nodes

end

/-- `from_raw` accepts every property, in the node it is in. -/
def Accepted (tree : FdtTree) : Prop := ∃ root, tree.parse none = .ok root

mutual

/-- The tree with its values in aligned memory. -/
def atZero : FdtTree → FdtTree
  | .node name props children => .node name (props.map RawProp.atZero) (atZeroList children)

/-- All trees at address 0. -/
def atZeroList : List FdtTree → List FdtTree
  | [] => []
  | tree :: trees => atZero tree :: atZeroList trees

end

mutual

/-- Every value is read where it stands. -/
def Aligned : FdtTree → Prop
  | .node _ props children => (∀ prop ∈ props, prop.Aligned) ∧ AlignedList children

/-- All trees are aligned. -/
def AlignedList : List FdtTree → Prop
  | [] => True
  | tree :: trees => Aligned tree ∧ AlignedList trees

end

/-- The property has the name of the raw one, and the value that `from_raw` gives it. -/
def SameProp (prop : RawProp) (property : Property) : Prop :=
  property.name = prop.name ∧
    ∃ node parent, PropertyValue.fromRaw prop node parent = .ok property.value

mutual

/-- The node has the name, the properties and the children of the tree, in order. -/
def Same : FdtTree → Node → Prop
  | .node name props children, n =>
      n.name = name ∧ List.Forall₂ SameProp props n.properties ∧ SameList children n.children

/-- Trees and nodes correspond one by one. -/
def SameList : List FdtTree → List Node → Prop
  | [], nodes => nodes = []
  | tree :: trees, nodes =>
      ∃ node nodes', nodes = node :: nodes' ∧ Same tree node ∧ SameList trees nodes'

end

theorem parse_eq (parent : Option Node) (tree : FdtTree) : tree.parse parent = (do
    let node ← parseProps parent ⟨tree.name, [], []⟩ tree.props
    let nodes ← parseList node tree.children
    return { node with children := nodes }) := by
  cases tree with
  | node name ps ts => rw [parse, FdtTree.name, props, children]

theorem atZero_eq (tree : FdtTree) : tree.atZero =
    .node tree.name (tree.props.map RawProp.atZero) (atZeroList tree.children) := by
  cases tree with
  | node name ps ts => rw [atZero, FdtTree.name, props, children]

theorem aligned_iff {tree : FdtTree} :
    tree.Aligned ↔ (∀ prop ∈ tree.props, prop.Aligned) ∧ AlignedList tree.children := by
  cases tree with
  | node name ps ts => rw [Aligned, props, children]

theorem parseProps_eq_ok_iff_atZero {parent : Option Node} {node node' : Node}
    {props : List RawProp} : parseProps parent node props = .ok node' ↔
      (∀ prop ∈ props, prop.Aligned) ∧
        parseProps parent node (props.map RawProp.atZero) = .ok node' := by
  induction props generalizing node with
  | nil => simp [parseProps]
  | cons prop props ih =>
      have hproperty : ∀ property, Property.fromRaw prop node parent = .ok property ↔
          prop.Aligned ∧ Property.fromRaw prop.atZero node parent = .ok property := by
        intro property
        rw [Property.fromRaw_eq_ok, Property.fromRaw_eq_ok,
          PropertyValue.fromRaw_eq_atZero prop]
        by_cases haligned : prop.Aligned
        · simp [haligned, RawProp.atZero]
        · simp [haligned]
      rw [List.map_cons, parseProps, parseProps, List.forall_mem_cons]
      simp only [except_bind_eq_ok, hproperty, ih]
      constructor
      · rintro ⟨property, ⟨haligned, hraw⟩, hprops, hparse⟩
        exact ⟨⟨haligned, hprops⟩, property, hraw, hparse⟩
      · rintro ⟨⟨haligned, hprops⟩, property, hraw, hparse⟩
        exact ⟨property, ⟨haligned, hraw⟩, hprops, hparse⟩

theorem parseList_eq_ok_iff_atZero {trees : List FdtTree} {parent : Node} {nodes : List Node}
    (htrees : ∀ tree ∈ trees, ∀ parent node, tree.parse parent = .ok node ↔
      tree.Aligned ∧ tree.atZero.parse parent = .ok node) :
    parseList parent trees = .ok nodes ↔
      AlignedList trees ∧ parseList parent (atZeroList trees) = .ok nodes := by
  induction trees generalizing nodes with
  | nil => simp [parseList, AlignedList, atZeroList]
  | cons tree trees ih =>
      obtain ⟨htree, htrees⟩ := List.forall_mem_cons.mp htrees
      rw [parseList, atZeroList, parseList, AlignedList]
      simp only [except_bind_eq_ok, htree, ih htrees]
      constructor
      · rintro ⟨node, ⟨haligned, hnode⟩, nodes', ⟨hall, hnodes⟩, hcons⟩
        exact ⟨⟨haligned, hall⟩, node, hnode, nodes', hnodes, hcons⟩
      · rintro ⟨⟨haligned, hall⟩, node, hnode, nodes', hnodes, hcons⟩
        exact ⟨node, ⟨haligned, hnode⟩, nodes', ⟨hall, hnodes⟩, hcons⟩

/-- A tree is parsed where it stands exactly if it is parsed in aligned memory and every value
is read where it stands. -/
theorem parse_eq_ok_iff_atZero (tree : FdtTree) (parent : Option Node) (node : Node) :
    tree.parse parent = .ok node ↔ tree.Aligned ∧ tree.atZero.parse parent = .ok node := by
  induction tree using FdtTree.induction_on generalizing parent node with
  | h tree ih =>
      have hlist : ∀ {parsed : Node} {nodes : List Node}, parseList parsed tree.children = .ok nodes ↔
          AlignedList tree.children ∧ parseList parsed (atZeroList tree.children) = .ok nodes :=
        parseList_eq_ok_iff_atZero ih
      have hprops : ∀ parsed, parseProps parent ⟨tree.name, [], []⟩ tree.props = .ok parsed ↔
          (∀ prop ∈ tree.props, prop.Aligned) ∧
            parseProps parent ⟨tree.name, [], []⟩ (tree.props.map RawProp.atZero) = .ok parsed :=
        fun _ => parseProps_eq_ok_iff_atZero
      rw [atZero_eq, aligned_iff, parse_eq, parse]
      simp only [except_bind_eq_ok, hprops, hlist]
      constructor
      · rintro ⟨parsed, ⟨hprops, hparsed⟩, nodes, ⟨hall, hnodes⟩, hnode⟩
        exact ⟨⟨hprops, hall⟩, parsed, hparsed, nodes, hnodes, hnode⟩
      · rintro ⟨⟨hprops, hall⟩, parsed, hparsed, nodes, hnodes, hnode⟩
        exact ⟨parsed, ⟨hprops, hparsed⟩, nodes, ⟨hall, hnodes⟩, hnode⟩

/-- The properties come behind those that the node has. -/
theorem parseProps_ok {parent : Option Node} {node node' : Node} {props : List RawProp}
    (h : parseProps parent node props = .ok node') :
    node'.name = node.name ∧ node'.children = node.children ∧
      ∃ properties, node'.properties = node.properties ++ properties ∧
        List.Forall₂ SameProp props properties := by
  induction props generalizing node with
  | nil =>
      cases h
      exact ⟨rfl, rfl, [], (List.append_nil _).symm, .nil⟩
  | cons prop props ih =>
      obtain ⟨property, hproperty, h⟩ := except_bind_eq_ok.mp h
      obtain ⟨hname, hchildren, properties, hprops, hsame⟩ := ih h
      obtain ⟨hpname, hpvalue⟩ := Property.fromRaw_eq_ok.mp hproperty
      refine ⟨hname, hchildren, property :: properties, ?_, ?_⟩
      · rw [hprops, List.append_assoc, List.singleton_append]
      · exact .cons ⟨hpname, node, parent, hpvalue⟩ hsame

theorem parseList_same {parent : Node} {trees : List FdtTree} {nodes : List Node}
    (htrees : ∀ tree ∈ trees, ∀ parent node, tree.parse parent = .ok node → tree.Same node)
    (h : parseList parent trees = .ok nodes) : SameList trees nodes := by
  induction trees generalizing nodes with
  | nil =>
      cases h
      rw [SameList]
  | cons tree trees ih =>
      obtain ⟨htree, htrees⟩ := List.forall_mem_cons.mp htrees
      rw [parseList] at h
      obtain ⟨node, hnode, h⟩ := except_bind_eq_ok.mp h
      obtain ⟨nodes', hnodes, h⟩ := except_bind_eq_ok.mp h
      cases h
      rw [SameList]
      exact ⟨node, nodes', rfl, htree _ _ hnode, ih htrees hnodes⟩

theorem parse_same {parent : Option Node} {tree : FdtTree} {node : Node}
    (h : tree.parse parent = .ok node) : tree.Same node := by
  induction tree using FdtTree.induction_on generalizing parent node with
  | h tree ih =>
      rw [parse_eq] at h
      obtain ⟨node', hnode, h⟩ := except_bind_eq_ok.mp h
      obtain ⟨nodes, hnodes, h⟩ := except_bind_eq_ok.mp h
      cases h
      obtain ⟨hname, -, properties, hprops, hsame⟩ := parseProps_ok hnode
      have hchildren := parseList_same (fun tree htree _ _ => ih tree htree) hnodes
      cases tree with
      | node name ps ts =>
          rw [Same]
          refine ⟨hname, ?_, hchildren⟩
          rw [hprops]
          exact hsame

end FdtTree

/-! ## The loop with the stack -/

/-- The node without its children. -/
def Node.leaf (node : Node) : Node := { node with children := [] }

theorem Node.leaf_eq {node : Node} (h : node.children = []) : node.leaf = node := by
  cases node
  rw [Node.leaf, ← h]

/-- `from_raw` looks only at the properties of the parent. -/
theorem Property.fromRaw_leaf (prop : RawProp) (node : Node) (parent : Option Node) :
    Property.fromRaw prop node (parent.map Node.leaf) = Property.fromRaw prop node parent := by
  cases parent with
  | none => rfl
  | some parent => rfl

variable {strings : Cursor} {entries : List (Except Unit StructureBlockEntry)}
  (above : List Node) (phandleMap : List (Nat × List Nat))
  (more : List (Except Unit StructureBlockEntry))

/-- The builder after all entries, or the result of a closed root. -/
abbrev Outcome := Builder ⊕ Option (Node × List (Nat × List Nat))

/-- The loop over the entries, from a stack on. -/
abbrev build (stack : List Node) (phandleMap : List (Nat × List Nat))
    (entries : List (Except Unit StructureBlockEntry)) : Except Fault Outcome :=
  forList Builder.entry ⟨stack, phandleMap⟩ entries

/-- Entries for a sequence of events are entries for its parts. -/
theorem forall₂_append {events events' : List Event}
    (h : List.Forall₂ (Matches strings) entries (events ++ events')) :
    ∃ entries₁ entries₂, entries = entries₁ ++ entries₂ ∧
      List.Forall₂ (Matches strings) entries₁ events ∧
      List.Forall₂ (Matches strings) entries₂ events' :=
  ⟨_, _, (List.take_append_drop events.length entries).symm,
    List.forall₂_take_append _ _ _ h, List.forall₂_drop_append _ _ _ h⟩

theorem build_prop {node : Node} {prop : RawProp} {property : Property}
    (h : Property.fromRaw prop node above.head? = .ok property) :
    ∃ phandleMap', build (node :: above) phandleMap (.ok (.prop prop) :: more) =
      build ({ node with properties := node.properties ++ [property] } :: above)
        phandleMap' more := by
  rw [build, forList, Builder.entry, Builder.prop]
  simp only [h]
  exact ⟨_, rfl⟩

theorem build_props {node node' : Node} {props : List RawProp}
    (hmatches : List.Forall₂ (Matches strings) entries (props.map .prop))
    (h : FdtTree.parseProps (above.head?.map Node.leaf) node props = .ok node') :
    ∃ phandleMap', build (node :: above) phandleMap (entries ++ more) =
      build (node' :: above) phandleMap' more := by
  induction props generalizing node phandleMap entries with
  | nil =>
      cases hmatches
      cases h
      exact ⟨phandleMap, rfl⟩
  | cons prop props ih =>
      cases hmatches with
      | @cons _ _ entries _ hentry hmatches =>
          cases hentry
          obtain ⟨property, hproperty, h⟩ := except_bind_eq_ok.mp h
          rw [Property.fromRaw_leaf] at hproperty
          obtain ⟨phandleMap', hprop⟩ := build_prop above phandleMap (entries ++ more) hproperty
          obtain ⟨phandleMap'', hprops⟩ := ih phandleMap' hmatches h
          exact ⟨phandleMap'', hprop.trans hprops⟩

/-- The loop adds the node of the tree to the node on top of the stack. -/
def Built (strings : Cursor) (tree : FdtTree) : Prop :=
  ∀ (above : List Node) (phandleMap : List (Nat × List Nat))
    (more : List (Except Unit StructureBlockEntry))
    {entries : List (Except Unit StructureBlockEntry)} {parent node : Node},
    List.Forall₂ (Matches strings) entries tree.events →
      tree.parse (some parent.leaf) = .ok node →
        ∃ phandleMap', build (parent :: above) phandleMap (entries ++ more) =
          build ({ parent with children := parent.children ++ [node] } :: above) phandleMap' more

theorem build_list {trees : List FdtTree} {parent : Node} {nodes : List Node}
    (htrees : ∀ tree ∈ trees, Built strings tree)
    (hmatches : List.Forall₂ (Matches strings) entries (FdtTree.eventsList trees))
    (h : FdtTree.parseList parent.leaf trees = .ok nodes) :
    ∃ phandleMap', build (parent :: above) phandleMap (entries ++ more) =
      build ({ parent with children := parent.children ++ nodes } :: above) phandleMap' more := by
  induction trees generalizing parent nodes entries phandleMap with
  | nil =>
      rw [FdtTree.eventsList] at hmatches
      cases hmatches
      cases h
      refine ⟨phandleMap, ?_⟩
      rw [List.append_nil, List.nil_append]
      cases parent
      rfl
  | cons tree trees ih =>
      obtain ⟨htree, htrees⟩ := List.forall_mem_cons.mp htrees
      rw [FdtTree.eventsList] at hmatches
      obtain ⟨entries₁, entries₂, rfl, hmatches₁, hmatches₂⟩ := forall₂_append hmatches
      rw [FdtTree.parseList] at h
      obtain ⟨node, hnode, h⟩ := except_bind_eq_ok.mp h
      obtain ⟨nodes', hnodes, h⟩ := except_bind_eq_ok.mp h
      cases h
      rw [List.append_assoc]
      obtain ⟨phandleMap', hbuild⟩ := htree above phandleMap (entries₂ ++ more) hmatches₁ hnode
      have hleaf : parent.leaf = Node.leaf ⟨parent.name, parent.properties,
          parent.children ++ [node]⟩ := rfl
      rw [hleaf] at hnodes
      obtain ⟨phandleMap'', hbuilds⟩ := ih phandleMap' htrees hmatches₂ hnodes
      refine ⟨phandleMap'', hbuild.trans (hbuilds.trans ?_)⟩
      rw [List.append_assoc, List.singleton_append]

/-- The entries of a tree are those of its properties and of its children, and the loop takes the
begin in front of them. -/
theorem build_events {tree : FdtTree}
    (hmatches : List.Forall₂ (Matches strings) entries tree.events) :
    ∃ propEntries childEntries,
      List.Forall₂ (Matches strings) propEntries (tree.props.map .prop) ∧
      List.Forall₂ (Matches strings) childEntries (FdtTree.eventsList tree.children) ∧
      build above phandleMap (entries ++ more) =
        build (⟨tree.name, [], []⟩ :: above) phandleMap
          (propEntries ++ (childEntries ++ .ok .endNode :: more)) := by
  rw [FdtTree.events_eq, FdtTree.childEvents] at hmatches
  cases hmatches with
  | @cons entry _ entries _ hentry hmatches =>
      cases hentry with
      | @beginNode raw _ hraw =>
          obtain ⟨propEntries, rest, rfl, hprops, hmatches⟩ := forall₂_append hmatches
          obtain ⟨childEntries, last, rfl, htrees, hlast⟩ := forall₂_append hmatches
          obtain rfl : last = [.ok .endNode] := by
            cases hlast with
            | cons hend hnil =>
                cases hend
                cases hnil
                rfl
          refine ⟨propEntries, childEntries, hprops, htrees, ?_⟩
          rw [← hraw.name, List.cons_append, List.append_assoc, List.append_assoc]
          rfl

/-- The loop from the begin of a tree up to its end, which it has still to take. -/
theorem build_begin {tree : FdtTree} {node : Node} (hchildren : ∀ t ∈ tree.children, Built strings t)
    (hmatches : List.Forall₂ (Matches strings) entries tree.events)
    (h : tree.parse (above.head?.map Node.leaf) = .ok node) :
    ∃ phandleMap', build above phandleMap (entries ++ more) =
      build (node :: above) phandleMap' (.ok .endNode :: more) := by
  obtain ⟨propEntries, childEntries, hprops, htrees, hbegin⟩ :=
    build_events above phandleMap more hmatches
  rw [FdtTree.parse_eq] at h
  obtain ⟨parsed, hparsed, h⟩ := except_bind_eq_ok.mp h
  obtain ⟨nodes, hnodes, h⟩ := except_bind_eq_ok.mp h
  cases h
  obtain ⟨-, hnone, -⟩ := FdtTree.parseProps_ok hparsed
  obtain ⟨phandleMap₁, h₁⟩ := build_props above phandleMap
    (childEntries ++ .ok .endNode :: more) hprops hparsed
  rw [← Node.leaf_eq hnone] at hnodes
  obtain ⟨phandleMap₂, h₂⟩ := build_list above phandleMap₁ (.ok .endNode :: more) hchildren htrees
    hnodes
  refine ⟨phandleMap₂, ?_⟩
  calc build above phandleMap (entries ++ more)
      = build (⟨tree.name, [], []⟩ :: above) phandleMap
          (propEntries ++ (childEntries ++ .ok .endNode :: more)) := hbegin
    _ = build (parsed :: above) phandleMap₁ (childEntries ++ .ok .endNode :: more) := h₁
    _ = _ := by
        rw [h₂, hnone]
        rfl

theorem built (strings : Cursor) (tree : FdtTree) : Built strings tree := by
  induction tree using FdtTree.induction_on with
  | h tree ih =>
      intro above phandleMap more entries parent node hmatches h
      obtain ⟨phandleMap', hbuild⟩ := build_begin (parent :: above) phandleMap more ih hmatches h
      exact ⟨phandleMap', hbuild⟩

/-- The loop ends with the root. -/
theorem build_root {tree : FdtTree} {root : Node}
    (hmatches : List.Forall₂ (Matches strings) entries tree.events)
    (h : tree.parse none = .ok root) :
    ∃ phandleMap', build [] phandleMap entries = .ok (.inr (some (root, phandleMap'))) := by
  obtain ⟨phandleMap', hbuild⟩ := build_begin [] phandleMap []
    (fun t _ => built strings t) hmatches h
  refine ⟨phandleMap', ?_⟩
  rw [List.append_nil] at hbuild
  rw [hbuild]
  rfl

/-! ## Properties that `from_raw` does not accept -/

theorem build_props_error {node : Node} {props : List RawProp} {e : Fault}
    (hmatches : List.Forall₂ (Matches strings) entries (props.map .prop))
    (h : FdtTree.parseProps (above.head?.map Node.leaf) node props = .error e) :
    build (node :: above) phandleMap (entries ++ more) = .error e := by
  induction props generalizing node phandleMap entries with
  | nil => cases h
  | cons prop props ih =>
      cases hmatches with
      | @cons _ _ entries _ hentry hmatches =>
          cases hentry
          rw [FdtTree.parseProps] at h
          cases hproperty : Property.fromRaw prop node above.head? with
          | error e' =>
              rw [Property.fromRaw_leaf, hproperty] at h
              cases h
              rw [build, List.cons_append, forList, Builder.entry, Builder.prop]
              simp only [hproperty]
          | ok property =>
              rw [Property.fromRaw_leaf, hproperty, except_ok_bind] at h
              obtain ⟨phandleMap', hprop⟩ := build_prop above phandleMap (entries ++ more) hproperty
              exact hprop.trans (ih phandleMap' hmatches h)

/-- The loop fails on the tree as its parse does. -/
def Fails (strings : Cursor) (tree : FdtTree) : Prop :=
  ∀ (above : List Node) (phandleMap : List (Nat × List Nat))
    (more : List (Except Unit StructureBlockEntry))
    {entries : List (Except Unit StructureBlockEntry)} {parent : Node} {e : Fault},
    List.Forall₂ (Matches strings) entries tree.events →
      tree.parse (some parent.leaf) = .error e →
        build (parent :: above) phandleMap (entries ++ more) = .error e

theorem build_list_error {trees : List FdtTree} {parent : Node} {e : Fault}
    (htrees : ∀ tree ∈ trees, Fails strings tree)
    (hmatches : List.Forall₂ (Matches strings) entries (FdtTree.eventsList trees))
    (h : FdtTree.parseList parent.leaf trees = .error e) :
    build (parent :: above) phandleMap (entries ++ more) = .error e := by
  induction trees generalizing parent entries phandleMap with
  | nil => cases h
  | cons tree trees ih =>
      obtain ⟨htree, htrees⟩ := List.forall_mem_cons.mp htrees
      rw [FdtTree.eventsList] at hmatches
      obtain ⟨entries₁, entries₂, rfl, hmatches₁, hmatches₂⟩ := forall₂_append hmatches
      rw [FdtTree.parseList] at h
      rw [List.append_assoc]
      cases hnode : tree.parse (some parent.leaf) with
      | error e' =>
          rw [hnode] at h
          cases h
          exact htree above phandleMap (entries₂ ++ more) hmatches₁ hnode
      | ok node =>
          rw [hnode, except_ok_bind] at h
          obtain ⟨phandleMap', hbuild⟩ :=
            built strings tree above phandleMap (entries₂ ++ more) hmatches₁ hnode
          apply hbuild.trans
          apply ih phandleMap' htrees hmatches₂
          cases hnodes : FdtTree.parseList parent.leaf trees with
          | error e' =>
              rw [hnodes] at h
              exact hnodes.trans h
          | ok nodes =>
              rw [hnodes] at h
              cases h

theorem build_begin_error {tree : FdtTree} {e : Fault}
    (hchildren : ∀ t ∈ tree.children, Fails strings t)
    (hmatches : List.Forall₂ (Matches strings) entries tree.events)
    (h : tree.parse (above.head?.map Node.leaf) = .error e) :
    build above phandleMap (entries ++ more) = .error e := by
  obtain ⟨propEntries, childEntries, hprops, htrees, hbegin⟩ :=
    build_events above phandleMap more hmatches
  rw [hbegin]
  rw [FdtTree.parse_eq] at h
  cases hparsed : FdtTree.parseProps (above.head?.map Node.leaf) ⟨tree.name, [], []⟩ tree.props with
  | error e' =>
      rw [hparsed] at h
      cases h
      exact build_props_error above phandleMap _ hprops hparsed
  | ok parsed =>
      rw [hparsed, except_ok_bind] at h
      obtain ⟨phandleMap', hbuild⟩ := build_props above phandleMap
        (childEntries ++ .ok .endNode :: more) hprops hparsed
      rw [hbuild]
      obtain ⟨-, hnone, -⟩ := FdtTree.parseProps_ok hparsed
      apply build_list_error above phandleMap' (.ok .endNode :: more) hchildren htrees
      rw [Node.leaf_eq hnone]
      cases hnodes : FdtTree.parseList parsed tree.children with
      | error e' =>
          rw [hnodes] at h
          cases h
          rfl
      | ok nodes =>
          rw [hnodes] at h
          cases h

theorem fails (strings : Cursor) (tree : FdtTree) : Fails strings tree := by
  induction tree using FdtTree.induction_on with
  | h tree ih =>
      intro above phandleMap more entries parent e hmatches h
      exact build_begin_error (parent :: above) phandleMap more ih hmatches h

/-- The loop fails when the tree is not accepted. -/
theorem build_root_error {tree : FdtTree} {e : Fault}
    (hmatches : List.Forall₂ (Matches strings) entries tree.events)
    (h : tree.parse none = .error e) : build [] phandleMap entries = .error e := by
  have hbuild := build_begin_error [] phandleMap [] (fun t _ => fails strings t) hmatches h
  rw [List.append_nil] at hbuild
  exact hbuild

end Kruspix.Kernel.Devicetree
