import Kruspix.Kernel.Devicetree.NodeProps

/-!
# The properties of a parsed node

A node has the first property of a name in the value that `from_raw` gave it, when the
properties ahead of it were parsed and those behind it were not.
-/

namespace Kruspix.Kernel.Devicetree

open Lib.Bytes Lib.Result

/-- The name of a standard property. -/
def Fdt.StandardProperty.asStr : Fdt.StandardProperty → String
  | .compatible => "compatible"
  | .model => "model"
  | .phandle => "phandle"
  | .status => "status"
  | .addressCells => "#address-cells"
  | .sizeCells => "#size-cells"
  | .reg => "reg"
  | .virtualReg => "virtual-reg"
  | .ranges => "ranges"
  | .dmaRanges => "dma-ranges"
  | .dmaCoherent => "dma-coherent"
  | .dmaNoncoherent => "dma-noncoherent"

theorem Fdt.StandardProperty.tryFrom_eq_some {name : String} {kind : Fdt.StandardProperty} :
    tryFrom name = some kind ↔ name = kind.asStr := by
  constructor
  · intro h
    unfold tryFrom at h
    split at h <;> cases h <;> rfl
  · rintro rfl
    cases kind <;> rfl

namespace FdtTree

variable {tree : FdtTree} {parent : Option Node} {node node' : Node} {name : String}
  {props before after : List RawProp} {prop : RawProp}

theorem parseProps_append (parent : Option Node) (node : Node) (props props' : List RawProp) :
    parseProps parent node (props ++ props') =
      (parseProps parent node props >>= fun node => parseProps parent node props') := by
  induction props generalizing node with
  | nil => rfl
  | cons prop props ih =>
      rw [List.cons_append, parseProps, parseProps, bind_assoc]
      simp only [ih]

/-- Properties of other names do not change what is found. -/
theorem property?_of_forall_ne (h : parseProps parent node props = .ok node')
    (hname : ∀ p ∈ props, p.name ≠ name) : node'.property? name = node.property? name := by
  induction props generalizing node with
  | nil =>
      cases h
      rfl
  | cons prop props ih =>
      obtain ⟨hprop, hprops⟩ := List.forall_mem_cons.mp hname
      rw [parseProps] at h
      obtain ⟨property, hproperty, h⟩ := except_bind_eq_ok.mp h
      rw [ih h hprops]
      have hne : (property.name == name) = false := by
        rw [(Property.fromRaw_eq_ok.mp hproperty).1]
        exact beq_false_of_ne hprop
      simp only [Node.property?, List.find?_append, List.find?_singleton, hne,
        Bool.false_eq_true, if_false, Option.or_none]

/-- A property that is found stays found. -/
theorem property?_of_eq_some {value : PropertyValue} (h : parseProps parent node props = .ok node')
    (hvalue : node.property? name = some value) : node'.property? name = some value := by
  induction props generalizing node with
  | nil =>
      cases h
      exact hvalue
  | cons prop props ih =>
      rw [parseProps] at h
      obtain ⟨property, hproperty, h⟩ := except_bind_eq_ok.mp h
      apply ih h
      rw [Node.property?, Option.map_eq_some_iff] at hvalue ⊢
      obtain ⟨found, hfound, hvalue⟩ := hvalue
      exact ⟨found, by rw [List.find?_append, hfound, Option.some_or], hvalue⟩

/-- The first property of a name is the one that is found. -/
theorem property?_of_append (h : parseProps parent node (before ++ prop :: after) = .ok node')
    (hnode : node.property? prop.name = none) (hbefore : ∀ p ∈ before, p.name ≠ prop.name) :
    ∃ node₁ value, parseProps parent node before = .ok node₁ ∧
      parseProps parent node₁ (prop :: after) = .ok node' ∧
        PropertyValue.fromRaw prop node₁ parent = .ok value ∧
          node'.property? prop.name = some value := by
  rw [parseProps_append] at h
  obtain ⟨node₁, hnode₁, hrest⟩ := except_bind_eq_ok.mp h
  have h := hrest
  rw [parseProps] at h
  obtain ⟨property, hproperty, h⟩ := except_bind_eq_ok.mp h
  obtain ⟨hname, hvalue⟩ := Property.fromRaw_eq_ok.mp hproperty
  refine ⟨node₁, property.value, hnode₁, hrest, hvalue, property?_of_eq_some h ?_⟩
  have hnone := (property?_of_forall_ne hnode₁ hbefore).trans hnode
  rw [Node.property?, Option.map_eq_none_iff] at hnone
  simp only [Node.property?, List.find?_append, hnone, Option.none_or, List.find?_singleton, hname,
    beq_self_eq_true, if_true, Option.map_some]

/-- A node has the properties of its tree. -/
theorem parse_props (h : tree.parse parent = .ok node) :
    ∃ parsed, parseProps parent ⟨tree.name, [], []⟩ tree.props = .ok parsed ∧
      parsed.properties = node.properties := by
  rw [parse_eq] at h
  obtain ⟨parsed, hparsed, h⟩ := except_bind_eq_ok.mp h
  obtain ⟨nodes, -, h⟩ := except_bind_eq_ok.mp h
  cases h
  exact ⟨parsed, hparsed, rfl⟩

theorem standardProp_eq_none {kind : Fdt.StandardProperty} (h : tree.parse parent = .ok node)
    (hkind : tree.standardProp kind = none) : node.property? kind.asStr = none := by
  obtain ⟨parsed, hparsed, hprops⟩ := parse_props h
  have hname : ∀ p ∈ tree.props, p.name ≠ kind.asStr := by
    intro p hp heq
    have htest := List.find?_eq_none.mp hkind p hp
    rw [Fdt.StandardProperty.tryFrom_eq_some.mpr heq] at htest
    exact htest (beq_self_eq_true _)
  have hfound := property?_of_forall_ne hparsed hname
  rw [Node.property?, ← hprops]
  exact hfound

/-- The first standard property of a kind, and the node when it was parsed. -/
theorem standardProp_eq_some {kind : Fdt.StandardProperty} (h : tree.parse parent = .ok node)
    (hkind : tree.standardProp kind = some prop) :
    prop.name = kind.asStr ∧ ∃ before after node₁ parsed value,
      tree.props = before ++ prop :: after ∧
        parseProps parent node₁ (prop :: after) = .ok parsed ∧
          parsed.properties = node.properties ∧
            PropertyValue.fromRaw prop node₁ parent = .ok value ∧
              node.property? kind.asStr = some value := by
  obtain ⟨parsed, hparsed, hprops⟩ := parse_props h
  obtain ⟨htest, before, after, hsplit, hbefore⟩ := List.find?_eq_some_iff_append.mp hkind
  have hname := Fdt.StandardProperty.tryFrom_eq_some.mp (beq_iff_eq.mp htest)
  have hne : ∀ p ∈ before, p.name ≠ prop.name := by
    intro p hp heq
    have hp := hbefore p hp
    rw [heq, beq_iff_eq.mp htest, beq_self_eq_true] at hp
    cases hp
  rw [hsplit] at hparsed
  obtain ⟨node₁, value, -, hrest, hvalue, hfound⟩ := property?_of_append hparsed rfl hne
  refine ⟨hname, before, after, node₁, parsed, value, hsplit, hrest, hprops, hvalue, ?_⟩
  rw [← hname, Node.property?, ← hprops]
  exact hfound

/-! ## Cells -/

theorem cells_addressCells (h : tree.parse parent = .ok node) :
    tree.cells .addressCells 2 = .ok node.addressCells := by
  rw [cells, Node.addressCells]
  cases hkind : tree.standardProp .addressCells with
  | none =>
      have hnone := standardProp_eq_none h hkind
      rw [Fdt.StandardProperty.asStr] at hnone
      rw [hnone]
  | some prop =>
      obtain ⟨hname, _, _, _, _, _, -, -, -, hvalue, hfound⟩ := standardProp_eq_some h hkind
      rw [Fdt.StandardProperty.asStr] at hname hfound
      rw [PropertyValue.fromRaw, hname] at hvalue
      obtain ⟨number, hnumber, hvalue⟩ := except_bind_eq_ok.mp hvalue
      cases hvalue
      rw [hfound]
      exact hnumber

theorem cells_sizeCells (h : tree.parse parent = .ok node) :
    tree.cells .sizeCells 1 = .ok node.sizeCells := by
  rw [cells, Node.sizeCells]
  cases hkind : tree.standardProp .sizeCells with
  | none =>
      have hnone := standardProp_eq_none h hkind
      rw [Fdt.StandardProperty.asStr] at hnone
      rw [hnone]
  | some prop =>
      obtain ⟨hname, _, _, _, _, _, -, -, -, hvalue, hfound⟩ := standardProp_eq_some h hkind
      rw [Fdt.StandardProperty.asStr] at hname hfound
      rw [PropertyValue.fromRaw, hname] at hvalue
      obtain ⟨number, hnumber, hvalue⟩ := except_bind_eq_ok.mp hvalue
      cases hvalue
      rw [hfound]
      exact hnumber

/-- No cells come behind `ranges`. -/
def CellsFirst (tree : FdtTree) : Prop :=
  ∀ before prop after, tree.props = before ++ prop :: after → prop.name = "ranges" →
    ∀ p ∈ after, p.name ≠ "#address-cells" ∧ p.name ≠ "#size-cells"

/-- Where the cells come first, `ranges` is cut by the cells of the node. -/
theorem ranges_eq_some (h : tree.parse parent = .ok node) (hfirst : tree.CellsFirst)
    (hkind : tree.standardProp .ranges = some prop) :
    ∃ chunks, chunksOf (node.addressCells + (parent.getD node).addressCells + node.sizeCells)
        prop.value = .ok chunks ∧
      node.ranges = some (chunks.map
        (RangesItemValue.fromChunk node.addressCells (parent.getD node).addressCells)) := by
  obtain ⟨hname, before, after, node₁, parsed, value, hsplit, hrest, hprops, hvalue, hfound⟩ :=
    standardProp_eq_some h hkind
  have hnone := hfirst before prop after hsplit hname
  have haddress : node₁.addressCells = node.addressCells := by
    have hsame := property?_of_forall_ne hrest (List.forall_mem_cons.mpr
      ⟨by rw [hname]; decide, fun p hp => (hnone p hp).1⟩)
    rw [Node.property?, hprops] at hsame
    rw [Node.addressCells, ← hsame]
    rfl
  have hsize : node₁.sizeCells = node.sizeCells := by
    have hsame := property?_of_forall_ne hrest (List.forall_mem_cons.mpr
      ⟨by rw [hname]; decide, fun p hp => (hnone p hp).2⟩)
    rw [Node.property?, hprops] at hsame
    rw [Node.sizeCells, ← hsame]
    rfl
  have hupper : (parent.getD node₁).addressCells = (parent.getD node).addressCells := by
    cases parent with
    | none => exact haddress
    | some upper => rfl
  rw [Fdt.StandardProperty.asStr] at hname hfound
  rw [PropertyValue.fromRaw, hname] at hvalue
  obtain ⟨chunks, hchunks, hvalue⟩ := except_bind_eq_ok.mp hvalue
  cases hvalue
  rw [haddress, hsize, hupper] at hchunks
  refine ⟨chunks, hchunks, ?_⟩
  rw [Node.ranges, hfound, haddress, hupper]

end FdtTree

end Kruspix.Kernel.Devicetree
