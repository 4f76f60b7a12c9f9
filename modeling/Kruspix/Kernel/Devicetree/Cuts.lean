import Kruspix.Kernel.Devicetree.Decodable

/-!
# How addresses are cut

`reg`, `ranges` and `dma-ranges` are cut into entries by the cells that are known where they
stand. The same bytes give the same entries under other cells only when they are too
short for an entry.
-/

namespace Kruspix.Kernel.Devicetree

open Lib.Bytes Lib.Result

/-! ## The value of a property where it stands -/

/-- A node that knows its cells, and nothing else. -/
def Node.ofCells (addressCells sizeCells : Nat) : Node :=
  ⟨"", [⟨"#address-cells", .standard (.addressCells addressCells), rfl⟩,
    ⟨"#size-cells", .standard (.sizeCells sizeCells), rfl⟩], []⟩

theorem PropertyValue.fromRaw_congr (prop : RawProp) {node node' : Node}
    {parent parent' : Option Node} (haddress : node.addressCells = node'.addressCells)
    (hsize : node.sizeCells = node'.sizeCells)
    (hupperAddress : (parent.getD node).addressCells = (parent'.getD node').addressCells)
    (hupperSize : (parent.getD node).sizeCells = (parent'.getD node').sizeCells) :
    PropertyValue.fromRaw prop node parent = PropertyValue.fromRaw prop node' parent' := by
  simp only [PropertyValue.fromRaw, haddress, hsize, hupperAddress, hupperSize]

namespace RawProp

/-- The value of a property behind the properties `own` of its node, below a parent with the
properties `upper`. -/
def decode (prop : RawProp) (own upper : List RawProp) : Except Fault PropertyValue :=
  PropertyValue.fromRaw prop (.ofCells (addressCellsOf own) (sizeCellsOf own))
    (some (.ofCells (addressCellsOf upper) (sizeCellsOf upper)))

end RawProp

theorem PropertyValue.fromRaw_eq_decode (prop : RawProp) {node : Node} {parent : Option Node}
    {own upper : List RawProp} (hown : node.HasParsed own)
    (hupper : (parent.getD node).HasParsed upper) :
    PropertyValue.fromRaw prop node parent = prop.decode own upper :=
  fromRaw_congr prop hown.addressCells hown.sizeCells hupper.addressCells hupper.sizeCells

/-! ## Entries -/

/-- The cells of the parts of an entry. -/
structure Cells where
  first : Nat
  second : Nat
  third : Nat
  deriving DecidableEq

/-- The bytes of an entry. -/
def Cells.bytes (cells : Cells) : Nat := (cells.first + cells.second + cells.third) * 4

theorem chunksOf_cells (cells : Cells) (value : List UInt8) :
    chunksOf (cells.first + cells.second + cells.third) value =
      if cells.bytes = 0 then .error .zeroChunk else .ok (chunksExact cells.bytes value) := rfl

theorem Cells.eq_zero {cells : Cells} (h : cells.bytes = 0) : cells = ⟨0, 0, 0⟩ := by
  obtain ⟨first, second, third⟩ := cells
  simp only [Cells.bytes] at h
  simp only [Cells.mk.injEq]
  omega

/-- The entries that are made by these cells know them. -/
def Measures {α : Type} (mk : Cells → List UInt8 → α) (measure : α → Cells) (cells : Cells) :
    Prop :=
  ∀ chunk, chunk.length = cells.bytes → measure (mk cells chunk) = cells

/-- The entries of a value under two cuts are the same, if the entries know their cells,
exactly when the cuts are or the value is too short for both. -/
theorem chunksExact_map_eq_iff {α : Type} {mk : Cells → List UInt8 → α} {measure : α → Cells}
    {cells cells' : Cells} (hmk : Measures mk measure cells) (hmk' : Measures mk measure cells')
    (hpos : cells.bytes ≠ 0) (hpos' : cells'.bytes ≠ 0) (value : List UInt8) :
    (chunksExact cells.bytes value).map (mk cells) =
      (chunksExact cells'.bytes value).map (mk cells') ↔
        cells = cells' ∨ value.length < cells.bytes ∧ value.length < cells'.bytes := by
  constructor
  · intro h
    by_cases hend : cells.bytes = 0 ∨ value.length < cells.bytes
    · rw [chunksExact_eq_nil hend, List.map_nil, eq_comm, List.map_eq_nil_iff] at h
      by_cases hend' : cells'.bytes = 0 ∨ value.length < cells'.bytes
      · exact Or.inr ⟨hend.resolve_left hpos, hend'.resolve_left hpos'⟩
      · rw [chunksExact_eq_cons hend'] at h
        cases h
    · rw [chunksExact_eq_cons hend, List.map_cons] at h
      by_cases hend' : cells'.bytes = 0 ∨ value.length < cells'.bytes
      · rw [chunksExact_eq_nil hend'] at h
        cases h
      · rw [chunksExact_eq_cons hend', List.map_cons] at h
        have hhead := congrArg measure (List.cons.inj h).1
        rw [hmk _ (List.length_take_of_le (by omega)),
          hmk' _ (List.length_take_of_le (by omega))] at hhead
        exact Or.inl hhead
  · rintro (rfl | ⟨hshort, hshort'⟩)
    · rfl
    · rw [chunksExact_eq_nil (Or.inr hshort), chunksExact_eq_nil (Or.inr hshort')]
      rfl

/-- The same for the property with these entries, which no cells make a panic. -/
theorem chunks_eq_iff {α : Type} {mk : Cells → List UInt8 → α} {measure : α → Cells}
    {cells cells' : Cells} (hmk : Measures mk measure cells) (hmk' : Measures mk measure cells')
    {wrap : List α → PropertyValue} (hwrap : Function.Injective wrap) (value : List UInt8) :
    ((do
      let chunks ← chunksOf (cells.first + cells.second + cells.third) value
      return wrap (chunks.map (mk cells)) : Except Fault PropertyValue) = do
      let chunks ← chunksOf (cells'.first + cells'.second + cells'.third) value
      return wrap (chunks.map (mk cells'))) ↔
      cells = cells' ∨ value.length < cells.bytes ∧ value.length < cells'.bytes := by
  rw [chunksOf_cells, chunksOf_cells]
  by_cases hpos : cells.bytes = 0
  · rw [if_pos hpos]
    by_cases hpos' : cells'.bytes = 0
    · rw [if_pos hpos']
      exact iff_of_true rfl (Or.inl ((Cells.eq_zero hpos).trans (Cells.eq_zero hpos').symm))
    · rw [if_neg hpos']
      apply iff_of_false
      · intro h
        cases h
      · rintro (rfl | ⟨hshort, -⟩)
        · exact hpos' hpos
        · omega
  · rw [if_neg hpos]
    by_cases hpos' : cells'.bytes = 0
    · rw [if_pos hpos']
      apply iff_of_false
      · intro h
        cases h
      · rintro (rfl | ⟨-, hshort⟩)
        · exact hpos hpos'
        · omega
    · rw [if_neg hpos', except_ok_bind, except_ok_bind, ← chunksExact_map_eq_iff hmk hmk' hpos hpos']
      simp only [except_pure, Except.ok.injEq]
      exact hwrap.eq_iff

theorem length_beWords_take {bs : List UInt8} {k : Nat} (h : k * 4 ≤ bs.length) :
    (beWords (bs.take (k * 4))).length = k := by
  rw [length_beWords, List.length_take, Nat.min_eq_left h, Nat.mul_div_cancel k (by decide)]

theorem RegItemValue.measures (first second : Nat) :
    Measures (fun cells => fromChunk cells.first)
      (fun item => ⟨item.address.length, item.length.length, 0⟩) ⟨first, second, 0⟩ := by
  intro chunk h
  simp only [Cells.bytes] at h
  have hfirst : (fromChunk first chunk).address.length = first := length_beWords_take (by omega)
  have hsecond : (fromChunk first chunk).length.length = second := by
    rw [fromChunk, length_beWords, List.length_drop]
    omega
  simp only [hfirst, hsecond]

/-- The parts of an entry of `ranges` or of `dma-ranges`. -/
theorem length_parts {cells : Cells} {chunk : List UInt8} (h : chunk.length = cells.bytes) :
    (beWords (chunk.take (cells.first * 4))).length = cells.first ∧
      (beWords ((chunk.drop (cells.first * 4)).take (cells.second * 4))).length = cells.second ∧
        (beWords ((chunk.drop (cells.first * 4)).drop (cells.second * 4))).length =
          cells.third := by
  rw [Cells.bytes] at h
  have hrest : (chunk.drop (cells.first * 4)).length = (cells.second + cells.third) * 4 := by
    rw [List.length_drop]
    omega
  refine ⟨length_beWords_take (by omega), length_beWords_take (by omega), ?_⟩
  rw [length_beWords, List.length_drop, hrest]
  omega

theorem RangesItemValue.measures (cells : Cells) :
    Measures (fun cells => fromChunk cells.first cells.second)
      (fun item => ⟨item.childBusAddr.length, item.parentBusAddr.length, item.length.length⟩)
      cells := by
  intro chunk h
  obtain ⟨hfirst, hsecond, hthird⟩ := length_parts h
  simp only [fromChunk, hfirst, hsecond, hthird]

theorem DmaRangesItemValue.measures (cells : Cells) :
    Measures (fun cells => fromChunk cells.first cells.second)
      (fun item => ⟨item.childBusAddr.length, item.parentBusAddr.length, item.length.length⟩)
      cells := by
  intro chunk h
  obtain ⟨hfirst, hsecond, hthird⟩ := length_parts h
  simp only [fromChunk, hfirst, hsecond, hthird]

namespace RawProp

/-- The cells by which an address property is cut. -/
def cells (prop : RawProp) (own upper : List RawProp) : Cells :=
  match prop.name with
  | "reg" => ⟨addressCellsOf upper, sizeCellsOf upper, 0⟩
  | "ranges" | "dma-ranges" => ⟨addressCellsOf own, addressCellsOf upper, sizeCellsOf own⟩
  | _ => ⟨0, 0, 0⟩

/-- The property is cut in the same way in two places, or it is too short for an entry. -/
def SameCut (prop : RawProp) (own upper own' upper' : List RawProp) : Prop :=
  prop.cells own upper = prop.cells own' upper' ∨
    prop.value.length < (prop.cells own upper).bytes ∧
      prop.value.length < (prop.cells own' upper').bytes

variable {prop : RawProp} {own upper own' upper' : List RawProp}

theorem decode_reg_eq_iff (hname : prop.name = "reg") :
    prop.decode own upper = prop.decode own' upper' ↔ prop.SameCut own upper own' upper' := by
  have hwrap : Function.Injective fun items => PropertyValue.standard (.reg items) := by
    intro items items' h
    cases h
    rfl
  have hiff := chunks_eq_iff (RegItemValue.measures (addressCellsOf upper) (sizeCellsOf upper))
    (RegItemValue.measures (addressCellsOf upper') (sizeCellsOf upper')) hwrap prop.value
  simp only [decode, SameCut, cells, PropertyValue.fromRaw, hname]
  exact hiff

theorem decode_ranges_eq_iff (hname : prop.name = "ranges") :
    prop.decode own upper = prop.decode own' upper' ↔ prop.SameCut own upper own' upper' := by
  have hwrap : Function.Injective fun items => PropertyValue.standard (.ranges items) := by
    intro items items' h
    cases h
    rfl
  have hiff := chunks_eq_iff
    (RangesItemValue.measures ⟨addressCellsOf own, addressCellsOf upper, sizeCellsOf own⟩)
    (RangesItemValue.measures ⟨addressCellsOf own', addressCellsOf upper', sizeCellsOf own'⟩)
    hwrap prop.value
  simp only [decode, SameCut, cells, PropertyValue.fromRaw, hname]
  exact hiff

theorem decode_dmaRanges_eq_iff (hname : prop.name = "dma-ranges") :
    prop.decode own upper = prop.decode own' upper' ↔ prop.SameCut own upper own' upper' := by
  have hwrap : Function.Injective fun items => PropertyValue.standard (.dmaRanges items) := by
    intro items items' h
    cases h
    rfl
  have hiff := chunks_eq_iff
    (DmaRangesItemValue.measures ⟨addressCellsOf own, addressCellsOf upper, sizeCellsOf own⟩)
    (DmaRangesItemValue.measures ⟨addressCellsOf own', addressCellsOf upper', sizeCellsOf own'⟩)
    hwrap prop.value
  simp only [decode, SameCut, cells, PropertyValue.fromRaw, hname]
  exact hiff

/-- A property has the same value under other cells exactly when it is cut in the same way. -/
theorem decode_eq_iff (prop : RawProp) (own upper own' upper' : List RawProp) :
    prop.decode own upper = prop.decode own' upper' ↔ prop.SameCut own upper own' upper' := by
  by_cases hreg : prop.name = "reg"
  · exact decode_reg_eq_iff hreg
  · by_cases hranges : prop.name = "ranges"
    · exact decode_ranges_eq_iff hranges
    · by_cases hdma : prop.name = "dma-ranges"
      · exact decode_dmaRanges_eq_iff hdma
      · apply iff_of_true
        · simp only [decode, PropertyValue.fromRaw]
          split <;> first | rfl | contradiction
        · exact Or.inl (by simp only [cells])

/-- The property is cut in the same way at its two places, and is aligned at both or at
neither. -/
def SameRead (prop prop' : RawProp) (own upper own' upper' : List RawProp) : Prop :=
  prop.SameCut own upper own' upper' ∧ (prop.Aligned ↔ prop'.Aligned)

theorem decode_eq_atZero (prop : RawProp) (own upper : List RawProp) : prop.decode own upper =
    if prop.Aligned then prop.atZero.decode own upper else .error .misaligned :=
  PropertyValue.fromRaw_eq_atZero prop _ _

/-- A frequency of two words is read where it is aligned. -/
theorem decode_atZero_ne (h : ¬ prop.Aligned) :
    prop.atZero.decode own upper ≠ .error .misaligned := by
  simp only [Aligned, Classical.not_imp] at h
  obtain ⟨hname, hlength, -⟩ := h
  have hclock : prop.atZero.value.length = 4 ∨
      prop.atZero.value.length = 8 ∧ 8 ∣ prop.atZero.addr := Or.inr ⟨hlength, Nat.dvd_zero 8⟩
  obtain ⟨value, hvalue⟩ := (clockFrequency_isOk (f := fun frequency =>
    PropertyValue.miscellaneous (.clockFrequency frequency))).mpr hclock
  have hatZero : prop.atZero.name = "clock-frequency" := hname
  have hdecode : prop.atZero.decode own upper = .ok value := by
    rw [decode, PropertyValue.fromRaw, hatZero]
    exact hvalue
  rw [hdecode]
  intro heq
  cases heq

/-- A property has the same value at two places exactly when it is read in the same way. -/
theorem decode_eq_decode_iff {prop' : RawProp} (h : prop.atZero = prop'.atZero) :
    prop.decode own upper = prop'.decode own' upper' ↔
      prop.SameRead prop' own upper own' upper' := by
  rw [decode_eq_atZero prop, decode_eq_atZero prop', ← h, SameRead]
  by_cases haligned : prop.Aligned
  · by_cases haligned' : prop'.Aligned
    · rw [if_pos haligned, if_pos haligned', decode_eq_iff]
      exact (and_iff_left (iff_of_true haligned haligned')).symm
    · have hne : prop.atZero.decode own upper ≠ .error .misaligned :=
        h ▸ decode_atZero_ne haligned'
      rw [if_pos haligned, if_neg haligned']
      exact iff_of_false hne fun hread => haligned' (hread.2.mp haligned)
  · by_cases haligned' : prop'.Aligned
    · have hne : prop.atZero.decode own' upper' ≠ .error .misaligned :=
        decode_atZero_ne haligned
      rw [if_neg haligned, if_pos haligned']
      exact iff_of_false (fun heq => hne heq.symm) fun hread => haligned (hread.2.mpr haligned')
    · rw [if_neg haligned, if_neg haligned']
      refine iff_of_true rfl ⟨Or.inl ?_, iff_of_false haligned haligned'⟩
      simp only [Aligned, Classical.not_imp] at haligned
      rw [cells, cells, haligned.1]
      rfl

end RawProp

end Kruspix.Kernel.Devicetree
