import Kruspix.Kernel.Devicetree.ParsedNode
import Kruspix.Lib.Search

/-!
# Properties that can be decoded

What `from_raw` makes of a property depends on its bytes and, for addresses, on the cells
that the node and its parent have so far. It fails on strings that are not terminated, on
words of another size, on double words that are not aligned, on an unknown status and on
entries without cells.
-/

namespace Kruspix.Kernel.Devicetree

open Lib.Bytes Lib.Result Lib.Search

/-! ## Values -/

namespace RawProp

variable (prop : RawProp)

/-- The value is a string, terminated by a zero byte. -/
def IsString (s : String) : Prop := prop.value = strBytes s ++ [0] ∧ 0 ∉ strBytes s

/-- The value is a word. -/
def IsWord : Prop := prop.value.length = 4

instance : Decidable prop.IsWord := inferInstanceAs (Decidable (_ = _))

variable {prop}

theorem valueAsString_eq_some {s : String} : prop.valueAsString = some s ↔ prop.IsString s := by
  rw [valueAsString, cStrWithNul?, IsString]
  constructor
  · intro h
    split at h
    · cases h
    · obtain ⟨bs, hbs, hs⟩ := Option.bind_eq_some_iff.mp h
      rw [Option.ite_none_right_eq_some] at hbs
      obtain ⟨⟨hlast, hnul⟩, hbs⟩ := hbs
      cases hbs
      rw [str?_eq_some] at hs
      rw [← hs]
      exact ⟨(List.dropLast_append_getLast? 0 hlast).symm, hnul⟩
  · rintro ⟨hvalue, hnul⟩
    rw [if_neg (by simp [hvalue]), hvalue, if_pos (by simpa using hnul), Option.bind_some,
      List.dropLast_concat, str?_strBytes]

theorem valueAsU32_isSome : prop.valueAsU32 ≠ none ↔ prop.IsWord := by
  rw [valueAsU32, IsWord]
  split <;> simp <;> omega

/-- The number of cells that the properties give under a name. -/
def cellsOf (name : String) (default : Nat) (props : List RawProp) : Nat :=
  match props.find? fun p => p.name == name with
  | none => default
  | some p => p.valueAsU32.getD default

/-- `#address-cells` among properties, by default 2. -/
def addressCellsOf : List RawProp → Nat := cellsOf "#address-cells" 2

/-- `#size-cells` among properties, by default 1. -/
def sizeCellsOf : List RawProp → Nat := cellsOf "#size-cells" 1

/-- The property can be decoded behind the properties `own` of its node, below a parent
with the properties `upper`. -/
def Decodable (prop : RawProp) (own upper : List RawProp) : Prop :=
  match prop.name with
  | "model" | "bootargs" | "stdout-path" | "stdin-path" => ∃ s, prop.IsString s
  | "status" => ∃ s, prop.IsString s ∧
      (s = "okay" ∨ s = "disabled" ∨ s = "reserved" ∨ "fail".toList <+: s.toList)
  | "phandle" | "#address-cells" | "#size-cells" | "virtual-reg" | "interrupt-parent"
  | "#interrupt-cells" | "#clock-cells" => prop.IsWord
  | "clock-frequency" => prop.value.length = 4 ∨ prop.value.length = 8 ∧ 8 ∣ prop.addr
  | "reg" => 0 < addressCellsOf upper + sizeCellsOf upper
  | "ranges" | "dma-ranges" =>
      0 < addressCellsOf own + addressCellsOf upper + sizeCellsOf own
  | _ => True

end RawProp

/-! ## Nodes -/

/-- The node has parsed the properties. -/
def Node.HasParsed (node : Node) (props : List RawProp) : Prop :=
  List.Forall₂ FdtTree.SameProp props node.properties

namespace Node.HasParsed

variable {node : Node} {props : List RawProp}

/-- The first property of a name that stands for a word gives its number. -/
theorem property?_word (h : node.HasParsed props) (name : String) (default : Nat)
    (mk : Nat → PropertyValue) (hraw : ∀ prop node parent, prop.name = name → PropertyValue.fromRaw prop node parent =
      (do let n ← unwrap prop.valueAsU32; return mk n)) :
    node.property? name = none ∧ RawProp.cellsOf name default props = default ∨
      ∃ n, node.property? name = some (mk n) ∧ RawProp.cellsOf name default props = n := by
  have hrel : Option.Rel FdtTree.SameProp (props.find? fun p => p.name == name)
      (node.properties.find? fun p => p.name == name) :=
    find?_rel h fun p property hp => by rw [hp.1]
  rw [Node.property?, RawProp.cellsOf]
  generalize node.properties.find? (fun p => p.name == name) = found at hrel ⊢
  cases hfind : props.find? fun p => p.name == name with
  | none =>
      rw [hfind] at hrel
      cases hrel
      exact Or.inl ⟨rfl, rfl⟩
  | some prop =>
      have htest : (prop.name == name) = true := by
        have hsome := List.find?_some hfind
        exact hsome
      rw [hfind] at hrel
      cases hrel with
      | some hsame =>
          obtain ⟨-, node', parent, hvalue⟩ := hsame
          rw [hraw _ _ _ (beq_iff_eq.mp htest)] at hvalue
          obtain ⟨n, hn, hvalue⟩ := except_bind_eq_ok.mp hvalue
          cases hword : prop.valueAsU32 with
          | none =>
              rw [hword] at hn
              cases hn
          | some word =>
              rw [hword] at hn
              cases hn
              refine Or.inr ⟨n, ?_, ?_⟩
              · rw [Option.map_some, ← Except.ok.inj hvalue]
              · simp only [hword, Option.getD_some]

theorem addressCells (h : node.HasParsed props) :
    node.addressCells = RawProp.addressCellsOf props := by
  rcases h.property?_word "#address-cells" 2 (fun n => .standard (.addressCells n))
    (fun prop _ _ hname => by rw [PropertyValue.fromRaw, hname]; rfl) with
    ⟨hnone, hcells⟩ | ⟨n, hsome, hcells⟩
  · rw [Node.addressCells, hnone, RawProp.addressCellsOf, hcells]
  · rw [Node.addressCells, hsome, RawProp.addressCellsOf, hcells]

theorem sizeCells (h : node.HasParsed props) : node.sizeCells = RawProp.sizeCellsOf props := by
  rcases h.property?_word "#size-cells" 1 (fun n => .standard (.sizeCells n))
    (fun prop _ _ hname => by rw [PropertyValue.fromRaw, hname]; rfl) with
    ⟨hnone, hcells⟩ | ⟨n, hsome, hcells⟩
  · rw [Node.sizeCells, hnone, RawProp.sizeCellsOf, hcells]
  · rw [Node.sizeCells, hsome, RawProp.sizeCellsOf, hcells]

end Node.HasParsed

/-! ## What `from_raw` accepts -/

theorem unwrap_isOk {α β : Type} {a : Option α} {f : α → β} :
    (∃ b, (do let a ← unwrap a; return f a : Except Fault β) = .ok b) ↔ a ≠ none := by
  cases a with
  | none =>
      constructor
      · rintro ⟨b, h⟩
        cases h
      · intro h
        exact absurd rfl h
  | some a =>
      constructor
      · intro _ h
        cases h
      · intro _
        exact ⟨_, rfl⟩

theorem string_isOk {β : Type} {prop : RawProp} {f : String → β} :
    (∃ b, (do let s ← unwrap prop.valueAsString; return f s : Except Fault β) = .ok b) ↔
      ∃ s, prop.IsString s := by
  rw [unwrap_isOk, Option.ne_none_iff_exists']
  simp only [RawProp.valueAsString_eq_some]

theorem word_isOk {β : Type} {prop : RawProp} {f : Nat → β} :
    (∃ b, (do let n ← unwrap prop.valueAsU32; return f n : Except Fault β) = .ok b) ↔
      prop.IsWord := by
  rw [unwrap_isOk, RawProp.valueAsU32_isSome]

theorem chunks_isOk {β : Type} {cells : Nat} {value : List UInt8}
    {f : List (List UInt8) → β} :
    (∃ b, (do let chunks ← chunksOf cells value; return f chunks : Except Fault β) = .ok b) ↔
      0 < cells := by
  rw [chunksOf]
  split
  · constructor
    · rintro ⟨b, h⟩
      cases h
    · omega
  · constructor
    · omega
    · intro _
      exact ⟨_, rfl⟩

theorem status_tryInto_isSome {s : String} : StatusValue.tryInto s ≠ none ↔
    s = "okay" ∨ s = "disabled" ∨ s = "reserved" ∨ "fail".toList <+: s.toList := by
  rw [StatusValue.tryInto]
  split_ifs <;> simp_all

theorem status_isOk {β : Type} {prop : RawProp} {f : StatusValue → β} :
    (∃ b, (do
      let s ← unwrap prop.valueAsString
      return f (← unwrap (StatusValue.tryInto s)) : Except Fault β) = .ok b) ↔
      ∃ s, prop.IsString s ∧
        (s = "okay" ∨ s = "disabled" ∨ s = "reserved" ∨ "fail".toList <+: s.toList) := by
  simp only [← status_tryInto_isSome, ← RawProp.valueAsString_eq_some]
  cases hs : prop.valueAsString with
  | none =>
      constructor
      · rintro ⟨b, h⟩
        cases h
      · rintro ⟨s, h, -⟩
        cases h
  | some s =>
      rw [unwrap, except_ok_bind, unwrap_isOk]
      constructor
      · intro h
        exact ⟨s, rfl, h⟩
      · rintro ⟨s', h, hstatus⟩
        cases h
        exact hstatus

theorem clockFrequency_isOk {β : Type} {prop : RawProp} {f : ClockFrequency → β} :
    (∃ b, (do
      let frequency ← ClockFrequency.fromRaw prop
      return f frequency : Except Fault β) = .ok b) ↔
      prop.value.length = 4 ∨ prop.value.length = 8 ∧ 8 ∣ prop.addr := by
  rw [ClockFrequency.fromRaw]
  split_ifs with h4 h8
  · rw [RawProp.valueAsU32, if_neg (by omega)]
    simp [unwrap, h4]
  · rw [RawProp.valueAsU64, if_neg (by omega), Nat.dvd_iff_mod_eq_zero]
    by_cases hmod : prop.addr % 8 = 0
    · simp [unwrap, h8, hmod]
    · simp [h8, hmod]
  · simp [h4, h8]

/-- `from_raw` accepts the properties that can be decoded, and no others. -/
theorem PropertyValue.fromRaw_isOk_iff (prop : RawProp) {node : Node} {parent : Option Node}
    {own upper : List RawProp} (hown : node.HasParsed own)
    (hupper : (parent.getD node).HasParsed upper) :
    (∃ value, PropertyValue.fromRaw prop node parent = .ok value) ↔ prop.Decodable own upper := by
  rw [RawProp.Decodable, ← hown.addressCells, ← hown.sizeCells, ← hupper.addressCells,
    ← hupper.sizeCells]
  simp only [PropertyValue.fromRaw]
  split
  case h_25 =>
    apply iff_of_true
    · split_ifs <;> exact ⟨_, rfl⟩
    · split <;> trivial
  all_goals
    rename_i hname
    simp only [hname]
    first
    | exact iff_of_true ⟨_, rfl⟩ trivial
    | exact word_isOk
    | exact string_isOk
    | exact chunks_isOk
    | exact status_isOk
    | exact clockFrequency_isOk

end Kruspix.Kernel.Devicetree
