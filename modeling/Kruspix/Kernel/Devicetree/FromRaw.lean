import Kruspix.Kernel.Devicetree.Fdt.RawProp
import Kruspix.Kernel.Devicetree.Node

/-!
# Properties from the flattened device tree

The name of a raw property says what its bytes mean. Addresses are cut by the cells
of the node and of its parent.
-/

namespace Kruspix.Kernel.Devicetree

open Lib.Bytes Lib.Result

/-- `unwrap`. -/
def unwrap {α : Type} : Option α → Except Fault α
  | none => .error .unwrap
  | some a => .ok a

/-- `TryInto<StatusValue>`. -/
def StatusValue.tryInto (s : String) : Option StatusValue :=
  if s = "okay" then some .okay
  else if s = "disabled" then some .disabled
  else if s = "reserved" then some .reserved
  else if "fail".toList <+: s.toList then some (.fail s)
  else none

/-- `chunks_exact`, which panics for a size of zero. -/
def chunksOf (cells : Nat) (value : List UInt8) : Except Fault (List (List UInt8)) :=
  if cells * 4 = 0 then .error .zeroChunk else .ok (chunksExact (cells * 4) value)

/-- One item of `reg`, cut after its address. -/
def RegItemValue.fromChunk (addrCells : Nat) (chunk : List UInt8) : RegItemValue :=
  ⟨beWords (chunk.take (addrCells * 4)), beWords (chunk.drop (addrCells * 4))⟩

/-- One item of `ranges`, cut after the address of the child and that of the parent. -/
def RangesItemValue.fromChunk (addrCells parentAddrCells : Nat) (chunk : List UInt8) :
    RangesItemValue :=
  let rest := chunk.drop (addrCells * 4)
  ⟨beWords (chunk.take (addrCells * 4)), beWords (rest.take (parentAddrCells * 4)),
    beWords (rest.drop (parentAddrCells * 4))⟩

/-- One item of `dma-ranges`, cut as one of `ranges`. -/
def DmaRangesItemValue.fromChunk (addrCells parentAddrCells : Nat) (chunk : List UInt8) :
    DmaRangesItemValue :=
  let rest := chunk.drop (addrCells * 4)
  ⟨beWords (chunk.take (addrCells * 4)), beWords (rest.take (parentAddrCells * 4)),
    beWords (rest.drop (parentAddrCells * 4))⟩

/-- A frequency of four or eight bytes; any other length is a panic. -/
def ClockFrequency.fromRaw (prop : RawProp) : Except Fault ClockFrequency :=
  if prop.value.length = 4 then return .u32 (← unwrap prop.valueAsU32)
  else if prop.value.length = 8 then return .u64 (← unwrap (← prop.valueAsU64))
  else .error .unreachable

/-- The value that `from_raw` makes of a property of a node with this parent. -/
def PropertyValue.fromRaw (prop : RawProp) (node : Node) (parent : Option Node) :
    Except Fault PropertyValue := do
  let upper := parent.getD node
  match prop.name with
  | "compatible" => return .standard (.compatible (prop.valueAsStringListIter.filterMap id))
  | "model" => return .standard (.model (← unwrap prop.valueAsString))
  | "phandle" => return .standard (.phandle (← unwrap prop.valueAsU32))
  | "status" =>
      let status ← unwrap prop.valueAsString
      return .standard (.status (← unwrap (StatusValue.tryInto status)))
  | "#address-cells" => return .standard (.addressCells (← unwrap prop.valueAsU32))
  | "#size-cells" => return .standard (.sizeCells (← unwrap prop.valueAsU32))
  | "reg" =>
      let chunks ← chunksOf (upper.addressCells + upper.sizeCells) prop.value
      return .standard (.reg (chunks.map (RegItemValue.fromChunk upper.addressCells)))
  | "virtual-reg" => return .standard (.virtualReg (← unwrap prop.valueAsU32))
  | "ranges" =>
      let chunks ← chunksOf (node.addressCells + upper.addressCells + node.sizeCells) prop.value
      return .standard (.ranges
        (chunks.map (RangesItemValue.fromChunk node.addressCells upper.addressCells)))
  | "dma-ranges" =>
      let chunks ← chunksOf (node.addressCells + upper.addressCells + node.sizeCells) prop.value
      return .standard (.dmaRanges
        (chunks.map (DmaRangesItemValue.fromChunk node.addressCells upper.addressCells)))
  | "dma-coherent" => return .standard .dmaCoherent
  | "dma-noncoherent" => return .standard .dmaNoncoherent
  | "interrupts" => return .interrupts (.interrupts (beWords prop.value))
  | "interrupts-extended" => return .interrupts (.extendedInterrupts (beWords prop.value))
  | "interrupt-parent" => return .interrupts (.interruptParent (← unwrap prop.valueAsPhandle))
  | "#interrupt-cells" => return .interrupts (.interruptCells (← unwrap prop.valueAsU32))
  | "interrupt-controller" => return .interrupts .interruptController
  | "interrupt-map" => return .interrupts (.interruptMap (beWords prop.value))
  | "interrupt-map-mask" => return .interrupts (.interruptMapMask (beWords prop.value))
  | "#clock-cells" => return .miscellaneous (.clockCells (← unwrap prop.valueAsU32))
  | "clock-frequency" => return .miscellaneous (.clockFrequency (← ClockFrequency.fromRaw prop))
  | "bootargs" => return .miscellaneous (.bootArgs (← unwrap prop.valueAsString))
  | "stdout-path" => return .miscellaneous (.stdoutPath (← unwrap prop.valueAsString))
  | "stdin-path" => return .miscellaneous (.stdinPath (← unwrap prop.valueAsString))
  | _ => if prop.value = [] then return .empty else return .unknown prop.value

/-- The value is read where it stands: a `clock-frequency` of eight bytes is read as a double
word, and every other value by words or by bytes. -/
def RawProp.Aligned (prop : RawProp) : Prop :=
  prop.name = "clock-frequency" → prop.value.length = 8 → 8 ∣ prop.addr

instance : DecidablePred RawProp.Aligned := fun prop =>
  inferInstanceAs (Decidable (prop.name = "clock-frequency" → prop.value.length = 8 →
    8 ∣ prop.addr))

/-- The property with its value at address zero, where everything is aligned. -/
def RawProp.atZero (prop : RawProp) : RawProp := { prop with addr := 0 }

variable {prop : RawProp} {node : Node} {parent : Option Node} {value : PropertyValue}

theorem RawProp.name_eq_of_atZero {prop' : RawProp} (h : prop.atZero = prop'.atZero) :
    prop.name = prop'.name := by
  have hname : prop.atZero.name = prop'.atZero.name := by rw [h]
  exact hname

theorem ClockFrequency.fromRaw_eq (hname : prop.name = "clock-frequency") :
    ClockFrequency.fromRaw prop =
      if prop.Aligned then ClockFrequency.fromRaw prop.atZero else .error .misaligned := by
  by_cases hlength : prop.value.length = 8
  · have haligned : prop.Aligned ↔ prop.addr % 8 = 0 := by
      rw [Nat.dvd_iff_mod_eq_zero.symm]
      exact ⟨fun h => h hname hlength, fun h _ _ => h⟩
    simp only [fromRaw, RawProp.atZero, RawProp.valueAsU64, hlength, haligned]
    by_cases hmod : prop.addr % 8 = 0
    · simp [hmod]
    · simp [hmod, except_error_bind]
  · have haligned : prop.Aligned := fun _ h => absurd h hlength
    rw [if_pos haligned, fromRaw, fromRaw, if_neg hlength, if_neg (show
      prop.atZero.value.length ≠ 8 from hlength)]
    rfl

/-- The place of the value matters only to what is not aligned there. -/
theorem PropertyValue.fromRaw_eq_atZero (prop : RawProp) (node : Node) (parent : Option Node) :
    PropertyValue.fromRaw prop node parent =
      if prop.Aligned then PropertyValue.fromRaw prop.atZero node parent
      else .error .misaligned := by
  by_cases hname : prop.name = "clock-frequency"
  · have hclock : ∀ p : RawProp, p.name = "clock-frequency" →
        PropertyValue.fromRaw p node parent = (do
          return .miscellaneous (.clockFrequency (← ClockFrequency.fromRaw p))) := by
      intro p hp
      rw [PropertyValue.fromRaw, hp]
      rfl
    rw [hclock prop hname, hclock prop.atZero hname, ClockFrequency.fromRaw_eq hname]
    split <;> rfl
  · have haligned : prop.Aligned := fun h => absurd h hname
    rw [if_pos haligned]
    simp only [PropertyValue.fromRaw, RawProp.atZero]
    split <;> first | rfl | contradiction

/-- The value fits the name. -/
theorem PropertyValue.fromRaw_named (h : PropertyValue.fromRaw prop node parent = .ok value) :
    value.Named prop.name := by
  simp only [PropertyValue.fromRaw] at h
  split at h
  case h_25 =>
    have hunknown : prop.name ∉ knownNames := by
      intro hmem
      simp only [knownNames, List.mem_cons, List.not_mem_nil, or_false] at hmem
      simp_all
    split at h <;> cases h <;> exact hunknown
  all_goals
    rename_i hname
    rw [hname]
    -- at most two steps come before the value
    try obtain ⟨_, -, h⟩ := except_bind_eq_ok.mp h
    try obtain ⟨_, -, h⟩ := except_bind_eq_ok.mp h
    cases h
    rfl

/-- `Property::from_raw`: the name and the decoded value. -/
def Property.fromRaw (prop : RawProp) (node : Node) (parent : Option Node) :
    Except Fault Property :=
  match h : PropertyValue.fromRaw prop node parent with
  | .error e => .error e
  | .ok value => .ok ⟨prop.name, value, PropertyValue.fromRaw_named h⟩

theorem Property.fromRaw_eq_ok {property : Property} :
    Property.fromRaw prop node parent = .ok property ↔
      property.name = prop.name ∧ PropertyValue.fromRaw prop node parent = .ok property.value := by
  rw [Property.fromRaw]
  split
  · rename_i e he
    simp only [he, reduceCtorEq, and_false]
  · rename_i value hvalue
    obtain ⟨name, value', hnamed⟩ := property
    simp only [hvalue, Except.ok.injEq, Property.mk.injEq, eq_comm]

end Kruspix.Kernel.Devicetree
