import Kruspix.Kernel.Devicetree.Fdt

/-!
# The memory regions of the blob

The banks of memory are those of the memory nodes. Reserved is the blob itself, what the
children of the node for reserved memory say, and the entries of the reservation block. Both
are written to an array of 32 regions.
-/

namespace Kruspix.Kernel.Devicetree

open Lib.Iterator Lib.Iterator.Iter Lib.Result

namespace RawNode

def isMemory (node : RawNode) : Bool := node.nodeName == "memory"

def isReservedMemory (node : RawNode) : Bool := node.nodeName == "reserved-memory"

end RawNode

/-- An array of 32 regions, with the index that is written next. -/
structure Regions where
  entries : List (Nat × Nat)
  index : Nat
  length_eq : entries.length = 32
  deriving DecidableEq

namespace Regions

/-- No region, and room for 32. -/
def new : Regions := ⟨List.replicate 32 (0, 0), 0, rfl⟩

/-- `result[index] = (address, size)` and `index += 1`. -/
def write (regions : Regions) (region : Nat × Nat) : Except Fault Regions :=
  if regions.index ≥ 32 then .error .outOfBounds
  else .ok ⟨regions.entries.set regions.index region, regions.index + 1, by
    rw [List.length_set, regions.length_eq]⟩

/-- The body of the innermost loop of `parse_memory`, left by `break` when the array is full. -/
def writeBank (regions : Regions) (region : Nat × Nat) : Except Fault (Regions ⊕ Regions) := do
  let regions ← regions.write region
  if regions.index ≥ 32 then return .inr regions else return .inl regions

/-- The body of the loops of `parse_reserved_memory` that write, left by `return Err(())`. -/
def writeReserved (regions : Regions) (region : Nat × Nat) : Except Fault (Regions ⊕ Unit) := do
  if regions.index ≥ 32 then return .inr ()
  else return .inl (← regions.write region)

end Regions

namespace Fdt

variable (fdt : Fdt)

/-- The nodes with the name `memory`. -/
def memoryNodeIter : Iter Fault NodeIter RawNode := NodeIter.iter.filter RawNode.isMemory

/-- The first node with the name `reserved-memory`. -/
def reservedMemoryNode : Except Fault (Option RawNode) := fdt.findNode RawNode.isReservedMemory

/-- The body of the loop of `parse_memory` over the properties of the memory nodes. -/
def memoryProp (rootAddressCells rootSizeCells : Nat) (regions : Regions) (prop : RawProp) :
    Except Fault (Regions ⊕ Regions) :=
  match StandardProperty.tryFrom prop.name with
  | some .reg => do
      let pairs ← prop.cellsPairs rootAddressCells rootSizeCells
      -- the `break` behind the loop leaves the loop over all memory nodes
      match ← forList Regions.writeBank regions pairs with
      | .inl regions => return .inr regions
      | .inr regions => return .inr regions
  | _ => return .inl regions

/-- `parse_memory`: the regions in the `reg` of all memory nodes, as far as the array has room. -/
def parseMemory : Except Fault (List (Nat × Nat)) := do
  match ← fdt.rootNode with
  | none => .error .unwrap
  | some root =>
      let (rootAddressCells, rootSizeCells) ← fdt.parseAddressAndSizeCells root
      match ← memoryNodeIter.forEachFlat fdt.propIter PropIter.iter
        (memoryProp rootAddressCells rootSizeCells) Regions.new (← fdt.nodeIter) with
      | .inl regions => return regions.entries
      | .inr regions => return regions.entries

/-- The body of the loop of `parse_reserved_memory` over the properties of the node itself. -/
def reservedMemoryProp (_ : Unit) (prop : RawProp) : Except Fault (Unit ⊕ Unit) :=
  if prop.value = [] then return .inl ()
  else
    match StandardProperty.tryFrom prop.name with
    | some .ranges => .error .unimplemented
    | _ => return .inl ()

/-- The body of the loop of `parse_reserved_memory` over the properties of the children. -/
def reservedChildProp (addressCells sizeCells : Nat) (regions : Regions) (prop : RawProp) :
    Except Fault (Regions ⊕ Unit) :=
  if prop.value = [] then return .inl regions
  else if prop.name = "reg" then do
    forList Regions.writeReserved regions (← prop.cellsPairs addressCells sizeCells)
  else return .inl regions

/-- What `parse_reserved_memory` takes from the node for reserved memory. -/
def parseReservedNode (regions : Regions) (reservedMemoryNode : RawNode) :
    Except Fault (Regions ⊕ Unit) := do
  match ← fdt.rootNode with
  | none => return .inr ()
  | some root =>
      let (rootAddressCells, rootSizeCells) ← fdt.parseAddressAndSizeCells root
      let (addressCells, sizeCells) ← fdt.parseAddressAndSizeCells reservedMemoryNode
      if addressCells ≠ rootAddressCells ∨ sizeCells ≠ rootSizeCells then return .inr ()
      else
        let _ ← PropIter.iter.forEach reservedMemoryProp () (← fdt.propIter reservedMemoryNode)
        NodeIter.iter.forEachFlat fdt.propIter PropIter.iter
          (reservedChildProp addressCells sizeCells) regions (← fdt.childIter reservedMemoryNode)

/-- The loop of `parse_reserved_memory` over the reservation block, and the result. -/
def parseReservedEntries (regions : Regions) : Except Fault (Option (List (Nat × Nat))) := do
  match ← FdtReserveEntryIter.iter.forEach Regions.writeReserved regions
    (← fdt.memoryReservationBlockIter) with
  | .inl regions => return some regions.entries
  | .inr () => return none

/-- `parse_reserved_memory`. It returns `none` for `Err(())`. -/
def parseReservedMemory : Except Fault (Option (List (Nat × Nat))) := do
  let regions ← Regions.new.write (fdt.address, ← fdt.size)
  match ← fdt.reservedMemoryNode with
  | none => fdt.parseReservedEntries regions
  | some reservedMemoryNode =>
      match ← fdt.parseReservedNode regions reservedMemoryNode with
      | .inl regions => fdt.parseReservedEntries regions
      | .inr () => return none

end Fdt

/-! ## Filling the array -/

/-- The regions from the first one on, and zeros up to 32. -/
def padded (regions : List (Nat × Nat)) : List (Nat × Nat) :=
  regions ++ List.replicate (32 - regions.length) (0, 0)

namespace Regions

variable {regions : Regions} {written : List (Nat × Nat)} {region : Nat × Nat}

/-- The regions that are written, and nothing else. -/
structure Holds (regions : Regions) (written : List (Nat × Nat)) : Prop where
  length_le : written.length ≤ 32
  index : regions.index = written.length
  entries : regions.entries = padded written

theorem new_holds : new.Holds [] := ⟨by decide, rfl, rfl⟩

theorem write_holds (h : regions.Holds written) (hlt : written.length < 32) (region : Nat × Nat) :
    ∃ regions', regions.write region = .ok regions' ∧ regions'.Holds (written ++ [region]) := by
  have hindex := h.index
  refine ⟨_, if_neg (by omega), ?_, ?_, ?_⟩
  · rw [List.length_append, List.length_singleton]
    exact hlt
  · simp only [List.length_append, List.length_singleton, hindex]
  · have hzeros : List.replicate (32 - written.length) ((0, 0) : Nat × Nat) =
        (0, 0) :: List.replicate (32 - (written.length + 1)) (0, 0) := by
      rw [← List.replicate_succ]
      congr 1
      omega
    simp only [h.entries, hindex, padded, hzeros, List.length_append, List.length_singleton,
      List.set_append_right _ _ (Nat.le_refl _), Nat.sub_self, List.set_cons_zero,
      List.append_assoc, List.singleton_append]

/-- The innermost loop of `parse_memory` writes until the array is full. -/
theorem forList_writeBank (h : regions.Holds written) (hlt : written.length < 32)
    (rest : List (Nat × Nat)) :
    ∃ regions' : Regions, regions'.Holds ((written ++ rest).take 32) ∧
      (forList writeBank regions rest = .ok (.inl regions') ∨
        forList writeBank regions rest = .ok (.inr regions')) := by
  induction rest generalizing regions written with
  | nil =>
      refine ⟨regions, ?_, Or.inl rfl⟩
      rw [List.append_nil, List.take_of_length_le (Nat.le_of_lt hlt)]
      exact h
  | cons region rest ih =>
      obtain ⟨regions', hwrite, hholds⟩ := write_holds h hlt region
      have hlen : (written ++ [region]).length = written.length + 1 := by
        rw [List.length_append, List.length_singleton]
      have hassoc : written ++ region :: rest = (written ++ [region]) ++ rest := by
        rw [List.append_assoc, List.singleton_append]
      rw [forList, writeBank, hwrite, except_ok_bind, hassoc]
      by_cases hfull : regions'.index ≥ 32
      · have hindex := hholds.index
        refine ⟨regions', ?_, Or.inr ?_⟩
        · rw [List.take_append_of_le_length (by omega), List.take_of_length_le (by omega)]
          exact hholds
        · simp only [if_pos hfull, except_pure]
      · simp only [if_neg hfull, except_pure]
        apply ih hholds
        have hindex := hholds.index
        omega

/-- A loop of `parse_reserved_memory` has written the regions, or has left because there were
too many. -/
def Filled (result : Except Fault (Regions ⊕ Unit)) (written : List (Nat × Nat)) : Prop :=
  if written.length ≤ 32 then
    ∃ regions : Regions, result = .ok (.inl regions) ∧ regions.Holds written
  else result = .ok (.inr ())

theorem Holds.filled (h : regions.Holds written) : Filled (.ok (.inl regions)) written := by
  rw [Filled, if_pos h.length_le]
  exact ⟨regions, rfl, h⟩

/-- A loop that goes on where another has filled the array fills it further. -/
theorem Filled.bind {result : Except Fault (Regions ⊕ Unit)}
    {next : Regions → Except Fault (Regions ⊕ Unit)} (h : Filled result written)
    (rest : List (Nat × Nat))
    (hnext : ∀ regions : Regions, regions.Holds written → Filled (next regions) (written ++ rest)) :
    Filled (proceed result next) (written ++ rest) := by
  rw [Filled] at h
  split at h
  · obtain ⟨regions, rfl, hholds⟩ := h
    exact hnext regions hholds
  · rw [h, Filled, if_neg]
    · rfl
    · rw [List.length_append]
      omega

theorem writeReserved_filled (h : regions.Holds written) (region : Nat × Nat) :
    Filled (writeReserved regions region) (written ++ [region]) := by
  have hindex := h.index
  rw [Filled, writeReserved, List.length_append, List.length_singleton]
  by_cases hfull : regions.index ≥ 32
  · rw [if_neg (by omega), if_pos hfull]
    rfl
  · obtain ⟨regions', hwrite, hholds⟩ := write_holds h (by omega) region
    rw [if_pos (by omega), if_neg hfull, hwrite]
    exact ⟨regions', rfl, hholds⟩

/-- The loops of `parse_reserved_memory` write all regions, or leave when there are too many. -/
theorem forList_writeReserved (h : regions.Holds written) (rest : List (Nat × Nat)) :
    Filled (forList writeReserved regions rest) (written ++ rest) := by
  induction rest generalizing regions written with
  | nil =>
      rw [List.append_nil]
      exact h.filled
  | cons region rest ih =>
      have hassoc : written ++ region :: rest = (written ++ [region]) ++ rest := by
        rw [List.append_assoc, List.singleton_append]
      rw [forList_cons, hassoc]
      apply (writeReserved_filled h region).bind
      intro regions' hholds
      exact ih hholds

end Regions

end Kruspix.Kernel.Devicetree
