import Kruspix.Kernel.Devicetree.Parse
import Kruspix.Kernel.Devicetree.TreeNodes

/-!
# Blobs of device trees

A blob has a header, the reserved memory, the structure block of a tree and its strings.
Whatever walks over the blob sees the tree.
-/

namespace Kruspix.Kernel.Devicetree

open Lib.Bytes Lib.Iterator Lib.Iterator.Iter Lib.Result

/-- The fields of the header behind the magic number. -/
structure Header where
  totalSize : Nat
  offDtStruct : Nat
  offDtStrings : Nat
  offMemRsvmap : Nat
  version : Nat
  lastCompVersion : Nat
  bootCpuidPhys : Nat
  sizeDtStrings : Nat
  sizeDtStruct : Nat

/-- The ten words of the header, the magic number first. -/
def Header.words (h : Header) : List Nat :=
  [0xd00dfeed, h.totalSize, h.offDtStruct, h.offDtStrings, h.offMemRsvmap, h.version,
    h.lastCompVersion, h.bootCpuidPhys, h.sizeDtStrings, h.sizeDtStruct]

def be64Bytes (n : Nat) : List UInt8 := be32Bytes (n / 2 ^ 32) ++ be32Bytes (n % 2 ^ 32)

/-- An entry of the memory reservation block. -/
def reservationBytes (reservation : Nat × Nat) : List UInt8 :=
  be64Bytes reservation.1 ++ be64Bytes reservation.2

/-- The blob is a well-formed encoding of the tree and of the reserved memory. The blob and
the entries for the reserved memory are aligned to double words, the tokens to words. -/
structure Fdt.WellFormed (fdt : Fdt) (h : Header) (tree : FdtTree)
    (reservations : List (Nat × Nat)) : Prop where
  aligned : 8 ∣ fdt.header.addr
  aligned_rsvmap : 8 ∣ h.offMemRsvmap
  header : ∃ rest, fdt.header.bytes = h.words.flatMap be32Bytes ++ rest
  words_lt : ∀ word ∈ h.words, word < 2 ^ 32
  rootName : tree.name = ""
  structureBlock : ∃ bytes rest,
    EncodesBlock (fdt.header.skip h.offDtStrings) (fdt.header.skip h.offDtStruct).addr
        (tree.events.map Event.token ++ [.finish]) bytes ∧
      (fdt.header.skip h.offDtStruct).Points (bytes ++ rest) ∧ bytes.length = h.sizeDtStruct
  memoryReservationBlock : ∃ rest, (fdt.header.skip h.offMemRsvmap).Points
    (reservations.flatMap reservationBytes ++ (reservationBytes (0, 0) ++ rest))
  reservations_lt : ∀ r ∈ reservations, r.1 < 2 ^ 64 ∧ r.2 < 2 ^ 64 ∧ r ≠ (0, 0)

/-- The blob is a well-formed encoding whose names the iterator accepts. -/
structure Fdt.Encodes (fdt : Fdt) (h : Header) (tree : FdtTree) (reservations : List (Nat × Nat)) :
    Prop extends Fdt.WellFormed fdt h tree reservations where
  short : tree.Short

variable {fdt : Fdt} {h : Header} {tree : FdtTree} {reservations : List (Nat × Nat)}

/-! ## The header -/

theorem drop_flatMap_be32Bytes (words : List Nat) (i : Nat) :
    (words.flatMap be32Bytes).drop (4 * i) = (words.drop i).flatMap be32Bytes := by
  induction words generalizing i with
  | nil => simp
  | cons word words ih =>
      cases i with
      | zero => rfl
      | succ i =>
          rw [List.flatMap_cons, List.drop_succ_cons, ← ih i,
            show 4 * (i + 1) = (be32Bytes word).length + 4 * i by rw [be32Bytes_length]; omega,
            List.drop_length_add_append]

/-- A field of the header. -/
theorem Fdt.WellFormed.readWord (henc : fdt.WellFormed h tree reservations) {i word : Nat} (hi : 0 < i)
    (hword : h.words[i]? = some word) : (fdt.header.skip (4 * i)).readBe32 = .ok word := by
  obtain ⟨rest, hrest⟩ := henc.header
  obtain ⟨hlt, rfl⟩ := List.getElem?_eq_some_iff.mp hword
  have hlen : 4 * i ≤ (h.words.flatMap be32Bytes).length := by
    rw [List.length_flatMap]
    simp only [be32Bytes_length, List.map_const', List.sum_replicate_nat]
    omega
  have hpoints : (fdt.header.skip (4 * i)).Points
      (be32Bytes h.words[i] ++ ((h.words.drop (i + 1)).flatMap be32Bytes ++ rest)) := by
    have haligned := henc.aligned
    refine ⟨?_, ?_, ?_⟩
    · rw [Cursor.skip_addr]
      omega
    · rw [Cursor.skip_addr]
      omega
    · rw [Cursor.skip_bytes, hrest, List.drop_append_of_le_length hlen, drop_flatMap_be32Bytes,
        List.drop_eq_getElem_cons hlt, List.flatMap_cons, List.append_assoc]
  exact hpoints.readBe32 (henc.words_lt _ (List.getElem_mem hlt))

theorem Fdt.WellFormed.structureBlockOffset (henc : fdt.WellFormed h tree reservations) :
    fdt.structureBlockOffset = .ok h.offDtStruct :=
  henc.readWord (i := 2) (by decide) rfl

theorem Fdt.WellFormed.stringsBlockOffset (henc : fdt.WellFormed h tree reservations) :
    fdt.stringsBlockOffset = .ok h.offDtStrings :=
  henc.readWord (i := 3) (by decide) rfl

/-- The block of strings. -/
def Fdt.strings (fdt : Fdt) (h : Header) : Cursor := fdt.header.skip h.offDtStrings

/-! ## The reserved memory -/

theorem Cursor.Points.readBe64 {c : Cursor} {n : Nat} {l : List UInt8}
    (hpoints : c.Points (be64Bytes n ++ l)) (hn : n < 2 ^ 64) : c.readBe64 = .ok n := by
  rw [be64Bytes, List.append_assoc] at hpoints
  have hhigh := hpoints.readBe32 (by omega)
  have hlow := (hpoints.skip ⟨1, rfl⟩).readBe32 (by omega)
  rw [be32Bytes_length] at hlow
  rw [Cursor.readBe64, hhigh, except_ok_bind, hlow, except_ok_bind, except_pure]
  congr 1
  omega

theorem FdtReserveEntryIter.next_points {c : Cursor} {r : Nat × Nat} {l : List UInt8}
    (hpoints : c.Points (reservationBytes r ++ l)) (hr : r.1 < 2 ^ 64 ∧ r.2 < 2 ^ 64) :
    next c = .ok (if r = (0, 0) then (none, c) else (some r, c.skip 16)) := by
  rw [reservationBytes, List.append_assoc] at hpoints
  have haddress := hpoints.readBe64 hr.1
  have hsize := (hpoints.skip (m := be64Bytes r.2 ++ l) ⟨2, rfl⟩).readBe64 hr.2
  rw [next, haddress, except_ok_bind]
  change (do let size ← (c.skip (be64Bytes r.1).length).readBe64; _) = _
  rw [hsize, except_ok_bind]
  obtain ⟨address, size⟩ := r
  simp only [Prod.mk.injEq]
  split <;> rfl

/-- The iterator over the reserved memory yields its entries. -/
theorem FdtReserveEntryIter.yields {c : Cursor} {rest : List UInt8} {reservations : List (Nat × Nat)}
    (hpoints : c.Points (reservations.flatMap reservationBytes ++
      (reservationBytes (0, 0) ++ rest)))
    (hlt : ∀ r ∈ reservations, r.1 < 2 ^ 64 ∧ r.2 < 2 ^ 64 ∧ r ≠ (0, 0)) :
    Yields FdtReserveEntryIter.iter c reservations := by
  induction reservations generalizing c with
  | nil =>
      have hnext := next_points hpoints (by decide)
      rw [if_pos rfl] at hnext
      exact .done hnext
  | cons r reservations ih =>
      obtain ⟨⟨haddress, hsize, hne⟩, hlt⟩ := List.forall_mem_cons.mp hlt
      rw [List.flatMap_cons, List.append_assoc] at hpoints
      have hnext := next_points hpoints ⟨haddress, hsize⟩
      rw [if_neg hne] at hnext
      exact .more hnext (ih (hpoints.skip ⟨4, rfl⟩) hlt)

/-! ## The structure block -/

theorem Token.Encodes.length_pos {strings : Cursor} {addr : Nat} {token : Token}
    {bytes : List UInt8} (henc : token.Encodes strings addr bytes) : 0 < bytes.length := by
  obtain ⟨bytes', rfl⟩ := henc.word_append
  rw [List.length_append, be32Bytes_length]
  omega

/-- Every token takes bytes. -/
theorem EncodesBlock.length_le {strings : Cursor} {addr : Nat} {tokens : List Token}
    {bytes : List UInt8} (henc : EncodesBlock strings addr tokens bytes) : tokens.length ≤ bytes.length := by
  induction henc with
  | nil => exact Nat.le_refl 0
  | nop henc ih =>
      rw [List.length_append]
      omega
  | token htoken henc ih =>
      have hpos := htoken.length_pos
      rw [List.length_append, List.length_cons]
      omega

theorem Fdt.WellFormed.spells (henc : fdt.WellFormed h tree reservations) :
    Spells (fdt.strings h) (fdt.header.skip h.offDtStruct)
      (tree.events.map Event.token ++ [.finish]) := by
  obtain ⟨bytes, rest, hblock, hpoints, -⟩ := henc.structureBlock
  exact ⟨bytes, rest, hblock, hpoints⟩

theorem Fdt.WellFormed.events_length_lt (henc : fdt.WellFormed h tree reservations) :
    tree.events.length < 2 ^ 32 := by
  obtain ⟨bytes, rest, hblock, -, hlen⟩ := henc.structureBlock
  have hle := hblock.length_le
  have hlt := henc.words_lt h.sizeDtStruct (by simp [Header.words])
  rw [List.length_append, List.length_map] at hle
  omega

theorem Fdt.WellFormed.ready (henc : fdt.WellFormed h tree reservations) :
    Ready (fdt.strings h) (.new (fdt.header.skip h.offDtStruct) (fdt.strings h))
      (tree.events.map Event.token ++ [.finish]) :=
  ⟨rfl, show 0 ≠ fdtEnd by decide, [], fun _ => rfl, henc.spells⟩

/-- The iterator over the block yields the events of the tree. -/
theorem Fdt.Encodes.yields_entries (henc : fdt.Encodes h tree reservations) :
    ∃ entries, Yields StructureBlockIter.iter
        (.new (fdt.header.skip h.offDtStruct) (fdt.strings h)) entries ∧
      List.Forall₂ (Matches (fdt.strings h)) entries tree.events := by
  obtain ⟨entries, t, hsteps, hmatches, -, hprev, hfinish⟩ :=
    stepped _ tree henc.ready henc.short rfl
  obtain ⟨u, hu⟩ := hfinish.nextFinish hprev
  refine ⟨entries, ?_, hmatches⟩
  rw [← List.append_nil entries]
  exact hsteps.yields (.done hu)

/-- `structure_block_iter` yields the events of the tree. -/
theorem Fdt.Encodes.yields_events (henc : fdt.Encodes h tree reservations) :
    ∃ s entries, fdt.structureBlockIter = .ok s ∧ Yields StructureBlockIter.iter s entries ∧
      List.Forall₂ (Matches (fdt.strings h)) entries tree.events := by
  obtain ⟨entries, hyields, hmatches⟩ := henc.yields_entries
  refine ⟨.new (fdt.header.skip h.offDtStruct) (fdt.strings h), entries, ?_, hyields, hmatches⟩
  rw [Fdt.structureBlockIter, henc.structureBlockOffset, except_ok_bind, henc.stringsBlockOffset]
  rfl

/-- `node_iter` yields the nodes of the tree in pre-order. -/
theorem Fdt.Encodes.yields_nodes (henc : fdt.Encodes h tree reservations) :
    ∃ s raws, fdt.nodeIter = .ok s ∧ Yields NodeIter.iter s raws ∧
      List.Forall₂ (Describes (fdt.strings h)) raws tree.nodes := by
  let s := NodeIter.new (fdt.header.skip h.offDtStruct) (fdt.strings h) (2 ^ 63 - 1)
  have hready : Ready (fdt.strings h) s.structureBlockIter
      (tree.events.map Event.token ++ [.finish]) :=
    ⟨rfl, show 0 ≠ fdtEnd by decide, [], fun _ => rfl, henc.spells⟩
  obtain ⟨raws, t, hraws, -, hprev, hfinish, hyields⟩ :=
    walked _ tree hready henc.short rfl (Int.le_refl 0)
  obtain ⟨u, hu⟩ := hfinish.nextFinish hprev
  have hlen := henc.events_length_lt
  have hleft : s.left = 2 ^ 63 - 1 := rfl
  rw [hleft, FdtTree.nodesTo_eq_nodes (by omega)] at hraws
  refine ⟨s, raws, ?_, ?_, hraws⟩
  · rw [Fdt.nodeIter, henc.structureBlockOffset, except_ok_bind, henc.stringsBlockOffset]
    rfl
  · rw [← List.append_nil raws]
    apply hyields
    apply Yields.done (t := ⟨u, 0, 2 ^ 63 - 1⟩)
    change NodeIter.next ⟨t, 0, 2 ^ 63 - 1⟩ = _
    rw [NodeIter.next_eq, if_neg (Int.lt_irrefl 0), hu]

/-- `child_iter` yields the children of a node in order. -/
theorem Fdt.Encodes.yields_children (henc : fdt.Encodes h tree reservations) {raw : RawNode}
    {node : FdtTree} (hraw : Describes (fdt.strings h) raw node) :
    ∃ s raws, fdt.childIter raw = .ok s ∧ Yields NodeIter.iter s raws ∧
      List.Forall₂ (Describes (fdt.strings h)) raws node.children := by
  obtain ⟨raws, hyields, hraws⟩ := hraw.yields_children
  refine ⟨.new raw.childrenPtr (fdt.strings h) 1, raws, ?_, hyields, hraws⟩
  rw [Fdt.childIter, henc.stringsBlockOffset]
  rfl

/-- What `from_fdt` makes of the result of its loop. -/
def Fdt.deviceTree (fdt : Fdt) (h : Header) (reservations : List (Nat × Nat)) :
    Outcome → Option DeviceTree
  | .inr (some (root, phandleMap)) => some ⟨fdt.address, h.totalSize, h.version, h.lastCompVersion,
      h.bootCpuidPhys, reservations, root, phandleMap⟩
  | _ => none

/-- `from_fdt` reads the header and the reserved memory, and runs the loop over the block. -/
theorem Fdt.WellFormed.fromFdt_eq (henc : fdt.WellFormed h tree reservations) :
    DeviceTree.fromFdt fdt = (StructureBlockIter.iter.forEach Builder.entry ⟨[], []⟩
      (.new (fdt.header.skip h.offDtStruct) (fdt.strings h))).map (fdt.deviceTree h reservations) := by
  obtain ⟨rest, hrest⟩ := henc.memoryReservationBlock
  have hsize : fdt.size = .ok h.totalSize := henc.readWord (i := 1) (by decide) rfl
  have hversion : fdt.version = .ok h.version := henc.readWord (i := 5) (by decide) rfl
  have hlast : fdt.lastCompatibleVersion = .ok h.lastCompVersion :=
    henc.readWord (i := 6) (by decide) rfl
  have hcpu : fdt.bootCpuidPhys = .ok h.bootCpuidPhys := henc.readWord (i := 7) (by decide) rfl
  have hoffset : fdt.memRsvMapOffset = .ok h.offMemRsvmap := henc.readWord (i := 4) (by decide) rfl
  have hreservations := (FdtReserveEntryIter.yields hrest henc.reservations_lt).collect
  have hblock : fdt.structureBlockIter =
      .ok (.new (fdt.header.skip h.offDtStruct) (fdt.strings h)) := by
    rw [Fdt.structureBlockIter, henc.structureBlockOffset, except_ok_bind, henc.stringsBlockOffset]
    rfl
  rw [DeviceTree.fromFdt, hsize, hversion, hlast, hcpu, Fdt.memoryReservationBlockIter, hoffset,
    hblock]
  simp only [except_ok_bind, except_pure, hreservations]
  generalize Iter.forEach _ _ _ _ = result
  rcases result with e | b | root | root
  · rfl
  · rfl
  · rfl
  · rfl

/-- `from_fdt` returns the tree. -/
theorem Fdt.Encodes.fromFdt (henc : fdt.Encodes h tree reservations) {root : Node}
    (hroot : tree.parse none = .ok root) :
    ∃ dt, DeviceTree.fromFdt fdt = .ok (some dt) ∧ dt.root = root := by
  obtain ⟨entries, hyields, hmatches⟩ := henc.yields_entries
  obtain ⟨phandleMap, hbuild⟩ := build_root [] hmatches hroot
  refine ⟨⟨fdt.address, h.totalSize, h.version, h.lastCompVersion, h.bootCpuidPhys, reservations,
    root, phandleMap⟩, ?_, rfl⟩
  rw [build] at hbuild
  rw [henc.fromFdt_eq, hyields.forEach, hbuild]
  rfl

/-- `from_fdt` returns a tree only when every property is accepted. -/
theorem Fdt.Encodes.parse_root (henc : fdt.Encodes h tree reservations) {dt : DeviceTree}
    (hdt : DeviceTree.fromFdt fdt = .ok (some dt)) : tree.parse none = .ok dt.root := by
  cases hroot : tree.parse none with
  | ok root =>
      obtain ⟨dt', hdt', rfl⟩ := henc.fromFdt hroot
      obtain rfl : dt = dt' := Option.some.inj (Except.ok.inj (hdt.symm.trans hdt'))
      rfl
  | error e =>
      obtain ⟨entries, hyields, hmatches⟩ := henc.yields_entries
      have hbuild := build_root_error [] hmatches hroot
      rw [build] at hbuild
      rw [henc.fromFdt_eq, hyields.forEach, hbuild] at hdt
      cases hdt

/-- What is read of the blob is the tree: its events, its nodes, the children of each
node, and the device tree that the kernel keeps. -/
structure Fdt.Reads (fdt : Fdt) (h : Header) (tree : FdtTree) : Prop where
  events : ∃ s entries, fdt.structureBlockIter = .ok s ∧
    Yields StructureBlockIter.iter s entries ∧
    List.Forall₂ (Matches (fdt.strings h)) entries tree.events
  nodes : ∃ s raws, fdt.nodeIter = .ok s ∧ Yields NodeIter.iter s raws ∧
    List.Forall₂ (Describes (fdt.strings h)) raws tree.nodes
  children : ∀ raw node, Describes (fdt.strings h) raw node →
    ∃ s raws, fdt.childIter raw = .ok s ∧ Yields NodeIter.iter s raws ∧
      List.Forall₂ (Describes (fdt.strings h)) raws node.children
  fromFdt : ∃ dt, DeviceTree.fromFdt fdt = .ok (some dt) ∧ tree.parse none = .ok dt.root ∧
    tree.Same dt.root

/-- Whatever walks over an encoded tree, of values that `from_raw` accepts in aligned memory,
reads the tree exactly if every value is aligned where the block puts it. -/
theorem Fdt.Encodes.reads_iff (henc : fdt.Encodes h tree reservations)
    (haccepted : tree.atZero.Accepted) : fdt.Reads h tree ↔ tree.Aligned := by
  constructor
  · intro hreads
    obtain ⟨dt, -, hparse, -⟩ := hreads.fromFdt
    exact ((tree.parse_eq_ok_iff_atZero none dt.root).mp hparse).1
  · intro haligned
    obtain ⟨root, hroot⟩ := haccepted
    have hparse : tree.parse none = .ok root :=
      (tree.parse_eq_ok_iff_atZero none root).mpr ⟨haligned, hroot⟩
    constructor
    · exact henc.yields_events
    · exact henc.yields_nodes
    · intro raw node hraw
      exact henc.yields_children hraw
    · obtain ⟨dt, hdt, rfl⟩ := henc.fromFdt hparse
      exact ⟨dt, hdt, hparse, FdtTree.parse_same hparse⟩

/-! ## A clock of two words -/

/-- The bytes of a BEGIN_NODE token. -/
def beginNodeBytes (name : String) : List UInt8 :=
  be32Bytes fdtBeginNode ++ (strBytes name ++ 0 :: pad ((strBytes name).length + 1))

/-- The bytes of a PROP token whose name stands at an offset of the strings block. -/
def propBytes (offset : Nat) (value : List UInt8) : List UInt8 :=
  be32Bytes fdtProp ++ (be32Bytes value.length ++ (be32Bytes offset ++ (value ++ pad value.length)))

/-- A tree with a frequency of eight bytes. Behind a no-operation token it is aligned. -/
def clockTree (nop : Bool) : FdtTree :=
  .node "" [⟨"clock-frequency", [0, 0, 0, 0, 1, 0x31, 0x2d, 0], if nop then 0x1050 else 0x104c⟩] []

/-- The property and what follows it. -/
def clockRest : List UInt8 :=
  propBytes 0 [0, 0, 0, 0, 1, 0x31, 0x2d, 0] ++
    (be32Bytes fdtEndNode ++ (be32Bytes fdtEnd ++ []))

/-- A root with a clock-frequency of eight bytes, with or without a NOP in front of it. -/
def clockBlock (nop : Bool) : List UInt8 :=
  beginNodeBytes "" ++ (if nop then be32Bytes fdtNop ++ clockRest else clockRest)

def clockHeader (nop : Bool) : Header :=
  if nop then ⟨112, 56, 96, 40, 17, 16, 0, 16, 40⟩ else ⟨108, 56, 92, 40, 17, 16, 0, 16, 36⟩

/-- The blob of that block at 0x1000. The NOP moves the value by four bytes. -/
def clockFdt (nop : Bool) : Fdt :=
  ⟨⟨0x1000, (clockHeader nop).words.flatMap be32Bytes ++ (reservationBytes (0, 0) ++
    (clockBlock nop ++ (strBytes "clock-frequency" ++ [0])))⟩⟩

theorem clockFdt_encodes (nop : Bool) :
    (clockFdt nop).Encodes (clockHeader nop) (clockTree nop) [] where
  aligned := ⟨0x200, rfl⟩
  aligned_rsvmap := by
    cases nop <;> decide
  header := ⟨_, rfl⟩
  words_lt := by
    cases nop <;> decide
  rootName := rfl
  short := ⟨by decide, trivial⟩
  structureBlock := by
    have hname : Named ((clockFdt nop).header.skip (clockHeader nop).offDtStrings) 0
        "clock-frequency" := by
      refine ⟨?_, by decide, by decide +kernel, [], ?_⟩
      · cases nop <;> decide
      · cases nop <;> decide +kernel
    refine ⟨clockBlock nop, strBytes "clock-frequency" ++ [0], ?_, ⟨?_, ?_, ?_⟩, ?_⟩
    · cases nop with
      | true =>
          exact .token (.beginNode (by decide +kernel)) (.nop (.token
            (.prop (by decide) (by decide +kernel) hname)
            (.token .endNode (.token .finish .nil))))
      | false =>
          exact .token (.beginNode (by decide +kernel)) (.token
            (.prop (by decide) (by decide +kernel) hname)
            (.token .endNode (.token .finish .nil)))
    · cases nop <;> decide
    · cases nop <;> decide
    · cases nop <;> decide +kernel
    · cases nop <;> decide +kernel
  memoryReservationBlock := by
    refine ⟨clockBlock nop ++ (strBytes "clock-frequency" ++ [0]), ?_, ?_, ?_⟩
    · cases nop <;> decide
    · cases nop <;> decide
    · cases nop <;> decide +kernel
  reservations_lt := by simp

theorem clockTree_accepted (nop : Bool) : (clockTree nop).atZero.Accepted := ⟨_, rfl⟩

/-- Behind a no-operation token the frequency is read. -/
theorem clockFdt_reads : (clockFdt true).Reads (clockHeader true) (clockTree true) := by
  apply ((clockFdt_encodes true).reads_iff (clockTree_accepted true)).mpr
  rw [FdtTree.aligned_iff]
  exact ⟨by decide, trivial⟩

/-- Without it the read of the frequency faults. -/
theorem clockFdt_not_reads : ¬ ∀ (fdt : Fdt) (h : Header) (tree : FdtTree)
    (reservations : List (Nat × Nat)), fdt.Encodes h tree reservations →
    tree.atZero.Accepted → fdt.Reads h tree := by
  intro hall
  obtain ⟨dt, -, hparse, -⟩ :=
    (hall _ _ _ _ (clockFdt_encodes false) (clockTree_accepted false)).fromFdt
  obtain ⟨haligned, -⟩ := ((clockTree false).parse_eq_ok_iff_atZero none dt.root).mp hparse
  exact absurd (FdtTree.aligned_iff.mp haligned).1 (by decide)

/-! ## A blob with a bus and a device -/

/-- A root with one property and one child. -/
def uartTree : FdtTree :=
  .node "" [⟨"#size-cells", [0, 0, 0, 1], 0x1050⟩] [.node "uart@10" [] []]

/-- The structure block of the tree, with a no-operation token ahead of the property. -/
def uartBlock : List UInt8 :=
  (be32Bytes fdtBeginNode ++ (strBytes "" ++ 0 :: pad 1)) ++ (be32Bytes fdtNop ++
    ((be32Bytes fdtProp ++ (be32Bytes 4 ++ (be32Bytes 0 ++ ([0, 0, 0, 1] ++ pad 4)))) ++
      ((be32Bytes fdtBeginNode ++ (strBytes "uart@10" ++ 0 :: pad 8)) ++
        (be32Bytes fdtEndNode ++ (be32Bytes fdtEndNode ++ (be32Bytes fdtEnd ++ []))))))

def uartHeader : Header := ⟨120, 56, 108, 40, 17, 16, 0, 12, 52⟩

/-- The blob of the tree at 0x1000. -/
def uartFdt : Fdt :=
  ⟨⟨0x1000, uartHeader.words.flatMap be32Bytes ++ (reservationBytes (0, 0) ++
    (uartBlock ++ (strBytes "#size-cells" ++ [0])))⟩⟩

theorem uartFdt_encodes : uartFdt.Encodes uartHeader uartTree [] where
  aligned := by decide
  aligned_rsvmap := by decide
  header := ⟨_, rfl⟩
  words_lt := by decide
  rootName := rfl
  short := ⟨by decide, ⟨by decide, trivial⟩, trivial⟩
  structureBlock := by
    have hname : Named (uartFdt.header.skip 108) 0 "#size-cells" :=
      ⟨by decide, by decide, by decide +kernel, [], by decide +kernel⟩
    refine ⟨uartBlock, strBytes "#size-cells" ++ [0], ?_, ⟨by decide, by decide, by decide +kernel⟩,
      by decide +kernel⟩
    exact .token (.beginNode (by decide +kernel)) (.nop (.token
      (.prop (by decide) (by decide +kernel) hname) (.token (.beginNode (by decide +kernel))
        (.token .endNode (.token .endNode (.token .finish .nil))))))
  memoryReservationBlock := ⟨uartBlock ++ (strBytes "#size-cells" ++ [0]),
    by decide, by decide, by decide +kernel⟩
  reservations_lt := by simp

end Kruspix.Kernel.Devicetree
