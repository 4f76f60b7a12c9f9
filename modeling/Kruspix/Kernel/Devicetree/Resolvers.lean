import Kruspix.Kernel.Devicetree.ParsedNode
import Kruspix.Kernel.Devicetree.ResolveFdt
import Kruspix.Kernel.Devicetree.ResolveNode

/-!
# The two resolvers of physical addresses

The resolver of the blob and the one of the parsed tree start from one address. As long as
the parsed nodes have a window for the address both take the same one. There the resolver
of the parsed tree stops, and the other one goes on: they agree if the buses above leave
the address where it is.
-/

namespace Kruspix.Kernel.Devicetree

open Lib.Bytes Lib.Result Lib.Search Lib.Windows

namespace FdtTree

/-- The cells of the tree are one or two. -/
def SmallCells (tree : FdtTree) : Prop :=
  (∀ n, tree.cells .addressCells 2 = .ok n → n = 1 ∨ n = 2) ∧
    ∀ n, tree.cells .sizeCells 1 = .ok n → n = 1 ∨ n = 2

variable {tree root node : FdtTree} {trees above : List FdtTree} {n : Node} {nodes : List Node}
  {address length a b : Nat}

/-! ## Entries of one bus -/

/-- One or two cells are one number to both. -/
theorem cellsAsUsize_eq {cells : List Nat} (hlength : cells.length ≤ 2)
    (hlt : ∀ cell ∈ cells, cell < 2 ^ 32) : cellsAsUsize cells = some (cellsNumber cells) := by
  rw [cellsAsUsize, if_neg (by omega)]
  match cells with
  | [] => rfl
  | [x] =>
      have hx := hlt x (.head _)
      simp only [cellsNumber, List.foldl_cons, List.foldl_nil]
      congr 1
      rw [Nat.zero_shiftLeft, Nat.zero_mod, Nat.zero_or]
      omega
  | [x, y] =>
      have hx := hlt x (.head _)
      have hy := hlt y (.tail _ (.head _))
      simp only [cellsNumber, List.foldl_cons, List.foldl_nil]
      congr 1
      have hxmod : x * 2 ^ 32 % 2 ^ 64 = x <<< 32 := by
        rw [Nat.shiftLeft_eq]
        omega
      rw [Nat.zero_shiftLeft, Nat.zero_mod, Nat.zero_or, Nat.zero_mul, Nat.zero_mod, Nat.zero_add,
        hxmod, Nat.shiftLeft_add_eq_or_of_lt hy, Nat.shiftLeft_eq, Nat.mod_eq_of_lt (by omega)]

theorem cellsAsUsize_beWords {bs : List UInt8} {size : Nat} (hlength : bs.length = size * 4)
    (hsize : size ≤ 2) : cellsAsUsize (beWords bs) = some (cellsNumber (beWords bs)) := by
  apply cellsAsUsize_eq
  · rw [length_beWords, hlength, Nat.mul_div_cancel _ (by decide)]
    exact hsize
  · exact fun word => beWords_lt

/-- The entry that `from_raw` makes of a chunk has the numbers of the chunk. -/
theorem asUsize_fromChunk {addr upper size : Nat} {chunk : List UInt8}
    (hlength : chunk.length = (addr + upper + size) * 4) (haddr : addr ≤ 2) (hupper : upper ≤ 2)
    (hsize : size ≤ 2) : (RangesItemValue.fromChunk addr upper chunk).asUsize =
      some ⟨(RawProp.cutCells [addr, upper, size] (beWords chunk)).getD 0 0,
        (RawProp.cutCells [addr, upper, size] (beWords chunk)).getD 1 0,
        (RawProp.cutCells [addr, upper, size] (beWords chunk)).getD 2 0⟩ := by
  have htake : (chunk.take (addr * 4)).length = addr * 4 := by
    rw [List.length_take, hlength]
    omega
  have hmiddle : ((chunk.drop (addr * 4)).take (upper * 4)).length = upper * 4 := by
    rw [List.length_take, List.length_drop, hlength]
    omega
  have hchild := cellsAsUsize_beWords htake haddr
  have hparent := cellsAsUsize_beWords hmiddle hupper
  have hrest : ((chunk.drop (addr * 4)).drop (upper * 4)).length = size * 4 := by
    rw [List.length_drop, List.length_drop, hlength]
    omega
  have hsizes := cellsAsUsize_beWords hrest hsize
  have hwhole : ((beWords chunk).drop addr).drop upper =
      (((beWords chunk).drop addr).drop upper).take size := by
    rw [← beWords_drop, ← beWords_drop, ← beWords_take, List.take_of_length_le (Nat.le_of_eq hrest)]
  rw [RangesItemValue.asUsize, RangesItemValue.childBusAddrAsUsize,
    RangesItemValue.parentBusAddrAsUsize, RangesItemValue.lengthAsUsize]
  simp only [RangesItemValue.fromChunk, hchild, hparent, hsizes, RawProp.cutCells,
    List.getD_cons_zero, List.getD_cons_succ]
  rw [beWords_take, beWords_take, beWords_drop, beWords_drop, beWords_drop, ← hwhole]

/-- The entry of the blob and that of the parsed tree are one window. -/
def SameWindow (entry : Nat × Nat × Nat) (range : RangesItemValue) : Prop :=
  range.asUsize = some ⟨entry.1, entry.2.1, entry.2.2⟩

theorem holds_of_sameWindow {entry : Nat × Nat × Nat} {range : RangesItemValue}
    (h : SameWindow entry range) : Fdt.rangeHolds address entry = range.holds address := by
  rw [SameWindow, RangesItemValue.asUsize] at h
  split at h
  · rename_i child parent size hchild hparent hsize
    cases h
    simp only [Fdt.rangeHolds, RangesItemValue.holds, hchild, hparent, hsize]
  · cases h

theorem addressAndSizeCells_eq_ok {cells : Nat × Nat} (h : tree.addressAndSizeCells = .ok cells) :
    tree.cells .addressCells 2 = .ok cells.1 ∧ tree.cells .sizeCells 1 = .ok cells.2 := by
  rw [addressAndSizeCells] at h
  split at h
  · cases h
  · obtain ⟨addressCells, haddress, h⟩ := except_bind_eq_ok.mp h
    obtain ⟨sizeCells, hsize, h⟩ := except_bind_eq_ok.mp h
    cases h
    exact ⟨haddress, hsize⟩

/-- The entries of a node with `ranges` are cut by its cells and those of its parent. -/
theorem entries_eq_ok {prop : RawProp} {ranges : List (Nat × Nat × Nat)}
    (hkind : tree.standardProp .ranges = some prop) (h : tree.entries above = .ok ranges) :
    ∃ cells upper rest upperCells, above = upper :: rest ∧ tree.addressAndSizeCells = .ok cells ∧
      upper.addressAndSizeCells = .ok upperCells ∧
        prop.cellsTriplets cells.1 upperCells.1 cells.2 = .ok ranges := by
  rw [entries, hkind] at h
  split at h
  · cases h
  · obtain ⟨cells, hcells, h⟩ := except_bind_eq_ok.mp h
    cases above with
    | nil => cases h
    | cons upper rest =>
        obtain ⟨upperCells, hupper, h⟩ := except_bind_eq_ok.mp h
        exact ⟨cells, upper, rest, upperCells, rfl, hcells, hupper, h⟩

theorem cellsTriplets_eq_ok {prop : RawProp} {size1 size2 size3 : Nat}
    {triplets : List (Nat × Nat × Nat)} (h : prop.cellsTriplets size1 size2 size3 = .ok triplets) :
    triplets = (chunksExact ((size1 + size2 + size3) * 4) prop.value).map fun chunk =>
      ((RawProp.cutCells [size1, size2, size3] (beWords chunk)).getD 0 0,
        (RawProp.cutCells [size1, size2, size3] (beWords chunk)).getD 1 0,
        (RawProp.cutCells [size1, size2, size3] (beWords chunk)).getD 2 0) := by
  rw [RawProp.cellsTriplets] at h
  split at h
  · cases h
  · split at h
    · cases h
    · obtain ⟨chunks, hchunks, h⟩ := except_bind_eq_ok.mp h
      cases h
      rw [RawProp.cellsChunks] at hchunks
      split at hchunks
      · cases hchunks
      · cases hchunks
        rw [List.map_map]
        rfl

theorem SmallCells.le (hcells : tree.SmallCells) {cells : Nat × Nat}
    (h : tree.addressAndSizeCells = .ok cells) : cells.1 ≤ 2 ∧ cells.2 ≤ 2 := by
  obtain ⟨haddress, hsize⟩ := addressAndSizeCells_eq_ok h
  have hle := hcells.1 _ haddress
  have hle' := hcells.2 _ hsize
  omega

/-- Where the cells come first and are small, both see the same windows. -/
theorem entries_sameWindow (h : ParsedTo (tree :: above) (n :: nodes)) (hfirst : tree.CellsFirst)
    (hcells : ∀ t ∈ tree :: above, t.SmallCells) {ranges : List RangesItemValue}
    (hranges : n.ranges = some ranges) {triplets : List (Nat × Nat × Nat)}
    (hentries : tree.entries above = .ok triplets) :
    List.Forall₂ SameWindow triplets ranges := by
  cases h with
  | cons hnode h =>
      cases hkind : tree.standardProp .ranges with
      | none =>
          have hnone := standardProp_eq_none hnode hkind
          rw [Fdt.StandardProperty.asStr] at hnone
          rw [Node.ranges, hnone] at hranges
          cases hranges
      | some prop =>
          obtain ⟨cells, upper, rest, upperCells, rfl, hown, hupper, htriplets⟩ :=
            entries_eq_ok hkind hentries
          obtain ⟨htree, habove⟩ := List.forall_mem_cons.mp hcells
          have hle := htree.le hown
          have hle' := (habove upper (.head _)).le hupper
          cases h with
          | @cons _ _ upperNode nodes hparse h =>
              obtain ⟨haddress, hsize⟩ := addressAndSizeCells_eq_ok hown
              obtain ⟨hupperAddress, -⟩ := addressAndSizeCells_eq_ok hupper
              have haddress' := Except.ok.inj ((cells_addressCells hnode).symm.trans haddress)
              have hsize' := Except.ok.inj ((cells_sizeCells hnode).symm.trans hsize)
              have hupper' := Except.ok.inj ((cells_addressCells hparse).symm.trans hupperAddress)
              obtain ⟨chunks, hchunks, hranges'⟩ := ranges_eq_some hnode hfirst hkind
              change chunksOf (n.addressCells + upperNode.addressCells + n.sizeCells) _ = _
                at hchunks
              change n.ranges = some (chunks.map
                (RangesItemValue.fromChunk n.addressCells upperNode.addressCells)) at hranges'
              rw [haddress', hsize', hupper', chunksOf] at hchunks
              rw [haddress', hupper', hranges] at hranges'
              split at hchunks
              · cases hchunks
              · cases hchunks
                cases hranges'
                rw [cellsTriplets_eq_ok htriplets, List.forall₂_map_left_iff,
                  List.forall₂_map_right_iff, List.forall₂_same]
                intro chunk hchunk
                exact asUsize_fromChunk (length_of_mem_chunksExact hchunk) hle.1 hle'.1 hle.2

/-! ## The way up -/

/-- The parsed nodes up to this number take windows that map the address as the buses of the
blob do, and there the parsed node has none. -/
structure FollowsTo (nodes : List Node) (buses : List (List Window)) (address k : Nat) :
    Prop where
  le : k ≤ nodes.length
  takes : ∀ i < k, ∀ node, nodes[i]? = some node →
    ∃ w, node.Takes (addressOn buses address i) w ∧
      w.apply (addressOn buses address i) = addressOn buses address (i + 1)
  stops : ∀ node, nodes[k]? = some node → node.Stops (addressOn buses address k)

/-- From there on the buses of the blob leave the address where it is. -/
def Agrees (nodes : List Node) (buses : List (List Window)) (address : Nat) : Prop :=
  ∃ k, FollowsTo nodes buses address k ∧
    raiseAll (buses.drop k) (addressOn buses address k) = addressOn buses address k

/-- The climb ends where the parsed nodes no longer follow the buses. -/
theorem FollowsTo.climb_eq {buses : List (List Window)} {k : Nat}
    (h : FollowsTo nodes buses address k) (hlen : buses.length = nodes.length)
    (hclimb : climb length address nodes = .ok b) : b = addressOn buses address k := by
  induction nodes generalizing buses address k with
  | nil =>
      obtain rfl := Nat.le_zero.mp h.le
      exact (Except.ok.inj hclimb).symm
  | cons n nodes ih =>
      cases k with
      | zero =>
          have hstops : n.Stops address := h.stops n rfl
          rw [climb_stops hstops] at hclimb
          exact (Except.ok.inj hclimb).symm
      | succ k =>
          obtain ⟨w, hw, hnext⟩ := h.takes 0 (Nat.succ_pos k) n rfl
          obtain ⟨-, -, hclimb⟩ := (climb_takes hw).mp hclimb
          cases buses with
          | nil => cases hlen
          | cons windows buses =>
              rw [addressOn_zero, addressOn_succ, addressOn_zero] at hnext
              rw [addressOn_zero, hnext] at hclimb
              have hfollows : FollowsTo nodes buses (raise windows address) k :=
                ⟨Nat.le_of_succ_le_succ h.le,
                  fun i hi => h.takes (i + 1) (Nat.succ_lt_succ hi), h.stops⟩
              have hlen' : buses.length = nodes.length := Nat.succ.inj hlen
              rw [addressOn_succ]
              exact ih hfollows hlen' hclimb

theorem length_busWindows (trees : List FdtTree) : (busWindows trees).length = trees.length := by
  induction trees with
  | nil => rfl
  | cons tree trees ih => rw [busWindows, List.length_cons, ih, List.length_cons]

theorem ParsedTo.length_eq (h : ParsedTo trees nodes) : trees.length = nodes.length := by
  induction h with
  | nil => rfl
  | cons _ _ ih => rw [List.length_cons, List.length_cons, ih]

/-- Where the cells come first and are small, the parsed nodes follow the buses. -/
theorem exists_followsTo (h : ParsedTo trees nodes) (hfirst : ∀ t ∈ trees, t.CellsFirst)
    (hcells : ∀ t ∈ trees, t.SmallCells) (hscan : translate address trees = .ok a)
    (hclimb : climb length address nodes = .ok b) :
    ∃ k, FollowsTo nodes (busWindows trees) address k := by
  induction trees generalizing nodes address with
  | nil =>
      cases h
      exact ⟨0, le_rfl, nofun, nofun⟩
  | cons tree trees ih =>
      cases h with
      | @cons _ _ n nodes hnode h =>
          rcases stops_or_takes hclimb with hstops | ⟨w, hw⟩
          · refine ⟨0, Nat.zero_le _, nofun, ?_⟩
            rintro _ ⟨⟩
            exact hstops
          · obtain ⟨-, -, hclimb⟩ := (climb_takes hw).mp hclimb
            obtain ⟨before, range, after, hranges, hbefore, hholds, hasUsize⟩ := id hw
            obtain ⟨entries, found, hentries, hfind, -, hscan⟩ := translate_cons_eq_ok.mp hscan
            have hsame := entries_sameWindow (.cons hnode h) (hfirst tree (.head _)) hcells hranges
              hentries
            have hrel := findM?_rel hsame (fun _ _ => holds_of_sameWindow) hfind
              (findM?_eq_some_iff.mpr ⟨before, after, rfl, hbefore, hholds⟩)
            cases hrel with
            | @some entry _ hentry =>
                obtain rfl := Option.some.inj (hentry.symm.trans hasUsize)
                have hnext : raise (entries.map entryWindow) address =
                    (entryWindow entry).apply address := raise_of_findM? hfind
                obtain ⟨k, hle, htakes, hstops⟩ := ih h (List.forall_mem_cons.mp hfirst).2
                  (List.forall_mem_cons.mp hcells).2 hscan hclimb
                have hbus : busWindows (tree :: trees) =
                    entries.map entryWindow :: busWindows trees := by
                  rw [busWindows, hentries]
                rw [hbus]
                refine ⟨k + 1, Nat.succ_le_succ hle, ?_, ?_⟩
                · rintro (_ | i) hi node hnode'
                  · cases hnode'
                    exact ⟨_, hw, hnext.symm⟩
                  · rw [addressOn_succ, addressOn_succ, hnext]
                    exact htakes i (Nat.lt_of_succ_lt_succ hi) node hnode'
                · intro node hnode'
                  rw [addressOn_succ, hnext]
                  exact hstops node hnode'

end FdtTree

open FdtTree

section resolvers

variable {fdt : Fdt} {h : Header} {root node : FdtTree} {reservations : List (Nat × Nat)}
  {dt : DeviceTree} {path : String} {above : List FdtTree} {ptr : NodePtr} {reg : RegItemValue}
  {address length a b : Nat}

/-- The node of a path is below the nodes of the trees above. -/
theorem parsedTo_ancestors (henc : fdt.Encodes h root reservations)
    (hdt : DeviceTree.fromFdt fdt = .ok (some dt)) (hslash : '/' ∈ path.toList)
    (hpath : root.walkPath [] (Fdt.segments path) = some (node :: above))
    (hptr : dt.nodeByPath path = some ptr) : ParsedTo above ptr.ancestors := by
  rw [DeviceTree.nodeByPath, DeviceTree.toPath_of_slash hslash] at hptr
  have hroot : ParsedTo [root] [dt.root] := .cons (henc.parse_root hdt) .nil
  obtain ⟨chain, hchain, hparsed⟩ := walkPath_parsedTo hroot hptr
  obtain rfl := Option.some.inj (hpath.symm.trans hchain)
  cases hparsed with
  | cons _ hparsed => exact hparsed

theorem NodePtr.climb_of_resolve (hreg : (ptr.node.reg.bind fun reg => reg[0]?) = some reg)
    (haddress : reg.addressAsUsize = some address)
    (hlate : ptr.resolvePhysAddressAndLength 0 = .ok (some (b, length))) :
    climb length address ptr.ancestors = .ok b := by
  cases hlength : reg.lengthAsUsize with
  | none =>
      rw [resolvePhysAddressAndLength, hreg] at hlate
      simp only [haddress, hlength] at hlate
      cases hlate
  | some length' =>
      have hlate' := hlate
      rw [resolvePhysAddressAndLength, hreg] at hlate'
      simp only [haddress, hlength] at hlate'
      split at hlate'
      · cases hlate'
      · rename_i hclimb
        cases hlate'
        exact hclimb

/-- The two resolvers agree if the parsed nodes follow the buses of the blob up to where they
have no window, and the buses above leave the address where it is. If the cells come first
on every ancestor, they agree only then. -/
theorem resolvers_eq_iff (henc : fdt.Encodes h root reservations)
    (hdt : DeviceTree.fromFdt fdt = .ok (some dt)) (hslash : '/' ∈ path.toList)
    (hpath : root.walkPath [] (Fdt.segments path) = some (node :: above))
    (hunit : ((split '@' node.name)[1]?.bind fromStrRadix16) = some address)
    (hcells : ∀ t ∈ above, t.SmallCells) (hptr : dt.nodeByPath path = some ptr)
    (hreg : (ptr.node.reg.bind fun reg => reg[0]?) = some reg)
    (haddress : reg.addressAsUsize = some address)
    (hearly : fdt.resolvePhysAddr path = .ok (some a))
    (hlate : ptr.resolvePhysAddressAndLength 0 = .ok (some (b, length))) :
    (Agrees ptr.ancestors (busWindows above) address → a = b) ∧
      ((∀ t ∈ above, t.CellsFirst) →
        (a = b ↔ Agrees ptr.ancestors (busWindows above) address)) := by
  have hscan : translate address above = .ok a := by
    rw [resolvePhysAddr_describes henc hslash hpath hunit] at hearly
    split at hearly
    · cases htranslate : translate address above with
      | error e =>
          rw [htranslate] at hearly
          cases hearly
      | ok target =>
          rw [htranslate] at hearly
          cases hearly
          rfl
    · cases hearly
  have hclimb := NodePtr.climb_of_resolve hreg haddress hlate
  have hparsed := parsedTo_ancestors henc hdt hslash hpath hptr
  have hlen : (busWindows above).length = ptr.ancestors.length :=
    (length_busWindows above).trans hparsed.length_eq
  have ha := translate_eq_raiseAll hscan
  have hagrees : Agrees ptr.ancestors (busWindows above) address → a = b := by
    rintro ⟨k, hfollows, hleave⟩
    rw [ha, hfollows.climb_eq hlen hclimb, ← hleave, raiseAll_drop]
  refine ⟨hagrees, fun hfirst => ⟨fun heq => ?_, hagrees⟩⟩
  obtain ⟨k, hfollows⟩ := exists_followsTo hparsed hfirst hcells hscan hclimb
  refine ⟨k, hfollows, ?_⟩
  rw [raiseAll_drop, ← ha, heq, hfollows.climb_eq hlen hclimb]

end resolvers

/-! ## A blob with a bus below a bus -/

/-- A bus with a device on it and with a bus that has no `ranges`, with a device on that. -/
def busTree : FdtTree :=
  .node "" [⟨"#address-cells", [0, 0, 0, 1], 0x104c⟩]
    [.node "soc" [⟨"#address-cells", [0, 0, 0, 1], 0x1064⟩,
        ⟨"ranges", [0x7e, 0, 0, 0, 0x3f, 0, 0, 0, 1, 0, 0, 0], 0x1074⟩]
      [.node "timer@7e003000" [⟨"reg", [0x7e, 0, 0x30, 0, 0, 0, 0x10, 0], 0x10a0⟩] [],
        .node "bus" [⟨"#address-cells", [0, 0, 0, 1], 0x10c0⟩]
          [.node "uart@7e201000" [⟨"reg", [0x7e, 0x20, 0x10, 0, 0, 0, 2, 0], 0x10e4⟩] []]]]

/-- A timer on the bus `soc`, and a uart on a bus without `ranges` below it. -/
def busBlock : List UInt8 :=
  beginNodeBytes "" ++ (propBytes 0 [0, 0, 0, 1] ++ (beginNodeBytes "soc" ++
    (propBytes 0 [0, 0, 0, 1] ++ (propBytes 15 [0x7e, 0, 0, 0, 0x3f, 0, 0, 0, 1, 0, 0, 0] ++
      (beginNodeBytes "timer@7e003000" ++ (propBytes 22 [0x7e, 0, 0x30, 0, 0, 0, 0x10, 0] ++
        (be32Bytes fdtEndNode ++ (beginNodeBytes "bus" ++ (propBytes 0 [0, 0, 0, 1] ++
          (beginNodeBytes "uart@7e201000" ++ (propBytes 22 [0x7e, 0x20, 0x10, 0, 0, 0, 2, 0] ++
            (be32Bytes fdtEndNode ++ (be32Bytes fdtEndNode ++ (be32Bytes fdtEndNode ++
              (be32Bytes fdtEndNode ++ (be32Bytes fdtEnd ++ []))))))))))))))))

def busHeader : Header := ⟨282, 56, 256, 40, 17, 16, 0, 26, 200⟩

/-- The strings block: three names. -/
def busStrings : List UInt8 :=
  strBytes "#address-cells" ++ 0 :: (strBytes "ranges" ++ 0 :: (strBytes "reg" ++ [0]))

/-- The blob of that block at 0x1000. -/
def busFdt : Fdt :=
  ⟨⟨0x1000, busHeader.words.flatMap be32Bytes ++ (reservationBytes (0, 0) ++
    (busBlock ++ busStrings))⟩⟩

theorem busFdt_named : Named (busFdt.strings busHeader) 0 "#address-cells" ∧
    Named (busFdt.strings busHeader) 15 "ranges" ∧ Named (busFdt.strings busHeader) 22 "reg" :=
  ⟨⟨by decide, by decide, by decide +kernel, strBytes "ranges" ++ 0 :: (strBytes "reg" ++ [0]),
      by decide +kernel⟩,
    ⟨by decide, by decide, by decide +kernel, strBytes "reg" ++ [0], by decide +kernel⟩,
    ⟨by decide, by decide, by decide +kernel, [], by decide +kernel⟩⟩

theorem busFdt_encodes : busFdt.Encodes busHeader busTree [] where
  aligned := by decide
  aligned_rsvmap := by decide
  header := ⟨_, rfl⟩
  words_lt := by decide
  rootName := rfl
  short := by
    simp only [busTree, FdtTree.Short, FdtTree.ShortList]
    decide
  structureBlock := by
    obtain ⟨hcells, hranges, hreg⟩ := busFdt_named
    refine ⟨busBlock, busStrings, ?_, ⟨by decide, by decide, by decide +kernel⟩,
      by decide +kernel⟩
    apply EncodesBlock.token (.beginNode (by decide +kernel))
    apply EncodesBlock.token (.prop (by decide) (by decide +kernel) hcells)
    apply EncodesBlock.token (.beginNode (by decide +kernel))
    apply EncodesBlock.token (.prop (by decide) (by decide +kernel) hcells)
    apply EncodesBlock.token (.prop (by decide) (by decide +kernel) hranges)
    apply EncodesBlock.token (.beginNode (by decide +kernel))
    apply EncodesBlock.token (.prop (by decide) (by decide +kernel) hreg)
    apply EncodesBlock.token .endNode
    apply EncodesBlock.token (.beginNode (by decide +kernel))
    apply EncodesBlock.token (.prop (by decide) (by decide +kernel) hcells)
    apply EncodesBlock.token (.beginNode (by decide +kernel))
    apply EncodesBlock.token (.prop (by decide) (by decide +kernel) hreg)
    exact .token .endNode (.token .endNode (.token .endNode (.token .endNode
      (.token .finish .nil))))
  memoryReservationBlock := ⟨busBlock ++ busStrings, by decide, by decide, by decide +kernel⟩
  reservations_lt := by simp

/-- What the resolver of the parsed tree looks at and what it returns. -/
def NodePtr.seen (ptr : NodePtr) : Option RegItemValue × Except Fault (Option (Nat × Nat)) :=
  (ptr.node.reg.bind fun reg => reg[0]?, ptr.resolvePhysAddressAndLength 0)

theorem busFdt_nodeByPath {path : String} (hslash : '/' ∈ path.toList)
    (seen : Option RegItemValue × Except Fault (Option (Nat × Nat)))
    (hseen : (busTree.parse none).map (fun root =>
      (root.walkPath [] [] (Fdt.segments path)).map NodePtr.seen) = .ok (some seen)) :
    ∃ dt ptr, DeviceTree.fromFdt busFdt = .ok (some dt) ∧ dt.nodeByPath path = some ptr ∧
      ptr.seen = seen := by
  cases hroot : busTree.parse none with
  | error e =>
      rw [hroot] at hseen
      cases hseen
  | ok root =>
      obtain ⟨dt, hdt, rfl⟩ := busFdt_encodes.fromFdt hroot
      rw [hroot] at hseen
      obtain ⟨ptr, hptr, hseen⟩ := Option.map_eq_some_iff.mp (Except.ok.inj hseen)
      refine ⟨dt, ptr, hdt, ?_, hseen⟩
      rw [DeviceTree.nodeByPath, DeviceTree.toPath_of_slash hslash]
      exact hptr

theorem FdtTree.smallCells_of_eq {tree : FdtTree} (haddress : tree.cells .addressCells 2 = .ok 1)
    (hsize : tree.cells .sizeCells 1 = .ok 1) : tree.SmallCells := by
  constructor
  · intro n hn
    exact .inl (Except.ok.inj (hn.symm.trans haddress))
  · intro n hn
    exact .inl (Except.ok.inj (hn.symm.trans hsize))

theorem FdtTree.cellsFirst_of_pairwise {tree : FdtTree}
    (h : tree.props.Pairwise fun prop p => prop.name = "ranges" →
      p.name ≠ "#address-cells" ∧ p.name ≠ "#size-cells") : tree.CellsFirst := by
  intro before prop after hsplit hname p hp
  rw [hsplit, List.pairwise_append, List.pairwise_cons] at h
  exact h.2.1.1 p hp hname

/-- On the first bus both take its window. -/
theorem resolvers_eq_timer : ∃ dt ptr, DeviceTree.fromFdt busFdt = .ok (some dt) ∧
    dt.nodeByPath "/soc/timer@7e003000" = some ptr ∧
      Agrees ptr.ancestors (busWindows (busTree.children ++ [busTree])) 0x7e003000 := by
  have hslash : '/' ∈ "/soc/timer@7e003000".toList := by decide +kernel
  have hpath : busTree.walkPath [] (Fdt.segments "/soc/timer@7e003000") =
      some (.node "timer@7e003000" [⟨"reg", [0x7e, 0, 0x30, 0, 0, 0, 0x10, 0], 0x10a0⟩] [] ::
        (busTree.children ++ [busTree])) := by
    rw [show Fdt.segments "/soc/timer@7e003000" = ["soc", "timer@7e003000"] by decide +kernel]
    rfl
  have hunit : ((split '@' "timer@7e003000")[1]?.bind fromStrRadix16) = some 0x7e003000 := by
    decide +kernel
  obtain ⟨dt, ptr, hdt, hptr, hseen⟩ := busFdt_nodeByPath hslash
    (some ⟨[0x7e003000], [0x1000]⟩, .ok (some (0x3f003000, 0x1000))) (by decide +kernel)
  obtain ⟨hreg, hlate⟩ := Prod.mk.inj hseen
  have hearly : busFdt.resolvePhysAddr "/soc/timer@7e003000" = .ok (some 0x3f003000) := by
    rw [resolvePhysAddr_describes busFdt_encodes hslash hpath hunit]
    decide +kernel
  have hcells : ∀ t ∈ busTree.children ++ [busTree], t.SmallCells := by
    simp only [busTree, children, List.cons_append, List.nil_append, List.mem_cons,
      List.not_mem_nil, or_false, forall_eq_or_imp, forall_eq]
    exact ⟨smallCells_of_eq (by decide +kernel) (by decide +kernel),
      smallCells_of_eq (by decide +kernel) (by decide +kernel)⟩
  have hfirst : ∀ t ∈ busTree.children ++ [busTree], t.CellsFirst := by
    intro t ht
    apply cellsFirst_of_pairwise
    revert t
    decide +kernel
  exact ⟨dt, ptr, hdt, hptr, ((resolvers_eq_iff busFdt_encodes hdt hslash hpath hunit hcells hptr
    hreg rfl hearly hlate).2 hfirst).mp rfl⟩

/-- Below the second bus the resolver of the parsed tree stops before the first one. -/
theorem resolvers_ne_uart : ∃ dt ptr, DeviceTree.fromFdt busFdt = .ok (some dt) ∧
    dt.nodeByPath "/soc/bus/uart@7e201000" = some ptr ∧
      (ptr.node.reg.bind fun reg => reg[0]?) = some ⟨[0x7e201000], [0x200]⟩ ∧
        busFdt.resolvePhysAddr "/soc/bus/uart@7e201000" = .ok (some 0x3f201000) ∧
          ptr.resolvePhysAddressAndLength 0 = .ok (some (0x7e201000, 0x200)) := by
  have hslash : '/' ∈ "/soc/bus/uart@7e201000".toList := by decide +kernel
  have hsegments : Fdt.segments "/soc/bus/uart@7e201000" = ["soc", "bus", "uart@7e201000"] := by
    decide +kernel
  obtain ⟨node, above, hpath, hunit, htranslate⟩ : ∃ node above,
      busTree.walkPath [] (Fdt.segments "/soc/bus/uart@7e201000") = some (node :: above) ∧
        ((split '@' node.name)[1]?.bind fromStrRadix16) = some 0x7e201000 ∧
          (if above.length < Fdt.maxPathDepth then (translate 0x7e201000 above).map some
            else .ok none) = .ok (some 0x3f201000) := by
    rw [hsegments]
    exact ⟨_, _, rfl, by decide +kernel, by decide +kernel⟩
  obtain ⟨dt, ptr, hdt, hptr, hseen⟩ := busFdt_nodeByPath hslash
    (some ⟨[0x7e201000], [0x200]⟩, .ok (some (0x7e201000, 0x200))) (by decide +kernel)
  obtain ⟨hreg, hlate⟩ := Prod.mk.inj hseen
  refine ⟨dt, ptr, hdt, hptr, hreg, ?_, hlate⟩
  rw [resolvePhysAddr_describes busFdt_encodes hslash hpath hunit]
  exact htranslate

end Kruspix.Kernel.Devicetree
