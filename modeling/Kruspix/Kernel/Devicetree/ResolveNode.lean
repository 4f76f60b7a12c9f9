import Kruspix.Kernel.Devicetree.Node
import Kruspix.Lib.Search
import Kruspix.Lib.Windows

/-!
# The physical address of a node

Each bus maps the addresses of its children to its own by the windows in `ranges`. The
resolver climbs from the node to the first ancestor without an entry for the address. It
ends where the buses lead as long as the first entry that has the address maps it as they
do and is longer than the interval.
-/

namespace Kruspix.Kernel.Devicetree

open Lib.Search Lib.Windows

/-- The number in the cells. -/
def cellsValue (cells : List Nat) : Nat := cells.foldl (fun n part => n * 2 ^ 32 + part) 0

/-- The window that an entry of `ranges` describes. -/
def RangesItemValue.window (range : RangesItemValue) : Window :=
  ⟨cellsValue range.childBusAddr, cellsValue range.parentBusAddr, cellsValue range.length⟩

/-- The window as the resolver reads it, if its cells fit a `usize`. -/
def RangesItemValue.asUsize (range : RangesItemValue) : Option Window :=
  match range.childBusAddrAsUsize, range.parentBusAddrAsUsize, range.lengthAsUsize with
  | some child, some parent, some size => some ⟨child, parent, size⟩
  | _, _, _ => none

/-- The first entry of the node that has the address is this window. -/
def Node.Takes (node : Node) (address : Nat) (w : Window) : Prop :=
  ∃ before range after, node.ranges = some (before ++ range :: after) ∧
    (∀ r ∈ before, r.holds address = .ok false) ∧ range.holds address = .ok true ∧
      range.asUsize = some w

/-- No entry of the node has the address. -/
def Node.Stops (node : Node) (address : Nat) : Prop :=
  ∀ ranges, node.ranges = some ranges → ∀ range ∈ ranges, range.holds address = .ok false

/-- The bus maps the interval to the one at the next address: `ranges` is empty, or one of its
entries contains the interval. -/
def Node.Maps (bus : Node) (length address next : Nat) : Prop :=
  bus.ranges = some [] ∧ next = address ∨
    ∃ ranges range, bus.ranges = some ranges ∧ range ∈ ranges ∧
      range.window.Contains address length ∧ next = range.window.apply address

/-- The addresses of an interval on its way up: on the buses below the root, which map it, and
from the root on, which leaves it. -/
structure Translates (length : Nat) (ancestors : List Node) (addrs : Nat → Nat) : Prop where
  bus : ∀ i bus, i + 1 < ancestors.length → ancestors[i]? = some bus →
    bus.Maps length (addrs i) (addrs (i + 1))
  root : ∀ i, ancestors.length ≤ i + 1 → addrs (i + 1) = addrs i

/-- Up to some ancestor the first entry that has the address maps it to the next one, and is
longer than the interval. There no entry has the address, and the ones above leave it. -/
def Followed (length : Nat) (ancestors : List Node) (addrs : Nat → Nat) : Prop :=
  ∃ k ≤ ancestors.length, addrs k = addrs ancestors.length ∧
    (∀ i < k, ∀ node, ancestors[i]? = some node → ∃ w, node.Takes (addrs i) w ∧
      length < w.size ∧ w.apply (addrs i) < 2 ^ 64 ∧ w.apply (addrs i) = addrs (i + 1)) ∧
    ∀ node, ancestors[k]? = some node → node.Stops (addrs k)

/-- Entries that have one address map it alike, as they are read and in full. -/
def Node.Unambiguous (node : Node) : Prop :=
  ∀ ranges, node.ranges = some ranges → ∀ range ∈ ranges, ∀ range' ∈ ranges,
    ∀ w address, range.asUsize = some w → w.Holds address → range'.window.Holds address →
      w.apply address = range'.window.apply address

variable {length address target : Nat} {range : RangesItemValue} {w : Window} {node : Node}
  {ancestors above : List Node} {addrs : Nat → Nat}

/-! ## One bus -/

/-- An entry that holds an address has cells that fit. -/
theorem RangesItemValue.asUsize_of_holds (h : range.holds address = .ok true) :
    ∃ w, range.asUsize = some w ∧ w.Holds address := by
  simp only [holds] at h
  split at h
  · rename_i child parent size hchild hparent hsize
    refine ⟨⟨child, parent, size⟩, ?_, ?_⟩
    · rw [asUsize, hchild, hparent, hsize]
    · split at h
      · split at h
        · cases h
        · rename_i hle _
          exact ⟨hle, by simpa using h⟩
      · cases h
  · cases h

theorem RangesItemValue.translate_eq_ok (hw : range.asUsize = some w) :
    range.translate length address = .ok target ↔
      length < w.size ∧ w.apply address < 2 ^ 64 ∧ target = w.apply address := by
  simp only [asUsize] at hw
  split at hw
  · rename_i child parent size hchild hparent hsize
    cases hw
    simp only [translate, hchild, hparent, hsize, Window.apply]
    split
    · rename_i hlt
      simp only [reduceCtorEq, false_iff]
      rintro ⟨hlt', -⟩
      exact hlt hlt'
    · rename_i hlt
      split
      · rename_i hge
        simp only [reduceCtorEq, false_iff]
        rintro ⟨-, hlt', -⟩
        omega
      · rename_i hge
        simp only [Except.ok.injEq]
        constructor
        · rintro rfl
          exact ⟨Classical.not_not.mp hlt, Nat.lt_of_not_ge hge, rfl⟩
        · rintro ⟨-, -, rfl⟩
          rfl
  · cases hw

/-- A node without an entry for the address ends the climb. -/
theorem climb_stops (h : node.Stops address) :
    climb length address (node :: above) = .ok address := by
  rw [climb]
  cases hranges : node.ranges with
  | none => rfl
  | some ranges => simp only [findM?_eq_none_iff.mpr (h ranges hranges)]

/-- A node that takes a window maps the address, if the window is longer than the interval. -/
theorem climb_takes (h : node.Takes address w) :
    climb length address (node :: above) = .ok target ↔
      length < w.size ∧ w.apply address < 2 ^ 64 ∧
        climb length (w.apply address) above = .ok target := by
  obtain ⟨before, range, after, hranges, hbefore, hholds, hw⟩ := h
  have hfind := findM?_eq_some_iff.mpr ⟨before, after, rfl, hbefore, hholds⟩
  rw [climb]
  simp only [hranges, hfind]
  constructor
  · intro h
    split at h
    · cases h
    · rename_i next hnext
      obtain ⟨hlength, hfits, rfl⟩ := (RangesItemValue.translate_eq_ok hw).mp hnext
      exact ⟨hlength, hfits, h⟩
  · rintro ⟨hlength, hfits, h⟩
    have hnext := (RangesItemValue.translate_eq_ok hw).mpr ⟨hlength, hfits, rfl⟩
    simp only [hnext]
    exact h

/-- A climb that succeeds stops at the node or takes a window there. -/
theorem stops_or_takes (h : climb length address (node :: above) = .ok target) :
    node.Stops address ∨ ∃ w, node.Takes address w := by
  rw [climb] at h
  split at h
  · rename_i hranges
    left
    intro ranges hsome
    rw [hranges] at hsome
    cases hsome
  · rename_i ranges hranges
    split at h
    · cases h
    · rename_i hfind
      left
      intro ranges' hsome
      obtain rfl := Option.some.inj (hranges.symm.trans hsome)
      exact findM?_eq_none_iff.mp hfind
    · rename_i range hfind
      obtain ⟨before, after, rfl, hbefore, hholds⟩ := findM?_eq_some_iff.mp hfind
      obtain ⟨w, hw, -⟩ := RangesItemValue.asUsize_of_holds hholds
      exact .inr ⟨w, before, range, after, hranges, hbefore, hholds, hw⟩

/-! ## The way up -/

/-- The climb ends at the first ancestor that has no window for the address. -/
theorem climb_of_takes {k : Nat}
    (htakes : ∀ i < k, ∀ node, ancestors[i]? = some node → ∃ w, node.Takes (addrs i) w ∧
      length < w.size ∧ w.apply (addrs i) < 2 ^ 64 ∧ w.apply (addrs i) = addrs (i + 1))
    (hstops : ∀ node, ancestors[k]? = some node → node.Stops (addrs k))
    (hk : k ≤ ancestors.length) : climb length (addrs 0) ancestors = .ok (addrs k) := by
  induction ancestors generalizing k addrs with
  | nil =>
      obtain rfl := Nat.le_zero.mp hk
      rfl
  | cons node above ih =>
      cases k with
      | zero => exact climb_stops (hstops node rfl)
      | succ k =>
          obtain ⟨w, hw, hlength, hfits, hnext⟩ := htakes 0 (Nat.succ_pos k) node rfl
          have hclimb := @ih (fun i => addrs (i + 1)) k
            (fun i hi => htakes (i + 1) (Nat.succ_lt_succ hi)) hstops
            (Nat.le_of_succ_le_succ hk)
          rw [climb_takes hw, hnext]
          exact ⟨hlength, hnext ▸ hfits, hclimb⟩

theorem Translates.tail (h : Translates length (node :: above) addrs) :
    Translates length above fun i => addrs (i + 1) where
  bus i bus hi hbus := h.bus (i + 1) bus (Nat.succ_lt_succ hi) hbus
  root i hi := h.root (i + 1) (Nat.succ_le_succ hi)

/-- What an unambiguous bus takes maps the address as the bus does. -/
theorem Node.Takes.apply_eq (hw : node.Takes address w) (hunambiguous : node.Unambiguous)
    {next : Nat} (hmaps : node.Maps length address next) (hlength : 0 < length) :
    w.apply address = next := by
  obtain ⟨before, range, after, hranges, -, hholds, hw⟩ := hw
  rcases hmaps with ⟨hempty, -⟩ | ⟨ranges, range', hranges', hmem, hcontains, rfl⟩
  · rw [hranges] at hempty
    cases before <;> cases hempty
  · obtain rfl := Option.some.inj (hranges.symm.trans hranges')
    obtain ⟨w', hw', hheld⟩ := RangesItemValue.asUsize_of_holds hholds
    obtain rfl := Option.some.inj (hw.symm.trans hw')
    exact hunambiguous _ hranges range (List.mem_append_right _ List.mem_cons_self) range' hmem w
      address hw hheld (hcontains.holds hlength)

/-- Without ambiguous entries the climb ends where the buses lead only if it follows them. -/
theorem followed_of_climb (hlength : 0 < length)
    (hunambiguous : ∀ node ∈ ancestors, node.Unambiguous)
    (htranslates : Translates length ancestors addrs)
    (h : climb length (addrs 0) ancestors = .ok (addrs ancestors.length)) :
    Followed length ancestors addrs := by
  induction ancestors generalizing addrs with
  | nil => exact ⟨0, le_rfl, rfl, nofun, nofun⟩
  | cons node above ih =>
      rcases stops_or_takes h with hstops | ⟨w, hw⟩
      · rw [climb_stops hstops, Except.ok.injEq] at h
        refine ⟨0, Nat.zero_le _, h, nofun, ?_⟩
        rintro _ ⟨⟩
        exact hstops
      · obtain ⟨hlong, hfits, hclimb⟩ := (climb_takes hw).mp h
        obtain ⟨hnode, habove⟩ := List.forall_mem_cons.mp hunambiguous
        have hnext : w.apply (addrs 0) = addrs 1 := by
          cases above with
          | nil => exact Except.ok.inj hclimb
          | cons parent above =>
              exact hw.apply_eq hnode (htranslates.bus 0 node (by simp) rfl) hlength
        rw [hnext] at hclimb
        obtain ⟨k, hk, hend, htakes, hstops⟩ := ih habove htranslates.tail hclimb
        refine ⟨k + 1, Nat.succ_le_succ hk, hend, ?_, hstops⟩
        rintro (_ | i) hi node' hnode'
        · cases hnode'
          exact ⟨w, hw, hlong, hfits, hnext⟩
        · exact htakes i (Nat.lt_of_succ_lt_succ hi) node' hnode'

section resolve

variable {ptr : NodePtr} {regIndex : Nat} {reg : RegItemValue}

/-- The accessor returns where the climb from the address of the `reg` entry ends. -/
theorem NodePtr.resolve_eq_ok (hreg : (ptr.node.reg.bind fun reg => reg[regIndex]?) = some reg)
    (haddress : reg.addressAsUsize = some address) (hlength : reg.lengthAsUsize = some length) :
    ptr.resolvePhysAddressAndLength regIndex = .ok (some (target, length)) ↔
      climb length address ptr.ancestors = .ok target := by
  rw [resolvePhysAddressAndLength, hreg]
  simp only [haddress, hlength]
  constructor
  · intro h
    split at h
    · cases h
    · rename_i hclimb
      cases h
      exact hclimb
  · intro h
    rw [h]

/-- A node whose buses all map its interval gets the address that they lead to if the first
entries that have the address follow the buses, and only then if no entries that have one
address map it apart. -/
theorem resolvePhysAddressAndLength_eq_iff
    (hreg : (ptr.node.reg.bind fun reg => reg[regIndex]?) = some reg)
    (haddress : reg.addressAsUsize = some (addrs 0)) (hlength : reg.lengthAsUsize = some length)
    (hpos : 0 < length) (htranslates : Translates length ptr.ancestors addrs) :
    (Followed length ptr.ancestors addrs → ptr.resolvePhysAddressAndLength regIndex =
      .ok (some (addrs ptr.ancestors.length, length))) ∧
    ((∀ node ∈ ptr.ancestors, node.Unambiguous) → ptr.resolvePhysAddressAndLength regIndex =
      .ok (some (addrs ptr.ancestors.length, length)) → Followed length ptr.ancestors addrs) := by
  rw [NodePtr.resolve_eq_ok hreg haddress hlength]
  constructor
  · rintro ⟨k, hk, hend, htakes, hstops⟩
    rw [climb_of_takes htakes hstops hk, hend]
  · intro hunambiguous
    exact followed_of_climb hpos hunambiguous htranslates

end resolve

/-- A bus with one window. -/
def socNode (range : RangesItemValue) : Node :=
  ⟨"soc", [⟨"ranges", .standard (.ranges [range]), rfl⟩], []⟩

/-- A device below the bus. -/
def uartNodePtr (range : RangesItemValue) : NodePtr where
  node := ⟨"uart@7e201000", [⟨"reg", .standard (.reg [⟨[0x7e201000], [0x200]⟩]), rfl⟩], []⟩
  ancestors := [socNode range, ⟨"", [], []⟩]
  addr := [0, 0]

/-- The addresses of the device on the bus, on the root and above. -/
def uartAddrs : Nat → Nat
  | 0 => 0x7e201000
  | _ => 0x3f201000

theorem uartNodePtr_translates {range : RangesItemValue}
    (h : range.window.Contains 0x7e201000 0x200)
    (happly : range.window.apply 0x7e201000 = 0x3f201000) :
    Translates 0x200 (uartNodePtr range).ancestors uartAddrs where
  bus i bus hi hbus := by
    obtain rfl : i = 0 := by
      change i + 1 < 2 at hi
      omega
    cases hbus
    exact Or.inr ⟨[range], range, rfl, List.mem_singleton_self _, h, happly.symm⟩
  root i hi := by
    change 2 ≤ i + 1 at hi
    obtain ⟨j, rfl⟩ : ∃ j, i = j + 1 := ⟨i - 1, by omega⟩
    rfl

/-- A window that is longer than the interval is followed to the root. -/
theorem resolvePhysAddressAndLength_uart :
    (uartNodePtr ⟨[0x7e000000], [0x3f000000], [0x1000000]⟩).resolvePhysAddressAndLength 0 =
      .ok (some (0x3f201000, 0x200)) := by
  apply (resolvePhysAddressAndLength_eq_iff rfl rfl rfl (by decide)
    (uartNodePtr_translates (by decide) (by decide))).1
  refine ⟨1, by decide, rfl, ?_, ?_⟩
  · intro i hi node hnode
    obtain rfl := Nat.lt_one_iff.mp hi
    cases hnode
    exact ⟨⟨0x7e000000, 0x3f000000, 0x1000000⟩,
      ⟨[], _, [], rfl, nofun, by decide, by decide⟩, by decide, by decide, by decide⟩
  · intro node hnode
    cases hnode
    intro ranges hranges
    cases hranges

/-- A window that is the interval itself fails the assertion. -/
theorem resolvePhysAddressAndLength_exact :
    Translates 0x200 (uartNodePtr ⟨[0x7e201000], [0x3f201000], [0x200]⟩).ancestors uartAddrs ∧
      (uartNodePtr ⟨[0x7e201000], [0x3f201000], [0x200]⟩).resolvePhysAddressAndLength 0 =
        .error .assertion :=
  ⟨uartNodePtr_translates (by decide) (by decide), rfl⟩

end Kruspix.Kernel.Devicetree
