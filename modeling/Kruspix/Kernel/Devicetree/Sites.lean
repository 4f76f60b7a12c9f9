import Kruspix.Kernel.Devicetree.Decodable

/-!
# How far a tree is read

`from_fdt` takes the names and the properties of a tree in document order. It stops with
an error at the first name that is too long, and it fails at the first property that
cannot be decoded where it stands.
-/

namespace Kruspix.Kernel.Devicetree

open Lib.Bytes Lib.Iterator Lib.Iterator.Iter Lib.Result

/-- The name of a node, or a property behind those that its node has so far, below a parent
with the properties `upper`. The root stands in for its missing parent. -/
inductive Site
  | node (name : String)
  | prop (prop : RawProp) (own upper : List RawProp)

namespace Site

/-- The iterator accepts the name. -/
def Readable : Site → Prop
  | node name => (strBytes name).length ≤ 51
  | prop _ _ _ => True

instance : DecidablePred Readable
  | node _ => inferInstanceAs (Decidable (_ ≤ _))
  | prop _ _ _ => inferInstanceAs (Decidable True)

/-- The property at the site can be decoded. -/
def Decodable : Site → Prop
  | node _ => True
  | prop p own upper => p.Decodable own upper

/-- Every property ahead of the first name that is too long can be decoded. -/
def Tolerates (sites : List Site) : Prop :=
  ∀ site ∈ sites.takeWhile fun site => decide site.Readable, site.Decodable

variable {name : String} {p : RawProp} {own upper : List RawProp} {sites : List Site}

theorem tolerates_nil : Tolerates [] := by
  intro site hsite
  cases hsite

theorem tolerates_node_long (h : 51 < (strBytes name).length) :
    Tolerates (.node name :: sites) := by
  have hlong : ¬ (node name).Readable := Nat.not_le.mpr h
  rw [Tolerates, List.takeWhile_cons_of_neg (by simpa using hlong)]
  exact tolerates_nil

theorem tolerates_node (h : (strBytes name).length ≤ 51) :
    Tolerates (.node name :: sites) ↔ Tolerates sites := by
  have hshort : (node name).Readable := h
  rw [Tolerates, List.takeWhile_cons_of_pos (by simpa using hshort), List.forall_mem_cons]
  exact and_iff_right trivial

theorem tolerates_prop :
    Tolerates (.prop p own upper :: sites) ↔ p.Decodable own upper ∧ Tolerates sites := by
  have hreadable : (prop p own upper).Readable := trivial
  rw [Tolerates, List.takeWhile_cons_of_pos (by simpa using hreadable), List.forall_mem_cons]
  rfl

end Site

/-- The properties behind those that the node has. -/
def propSites (upper : Option (List RawProp)) : List RawProp → List RawProp → List Site
  | _, [] => []
  | own, p :: props => .prop p own (upper.getD own) :: propSites upper (own ++ [p]) props

namespace FdtTree

mutual

/-- The names and the properties of a tree in document order. -/
def sites (upper : Option (List RawProp)) : FdtTree → List Site
  | .node name props children =>
      .node name :: (propSites upper [] props ++ sitesList props children)

/-- The sites of the children, in order. -/
def sitesList (upper : List RawProp) : List FdtTree → List Site
  | [] => []
  | tree :: trees => sites (some upper) tree ++ sitesList upper trees

end

theorem sites_eq (upper : Option (List RawProp)) (tree : FdtTree) :
    tree.sites upper =
      .node tree.name :: (propSites upper [] tree.props ++ sitesList tree.props tree.children) := by
  cases tree with
  | node name props children => rw [sites, FdtTree.name, FdtTree.props, FdtTree.children]

/-- Every property that is read can be decoded. -/
def Decodable (tree : FdtTree) : Prop := Site.Tolerates (tree.sites none)

end FdtTree

/-! ## The loop -/

/-- The loop of `from_fdt`. -/
abbrev runLoop (s : StructureBlockIter) (b : Builder) : Except Fault Outcome :=
  StructureBlockIter.iter.forEach Builder.entry b s

variable {s t : StructureBlockIter} {b b' : Builder} {entry : Except Unit StructureBlockEntry}
  {strings : Cursor} {above : List Node} {uppers : List (List RawProp)} {more : List Site}
  {rest tokens : List Token} {phandleMap : List (Nat × List Nat)}

theorem runLoop_next (hnext : s.next = .ok (some entry, t))
    (hentry : b.entry entry = .ok (.inl b')) : runLoop s b = runLoop t b' := by
  have hitem : StructureBlockIter.iter.next s = .ok (some entry, t) := hnext
  rw [runLoop, Iter.forEach]
  split <;> simp_all

theorem runLoop_return {c : Option (Node × List (Nat × List Nat))}
    (hnext : s.next = .ok (some entry, t)) (hentry : b.entry entry = .ok (.inr c)) :
    runLoop s b = .ok (.inr c) := by
  have hitem : StructureBlockIter.iter.next s = .ok (some entry, t) := hnext
  rw [runLoop, Iter.forEach]
  split <;> simp_all

theorem runLoop_error {e : Fault} (hnext : s.next = .ok (some entry, t))
    (hentry : b.entry entry = .error e) : runLoop s b = .error e := by
  have hitem : StructureBlockIter.iter.next s = .ok (some entry, t) := hnext
  rw [runLoop, Iter.forEach]
  split <;> simp_all

/-- From here on the loop reads the sites. It does not fail while they can be decoded, and
it returns a tree only if no name is too long. -/
structure Reaches (s : StructureBlockIter) (b : Builder) (sites : List Site) : Prop where
  isOk_iff : (∃ r, runLoop s b = .ok r) ↔ Site.Tolerates sites
  readable : ∀ root, runLoop s b = .ok (.inr (some root)) → ∀ site ∈ sites, site.Readable

theorem Reaches.of_eq {sites : List Site} (hrun : runLoop s b = runLoop t b')
    (h : Reaches t b' sites) : Reaches s b sites :=
  ⟨by rw [hrun]; exact h.isOk_iff, by rw [hrun]; exact h.readable⟩

/-- The loop takes the properties. -/
theorem reaches_props {props own : List RawProp} {node : Node}
    (h : Ready strings s (props.map .prop ++ tokens)) (hskip : s.skipProps = false)
    (hprev : s.prevToken ≠ fdtEndNode) (hnode : node.HasParsed own)
    (habove : List.Forall₂ Node.HasParsed above uppers)
    (hmore : ∀ t node' phandleMap', Ready strings t tokens → t.skipProps = false →
      node'.HasParsed (own ++ props) → Reaches t ⟨node' :: above, phandleMap'⟩ more) :
    Reaches s ⟨node :: above, phandleMap⟩ (propSites uppers.head? own props ++ more) := by
  induction props generalizing s node own phandleMap with
  | nil =>
      rw [List.append_nil] at hmore
      exact hmore s node phandleMap h hskip hnode
  | cons p props ih =>
      obtain ⟨t, ht, htskip, htprev, hready⟩ := Ready.nextProp h hskip hprev
      have hupper : (above.head?.getD node).HasParsed (uppers.head?.getD own) := by
        cases habove with
        | nil => exact hnode
        | cons hparent _ => exact hparent
      have hdecodes := PropertyValue.fromRaw_isOk_iff p hnode hupper
      rw [propSites, List.cons_append]
      cases hraw : Property.fromRaw p node above.head? with
      | error e =>
          have hentry : Builder.entry ⟨node :: above, phandleMap⟩ (.ok (.prop p)) = .error e := by
            simp only [Builder.entry, Builder.prop, hraw]
          have hrun := runLoop_error ht hentry
          have hnot : ¬ p.Decodable own (uppers.head?.getD own) := by
            rw [← hdecodes]
            rintro ⟨value, hvalue⟩
            rw [Property.fromRaw] at hraw
            split at hraw
            · rename_i he
              rw [hvalue] at he
              cases he
            · cases hraw
          constructor
          · rw [hrun, Site.tolerates_prop]
            constructor
            · rintro ⟨r, hr⟩
              cases hr
            · intro hall
              exact absurd hall.1 hnot
          · intro root hroot
            rw [hrun] at hroot
            cases hroot
      | ok property =>
          obtain ⟨hname, hvalue⟩ := Property.fromRaw_eq_ok.mp hraw
          obtain ⟨phandleMap', hentry⟩ : ∃ phandleMap',
              Builder.entry ⟨node :: above, phandleMap⟩ (.ok (.prop p)) = .ok (.inl
                ⟨{ node with properties := node.properties ++ [property] } :: above,
                  phandleMap'⟩) := by
            simp only [Builder.entry, Builder.prop, hraw]
            exact ⟨_, rfl⟩
          have hparsed : Node.HasParsed { node with properties := node.properties ++ [property] }
              (own ++ [p]) :=
            List.rel_append hnode (.cons ⟨hname, _, _, hvalue⟩ .nil)
          have hreach : Reaches t ⟨{ node with properties := node.properties ++ [property] } ::
              above, phandleMap'⟩ (propSites uppers.head? (own ++ [p]) props ++ more) :=
            ih hready htskip (by rw [htprev]; decide) hparsed
              (by rwa [List.append_assoc, List.singleton_append])
          have hthis := hreach.of_eq (runLoop_next ht hentry)
          refine ⟨?_, ?_⟩
          · rw [hthis.isOk_iff, Site.tolerates_prop]
            exact (and_iff_right (hdecodes.mp ⟨_, hvalue⟩)).symm
          · intro root hroot
            exact List.forall_mem_cons.mpr ⟨trivial, hthis.readable root hroot⟩

/-- The loop takes a tree below a node, wherever the block spells it. -/
def ReachesTree (strings : Cursor) (tree : FdtTree) : Prop :=
  ∀ {s : StructureBlockIter} {rest : List Token} {parent : Node} {own : List RawProp}
    {above : List Node} {uppers : List (List RawProp)} {phandleMap : List (Nat × List Nat)}
    {more : List Site},
    Ready strings s (tree.events.map Event.token ++ rest) → s.skipProps = false →
    parent.HasParsed own → List.Forall₂ Node.HasParsed above uppers →
    (∀ t parent' phandleMap', Ready strings t rest → t.skipProps = false →
      parent'.HasParsed own → Reaches t ⟨parent' :: above, phandleMap'⟩ more) →
    Reaches s ⟨parent :: above, phandleMap⟩ (tree.sites (some own) ++ more)

theorem reaches_list {trees : List FdtTree} {parent : Node} {own : List RawProp}
    (htrees : ∀ tree ∈ trees, ReachesTree strings tree)
    (h : Ready strings s ((FdtTree.eventsList trees).map Event.token ++ rest))
    (hskip : s.skipProps = false) (hparent : parent.HasParsed own)
    (habove : List.Forall₂ Node.HasParsed above uppers)
    (hmore : ∀ t parent' phandleMap', Ready strings t rest → t.skipProps = false →
      parent'.HasParsed own → Reaches t ⟨parent' :: above, phandleMap'⟩ more) :
    Reaches s ⟨parent :: above, phandleMap⟩ (FdtTree.sitesList own trees ++ more) := by
  induction trees generalizing s parent phandleMap with
  | nil =>
      rw [FdtTree.eventsList] at h
      rw [FdtTree.sitesList]
      exact hmore s parent phandleMap h hskip hparent
  | cons tree trees ih =>
      rw [FdtTree.eventsList, List.map_append, List.append_assoc] at h
      obtain ⟨htree, htrees⟩ := List.forall_mem_cons.mp htrees
      rw [FdtTree.sitesList, List.append_assoc]
      apply htree h hskip hparent habove
      intro t parent' phandleMap' hready htskip hparent'
      exact ih htrees hready htskip hparent'

/-- The loop takes a node up to its end. -/
theorem reaches_begin {tree : FdtTree} (hchildren : ∀ t ∈ tree.children, ReachesTree strings t)
    (h : Ready strings s (tree.events.map Event.token ++ rest)) (hskip : s.skipProps = false)
    (habove : List.Forall₂ Node.HasParsed above uppers)
    (hmore : ∀ t node phandleMap', Ready strings t (.endNode :: rest) → t.skipProps = false →
      node.HasParsed tree.props → Reaches t ⟨node :: above, phandleMap'⟩ more) :
    Reaches s ⟨above, phandleMap⟩ (tree.sites uppers.head? ++ more) := by
  rw [FdtTree.sites_eq, List.cons_append, List.append_assoc]
  rcases Nat.lt_or_ge 51 (strBytes tree.name).length with hlong | hlen
  · obtain ⟨t, ht⟩ := h.nextBegin_long hlong
    have hrun : runLoop s ⟨above, phandleMap⟩ = .ok (.inr none) := runLoop_return ht rfl
    constructor
    · exact iff_of_true ⟨_, hrun⟩ (Site.tolerates_node_long hlong)
    · intro root hroot
      rw [hrun] at hroot
      cases hroot
  · obtain ⟨raw, t, ht, -, -, htskip, htprev, hready⟩ := h.nextBegin hlen
    rw [hskip] at htskip hready
    have hreach : Reaches t ⟨⟨raw.name, [], []⟩ :: above, phandleMap⟩
        (propSites uppers.head? [] tree.props ++
          (FdtTree.sitesList tree.props tree.children ++ more)) := by
      have hnew : Node.HasParsed ⟨raw.name, [], []⟩ [] := List.Forall₂.nil
      apply reaches_props hready htskip (by rw [htprev]; decide) hnew habove
      intro u node phandleMap' huready huskip hnode
      rw [FdtTree.childTokens, FdtTree.childEvents, List.map_append, List.append_assoc] at huready
      exact reaches_list hchildren huready huskip hnode habove hmore
    have hrun : runLoop s ⟨above, phandleMap⟩ =
        runLoop t ⟨⟨raw.name, [], []⟩ :: above, phandleMap⟩ := runLoop_next ht rfl
    have hthis := hreach.of_eq hrun
    constructor
    · rw [hthis.isOk_iff, Site.tolerates_node hlen]
    · intro root hroot
      exact List.forall_mem_cons.mpr ⟨hlen, hthis.readable root hroot⟩

theorem reachesTree (strings : Cursor) (tree : FdtTree) : ReachesTree strings tree := by
  induction tree using FdtTree.induction_on with
  | h tree ih =>
      intro s rest parent own above uppers phandleMap more h hskip hparent habove hmore
      have hstack : List.Forall₂ Node.HasParsed (parent :: above) (own :: uppers) :=
        .cons hparent habove
      apply reaches_begin ih h hskip hstack
      intro t node phandleMap' hready htskip hnode
      obtain ⟨u, hu, huskip, -, huready⟩ := Ready.nextEndNode hready
      have hrun : runLoop t ⟨node :: parent :: above, phandleMap'⟩ =
          runLoop u ⟨{ parent with children := parent.children ++ [node] } :: above,
            phandleMap'⟩ := runLoop_next hu rfl
      have hparent' : Node.HasParsed { parent with children := parent.children ++ [node] } own :=
        hparent
      exact (hmore u _ phandleMap' huready (huskip.trans htskip) hparent').of_eq hrun

/-! ## Blobs -/

variable {fdt : Fdt} {h : Header} {tree : FdtTree} {reservations : List (Nat × Nat)}

theorem Fdt.WellFormed.reaches (henc : fdt.WellFormed h tree reservations) :
    Reaches (.new (fdt.header.skip h.offDtStruct) (fdt.strings h)) ⟨[], []⟩ (tree.sites none) := by
  rw [← List.append_nil (tree.sites none)]
  have hstack : List.Forall₂ Node.HasParsed [] [] := .nil
  apply reaches_begin (fun t _ => reachesTree (fdt.strings h) t) henc.ready rfl hstack
  intro t root phandleMap hready _ _
  obtain ⟨u, hu, -⟩ := Ready.nextEndNode hready
  have hrun : runLoop t ⟨[root], phandleMap⟩ = .ok (.inr (some (root, phandleMap))) :=
    runLoop_return hu rfl
  constructor
  · exact iff_of_true ⟨_, hrun⟩ Site.tolerates_nil
  · intro _ _ site hsite
    cases hsite

theorem Fdt.WellFormed.fromFdt_isOk (henc : fdt.WellFormed h tree reservations) :
    (∃ r, DeviceTree.fromFdt fdt = .ok r) ↔ tree.Decodable := by
  rw [FdtTree.Decodable, ← henc.reaches.isOk_iff, henc.fromFdt_eq]
  constructor
  · rintro ⟨r, hr⟩
    obtain ⟨outcome, houtcome, -⟩ := except_map_eq_ok.mp hr
    exact ⟨outcome, houtcome⟩
  · rintro ⟨outcome, houtcome⟩
    exact ⟨_, except_map_eq_ok.mpr ⟨outcome, houtcome, rfl⟩⟩

/-- A tree with an unknown status, and its blob. -/
def statusTree : FdtTree := .node "" [] [.node "uart@10" [⟨"status", [0x6f, 0x6b, 0], 0x1058⟩] []]

/-- A node with the status "ok". -/
def statusBlock : List UInt8 :=
  beginNodeBytes "" ++ (beginNodeBytes "uart@10" ++ (propBytes 0 [0x6f, 0x6b, 0] ++
    (be32Bytes fdtEndNode ++ (be32Bytes fdtEndNode ++ (be32Bytes fdtEnd ++ [])))))

def statusHeader : Header := ⟨111, 56, 104, 40, 17, 16, 0, 7, 48⟩

/-- The blob of that block at 0x1000. -/
def statusFdt : Fdt :=
  ⟨⟨0x1000, statusHeader.words.flatMap be32Bytes ++ (reservationBytes (0, 0) ++
    (statusBlock ++ (strBytes "status" ++ [0])))⟩⟩

theorem statusFdt_wellFormed : statusFdt.WellFormed statusHeader statusTree [] where
  aligned := by decide
  aligned_rsvmap := by decide
  header := ⟨_, rfl⟩
  words_lt := by decide
  rootName := rfl
  structureBlock := by
    have hname : Named (statusFdt.header.skip 104) 0 "status" :=
      ⟨by decide, by decide, by decide +kernel, [], by decide +kernel⟩
    refine ⟨statusBlock, strBytes "status" ++ [0], ?_, ⟨by decide, by decide, by decide +kernel⟩,
      by decide +kernel⟩
    exact .token (.beginNode (by decide +kernel)) (.token (.beginNode (by decide +kernel))
      (.token (.prop (by decide) (by decide +kernel) hname)
        (.token .endNode (.token .endNode (.token .finish .nil)))))
  memoryReservationBlock := ⟨statusBlock ++ (strBytes "status" ++ [0]),
    by decide, by decide, by decide +kernel⟩
  reservations_lt := by simp

theorem statusTree_not_decodable : ¬ statusTree.Decodable := by
  rw [FdtTree.Decodable, statusTree]
  simp only [FdtTree.sites, FdtTree.sitesList, propSites, List.cons_append, List.nil_append]
  rw [Site.tolerates_node (by decide), Site.tolerates_node (by decide), Site.tolerates_prop]
  rintro ⟨⟨s, ⟨hvalue, -⟩, hstatus⟩, -⟩
  have hs : s = "ok" := by
    have hbytes : strBytes "ok" = strBytes s := List.append_cancel_right hvalue
    have hsome := str?_strBytes s
    rw [← hbytes, str?_strBytes] at hsome
    exact (Option.some.inj hsome).symm
  rw [hs] at hstatus
  revert hstatus
  decide

/-- `from_fdt` does not panic on a well-formed blob exactly when every property that it
reads can be decoded. -/
theorem fromFdt_isOk_iff (fdt : Fdt) (h : Header) (tree : FdtTree) (reservations : List (Nat × Nat))
    (henc : fdt.WellFormed h tree reservations) :
    (∃ r, DeviceTree.fromFdt fdt = .ok r) ↔ tree.Decodable :=
  henc.fromFdt_isOk

theorem fromFdt_isOk_uart : (∃ r, DeviceTree.fromFdt uartFdt = .ok r) ↔ uartTree.Decodable :=
  fromFdt_isOk_iff _ _ _ _ uartFdt_encodes.toWellFormed

/-- The status `ok` is none of those that the decoder knows. -/
theorem fromFdt_not_isOk_status : ¬ ∀ (fdt : Fdt) (h : Header) (tree : FdtTree)
    (reservations : List (Nat × Nat)), fdt.WellFormed h tree reservations →
      ∃ r, DeviceTree.fromFdt fdt = .ok r := by
  intro hall
  exact statusTree_not_decodable
    (statusFdt_wellFormed.fromFdt_isOk.mp (hall _ _ _ _ statusFdt_wellFormed))

end Kruspix.Kernel.Devicetree
