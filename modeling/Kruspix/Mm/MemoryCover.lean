import Kruspix.Mm.MemoryCuts

/-!
# Every available byte exactly once

A cut moves the bytes of a slot outside the reserved entries to the lower and the
upper half, each of them once. While the slots in use and the upper halves of all
rounds fit the array, the copy at the end of a round loses none of them. The regions
of the result then hold every unreserved byte of the memory, and none of them twice.
-/

namespace Kruspix.Mm.MemoryCover

open Memory MemoryRounds MemoryCuts

variable {rsvs ms ns : List Region} {m r : Region} {skip b : Nat} {s t : LoopState}

/-- The number of regions that hold a byte. -/
def hits (b : Nat) (ms : List Region) : Nat :=
  ms.countP fun m => m.addr ≤ b ∧ b < m.addr + m.size

@[simp] theorem hits_nil : hits b [] = 0 := rfl

theorem hits_append (ms ns : List Region) : hits b (ms ++ ns) = hits b ms + hits b ns := List.countP_append

theorem hits_cons (m : Region) (ms : List Region) : hits b (m :: ms) = hits b [m] + hits b ms :=
  hits_append [m] ms

theorem hits_singleton_of_mem (h : b ∈ m.bytes) : hits b [m] = 1 :=
  List.countP_cons_of_pos (by simpa using h)

theorem hits_singleton_of_notMem (h : b ∉ m.bytes) : hits b [m] = 0 :=
  List.countP_cons_of_neg (by simpa using h)

theorem hits_singleton_empty (h : m.size = 0) : hits b [m] = 0 :=
  hits_singleton_of_notMem (by simp [Region.bytes_eq_empty h])

theorem hits_occupied : hits b (occupied ms) = hits b ms := by
  induction ms with
  | nil => rfl
  | cons m ms ih =>
      by_cases hm : m.size = 0
      · rw [occupied_cons_empty hm, hits_cons, hits_singleton_empty hm, Nat.zero_add, ih]
      · rw [occupied_cons hm, hits_cons, ih, ← hits_cons]

theorem hits_of_occupied_eq_nil (h : occupied ms = []) : hits b ms = 0 := by
  rw [← hits_occupied, h, hits_nil]

theorem hits_pos : 0 < hits b ms ↔ ∃ m ∈ ms, b ∈ m.bytes := by
  rw [hits, List.countP_pos_iff]
  simp only [decide_eq_true_eq, Region.mem_bytes]

/-- Regions are pairwise disjoint exactly when no byte is in two of them. -/
theorem pairwise_disjoint_iff :
    (ms.Pairwise fun m n => Disjoint m.bytes n.bytes) ↔ ∀ b, hits b ms ≤ 1 := by
  induction ms with
  | nil => simp
  | cons m ms ih =>
      rw [List.pairwise_cons, ih]
      constructor
      · intro ⟨hm, hms⟩ b
        rw [hits_cons]
        by_cases hb : b ∈ m.bytes
        · have hnone : ¬ 0 < hits b ms := by
            rw [hits_pos]
            rintro ⟨n, hn, hbn⟩
            exact Set.disjoint_left.mp (hm n hn) hb hbn
          rw [hits_singleton_of_mem hb]
          omega
        · rw [hits_singleton_of_notMem hb, Nat.zero_add]
          exact hms b
      · intro hall
        constructor
        · intro n hn
          rw [Set.disjoint_left]
          intro b hb hbn
          have htwo := hall b
          have hpos := hits_pos.mpr ⟨n, hn, hbn⟩
          rw [hits_cons, hits_singleton_of_mem hb] at htwo
          omega
        · intro b
          have hone := hall b
          rw [hits_cons] at hone
          omega

/-! ## The bytes of a cut -/

/-- A count does not grow, and it stays if the byte is not reserved. -/
def Kept (rsvs : List Region) (b n n' : Nat) : Prop :=
  n' ≤ n ∧ ((∀ r ∈ rsvs, b ∉ r.bytes) → n' = n)

theorem Kept.refl (rsvs : List Region) (b n : Nat) : Kept rsvs b n n := ⟨le_rfl, fun _ => rfl⟩

theorem Kept.add {n n' k k' : Nat} (h : Kept rsvs b n n') (hk : Kept rsvs b k k') :
    Kept rsvs b (n + k) (n' + k') :=
  ⟨Nat.add_le_add h.1 hk.1, fun hb => by rw [h.2 hb, hk.2 hb]⟩

theorem Kept.trans {n k l : Nat} (h : Kept rsvs b n k) (hk : Kept rsvs b k l) :
    Kept rsvs b n l :=
  ⟨hk.1.trans h.1, fun hb => (hk.2 hb).trans (h.2 hb)⟩

theorem regionDiff_hits (b : Nat) {lo hi : Region} (h : regionDiff m r = some (lo, hi)) :
    Kept [r] b (hits b [m]) (hits b [lo] + hits b [hi]) := by
  obtain ⟨hunion, hdisjoint⟩ := regionDiff_bytes h
  have hmem : (b ∈ lo.bytes ∨ b ∈ hi.bytes) ↔ b ∈ m.bytes ∧ b ∉ r.bytes := by
    rw [← Set.mem_union, hunion, Set.mem_sdiff]
  by_cases hlo : b ∈ lo.bytes
  · have hhi := Set.disjoint_left.mp hdisjoint hlo
    rw [hits_singleton_of_mem hlo, hits_singleton_of_notMem hhi,
      hits_singleton_of_mem (hmem.mp (Or.inl hlo)).1]
    exact Kept.refl _ _ _
  · by_cases hhi : b ∈ hi.bytes
    · rw [hits_singleton_of_notMem hlo, hits_singleton_of_mem hhi,
        hits_singleton_of_mem (hmem.mp (Or.inr hhi)).1]
      exact Kept.refl _ _ _
    · rw [hits_singleton_of_notMem hlo, hits_singleton_of_notMem hhi]
      refine ⟨Nat.zero_le _, fun hb => ?_⟩
      have hout : b ∉ m.bytes := fun hm =>
        (hmem.mpr ⟨hm, hb r (List.mem_singleton_self r)⟩).elim hlo hhi
      rw [hits_singleton_of_notMem hout]

theorem cutSlot_hits (b : Nat) {cut : Region × List Region} (h : cutSlot rsvs m = some cut) :
    Kept rsvs b (hits b [m]) (hits b [cut.1] + hits b cut.2) := by
  induction rsvs generalizing m cut with
  | nil =>
      cases h
      exact Kept.refl _ _ _
  | cons r rsvs ih =>
      simp only [cutSlot, Option.bind_eq_bind, Option.bind_eq_some_iff, Option.pure_def] at h
      obtain ⟨⟨lo, hi⟩, hdiff, cut', hcut, he⟩ := h
      cases he
      have hfirst := regionDiff_hits b hdiff
      have hrest : Kept rsvs b (hits b [lo]) (hits b [cut'.1] + hits b cut'.2) := ih hcut
      simp only [hits_append, hits_occupied]
      constructor
      · have := hfirst.1
        have := hrest.1
        omega
      · intro hb
        obtain ⟨hr, hb⟩ := List.forall_mem_cons.mp hb
        have := hfirst.2 (by simpa using hr)
        have := hrest.2 hb
        omega

/-- A slot is passed over or cut. -/
theorem cutSlots_cons {m : Region} {cut : List Region × List Region}
    (h : cutSlots rsvs skip (m :: ms) = some cut) :
    (∃ skip' cut', cutSlots rsvs skip' ms = some cut' ∧ cut = (m :: cut'.1, cut'.2)) ∨
      ∃ cut₁ cut₂, cutSlot rsvs m = some cut₁ ∧ cutSlots rsvs 0 ms = some cut₂ ∧
        cut = (cut₁.1 :: cut₂.1, cut₁.2 ++ cut₂.2) := by
  simp only [cutSlots, Option.bind_eq_bind, Option.pure_def] at h
  split_ifs at h
  · obtain ⟨cut', hcut, he⟩ := Option.bind_eq_some_iff.mp h
    cases he
    exact .inl ⟨_, cut', hcut, rfl⟩
  · obtain ⟨cut', hcut, he⟩ := Option.bind_eq_some_iff.mp h
    cases he
    exact .inl ⟨_, cut', hcut, rfl⟩
  · obtain ⟨cut₁, hcut₁, h⟩ := Option.bind_eq_some_iff.mp h
    obtain ⟨cut₂, hcut₂, he⟩ := Option.bind_eq_some_iff.mp h
    cases he
    exact .inr ⟨cut₁, cut₂, hcut₁, hcut₂, rfl⟩

theorem cutSlots_hits (b : Nat) {cut : List Region × List Region} (h : cutSlots rsvs skip ms = some cut) :
    Kept rsvs b (hits b ms) (hits b cut.1 + hits b cut.2) := by
  induction ms generalizing skip cut with
  | nil =>
      cases h
      exact Kept.refl _ _ _
  | cons m ms ih =>
      rcases cutSlots_cons h with ⟨_, cut', hcut, rfl⟩ | ⟨cut₁, cut₂, hcut₁, hcut₂, rfl⟩
      · rw [hits_cons, hits_cons _ cut'.1, Nat.add_assoc]
        exact (Kept.refl _ _ _).add (ih hcut)
      · have hboth := (cutSlot_hits b hcut₁).add (ih hcut₂)
        rw [hits_cons, hits_cons _ cut₂.1, hits_append]
        rwa [Nat.add_add_add_comm] at hboth

/-- Unused slots at the end stay as they are. -/
theorem cutSlots_append_empty (rsvs : List Region) (skip : Nat) (ms : List Region)
    (hns : occupied ns = []) :
    cutSlots rsvs skip (ms ++ ns) =
      (cutSlots rsvs skip ms).map fun cut => (cut.1 ++ ns, cut.2) := by
  induction ms generalizing skip with
  | nil =>
      rw [List.nil_append, cutSlots, Option.map_some, List.nil_append]
      induction ns generalizing skip with
      | nil => rfl
      | cons n ns ih =>
          have hn : n.size = 0 := by
            by_contra hn
            rw [occupied_cons hn] at hns
            cases hns
          rw [occupied_cons_empty hn] at hns
          rw [cutSlots, if_pos hn, ih hns]
          rfl
  | cons m ms ih =>
      rw [List.cons_append, cutSlots, cutSlots]
      split_ifs
      · rw [ih]
        cases cutSlots rsvs skip ms <;> rfl
      · rw [ih]
        cases cutSlots rsvs (skip - 1) ms <;> rfl
      · rw [ih]
        cases cutSlot rsvs m with
        | none => rfl
        | some cut => cases cutSlots rsvs 0 ms <;> rfl

theorem cutSlots_length {cut : List Region × List Region}
    (h : cutSlots rsvs skip ms = some cut) : cut.1.length = ms.length := by
  induction ms generalizing skip cut with
  | nil =>
      cases h
      rfl
  | cons m ms ih =>
      rcases cutSlots_cons h with ⟨_, cut', hcut, rfl⟩ | ⟨cut₁, cut₂, _, hcut, rfl⟩
      · rw [List.length_cons, List.length_cons, ih hcut]
      · rw [List.length_cons, List.length_cons, ih hcut]

/-! ## The bytes of a run -/

/-- The slots at the start of a round: those in use are the first `mem_index`, and
the upper halves of the rounds to come fit behind them. -/
structure Placed (rsvs : List Region) (s : LoopState) : Prop where
  length : s.mem.length = 32
  rest_empty : occupied (s.mem.drop s.memIndex) = []
  room : s.memIndex + splits rsvs s ≤ 32

theorem uppers_length_le_splits (rsvs : List Region) (s : LoopState) : (uppers rsvs s).length ≤ splits rsvs s := by
  rw [splits]
  split
  · exact Nat.le_add_right _ _
  · exact le_rfl

theorem splits_next (h : Round rsvs s t) :
    splits rsvs s = (uppers rsvs s).length + splits rsvs t := by
  rw [Round] at h
  rw [splits, h]

/-- The copy of all upper halves behind the slots in use. -/
theorem copyNew_eq {mem newMem : List Region} {memIndex : Nat}
    (hroom : memIndex + newMem.length ≤ 32) :
    copyNew mem memIndex newMem = mem.take memIndex ++
      (newMem ++ List.replicate (32 - memIndex - newMem.length) Region.empty) := by
  have hall : newMem.take (32 - memIndex) = newMem := List.take_of_length_le (by omega)
  rw [copyNew, List.take_append, hall, List.take_replicate, min_eq_left (by omega)]

/-- What a round makes of well-placed slots. -/
theorem Placed.round_cases (hrsvs : ∀ r ∈ rsvs, r.Fits) (hs : Placed rsvs s)
    (hfit : SlotsFit s) :
    ∃ cut, cutSlots rsvs s.memSkip s.mem = some cut ∧ cut.1.length = 32 ∧
      occupied (cut.1.drop s.memIndex) = [] ∧
      (cut.2 = [] ∧ Memory.round rsvs s = some (.inl cut.1) ∨
        s.memIndex + cut.2.length ≤ 32 ∧ Memory.round rsvs s = some
          (.inr ⟨copyNew cut.1 s.memIndex cut.2, s.memIndex, s.memIndex + cut.2.length⟩)) := by
  obtain ⟨cut, hcut, _⟩ := cutSlots_fits s.memSkip hrsvs hfit
  have hroom : s.memIndex + cut.2.length ≤ 32 := by
    have hle := uppers_length_le_splits rsvs s
    rw [uppers_eq hcut] at hle
    exact (Nat.add_le_add_left hle _).trans hs.room
  have hlen := (cutSlots_length hcut).trans hs.length
  have hrest : occupied (cut.1.drop s.memIndex) = [] := by
    have hsplit := cutSlots_append_empty rsvs s.memSkip (s.mem.take s.memIndex) hs.rest_empty
    rw [List.take_append_drop, hcut, eq_comm, Option.map_eq_some_iff] at hsplit
    obtain ⟨front, hfront, he⟩ := hsplit
    cases he
    have hfrontLen : front.1.length = s.memIndex := by
      rw [cutSlots_length hfront, List.length_take, hs.length]
      omega
    rw [← hfrontLen, List.drop_left, hfrontLen]
    exact hs.rest_empty
  refine ⟨cut, hcut, hlen, hrest, ?_⟩
  have hround := round_eq hcut
  rw [pushAll, List.length_nil, Nat.zero_add, if_pos (by omega), Option.map_some,
    List.nil_append] at hround
  split_ifs at hround with hstop
  · refine Or.inl ⟨List.eq_nil_of_length_eq_zero ?_, hround⟩
    omega
  · exact Or.inr ⟨hroom, hround⟩

/-- A further round starts with well-placed slots. -/
theorem Placed.round (hrsvs : ∀ r ∈ rsvs, r.Fits) (hs : Placed rsvs s) (hfit : SlotsFit s)
    (h : Round rsvs s t) :
    Placed rsvs t ∧ ∀ b, Kept rsvs b (hits b s.mem) (hits b t.mem) := by
  obtain ⟨cut, hcut, hlen, hrest, ⟨_, hround⟩ | ⟨hroom, hround⟩⟩ := hs.round_cases hrsvs hfit
  · rw [Round, hround] at h
    cases h
  · have hnext := h
    rw [Round, hround] at h
    cases h
    refine ⟨⟨copyNew_length hlen (by omega), copyNew_drop hlen (by omega), ?_⟩, ?_⟩
    · have hsplits := splits_next hnext
      have hall := hs.room
      rw [uppers_eq hcut] at hsplits
      simp only at hsplits ⊢
      omega
    · intro b
      have hkept := cutSlots_hits b hcut
      have hfront : hits b cut.1 = hits b (cut.1.take s.memIndex) := by
        conv_lhs => rw [← List.take_append_drop s.memIndex cut.1]
        rw [hits_append, hits_of_occupied_eq_nil hrest, Nat.add_zero]
      rw [hfront] at hkept
      simp only [copyNew_eq hroom, hits_append]
      rwa [hits_of_occupied_eq_nil (occupied_replicate_empty _), Nat.add_zero]

/-- The loop ends, and it keeps the bytes. -/
theorem Placed.loop (hrsvs : ∀ r ∈ rsvs, r.Fits) (hs : Placed rsvs s) (hfit : SlotsFit s) :
    ∃ out, Memory.loop rsvs s = some out ∧ out.length = 32 ∧
      ∀ b, Kept rsvs b (hits b s.mem) (hits b out) := by
  induction s using loop.induct rsvs with
  | case1 s hnone =>
      obtain ⟨cut, _, _, _, ⟨_, hround⟩ | ⟨_, hround⟩⟩ := hs.round_cases hrsvs hfit
      · rw [hnone] at hround
        cases hround
      · rw [hnone] at hround
        cases hround
  | case2 s mem hdone =>
      obtain ⟨cut, hcut, hlen, _, ⟨hnil, hround⟩ | ⟨_, hround⟩⟩ := hs.round_cases hrsvs hfit
      · rw [hdone] at hround
        cases hround
        refine ⟨cut.1, loop_done hdone, hlen, fun b => ?_⟩
        have hkept := cutSlots_hits b hcut
        rwa [hnil, hits_nil, Nat.add_zero] at hkept
      · rw [hdone] at hround
        cases hround
  | case3 s t hnext ih =>
      obtain ⟨ht, hkept⟩ := hs.round hrsvs hfit hnext
      obtain ⟨out, hloop, hlen, hout⟩ := ih ht (hfit.round hrsvs hnext)
      exact ⟨out, (loop_next hnext).trans hloop, hlen, fun b => (hkept b).trans (hout b)⟩

/-! ## The available memory -/

/-- What the boot code relies on: the regions cover the unreserved bytes of the memory,
lie within it, do not overlap, and the first one is a largest. -/
structure Available (mem reservedMem : Vector Region 32) (kernelRegion : Region)
    (out : List Region) : Prop where
  length : out.length = 32
  covers : ∀ b, (∃ m ∈ mem.toList, b ∈ m.bytes) → (∀ r ∈ reservedMem.toList, b ∉ r.bytes) →
    b ∉ kernelRegion.bytes → ∃ m ∈ out, b ∈ m.bytes
  within : ∀ m ∈ out, ∀ b ∈ m.bytes, ∃ m ∈ mem.toList, b ∈ m.bytes
  disjoint : out.Pairwise fun m n => Disjoint m.bytes n.bytes
  sorted : out.Pairwise fun m n => n.size ≤ m.size
  first_largest : ∀ first ∈ out.head?, ∀ m ∈ out, m.size ≤ first.size

theorem sortBySize_sorted (out : List Region) :
    (sortBySize out).Pairwise fun m n => n.size ≤ m.size := by
  have hsorted : (sortBySize out).Pairwise fun a b => decide (b.size ≤ a.size) = true := by
    apply List.pairwise_mergeSort
    · intro a b c hab hbc
      simp only [decide_eq_true_eq] at *
      omega
    · intro a b
      simp only [Bool.or_eq_true, decide_eq_true_eq]
      omega
  exact hsorted.imp of_decide_eq_true

theorem hits_sortBySize (out : List Region) : hits b (sortBySize out) = hits b out :=
  (List.mergeSort_perm out _).countP_eq _

theorem occupied_eq_nil (h : ∀ m ∈ ms, m.size = 0) : occupied ms = [] :=
  List.filter_eq_nil_iff.mpr fun m hm => by simpa using h m hm

/-- With the occupied slots first, the first unused one stands behind all of them. -/
theorem findIdx_unused (hfirst : ms.Pairwise fun a b => a.size = 0 → b.size = 0) :
    ms.findIdx (fun r => r.size = 0) = (occupied ms).length ∧
      occupied (ms.drop (occupied ms).length) = [] := by
  induction ms with
  | nil => exact ⟨rfl, rfl⟩
  | cons m ms ih =>
      obtain ⟨hm, hms⟩ := List.pairwise_cons.mp hfirst
      by_cases hsize : m.size = 0
      · have hnone : occupied (m :: ms) = [] :=
          occupied_eq_nil (List.forall_mem_cons.mpr ⟨hsize, fun n hn => hm n hn hsize⟩)
        rw [hnone, List.length_nil, List.drop_zero, hnone]
        exact ⟨by simp [List.findIdx_cons, hsize], rfl⟩
      · rw [occupied_cons hsize, List.length_cons, List.drop_succ_cons]
        exact ⟨by simp [List.findIdx_cons, hsize, (ih hms).1], (ih hms).2⟩

theorem startState_memIndex (mem : Vector Region 32) :
    (startState mem).memIndex = mem.toList.findIdx fun r => r.size = 0 := by
  rw [startState, List.findIdx_eq_getD_findIdx?, Vector.length_toList]

/-- The available memory is complete, within the memory, without overlaps and sorted. -/
theorem calcAvailableMem_available (mem reservedMem : Vector Region 32) (kernelRegion : Region)
    (h : Admissible mem reservedMem kernelRegion)
    (hroom : (occupied mem.toList).length +
      splits (reservedEntries reservedMem kernelRegion) (startState mem) ≤ 32) :
    ∃ out, calcAvailableMem mem reservedMem kernelRegion = some out ∧
      Available mem reservedMem kernelRegion out := by
  have hrsvs := reservedEntries_fits h.reserved_fits h.kernel_fits
  obtain ⟨hindex, hrest⟩ := findIdx_unused h.occupied_first
  rw [← startState_memIndex] at hindex
  have hplaced : Placed (reservedEntries reservedMem kernelRegion) (startState mem) :=
    ⟨by simp [startState], by rw [hindex]; exact hrest, by rwa [hindex]⟩
  obtain ⟨out, hloop, hlen, hkept⟩ := hplaced.loop hrsvs h.mem_fits
  have hmem : (startState mem).mem = mem.toList := rfl
  rw [hmem] at hkept
  have hsorted := sortBySize_sorted out
  refine ⟨sortBySize out, by rw [calcAvailableMem, hloop]; rfl, ?_⟩
  constructor
  case length => rw [sortBySize, List.length_mergeSort, hlen]
  case covers =>
    intro b hb hreserved hkernel
    have hfree : ∀ r ∈ reservedEntries reservedMem kernelRegion, b ∉ r.bytes := by
      intro r hr
      rcases List.mem_append.mp hr with hr | hr
      · exact hreserved r (List.mem_filter.mp hr).1
      · exact List.mem_singleton.mp hr ▸ hkernel
    apply hits_pos.mp
    rw [hits_sortBySize, (hkept b).2 hfree]
    exact hits_pos.mpr hb
  case within =>
    intro m hm b hb
    have hpos : 0 < hits b out := hits_pos.mpr ⟨m, mem_sortBySize.mp hm, hb⟩
    exact hits_pos.mp (hpos.trans_le (hkept b).1)
  case disjoint =>
    rw [pairwise_disjoint_iff]
    intro b
    rw [hits_sortBySize]
    exact (hkept b).1.trans (pairwise_disjoint_iff.mp h.disjoint b)
  case sorted => exact hsorted
  case first_largest =>
    intro first hfirst m hm
    obtain ⟨rest, hrest⟩ := List.head?_eq_some_iff.mp hfirst
    rw [hrest] at hm hsorted
    rcases List.mem_cons.mp hm with rfl | hm
    · exact le_rfl
    · exact (List.pairwise_cons.mp hsorted).1 m hm

/-- The first round of a region that the kernel image splits. -/
theorem round_split : Memory.round (reservedEntries (slots []) ⟨20, 10⟩)
    (startState (slots [⟨0, 100⟩])) =
      some (.inr ⟨[⟨0, 20⟩, ⟨30, 70⟩] ++ List.replicate 30 Region.empty, 1, 2⟩) := by
  decide +kernel

/-- The halves are left as they are. -/
theorem round_halves : Memory.round (reservedEntries (slots []) ⟨20, 10⟩)
    ⟨[⟨0, 20⟩, ⟨30, 70⟩] ++ List.replicate 30 Region.empty, 1, 2⟩ =
      some (.inl ([⟨0, 20⟩, ⟨30, 70⟩] ++ List.replicate 30 Region.empty)) := by
  decide +kernel

/-- The kernel image splits the only memory region. -/
theorem calcAvailableMem_available_split :
    ∃ out, calcAvailableMem (slots [⟨0, 100⟩]) (slots []) ⟨20, 10⟩ = some out ∧
      Available (slots [⟨0, 100⟩]) (slots []) ⟨20, 10⟩ out := by
  refine calcAvailableMem_available _ _ _ ⟨by decide +kernel, ?_, by decide +kernel,
    by decide +kernel, by decide⟩ ?_
  · have hends : (slots [⟨0, 100⟩]).toList.Pairwise fun a b =>
        a.addr + a.size ≤ b.addr ∨ b.size = 0 := by decide +kernel
    refine hends.imp fun {a b} h => ?_
    rw [Set.disjoint_left]
    intro x
    simp only [Region.mem_bytes]
    omega
  · rw [splits_next round_split, splits, round_halves]
    decide +kernel

end Kruspix.Mm.MemoryCover
