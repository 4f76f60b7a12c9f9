import Kruspix.Mm.MemoryPieces
import Mathlib.Algebra.Order.BigOperators.Group.List
import Mathlib.Algebra.Order.Ring.Nat
import Mathlib.Data.List.Pairwise

/-!
# The number of splits

An entry strictly inside a region makes two pieces of it, and no other entry is strictly
inside both. So the pieces of a generation and the entries inside them together are never
more than the entries inside the pieces before. Disjoint memory regions share no entry, and
the 33 entries make more than 32 pieces only when each of them splits in the first round.
-/

namespace Kruspix.Mm.MemorySplits

open Memory MemoryRounds MemoryCuts MemoryPieces

variable {rsvs rsvs' ms : List Region} {m n r : Region}

/-! ## How many pieces there are -/

/-- The number of entries strictly inside a region. -/
def insideCount (rsvs : List Region) (m : Region) : Nat := rsvs.countP fun r => Inside m r

theorem insideCount_mono (h : ∀ r ∈ rsvs, Inside m r → Inside n r) :
    insideCount rsvs m ≤ insideCount rsvs n :=
  List.countP_mono_left fun r hr hin => by simpa using h r hr (by simpa using hin)

theorem not_inside_empty : ¬ Inside .empty r := by
  simp [Inside, Region.empty]

theorem inside_of_inside_lower (h : Inside (lower m n) r) : Inside m r := by
  by_cases hapart : Apart m n
  · rwa [lower_of_apart hapart] at h
  rw [lower, if_neg hapart] at h
  unfold Apart at hapart
  unfold Inside at h ⊢
  split_ifs at h
  · simp only at h
    omega
  · simp only at h
    omega
  · exact absurd h not_inside_empty

theorem inside_lower_iff (h : Inside m n) :
    Inside (lower m n) r ↔ m.addr < r.addr ∧ r.addr + r.size < n.addr := by
  rw [lower_of_inside h]
  unfold Inside at *
  simp only
  omega

/-- What is apart from a region is apart from the part below a split. -/
theorem apart_lower (h : Inside m n) (hapart : Apart m r) : Apart (lower m n) r := by
  rw [lower_of_inside h]
  unfold Inside at h
  unfold Apart at *
  simp only
  omega

theorem inside_upper_iff (h : Inside m n) : Inside (upper m n) r ↔
    n.addr + n.size < r.addr ∧ r.addr + r.size < m.addr + m.size := by
  rw [upper_of_inside h]
  unfold Inside at *
  simp only
  omega

/-- No entry is strictly inside both parts of a split. -/
theorem insideCount_parts (h : Inside m r) (rsvs : List Region) :
    insideCount rsvs (lower m r) + insideCount rsvs (upper m r) ≤ insideCount rsvs m := by
  induction rsvs with
  | nil => exact Nat.le_refl _
  | cons q rsvs ih =>
      have hlo : Inside (lower m r) q → Inside m q := inside_of_inside_lower
      have hhi : Inside (upper m r) q → Inside m q ∧ ¬ Inside (lower m r) q := by
        rw [inside_upper_iff h, inside_lower_iff h]
        unfold Inside at *
        omega
      simp only [insideCount, List.countP_cons, decide_eq_true_eq] at ih ⊢
      by_cases hu : Inside (upper m r) q
      · obtain ⟨hm, hl⟩ := hhi hu
        rw [if_pos hu, if_pos hm, if_neg hl]
        omega
      by_cases hl : Inside (lower m r) q
      · rw [if_neg hu, if_pos (hlo hl), if_pos hl]
        omega
      · rw [if_neg hu, if_neg hl]
        omega

/-- The entry that splits a region is strictly inside none of the parts. -/
theorem insideCount_split (hr : r ∈ rsvs) (h : Inside m r) :
    insideCount rsvs (lower m r) + insideCount rsvs (upper m r) + 1 ≤ insideCount rsvs m := by
  obtain ⟨before, behind, rfl⟩ := List.append_of_mem hr
  have hbefore := insideCount_parts h before
  have hbehind := insideCount_parts h behind
  have hlo : ¬ Inside (lower m r) r := by
    rw [inside_lower_iff h]
    omega
  have hhi : ¬ Inside (upper m r) r := by
    rw [inside_upper_iff h]
    omega
  simp only [insideCount, List.countP_append, List.countP_cons, decide_eq_true_eq, if_pos h,
    if_neg hlo, if_neg hhi] at *
  omega

theorem occupied_upper (h : Inside m r) : occupied [upper m r] = [upper m r] := by
  have hsize : (upper m r).size ≠ 0 := by
    rw [upper_of_inside h]
    exact Nat.sub_ne_zero_of_lt h.2
  rw [occupied_cons hsize, occupied_nil]

theorem occupied_upper_eq_nil (h : ¬ Inside m r) : occupied [upper m r] = [] := by
  rw [upper_of_not_inside h, occupied_cons_empty rfl, occupied_nil]

/-- What an entry cuts off is at most what was strictly inside. -/
theorem insideCount_cut (hr : r ∈ rsvs) :
    (occupied [upper m r]).length + ((occupied [upper m r]).map (insideCount rsvs)).sum +
      insideCount rsvs (lower m r) ≤ insideCount rsvs m := by
  by_cases h : Inside m r
  · have hsplit := insideCount_split hr h
    rw [occupied_upper h, List.length_singleton, List.map_singleton, List.sum_singleton]
    omega
  · rw [occupied_upper_eq_nil h, List.length_nil, List.map_nil, List.sum_nil, Nat.zero_add,
      Nat.zero_add]
    exact insideCount_mono fun _ _ => inside_of_inside_lower

theorem putOff_count (hsub : rsvs' ⊆ rsvs) :
    (putOff rsvs' m).length + ((putOff rsvs' m).map (insideCount rsvs)).sum ≤
      insideCount rsvs m := by
  induction rsvs' generalizing m with
  | nil => exact Nat.zero_le _
  | cons r rsvs' ih =>
      obtain ⟨hr, hsub⟩ := List.cons_subset.mp hsub
      have hcut := insideCount_cut (m := m) hr
      have hrest := ih (m := lower m r) hsub
      rw [putOff, List.length_append, List.map_append, List.sum_append]
      omega

theorem flatMap_putOff_count (rsvs ms : List Region) :
    (ms.flatMap (putOff rsvs)).length + ((ms.flatMap (putOff rsvs)).map (insideCount rsvs)).sum ≤
      (ms.map (insideCount rsvs)).sum := by
  induction ms with
  | nil => exact Nat.le_refl _
  | cons m ms ih =>
      have hm := putOff_count (m := m) (List.Subset.refl rsvs)
      rw [List.flatMap_cons, List.length_append, List.map_append, List.sum_append, List.map_cons,
        List.sum_cons]
      omega

/-- A generation has as many pieces as entries were strictly inside the pieces before it. -/
theorem next_count (rsvs : List Region) (g : Generation) :
    (g.next rsvs).pieces.length + ((g.next rsvs).pieces.map (insideCount rsvs)).sum ≤
      (g.pieces.map (insideCount rsvs)).sum := by
  have hchecked : g.checked.Sublist g.pieces :=
    (List.drop_sublist _ _).trans (List.take_sublist _ _)
  exact (flatMap_putOff_count rsvs g.checked).trans
    ((hchecked.map (insideCount rsvs)).sum_le_sum fun _ _ => Nat.zero_le _)

theorem generation_succ (d : Nat) :
    generation rsvs ms (d + 1) = (generation rsvs ms d).next rsvs :=
  Function.iterate_succ_apply' _ _ _

theorem generation_count (rsvs ms : List Region) (d : Nat) :
    ((generation rsvs ms d).pieces.map (insideCount rsvs)).sum ≤
      ((generation rsvs ms 0).pieces.map (insideCount rsvs)).sum := by
  induction d with
  | zero => exact Nat.le_refl _
  | succ d ih =>
      have hnext := next_count rsvs (generation rsvs ms d)
      rw [generation_succ]
      omega

/-! ## Disjoint memory regions -/

/-- Every entry splits: all 32 reserved entries are in use, each entry lies strictly inside a
memory region, and of two entries inside the same region the later one lies below. -/
structure AllSplit (mem reservedMem : Vector Region 32) (kernelRegion : Region) : Prop where
  full : ∀ r ∈ reservedMem.toList, r.size ≠ 0
  inside : ∀ r ∈ reservedEntries reservedMem kernelRegion, ∃ m ∈ mem.toList, Inside m r
  descending : ∀ m ∈ mem.toList, (reservedEntries reservedMem kernelRegion).Pairwise fun a b =>
    Inside m a → Inside m b → b.addr + b.size < a.addr

/-- The entries inside disjoint regions, counted over the entries. -/
theorem sum_insideCount_cons (r : Region) (rsvs ms : List Region) :
    (ms.map (insideCount (r :: rsvs))).sum =
      ms.countP (fun m => Inside m r) + (ms.map (insideCount rsvs)).sum := by
  induction ms with
  | nil => rfl
  | cons m ms ih =>
      rw [List.map_cons, List.sum_cons, ih, List.map_cons, List.sum_cons, List.countP_cons,
        insideCount, List.countP_cons, insideCount]
      omega

/-- Disjoint regions do not both have an entry strictly inside. -/
theorem countP_inside_le_one (hdisjoint : ms.Pairwise fun a b => Disjoint a.bytes b.bytes) :
    ms.countP (fun m => Inside m r) ≤ 1 := by
  induction ms with
  | nil => exact Nat.zero_le _
  | cons m ms ih =>
      obtain ⟨hm, hms⟩ := List.pairwise_cons.mp hdisjoint
      by_cases hin : Inside m r
      · have hnone : ms.countP (fun m => Inside m r) = 0 := by
          refine List.countP_eq_zero.mpr fun n hn => ?_
          intro h
          have h : Inside n r := by simpa using h
          exact h.not_apart (hin.apart_of_disjoint h.size_ne_zero (hm n hn))
        rw [List.countP_cons, hnone]
        split_ifs <;> omega
      · rw [List.countP_cons_of_neg (by simpa using hin)]
        exact ih hms

theorem sum_insideCount_le (rsvs : List Region)
    (hdisjoint : ms.Pairwise fun a b => Disjoint a.bytes b.bytes) :
    (ms.map (insideCount rsvs)).sum ≤ rsvs.length ∧
      ((ms.map (insideCount rsvs)).sum = rsvs.length ↔ ∀ r ∈ rsvs, ∃ m ∈ ms, Inside m r) := by
  induction rsvs with
  | nil =>
      have hzero : (ms.map (insideCount [])).sum = 0 :=
        List.sum_eq_zero fun k hk => by
          obtain ⟨m, _, rfl⟩ := List.mem_map.mp hk
          rfl
      simp [hzero]
  | cons r rsvs ih =>
      obtain ⟨hle, hiff⟩ := ih
      have hone := countP_inside_le_one (r := r) hdisjoint
      have hpos : (∃ m ∈ ms, Inside m r) ↔ 0 < ms.countP (fun m => Inside m r) := by
        rw [List.countP_pos_iff]
        simp only [decide_eq_true_eq]
      rw [sum_insideCount_cons, List.length_cons, List.forall_mem_cons, ← hiff, hpos]
      omega

theorem insideCount_lt (h : ∀ r ∈ rsvs, Inside m r → Inside n r) (hr : r ∈ rsvs)
    (hn : Inside n r) (hm : ¬ Inside m r) : insideCount rsvs m < insideCount rsvs n := by
  obtain ⟨before, behind, rfl⟩ := List.append_of_mem hr
  have hbefore : insideCount before m ≤ insideCount before n :=
    insideCount_mono fun q hq => h q (by simp [hq])
  have hbehind : insideCount behind m ≤ insideCount behind n :=
    insideCount_mono fun q hq => h q (by simp [hq])
  simp only [insideCount, List.countP_append, List.countP_cons, decide_eq_true_eq, if_pos hn,
    if_neg hm] at *
  omega

/-- Of the entries below a split the part below it holds the same ones as the region. -/
theorem inside_lower_of_below (h : Inside m r)
    (hbelow : ∀ b ∈ rsvs, Inside m b → b.addr + b.size < r.addr) :
    ∀ b ∈ rsvs, Inside (lower m r) b ↔ Inside m b := by
  intro b hb
  rw [inside_lower_iff h]
  constructor
  · rintro ⟨hstart, hend⟩
    unfold Inside at *
    omega
  · intro hin
    exact ⟨hin.1, hbelow b hb hin⟩

/-- Entries that are inside a region or apart from it are all cut out of it exactly when each
lies below those before it. -/
theorem putOff_length_eq_iff (hrsvs : ∀ r ∈ rsvs, Inside m r ∨ Apart m r) :
    (putOff rsvs m).length = insideCount rsvs m ↔
      rsvs.Pairwise fun a b => Inside m a → Inside m b → b.addr + b.size < a.addr := by
  induction rsvs generalizing m with
  | nil => simp [putOff, insideCount]
  | cons r rsvs ih =>
      obtain ⟨hr, hrsvs⟩ := List.forall_mem_cons.mp hrsvs
      rw [putOff, List.length_append, List.pairwise_cons]
      by_cases hin : Inside m r
      swap
      · rw [occupied_upper_eq_nil hin, lower_of_apart (hr.resolve_left hin), insideCount,
          List.countP_cons_of_neg (by simpa using hin), List.length_nil, Nat.zero_add]
        exact (ih hrsvs).trans ⟨fun h => ⟨fun _ _ hin' => absurd hin' hin, h⟩, fun h => h.2⟩
      rw [occupied_upper hin, List.length_singleton, insideCount,
        List.countP_cons_of_pos (by simpa using hin), ← insideCount]
      by_cases hbelow : ∀ b ∈ rsvs, Inside m b → b.addr + b.size < r.addr
      -- the part below keeps all entries, and the rest is the induction hypothesis
      · have hsame := inside_lower_of_below hin hbelow
        have hcount : insideCount rsvs (lower m r) = insideCount rsvs m :=
          List.countP_congr fun b hb => by simpa using hsame b hb
        have hlower : ∀ b ∈ rsvs, Inside (lower m r) b ∨ Apart (lower m r) b := fun b hb =>
          (hrsvs b hb).imp (hsame b hb).mpr (apart_lower hin)
        have hpairwise : (rsvs.Pairwise fun a b => Inside (lower m r) a → Inside (lower m r) b →
            b.addr + b.size < a.addr) ↔
            rsvs.Pairwise fun a b => Inside m a → Inside m b → b.addr + b.size < a.addr :=
          List.Pairwise.iff_of_mem fun {a b} ha hb => by rw [hsame a ha, hsame b hb]
        rw [← hcount, Nat.add_comm, Nat.add_right_cancel_iff, ih hlower, hpairwise]
        exact ⟨fun h => ⟨fun b hb _ => hbelow b hb, h⟩, fun h => h.2⟩
      -- an entry above the split is lost to the part below
      · obtain ⟨b, hb, hinb, hnot⟩ : ∃ b ∈ rsvs, Inside m b ∧ r.addr ≤ b.addr + b.size := by
          simpa using hbelow
        have hlo : ¬ Inside (lower m r) b := by
          rw [inside_lower_iff hin]
          omega
        have hlt := insideCount_lt (fun _ _ => inside_of_inside_lower) hb hinb hlo
        have hle := putOff_count (m := lower m r) (List.Subset.refl rsvs)
        constructor
        · omega
        · rintro ⟨hall, _⟩
          exact absurd (hall b hb hin hinb) (Nat.not_lt_of_le hnot)

theorem flatMap_putOff_length_eq_iff :
    (ms.flatMap (putOff rsvs)).length = (ms.map (insideCount rsvs)).sum ↔
      ∀ m ∈ ms, (putOff rsvs m).length = insideCount rsvs m := by
  induction ms with
  | nil => simp
  | cons m ms ih =>
      have hm := putOff_count (m := m) (List.Subset.refl rsvs)
      have hms := flatMap_putOff_count rsvs ms
      rw [List.flatMap_cons, List.length_append, List.map_cons, List.sum_cons,
        List.forall_mem_cons, ← ih]
      omega

/-- The pieces of disjoint regions are as many as the entries exactly when each entry lies
strictly inside a region and below the entries before it there. -/
theorem first_length_eq_iff (hsizes : ∀ m ∈ ms, m.size ≠ 0)
    (hdisjoint : ms.Pairwise fun a b => Disjoint a.bytes b.bytes) :
    (ms.flatMap (putOff rsvs)).length = rsvs.length ↔
      (∀ r ∈ rsvs, ∃ m ∈ ms, Inside m r) ∧
        ∀ m ∈ ms, rsvs.Pairwise fun a b =>
          Inside m a → Inside m b → b.addr + b.size < a.addr := by
  obtain ⟨hle, hinside⟩ := sum_insideCount_le rsvs hdisjoint
  have hcount := flatMap_putOff_count rsvs ms
  have hsplit : (ms.flatMap (putOff rsvs)).length = rsvs.length ↔
      (ms.map (insideCount rsvs)).sum = rsvs.length ∧
        (ms.flatMap (putOff rsvs)).length = (ms.map (insideCount rsvs)).sum := by
    omega
  rw [hsplit, hinside, flatMap_putOff_length_eq_iff]
  refine and_congr_right fun hall => forall₂_congr fun m hm => ?_
  refine putOff_length_eq_iff fun r hr => ?_
  obtain ⟨n, hn, hin⟩ := hall r hr
  by_cases heq : n = m
  · exact Or.inl (heq ▸ hin)
  · have hsymm : Std.Symm fun a b : Region => Disjoint a.bytes b.bytes := ⟨fun _ _ h => h.symm⟩
    have hapart := hdisjoint.forall hn hm heq
    exact Or.inr (hin.apart_of_disjoint (hsizes m hm) hapart)

theorem reservedEntries_length (reservedMem : Vector Region 32) (kernelRegion : Region) :
    (reservedEntries reservedMem kernelRegion).length ≤ 33 ∧
      ((reservedEntries reservedMem kernelRegion).length = 33 ↔
        ∀ r ∈ reservedMem.toList, r.size ≠ 0) := by
  have hle := List.length_filter_le (fun r : Region => r.size ≠ 0) reservedMem.toList
  have hiff := List.length_filter_eq_length_iff (p := fun r : Region => decide (r.size ≠ 0))
    (l := reservedMem.toList)
  simp only [decide_eq_true_eq, reservedMem.length_toList] at hle hiff
  rw [reservedEntries, List.length_append, List.length_singleton, ← hiff]
  omega

/-- Disjoint regions are cut into more than 32 pieces exactly when every entry splits. -/
theorem allSplit_iff {mem reservedMem : Vector Region 32} {kernelRegion : Region}
    (hdisjoint : mem.toList.Pairwise fun a b => Disjoint a.bytes b.bytes) :
    AllSplit mem reservedMem kernelRegion ↔
      32 < (first (reservedEntries reservedMem kernelRegion) mem.toList).pieces.length := by
  obtain ⟨hle, hfull⟩ := reservedEntries_length reservedMem kernelRegion
  have hused : (occupied mem.toList).Pairwise fun a b => Disjoint a.bytes b.bytes :=
    hdisjoint.filter _
  have hsizes : ∀ m ∈ occupied mem.toList, m.size ≠ 0 := fun m hm => by
    simpa using (List.mem_filter.mp hm).2
  have hcount := flatMap_putOff_count (reservedEntries reservedMem kernelRegion)
    (occupied mem.toList)
  have hsum := (sum_insideCount_le (reservedEntries reservedMem kernelRegion) hused).1
  have hmany : 32 < (first (reservedEntries reservedMem kernelRegion) mem.toList).pieces.length ↔
      ((occupied mem.toList).flatMap
        (putOff (reservedEntries reservedMem kernelRegion))).length =
          (reservedEntries reservedMem kernelRegion).length ∧
      (reservedEntries reservedMem kernelRegion).length = 33 := by
    simp only [first]
    omega
  rw [hmany, hfull, first_length_eq_iff hsizes hused]
  constructor
  · rintro ⟨hres, hin, hdesc⟩
    refine ⟨⟨fun r hr => ?_, fun m hm => hdesc m (List.mem_filter.mp hm).1⟩, hres⟩
    obtain ⟨m, hm, h⟩ := hin r hr
    exact ⟨m, List.mem_filter.mpr ⟨hm, by simpa using h.size_ne_zero⟩, h⟩
  · rintro ⟨⟨hin, hdesc⟩, hres⟩
    refine ⟨hres, fun r hr => ?_, fun m hm => ?_⟩
    · obtain ⟨m, hm, h⟩ := hin r hr
      exact ⟨m, (List.mem_filter.mp hm).1, h⟩
    · by_cases hsize : m.size = 0
      · refine List.pairwise_of_forall fun _ _ h => ?_
        exact absurd hsize h.size_ne_zero
      · exact hdesc m (List.mem_filter.mpr ⟨hm, by simpa using hsize⟩)

/-- In disjoint regions only the first generation has more than 32 pieces. -/
theorem later_length_le {mem reservedMem : Vector Region 32} {kernelRegion : Region}
    (hdisjoint : mem.toList.Pairwise fun a b => Disjoint a.bytes b.bytes) (d : Nat) :
    (generation (reservedEntries reservedMem kernelRegion) mem.toList (d + 1)).pieces.length ≤
      32 := by
  have hle := (reservedEntries_length reservedMem kernelRegion).1
  generalize reservedEntries reservedMem kernelRegion = rsvs at hle ⊢
  have hused : (occupied mem.toList).Pairwise fun a b => Disjoint a.bytes b.bytes :=
    hdisjoint.filter _
  have hfirst := flatMap_putOff_count rsvs (occupied mem.toList)
  have hsum := (sum_insideCount_le rsvs hused).1
  have hnext := next_count rsvs (generation rsvs mem.toList d)
  have hcount := generation_count rsvs mem.toList d
  rw [generation_succ]
  change _ ≤ (((occupied mem.toList).flatMap (putOff rsvs)).map (insideCount rsvs)).sum at hcount
  rcases Nat.eq_zero_or_pos ((occupied mem.toList).flatMap (putOff rsvs)).length with hzero | hpos
  · rw [List.length_eq_zero_iff.mp hzero, List.map_nil, List.sum_nil] at hcount
    omega
  · omega

/-- The available memory is computed without a panic exactly when no generation has more than
32 pieces. For disjoint memory regions this is when not every entry splits. -/
theorem calcAvailableMem_isSome_iff (mem reservedMem : Vector Region 32) (kernelRegion : Region)
    (hmem : ∀ m ∈ mem.toList, m.Fits) (hreserved : ∀ r ∈ reservedMem.toList, r.Fits)
    (hkernel : kernelRegion.Fits) :
    ((∃ out, calcAvailableMem mem reservedMem kernelRegion = some out) ↔
      ∀ d, (generation (reservedEntries reservedMem kernelRegion) mem.toList d).pieces.length ≤
        32) ∧
    ((mem.toList.Pairwise fun a b => Disjoint a.bytes b.bytes) →
      ((∃ out, calcAvailableMem mem reservedMem kernelRegion = some out) ↔
        ¬ AllSplit mem reservedMem kernelRegion)) := by
  have hrsvs := reservedEntries_fits hreserved hkernel
  have hloop := (putsOff_startState mem hrsvs hmem).isSome_iff hrsvs
  have hcalc : (∃ out, calcAvailableMem mem reservedMem kernelRegion = some out) ↔
      ∀ d, (generation (reservedEntries reservedMem kernelRegion) mem.toList d).pieces.length ≤
        32 := by
    refine Iff.trans ?_ hloop
    simp only [calcAvailableMem, Option.bind_eq_bind, Option.bind_eq_some_iff]
    constructor
    · rintro ⟨out, res, hres, _⟩
      exact ⟨res, hres⟩
    · rintro ⟨res, hres⟩
      exact ⟨sortBySize res, res, hres, rfl⟩
  refine ⟨hcalc, fun hdisjoint => ?_⟩
  rw [hcalc, allSplit_iff hdisjoint, Nat.not_lt]
  constructor
  · intro hall
    exact hall 0
  · intro hfirst d
    cases d with
    | zero => exact hfirst
    | succ d => exact later_length_le hdisjoint d

/-- 32 reserved entries in descending order and the kernel below them cut one region. -/
theorem calcAvailableMem_isSome_descending :
    ¬ ∀ mem reservedMem : Vector Region 32, ∀ kernelRegion : Region,
      (∀ m ∈ mem.toList, m.Fits) → (∀ r ∈ reservedMem.toList, r.Fits) → kernelRegion.Fits →
      ∃ out, calcAvailableMem mem reservedMem kernelRegion = some out := by
  intro hall
  let mem := slots [⟨0, 2000⟩]
  let reservedMem : Vector Region 32 := Vector.ofFn fun i => ⟨1000 - 20 * i, 10⟩
  have hround : Memory.round (reservedEntries reservedMem ⟨300, 10⟩) (startState mem) = none := by
    decide +kernel
  obtain ⟨out, hout⟩ := hall mem reservedMem ⟨300, 10⟩ (by decide +kernel) (by decide +kernel)
    (by decide)
  rw [calcAvailableMem, loop, hround] at hout
  cases hout

/-- The kernel image in the middle of the only region is one split. -/
theorem calcAvailableMem_isSome_split :
    ((∃ out, calcAvailableMem (slots [⟨0, 100⟩]) (slots []) ⟨20, 10⟩ = some out) ↔
      ∀ d, (generation (reservedEntries (slots []) ⟨20, 10⟩)
        (slots [⟨0, 100⟩]).toList d).pieces.length ≤ 32) ∧
    ((∃ out, calcAvailableMem (slots [⟨0, 100⟩]) (slots []) ⟨20, 10⟩ = some out) ↔
      ¬ AllSplit (slots [⟨0, 100⟩]) (slots []) ⟨20, 10⟩) := by
  obtain ⟨hall, hdisjoint⟩ := calcAvailableMem_isSome_iff (slots [⟨0, 100⟩]) (slots []) ⟨20, 10⟩
    (by decide +kernel) (by decide +kernel) (by decide)
  refine ⟨hall, hdisjoint ?_⟩
  have hends : (slots [⟨0, 100⟩]).toList.Pairwise fun a b =>
      a.addr + a.size ≤ b.addr ∨ b.size = 0 := by decide +kernel
  refine hends.imp fun {a b} h => ?_
  rw [Set.disjoint_left]
  intro x
  simp only [Region.mem_bytes]
  omega

end Kruspix.Mm.MemorySplits
