import Kruspix.Mm.MemoryCuts
import Mathlib.Data.List.TakeWhile

/-!
# The pieces of the memory regions

What the rounds do to the array is computed here on the regions alone. Every entry
cuts a region in the order of the list: the part below the entry stays, and when the
entry lies strictly inside, the part above it is put off. The pieces that the memory
regions put off are the first generation, the pieces that these put off the next one.
A generation has as many unchecked pieces as regions and pieces before it were
swallowed. Hence the available memory avoids the reserved regions, and 32 places are
enough, exactly when the pieces of the regions say so.
-/

namespace Kruspix.Mm.MemoryPieces

open Memory MemoryRounds MemoryCuts

variable {rsvs rsvs' ms ns : List Region} {m n r : Region} {s t : LoopState} {skip : Nat}

/-! ## Cutting one region -/

/-- The entry lies strictly inside the region, with bytes of the region on both sides. -/
def Inside (m r : Region) : Prop := m.addr < r.addr ∧ r.addr + r.size < m.addr + m.size

instance (m r : Region) : Decidable (Inside m r) := inferInstanceAs (Decidable (_ ∧ _))

/-- The entry ends below the region or starts above it. -/
def Apart (m r : Region) : Prop := r.addr + r.size ≤ m.addr ∨ m.addr + m.size ≤ r.addr

instance (m r : Region) : Decidable (Apart m r) := inferInstanceAs (Decidable (_ ∨ _))

/-- What stays of a region: the part below the entry, or the part above it when there is
nothing below. -/
def lower (m r : Region) : Region :=
  if Apart m r then m
  else if m.addr < r.addr then ⟨m.addr, r.addr - m.addr⟩
  else if r.addr + r.size < m.addr + m.size then
    ⟨r.addr + r.size, m.addr + m.size - (r.addr + r.size)⟩
  else .empty

/-- What a split puts off: the part above an entry strictly inside. -/
def upper (m r : Region) : Region :=
  if Inside m r then ⟨r.addr + r.size, m.addr + m.size - (r.addr + r.size)⟩ else .empty

theorem Inside.not_apart (h : Inside m r) : ¬ Apart m r := by
  unfold Inside at h
  unfold Apart
  omega

theorem Inside.size_ne_zero (h : Inside m r) : m.size ≠ 0 := by
  unfold Inside at h
  omega

/-- An entry inside one of two disjoint regions is apart from the other. -/
theorem Inside.apart_of_disjoint (h : Inside m r) (hn : n.size ≠ 0)
    (hdisjoint : Disjoint m.bytes n.bytes) : Apart n r := by
  have hstart : max m.addr n.addr ∈ m.bytes → max m.addr n.addr ∉ n.bytes :=
    fun hm => Set.disjoint_left.mp hdisjoint hm
  simp only [Region.mem_bytes] at hstart
  unfold Inside at h
  unfold Apart
  omega

theorem lower_of_apart (h : Apart m r) : lower m r = m := if_pos h

theorem lower_of_inside (h : Inside m r) : lower m r = ⟨m.addr, r.addr - m.addr⟩ := by
  rw [lower, if_neg h.not_apart, if_pos h.1]

theorem upper_of_inside (h : Inside m r) :
    upper m r = ⟨r.addr + r.size, m.addr + m.size - (r.addr + r.size)⟩ := if_pos h

theorem upper_of_not_inside (h : ¬ Inside m r) : upper m r = .empty := if_neg h

/-- The difference of regions that fit is the part that stays and the part put off. -/
theorem regionDiff_eq (hm : m.Fits) (hr : r.Fits) :
    regionDiff m r = some (lower m r, upper m r) := by
  have hadd : checkedAdd m.addr m.size = some (m.addr + m.size) := if_pos hm
  have hadd' : checkedAdd r.addr r.size = some (r.addr + r.size) := if_pos hr
  simp only [regionDiff, hadd, hadd', Option.bind_eq_bind, Option.bind_some, Option.pure_def]
  by_cases hbelow : r.addr + r.size ≤ m.addr
  · have hapart : Apart m r := Or.inl hbelow
    rw [if_pos hbelow, lower_of_apart hapart, upper_of_not_inside fun h => h.not_apart hapart]
  by_cases habove : m.addr + m.size ≤ r.addr
  · have hapart : Apart m r := Or.inr habove
    rw [if_neg hbelow, if_pos habove, lower_of_apart hapart,
      upper_of_not_inside fun h => h.not_apart hapart]
  rw [if_neg hbelow, if_neg habove]
  by_cases hinside : Inside m r
  · obtain ⟨hstart, hend⟩ := id hinside
    rw [lower_of_inside hinside, upper_of_inside hinside, if_neg (by omega), if_neg (by omega),
      if_neg (by omega)]
  have hapart : ¬ Apart m r := by
    unfold Apart
    omega
  rw [upper_of_not_inside hinside, lower, if_neg hapart]
  unfold Inside at hinside
  by_cases hstart : m.addr < r.addr
  · rw [if_neg (by omega), if_neg (by omega), if_pos (by omega), if_pos hstart]
  by_cases hend : r.addr + r.size < m.addr + m.size
  · have hsize : m.size - (r.addr + r.size - m.addr) = m.addr + m.size - (r.addr + r.size) := by
      omega
    rw [if_pos ⟨Nat.le_of_not_lt hstart, hend⟩, if_neg hstart, if_pos hend, hsize]
  · rw [if_neg (by omega), if_pos (by omega), if_neg hstart, if_neg hend]

/-- What the entries leave of a region in its place. -/
def stays (rsvs : List Region) (m : Region) : Region := rsvs.foldl lower m

/-- The pieces that the entries split off a region, in their order. -/
def putOff : List Region → Region → List Region
  | [], _ => []
  | r :: rsvs, m => occupied [upper m r] ++ putOff rsvs (lower m r)

theorem cutSlot_eq (hrsvs : ∀ r ∈ rsvs, r.Fits) (hm : m.Fits) :
    cutSlot rsvs m = some (stays rsvs m, putOff rsvs m) := by
  induction rsvs generalizing m with
  | nil => rfl
  | cons r rsvs ih =>
      obtain ⟨hr, hrsvs⟩ := List.forall_mem_cons.mp hrsvs
      have hdiff := regionDiff_eq hm hr
      obtain ⟨diff, hfits, hlo, _⟩ := regionDiff_fits hm hr
      rw [hdiff] at hfits
      cases hfits
      rw [cutSlot, hdiff]
      simp only [Option.bind_eq_bind, Option.bind_some, ih hrsvs hlo, Option.pure_def]
      rfl

theorem mem_putOff_size {u : Region} (h : u ∈ putOff rsvs m) : u.size ≠ 0 := by
  induction rsvs generalizing m with
  | nil => cases h
  | cons r rsvs ih =>
      rcases List.mem_append.mp h with h | h
      · simpa using (List.mem_filter.mp h).2
      · exact ih h

/-! ## Cutting the slots of a round -/

/-- The slots after a pass that skips some of those in use and cuts the others. -/
def cutBehind (rsvs : List Region) : Nat → List Region → List Region
  | _, [] => []
  | skip, m :: ms =>
      if m.size = 0 then m :: cutBehind rsvs skip ms
      else if 0 < skip then m :: cutBehind rsvs (skip - 1) ms
      else stays rsvs m :: cutBehind rsvs 0 ms

theorem cutSlots_eq (skip : Nat) (hrsvs : ∀ r ∈ rsvs, r.Fits) (hms : ∀ m ∈ ms, m.Fits) :
    cutSlots rsvs skip ms =
      some (cutBehind rsvs skip ms, ((occupied ms).drop skip).flatMap (putOff rsvs)) := by
  induction ms generalizing skip with
  | nil => simp [cutSlots, cutBehind]
  | cons m ms ih =>
      obtain ⟨hm, hms⟩ := List.forall_mem_cons.mp hms
      rw [cutSlots, cutBehind]
      split_ifs with hsize hskip
      · rw [ih skip hms, occupied_cons_empty hsize]
        rfl
      · obtain ⟨k, rfl⟩ : ∃ k, skip = k + 1 := ⟨skip - 1, by omega⟩
        rw [Nat.add_sub_cancel, ih k hms, occupied_cons hsize]
        rfl
      · obtain rfl : skip = 0 := by omega
        rw [cutSlot_eq hrsvs hm, ih 0 hms, occupied_cons hsize]
        rfl

theorem cutBehind_length : (cutBehind rsvs skip ms).length = ms.length := by
  induction ms generalizing skip with
  | nil => rfl
  | cons m ms ih =>
      rw [cutBehind]
      split_ifs <;> simp only [List.length_cons, ih]

theorem cutBehind_append : cutBehind rsvs skip (ms ++ ns) =
    cutBehind rsvs skip ms ++ cutBehind rsvs (skip - (occupied ms).length) ns := by
  induction ms generalizing skip with
  | nil => rfl
  | cons m ms ih =>
      rw [List.cons_append, cutBehind, cutBehind]
      split_ifs with hsize hskip
      · rw [ih, occupied_cons_empty hsize, List.cons_append]
      · rw [ih, occupied_cons hsize, List.length_cons, List.cons_append, Nat.sub_sub,
          Nat.add_comm 1]
      · rw [ih, occupied_cons hsize, List.length_cons, List.cons_append,
          Nat.sub_eq_zero_of_le (by omega : 0 ≤ _), Nat.sub_eq_zero_of_le (by omega : skip ≤ _)]

/-- Slots in front that are all skipped stay as they are. -/
theorem cutBehind_skipped (h : (occupied ms).length ≤ skip) : cutBehind rsvs skip ms = ms := by
  induction ms generalizing skip with
  | nil => rfl
  | cons m ms ih =>
      rw [cutBehind]
      split_ifs with hsize hskip
      · rw [ih (by rwa [occupied_cons_empty hsize] at h)]
      · rw [occupied_cons hsize, List.length_cons] at h
        rw [ih (by omega)]
      · rw [occupied_cons hsize, List.length_cons] at h
        omega

/-- Of slots that are all in use the skipped ones stay as they are. -/
theorem cutBehind_occupied (h : ∀ m ∈ ms, m.size ≠ 0) :
    cutBehind rsvs skip ms = ms.take skip ++ (ms.drop skip).map (stays rsvs) := by
  induction ms generalizing skip with
  | nil => simp [cutBehind]
  | cons m ms ih =>
      obtain ⟨hsize, h⟩ := List.forall_mem_cons.mp h
      rw [cutBehind, if_neg hsize]
      split_ifs with hskip
      · obtain ⟨k, rfl⟩ : ∃ k, skip = k + 1 := ⟨skip - 1, by omega⟩
        rw [Nat.add_sub_cancel, ih h]
        rfl
      · obtain rfl : skip = 0 := by omega
        rw [ih h]
        rfl

/-! ## Generations of pieces -/

/-- The pieces of one generation, the places that are taken before them, and how many of
the regions and pieces before them were swallowed. -/
structure Generation where
  pieces : List Region
  place : Nat
  swallowed : Nat

namespace Generation

variable (rsvs) (g : Generation)

/-- The pieces that find a place in the array. -/
def placed : List Region := g.pieces.take (32 - g.place)

/-- The pieces that are not checked: one for each swallowed region or piece. -/
def passed : List Region := g.placed.take g.swallowed

/-- The pieces that are checked. -/
def checked : List Region := g.placed.drop g.swallowed

/-- The pieces that the checked ones put off. -/
def next : Generation where
  pieces := g.checked.flatMap (putOff rsvs)
  place := g.place + g.pieces.length
  swallowed := g.swallowed + g.checked.countP fun m => (stays rsvs m).size = 0

end Generation

/-- The regions in front of the first unused slot. -/
def leading (ms : List Region) : List Region := ms.takeWhile fun m => m.size ≠ 0

/-- The pieces that the memory regions put off. -/
def first (rsvs ms : List Region) : Generation where
  pieces := (occupied ms).flatMap (putOff rsvs)
  place := (leading ms).length
  swallowed := (leading ms).countP fun m => (stays rsvs m).size = 0

/-- The generations of the pieces of the memory regions. -/
def generation (rsvs ms : List Region) (d : Nat) : Generation :=
  (Generation.next rsvs)^[d] (first rsvs ms)

theorem Generation.next_pieces {g : Generation} (h : g.placed = []) :
    (g.next rsvs).pieces = [] := by
  rw [Generation.next, Generation.checked, h, List.drop_nil]
  rfl

/-- A generation without a place in the array puts nothing off. -/
theorem iterate_placed_eq_nil {g : Generation} (h : g.placed = []) (d : Nat) :
    ((Generation.next rsvs)^[d] g).placed = [] := by
  induction d generalizing g with
  | zero => exact h
  | succ d ih =>
      rw [Function.iterate_succ_apply]
      exact ih (by rw [Generation.placed, Generation.next_pieces h, List.take_nil])

/-! ## The rounds work on the generations -/

/-- A state in which the pieces of a generation have just been queued. -/
structure At (g : Generation) (s : LoopState) : Prop where
  length : s.mem.length = 32
  fits : SlotsFit s
  place_le : g.place ≤ 32
  memSkip : s.memSkip = g.place
  memIndex : s.memIndex = g.place + g.pieces.length
  swallowed : (s.mem.take g.place).countP (fun m => m.size = 0) = g.swallowed
  sizes : ∀ m ∈ g.placed, m.size ≠ 0
  rest : ∃ ns, occupied ns = [] ∧ s.mem.drop g.place = g.placed ++ ns

/-- A state whose round puts off the pieces of a generation. -/
structure PutsOff (rsvs : List Region) (g : Generation) (s : LoopState) : Prop where
  length : s.mem.length = 32
  fits : SlotsFit s
  memIndex : s.memIndex = g.place
  pieces : uppers rsvs s = g.pieces
  swallowed : g.place < 32 →
    ((cutBehind rsvs s.memSkip s.mem).take g.place).countP (fun m => m.size = 0) = g.swallowed

theorem occupied_eq_self (h : ∀ m ∈ ms, m.size ≠ 0) : occupied ms = ms :=
  List.filter_eq_self.mpr (by simpa using h)

theorem swallowed_eq_zero (h : ∀ m ∈ ms, m.size ≠ 0) :
    ms.countP (fun m => m.size = 0) = 0 :=
  List.countP_eq_zero.mpr (by simpa using h)

section Rounds

variable {g : Generation} {out : List Region}

theorem uppers_eq_putOff (hrsvs : ∀ r ∈ rsvs, r.Fits) (hs : SlotsFit s) :
    uppers rsvs s = ((occupied s.mem).drop s.memSkip).flatMap (putOff rsvs) :=
  uppers_eq (cutSlots_eq _ hrsvs hs)

/-- What a round does with the pieces that it puts off. -/
theorem PutsOff.round_eq (hg : PutsOff rsvs g s) (hrsvs : ∀ r ∈ rsvs, r.Fits) :
    Memory.round rsvs s = (pushAll [] g.pieces).map fun newMem =>
      if newMem.length = 0 ∨ 32 ≤ g.place then .inl (cutBehind rsvs s.memSkip s.mem)
      else .inr ⟨copyNew (cutBehind rsvs s.memSkip s.mem) g.place newMem, g.place,
        g.place + newMem.length⟩ := by
  have hcut := cutSlots_eq s.memSkip hrsvs hg.fits
  rw [MemoryCuts.round_eq hcut, ← uppers_eq_putOff hrsvs hg.fits, hg.pieces, hg.memIndex]

/-- A further round starts with the pieces that the round before it put off. -/
theorem PutsOff.at (hg : PutsOff rsvs g s) (hrsvs : ∀ r ∈ rsvs, r.Fits)
    (h : Round rsvs s t) : At g t := by
  have hfits := SlotsFit.round hrsvs hg.fits h
  rw [Round, hg.round_eq hrsvs, Option.map_eq_some_iff] at h
  obtain ⟨newMem, hpush, ht⟩ := h
  rw [pushAll, Option.ite_none_right_eq_some, List.nil_append, Option.some_inj] at hpush
  obtain ⟨_, rfl⟩ := hpush
  split_ifs at ht with hstop
  cases ht
  have hplace : g.place < 32 := by omega
  have hslots : (cutBehind rsvs s.memSkip s.mem).length = 32 := by
    rw [cutBehind_length, hg.length]
  refine ⟨copyNew_length hslots hplace.le, hfits, hplace.le, rfl, rfl, ?_, ?_, ?_⟩
  · rw [copyNew_take hslots hplace.le, hg.swallowed hplace]
  · intro m hm
    have hm := List.mem_of_mem_take hm
    rw [← hg.pieces, uppers_eq_putOff hrsvs hg.fits] at hm
    obtain ⟨n, _, hm⟩ := List.mem_flatMap.mp hm
    exact mem_putOff_size hm
  · refine ⟨(List.replicate (32 - g.pieces.length) Region.empty).take
      (32 - g.place - g.pieces.length), ?_, ?_⟩
    · rw [List.take_replicate, occupied_replicate_empty]
    · rw [copyNew, List.drop_left' (by rw [List.length_take, hslots]; omega), List.take_append]
      rfl

/-- When the loop stops, the pieces put off last have no place or there are none. -/
theorem PutsOff.placed_eq_nil (hg : PutsOff rsvs g s) (hrsvs : ∀ r ∈ rsvs, r.Fits)
    (h : Memory.round rsvs s = some (.inl out)) : g.placed = [] := by
  rw [hg.round_eq hrsvs, Option.map_eq_some_iff] at h
  obtain ⟨newMem, hpush, ht⟩ := h
  rw [pushAll, Option.ite_none_right_eq_some, List.nil_append, Option.some_inj] at hpush
  obtain ⟨_, rfl⟩ := hpush
  split_ifs at ht with hstop
  rw [Generation.placed, List.take_eq_nil_iff, ← List.length_eq_zero_iff]
  omega

theorem At.mem_eq (hg : At g s) :
    ∃ ns, occupied ns = [] ∧ s.mem = s.mem.take g.place ++ (g.placed ++ ns) := by
  obtain ⟨ns, hns, hrest⟩ := hg.rest
  exact ⟨ns, hns, by rw [← hrest, List.take_append_drop]⟩

theorem At.front_length (hg : At g s) :
    (occupied (s.mem.take g.place)).length + g.swallowed = g.place := by
  have hcount := occupied_length_add (s.mem.take g.place)
  rw [hg.swallowed, List.length_take, hg.length, min_eq_left hg.place_le] at hcount
  exact hcount

/-- A round puts off the pieces of the checked ones. -/
theorem At.uppers_eq (hg : At g s) (hrsvs : ∀ r ∈ rsvs, r.Fits) :
    uppers rsvs s = (g.next rsvs).pieces := by
  obtain ⟨ns, hns, hmem⟩ := hg.mem_eq
  have hfront := hg.front_length
  have hskip : g.place - (occupied (s.mem.take g.place)).length = g.swallowed := by omega
  rw [uppers_eq_putOff hrsvs hg.fits, hg.memSkip, hmem, occupied_append, occupied_append, hns,
    List.append_nil, occupied_eq_self hg.sizes, List.drop_append,
    List.drop_eq_nil_of_le (by omega), List.nil_append, hskip]
  rfl

/-- The round after the pieces of a generation were queued puts off the next one. -/
theorem At.putsOff (hg : At g s) (hrsvs : ∀ r ∈ rsvs, r.Fits) :
    PutsOff rsvs (g.next rsvs) s := by
  refine ⟨hg.length, hg.fits, hg.memIndex, hg.uppers_eq hrsvs, ?_⟩
  intro hplace
  obtain ⟨ns, hns, hmem⟩ := hg.mem_eq
  have hfront := hg.front_length
  have hplaced : g.placed = g.pieces := List.take_of_length_le (by
    change g.place + g.pieces.length < 32 at hplace
    omega)
  have hlen : (s.mem.take g.place).length = g.place := by
    rw [List.length_take, hg.length]
    exact min_eq_left hg.place_le
  have hskip : g.place - (occupied (s.mem.take g.place)).length = g.swallowed := by omega
  rw [hg.memSkip, hmem, cutBehind_append, cutBehind_skipped (by omega), cutBehind_append,
    cutBehind_occupied hg.sizes, hskip, ← List.append_assoc, List.take_left']
  · rw [List.countP_append, hg.swallowed, List.countP_append, List.countP_map,
      swallowed_eq_zero fun m hm => hg.sizes m (List.mem_of_mem_take hm), Nat.zero_add]
    rfl
  · simp only [List.length_append, List.length_map, hlen]
    rw [← List.length_append, List.take_append_drop, hplaced]
    rfl

theorem PutsOff.round_eq_none_iff (hg : PutsOff rsvs g s) (hrsvs : ∀ r ∈ rsvs, r.Fits) :
    Memory.round rsvs s = none ↔ 32 < g.pieces.length := by
  rw [← hg.pieces, MemoryCuts.round_eq_none_iff hrsvs hg.fits]

/-- The loop ends without a panic exactly when no generation has more than 32 pieces. -/
theorem PutsOff.isSome_iff (hg : PutsOff rsvs g s) (hrsvs : ∀ r ∈ rsvs, r.Fits) :
    (∃ out, loop rsvs s = some out) ↔
      ∀ d, ((Generation.next rsvs)^[d] g).pieces.length ≤ 32 := by
  induction s using loop.induct rsvs generalizing g with
  | case1 s hnone =>
      have hmany := (hg.round_eq_none_iff hrsvs).mp hnone
      constructor
      · rintro ⟨_, h⟩
        rw [loop, hnone] at h
        cases h
      · intro hall
        exact absurd (hall 0) (Nat.not_le_of_lt hmany)
  | case2 s mem hdone =>
      have hroom := mt (hg.round_eq_none_iff hrsvs).mpr (by rw [hdone]; exact Option.some_ne_none _)
      constructor
      · intro _ d
        cases d with
        | zero => exact Nat.le_of_not_lt hroom
        | succ d =>
            rw [Function.iterate_succ_apply',
              Generation.next_pieces (iterate_placed_eq_nil (hg.placed_eq_nil hrsvs hdone) d)]
            exact Nat.zero_le _
      · intro _
        exact ⟨mem, loop_done hdone⟩
  | case3 s t hnext ih =>
      have hroom := mt (hg.round_eq_none_iff hrsvs).mpr (by rw [hnext]; exact Option.some_ne_none _)
      have hlater := ih ((hg.at hrsvs hnext).putsOff hrsvs)
      rw [loop_next hnext, hlater]
      constructor
      · intro hall d
        cases d with
        | zero => exact Nat.le_of_not_lt hroom
        | succ d =>
            rw [Function.iterate_succ_apply]
            exact hall d
      · intro hall d
        rw [← Function.iterate_succ_apply]
        exact hall (d + 1)

end Rounds

theorem leading_eq_take (ms : List Region) :
    leading ms = ms.take (ms.findIdx fun m => m.size = 0) := by
  rw [leading, List.takeWhile_eq_take_findIdx_not]
  simp

theorem startState_memIndex (mem : Vector Region 32) :
    (startState mem).memIndex = (leading mem.toList).length := by
  have hfind : (startState mem).memIndex = mem.toList.findIdx fun m => m.size = 0 := by
    rw [List.findIdx_eq_getD_findIdx?, mem.length_toList]
    rfl
  rw [hfind, leading_eq_take, List.length_take, min_eq_left List.findIdx_le_length]

/-- The first round puts off the first generation. -/
theorem putsOff_startState (mem : Vector Region 32) (hrsvs : ∀ r ∈ rsvs, r.Fits)
    (hmem : ∀ m ∈ mem.toList, m.Fits) : PutsOff rsvs (first rsvs mem.toList) (startState mem) := by
  refine ⟨mem.length_toList, hmem, startState_memIndex mem, uppers_eq_putOff hrsvs hmem, ?_⟩
  intro _
  have hsizes : ∀ m ∈ leading mem.toList, m.size ≠ 0 := by
    intro m hm
    simpa using List.mem_takeWhile_imp hm
  have hsplit : mem.toList = leading mem.toList ++ mem.toList.dropWhile fun m => m.size ≠ 0 :=
    List.takeWhile_append_dropWhile.symm
  have hcut : cutBehind rsvs 0 mem.toList = (leading mem.toList).map (stays rsvs) ++
      cutBehind rsvs 0 (mem.toList.dropWhile fun m => m.size ≠ 0) := by
    conv_lhs => rw [hsplit]
    rw [cutBehind_append, cutBehind_occupied hsizes, Nat.zero_sub]
    rfl
  change ((cutBehind rsvs 0 mem.toList).take (leading mem.toList).length).countP _ = _
  rw [hcut, List.take_left' (List.length_map _), List.countP_map]
  rfl

end Kruspix.Mm.MemoryPieces
