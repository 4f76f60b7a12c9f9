import Kruspix.Mm.MemoryRounds

/-!
# The cuts of a round

A round cuts the slots that it trims along the reserved entries. It needs a place in
`new_mem` for every upper half, and as long as these and the slots in use fit the array
no byte gets lost and none is listed twice.
-/

namespace Kruspix.Mm.MemoryCuts

open Memory MemoryRounds

/-! ## The upper halves -/

/-- What is left of one slot, and the upper halves of its splits. -/
def cutSlot : List Region → Region → Option (Region × List Region)
  | [], m => some (m, [])
  | r :: rsvs, m => do
      let diff ← regionDiff m r
      let (m, uppers) ← cutSlot rsvs diff.1
      return (m, occupied [diff.2] ++ uppers)

/-- The slots after a pass, and the upper halves of its splits. -/
def cutSlots (rsvs : List Region) : Nat → List Region → Option (List Region × List Region)
  | _, [] => some ([], [])
  | skip, m :: ms =>
      if m.size = 0 then do
        let (ms, uppers) ← cutSlots rsvs skip ms
        return (m :: ms, uppers)
      else if 0 < skip then do
        let (ms, uppers) ← cutSlots rsvs (skip - 1) ms
        return (m :: ms, uppers)
      else do
        let (m, uppers) ← cutSlot rsvs m
        let (ms, uppers') ← cutSlots rsvs 0 ms
        return (m :: ms, uppers ++ uppers')

/-- The upper halves of a round. -/
def uppers (rsvs : List Region) (s : LoopState) : List Region :=
  match cutSlots rsvs s.memSkip s.mem with
  | none => []
  | some (_, uppers) => uppers

/-- The splits that are made in the rounds from a state on. -/
def splits (rsvs : List Region) (s : LoopState) : Nat :=
  match _h : Memory.round rsvs s with
  | some (.inr t) => (uppers rsvs s).length + splits rsvs t
  | _ => (uppers rsvs s).length
termination_by 32 - s.memIndex
decreasing_by
  have := round_memIndex_lt _h
  omega

variable {rsvs ms ms' newMem : List Region} {m r : Region} {skip : Nat} {s t : LoopState}

/-- The array with more upper halves, if it has room for them. -/
def pushAll (newMem uppers : List Region) : Option (List Region) :=
  if newMem.length + uppers.length ≤ 32 then some (newMem ++ uppers) else none

theorem pushAll_append (newMem uppers uppers' : List Region) :
    ((pushAll newMem uppers).bind fun newMem => pushAll newMem uppers') =
      pushAll newMem (uppers ++ uppers') := by
  by_cases hlen : newMem.length + uppers.length ≤ 32
  · rw [pushAll, if_pos hlen, Option.bind_some, pushAll, pushAll, List.length_append,
      List.length_append, List.append_assoc, Nat.add_assoc]
  · rw [pushAll, if_neg hlen, pushAll, List.length_append, if_neg (by omega)]
    rfl

theorem pushNew_eq (hlen : newMem.length ≤ 32) (upper : Region) :
    pushNew newMem upper = pushAll newMem (occupied [upper]) := by
  rw [pushNew, pushAll]
  by_cases hsize : upper.size = 0
  · rw [if_pos hsize, occupied_cons_empty hsize, occupied_nil, List.length_nil, Nat.add_zero,
      if_pos hlen, List.append_nil]
  · rw [if_neg hsize, occupied_cons hsize, occupied_nil, List.length_singleton]
    rfl

theorem pushAll_length {newMem' : List Region} (h : pushAll newMem ms = some newMem') :
    newMem'.length ≤ 32 := by
  rw [pushAll] at h
  split at h
  · cases h
    rw [List.length_append]
    assumption
  · cases h

theorem pushAll_nil (hlen : newMem.length ≤ 32) : pushAll newMem [] = some newMem := by
  rw [pushAll, List.length_nil, Nat.add_zero, if_pos hlen, List.append_nil]

/-- Trimming a slot queues the upper halves of its splits, if there is room for all. -/
theorem trimSlot_eq (hlen : newMem.length ≤ 32) :
    trimSlot rsvs m newMem = (cutSlot rsvs m).bind fun cut =>
      (pushAll newMem cut.2).map fun newMem => (cut.1, newMem) := by
  induction rsvs generalizing m newMem with
  | nil =>
      rw [trimSlot, cutSlot, Option.bind_some, pushAll_nil hlen]
      rfl
  | cons r rsvs ih =>
      rw [trimSlot, cutSlot]
      cases hdiff : regionDiff m r with
      | none => rfl
      | some diff =>
          simp only [Option.bind_eq_bind, Option.bind_some, pushNew_eq hlen, Option.bind_assoc,
            Option.pure_def, ← pushAll_append]
          cases hpush : pushAll newMem (occupied [diff.2]) with
          | none => simp
          | some newMem' => simp only [Option.bind_some, ih (pushAll_length hpush)]

/-- A pass queues the upper halves of its splits, if there is room for all. -/
theorem trimSlots_eq (hlen : newMem.length ≤ 32) :
    trimSlots rsvs skip ms newMem = (cutSlots rsvs skip ms).bind fun cut =>
      (pushAll newMem cut.2).map fun newMem => (cut.1, newMem) := by
  induction ms generalizing skip newMem with
  | nil =>
      rw [trimSlots, cutSlots, Option.bind_some, pushAll_nil hlen]
      rfl
  | cons m ms ih =>
      rw [trimSlots, cutSlots]
      split_ifs with hsize hskip
      · rw [ih hlen]
        cases cutSlots rsvs skip ms with
        | none => rfl
        | some cut =>
            cases hpush : pushAll newMem cut.2 <;>
              simp only [Option.bind_eq_bind, Option.bind_some, hpush, Option.map_none,
                Option.bind_none, Option.map_some, Option.pure_def]
      · rw [ih hlen]
        cases cutSlots rsvs (skip - 1) ms with
        | none => rfl
        | some cut =>
            cases hpush : pushAll newMem cut.2 <;>
              simp only [Option.bind_eq_bind, Option.bind_some, hpush, Option.map_none,
                Option.bind_none, Option.map_some, Option.pure_def]
      · rw [trimSlot_eq hlen]
        cases cutSlot rsvs m with
        | none => rfl
        | some cut =>
            simp only [Option.bind_eq_bind, Option.bind_some, Option.pure_def, Option.bind_assoc,
              ← pushAll_append]
            cases hpush : pushAll newMem cut.2 with
            | none => cases cutSlots rsvs 0 ms <;> rfl
            | some newMem' =>
                simp only [Option.map_some, Option.bind_some, ih (pushAll_length hpush)]
                cases cutSlots rsvs 0 ms with
                | none => rfl
                | some cut' =>
                    simp only [Option.bind_some]
                    cases pushAll newMem' cut'.2 <;> rfl

/-! ## Regions that fit -/

/-- A difference of regions that fit is two regions that fit. -/
theorem regionDiff_fits (hm : m.Fits) (hr : r.Fits) :
    ∃ diff, regionDiff m r = some diff ∧ diff.1.Fits ∧ diff.2.Fits := by
  have hadd : checkedAdd m.addr m.size = some (m.addr + m.size) := if_pos hm
  have hadd' : checkedAdd r.addr r.size = some (r.addr + r.size) := if_pos hr
  have hempty : Region.empty.Fits := by decide
  simp only [Region.Fits] at *
  rw [regionDiff, hadd']
  simp only [Option.bind_eq_bind, Option.bind_some, Option.pure_def]
  by_cases hbelow : r.addr + r.size ≤ m.addr
  · rw [if_pos hbelow]
    exact ⟨_, rfl, hm, hempty⟩
  · rw [if_neg hbelow, hadd, Option.bind_some]
    split_ifs
    all_goals
      refine ⟨_, rfl, ?_, ?_⟩ <;> simp only [Region.empty] <;> omega

theorem cutSlot_fits (hrsvs : ∀ r ∈ rsvs, r.Fits) (hm : m.Fits) :
    ∃ cut, cutSlot rsvs m = some cut ∧ cut.1.Fits ∧ ∀ u ∈ cut.2, u.Fits := by
  induction rsvs generalizing m with
  | nil => exact ⟨_, rfl, hm, by simp⟩
  | cons r rsvs ih =>
      obtain ⟨hr, hrsvs⟩ := List.forall_mem_cons.mp hrsvs
      obtain ⟨diff, hdiff, hlo, hhi⟩ := regionDiff_fits hm hr
      obtain ⟨cut, hcut, hleft, huppers⟩ := ih hrsvs hlo
      refine ⟨(cut.1, occupied [diff.2] ++ cut.2), ?_, hleft, ?_⟩
      · rw [cutSlot, hdiff]
        simp only [Option.bind_eq_bind, Option.bind_some, hcut, Option.pure_def]
      · intro u hu
        rcases List.mem_append.mp hu with hu | hu
        · obtain rfl := List.mem_singleton.mp (List.mem_filter.mp hu).1
          exact hhi
        · exact huppers u hu

theorem cutSlots_fits (skip : Nat) (hrsvs : ∀ r ∈ rsvs, r.Fits) (hms : ∀ m ∈ ms, m.Fits) :
    ∃ cut, cutSlots rsvs skip ms = some cut ∧ (∀ m ∈ cut.1, m.Fits) ∧ ∀ u ∈ cut.2, u.Fits := by
  induction ms generalizing skip with
  | nil => exact ⟨_, rfl, by simp, by simp⟩
  | cons m ms ih =>
      obtain ⟨hm, hms⟩ := List.forall_mem_cons.mp hms
      rw [cutSlots]
      split_ifs with hsize hskip
      · obtain ⟨cut, hcut, hslots, huppers⟩ := ih skip hms
        exact ⟨(m :: cut.1, cut.2), by rw [hcut]; rfl, List.forall_mem_cons.mpr ⟨hm, hslots⟩, huppers⟩
      · obtain ⟨cut, hcut, hslots, huppers⟩ := ih (skip - 1) hms
        exact ⟨(m :: cut.1, cut.2), by rw [hcut]; rfl, List.forall_mem_cons.mpr ⟨hm, hslots⟩, huppers⟩
      · obtain ⟨cut, hcut, hleft, huppers⟩ := cutSlot_fits hrsvs hm
        obtain ⟨cut', hcut', hslots, huppers'⟩ := ih 0 hms
        refine ⟨(cut.1 :: cut'.1, cut.2 ++ cut'.2), by rw [hcut, hcut']; rfl,
          List.forall_mem_cons.mpr ⟨hleft, hslots⟩, ?_⟩
        intro u hu
        rcases List.mem_append.mp hu with hu | hu
        · exact huppers u hu
        · exact huppers' u hu

/-! ## Rounds that do not panic -/

/-- A state all of whose slots fit. -/
def SlotsFit (s : LoopState) : Prop := ∀ m ∈ s.mem, m.Fits

/-- What a round makes of the slots and the upper halves of its splits. -/
theorem round_eq {cut : List Region × List Region}
    (hcut : cutSlots rsvs s.memSkip s.mem = some cut) :
    Memory.round rsvs s = (pushAll [] cut.2).map fun newMem =>
      if newMem.length = 0 ∨ 32 ≤ s.memIndex then .inl cut.1
      else .inr ⟨copyNew cut.1 s.memIndex newMem, s.memIndex, s.memIndex + newMem.length⟩ := by
  rw [Memory.round, trimSlots_eq (by simp), hcut, Option.bind_some]
  cases pushAll [] cut.2 with
  | none => rfl
  | some newMem =>
      simp only [Option.map_some, Option.bind_eq_bind, Option.bind_some, Option.pure_def]
      split_ifs <;> rfl

theorem uppers_eq {cut : List Region × List Region}
    (hcut : cutSlots rsvs s.memSkip s.mem = some cut) : uppers rsvs s = cut.2 := by
  rw [uppers, hcut]

/-- A round panics exactly when it makes more than 32 splits. -/
theorem round_eq_none_iff (hrsvs : ∀ r ∈ rsvs, r.Fits) (hs : SlotsFit s) :
    Memory.round rsvs s = none ↔ 32 < (uppers rsvs s).length := by
  obtain ⟨cut, hcut, _⟩ := cutSlots_fits s.memSkip hrsvs hs
  rw [round_eq hcut, Option.map_eq_none_iff, uppers_eq hcut, pushAll, List.length_nil,
    Nat.zero_add]
  split_ifs with hroom
  · constructor
    · intro h
      cases h
    · omega
  · constructor
    · omega
    · intro _
      rfl

theorem SlotsFit.round (hrsvs : ∀ r ∈ rsvs, r.Fits) (hs : SlotsFit s)
    (h : Round rsvs s t) : SlotsFit t := by
  obtain ⟨cut, hcut, hslots, huppers⟩ := cutSlots_fits s.memSkip hrsvs hs
  rw [Round, round_eq hcut, Option.map_eq_some_iff] at h
  obtain ⟨newMem, hpush, ht⟩ := h
  rw [pushAll, Option.ite_none_right_eq_some, List.nil_append, Option.some_inj] at hpush
  obtain ⟨_, rfl⟩ := hpush
  split_ifs at ht
  cases ht
  intro m hm
  rcases List.mem_append.mp hm with hm | hm
  · exact hslots m (List.mem_of_mem_take hm)
  · rcases List.mem_append.mp (List.mem_of_mem_take hm) with hm | hm
    · exact huppers m hm
    · rw [List.eq_of_mem_replicate hm]
      decide

theorem reservedEntries_fits {reservedMem : Vector Region 32} {kernelRegion : Region}
    (hreserved : ∀ r ∈ reservedMem.toList, r.Fits) (hkernel : kernelRegion.Fits) :
    ∀ r ∈ reservedEntries reservedMem kernelRegion, r.Fits := by
  intro r hr
  rcases List.mem_append.mp hr with hr | hr
  · exact hreserved r (List.mem_filter.mp hr).1
  · exact List.mem_singleton.mp hr ▸ hkernel

end Kruspix.Mm.MemoryCuts
