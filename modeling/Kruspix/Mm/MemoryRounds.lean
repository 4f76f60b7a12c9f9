import Kruspix.Mm.Memory
import Mathlib.Logic.Relation

/-!
# Which fragments a round checks

A round passes over the first `mem_skip` slots that are not empty. The slots
checked before are the first `mem_skip` raw slots. When some of these were
swallowed whole, queued fragments take their place in the count and are never
checked. The available memory avoids the reserved regions exactly when no such
fragment meets one.
-/

namespace Kruspix.Mm.MemoryRounds

open Memory

/-- No byte of the region is reserved. -/
def Clean (rsvs : List Region) (m : Region) : Prop :=
  ∀ r ∈ rsvs, Disjoint m.bytes r.bytes

theorem clean_of_size_eq_zero {rsvs : List Region} {m : Region}
    (h : m.size = 0) : Clean rsvs m := by
  intro r _
  simp [Region.bytes_eq_empty h]

/-- A trimmed slot shrinks, avoids every reserved entry, and queues only
fragments of non-zero size. -/
theorem trimSlot_spec {rsvs : List Region} {m m' : Region} {newMem newMem' : List Region}
    (h : trimSlot rsvs m newMem = some (m', newMem'))
    (hnew : ∀ u ∈ newMem, u.size ≠ 0) :
    m'.bytes ⊆ m.bytes ∧ Clean rsvs m' ∧ ∀ u ∈ newMem', u.size ≠ 0 := by
  induction rsvs generalizing m newMem with
  | nil =>
      cases h
      exact ⟨subset_rfl, by simp [Clean], hnew⟩
  | cons r rsvs ih =>
      simp only [trimSlot, Option.bind_eq_bind, Option.bind_eq_some_iff] at h
      obtain ⟨⟨lo, hi⟩, hdiff, new₁, hpush, h⟩ := h
      have hbytes := (regionDiff_bytes hdiff).1
      have hlo : lo.bytes ⊆ m.bytes \ r.bytes := hbytes ▸ Set.subset_union_left
      have hnew₁ : ∀ u ∈ new₁, u.size ≠ 0 := by
        unfold pushNew at hpush
        split_ifs at hpush with hsize <;> cases hpush
        · exact hnew
        · simpa [or_imp, forall_and, hsize] using hnew
      obtain ⟨hsub, hclean, hout⟩ := ih h hnew₁
      refine ⟨hsub.trans (hlo.trans Set.sdiff_subset), ?_, hout⟩
      intro q hq
      rcases List.mem_cons.mp hq with rfl | hq
      · exact Set.disjoint_of_subset_left (hsub.trans hlo) Set.disjoint_sdiff_left
      · exact hclean q hq

/-- The slots that are not empty. -/
def occupied (ms : List Region) : List Region := ms.filter (fun m => m.size ≠ 0)

@[simp] theorem occupied_nil : occupied [] = [] := rfl

theorem occupied_cons_empty {m : Region} (h : m.size = 0) (ms : List Region) :
    occupied (m :: ms) = occupied ms := by
  simp [occupied, h]

theorem occupied_cons {m : Region} (h : m.size ≠ 0) (ms : List Region) :
    occupied (m :: ms) = m :: occupied ms := by
  simp [occupied, h]

theorem occupied_append (ms ns : List Region) :
    occupied (ms ++ ns) = occupied ms ++ occupied ns := by
  simp [occupied]

/-- After a pass every slot avoids the reserved entries, but for the first
`skip` occupied ones. -/
theorem trimSlots_spec {rsvs : List Region} {skip : Nat} {ms ms' newMem newMem' : List Region}
    (h : trimSlots rsvs skip ms newMem = some (ms', newMem'))
    (hnew : ∀ u ∈ newMem, u.size ≠ 0) :
    ms'.length = ms.length ∧ (∀ u ∈ newMem', u.size ≠ 0) ∧
      ∀ m ∈ ms', Clean rsvs m ∨ m ∈ (occupied ms).take skip := by
  induction ms generalizing skip ms' newMem with
  | nil =>
      cases h
      exact ⟨rfl, hnew, by simp⟩
  | cons m ms ih =>
      simp only [trimSlots, Option.bind_eq_bind] at h
      split_ifs at h with hsize hskip
      · simp only [Option.bind_eq_some_iff] at h
        obtain ⟨⟨ms₁, new₁⟩, hrest, he⟩ := h
        cases he
        obtain ⟨hlen, hout, hall⟩ := ih hrest hnew
        refine ⟨by simp [hlen], hout, ?_⟩
        rw [occupied_cons_empty hsize]
        simpa [or_imp, forall_and] using ⟨Or.inl (clean_of_size_eq_zero hsize), hall⟩
      · simp only [Option.bind_eq_some_iff] at h
        obtain ⟨⟨ms₁, new₁⟩, hrest, he⟩ := h
        cases he
        obtain ⟨hlen, hout, hall⟩ := ih hrest hnew
        refine ⟨by simp [hlen], hout, ?_⟩
        obtain ⟨k, rfl⟩ : ∃ k, skip = k + 1 := ⟨skip - 1, by omega⟩
        rw [occupied_cons hsize, List.take_succ_cons]
        intro x hx
        rcases List.mem_cons.mp hx with rfl | hx
        · exact Or.inr (by simp)
        · exact (hall x hx).imp_right (List.mem_cons_of_mem _)
      · simp only [Option.bind_eq_some_iff] at h
        obtain ⟨⟨m₁, new₁⟩, htrim, ⟨ms₁, new₂⟩, hrest, he⟩ := h
        cases he
        obtain ⟨_, hclean, hnew₁⟩ := trimSlot_spec htrim hnew
        obtain ⟨hlen, hout, hall⟩ := ih hrest hnew₁
        refine ⟨by simp [hlen], hout, ?_⟩
        intro x hx
        rcases List.mem_cons.mp hx with rfl | hx
        · exact Or.inl hclean
        · exact Or.inl ((hall x hx).resolve_right (by simp))

theorem occupied_length_add (ms : List Region) :
    (occupied ms).length + ms.countP (fun m => m.size = 0) = ms.length := by
  induction ms with
  | nil => rfl
  | cons m ms ih =>
      by_cases hm : m.size = 0
      · rw [occupied_cons_empty hm, List.countP_cons_of_pos (by simpa using hm)]
        simp only [List.length_cons]
        omega
      · rw [occupied_cons hm, List.countP_cons_of_neg (by simpa using hm)]
        simp only [List.length_cons]
        omega

/-- The shape of the slots at the start of a round. In the first round nothing
has been queued; later the slots from `mem_index` on are empty. -/
structure Queued (s : LoopState) : Prop where
  length : s.mem.length = 32
  skip_le : s.memSkip ≤ s.memIndex
  skip_le_length : s.memSkip ≤ 32
  rest_empty : s.memSkip = 0 ∨ occupied (s.mem.drop s.memIndex) = []

theorem occupied_replicate_empty (n : Nat) :
    occupied (List.replicate n Region.empty) = [] := by
  simp [occupied, Region.empty]

theorem copyNew_length {mem newMem : List Region} {memIndex : Nat}
    (hmem : mem.length = 32) (hindex : memIndex ≤ 32) :
    (copyNew mem memIndex newMem).length = 32 := by
  simp only [copyNew, List.length_append, List.length_take, List.length_replicate]
  omega

theorem copyNew_take {mem newMem : List Region} {memIndex : Nat}
    (hmem : mem.length = 32) (hindex : memIndex ≤ 32) :
    (copyNew mem memIndex newMem).take memIndex = mem.take memIndex := by
  rw [copyNew, List.take_append_of_le_length (by rw [List.length_take]; omega),
    List.take_take, min_self]

theorem copyNew_drop {mem newMem : List Region} {memIndex : Nat}
    (hmem : mem.length = 32) (hindex : memIndex ≤ 32) :
    occupied ((copyNew mem memIndex newMem).drop (memIndex + newMem.length)) = [] := by
  have hlen : (mem.take memIndex).length = memIndex := by
    rw [List.length_take]
    omega
  have hfront : (mem.take memIndex).drop (memIndex + newMem.length) = [] :=
    List.drop_eq_nil_of_le (by omega)
  rw [copyNew, List.drop_append, hfront, hlen, Nat.add_sub_cancel_left, List.nil_append,
    List.drop_take, List.drop_left, List.take_replicate, occupied_replicate_empty]

/-- A further round starts in the same shape. -/
theorem Queued.round {rsvs : List Region} {s t : LoopState} (hs : Queued s)
    (h : Memory.round rsvs s = some (.inr t)) : Queued t := by
  obtain ⟨mem, newMem, htrim, ⟨_, he⟩ | ⟨_, hlt, he⟩⟩ := round_eq_some h
  · cases he
  · cases he
    have hlen : mem.length = 32 :=
      (trimSlots_spec htrim (by simp)).1.trans hs.length
    exact ⟨copyNew_length hlen hlt.le, Nat.le_add_right _ _, hlt.le,
      Or.inr (copyNew_drop hlen hlt.le)⟩

/-- The states at the start of the rounds of a run. -/
def Round (rsvs : List Region) (s t : LoopState) : Prop :=
  Memory.round rsvs s = some (.inr t)

/-- The memory arrays the boot code supplies: occupied entries first and
pairwise disjoint, no sum overflows. -/
structure Admissible (mem reservedMem : Vector Region 32) (kernelRegion : Region) : Prop where
  occupied_first : mem.toList.Pairwise fun a b => a.size = 0 → b.size = 0
  disjoint : mem.toList.Pairwise fun a b => Disjoint a.bytes b.bytes
  mem_fits : ∀ m ∈ mem.toList, m.Fits
  reserved_fits : ∀ r ∈ reservedMem.toList, r.Fits
  kernel_fits : kernelRegion.Fits

end Kruspix.Mm.MemoryRounds
