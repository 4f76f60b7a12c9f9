import Kruspix.Arch.Mmu.Mappings
import Kruspix.Mm.HeapAllocator
import Mathlib.Data.Finset.Card

/-!
# The memory behind the heap

The heap's pages are consecutive addresses, and each has a frame of its own.
`Backed` states this for the memory of a machine. It makes the heap a memory of
words: a store changes one word, and a new page leaves the words of the old
pages alone.
-/

namespace Kruspix.Mm.HeapMemory

open Lib.WordMemory Lib.Result Lib.Radix Layout PageFrames Arch.Mmu HeapAllocator

variable {fr : PageFrameAllocator} {Owns : Words → Set Nat → Prop} {free : Words → Nat}
  {phys phys' : Words} {root size : Nat} {out out' ext ext' : Set Nat} {F : Nat → Nat}

/-- The physical address of a heap address, by the frames of the pages. -/
def physAddr (F : Nat → Nat) (va : Nat) : Nat :=
  F ((va - heapMapOffset) / pageSize) + (va - heapMapOffset) % pageSize

/-- The heap as a memory of words. -/
def heapWords (F : Nat → Nat) (phys : Words) (va : Nat) : BitVec 64 := phys (physAddr F va)

/-- The pages of the first `size` bytes of the heap have frames of their own. The
frames of `out` are handed out, and those of `ext` belong to other clients. -/
structure Backed (Owns : Words → Set Nat → Prop) (root : Nat) (phys : Words) (size : Nat)
    (ext out : Set Nat) (F : Nat → Nat) : Prop where
  owns : Owns phys out
  tables : Tables phys root out
  aligned : pageSize ∣ size
  page : ∀ x < size, ∃ desc,
    walk phys root (heapMapOffset + x) = some ⟨physAddr F (heapMapOffset + x), desc⟩
  unmapped : ∀ x < slotSize, size ≤ x → walk phys root (heapMapOffset + x) = none
  data : ∀ k, k * pageSize < size → F k ∈ out ∧ F k ∉ ext ∧ ¬ IsTable phys root (F k)
  inj : ∀ k k', k * pageSize < size → k' * pageSize < size → F k = F k' → k = k'
  others : ∀ f ∈ ext, f ∈ out ∧ ¬ IsTable phys root f
  level2 : ∀ x < slotSize, (tableAt phys root
    [level0HeapIndex, level1Index (heapMapOffset + x)]).isSome ↔ x / 2 ^ 30 * 2 ^ 30 < size
  level3 : ∀ x < slotSize, (tableAt phys root
    [level0HeapIndex, level1Index (heapMapOffset + x), level2Index (heapMapOffset + x)]).isSome ↔
      x / 2 ^ 21 * 2 ^ 21 < size

/-- The frames a fresh page at `x` takes: its own and those of missing tables. -/
def pageCost (x : Nat) : Nat :=
  1 + (if 2 ^ 30 ∣ x then 1 else 0) + (if 2 ^ 21 ∣ x then 1 else 0)

/-- The frame that a page of the heap's slot is mapped to. -/
def heapFrame (phys : Words) (root n : Nat) : Option Nat :=
  (walk phys root (heapMapOffset + n * pageSize)).map Translation.addr

/-- Heap pages are mapped to frames that are handed out, and no two of them to
the same one. -/
structure HeapFrames (phys : Words) (root : Nat) (out : Set Nat) : Prop where
  handedOut : ∀ n f, n * pageSize < slotSize → heapFrame phys root n = some f → f ∈ out
  distinct : ∀ m n f, m * pageSize < slotSize → n * pageSize < slotSize →
    heapFrame phys root m = some f → heapFrame phys root n = some f → m = n

theorem physAddr_heap (F : Nat → Nat) (x : Nat) :
    physAddr F (heapMapOffset + x) = F (x / pageSize) + x % pageSize := by
  rw [physAddr, Nat.add_sub_cancel_left]

theorem page_lt {x size : Nat} (h : x < size) : x / pageSize * pageSize < size := by
  simp only [pageSize]
  omega

/-- The physical address lies in the page's frame. -/
theorem physAddr_mem (F : Nat → Nat) (x : Nat) :
    F (x / pageSize) ≤ physAddr F (heapMapOffset + x) ∧
      physAddr F (heapMapOffset + x) < F (x / pageSize) + pageSize := by
  have hmod : x % pageSize < pageSize := Nat.mod_lt x (by decide)
  rw [physAddr_heap]
  omega

theorem div_mul_lt_iff {m x : Nat} : x / m * m < x ↔ ¬ m ∣ x := by
  rw [lt_iff_le_and_ne, and_iff_right (Nat.div_mul_le_self x m), ne_eq, not_iff_not]
  exact ⟨fun h => ⟨x / m, by rw [Nat.mul_comm]; exact h.symm⟩, Nat.div_mul_cancel⟩

section Backed

variable (hc : Contract fr Owns free) (hb : Backed Owns root phys size ext out F)

include hc hb

/-- The frame of a page. -/
theorem Backed.isFrame {x : Nat} (hx : x < size) : IsFrame (F (x / pageSize)) :=
  hc.frame hb.owns (hb.data _ (page_lt hx)).1

/-- Two heap addresses have different physical addresses. -/
theorem Backed.physAddr_inj {x y : Nat} (hx : x < size) (hy : y < size)
    (h : physAddr F (heapMapOffset + y) = physAddr F (heapMapOffset + x)) : y = x := by
  obtain ⟨hxl, hxu⟩ := physAddr_mem F x
  obtain ⟨hyl, hyu⟩ := physAddr_mem F y
  have hframe := (hb.isFrame hc hx).eq_of_mem (hb.isFrame hc hy) hxl hxu (by omega) (by omega)
  have hpage := hb.inj _ _ (page_lt hx) (page_lt hy) hframe
  rw [physAddr_heap, physAddr_heap, hframe] at h
  have hdx := Nat.div_add_mod x pageSize
  have hdy := Nat.div_add_mod y pageSize
  rw [hpage] at hdx
  omega

/-- The heap's words are no entries of a table. -/
theorem Backed.entries_store {x : Nat} (hx : x < size) (w : BitVec 64) {t : Nat}
    (ht : IsTable phys root t) (i : Fin 512) :
    entries (store phys (physAddr F (heapMapOffset + x)) w) t i = entries phys t i := by
  refine store_other _ _ fun heq => (hb.data _ (page_lt hx)).2.2 ?_
  obtain ⟨hl, hu⟩ := physAddr_mem F x
  have hframe : t = F (x / pageSize) := (hb.tables.isFrame hc hb.owns ht).eq_of_mem
    (hb.isFrame hc hx) (by omega) (entry_lt t i) (heq ▸ hl) (heq ▸ hu)
  exact hframe ▸ ht

omit hc in
/-- A change that leaves the tables and the frames of the heap to it. -/
theorem Backed.congr (hown : Owns phys' out')
    (hsame : ∀ t, IsTable phys root t → ∀ i, entries phys' t i = entries phys t i)
    (htables : ∀ t, IsTable phys root t → t ∈ out')
    (hdata : ∀ k, k * pageSize < size → F k ∈ out' ∧ F k ∉ ext')
    (hext : ∀ f ∈ ext', f ∈ out' ∧ ¬ IsTable phys root f) :
    Backed Owns root phys' size ext' out' F := by
  refine ⟨hown, hb.tables.congr hsame htables, hb.aligned, fun x hx => ?_, fun x hx hle => ?_,
    fun k hk => ?_, hb.inj, fun f hf => ?_, fun x hx => ?_, fun x hx => ?_⟩
  · obtain ⟨desc, hw⟩ := hb.page x hx
    exact ⟨desc, (walk_congr hsame _).trans hw⟩
  · exact (walk_congr hsame _).trans (hb.unmapped x hx hle)
  · obtain ⟨hmem, hnot⟩ := hdata k hk
    exact ⟨hmem, hnot, fun ht => (hb.data k hk).2.2 ((isTable_congr hsame).mp ht)⟩
  · obtain ⟨hmem, hnot⟩ := hext f hf
    exact ⟨hmem, fun ht => hnot ((isTable_congr hsame).mp ht)⟩
  · rw [tableAt_congr hsame (by simp)]
    exact hb.level2 x hx
  · rw [tableAt_congr hsame (by simp)]
    exact hb.level3 x hx

omit hc in
/-- The mapped pages are those of the heap. -/
theorem Backed.heapFrame_eq {n f : Nat} (hn : n * pageSize < slotSize)
    (h : heapFrame phys root n = some f) : n * pageSize < size ∧ f = F n := by
  obtain ⟨t, hw, rfl⟩ := Option.map_eq_some_iff.mp h
  rcases Nat.lt_or_ge (n * pageSize) size with hlt | hge
  · obtain ⟨desc, hpage⟩ := hb.page _ hlt
    refine ⟨hlt, ?_⟩
    rw [← Option.some.inj (hpage.symm.trans hw), physAddr_heap, Nat.mul_div_cancel _ (by decide),
      Nat.mul_mod_left, Nat.add_zero]
  · rw [hb.unmapped _ hn hge] at hw
    cases hw

omit hc in
theorem Backed.heapFrames : HeapFrames phys root out := by
  constructor
  · intro n f hn h
    obtain ⟨hlt, rfl⟩ := hb.heapFrame_eq hn h
    exact (hb.data n hlt).1
  · intro m n f hm hn hmf hnf
    obtain ⟨hltm, rfl⟩ := hb.heapFrame_eq hm hmf
    obtain ⟨hltn, heq⟩ := hb.heapFrame_eq hn hnf
    exact hb.inj m n hltm hltn heq

omit hc in
/-- Other clients may hold any frames that are neither tables nor pages. -/
theorem Backed.withClients (hdata : ∀ k, k * pageSize < size → F k ∉ ext')
    (hext : ∀ f ∈ ext', f ∈ out ∧ ¬ IsTable phys root f) :
    Backed Owns root phys size ext' out F :=
  { hb with
    data := fun k hk => ⟨(hb.data k hk).1, hdata k hk, (hb.data k hk).2.2⟩
    others := hext }

/-- Storing a word of the heap. -/
theorem Backed.store {x : Nat} (hx : x < size) (w : BitVec 64) :
    Backed Owns root (store phys (physAddr F (heapMapOffset + x)) w) size ext out F ∧
      free (Lib.WordMemory.store phys (physAddr F (heapMapOffset + x)) w) = free phys := by
  have hmem : physAddr F (heapMapOffset + x) ∈ frameWords out := by
    obtain ⟨hl, hu⟩ := physAddr_mem F x
    exact ⟨_, (hb.data _ (page_lt hx)).1, hl, hu⟩
  obtain ⟨hown, hfree⟩ := hc.congr hb.owns
    (store_eqOn phys w (s := (frameWords out)ᶜ) fun hnot => hnot hmem)
  refine ⟨hb.congr hown (fun t ht i => hb.entries_store hc hx w ht i) (hb.tables.owned) ?_
    hb.others, hfree⟩
  exact fun k hk => ⟨(hb.data k hk).1, (hb.data k hk).2.1⟩

/-- The stored word, and the others. -/
theorem Backed.heapWords_store {x y : Nat} (hx : x < size) (hy : y < size) (w : BitVec 64) :
    heapWords F (Lib.WordMemory.store phys (physAddr F (heapMapOffset + x)) w) (heapMapOffset + y) =
      if y = x then w else heapWords F phys (heapMapOffset + y) := by
  rw [heapWords]
  split_ifs with hyx
  · rw [hyx, store_same]
  · exact store_other _ _ fun h => hyx (hb.physAddr_inj hc hx hy h)

/-- The heap never fills its level 0 slot: its pages have different frames, and
a frame is a page of the first 512 GiB other than the first. -/
theorem Backed.size_lt : size + pageSize ≤ slotSize := by
  obtain ⟨n, hn⟩ := hb.aligned
  have hpos : 0 < pageSize := by decide
  have hlt : ∀ k, k < n → k * pageSize < size := by
    intro k hk
    rw [hn, Nat.mul_comm]
    exact Nat.mul_lt_mul_of_pos_left hk hpos
  have hmaps : ∀ k ∈ Finset.range n, F k / pageSize - 1 ∈ Finset.range (2 ^ 27 - 1) := by
    intro k hk
    have hframe := hc.frame hb.owns (hb.data k (hlt k (Finset.mem_range.mp hk))).1
    obtain ⟨q, hq⟩ := hframe.aligned
    have hfpos := hframe.pos
    have hreach := hframe.reachable
    rw [Finset.mem_range, hq]
    simp only [pageSize, slotSize] at *
    omega
  have hcard := Finset.card_le_card_of_injOn (fun k => F k / pageSize - 1) hmaps (by
    intro k hk k' hk' heq
    rw [Finset.coe_range, Set.mem_Iio] at hk hk'
    have hframe := hc.frame hb.owns (hb.data k (hlt k hk)).1
    have hframe' := hc.frame hb.owns (hb.data k' (hlt k' hk')).1
    refine hb.inj k k' (hlt k hk) (hlt k' hk') ?_
    obtain ⟨q, hq⟩ := hframe.aligned
    obtain ⟨q', hq'⟩ := hframe'.aligned
    have hfpos := hframe.pos
    have hfpos' := hframe'.pos
    simp only [hq, hq', pageSize] at *
    omega)
  rw [Finset.card_range, Finset.card_range] at hcard
  simp only [pageSize, slotSize] at *
  omega

/-- The tables that the next page needs. -/
theorem Backed.missingTables_eq : 1 + missingTables phys root (heapMapOffset + size) =
    pageCost size := by
  have hlt := hb.size_lt hc
  obtain ⟨n, hn⟩ := hb.aligned
  have hpos : 0 < pageSize := by decide
  have hsize : size < slotSize := by omega
  have hl2 := hb.level2 size hsize
  have hl3 := hb.level3 size hsize
  rw [missingTables, (level0Index_heap hsize).1, pageCost]
  rw [div_mul_lt_iff] at hl2 hl3
  simp only [hl2, hl3, ite_not]
  rw [Nat.add_assoc]

end Backed

end Kruspix.Mm.HeapMemory
