import Kruspix.Lib.Blocks
import Kruspix.Lib.FreeList
import Kruspix.Mm.HeapMemory
import Kruspix.Mm.SizeClasses

/-!
# The free lists in the heap's words

`Lists` is the representation invariant of the heap: every list is a chain of
nodes in the heap's words, and the free blocks and the blocks in use do not
overlap. The operations on the words and the list heads keep it.
-/

namespace Kruspix.Mm.HeapLists

open Lib.Blocks Lib.FreeList Mm.Layout HeapAllocator

/-- The pointer a node of a free list holds. -/
def nodeNext (words : Nat → BitVec 64) (node : Nat) : Nat := (words node).toNat

/-- The pointer a freed multi-page block holds behind its size. -/
def multiNext (words : Nat → BitVec 64) (node : Nat) : Nat := (words (node + 8)).toNat

/-- The blocks on the free lists. -/
def freeBlocks (free : Fin headCount → List Nat) : List Block :=
  (List.finRange headCount).flatMap fun j => (free j).map fun b => ⟨b, classSize j⟩

/-- The blocks of the heap: those in use and the free ones. -/
def allBlocks (free : Fin headCount → List Nat) (multi used : List Block) : List Block :=
  used ++ (multi ++ freeBlocks free)

/-- The representation invariant of the lists. -/
structure Lists (words : Nat → BitVec 64) (heap : Heap) (size : Nat)
    (free : Fin headCount → List Nat) (multi used : List Block) : Prop where
  chains : ∀ j, Chain 0 (nodeNext words) (heap.heads j) (free j)
  multiChain : Chain 0 (multiNext words) heap.multiPageList (multi.map Block.start)
  packed : Packed heapMapOffset (heapMapOffset + size) (allBlocks free multi used)
  freeAligned : ∀ j, ∀ b ∈ free j, classSize j ∣ b
  multiPages : ∀ b ∈ multi, pageSize ≤ b.len ∧ (words b.start).toNat * pageSize = b.len

variable {words words' : Nat → BitVec 64} {heap : Heap} {size : Nat}
  {free : Fin headCount → List Nat} {multi used : List Block}

theorem mem_freeBlocks {b : Block} :
    b ∈ freeBlocks free ↔ ∃ j, b.start ∈ free j ∧ b.len = classSize j := by
  simp only [freeBlocks, List.mem_flatMap, List.mem_finRange, true_and, List.mem_map]
  constructor
  · rintro ⟨j, a, ha, rfl⟩
    exact ⟨j, ha, rfl⟩
  · rintro ⟨j, ha, hlen⟩
    obtain ⟨start, len⟩ := b
    subst hlen
    exact ⟨j, start, ha, rfl⟩

/-- Putting a block on a list takes it out of use. -/
theorem freeBlocks_push (j : Fin headCount) (node : Nat) :
    (freeBlocks (Function.update free j (node :: free j))).Perm
      ([⟨node, classSize j⟩] ++ freeBlocks free) := by
  rw [freeBlocks, freeBlocks]
  refine flatMap_perm (List.nodup_finRange headCount) (List.mem_finRange j) ?_ fun i hi => ?_
  · rw [Function.update_self, List.map_cons, List.singleton_append]
  · rw [Function.update_of_ne hi]

theorem allBlocks_push (j : Fin headCount) (node : Nat) :
    (allBlocks free multi (⟨node, classSize j⟩ :: used)).Perm
      (allBlocks (Function.update free j (node :: free j)) multi used) := by
  have hpush := @freeBlocks_push free j node
  rw [List.singleton_append] at hpush
  rw [allBlocks, allBlocks, List.cons_append]
  refine List.perm_middle.symm.trans (List.Perm.append_left used ?_)
  refine List.perm_middle.symm.trans (List.Perm.append_left multi hpush.symm)

theorem allBlocks_pop {j : Fin headCount} {node : Nat} {rest : List Nat}
    (h : free j = node :: rest) :
    (allBlocks free multi used).Perm
      (allBlocks (Function.update free j rest) multi (⟨node, classSize j⟩ :: used)) := by
  have hback : Function.update (Function.update free j rest) j
      (node :: Function.update free j rest j) = free := by
    rw [Function.update_self, Function.update_idem, ← h, Function.update_eq_self]
  have hpush := @allBlocks_push (Function.update free j rest) multi used j node
  rw [hback] at hpush
  exact hpush.symm

theorem mem_free {j : Fin headCount} {b : Nat} (hb : b ∈ free j) :
    (⟨b, classSize j⟩ : Block) ∈ allBlocks free multi used :=
  List.mem_append_right _ (List.mem_append_right _ (mem_freeBlocks.mpr ⟨j, hb, rfl⟩))

theorem mem_multi {b : Block} (hb : b ∈ multi) : b ∈ allBlocks free multi used :=
  List.mem_append_right _ (List.mem_append_left _ hb)

theorem mem_used {b : Block} (hb : b ∈ used) : b ∈ allBlocks free multi used :=
  List.mem_append_left _ hb

@[simp] theorem setHead_same (heap : Heap) (j : Fin headCount) (p : Nat) :
    (heap.setHead j p).heads j = p := if_pos rfl

theorem setHead_other (heap : Heap) {i j : Fin headCount} (h : i ≠ j) (p : Nat) :
    (heap.setHead j p).heads i = heap.heads i := if_neg h

section Lists

variable (h : Lists words heap size free multi used)

include h

/-- A node of a list is a word of the heap. -/
theorem Lists.node_lt {j : Fin headCount} {b : Nat} (hb : b ∈ free j) :
    heapMapOffset ≤ b ∧ b < heapMapOffset + size := by
  obtain ⟨hlo, hhi⟩ := h.packed.inside _ (mem_free hb)
  have hpos := classSize_pos j
  simp only at hlo hhi
  omega

/-- The head of a list is null or a heap address. -/
theorem Lists.head_lt (hsize : size ≤ slotSize) (j : Fin headCount) :
    heap.heads j < 2 ^ 64 := by
  by_cases h0 : heap.heads j = 0
  · omega
  · obtain ⟨rest, hrest⟩ := (h.chains j).exists_cons h0
    obtain ⟨_, hlt⟩ := h.node_lt (j := j) (b := heap.heads j) (by simp [hrest])
    simp only [slotSize, heapMapOffset] at *
    omega

theorem Lists.multi_lt (hsize : size ≤ slotSize) : heap.multiPageList < 2 ^ 64 := by
  by_cases h0 : heap.multiPageList = 0
  · omega
  · obtain ⟨rest, hrest⟩ := h.multiChain.exists_cons h0
    have hmem : heap.multiPageList ∈ multi.map Block.start := by simp [hrest]
    obtain ⟨b, hb, hstart⟩ := List.mem_map.mp hmem
    obtain ⟨_, hhi⟩ := h.packed.inside _ (mem_multi hb)
    simp only [slotSize, heapMapOffset] at *
    omega

/-- The lists depend on the words of free blocks only. -/
theorem Lists.congr_words
    (hnode : ∀ j, ∀ b ∈ free j, words' b = words b)
    (hmulti : ∀ b ∈ multi, words' b.start = words b.start ∧
      words' (b.start + 8) = words (b.start + 8)) :
    Lists words' heap size free multi used := by
  refine ⟨fun j => (h.chains j).congr fun b hb => ?_, h.multiChain.congr fun a ha => ?_, h.packed,
    h.freeAligned, fun b hb => ?_⟩
  · rw [nodeNext, nodeNext, hnode j b hb]
  · obtain ⟨b, hb, rfl⟩ := List.mem_map.mp ha
    rw [multiNext, multiNext, (hmulti b hb).2]
  · rw [(hmulti b hb).1]
    exact h.multiPages b hb

/-- A word inside a block in use is no word of a free block. -/
theorem Lists.apart {e : Block} (he : e ∈ used) {a : Nat} (hlo : e.start ≤ a)
    (hhi : a < e.start + e.len) :
    (∀ j, ∀ b ∈ free j, b ≠ a) ∧ ∀ b ∈ multi, b.start ≠ a ∧ b.start + 8 ≠ a := by
  have hsplit := List.pairwise_append.mp h.packed.apart
  have hapart : ∀ b ∈ multi ++ freeBlocks free, Apart e b := fun b hb => hsplit.2.2 e he b hb
  constructor
  · rintro j b hb rfl
    have hpos := classSize_pos j
    have hap := hapart ⟨b, classSize j⟩
      (List.mem_append_right _ (mem_freeBlocks.mpr ⟨j, hb, rfl⟩))
    simp only [Apart] at hap
    omega
  · intro b hb
    have hlen := (h.multiPages b hb).1
    have hap := hapart b (List.mem_append_left _ hb)
    simp only [Apart, pageSize] at hap hlen
    omega

/-- Writing to a block in use leaves the lists alone. -/
theorem Lists.write {e : Block} (he : e ∈ used) {va : Nat} (hlo : e.start ≤ va)
    (hhi : va < e.start + e.len)
    (hwords : ∀ a, heapMapOffset ≤ a → a < heapMapOffset + size → a ≠ va → words' a = words a) :
    Lists words' heap size free multi used := by
  obtain ⟨hnode, hmulti⟩ := h.apart he hlo hhi
  refine h.congr_words (fun j b hb => ?_) fun b hb => ?_
  · obtain ⟨hl, hu⟩ := h.node_lt hb
    exact hwords b hl hu (hnode j b hb)
  · obtain ⟨hl, hu⟩ := h.packed.inside _ (mem_multi hb)
    have hlen := (h.multiPages b hb).1
    simp only [pageSize] at hlen
    exact ⟨hwords _ hl (by omega) (hmulti b hb).1, hwords _ (by omega) (by omega) (hmulti b hb).2⟩

/-- The lists depend on the words of the heap only. -/
theorem Lists.congr
    (hwords : ∀ a, heapMapOffset ≤ a → a < heapMapOffset + size → words' a = words a) :
    Lists words' heap size free multi used := by
  refine h.congr_words (fun j b hb => ?_) fun b hb => ?_
  · obtain ⟨hl, hu⟩ := h.node_lt hb
    exact hwords b hl hu
  · obtain ⟨hl, hu⟩ := h.packed.inside _ (mem_multi hb)
    have hlen := (h.multiPages b hb).1
    simp only [pageSize] at hlen
    exact ⟨hwords _ hl (by omega), hwords _ (by omega) (by omega)⟩

/-- More heap behind the old one, in blocks that are in use at first. -/
theorem Lists.grow {size' : Nat} {new : List Block} (hle : size ≤ size')
    (hnew : Packed (heapMapOffset + size) (heapMapOffset + size') new)
    (hwords : ∀ a, heapMapOffset ≤ a → a < heapMapOffset + size → words' a = words a) :
    Lists words' heap size' free multi (new ++ used) := by
  have hcongr := h.congr hwords
  refine ⟨hcongr.chains, hcongr.multiChain, ?_, h.freeAligned, hcongr.multiPages⟩
  have happ := h.packed.append hnew (Nat.le_add_right _ _) (by omega)
  rw [allBlocks, List.append_assoc]
  exact happ

/-- The order of the blocks in use does not matter. -/
theorem Lists.perm {used' : List Block} (hp : used.Perm used') :
    Lists words heap size free multi used' :=
  ⟨h.chains, h.multiChain, h.packed.perm (hp.append_right _), h.freeAligned, h.multiPages⟩

end Lists

/-- A block in use goes to the head of its list. -/
theorem Lists.push {j : Fin headCount} {node : Nat}
    (h : Lists words heap size free multi (⟨node, classSize j⟩ :: used))
    (hal : classSize j ∣ node)
    (hnode : words' node = BitVec.ofNat 64 (heap.heads j)) (hsize : size ≤ slotSize)
    (hwords : ∀ a, heapMapOffset ≤ a → a < heapMapOffset + size → a ≠ node → words' a = words a) :
    Lists words' (heap.setHead j node) size (Function.update free j (node :: free j)) multi
      used := by
  have hw := h.write List.mem_cons_self (Nat.le_refl node)
    (Nat.lt_add_of_pos_right (classSize_pos j)) hwords
  have hpos : node ≠ 0 := by
    have hlo := (h.packed.inside _ (mem_used List.mem_cons_self)).1
    simp only [heapMapOffset] at hlo
    omega
  refine ⟨fun i => ?_, hw.multiChain, h.packed.perm (allBlocks_push j node), fun i b hb => ?_,
    hw.multiPages⟩
  · by_cases hij : i = j
    · subst hij
      rw [Function.update_self, setHead_same]
      refine (hw.chains i).push hpos ?_
      rw [nodeNext, hnode, BitVec.toNat_ofNat, Nat.mod_eq_of_lt (h.head_lt hsize i)]
    · rw [Function.update_of_ne hij, setHead_other heap hij]
      exact hw.chains i
  · by_cases hij : i = j
    · subst hij
      rw [Function.update_self] at hb
      rcases List.mem_cons.mp hb with rfl | hb
      · exact hal
      · exact h.freeAligned i b hb
    · rw [Function.update_of_ne hij] at hb
      exact h.freeAligned i b hb

/-- The first block of a list comes into use. -/
theorem Lists.pop {j : Fin headCount} {rest : List Nat}
    (h : Lists words heap size free multi used) (hfree : free j = heap.heads j :: rest) :
    Lists words (heap.setHead j (nodeNext words (heap.heads j))) size
      (Function.update free j rest) multi (⟨heap.heads j, classSize j⟩ :: used) := by
  refine ⟨fun i => ?_, h.multiChain, h.packed.perm (allBlocks_pop hfree), fun i b hb => ?_,
    h.multiPages⟩
  · by_cases hij : i = j
    · subst hij
      rw [Function.update_self, setHead_same]
      exact (hfree ▸ h.chains i).tail
    · rw [Function.update_of_ne hij, setHead_other heap hij]
      exact h.chains i
  · by_cases hij : i = j
    · subst hij
      rw [Function.update_self] at hb
      exact h.freeAligned i b (hfree ▸ List.mem_cons_of_mem _ hb)
    · rw [Function.update_of_ne hij] at hb
      exact h.freeAligned i b hb

/-- A multi-page block in use goes to the head of its list. -/
theorem Lists.pushMulti {ptr len : Nat}
    (h : Lists words heap size free multi (⟨ptr, len⟩ :: used))
    (hlen : pageSize ≤ len) (hsize : size ≤ slotSize)
    (hpages : (words' ptr).toNat * pageSize = len)
    (hnode : words' (ptr + 8) = BitVec.ofNat 64 heap.multiPageList)
    (hwords : ∀ a, heapMapOffset ≤ a → a < heapMapOffset + size → a ≠ ptr → a ≠ ptr + 8 →
      words' a = words a) :
    Lists words' { heap with multiPageList := ptr } size free (⟨ptr, len⟩ :: multi) used := by
  have hlen8 : 8 < len := by
    simp only [pageSize] at hlen
    omega
  obtain ⟨hnode₀, hmulti₀⟩ := h.apart List.mem_cons_self (a := ptr) (Nat.le_refl ptr)
    (show ptr < ptr + len by omega)
  obtain ⟨hnode₈, hmulti₈⟩ := h.apart List.mem_cons_self (a := ptr + 8)
    (show ptr ≤ ptr + 8 by omega) (show ptr + 8 < ptr + len by omega)
  have hw : Lists words' heap size free multi (⟨ptr, len⟩ :: used) := by
    refine h.congr_words (fun j b hb => ?_) fun b hb => ?_
    · obtain ⟨hl, hu⟩ := h.node_lt hb
      exact hwords b hl hu (hnode₀ j b hb) (hnode₈ j b hb)
    · obtain ⟨hl, hu⟩ := h.packed.inside _ (mem_multi hb)
      have hblen := (h.multiPages b hb).1
      simp only [pageSize] at hblen
      exact ⟨hwords _ hl (by omega) (hmulti₀ b hb).1 (hmulti₈ b hb).1,
        hwords _ (by omega) (by omega) (hmulti₀ b hb).2 (hmulti₈ b hb).2⟩
  have hpos : ptr ≠ 0 := by
    have hlo := (h.packed.inside _ (mem_used List.mem_cons_self)).1
    simp only [heapMapOffset] at hlo
    omega
  refine ⟨hw.chains, ?_, h.packed.perm ?_, h.freeAligned, fun b hb => ?_⟩
  · refine hw.multiChain.push hpos ?_
    rw [multiNext, hnode, BitVec.toNat_ofNat, Nat.mod_eq_of_lt (h.multi_lt hsize)]
  · rw [allBlocks, allBlocks, List.cons_append, List.cons_append]
    exact List.perm_middle.symm
  · rcases List.mem_cons.mp hb with rfl | hb
    · exact ⟨hlen, hpages⟩
    · exact hw.multiPages b hb

end Kruspix.Mm.HeapLists
