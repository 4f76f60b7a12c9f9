import Mathlib.Data.List.Perm.Basic
import Mathlib.Data.List.Nodup
import Mathlib.Data.List.Pairwise

/-!
# Blocks of an address range

A list of blocks is packed into a range when the blocks lie in it and no two of
them overlap. The order of the blocks does not matter, and a range behind the
first one can be packed on its own.
-/

namespace Kruspix.Lib.Blocks

open scoped List

/-- `len` addresses from `start` on. -/
structure Block where
  start : Nat
  len : Nat
  deriving DecidableEq, Repr

/-- Two blocks that share no address. -/
def Apart (a b : Block) : Prop := a.start + a.len ≤ b.start ∨ b.start + b.len ≤ a.start

theorem Apart.symm {a b : Block} (h : Apart a b) : Apart b a := Or.symm h

/-- Blocks that lie in `[lo, hi)` and do not overlap. -/
structure Packed (lo hi : Nat) (bs : List Block) : Prop where
  apart : bs.Pairwise Apart
  inside : ∀ b ∈ bs, lo ≤ b.start ∧ b.start + b.len ≤ hi

variable {lo mid hi : Nat} {bs cs : List Block}

theorem Packed.perm (h : Packed lo hi bs) (hp : bs.Perm cs) : Packed lo hi cs :=
  ⟨(hp.pairwise_iff Apart.symm).mp h.apart, fun b hb => h.inside b (hp.mem_iff.mpr hb)⟩

theorem packed_nil : Packed lo hi [] := ⟨.nil, fun _ h => absurd h List.not_mem_nil⟩

/-- The last blocks of a list. -/
theorem Packed.right (h : Packed lo hi (bs ++ cs)) : Packed lo hi cs :=
  ⟨(List.pairwise_append.mp h.apart).2.1, fun b hb => h.inside b (List.mem_append_right bs hb)⟩

/-- A block fills its own range. -/
theorem packed_singleton (lo len : Nat) : Packed lo (lo + len) [⟨lo, len⟩] := by
  refine ⟨List.pairwise_singleton _ _, fun b hb => ?_⟩
  rw [List.mem_singleton.mp hb]
  exact ⟨Nat.le_refl _, Nat.le_refl _⟩

/-- Blocks of a range and blocks of the range behind it. -/
theorem Packed.append (h : Packed lo mid bs) (h' : Packed mid hi cs) (hlo : lo ≤ mid)
    (hhi : mid ≤ hi) : Packed lo hi (cs ++ bs) := by
  constructor
  · rw [List.pairwise_append]
    refine ⟨h'.apart, h.apart, fun c hc b hb => .inr ?_⟩
    have := h.inside b hb
    have := h'.inside c hc
    omega
  · intro b hb
    rcases List.mem_append.mp hb with hc | hb
    · have := h'.inside b hc
      omega
    · have := h.inside b hb
      omega

/-- Blocks of positive length start at different addresses. -/
theorem Packed.nodup_start (h : Packed lo hi bs) (hpos : ∀ b ∈ bs, 0 < b.len) :
    (bs.map Block.start).Nodup := by
  refine List.pairwise_map.mpr (h.apart.imp_of_mem ?_)
  intro a b ha hb hap heq
  have hposa := hpos a ha
  have hposb := hpos b hb
  simp only [Apart] at hap
  omega

/-- `n` blocks of one length from `base` on. -/
def cut (base len n : Nat) : List Block := (List.range n).map fun k => ⟨base + k * len, len⟩

theorem cut_succ (base len n : Nat) :
    cut base len (n + 1) = ⟨base, len⟩ :: cut (base + len) len n := by
  rw [cut, cut, List.range_succ_eq_map, List.map_cons, List.map_map, Nat.zero_mul, Nat.add_zero]
  congr 1
  refine List.map_congr_left fun k _ => ?_
  simp only [Function.comp_apply, Nat.succ_mul]
  rw [Nat.add_comm (k * len), Nat.add_assoc]

theorem packed_cut (base len n : Nat) : Packed base (base + n * len) (cut base len n) := by
  constructor
  · rw [cut, List.pairwise_map]
    refine List.pairwise_lt_range.imp fun {i j} hij => .inl ?_
    have hmul : (i + 1) * len ≤ j * len := Nat.mul_le_mul_right _ hij
    rw [Nat.add_mul, Nat.one_mul] at hmul
    change base + i * len + len ≤ base + j * len
    omega
  · intro b hb
    obtain ⟨k, hk, rfl⟩ := List.mem_map.mp hb
    have hmul : (k + 1) * len ≤ n * len := Nat.mul_le_mul_right _ (List.mem_range.mp hk)
    rw [Nat.add_mul, Nat.one_mul] at hmul
    refine ⟨Nat.le_add_right _ _, ?_⟩
    change base + k * len + len ≤ base + n * len
    omega

/-- Joining a family of lists of which one is longer. -/
theorem flatMap_perm {ι α : Type*} [DecidableEq ι] {l : List ι} {f g : ι → List α} {j : ι}
    {p : List α} (hl : l.Nodup) (hj : j ∈ l) (hf : (f j).Perm (p ++ g j))
    (hother : ∀ i, i ≠ j → f i = g i) : (l.flatMap f).Perm (p ++ l.flatMap g) := by
  have hperm := List.perm_cons_erase hj
  have hrest : (l.erase j).flatMap f = (l.erase j).flatMap g := by
    refine List.flatMap_congr fun i hi => hother i ?_
    rintro rfl
    exact hl.not_mem_erase hi
  calc l.flatMap f
      _ ~ (j :: l.erase j).flatMap f := hperm.flatMap_right f
      _ = f j ++ (l.erase j).flatMap g := by rw [List.flatMap_cons, hrest]
      _ ~ p ++ g j ++ (l.erase j).flatMap g := hf.append_right _
      _ = p ++ (j :: l.erase j).flatMap g := by rw [List.append_assoc, List.flatMap_cons]
      _ ~ p ++ l.flatMap g := (hperm.symm.flatMap_right g).append_left p

end Kruspix.Lib.Blocks
