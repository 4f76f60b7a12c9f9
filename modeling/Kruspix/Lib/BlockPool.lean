import Mathlib.Algebra.Order.Floor.Div
import Mathlib.Data.List.Basic

/-!
# Pools of blocks

A pool cuts each of its pages into `n` blocks. It takes a page only if no block is free, so its
pages follow the largest number of blocks that were in use at a time, and no block is lost.
-/

namespace Kruspix.Lib.BlockPool

open scoped List

variable {P B : Type*}

/-- The pages cut into blocks, the blocks that are free and in use, and the most blocks that were
ever in use at once. -/
structure Pool (P B : Type*) where
  pages : List P
  free : List B
  live : List B
  peak : Nat

/-- The pages for that many blocks. The first page is there from the start. -/
def demand (n peak : Nat) : Nat := max 1 (peak ⌈/⌉ n)

/-- Each block of a page is free or in use, and there are as many pages as the peak needs. -/
structure Balanced (blocks : P → List B) (n : Nat) (p : Pool P B) : Prop where
  conserved : (p.free ++ p.live).Perm (p.pages.flatMap blocks)
  pages : p.pages.length = demand n p.peak
  peak : p.live.length ≤ p.peak

section Demand

variable {n peak peak' : Nat} (hn : 0 < n)

include hn

theorem demand_le_iff {k : Nat} : demand n peak ≤ k ↔ 1 ≤ k ∧ peak ≤ n * k := by
  rw [demand, max_le_iff, ceilDiv_le_iff_le_mul hn]

theorem le_mul_demand : peak ≤ n * demand n peak := ((demand_le_iff hn).mp le_rfl).2

/-- A peak that the pages hold needs no more of them. -/
theorem demand_eq_of_le (hle : peak ≤ peak') (hfit : peak' ≤ n * demand n peak) :
    demand n peak' = demand n peak := by
  apply le_antisymm
  · exact (demand_le_iff hn).mpr ⟨le_max_left _ _, hfit⟩
  · exact (demand_le_iff hn).mpr ⟨le_max_left _ _, hle.trans (le_mul_demand hn)⟩

/-- A block more than the pages hold needs one page more. -/
theorem demand_succ {k : Nat} (hk : 0 < k) : demand n (n * k + 1) = k + 1 := by
  apply le_antisymm
  · rw [demand_le_iff hn, Nat.mul_succ]
    omega
  · apply Nat.succ_le_of_lt
    rw [← Nat.not_le, demand_le_iff hn]
    omega

end Demand

variable {blocks : P → List B} {n : Nat} {p : Pool P B} {a : B} {free' live' : List B} {page : P}

/-- The first page. -/
theorem balanced_start (hfree : free'.Perm (blocks page)) :
    Balanced blocks n ⟨[page], free', [], 0⟩ where
  conserved := by
    rw [List.append_nil, List.flatMap_singleton]
    exact hfree
  pages := by
    rw [demand, zero_ceilDiv]
    rfl
  peak := le_rfl

section Operations

variable (h : Balanced blocks n p)

include h

/-- The order of the blocks does not matter. -/
theorem Balanced.perm (hfree : p.free.Perm free') (hlive : p.live.Perm live') :
    Balanced blocks n { p with free := free', live := live' } where
  conserved := (hfree.append hlive).symm.trans h.conserved
  pages := h.pages
  peak := hlive.length_eq ▸ h.peak

/-- A block comes back. -/
theorem Balanced.give (hlive : p.live.Perm (a :: live')) :
    Balanced blocks n { p with free := a :: p.free, live := live' } where
  conserved := by
    calc a :: p.free ++ live'
        _ ~ p.free ++ a :: live' := List.perm_middle.symm
        _ ~ p.free ++ p.live := hlive.symm.append_left p.free
        _ ~ p.pages.flatMap blocks := h.conserved
  pages := h.pages
  peak := by
    have hlength := hlive.length_eq
    have hpeak := h.peak
    rw [List.length_cons] at hlength
    dsimp only
    omega

/-- The peak already counts the blocks in use. -/
theorem Balanced.record : Balanced blocks n { p with peak := max p.peak p.live.length } := by
  rw [max_eq_left h.peak]
  exact h

variable (hblocks : ∀ page, (blocks page).length = n)

include hblocks

theorem Balanced.length : p.free.length + p.live.length = n * p.pages.length := by
  have hlength := h.conserved.length_eq
  rw [List.length_append, List.length_flatMap] at hlength
  simp only [hblocks, List.map_const', List.sum_replicate_nat] at hlength
  rw [hlength, Nat.mul_comm]

variable (hn : 0 < n)

include hn

/-- A free block comes into use. The pages hold the new peak. -/
theorem Balanced.take (hfree : p.free.Perm (a :: free')) :
    Balanced blocks n
      ⟨p.pages, free', a :: p.live, max p.peak (a :: p.live).length⟩ where
  conserved := by
    calc free' ++ a :: p.live
        _ ~ a :: free' ++ p.live := List.perm_middle
        _ ~ p.free ++ p.live := hfree.symm.append_right p.live
        _ ~ p.pages.flatMap blocks := h.conserved
  pages := by
    have hlength := h.length hblocks
    have hfits := @le_mul_demand n p.peak hn
    rw [hfree.length_eq, List.length_cons, h.pages] at hlength
    rw [h.pages]
    refine (demand_eq_of_le hn (le_max_left _ _) (max_le hfits ?_)).symm
    rw [List.length_cons]
    omega
  peak := le_max_right _ _

/-- No block is free, and the first one of a new page comes into use. All blocks were in use, so
the peak rises. -/
theorem Balanced.refill (hfree : p.free = []) (hpage : (blocks page).Perm (a :: free')) :
    Balanced blocks n
      ⟨p.pages ++ [page], free', a :: p.live, max p.peak (a :: p.live).length⟩ where
  conserved := by
    have hconserved := h.conserved
    rw [hfree, List.nil_append] at hconserved
    calc free' ++ a :: p.live
        _ ~ a :: free' ++ p.live := List.perm_middle
        _ ~ blocks page ++ p.pages.flatMap blocks := hpage.symm.append hconserved
        _ ~ p.pages.flatMap blocks ++ blocks page := List.perm_append_comm
        _ = (p.pages ++ [page]).flatMap blocks := by
            rw [List.flatMap_append, List.flatMap_singleton]
  pages := by
    have hlength := h.length hblocks
    have hfits := @le_mul_demand n p.peak hn
    have hpeak := h.peak
    have hpos : 0 < p.pages.length := by
      rw [h.pages]
      exact Nat.lt_of_lt_of_le Nat.zero_lt_one (le_max_left _ _)
    rw [hfree, List.length_nil, Nat.zero_add] at hlength
    rw [← h.pages] at hfits
    have hmax : max p.peak (a :: p.live).length = n * p.pages.length + 1 := by
      rw [List.length_cons, hlength]
      apply max_eq_right
      omega
    rw [hmax, demand_succ hn hpos, List.length_append, List.length_singleton]
  peak := le_max_right _ _

end Operations

end Kruspix.Lib.BlockPool
