import Kruspix.Mm.HeapAllocator

/-!
# Size classes

`alloc` and `dealloc` compute the list of a block from its layout. Both get the
exponent of the same power of two, the least that holds the size, the alignment
and a node.
-/

namespace Kruspix.Mm.HeapAllocator

open Mm.Layout

/-- The least power of two that is no less than a number. -/
theorem nextPowerOfTwo_spec (n : Nat) :
    ∃ k, nextPowerOfTwo n = 2 ^ k ∧ n ≤ 2 ^ k ∧ (1 < n → 2 ^ k < 2 * n) ∧
      ∀ m, n ≤ 2 ^ m → k ≤ m := by
  by_cases hn : n ≤ 1
  · exact ⟨0, by rw [nextPowerOfTwo, if_pos hn, Nat.pow_zero], hn, by omega, fun m _ => m.zero_le⟩
  · have hne : n - 1 ≠ 0 := by omega
    have hlow := Nat.log2_self_le hne
    have hhigh := @Nat.lt_log2_self (n - 1)
    have hpow : 2 ^ ((n - 1).log2 + 1) = 2 * 2 ^ (n - 1).log2 := Nat.pow_succ'
    refine ⟨(n - 1).log2 + 1, by rw [nextPowerOfTwo, if_neg hn], by omega, fun _ => by omega,
      fun m hm => ?_⟩
    by_contra hlt
    have hle : 2 ^ m ≤ 2 ^ (n - 1).log2 := Nat.pow_le_pow_right (by omega) (by omega)
    omega

theorem trailingZeros_two_pow {k : Nat} (hk : k < 64) : trailingZeros (2 ^ k) = k := by
  have hword : BitVec.ofNat 64 (2 ^ k) = BitVec.twoPow 64 k := by
    rw [BitVec.twoPow_eq]
    apply BitVec.eq_of_toNat_eq
    have hlt : 2 ^ k < 2 ^ 64 := Nat.pow_lt_pow_right (by omega) hk
    rw [BitVec.toNat_ofNat, BitVec.toNat_shiftLeft, Nat.shiftLeft_eq]
    simp
  have hne : BitVec.twoPow 64 k ≠ 0#64 := by
    intro h0
    have hbit := congrArg (fun x => x.getLsbD k) h0
    simp [hk] at hbit
  have hbit := BitVec.getLsbD_true_ctz_of_ne_zero hne
  rw [BitVec.getLsbD_twoPow, Bool.and_eq_true, decide_eq_true_iff, decide_eq_true_iff] at hbit
  rw [trailingZeros, hword]
  exact hbit.2.symm

theorem headCount_eq : headCount = 9 := by
  have h12 : trailingZeros pageSize = 12 := trailingZeros_two_pow (k := 12) (by omega)
  have h4 : trailingZeros minBlockSize = 4 := trailingZeros_two_pow (k := 4) (by omega)
  rw [headCount, h12, h4]

/-- The block size of a list. -/
def classSize (index : Fin headCount) : Nat := minBlockSize <<< index.val

theorem classSize_eq (index : Fin headCount) : classSize index = 2 ^ (index.val + 4) := by
  rw [classSize, minBlockSize, Nat.shiftLeft_eq, Nat.pow_add, Nat.mul_comm]

theorem index_le (index : Fin headCount) : index.val ≤ 8 := by
  have hlt := index.isLt
  have hcount := headCount_eq
  omega

theorem classSize_dvd (index : Fin headCount) : classSize index ∣ pageSize := by
  have hle := index_le index
  rw [classSize_eq]
  exact Nat.pow_dvd_pow 2 (show index.val + 4 ≤ 12 by omega)

theorem classSize_pos (index : Fin headCount) : 0 < classSize index := by
  rw [classSize_eq]
  exact Nat.two_pow_pos _

/-- The blocks of a list that fill a page. -/
theorem blocks_mul (index : Fin headCount) :
    (pageSize + (classSize index - 1)) / classSize index * classSize index = pageSize := by
  obtain ⟨n, hn⟩ := classSize_dvd index
  have hpos := classSize_pos index
  rw [hn, Nat.mul_add_div hpos, Nat.div_eq_of_lt (by omega), Nat.add_zero, Nat.mul_comm]

theorem blocks_per_page_pos (index : Fin headCount) : 0 < pageSize / classSize index :=
  Nat.div_pos (Nat.le_of_dvd (by decide) (classSize_dvd index)) (classSize_pos index)

namespace Layout

variable (layout : Layout)

theorem size_lt : layout.size < 2 ^ 63 := by
  have hle := layout.size_le
  have hpos : 0 < layout.align := Nat.pos_of_isPowerOfTwo layout.align_pow
  have hmod := Nat.mod_lt (layout.size + (layout.align - 1)) hpos
  have hdiv := Nat.div_add_mod (layout.size + (layout.align - 1)) layout.align
  rw [Nat.mul_comm] at hdiv
  omega

/-- The exponent that both `alloc` and `dealloc` compute. -/
theorem exists_exponent (halign : layout.align ≤ pageSize) :
    ∃ k, layout.blockSize = 2 ^ k ∧ layout.headIndex = k - 4 ∧ 4 ≤ k ∧ layout.size ≤ 2 ^ k ∧
      layout.align ≤ 2 ^ k ∧ (12 < k → pageSize < layout.size) := by
  have hsize := layout.size_lt
  have hpage : pageSize = 2 ^ 12 := rfl
  obtain ⟨k, hk, hle, hlt, hmin⟩ :=
    nextPowerOfTwo_spec (max (max layout.size layout.align) minBlockSize)
  have h16 : minBlockSize = 2 ^ 4 := rfl
  have hk4 : 4 ≤ k := by
    by_contra hlt4
    have hpow : 2 ^ k < 2 ^ 4 := Nat.pow_lt_pow_right (by omega) (by omega)
    omega
  have hk63 : k ≤ 63 := hmin 63 (by omega)
  refine ⟨k, hk, ?_, hk4, by omega, by omega, fun h12 => ?_⟩
  · have h4 : trailingZeros minBlockSize = 4 := trailingZeros_two_pow (k := 4) (by omega)
    rw [headIndex, blockSize, hk, trailingZeros_two_pow (by omega), h4]
  · by_contra hsmall
    have hle12 : k ≤ 12 := hmin 12 (by omega)
    omega

/-- The length of the block that `alloc` takes for a layout. -/
def blockLen : Nat :=
  if layout.headIndex < headCount then layout.blockSize else layout.pages * pageSize

/-- A small block is a block of its list. -/
theorem blockSize_eq_classSize (halign : layout.align ≤ pageSize)
    (h : layout.headIndex < headCount) : layout.blockSize = classSize ⟨layout.headIndex, h⟩ := by
  obtain ⟨k, hk, hindex, hk4, _⟩ := layout.exists_exponent halign
  have hexp : k = layout.headIndex + 4 := by omega
  rw [hk, classSize_eq, hexp]

/-- The size of the block and the list of a request are those of one class. -/
theorem blockSize_eq_iff (halign : layout.align ≤ pageSize) (index : Fin headCount) :
    layout.blockSize = classSize index ↔ layout.headIndex = index.val := by
  obtain ⟨k, hk, hindex, hk4, _⟩ := layout.exists_exponent halign
  rw [hk, classSize_eq, Nat.pow_right_inj (le_refl 2), hindex]
  omega

/-- The block of a list holds the request and keeps its alignment. -/
theorem small_spec (halign : layout.align ≤ pageSize) (h : layout.headIndex < headCount) :
    layout.size ≤ layout.blockLen ∧ layout.align ∣ classSize ⟨layout.headIndex, h⟩ := by
  obtain ⟨k, hk, hindex, hk4, hsize, hal, _⟩ := layout.exists_exponent halign
  rw [blockLen, if_pos h, ← layout.blockSize_eq_classSize halign h, hk]
  refine ⟨hsize, ?_⟩
  obtain ⟨j, hj⟩ := layout.align_pow
  rw [hj] at hal ⊢
  exact Nat.pow_dvd_pow 2 ((Nat.pow_le_pow_iff_right (by omega)).mp hal)

/-- A larger request takes at least two pages, and pages keep its alignment. -/
theorem large_spec (halign : layout.align ≤ pageSize) (h : ¬ layout.headIndex < headCount) :
    layout.size ≤ layout.blockLen ∧ layout.align ∣ pageSize ∧ 2 ≤ layout.pages := by
  obtain ⟨k, hk, hindex, hk4, hsize, hal, hlarge⟩ := layout.exists_exponent halign
  have hcount := headCount_eq
  have hbig := hlarge (by omega)
  rw [blockLen, if_neg h, pages]
  refine ⟨?_, ?_, ?_⟩
  · simp only [pageSize]
    omega
  · obtain ⟨j, hj⟩ := layout.align_pow
    have hpage : pageSize = 2 ^ 12 := rfl
    rw [hj, hpage] at halign ⊢
    exact Nat.pow_dvd_pow 2 ((Nat.pow_le_pow_iff_right (by omega)).mp halign)
  · simp only [pageSize] at hbig ⊢
    omega

end Layout

end Kruspix.Mm.HeapAllocator
