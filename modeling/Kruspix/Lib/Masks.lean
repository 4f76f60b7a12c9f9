import Mathlib.Data.Nat.Bits
import Mathlib.Algebra.Group.Nat.Even

/-!
# Fields of a word

A field of a word is selected by a mask. The bits outside a field do not
matter for it, and a number whose bits lie inside a field passes its mask.
-/

namespace Kruspix.Lib.Masks

variable {w : Nat} {x c k : BitVec w}

/-- One of the bits of the mask is set. -/
def has (x mask : BitVec w) : Bool := x &&& mask != 0#w

@[simp] theorem has_zero : has (0#w) k = false := by
  rw [has, BitVec.zero_and]
  exact bne_self_eq_false _

theorem has_or : has (x ||| c) k = (has x k || has c k) := by
  rw [Bool.eq_iff_iff]
  simp only [has, bne_iff_ne, Bool.or_eq_true, ne_eq, ← not_and_or, not_iff_not]
  rw [BitVec.and_comm, BitVec.and_or_distrib_left, BitVec.and_comm k x, BitVec.and_comm k c]
  exact BitVec.or_eq_zero_iff

theorem has_of_and (h : has (x &&& c) k) : has x k := by
  rw [has, bne_iff_ne] at h ⊢
  intro hzero
  apply h
  rw [BitVec.and_assoc, BitVec.and_comm c k, ← BitVec.and_assoc, hzero, BitVec.zero_and]

theorem has_mask_or : has x (c ||| k) = (has x c || has x k) := by
  rw [has, BitVec.and_comm, ← has, has_or]
  simp only [has, BitVec.and_comm]

/-- Putting bits in leaves a field alone that has none of them. -/
theorem or_and_of_disjoint (h : c &&& k = 0#w) : (x ||| c) &&& k = x &&& k := by
  rw [BitVec.and_comm, BitVec.and_or_distrib_left, BitVec.and_comm k c, h, BitVec.or_zero,
    BitVec.and_comm]

/-- Putting all bits of a field in. -/
theorem or_and_eq_right (h : c &&& k = k) : (x ||| c) &&& k = k := by
  ext i hi
  have hbit : (c &&& k)[i] = k[i] := by rw [h]
  rw [BitVec.getElem_and] at hbit
  simp only [BitVec.getElem_and, BitVec.getElem_or]
  cases hk : k[i] with
  | false => exact Bool.and_false _
  | true =>
      rw [hk, Bool.and_true] at hbit
      rw [hbit, Bool.or_true, Bool.and_true]

/-- Clearing a field leaves another field alone. -/
theorem and_not_and_of_disjoint (h : c &&& k = 0#w) : x &&& ~~~c &&& k = x &&& k := by
  ext i hi
  have hbit : (c &&& k)[i] = false := by rw [h, BitVec.getElem_zero]
  rw [BitVec.getElem_and] at hbit
  simp only [BitVec.getElem_and, BitVec.getElem_not]
  cases hk : k[i] with
  | false => rw [Bool.and_false, Bool.and_false]
  | true =>
      rw [hk, Bool.and_true] at hbit
      rw [hbit, Bool.not_false, Bool.and_true]

/-- A field that is replaced reads its new value. -/
theorem replace_and_same {v : BitVec w} (h : v &&& k = v) : (x &&& ~~~k ||| v) &&& k = v := by
  have hclear : x &&& ~~~k &&& k = 0#w := by
    rw [BitVec.and_assoc, BitVec.and_comm (~~~k) k, BitVec.and_not_self]
    exact BitVec.and_zero
  rw [BitVec.and_comm, BitVec.and_or_distrib_left, BitVec.and_comm k (x &&& ~~~k), hclear,
    BitVec.zero_or, BitVec.and_comm, h]

/-- A multiple of `2 ^ n` has no bits in a mask below `2 ^ n`. -/
theorem ofNat_and_eq_zero {a n : Nat} (ha : 2 ^ n ∣ a) (hk : k.toNat < 2 ^ n) :
    BitVec.ofNat w a &&& k = 0#w := by
  apply BitVec.eq_of_toNat_eq
  rw [BitVec.toNat_and, BitVec.toNat_ofNat, BitVec.toNat_ofNat, Nat.zero_mod]
  apply Nat.eq_of_testBit_eq
  intro i
  rw [Nat.testBit_and, Nat.zero_testBit]
  by_cases hi : i < n
  · obtain ⟨q, rfl⟩ := ha
    have hge : ¬ i ≥ n := by omega
    rw [Nat.testBit_mod_two_pow, Nat.testBit_two_pow_mul, decide_eq_false hge, Bool.false_and,
      Bool.and_false, Bool.false_and]
  · have hbit : k.toNat.testBit i = false :=
      Nat.testBit_lt_two_pow (lt_of_lt_of_le hk (Nat.pow_le_pow_right (by omega) (by omega)))
    rw [hbit, Bool.and_false]

/-- A multiple of `2 ^ n` below `2 ^ m` passes the mask of the bits between. -/
theorem toNat_ofNat_and {a n m : Nat} (ha : 2 ^ n ∣ a) (hlt : a < 2 ^ m) (hmw : m ≤ w)
    (hk : k.toNat = 2 ^ m - 2 ^ n) (hnm : n ≤ m) : (BitVec.ofNat w a &&& k).toNat = a := by
  obtain ⟨q, rfl⟩ := ha
  obtain ⟨l, rfl⟩ := Nat.exists_eq_add_of_le hnm
  have hq : q < 2 ^ l := by
    rw [Nat.pow_add] at hlt
    exact Nat.lt_of_mul_lt_mul_left hlt
  have hmask : 2 ^ (n + l) - 2 ^ n = 2 ^ n * (2 ^ l - 1) := by
    rw [Nat.mul_sub, Nat.mul_one, Nat.pow_add]
  have hmod : 2 ^ n * q % 2 ^ w = 2 ^ n * q :=
    Nat.mod_eq_of_lt (lt_of_lt_of_le hlt (Nat.pow_le_pow_right (by omega) hmw))
  rw [BitVec.toNat_and, BitVec.toNat_ofNat, hk, hmod, hmask]
  apply Nat.eq_of_testBit_eq
  intro i
  rw [Nat.testBit_and, Nat.testBit_two_pow_mul, Nat.testBit_two_pow_mul]
  by_cases hi : n ≤ i
  · rw [decide_eq_true hi, Bool.true_and, Bool.true_and, Nat.testBit_two_pow_sub_one]
    by_cases hil : i - n < l
    · rw [decide_eq_true hil, Bool.and_true]
    · have hbit : q.testBit (i - n) = false :=
        Nat.testBit_lt_two_pow (lt_of_lt_of_le hq (Nat.pow_le_pow_right (by omega) (by omega)))
      rw [hbit, Bool.false_and]
  · rw [decide_eq_false hi, Bool.false_and, Bool.false_and]

/-- Clearing the low bits goes down to a multiple. -/
theorem toNat_and_not_low {n : Nat} (hk : k.toNat = 2 ^ n - 1) :
    (x &&& ~~~k).toNat = x.toNat / 2 ^ n * 2 ^ n := by
  apply Nat.eq_of_testBit_eq
  intro i
  have hlow : k.getLsbD i = decide (i < n) := by
    rw [← BitVec.testBit_toNat, hk, Nat.testBit_two_pow_sub_one]
  rw [BitVec.testBit_toNat, BitVec.getLsbD_and, BitVec.getLsbD_not, hlow, Nat.testBit_mul_two_pow,
    Nat.testBit_div_two_pow]
  by_cases hi : n ≤ i
  · have hge : ¬i < n := Nat.not_lt_of_le hi
    rw [Nat.sub_add_cancel hi, BitVec.testBit_toNat, decide_eq_false hge, Bool.not_false,
      Bool.and_true, decide_eq_true hi, Bool.true_and]
    by_cases hiw : i < w
    · rw [decide_eq_true hiw, Bool.and_true]
    · rw [BitVec.getLsbD_of_ge x i (Nat.le_of_not_lt hiw), Bool.false_and]
  · have hlt : i < n := Nat.lt_of_not_le hi
    rw [decide_eq_true hlt, decide_eq_false hi, Bool.not_true, Bool.and_false, Bool.and_false,
      Bool.false_and]

end Kruspix.Lib.Masks
