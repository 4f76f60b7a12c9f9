import Mathlib.Order.Bounds.Basic
import Mathlib.Tactic.SplitIfs

/-!
# Bitmaps stored in words

Bit `i` of a bitmap is bit `i % w` of word `i / w`. The lowest clear bit of a
word is found by counting trailing ones.
-/

namespace Kruspix.Lib.Bitmap

variable {w : Nat}

/-- Bit `i` of a bitmap. -/
def testBit (words : Nat → BitVec w) (i : Nat) : Bool := (words (i / w)).getLsbD (i % w)

/-- The number of trailing one bits. -/
def trailingOnes (x : BitVec w) : Nat := (~~~x).ctz.toNat

theorem not_ne_zero {x : BitVec w} (h : x ≠ BitVec.allOnes w) : ~~~x ≠ 0#w := by
  intro h0
  apply h
  have := congrArg (fun y => ~~~y) h0
  simpa using this

theorem trailingOnes_lt {x : BitVec w} (h : x ≠ BitVec.allOnes w) : trailingOnes x < w := by
  have hlt := BitVec.ctz_lt_iff_ne_zero.mpr (not_ne_zero h)
  simpa [trailingOnes, BitVec.lt_def] using hlt

/-- The bit behind the trailing ones is clear. -/
theorem getLsbD_trailingOnes {x : BitVec w} (h : x ≠ BitVec.allOnes w) :
    x.getLsbD (trailingOnes x) = false := by
  have htrue := BitVec.getLsbD_true_ctz_of_ne_zero (not_ne_zero h)
  have hlt := trailingOnes_lt h
  rw [BitVec.getLsbD_not] at htrue
  simpa [trailingOnes] using (Bool.and_eq_true_iff.mp htrue).2

/-- Every bit below is set. -/
theorem getLsbD_of_lt_trailingOnes {x : BitVec w} (h : x ≠ BitVec.allOnes w) {i : Nat}
    (hi : i < trailingOnes x) : x.getLsbD i = true := by
  have hfalse := BitVec.getLsbD_false_of_lt_ctz hi
  have hiw : i < w := hi.trans (trailingOnes_lt h)
  rw [BitVec.getLsbD_not] at hfalse
  simpa [hiw] using hfalse

theorem div_mod_ext {i j : Nat} (hd : i / w = j / w) (hm : i % w = j % w) : i = j := by
  rw [← Nat.div_add_mod i w, ← Nat.div_add_mod j w, hd, hm]

/-- Position `d` of word `k`. -/
theorem mul_add_div_mod {k d : Nat} (hd : d < w) :
    (k * w + d) / w = k ∧ (k * w + d) % w = d := by
  rw [Nat.mul_comm, Nat.mul_add_div (by omega), Nat.div_eq_of_lt hd, Nat.mul_add_mod,
    Nat.mod_eq_of_lt hd]
  exact ⟨Nat.add_zero k, rfl⟩

/-- Setting bit `i % w` of word `i / w` sets bit `i` and no other. -/
theorem testBit_set (hw : 0 < w) {words words' : Nat → BitVec w} {i : Nat}
    (hsame : words' (i / w) = words (i / w) ||| (1#w <<< (i % w)))
    (hother : ∀ k, k ≠ i / w → words' k = words k) (j : Nat) :
    testBit words' j = (decide (j = i) || testBit words j) := by
  have him : i % w < w := Nat.mod_lt i hw
  have hjm : j % w < w := Nat.mod_lt j hw
  by_cases hk : j / w = i / w
  · by_cases hj : j = i
    · subst hj
      simp [testBit, hsame, ← BitVec.twoPow_eq, him]
    · have hne : i % w ≠ j % w := fun hm => hj (div_mod_ext hk hm.symm)
      simp [testBit, hk, hsame, ← BitVec.twoPow_eq, BitVec.getLsbD_twoPow, hj, hne]
  · have hj : j ≠ i := fun h => hk (by rw [h])
    simp [testBit, hother _ hk, hj]

/-- Clearing bit `i % w` of word `i / w` clears bit `i` and no other. -/
theorem testBit_clear (hw : 0 < w) {words words' : Nat → BitVec w} {i : Nat}
    (hsame : words' (i / w) = words (i / w) &&& ~~~(1#w <<< (i % w)))
    (hother : ∀ k, k ≠ i / w → words' k = words k) (j : Nat) :
    testBit words' j = (decide (j ≠ i) && testBit words j) := by
  have him : i % w < w := Nat.mod_lt i hw
  have hjm : j % w < w := Nat.mod_lt j hw
  by_cases hk : j / w = i / w
  · by_cases hj : j = i
    · subst hj
      simp [testBit, hsame, ← BitVec.twoPow_eq, him]
    · have hne : ¬ j % w = i % w := fun hm => hj (div_mod_ext hk hm)
      simp [testBit, hk, hsame, ← BitVec.twoPow_eq, hj, hjm, hne]
  · have hj : j ≠ i := fun h => hk (by rw [h])
    simp [testBit, hother _ hk, hj]

/-- The clear bit found in word `k` lies behind `w * k`, and every bit between is set. -/
theorem testBit_trailingOnes {words : Nat → BitVec w} {k : Nat}
    (h : words k ≠ BitVec.allOnes w) :
    testBit words (k * w + trailingOnes (words k)) = false ∧
      ∀ j, k * w ≤ j → j < k * w + trailingOnes (words k) → testBit words j = true := by
  have hlt := trailingOnes_lt h
  constructor
  · obtain ⟨hdiv, hmod⟩ := mul_add_div_mod (k := k) hlt
    rw [testBit, hdiv, hmod, getLsbD_trailingOnes h]
  · intro j hle hj
    obtain ⟨d, rfl⟩ := Nat.exists_eq_add_of_le hle
    have hd : d < trailingOnes (words k) := by omega
    obtain ⟨hdiv, hmod⟩ := mul_add_div_mod (k := k) (hd.trans hlt)
    rw [testBit, hdiv, hmod, getLsbD_of_lt_trailingOnes h hd]

/-- A word of ones holds only set bits. -/
theorem testBit_of_allOnes {words : Nat → BitVec w} {k j : Nat}
    (h : words k = BitVec.allOnes w) (hle : k * w ≤ j) (hj : j < (k + 1) * w) :
    testBit words j = true := by
  obtain ⟨d, rfl⟩ := Nat.exists_eq_add_of_le hle
  have hd : d < w := by
    rw [Nat.add_mul] at hj
    omega
  obtain ⟨hdiv, hmod⟩ := mul_add_div_mod (k := k) hd
  rw [testBit, hdiv, hmod, h, BitVec.getLsbD_allOnes]
  exact decide_eq_true hd

end Kruspix.Lib.Bitmap
