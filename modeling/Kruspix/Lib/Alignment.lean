import Mathlib.Data.Nat.Notation
import Mathlib.Algebra.Group.Nat.Even

/-!
# Alignment

Rounding up to a multiple.
-/

namespace Kruspix.Lib.Alignment

/-- `usize::next_multiple_of`. -/
def nextMultipleOf (n m : Nat) : Nat := (n + (m - 1)) / m * m

theorem nextMultipleOf_spec (n : Nat) {m : Nat} (hm : 0 < m) :
    m ∣ nextMultipleOf n m ∧ n ≤ nextMultipleOf n m ∧ nextMultipleOf n m < n + m := by
  have hdiv := Nat.div_add_mod (n + (m - 1)) m
  have hmod := Nat.mod_lt (n + (m - 1)) hm
  rw [Nat.mul_comm] at hdiv
  refine ⟨Nat.dvd_mul_left _ _, ?_, ?_⟩ <;> simp only [nextMultipleOf] <;> omega

end Kruspix.Lib.Alignment
