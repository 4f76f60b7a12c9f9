import Mathlib.Algebra.Order.Floor.Div

/-!
# Counts at two rates

A count at one rate is read at another one, rounded down. There and back again a count
loses a bounded part and gains nothing.
-/

namespace Kruspix.Lib.Rescale

variable {source target n m : Nat}

/-- The count at the rate `target` for a count at the rate `source`. -/
def rescale (source target n : Nat) : Nat := n * target / source

theorem rescale_mono (h : n ≤ m) : rescale source target n ≤ rescale source target m :=
  Nat.div_le_div_right (Nat.mul_le_mul_right target h)

theorem rescale_mul_le (source target n : Nat) : rescale source target n * source ≤ n * target :=
  Nat.div_mul_le_self _ _

theorem lt_succ_rescale_mul (hsource : 0 < source) (target n : Nat) :
    n * target < (rescale source target n + 1) * source := by
  rw [Nat.mul_comm (_ + 1)]
  exact Nat.lt_mul_div_succ _ hsource

/-- Whole units and the rest are rescaled apart. -/
theorem rescale_split (hsource : 0 < source) (target n : Nat) :
    n / source * target + n % source * target / source = rescale source target n := by
  calc n / source * target + n % source * target / source
      = (source * (n / source * target) + n % source * target) / source :=
        (Nat.mul_add_div hsource _ _).symm
    _ = (source * (n / source) + n % source) * target / source := by
        rw [Nat.add_mul, Nat.mul_assoc]
    _ = rescale source target n := by rw [Nat.div_add_mod, rescale]

theorem rescale_mod_lt (hsource : 0 < source) (htarget : 0 < target) (n : Nat) :
    n % source * target / source < target := by
  apply Nat.div_lt_of_lt_mul
  exact Nat.mul_lt_mul_of_pos_right (Nat.mod_lt n hsource) htarget

theorem rescale_rescale_le (source target n : Nat) :
    rescale target source (rescale source target n) ≤ n := by
  apply Nat.div_le_of_le_mul
  rw [Nat.mul_comm target]
  exact rescale_mul_le source target n

/-- What is lost is at most one unit of the coarser rate. -/
theorem sub_rescale_rescale_le (hsource : 0 < source) (htarget : 0 < target) (n : Nat) :
    n - rescale target source (rescale source target n) ≤ source ⌈/⌉ target := by
  have hthere := lt_succ_rescale_mul hsource target n
  have hback := lt_succ_rescale_mul htarget source (rescale source target n)
  have hceil : source ≤ target * (source ⌈/⌉ target) := le_smul_ceilDiv htarget
  generalize rescale source target n = there at hthere hback ⊢
  generalize rescale target source there = back at hback ⊢
  generalize source ⌈/⌉ target = unit at hceil ⊢
  have hlt : n * target < (back + 1 + unit) * target := by
    calc n * target < there * source + source := by rwa [Nat.succ_mul] at hthere
      _ < (back + 1) * target + target * unit := Nat.add_lt_add_of_lt_of_le hback hceil
      _ = (back + 1 + unit) * target := by rw [Nat.mul_comm target, ← Nat.add_mul]
  have := Nat.lt_of_mul_lt_mul_right hlt
  omega

end Kruspix.Lib.Rescale
