import Mathlib.Data.Set.Function

/-!
# Memory of 64-bit words

A memory maps the address of a word to the word. Addresses of words are
multiples of eight, so two words never overlap.
-/

namespace Kruspix.Lib.WordMemory

/-- A memory of words, by address. -/
abbrev Words := Nat → BitVec 64

/-- Store one word. -/
def store (m : Words) (a : Nat) (w : BitVec 64) : Words :=
  fun b => if b = a then w else m b

/-- The loop `for i in 0..n { p.add(i).write(w i) }` over a `*mut u64`. -/
def storeEach (m : Words) (p n : Nat) (w : Nat → BitVec 64) : Words :=
  fun b => if p ≤ b ∧ b < p + 8 * n ∧ (b - p) % 8 = 0 then w ((b - p) / 8) else m b

/-- The loop that writes one word `n` times. -/
def storeRange (m : Words) (p n : Nat) (w : BitVec 64) : Words := storeEach m p n fun _ => w

@[simp] theorem store_same (m : Words) (a : Nat) (w : BitVec 64) : store m a w a = w := by
  simp [store]

theorem store_other (m : Words) {a b : Nat} (w : BitVec 64) (h : b ≠ a) :
    store m a w b = m b := by
  simp [store, h]

theorem storeEach_in (m : Words) (p : Nat) {n i : Nat} (w : Nat → BitVec 64) (h : i < n) :
    storeEach m p n w (p + 8 * i) = w i := by
  have hin : p ≤ p + 8 * i ∧ p + 8 * i < p + 8 * n ∧ (p + 8 * i - p) % 8 = 0 := by omega
  simp [storeEach, hin]

theorem storeEach_out (m : Words) {p n b : Nat} (w : Nat → BitVec 64)
    (h : b < p ∨ p + 8 * n ≤ b) : storeEach m p n w b = m b := by
  have hout : ¬ (p ≤ b ∧ b < p + 8 * n ∧ (b - p) % 8 = 0) := by omega
  simp [storeEach, hout]

theorem storeRange_in (m : Words) (p : Nat) {n i : Nat} (w : BitVec 64) (h : i < n) :
    storeRange m p n w (p + 8 * i) = w :=
  storeEach_in m p _ h

theorem storeRange_out (m : Words) {p n b : Nat} (w : BitVec 64)
    (h : b < p ∨ p + 8 * n ≤ b) : storeRange m p n w b = m b :=
  storeEach_out m _ h

theorem storeRange_zero (m : Words) (p : Nat) (w : BitVec 64) : storeRange m p 0 w = m := by
  funext b
  exact storeEach_out m _ (by omega)

/-- One more word. -/
theorem storeRange_succ (m : Words) (p n : Nat) (w : BitVec 64) :
    store (storeRange m p n w) (p + 8 * n) w = storeRange m p (n + 1) w := by
  funext b
  by_cases hb : b = p + 8 * n
  · rw [hb, store_same, storeRange_in m p w (Nat.lt_succ_self n)]
  · rw [store_other _ _ hb, storeRange, storeRange, storeEach, storeEach]
    refine if_congr ?_ rfl rfl
    omega

/-- A store outside a set of addresses leaves the words of the set alone. -/
theorem store_eqOn (m : Words) {a : Nat} (w : BitVec 64) {s : Set Nat} (h : a ∉ s) :
    Set.EqOn (store m a w) m s := by
  intro b hb
  exact store_other m w (fun heq => h (heq ▸ hb))

end Kruspix.Lib.WordMemory
