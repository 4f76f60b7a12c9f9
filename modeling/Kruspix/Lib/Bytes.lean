import Kruspix.Lib.Alignment
import Mathlib.Data.List.Induction

/-!
# Numbers and strings in bytes

Big-endian words, UTF-8 strings that end with a zero byte, and padding to words.
-/

namespace Kruspix.Lib.Bytes

open Lib.Alignment

/-- The number of a big-endian word. -/
def be32 (b0 b1 b2 b3 : UInt8) : Nat :=
  ((b0.toNat * 256 + b1.toNat) * 256 + b2.toNat) * 256 + b3.toNat

/-- The bytes of a big-endian word. -/
def be32Bytes (n : Nat) : List UInt8 :=
  [UInt8.ofNat (n / 2 ^ 24), UInt8.ofNat (n / 2 ^ 16), UInt8.ofNat (n / 2 ^ 8), UInt8.ofNat n]

@[simp] theorem be32Bytes_length (n : Nat) : (be32Bytes n).length = 4 := rfl

theorem be32_be32Bytes {n : Nat} (h : n < 2 ^ 32) :
    be32 (UInt8.ofNat (n / 2 ^ 24)) (UInt8.ofNat (n / 2 ^ 16)) (UInt8.ofNat (n / 2 ^ 8))
      (UInt8.ofNat n) = n := by
  simp only [be32, UInt8.toNat_ofNat']
  omega

/-- The number of big-endian bytes. -/
def beNat (bs : List UInt8) : Nat := bs.foldl (fun n b => n * 256 + b.toNat) 0

/-- `slice::chunks_exact`, for chunks that are not empty. -/
def chunksExact {α : Type} (n : Nat) (l : List α) : List (List α) :=
  if n = 0 ∨ l.length < n then [] else l.take n :: chunksExact n (l.drop n)
termination_by l.length
decreasing_by
  simp only [List.length_drop]
  omega

theorem chunksExact_eq_nil {α : Type} {n : Nat} {l : List α} (h : n = 0 ∨ l.length < n) :
    chunksExact n l = [] := by
  rw [chunksExact, if_pos h]

theorem chunksExact_eq_cons {α : Type} {n : Nat} {l : List α} (h : ¬(n = 0 ∨ l.length < n)) :
    chunksExact n l = l.take n :: chunksExact n (l.drop n) := by
  rw [chunksExact, if_neg h]

theorem length_of_mem_chunksExact {α : Type} {n : Nat} {l chunk : List α}
    (h : chunk ∈ chunksExact n l) : chunk.length = n := by
  induction l using chunksExact.induct n with
  | case1 l hend =>
      rw [chunksExact_eq_nil hend] at h
      cases h
  | case2 l hmore ih =>
      rw [chunksExact_eq_cons hmore] at h
      rcases List.mem_cons.mp h with rfl | h
      · rw [List.length_take]
        omega
      · exact ih h

theorem length_chunksExact {α : Type} {n : Nat} (hn : n ≠ 0) (l : List α) :
    (chunksExact n l).length = l.length / n := by
  induction l using chunksExact.induct n with
  | case1 l hend =>
      rw [chunksExact_eq_nil hend, List.length_nil, Nat.div_eq_of_lt]
      exact hend.resolve_left hn
  | case2 l hmore ih =>
      have hle : n ≤ l.length := by omega
      rw [chunksExact_eq_cons hmore, List.length_cons, ih, List.length_drop,
        Nat.div_eq_sub_div (Nat.pos_of_ne_zero hn) hle]

/-- The chunks behind the first ones are those of what is behind them. -/
theorem chunksExact_drop {α : Type} (n k : Nat) (l : List α) :
    chunksExact n (l.drop (k * n)) = (chunksExact n l).drop k := by
  induction k generalizing l with
  | zero => rw [Nat.zero_mul, List.drop_zero, List.drop_zero]
  | succ k ih =>
      by_cases hend : n = 0 ∨ l.length < n
      · rw [chunksExact_eq_nil hend, List.drop_nil, chunksExact_eq_nil]
        rw [List.length_drop]
        omega
      · rw [chunksExact_eq_cons hend, List.drop_succ_cons, ← ih, List.drop_drop]
        congr 2
        rw [Nat.succ_mul, Nat.add_comm]

theorem chunksExact_take {α : Type} {n : Nat} (hn : n ≠ 0) (k : Nat) (l : List α) :
    chunksExact n (l.take (k * n)) = (chunksExact n l).take k := by
  induction k generalizing l with
  | zero =>
      rw [Nat.zero_mul, List.take_zero, List.take_zero, chunksExact_eq_nil]
      exact .inr (Nat.pos_of_ne_zero hn)
  | succ k ih =>
      have hle : n ≤ (k + 1) * n := Nat.le_mul_of_pos_left n (Nat.succ_pos k)
      by_cases hend : n = 0 ∨ l.length < n
      · rw [chunksExact_eq_nil hend, List.take_nil, chunksExact_eq_nil]
        rw [List.length_take]
        omega
      · rw [chunksExact_eq_cons hend, List.take_succ_cons, ← ih, chunksExact_eq_cons,
          List.take_take, Nat.min_eq_left hle, List.drop_take]
        · congr 3
          rw [Nat.succ_mul, Nat.add_sub_cancel]
        · rw [List.length_take]
          omega

/-- The big-endian words of a value. -/
def beWords (bs : List UInt8) : List Nat := (chunksExact 4 bs).map beNat

theorem beNat_lt (bs : List UInt8) : beNat bs < 256 ^ bs.length := by
  induction bs using List.reverseRecOn with
  | nil => exact Nat.one_pos
  | append_singleton bs b ih =>
      have hb := b.toNat_lt
      rw [beNat, List.foldl_append, List.length_append, List.length_singleton, Nat.pow_succ]
      change beNat bs * 256 + b.toNat < _
      omega

theorem beNat_append (bs cs : List UInt8) :
    beNat (bs ++ cs) = beNat bs * 256 ^ cs.length + beNat cs := by
  induction cs using List.reverseRecOn with
  | nil => simp [beNat]
  | append_singleton cs c ih =>
      have hlast : ∀ as : List UInt8, beNat (as ++ [c]) = beNat as * 256 + c.toNat := by
        intro as
        rw [beNat, List.foldl_append]
        rfl
      rw [← List.append_assoc, hlast, hlast, ih, List.length_append, List.length_singleton,
        Nat.pow_succ, Nat.add_mul, Nat.mul_assoc, Nat.add_assoc]

theorem beWords_lt {bs : List UInt8} {word : Nat} (h : word ∈ beWords bs) : word < 2 ^ 32 := by
  obtain ⟨chunk, hchunk, rfl⟩ := List.mem_map.mp h
  have hlt := beNat_lt chunk
  rw [length_of_mem_chunksExact hchunk] at hlt
  exact hlt

theorem length_beWords (bs : List UInt8) : (beWords bs).length = bs.length / 4 := by
  rw [beWords, List.length_map, length_chunksExact (by decide)]

theorem beWords_singleton {bs : List UInt8} (h : bs.length = 4) : beWords bs = [beNat bs] := by
  rw [beWords, chunksExact_eq_cons (by omega), chunksExact_eq_nil (by rw [List.length_drop]; omega),
    List.take_of_length_le (Nat.le_of_eq h)]
  rfl

theorem beWords_take (bs : List UInt8) (k : Nat) :
    beWords (bs.take (k * 4)) = (beWords bs).take k := by
  rw [beWords, chunksExact_take (by decide), List.map_take]
  rfl

theorem beWords_drop (bs : List UInt8) (k : Nat) :
    beWords (bs.drop (k * 4)) = (beWords bs).drop k := by
  rw [beWords, chunksExact_drop, List.map_drop]
  rfl

/-- The UTF-8 bytes of a string. -/
def strBytes (s : String) : List UInt8 := s.toByteArray.data.toList

/-- `str::from_utf8`. -/
def str? (bs : List UInt8) : Option String := String.fromUTF8? ⟨bs.toArray⟩

theorem str?_strBytes (s : String) : str? (strBytes s) = some s := by
  rw [str?, strBytes, Array.toArray_toList]
  change String.fromUTF8? s.toByteArray = some s
  rw [String.fromUTF8?, dif_pos s.isValidUTF8]
  rfl

theorem str?_eq_some {bs : List UInt8} {s : String} : str? bs = some s ↔ bs = strBytes s := by
  constructor
  · intro h
    rw [str?, String.fromUTF8?] at h
    split at h
    · cases h
      rfl
    · cases h
  · rintro rfl
    exact str?_strBytes s

/-- The bytes of a C string: those before the first zero byte, if there is one. -/
def cStr? (bs : List UInt8) : Option (List UInt8) :=
  if 0 ∈ bs then some (bs.takeWhile (· ≠ 0)) else none

theorem cStr?_append {bs : List UInt8} (h : 0 ∉ bs) (rest : List UInt8) :
    cStr? (bs ++ 0 :: rest) = some bs := by
  have hall : ∀ b ∈ bs, (fun b : UInt8 => decide (b ≠ 0)) b = true := by
    intro b hb
    simp only [ne_eq, decide_not, Bool.not_eq_true', decide_eq_false_iff_not]
    rintro rfl
    exact h hb
  rw [cStr?, if_pos (by simp), List.takeWhile_append_of_pos hall]
  simp

/-- The zero bytes that fill a word behind `n` bytes. -/
def pad (n : Nat) : List UInt8 := List.replicate ((4 - n % 4) % 4) 0

theorem pad_length (n : Nat) : n + (pad n).length = nextMultipleOf n 4 := by
  rw [pad, List.length_replicate, nextMultipleOf]
  omega

end Kruspix.Lib.Bytes
