import Mathlib.Data.List.Basic
import Mathlib.Data.Vector.Defs

/-!
# Writing an array from its start

A cursor walks over an array of fixed size and writes one item after the other. An item behind
the end is an index out of bounds. What has been written is a prefix of the array.
-/

namespace Kruspix.Lib.ArrayWriter

variable {W : Type} {n : Nat}

/-- `data[index] = w`. `none` is an index out of bounds. -/
def setAt (data : Vector W n) (index : Nat) (w : W) : Option (Vector W n) :=
  if h : index < n then some (data.set index w h) else none

/-- An array and the index that is written next. -/
structure Cursor (W : Type) (n : Nat) where
  data : Vector W n
  index : Nat

/-- One item. -/
def put (w : W) (c : Cursor W n) : Option (Cursor W n) :=
  (setAt c.data c.index w).map fun data => ⟨data, c.index + 1⟩

/-- A loop over items. -/
def puts : List W → Cursor W n → Option (Cursor W n)
  | [], c => some c
  | w :: ws, c => do puts ws (← put w c)

/-- The items written so far. -/
structure Written (ws : List W) (c : Cursor W n) : Prop where
  index : c.index = ws.length
  isPrefix : ws <+: c.data.toList

variable {c : Cursor W n} {ws us : List W} {w : W}

theorem written_nil (data : Vector W n) : Written [] ⟨data, 0⟩ := ⟨rfl, List.nil_prefix⟩

theorem setAt_eq_some {data : Vector W n} {index : Nat} (h : index < n) :
    setAt data index w = some (data.set index w h) := dif_pos h

theorem setAt_eq_none {data : Vector W n} {index : Nat} (h : n ≤ index) :
    setAt data index w = none := dif_neg (Nat.not_lt.mpr h)

theorem puts_append : puts (us ++ ws) c = (puts us c).bind fun c => puts ws c := by
  induction us generalizing c with
  | nil => rfl
  | cons u us ih =>
      rw [List.cons_append, puts, puts]
      cases put u c with
      | none => rfl
      | some c => exact ih

theorem put_bind {α : Type} {data : Vector W n} {index : Nat} {f : Cursor W n → Option α} :
    (put w ⟨data, index⟩).bind f = (setAt data index w).bind fun data => f ⟨data, index + 1⟩ := by
  rw [put]
  cases setAt data index w <;> rfl

theorem index_puts {c' : Cursor W n} (h : puts ws c = some c') :
    c'.index = c.index + ws.length := by
  induction ws generalizing c with
  | nil =>
      cases h
      rfl
  | cons w ws ih =>
      obtain ⟨c₁, hput, hputs⟩ := Option.bind_eq_some_iff.mp h
      obtain ⟨data, -, rfl⟩ := Option.map_eq_some_iff.mp hput
      rw [ih hputs, List.length_cons]
      dsimp only
      omega

/-- An item goes behind the ones that are written. -/
theorem Written.put (h : Written ws c) (hlt : ws.length < n) :
    ∃ c', put w c = some c' ∧ Written (ws ++ [w]) c' := by
  have hindex : c.index < n := h.index ▸ hlt
  refine ⟨⟨c.data.set c.index w hindex, c.index + 1⟩, ?_, ?_, ?_⟩
  · rw [ArrayWriter.put, setAt_eq_some hindex]
    rfl
  · rw [List.length_append]
    exact congrArg (· + 1) h.index
  · obtain ⟨rest, hrest⟩ := h.isPrefix
    have hlength : rest.length = n - ws.length := by
      have := congrArg List.length hrest
      rw [List.length_append, Vector.length_toList] at this
      omega
    cases rest with
    | nil =>
        rw [List.length_nil] at hlength
        omega
    | cons u rest =>
        refine ⟨rest, ?_⟩
        rw [Vector.toList_set, ← hrest, h.index, List.set_append_right _ _ (Nat.le_refl _),
          Nat.sub_self, List.set_cons_zero, List.append_assoc]
        rfl

/-- Items that fit are written, others run out of bounds. -/
theorem Written.puts (h : Written ws c) : (ws.length + us.length ≤ n →
      ∃ c', puts us c = some c' ∧ Written (ws ++ us) c') ∧
    (ws.length ≤ n → n < ws.length + us.length → puts us c = none) := by
  induction us generalizing ws c with
  | nil =>
      refine ⟨fun _ => ⟨c, rfl, (List.append_nil ws).symm ▸ h⟩, fun hle hlt => ?_⟩
      rw [List.length_nil] at hlt
      omega
  | cons u us ih =>
      rw [List.length_cons]
      by_cases hlt : ws.length < n
      · obtain ⟨c₁, hput, hwritten⟩ := h.put (w := u) hlt
        have hrest := ih hwritten
        rw [List.length_append, List.length_singleton, List.append_assoc] at hrest
        have hputs : ArrayWriter.puts (u :: us) c = ArrayWriter.puts us c₁ := by
          rw [ArrayWriter.puts, hput]
          rfl
        rw [hputs]
        exact ⟨fun hfit => hrest.1 (by omega), fun _ hout => hrest.2 (by omega) (by omega)⟩
      · refine ⟨fun hfit => by omega, fun _ _ => ?_⟩
        rw [ArrayWriter.puts, ArrayWriter.put, setAt_eq_none (by rw [h.index]; omega)]
        rfl

end Kruspix.Lib.ArrayWriter
