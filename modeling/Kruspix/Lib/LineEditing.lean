import Mathlib.Data.List.Basic

/-!
# Lines that are edited as they are typed

A stream is cut at its separators into parts that are complete and one that is not. In a stream
of keys, a part is edited: an erase key takes back the last character that is still there.
-/

namespace Kruspix.Lib.LineEditing

variable {α : Type*}

section Parts

variable {p : α → Bool} {s : List α} {a : α}

/-- The parts that a separator ends. -/
def complete (p : α → Bool) (s : List α) : List (List α) := (s.splitOnP p).dropLast

/-- What is behind the last separator. -/
def current (p : α → Bool) (s : List α) : List α :=
  (s.splitOnP p).getLast (List.splitOnP_ne_nil p s)

@[simp] theorem complete_nil : complete p [] = [] := rfl

@[simp] theorem current_nil : current p [] = [] := rfl

theorem splitOnP_eq (p : α → Bool) (s : List α) : s.splitOnP p = complete p s ++ [current p s] :=
  (List.dropLast_append_getLast (List.splitOnP_ne_nil p s)).symm

/-- The two are given by any way to write what is cut. -/
theorem complete_and_current {parts : List (List α)} {part : List α}
    (h : s.splitOnP p = parts ++ [part]) : complete p s = parts ∧ current p s = part := by
  rw [splitOnP_eq] at h
  obtain ⟨hparts, hpart⟩ := List.append_inj' h rfl
  exact ⟨hparts, List.singleton_inj.mp hpart⟩

theorem splitOnP_concat_of_pos (h : p a = true) (s : List α) :
    (s ++ [a]).splitOnP p = complete p s ++ [current p s] ++ [[]] := by
  rw [← splitOnP_eq]
  exact List.splitOnP_append_cons s [] h

theorem splitOnP_concat_of_neg (h : p a = false) (s : List α) :
    (s ++ [a]).splitOnP p = complete p s ++ [current p s ++ [a]] := by
  induction s with
  | nil =>
      rw [List.nil_append, List.splitOnP_cons_eq_if_modifyHead, h]
      rfl
  | cons b s ih =>
      rw [List.cons_append, List.splitOnP_cons_eq_if_modifyHead, ih]
      have hbefore := List.splitOnP_cons_eq_if_modifyHead (p := p) b s
      rw [splitOnP_eq p s] at hbefore
      cases hb : p b with
      | true =>
          rw [hb, if_pos rfl, ← List.cons_append] at hbefore
          obtain ⟨hcomplete, hcurrent⟩ := complete_and_current hbefore
          rw [if_pos rfl, hcomplete, hcurrent, List.cons_append]
      | false =>
          rw [hb, if_neg Bool.false_ne_true] at hbefore
          rw [if_neg Bool.false_ne_true]
          cases hparts : complete p s with
          | nil =>
              rw [hparts] at hbefore
              have hsplit : (b :: s).splitOnP p = [] ++ [b :: current p s] := hbefore
              obtain ⟨hcomplete, hcurrent⟩ := complete_and_current hsplit
              rw [hcomplete, hcurrent]
              rfl
          | cons part parts =>
              rw [hparts] at hbefore
              have hsplit : (b :: s).splitOnP p = ((b :: part) :: parts) ++ [current p s] := hbefore
              obtain ⟨hcomplete, hcurrent⟩ := complete_and_current hsplit
              rw [hcomplete, hcurrent]
              rfl

theorem complete_concat (s : List α) (a : α) :
    complete p (s ++ [a]) = complete p s ++ if p a then [current p s] else [] := by
  cases h : p a with
  | true => rw [(complete_and_current (splitOnP_concat_of_pos h s)).1, if_pos rfl]
  | false => rw [(complete_and_current (splitOnP_concat_of_neg h s)).1, if_neg Bool.false_ne_true,
      List.append_nil]

theorem current_concat (s : List α) (a : α) :
    current p (s ++ [a]) = if p a then [] else current p s ++ [a] := by
  cases h : p a with
  | true => rw [(complete_and_current (splitOnP_concat_of_pos h s)).2, if_pos rfl]
  | false => rw [(complete_and_current (splitOnP_concat_of_neg h s)).2, if_neg Bool.false_ne_true]

end Parts

/-! ## Keys -/

/-- What a byte does to the line that is being typed. -/
inductive Key
  | newline
  | erase
  | put
  | other
  deriving DecidableEq, Repr

variable (key : α → Key)

/-- What is left of a line that is read backwards, when the next `n` characters are erased. -/
def kept : Nat → List α → List α
  | _, [] => []
  | n, a :: rest =>
      match key a with
      | .put =>
          match n with
          | 0 => a :: kept 0 rest
          | n + 1 => kept n rest
      | .erase => kept (n + 1) rest
      | _ => kept n rest

/-- A character stays unless an erase key behind it is for it. -/
def edit (line : List α) : List α := (kept key 0 line.reverse).reverse

/-- The key ends the line. -/
def isNewline (a : α) : Bool := key a == .newline

/-- The lines of a stream, without the one that is still typed. -/
def lines (s : List α) : List (List α) := (complete (isNewline key) s).map (edit key)

/-- What stands in the line after some keys. -/
def typed (s : List α) : List α := edit key (current (isNewline key) s)

variable {key}

theorem kept_eq_drop (n : Nat) (l : List α) : kept key n l = (kept key 0 l).drop n := by
  induction l generalizing n with
  | nil =>
      simp only [kept]
      exact List.drop_nil.symm
  | cons a rest ih =>
      simp only [kept]
      cases key a with
      | put =>
          cases n with
          | zero => rfl
          | succ n => exact ih n
      | erase =>
          dsimp only
          rw [ih (n + 1), ih 1, List.drop_drop, Nat.add_comm]
      | newline => exact ih n
      | other => exact ih n

theorem edit_concat (line : List α) (a : α) :
    edit key (line ++ [a]) =
      match key a with
      | .put => edit key line ++ [a]
      | .erase => (edit key line).dropLast
      | _ => edit key line := by
  simp only [edit, List.reverse_append, List.reverse_singleton, List.singleton_append, kept]
  cases key a with
  | put => exact List.reverse_cons
  | erase =>
      dsimp only
      rw [kept_eq_drop, List.drop_one, ← List.dropLast_reverse]
  | newline => rfl
  | other => rfl

theorem lines_concat (s : List α) (a : α) :
    lines key (s ++ [a]) = lines key s ++ if isNewline key a then [typed key s] else [] := by
  rw [lines, complete_concat, List.map_append]
  split <;> rfl

theorem typed_concat (s : List α) (a : α) :
    typed key (s ++ [a]) =
      match key a with
      | .newline => []
      | .erase => (typed key s).dropLast
      | .put => typed key s ++ [a]
      | .other => typed key s := by
  rw [typed, current_concat, isNewline]
  cases h : key a with
  | newline => rfl
  | erase =>
      rw [if_neg (by decide), edit_concat, h]
      rfl
  | put =>
      rw [if_neg (by decide), edit_concat, h]
      rfl
  | other =>
      rw [if_neg (by decide), edit_concat, h]
      rfl

end Kruspix.Lib.LineEditing
