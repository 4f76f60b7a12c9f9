import Mathlib.Data.List.Basic

/-!
# Segments with a terminator

Every list is cut at a terminator into segments that are followed by it, and a tail that is
not. Neither the segments nor the tail have the terminator inside.
-/

namespace Kruspix.Lib.Terminated

variable {α : Type*} {t : α} {xs tail : List α} {segments : List (List α)}

/-- Segments, each with the terminator behind it. -/
def terminated (t : α) (segments : List (List α)) : List α := segments.flatMap (· ++ [t])

@[simp] theorem terminated_nil (t : α) : terminated t [] = [] := rfl

theorem terminated_cons (t : α) (s : List α) (segments : List (List α)) :
    terminated t (s :: segments) = s ++ t :: terminated t segments := by
  rw [terminated, List.flatMap_cons, List.append_assoc]
  rfl

/-- The segments of a list and the tail behind the last terminator. -/
structure Cut (t : α) (xs : List α) (segments : List (List α)) (tail : List α) : Prop where
  eq : xs = terminated t segments ++ tail
  segment : ∀ s ∈ segments, t ∉ s
  tail : t ∉ tail

/-- One more element in front starts a segment, or belongs to the first one, or to the tail. -/
theorem exists_cut (t : α) (xs : List α) : ∃ segments tail, Cut t xs segments tail := by
  induction xs with
  | nil => exact ⟨[], [], rfl, fun s hs => absurd hs List.not_mem_nil, List.not_mem_nil⟩
  | cons x xs ih =>
      obtain ⟨segments, tail, hcut⟩ := ih
      by_cases hx : x = t
      · refine ⟨[] :: segments, tail, ?_, ?_, hcut.tail⟩
        · rw [terminated_cons, hcut.eq, hx]
          rfl
        · exact List.forall_mem_cons.mpr ⟨List.not_mem_nil, hcut.segment⟩
      · have hmem {s : List α} (hs : t ∉ s) : t ∉ x :: s := by
          rw [List.mem_cons, not_or]
          exact ⟨Ne.symm hx, hs⟩
        cases segments with
        | nil =>
            refine ⟨[], x :: tail, ?_, hcut.segment, hmem hcut.tail⟩
            rw [hcut.eq]
            rfl
        | cons s segments =>
            obtain ⟨hs, hrest⟩ := List.forall_mem_cons.mp hcut.segment
            refine ⟨(x :: s) :: segments, tail, ?_, ?_, hcut.tail⟩
            · rw [hcut.eq, terminated_cons, terminated_cons]
              rfl
            · exact List.forall_mem_cons.mpr ⟨hmem hs, hrest⟩

/-- The first segment is what is in front of the first terminator. -/
theorem Cut.uncons {s : List α} (h : Cut t xs (s :: segments) tail) :
    xs = s ++ t :: (terminated t segments ++ tail) ∧ t ∉ s ∧
      Cut t (terminated t segments ++ tail) segments tail := by
  obtain ⟨hs, hrest⟩ := List.forall_mem_cons.mp h.segment
  refine ⟨?_, hs, rfl, hrest, h.tail⟩
  rw [h.eq, terminated_cons, List.append_assoc]
  rfl

end Kruspix.Lib.Terminated
