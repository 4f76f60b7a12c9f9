import Kruspix.Kernel.Devicetree.FromRaw
import Kruspix.Lib.Terminated

/-!
# Lists of strings

The cursor over a list of strings stops behind each zero byte, whatever is in front of it.
So it yields one item for each segment, and one for bytes that no zero byte follows.
-/

namespace Kruspix.Kernel.Devicetree

open Lib.Bytes Lib.Iterator Lib.Terminated

/-- The bytes of a list of strings and the place of the next one. -/
structure StringListIter where
  stringList : List UInt8
  currentIndex : Nat
  deriving DecidableEq, Repr

namespace StringListIter

def new (bs : List UInt8) : StringListIter := ⟨bs, 0⟩

/-- The string up to the next NUL, if it is UTF-8. Without a NUL the rest is one bad string. -/
def next (it : StringListIter) : Option (Option String) × StringListIter :=
  if it.currentIndex ≥ it.stringList.length then (none, it)
  else
    let slice := it.stringList.drop it.currentIndex
    match cStr? slice with
    | some cstr =>
        (some (str? cstr), { it with currentIndex := it.currentIndex + (cstr.length + 1) })
    | none => (some none, { it with currentIndex := it.stringList.length })

/-- Each item moves the cursor. -/
theorem next_size {it it' : StringListIter} {item : Option String}
    (h : it.next = (some item, it')) :
    it'.stringList.length - it'.currentIndex < it.stringList.length - it.currentIndex := by
  rw [next] at h
  split at h
  · cases h
  · dsimp only at h
    split at h <;> cases h <;> dsimp only <;> omega

/-- The iterator as a step. It has no way to fault. -/
def steps : Iter Fault StringListIter (Option String) where
  next it := .ok it.next
  size it := it.stringList.length - it.currentIndex
  size_lt h := next_size (Except.ok.inj h)

end StringListIter

/-- The iterator that `value_as_string_list_iter` returns. -/
def RawProp.stringListIter (prop : RawProp) : StringListIter := .new prop.value

/-- `TryInto<Vec<String>>` of an unknown property. Where its bytes stand plays no part. -/
def unknownStrings (data : List UInt8) : List String :=
  (RawProp.mk "" data 0).valueAsStringListIter.filterMap id

variable {bs front tail : List UInt8} {segments : List (List UInt8)}

theorem length_le_of_cStr? {cstr : List UInt8} (h : cStr? bs = some cstr) :
    cstr.length + 1 ≤ bs.length := by
  by_cases hmem : 0 ∈ bs
  · obtain ⟨s, rest, rfl, hs⟩ := List.eq_append_cons_of_mem hmem
    rw [cStr?_append hs] at h
    cases h
    simp only [List.length_append, List.length_cons]
    omega
  · rw [cStr?, if_neg hmem] at h
    cases h

/-- The cursor behind `front` yields the strings of what is left. -/
theorem yields_stringList (bs front : List UInt8) :
    Iter.Yields StringListIter.steps ⟨front ++ bs, front.length⟩ (RawProp.stringList bs) := by
  fun_induction RawProp.stringList bs generalizing front with
  | case1 =>
      refine .done (t := ⟨front ++ [], front.length⟩) (congrArg Except.ok (if_pos ?_))
      rw [List.append_nil]
  | case2 bs hbs cstr hcstr ih =>
      have hlen := length_le_of_cStr? hcstr
      have hfront : (front ++ bs.take (cstr.length + 1)).length =
          front.length + (cstr.length + 1) := by
        rw [List.length_append, List.length_take_of_le hlen]
      have hrest := ih (front ++ bs.take (cstr.length + 1))
      rw [List.append_assoc, List.take_append_drop, hfront] at hrest
      refine .more (congrArg Except.ok ?_) hrest
      rw [StringListIter.next, if_neg]
      · simp only [List.drop_left, hcstr]
      · simp only [List.length_append]
        omega
  | case3 bs hbs hcstr =>
      have hpos := List.length_pos_iff.mpr hbs
      refine .more (t := ⟨front ++ bs, (front ++ bs).length⟩) (congrArg Except.ok ?_)
        (.done (t := ⟨front ++ bs, (front ++ bs).length⟩) (congrArg Except.ok (if_pos ?_)))
      · rw [StringListIter.next, if_neg]
        · simp only [List.drop_left, hcstr]
        · simp only [List.length_append]
          omega
      · exact Nat.le_refl _

/-- What is yielded for the bytes behind the last terminator. -/
def unterminated (tail : List UInt8) : List (Option String) := if tail = [] then [] else [none]

/-- One item for each segment, and one for a tail. -/
theorem stringList_cut (h : Cut 0 bs segments tail) :
    RawProp.stringList bs = segments.map str? ++ unterminated tail := by
  induction segments generalizing bs with
  | nil =>
      obtain rfl : bs = tail := h.eq
      rw [RawProp.stringList, unterminated, cStr?, if_neg h.tail]
      rfl
  | cons s segments ih =>
      obtain ⟨hbs, hs, hrest⟩ := h.uncons
      have hne : bs ≠ [] := by
        rw [hbs]
        exact List.append_ne_nil_of_right_ne_nil s (List.cons_ne_nil _ _)
      have hdrop : bs.drop (s.length + 1) = terminated 0 segments ++ tail := by
        rw [hbs, List.append_cons]
        exact List.drop_left' (by rw [List.length_append]; rfl)
      rw [RawProp.stringList, if_neg hne, hbs, cStr?_append hs]
      dsimp only
      rw [← hbs, hdrop, ih hrest]
      rfl

theorem yields_cut {prop : RawProp} (h : Cut 0 prop.value segments tail) :
    Iter.Yields StringListIter.steps prop.stringListIter
      (segments.map str? ++ unterminated tail) := by
  rw [← stringList_cut h]
  exact yields_stringList prop.value []

/-- The strings of a list are those of its segments. -/
theorem filterMap_valueAsStringListIter {prop : RawProp} (h : Cut 0 prop.value segments tail) :
    prop.valueAsStringListIter.filterMap id = segments.filterMap str? := by
  have htail : (unterminated tail).filterMap id = [] := by
    rw [unterminated]
    split <;> rfl
  rw [RawProp.valueAsStringListIter, stringList_cut h, List.filterMap_append, htail,
    List.append_nil, List.filterMap_map]
  rfl

theorem mem_filterMap_str? {s : String} : s ∈ segments.filterMap str? ↔ strBytes s ∈ segments := by
  rw [List.mem_filterMap]
  constructor
  · rintro ⟨segment, hmem, hs⟩
    rwa [← str?_eq_some.mp hs]
  · intro hmem
    exact ⟨strBytes s, hmem, str?_strBytes s⟩

theorem cut_strings {strs : List String} (h : ∀ s ∈ strs, 0 ∉ strBytes s) :
    Cut 0 (terminated 0 (strs.map strBytes)) (strs.map strBytes) [] where
  eq := (List.append_nil _).symm
  segment := List.forall_mem_map.mpr h
  tail := List.not_mem_nil

/-- A list of strings is read back, and every byte string is read segment by segment. Each
segment that is a string is among the names that a node is compatible with. -/
theorem stringListIter_yields :
    (∀ (name : String) (strs : List String) (addr : Nat), (∀ s ∈ strs, 0 ∉ strBytes s) →
      Iter.Yields StringListIter.steps
        (RawProp.stringListIter ⟨name, terminated 0 (strs.map strBytes), addr⟩)
        (strs.map some)) ∧
    ∀ prop : RawProp, ∃ segments tail, Cut 0 prop.value segments tail ∧
      Iter.Yields StringListIter.steps prop.stringListIter
        (segments.map str? ++ unterminated tail) ∧
      unknownStrings prop.value = segments.filterMap str? ∧
      ∀ node parent, prop.name = "compatible" → ∃ compatibleList,
        PropertyValue.fromRaw prop node parent = .ok (.standard (.compatible compatibleList)) ∧
        compatibleList = segments.filterMap str? ∧
        ∀ s, s ∈ compatibleList ↔ strBytes s ∈ segments := by
  constructor
  · intro name strs addr hstrs
    have hyields := @yields_cut [] _ ⟨name, _, addr⟩ (cut_strings hstrs)
    have hitems : (strs.map strBytes).map str? = strs.map some := by
      rw [List.map_map]
      exact List.map_congr_left fun s _ => str?_strBytes s
    rwa [hitems, unterminated, if_pos rfl, List.append_nil] at hyields
  · intro prop
    obtain ⟨segments, tail, hcut⟩ := exists_cut 0 prop.value
    have hstrings := filterMap_valueAsStringListIter hcut
    refine ⟨segments, tail, hcut, yields_cut hcut, hstrings, fun node parent hname =>
      ⟨_, ?_, hstrings, ?_⟩⟩
    · simp only [PropertyValue.fromRaw, hname]
      rfl
    · intro s
      rw [hstrings, mem_filterMap_str?]

/-- An empty string in front of a name. -/
theorem stringListIter_yields_empty :
    Iter.Yields StringListIter.steps
      (RawProp.stringListIter
        ⟨"compatible", terminated 0 (["", "fixed-clock"].map strBytes), 0x1058⟩)
      [some "", some "fixed-clock"] :=
  stringListIter_yields.1 "compatible" ["", "fixed-clock"] 0x1058 (by decide)

/-- A name behind bytes that are no string, and in front of bytes without a zero byte. -/
example : RawProp.stringList ([0xff, 0] ++ strBytes "uart" ++ [0, 0x61]) =
    [none, some "uart", none] :=
  @stringList_cut _ [0x61] [[0xff], strBytes "uart"] ⟨by decide, by decide, by decide⟩

end Kruspix.Kernel.Devicetree
