import Kruspix.Kernel.Devicetree.Fdt.StructureBlock
import Mathlib.Algebra.Group.Nat.Even

/-!
# Nodes of the flattened device tree

The iterator over nodes reads the structure block without the properties and
returns the nodes down to a depth.
-/

namespace Kruspix.Kernel.Devicetree

open Lib.Iterator

/-- `str::split` at a character. -/
def split (c : Char) (s : String) : List String := (s.toList.splitOn c).map String.ofList

/-- The digits of a number in base 16, if it fits a `usize`. -/
def hexDigits : Nat → List Char → Option Nat
  | n, [] => some n
  | n, c :: cs =>
      let digit :=
        if '0' ≤ c ∧ c ≤ '9' then some (c.toNat - '0'.toNat)
        else if 'a' ≤ c ∧ c ≤ 'f' then some (c.toNat - 'a'.toNat + 10)
        else if 'A' ≤ c ∧ c ≤ 'F' then some (c.toNat - 'A'.toNat + 10)
        else none
      match digit with
      | none => none
      | some d => if n * 16 + d < 2 ^ 64 then hexDigits (n * 16 + d) cs else none

/-- `usize::from_str_radix` for base 16. -/
def fromStrRadix16 (s : String) : Option Nat :=
  match s.toList with
  | [] => none
  | ['+'] => none
  | '+' :: cs => hexDigits 0 cs
  | cs => hexDigits 0 cs

namespace RawNode

/-- The name without the unit address. -/
def nodeName (node : RawNode) : String := (split '@' node.name).head?.getD node.name

/-- What stands behind the `@` of the name. -/
def unitAddress (node : RawNode) : Option String := (split '@' node.name)[1]?

def isRoot (node : RawNode) : Bool := node.nodeName == ""

def isAliases (node : RawNode) : Bool := node.nodeName == "aliases"

def isChosen (node : RawNode) : Bool := node.nodeName == "chosen"

end RawNode

/-- An iterator over the nodes down to a depth. -/
structure NodeIter where
  structureBlockIter : StructureBlockIter
  currentDepth : Int
  maxDepth : Int
  deriving DecidableEq

namespace NodeIter

/-- The iterator at the start of a block. -/
def new (token stringsBlock : Cursor) (maxDepth : Int) : NodeIter :=
  ⟨.newWithoutProps token stringsBlock, 0, maxDepth⟩

/-- `next`. The block is read without properties, so there is none. -/
def next (s : NodeIter) : Except Fault (Option RawNode × NodeIter) :=
  if s.currentDepth < 0 then .ok (none, s)
  else
    match _h : s.structureBlockIter.next with
    | .error e => .error e
    | .ok (none, t) => .ok (none, { s with structureBlockIter := t })
    | .ok (some (.error _), t) => .ok (none, { s with structureBlockIter := t })
    | .ok (some (.ok (.beginNode node)), t) =>
        if s.currentDepth + 1 > s.maxDepth then
          next ⟨t, s.currentDepth + 1, s.maxDepth⟩
        else .ok (some node, ⟨t, s.currentDepth + 1, s.maxDepth⟩)
    | .ok (some (.ok .endNode), t) => next ⟨t, s.currentDepth - 1, s.maxDepth⟩
    | .ok (some (.ok (.prop _)), _) => .error .unreachable
termination_by s.structureBlockIter.token.bytes.length
decreasing_by all_goals exact StructureBlockIter.next_length _h

theorem next_eq (s : NodeIter) : s.next =
    if s.currentDepth < 0 then .ok (none, s)
    else
      match s.structureBlockIter.next with
      | .error e => .error e
      | .ok (none, t) => .ok (none, { s with structureBlockIter := t })
      | .ok (some (.error _), t) => .ok (none, { s with structureBlockIter := t })
      | .ok (some (.ok (.beginNode node)), t) =>
          if s.currentDepth + 1 > s.maxDepth then
            next ⟨t, s.currentDepth + 1, s.maxDepth⟩
          else .ok (some node, ⟨t, s.currentDepth + 1, s.maxDepth⟩)
      | .ok (some (.ok .endNode), t) => next ⟨t, s.currentDepth - 1, s.maxDepth⟩
      | .ok (some (.ok (.prop _)), _) => .error .unreachable := by
  rw [next]
  split
  · rfl
  · split <;> rename_i h <;> simp only [h]

/-- Each node takes a token off the block. -/
theorem next_length {s t : NodeIter} {node : RawNode} (h : s.next = .ok (some node, t)) :
    t.structureBlockIter.token.bytes.length < s.structureBlockIter.token.bytes.length := by
  induction s using next.induct with
  | case1 s hdepth =>
      rw [next_eq, if_pos hdepth] at h
      cases h
  | case2 s hdepth e he =>
      rw [next_eq, if_neg hdepth, he] at h
      cases h
  | case3 s hdepth t' ht =>
      rw [next_eq, if_neg hdepth, ht] at h
      cases h
  | case4 s hdepth u t' ht =>
      rw [next_eq, if_neg hdepth, ht] at h
      cases h
  | case5 s hdepth node' t' ht hmax ih =>
      simp only [next_eq s, if_neg hdepth, ht, if_pos hmax] at h
      exact Nat.lt_trans (ih h) (StructureBlockIter.next_length ht)
  | case6 s hdepth node' t' ht hmax =>
      simp only [next_eq s, if_neg hdepth, ht, if_neg hmax] at h
      cases h
      exact StructureBlockIter.next_length ht
  | case7 s hdepth t' ht ih =>
      simp only [next_eq s, if_neg hdepth, ht] at h
      exact Nat.lt_trans (ih h) (StructureBlockIter.next_length ht)
  | case8 s hdepth prop t' ht =>
      rw [next_eq, if_neg hdepth, ht] at h
      cases h

/-- `impl Iterator`. -/
def iter : Iter Fault NodeIter RawNode where
  next := next
  size s := s.structureBlockIter.token.bytes.length
  size_lt := next_length

end NodeIter

end Kruspix.Kernel.Devicetree
