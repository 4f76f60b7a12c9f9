import Kruspix.Kernel.Devicetree.Cursor
import Kruspix.Lib.Alignment
import Kruspix.Lib.Iterator
import Kruspix.Lib.Result
import Mathlib.Tactic.SplitIfs

/-!
# The iterator over the structure block

The structure block is a sequence of tokens. The iterator reads one token at a
time and returns the begin of a node, a property or the end of a node. At the
begin of a node it looks ahead for the node's properties and children.
-/

namespace Kruspix.Kernel.Devicetree

open Lib.Alignment Lib.Bytes Lib.Iterator Lib.Result

/-- The words that start a token. -/
def fdtBeginNode : Nat := 1
def fdtEndNode : Nat := 2
def fdtProp : Nat := 3
def fdtNop : Nat := 4
def fdtEnd : Nat := 9

/-- A property: its name, the bytes of its value, and the address where they stand. -/
structure RawProp where
  name : String
  value : List UInt8
  addr : Nat
  deriving DecidableEq

/-- A node by its name and the places of its properties and children. -/
structure RawNode where
  name : String
  propsPtr : Cursor
  childrenPtr : Cursor
  deriving DecidableEq

/-- What the iterator over the structure block yields. -/
inductive StructureBlockEntry
  | beginNode (node : RawNode)
  | endNode
  | prop (prop : RawProp)
  deriving DecidableEq

/-- An iterator over the structure block: the token that is next and the kind of the one before. -/
structure StructureBlockIter where
  stringsBlock : Cursor
  token : Cursor
  prevToken : Nat
  skipProps : Bool
  deriving DecidableEq

/-- `next_non_nop_token`, with the pointer to the token it returns. -/
def nextNonNopToken (c : Cursor) : Except Fault (Nat × Cursor) :=
  match _h : c.readBe32 with
  | .error e => .error e
  | .ok token => if token ≠ fdtNop then .ok (token, c) else nextNonNopToken (c.skip 4)
termination_by c.bytes.length
decreasing_by
  have hlen := Cursor.readBe32_ok _h
  simp only [Cursor.skip_bytes, List.length_drop]
  omega

theorem nextNonNopToken_eq (c : Cursor) :
    nextNonNopToken c = (do
      let token ← c.readBe32
      if token ≠ fdtNop then .ok (token, c) else nextNonNopToken (c.skip 4)) := by
  rw [nextNonNopToken]
  split <;> rename_i h <;> simp only [h, except_ok_bind, except_error_bind]

/-- The token that is returned has been read. -/
theorem nextNonNopToken_length {c d : Cursor} {token : Nat}
    (h : nextNonNopToken c = .ok (token, d)) :
    4 ≤ d.bytes.length ∧ d.bytes.length ≤ c.bytes.length := by
  induction c using nextNonNopToken.induct with
  | case1 c e he =>
      rw [nextNonNopToken_eq, he] at h
      cases h
  | case2 c token' hread hne =>
      rw [nextNonNopToken_eq, hread, except_ok_bind, if_pos hne] at h
      cases h
      exact ⟨Cursor.readBe32_ok hread, le_rfl⟩
  | case3 c token' hread hne ih =>
      rw [nextNonNopToken_eq, hread, except_ok_bind, if_neg hne] at h
      have hih := ih h
      simp only [Cursor.skip_bytes, List.length_drop] at hih
      omega

/-- The pointer behind a property with a value of `len` bytes, from its token on. -/
def Cursor.skipProp (c : Cursor) (len : Nat) : Cursor :=
  ((c.skip 4).skip 8).skip (nextMultipleOf len 4)

theorem Cursor.skipProp_length (c : Cursor) (len : Nat) :
    (c.skipProp len).bytes.length ≤ c.bytes.length - 4 := by
  simp only [Cursor.skipProp, Cursor.skip_bytes, List.length_drop]
  omega

/-- `next_non_nop_token_without_props`, with the pointer to the token it returns. -/
def nextNonNopTokenWithoutProps (c : Cursor) : Except Fault (Nat × Cursor) :=
  match _h : nextNonNopToken c with
  | .error e => .error e
  | .ok (token, d) =>
      if token ≠ fdtProp then .ok (token, d)
      else
        match (d.skip 4).readBe32 with
        | .error e => .error e
        | .ok valueLen =>
            if (d.skipProp valueLen).isAligned then
              nextNonNopTokenWithoutProps (d.skipProp valueLen)
            else .error .assertion
termination_by c.bytes.length
decreasing_by
  have hlen := nextNonNopToken_length _h
  have hskip := d.skipProp_length valueLen
  omega

theorem nextNonNopTokenWithoutProps_eq (c : Cursor) :
    nextNonNopTokenWithoutProps c = (do
      let (token, d) ← nextNonNopToken c
      if token ≠ fdtProp then .ok (token, d)
      else
        let valueLen ← (d.skip 4).readBe32
        if (d.skipProp valueLen).isAligned then nextNonNopTokenWithoutProps (d.skipProp valueLen)
        else .error .assertion) := by
  rw [nextNonNopTokenWithoutProps]
  split <;> rename_i h <;> simp only [h, except_ok_bind, except_error_bind]
  congr 1
  split <;> rename_i h' <;> simp only [h', except_ok_bind, except_error_bind]

theorem nextNonNopTokenWithoutProps_length {c d : Cursor} {token : Nat}
    (h : nextNonNopTokenWithoutProps c = .ok (token, d)) :
    4 ≤ d.bytes.length ∧ d.bytes.length ≤ c.bytes.length := by
  induction c using nextNonNopTokenWithoutProps.induct with
  | case1 c e he =>
      rw [nextNonNopTokenWithoutProps_eq, he] at h
      cases h
  | case2 c token' d' hnext hne =>
      simp only [nextNonNopTokenWithoutProps_eq c, hnext, except_ok_bind, if_pos hne] at h
      cases h
      exact nextNonNopToken_length hnext
  | case3 c token' d' hnext hne e he =>
      simp only [nextNonNopTokenWithoutProps_eq c, hnext, except_ok_bind, if_neg hne, he] at h
      cases h
  | case4 c token' d' hnext hne valueLen hread hal ih =>
      simp only [nextNonNopTokenWithoutProps_eq c, hnext, except_ok_bind, if_neg hne, hread,
        if_pos hal] at h
      have hlen := nextNonNopToken_length hnext
      have hskip := d'.skipProp_length valueLen
      have hih := ih h
      omega
  | case5 c token' d' hnext hne valueLen hread hal =>
      simp only [nextNonNopTokenWithoutProps_eq c, hnext, except_ok_bind, if_neg hne, hread,
        if_neg hal] at h
      cases h

/-- The property at a `FDT_PROP` token, and the pointer behind it. -/
def readProp (stringsBlock c : Cursor) : Except Fault (RawProp × Cursor) := do
  let valueLen ← (c.skip 4).readBe32
  if (c.skipProp valueLen).isAligned then
    let nameOffset ← ((c.skip 4).skip 4).readBe32
    match str? (← (stringsBlock.skip nameOffset).readCStr) with
    | none => .error .unwrap
    | some name =>
        let value ← ((c.skip 4).skip 8).slice valueLen
        return (⟨name, value, ((c.skip 4).skip 8).addr⟩, c.skipProp valueLen)
  else .error .assertion

theorem readProp_length {stringsBlock c d : Cursor} {prop : RawProp}
    (h : readProp stringsBlock c = .ok (prop, d)) : d.bytes.length ≤ c.bytes.length - 4 := by
  simp only [readProp, except_bind_eq_ok] at h
  obtain ⟨valueLen, -, h⟩ := h
  split at h
  · simp only [except_bind_eq_ok] at h
    obtain ⟨nameOffset, -, name, -, h⟩ := h
    split at h
    · cases h
    · simp only [except_bind_eq_ok] at h
      obtain ⟨value, -, h⟩ := h
      cases h
      exact c.skipProp_length valueLen
  · cases h

namespace StructureBlockIter

/-- The iterator at the start of a block. -/
def new (token stringsBlock : Cursor) : StructureBlockIter :=
  ⟨stringsBlock, token, 0, false⟩

/-- An iterator that leaves the properties out. -/
def newWithoutProps (token stringsBlock : Cursor) : StructureBlockIter :=
  ⟨stringsBlock, token, 0, true⟩

/-- The number of words of the name behind the token, unless it is over 13. -/
def namePartsCount (token : Cursor) (count : Nat) : Except Fault (Option Nat) :=
  match (token.skip (4 * count)).readLe32 with
  | .error e => .error e
  | .ok namePart =>
      if namePart ≤ 0x00FFFFFF then .ok (some count)
      else if count + 1 > 13 then .ok none
      else namePartsCount token (count + 1)
termination_by 13 - count

/-- What an iterator returns: its next item and its next state. -/
abbrev Next := Option (Except Unit StructureBlockEntry) × StructureBlockIter

/-- The branch for `FDT_BEGIN_NODE`. The assignments to the children pointer
ahead of the second look are overwritten by it. -/
def nextBeginNode (s : StructureBlockIter) (c : Cursor) : Except Fault Next := do
  match str? (← (c.skip 4).readCStr) with
  | none => return (none, { s with token := c })
  | some name =>
      match ← namePartsCount c 1 with
      | none => return (some (.error ()), { s with token := .null, prevToken := fdtBeginNode })
      | some count =>
          let (nextToken, d) ← nextNonNopToken (c.skip (4 * (1 + count)))
          let propsPtr := if nextToken = fdtProp then d else .null
          let (nextWithoutProps, ptr) ← nextNonNopTokenWithoutProps d
          let childrenPtr := if nextWithoutProps = fdtBeginNode then ptr else .null
          return (some (.ok (.beginNode ⟨name, propsPtr, childrenPtr⟩)),
            { s with token := d, prevToken := fdtBeginNode })

/-- The branch for `FDT_PROP`. -/
def nextProp (s : StructureBlockIter) (c : Cursor) : Except Fault Next := do
  if s.prevToken = fdtEndNode then
    return (some (.error ()), { s with token := .null, prevToken := fdtProp })
  else
    let (prop, d) ← readProp s.stringsBlock c
    return (some (.ok (.prop prop)), { s with token := d, prevToken := fdtProp })

/-- The branch for `FDT_END`. -/
def nextEnd (s : StructureBlockIter) : Next :=
  let t := { s with token := .null, prevToken := fdtEnd }
  if s.prevToken = fdtBeginNode ∨ s.prevToken = fdtProp then (some (.error ()), t) else (none, t)

/-- The branches of `next`, at the token it has read. -/
def nextToken (s : StructureBlockIter) (token : Nat) (c : Cursor) : Except Fault Next :=
  if token = fdtBeginNode then s.nextBeginNode c
  else if token = fdtEndNode then
    .ok (some (.ok .endNode), { s with token := c.skip 4, prevToken := fdtEndNode })
  else if token = fdtProp then s.nextProp c
  else if token = fdtEnd then .ok s.nextEnd
  else .ok (some (.error ()), { s with token := .null, prevToken := token })

/-- The token `next` works on, and the pointer to it. -/
def readToken (s : StructureBlockIter) : Except Fault (Nat × Cursor) :=
  if s.skipProps then nextNonNopTokenWithoutProps s.token else nextNonNopToken s.token

/-- `next`. -/
def next (s : StructureBlockIter) : Except Fault Next :=
  if s.prevToken = fdtEnd ∨ s.token.isNull then .ok (none, s)
  else do
    let (token, c) ← s.readToken
    s.nextToken token c

variable {s t : StructureBlockIter} {c : Cursor} {entry : Except Unit StructureBlockEntry}

theorem nextBeginNode_length (hc : 4 ≤ c.bytes.length)
    (h : s.nextBeginNode c = .ok (some entry, t)) :
    t.token.bytes.length < c.bytes.length := by
  simp only [nextBeginNode, except_bind_eq_ok] at h
  obtain ⟨name, -, h⟩ := h
  cases hname : str? name with
  | none =>
      rw [hname] at h
      cases h
  | some name =>
      rw [hname] at h
      simp only [except_bind_eq_ok] at h
      obtain ⟨count, -, h⟩ := h
      cases count with
      | none =>
          cases h
          simp only [Cursor.null, List.length_nil]
          omega
      | some count =>
          simp only [except_bind_eq_ok] at h
          obtain ⟨⟨token, d⟩, hd, ⟨token', ptr⟩, -, h⟩ := h
          cases h
          have hlen := (nextNonNopToken_length hd).2
          simp only [Cursor.skip_bytes, List.length_drop] at hlen ⊢
          omega

theorem nextProp_length (hc : 4 ≤ c.bytes.length) (h : s.nextProp c = .ok (some entry, t)) :
    t.token.bytes.length < c.bytes.length := by
  simp only [nextProp] at h
  split at h
  · cases h
    simp only [Cursor.null, List.length_nil]
    omega
  · obtain ⟨⟨prop, d⟩, hread, h⟩ := except_bind_eq_ok.mp h
    cases h
    have hlen := readProp_length hread
    simp only
    omega

/-- Each item takes a token off the block. -/
theorem next_length (h : s.next = .ok (some entry, t)) :
    t.token.bytes.length < s.token.bytes.length := by
  simp only [next] at h
  split at h
  · cases h
  · obtain ⟨⟨token, c⟩, hc, h⟩ := except_bind_eq_ok.mp h
    have hlen : 4 ≤ c.bytes.length ∧ c.bytes.length ≤ s.token.bytes.length := by
      simp only [readToken] at hc
      split at hc
      · exact nextNonNopTokenWithoutProps_length hc
      · exact nextNonNopToken_length hc
    refine Nat.lt_of_lt_of_le ?_ hlen.2
    simp only [nextToken] at h
    split_ifs at h
    · exact nextBeginNode_length hlen.1 h
    · cases h
      simp only [Cursor.skip_bytes, List.length_drop]
      omega
    · exact nextProp_length hlen.1 h
    · simp only [nextEnd] at h
      split at h <;> cases h
      simp only [Cursor.null, List.length_nil]
      omega
    · cases h
      simp only [Cursor.null, List.length_nil]
      omega

/-- `impl Iterator`. -/
def iter : Iter Fault StructureBlockIter (Except Unit StructureBlockEntry) where
  next := next
  size s := s.token.bytes.length
  size_lt := next_length

end StructureBlockIter

end Kruspix.Kernel.Devicetree
