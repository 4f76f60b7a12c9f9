import Kruspix.Kernel.Devicetree.Fdt

/-!
# Device trees and their flattened form

A tree is written down as the begin of its root, its properties, its children and its
end. A structure block encodes a list of tokens, with no-operation tokens anywhere
between them. Each value of the tree is given with the address where the block puts it,
as a double word is not read everywhere.
-/

namespace Kruspix.Kernel.Devicetree

open Lib.Alignment Lib.Bytes Lib.Result

/-- A device tree, as it is written down. -/
inductive FdtTree
  | node (name : String) (props : List RawProp) (children : List FdtTree)

/-- The tokens of the structure block, but for NOP. -/
inductive Token
  | beginNode (name : String)
  | endNode
  | prop (prop : RawProp)
  | finish
  deriving DecidableEq

/-- The begin of a tree, one of its properties, or its end. -/
inductive Event
  | beginNode (tree : FdtTree)
  | prop (prop : RawProp)
  | endNode

namespace FdtTree

/-- The name of the node. -/
def name : FdtTree → String
  | node name _ _ => name

/-- The properties of the node itself. -/
def props : FdtTree → List RawProp
  | node _ props _ => props

/-- The children of the node. -/
def children : FdtTree → List FdtTree
  | node _ _ children => children

end FdtTree

/-- The word that starts a token. -/
def Token.word : Token → Nat
  | .beginNode _ => fdtBeginNode
  | .endNode => fdtEndNode
  | .prop _ => fdtProp
  | .finish => fdtEnd

/-- The token of an event. -/
def Event.token : Event → Token
  | .beginNode tree => .beginNode tree.name
  | .prop p => .prop p
  | .endNode => .endNode

namespace FdtTree

mutual

/-- The events of a tree, in order. -/
def events : FdtTree → List Event
  | node name props children =>
      .beginNode (node name props children) ::
        (props.map .prop ++ (eventsList children ++ [.endNode]))

/-- The events of trees one after the other. -/
def eventsList : List FdtTree → List Event
  | [] => []
  | tree :: trees => tree.events ++ eventsList trees

end

mutual

theorem induction_on {P : FdtTree → Prop}
    (h : ∀ tree : FdtTree, (∀ child ∈ tree.children, P child) → P tree) (tree : FdtTree) :
    P tree := by
  cases tree with
  | node name props children => exact h _ (inductionList h children)

theorem inductionList {P : FdtTree → Prop}
    (h : ∀ tree : FdtTree, (∀ child ∈ tree.children, P child) → P tree) (trees : List FdtTree) :
    ∀ tree ∈ trees, P tree := by
  cases trees with
  | nil => exact fun _ hmem => absurd hmem List.not_mem_nil
  | cons tree trees =>
      intro t ht
      rcases List.mem_cons.mp ht with heq | ht
      · exact heq ▸ induction_on h tree
      · exact inductionList h trees t ht

end

mutual

/-- The iterator accepts the names of the nodes: none has more than 51 bytes. -/
def Short : FdtTree → Prop
  | node name _ children => (strBytes name).length ≤ 51 ∧ ShortList children

/-- All trees are short. -/
def ShortList : List FdtTree → Prop
  | [] => True
  | tree :: trees => Short tree ∧ ShortList trees

end

theorem shortList_iff {trees : List FdtTree} : ShortList trees ↔ ∀ tree ∈ trees, tree.Short := by
  induction trees with
  | nil => simp [ShortList]
  | cons tree trees ih => rw [ShortList, ih, List.forall_mem_cons]

theorem short_iff {tree : FdtTree} :
    tree.Short ↔ (strBytes tree.name).length ≤ 51 ∧ ∀ child ∈ tree.children, child.Short := by
  cases tree with
  | node name props children => rw [Short, shortList_iff, FdtTree.name, FdtTree.children]

/-- What follows the begin of the tree, up to its end. -/
def childEvents (tree : FdtTree) : List Event := eventsList tree.children ++ [.endNode]

theorem events_eq (tree : FdtTree) :
    tree.events = .beginNode tree :: (tree.props.map .prop ++ tree.childEvents) := by
  cases tree with
  | node name ps ts => rw [events, childEvents, FdtTree.props, FdtTree.children]

end FdtTree

/-! ## Encodings -/

/-- The strings block has this name at this offset. -/
structure Named (strings : Cursor) (offset : Nat) (name : String) : Prop where
  addr_pos : 0 < strings.addr + offset
  offset_lt : offset < 2 ^ 32
  nul_free : 0 ∉ strBytes name
  bytes : ∃ rest, (strings.skip offset).bytes = strBytes name ++ 0 :: rest

/-- The bytes from the address on encode the token. The value of a property stands behind
its token, its length and the offset of its name. -/
inductive Token.Encodes (strings : Cursor) (addr : Nat) : Token → List UInt8 → Prop
  | beginNode {name : String} (hnul : 0 ∉ strBytes name) :
      Encodes strings addr (.beginNode name) (be32Bytes fdtBeginNode ++
        (strBytes name ++ 0 :: pad ((strBytes name).length + 1)))
  | endNode : Encodes strings addr .endNode (be32Bytes fdtEndNode)
  | prop {prop : RawProp} {offset : Nat} (hvalue : prop.value.length < 2 ^ 32)
      (haddr : prop.addr = addr + 12) (hname : Named strings offset prop.name) :
      Encodes strings addr (.prop prop) (be32Bytes fdtProp ++ (be32Bytes prop.value.length ++
        (be32Bytes offset ++ (prop.value ++ pad prop.value.length))))
  | finish : Encodes strings addr .finish (be32Bytes fdtEnd)

/-- The bytes from the address on encode the tokens, with any number of no-operation tokens
before each. -/
inductive EncodesBlock (strings : Cursor) : Nat → List Token → List UInt8 → Prop
  | nil {addr : Nat} : EncodesBlock strings addr [] []
  | nop {addr : Nat} {tokens : List Token} {bytes : List UInt8}
      (h : EncodesBlock strings (addr + 4) tokens bytes) :
      EncodesBlock strings addr tokens (be32Bytes fdtNop ++ bytes)
  | token {addr : Nat} {token : Token} {tokens : List Token} {bytes bytes' : List UInt8}
      (htoken : token.Encodes strings addr bytes)
      (h : EncodesBlock strings (addr + bytes.length) tokens bytes') :
      EncodesBlock strings addr (token :: tokens) (bytes ++ bytes')

/-- From here on the block spells the tokens. -/
def Spells (strings c : Cursor) (tokens : List Token) : Prop :=
  ∃ bytes rest, EncodesBlock strings c.addr tokens bytes ∧ c.Points (bytes ++ rest)

/-- The cursor is at a token, and the block goes on with others. -/
def Stands (strings c : Cursor) (token : Token) (tokens : List Token) : Prop :=
  ∃ bytes rest, token.Encodes strings c.addr bytes ∧ c.Points (bytes ++ rest) ∧
    Spells strings (c.skip bytes.length) tokens

variable {strings c d : Cursor} {addr : Nat} {token : Token} {tokens : List Token}
  {bytes : List UInt8}

theorem Token.Encodes.four_dvd (h : token.Encodes strings addr bytes) : 4 ∣ bytes.length := by
  cases h with
  | beginNode =>
      rename_i name hnul
      have hpad := pad_length ((strBytes name).length + 1)
      have hdvd := (nextMultipleOf_spec ((strBytes name).length + 1) (show 0 < 4 by decide)).1
      simp only [List.length_append, be32Bytes_length, List.length_cons]
      omega
  | endNode => exact Nat.dvd_refl 4
  | prop =>
      rename_i prop offset hvalue haddr hname
      have hpad := pad_length prop.value.length
      have hdvd := (nextMultipleOf_spec prop.value.length (show 0 < 4 by decide)).1
      simp only [List.length_append, be32Bytes_length]
      omega
  | finish => exact Nat.dvd_refl 4

theorem Stands.spells (h : Stands strings c token tokens) : Spells strings c (token :: tokens) := by
  obtain ⟨bytes, rest, htoken, hpoints, bytes', rest', htokens, hpoints'⟩ := h
  have hrest : rest = bytes' ++ rest' := by
    rw [← hpoints'.bytes, Cursor.skip_bytes, hpoints.bytes, List.drop_left]
  refine ⟨bytes ++ bytes', rest', .token htoken htokens, ?_⟩
  rw [List.append_assoc, ← hrest]
  exact hpoints

/-- Every token starts with its word. -/
theorem Token.Encodes.word_append (h : token.Encodes strings addr bytes) :
    ∃ bytes', bytes = be32Bytes token.word ++ bytes' := by
  cases h with
  | beginNode => exact ⟨_, rfl⟩
  | endNode => exact ⟨[], rfl⟩
  | prop => exact ⟨_, rfl⟩
  | finish => exact ⟨[], rfl⟩

theorem Token.word_lt (token : Token) : token.word < 2 ^ 32 := by
  cases token <;> simp only [word] <;> decide

theorem Token.word_ne_nop (token : Token) : token.word ≠ fdtNop := by
  cases token <;> simp only [word] <;> decide

theorem Stands.readBe32 (h : Stands strings c token tokens) : c.readBe32 = .ok token.word := by
  obtain ⟨bytes, rest, htoken, hpoints, -⟩ := h
  obtain ⟨bytes', rfl⟩ := htoken.word_append
  rw [List.append_assoc] at hpoints
  exact hpoints.readBe32 token.word_lt

/-- What passes over no-operation tokens goes on at the next other token. -/
theorem Spells.exists_stands {α : Type} {f : Cursor → α}
    (hnop : ∀ c, c.readBe32 = .ok fdtNop → f c = f (c.skip 4))
    (h : Spells strings c (token :: tokens)) :
    ∃ d, Stands strings d token tokens ∧ f c = f d := by
  obtain ⟨bytes, rest, henc, hpoints⟩ := h
  generalize htokens : token :: tokens = l at henc
  generalize haddr : c.addr = addr at henc
  induction henc generalizing c with
  | nil => cases htokens
  | nop henc ih =>
      rw [List.append_assoc] at hpoints
      obtain ⟨d, hstands, hd⟩ := ih (hpoints.skip ⟨1, rfl⟩) htokens (haddr ▸ rfl)
      exact ⟨d, hstands, (hnop c (hpoints.readBe32 (by decide))).trans hd⟩
  | @token _ t ts bytes bytes' htoken henc ih =>
      cases htokens
      subst haddr
      rw [List.append_assoc] at hpoints
      exact ⟨c, ⟨bytes, _, htoken, hpoints, bytes', rest, henc, hpoints.skip htoken.four_dvd⟩, rfl⟩

/-- The next token is found behind the no-operation tokens. -/
theorem Spells.nextNonNopToken (h : Spells strings c (token :: tokens)) :
    ∃ d, Devicetree.nextNonNopToken c = .ok (token.word, d) ∧ Stands strings d token tokens := by
  obtain ⟨d, hstands, hd⟩ := @Spells.exists_stands _ _ _ _ _ Devicetree.nextNonNopToken
    (fun c hc => by rw [nextNonNopToken_eq, hc, except_ok_bind, if_neg (by decide)]) h
  refine ⟨d, hd.trans ?_, hstands⟩
  rw [nextNonNopToken_eq, hstands.readBe32, except_ok_bind, if_pos token.word_ne_nop]

/-! ## Properties -/

variable {p : RawProp}

/-- The fields of a property behind its token. -/
theorem Stands.prop_fields (h : Stands strings c (.prop p) tokens) :
    (c.skip 4).readBe32 = .ok p.value.length ∧ (c.skipProp p.value.length).isAligned = true ∧
      Spells strings (c.skipProp p.value.length) tokens ∧
      readProp strings c = .ok (p, c.skipProp p.value.length) := by
  obtain ⟨bytes, rest, htoken, hpoints, hspells⟩ := h
  cases htoken
  rename_i offset hvalue haddr hname
  obtain ⟨rest', hrest'⟩ := hname.bytes
  have hskip : c.skipProp p.value.length = c.skip (be32Bytes fdtProp ++
      (be32Bytes p.value.length ++ (be32Bytes offset ++
        (p.value ++ pad p.value.length)))).length := by
    have hpad := pad_length p.value.length
    simp only [Cursor.skipProp, Cursor.skip_skip, List.length_append, be32Bytes_length]
    congr 1
    omega
  have hbehind : Spells strings (c.skipProp p.value.length) tokens := by
    rw [hskip]
    exact hspells
  have haligned : (c.skipProp p.value.length).isAligned = true := by
    obtain ⟨_, _, _, hpoints'⟩ := hbehind
    exact hpoints'.isAligned
  simp only [List.append_assoc] at hpoints
  have hlen : (c.skip 4).Points _ := hpoints.skip ⟨1, rfl⟩
  have hoffset : ((c.skip 4).skip 4).Points _ := hlen.skip ⟨1, rfl⟩
  have hbytes : ((c.skip 4).skip 8).Points (p.value ++ (pad p.value.length ++ rest)) := by
    have hpoints' := hoffset.skip ⟨1, rfl⟩
    rw [Cursor.skip_skip] at hpoints'
    exact hpoints'
  have hread : (strings.skip offset).readCStr = .ok (strBytes p.name) := by
    rw [Cursor.readCStr, hrest', cStr?_append hname.nul_free]
    have hpos := hname.addr_pos
    rw [if_neg]
    simp only [Cursor.isNull, Cursor.skip_addr, beq_iff_eq]
    omega
  refine ⟨hlen.readBe32 hvalue, haligned, hbehind, ?_⟩
  rw [readProp, hlen.readBe32 hvalue, except_ok_bind, if_pos haligned,
    hoffset.readBe32 hname.offset_lt, except_ok_bind, hread, except_ok_bind, str?_strBytes]
  simp only [hbytes.slice, except_ok_bind, except_pure, Cursor.skip_addr, ← haddr]

/-- The next token that is not a property is found behind the properties. -/
theorem Spells.nextNonNopTokenWithoutProps {props : List RawProp} (hne : token.word ≠ fdtProp)
    (h : Spells strings c (props.map .prop ++ token :: tokens)) :
    ∃ d, Devicetree.nextNonNopTokenWithoutProps c = .ok (token.word, d) ∧
      Stands strings d token tokens := by
  induction props generalizing c with
  | nil =>
      obtain ⟨d, hd, hstands⟩ := Spells.nextNonNopToken h
      refine ⟨d, ?_, hstands⟩
      rw [nextNonNopTokenWithoutProps_eq, hd, except_ok_bind]
      exact if_pos hne
  | cons p props ih =>
      obtain ⟨d, hd, hstands⟩ := Spells.nextNonNopToken h
      obtain ⟨hlen, haligned, hspells, -⟩ := hstands.prop_fields
      obtain ⟨e, he, hstands'⟩ := ih hspells
      refine ⟨e, ?_, hstands'⟩
      rw [nextNonNopTokenWithoutProps_eq, hd, except_ok_bind]
      simp only [Token.word, hlen, except_ok_bind, haligned, if_true, ne_eq, not_true_eq_false,
        if_false]
      exact he

/-! ## Names -/

/-- The word at an aligned pointer is small if its last byte is zero. -/
theorem Cursor.readLe32_le {c : Cursor} {b : UInt8} (haddr : 0 < c.addr)
    (hb : c.bytes[3]? = some b) : ∃ n, c.readLe32 = .ok n ∧ (n ≤ 0x00FFFFFF ↔ b = 0) := by
  have hnull : c.isNull = false := by
    simp only [Cursor.isNull, beq_eq_false_iff_ne]
    omega
  obtain ⟨addr, _ | ⟨b0, _ | ⟨b1, _ | ⟨b2, _ | ⟨b3, rest⟩⟩⟩⟩⟩ := c
  · cases hb
  · cases hb
  · cases hb
  · cases hb
  · simp only [List.getElem?_cons_succ, List.getElem?_cons_zero, Option.some.injEq] at hb
    subst hb
    refine ⟨be32 b3 b2 b1 b0, ?_, ?_⟩
    · simp only [Cursor.readLe32, hnull]
      rfl
    · have h0 := b0.toNat_lt
      have h1 := b1.toNat_lt
      have h2 := b2.toNat_lt
      rw [← UInt8.toNat_inj]
      simp only [be32, UInt8.toNat_zero]
      omega

/-- The last byte of a word of a name: not zero, unless the name ends in the word. -/
theorem name_getElem? {name : List UInt8} {i : Nat} (hnul : 0 ∉ name)
    (hi : i ≤ name.length / 4) (rest : List UInt8) :
    ∃ b, (name ++ 0 :: (pad (name.length + 1) ++ rest))[4 * i + 3]? = some b ∧
      (b = 0 ↔ i = name.length / 4) := by
  have hpad := pad_length (name.length + 1)
  simp only [nextMultipleOf] at hpad
  rcases Nat.lt_or_eq_of_le hi with hlt | rfl
  · have hi' : 4 * i + 3 < name.length := by omega
    refine ⟨name[4 * i + 3], ?_, ?_⟩
    · rw [List.getElem?_append_left hi', List.getElem?_eq_getElem hi']
    · constructor
      · intro hzero
        exact absurd (hzero ▸ List.getElem_mem hi') hnul
      · intro heq
        omega
  · refine ⟨0, ?_, by simp⟩
    have hzeros : (0 :: (pad (name.length + 1) ++ rest) : List UInt8) =
        List.replicate ((pad (name.length + 1)).length + 1) 0 ++ rest := by
      rw [List.replicate_succ, List.cons_append, pad, List.length_replicate]
    rw [List.getElem?_append_right (by omega), hzeros, List.getElem?_append_left
      (by rw [List.length_replicate]; omega), List.getElem?_replicate, if_pos (by omega)]

/-- A word of a name is small if it is the last one. -/
theorem readLe32_name {name rest : List UInt8} {count : Nat}
    (hpoints : c.Points (be32Bytes fdtBeginNode ++ (name ++ 0 :: (pad (name.length + 1) ++ rest))))
    (hnul : 0 ∉ name) (hpos : 0 < count) (hcount : count ≤ name.length / 4 + 1) :
    ∃ n, (c.skip (4 * count)).readLe32 = .ok n ∧
      (n ≤ 0x00FFFFFF ↔ count = name.length / 4 + 1) := by
  obtain ⟨b, hb, hzero⟩ := name_getElem? (i := count - 1) hnul (by omega) rest
  have hbyte : (c.skip (4 * count)).bytes[3]? = some b := by
    rw [Cursor.skip_bytes, hpoints.bytes, List.getElem?_drop,
      List.getElem?_append_right (by rw [be32Bytes_length]; omega), be32Bytes_length, ← hb]
    congr 1
    omega
  have haddr := hpoints.addr_pos
  obtain ⟨n, hn, hle⟩ := Cursor.readLe32_le (by rw [Cursor.skip_addr]; omega) hbyte
  refine ⟨n, hn, ?_⟩
  rw [hle, hzero]
  omega

/-- A word of a name before the one with its zero byte is passed. -/
theorem namePartsCount_next {name rest : List UInt8} {count : Nat}
    (hpoints : c.Points (be32Bytes fdtBeginNode ++ (name ++ 0 :: (pad (name.length + 1) ++ rest))))
    (hnul : 0 ∉ name) (hpos : 0 < count) (hcount : count < name.length / 4 + 1) :
    StructureBlockIter.namePartsCount c count =
      if count + 1 > 13 then .ok none else StructureBlockIter.namePartsCount c (count + 1) := by
  obtain ⟨n, hn, hle⟩ := readLe32_name hpoints hnul hpos (by omega)
  have hmore : ¬n ≤ 0x00FFFFFF := fun hsmall => by
    have hlast := hle.mp hsmall
    omega
  rw [StructureBlockIter.namePartsCount, hn]
  simp only [if_neg hmore]

/-- The words of a name end with the one that holds its zero byte. -/
theorem namePartsCount_name {name rest : List UInt8} {count : Nat}
    (hpoints : c.Points (be32Bytes fdtBeginNode ++ (name ++ 0 :: (pad (name.length + 1) ++ rest))))
    (hnul : 0 ∉ name) (hlen : name.length ≤ 51) (hpos : 0 < count)
    (hcount : count ≤ name.length / 4 + 1) :
    StructureBlockIter.namePartsCount c count = .ok (some (name.length / 4 + 1)) := by
  induction hk : name.length / 4 + 1 - count generalizing count with
  | zero =>
      obtain ⟨n, hn, hle⟩ := readLe32_name hpoints hnul hpos hcount
      have hlast : count = name.length / 4 + 1 := by omega
      rw [StructureBlockIter.namePartsCount, hn]
      simp only [if_pos (hle.mpr hlast), hlast]
  | succ k ih =>
      rw [namePartsCount_next hpoints hnul hpos (by omega),
        if_neg (show ¬count + 1 > 13 by omega)]
      exact ih (Nat.succ_pos count) (by omega) (by omega)

/-- The words of a name of more than 51 bytes are too many. -/
theorem namePartsCount_long {name rest : List UInt8} {count : Nat}
    (hpoints : c.Points (be32Bytes fdtBeginNode ++ (name ++ 0 :: (pad (name.length + 1) ++ rest))))
    (hnul : 0 ∉ name) (hlen : 51 < name.length) (hpos : 0 < count) (hcount : count ≤ 13) :
    StructureBlockIter.namePartsCount c count = .ok none := by
  induction hk : 13 - count generalizing count with
  | zero =>
      rw [namePartsCount_next hpoints hnul hpos (by omega), if_pos (show count + 1 > 13 by omega)]
  | succ k ih =>
      rw [namePartsCount_next hpoints hnul hpos (by omega),
        if_neg (show ¬count + 1 > 13 by omega)]
      exact ih (Nat.succ_pos count) (by omega) (by omega)

/-- A name that is too long is read, but its words are not accepted. -/
theorem Stands.name_long {name : String} (h : Stands strings c (.beginNode name) tokens)
    (hlen : 51 < (strBytes name).length) :
    (c.skip 4).readCStr = .ok (strBytes name) ∧
      StructureBlockIter.namePartsCount c 1 = .ok none := by
  obtain ⟨bytes, rest, htoken, hpoints, -⟩ := h
  cases htoken
  rename_i hnul
  simp only [List.append_assoc, List.cons_append] at hpoints
  have hname : (c.skip 4).Points _ := hpoints.skip ⟨1, rfl⟩
  exact ⟨hname.readCStr hnul,
    namePartsCount_long hpoints hnul hlen (by decide) (by decide)⟩

/-- The name behind the begin of a node, and where the block goes on. -/
theorem Stands.name_fields {name : String} (h : Stands strings c (.beginNode name) tokens)
    (hlen : (strBytes name).length ≤ 51) :
    (c.skip 4).readCStr = .ok (strBytes name) ∧
      ∃ count, StructureBlockIter.namePartsCount c 1 = .ok (some count) ∧
        Spells strings (c.skip (4 * (1 + count))) tokens := by
  obtain ⟨bytes, rest, htoken, hpoints, hspells⟩ := h
  cases htoken
  rename_i hnul
  simp only [List.append_assoc, List.cons_append] at hpoints
  have hname : (c.skip 4).Points _ := hpoints.skip ⟨1, rfl⟩
  refine ⟨hname.readCStr hnul, _, namePartsCount_name hpoints hnul hlen (by decide) (by omega), ?_⟩
  have hskip : 4 * (1 + ((strBytes name).length / 4 + 1)) = (be32Bytes fdtBeginNode ++
      (strBytes name ++ 0 :: pad ((strBytes name).length + 1))).length := by
    have hpad := pad_length ((strBytes name).length + 1)
    simp only [nextMultipleOf] at hpad
    simp only [List.length_append, be32Bytes_length, List.length_cons]
    omega
  rw [hskip]
  exact hspells

end Kruspix.Kernel.Devicetree
