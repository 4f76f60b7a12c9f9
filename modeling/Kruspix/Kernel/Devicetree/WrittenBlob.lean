import Kruspix.Kernel.Devicetree.Blob

/-!
# Blobs that are written

A tree and the reserved memory are written down as the header, the entries of the reservation
block, the structure block and the names of the properties, one behind the other. The result
is a blob that encodes them.
-/

namespace Kruspix.Kernel.Devicetree

open Lib.Bytes

/-- The block of strings: the names, each with a zero byte. -/
def stringsBytes (names : List String) : List UInt8 :=
  names.flatMap fun name => strBytes name ++ [0]

/-- The offset of a name in the block of strings. -/
def nameOffset (name : String) : List String → Nat
  | [] => 0
  | n :: names => if n = name then 0 else (strBytes n).length + 1 + nameOffset name names

namespace Token

/-- The bytes of a token. -/
def bytes (names : List String) : Token → List UInt8
  | beginNode name => beginNodeBytes name
  | endNode => be32Bytes fdtEndNode
  | prop p => propBytes (nameOffset p.name names) p.value
  | finish => be32Bytes fdtEnd

/-- A node has a name without a zero byte, and a property one of the names and its value at
the place where the block puts it. -/
def Writable (names : List String) (addr : Nat) : Token → Prop
  | beginNode name => 0 ∉ strBytes name
  | prop p => p.name ∈ names ∧ p.value.length < 2 ^ 32 ∧ p.addr = addr + 12
  | endNode => True
  | finish => True

instance (names : List String) (addr : Nat) : DecidablePred (Writable names addr)
  | beginNode name => inferInstanceAs (Decidable (0 ∉ strBytes name))
  | prop p => inferInstanceAs
      (Decidable (p.name ∈ names ∧ p.value.length < 2 ^ 32 ∧ p.addr = addr + 12))
  | endNode => isTrue trivial
  | finish => isTrue trivial

/-- The tokens can be written one behind the other from the address on. -/
def WritableBlock (names : List String) : Nat → List Token → Prop
  | _, [] => True
  | addr, token :: tokens => token.Writable names addr ∧
      WritableBlock names (addr + (token.bytes names).length) tokens

instance decidableWritableBlock (names : List String) :
    (addr : Nat) → (tokens : List Token) → Decidable (WritableBlock names addr tokens)
  | _, [] => isTrue trivial
  | addr, token :: tokens =>
      have := decidableWritableBlock names (addr + (token.bytes names).length) tokens
      inferInstanceAs (Decidable (_ ∧ _))

end Token

/-- What a blob is to say, and where it is to be. -/
structure Content where
  address : Nat
  names : List String
  reservations : List (Nat × Nat)
  tree : FdtTree

namespace Content

variable (content : Content)

/-- The tokens of the structure block. -/
def tokens : List Token := content.tree.events.map Event.token ++ [.finish]

/-- The memory reservation block with its last, empty entry. -/
def reservationBlock : List UInt8 :=
  content.reservations.flatMap reservationBytes ++ reservationBytes (0, 0)

/-- The bytes of the structure block. -/
def block : List UInt8 := content.tokens.flatMap (Token.bytes content.names)

/-- The header of the blob: the blocks stand right behind each other. -/
def header : Header :=
  let offDtStruct := 40 + content.reservationBlock.length
  let offDtStrings := offDtStruct + content.block.length
  ⟨offDtStrings + (stringsBytes content.names).length, offDtStruct, offDtStrings, 40, 17, 16, 0,
    (stringsBytes content.names).length, content.block.length⟩

/-- The whole blob. -/
def fdt : Fdt :=
  ⟨⟨content.address, content.header.words.flatMap be32Bytes ++ (content.reservationBlock ++
    (content.block ++ stringsBytes content.names))⟩⟩

/-- The content fits into a blob. -/
structure Writable : Prop where
  address_pos : 0 < content.address
  aligned : 8 ∣ content.address
  names : ∀ name ∈ content.names, 0 ∉ strBytes name
  reservations : ∀ r ∈ content.reservations, r.1 < 2 ^ 64 ∧ r.2 < 2 ^ 64 ∧ r ≠ (0, 0)
  rootName : content.tree.name = ""
  short : content.tree.Short
  tokens : Token.WritableBlock content.names (content.address + content.header.offDtStruct)
    content.tokens
  totalSize : content.header.totalSize < 2 ^ 32

end Content

variable {content : Content} {names : List String} {name : String} {strings : Cursor}
  {addr : Nat} {token : Token} {tokens : List Token}

/-! ## Names -/

theorem nameOffset_le (h : name ∈ names) : nameOffset name names ≤ (stringsBytes names).length := by
  induction names with
  | nil => cases h
  | cons n names ih =>
      rw [nameOffset, stringsBytes, List.flatMap_cons, List.length_append, List.length_append,
        List.length_singleton]
      split
      · exact Nat.zero_le _
      · rename_i hne
        have hle := ih ((List.mem_cons.mp h).resolve_left fun heq => hne heq.symm)
        rw [stringsBytes] at hle
        omega

/-- The name stands at its offset, with a zero byte behind it. -/
theorem stringsBytes_drop (h : name ∈ names) :
    ∃ rest, (stringsBytes names).drop (nameOffset name names) = strBytes name ++ 0 :: rest := by
  induction names with
  | nil => cases h
  | cons n names ih =>
      rw [nameOffset, stringsBytes, List.flatMap_cons]
      split
      · rename_i heq
        rw [heq]
        exact ⟨_, by rw [List.drop_zero, List.append_assoc, List.singleton_append]⟩
      · rename_i hne
        obtain ⟨rest, hrest⟩ := ih ((List.mem_cons.mp h).resolve_left fun heq => hne heq.symm)
        refine ⟨rest, ?_⟩
        rw [← hrest, ← stringsBytes]
        have hlen : (strBytes n).length + 1 = (strBytes n ++ [0]).length := by
          rw [List.length_append, List.length_singleton]
        rw [hlen, List.drop_length_add_append]

theorem named_of_mem (haddr : 0 < strings.addr) (hbytes : strings.bytes = stringsBytes names)
    (hsize : (stringsBytes names).length < 2 ^ 32) (hnul : 0 ∉ strBytes name)
    (hname : name ∈ names) : Named strings (nameOffset name names) name where
  addr_pos := Nat.lt_of_lt_of_le haddr (Nat.le_add_right _ _)
  offset_lt := Nat.lt_of_le_of_lt (nameOffset_le hname) hsize
  nul_free := hnul
  bytes := by
    rw [Cursor.skip_bytes, hbytes]
    exact stringsBytes_drop hname

/-! ## The structure block -/

theorem Token.Writable.encodes (h : token.Writable names addr) (haddr : 0 < strings.addr)
    (hbytes : strings.bytes = stringsBytes names)
    (hsize : (stringsBytes names).length < 2 ^ 32) (hnames : ∀ name ∈ names, 0 ∉ strBytes name) :
    token.Encodes strings addr (token.bytes names) := by
  cases token with
  | beginNode name => exact .beginNode h
  | endNode => exact .endNode
  | prop p =>
      obtain ⟨hname, hvalue, hplace⟩ := h
      exact .prop hvalue hplace (named_of_mem haddr hbytes hsize (hnames _ hname) hname)
  | finish => exact .finish

theorem Token.WritableBlock.encodes (h : Token.WritableBlock names addr tokens)
    (haddr : 0 < strings.addr) (hbytes : strings.bytes = stringsBytes names)
    (hsize : (stringsBytes names).length < 2 ^ 32) (hnames : ∀ name ∈ names, 0 ∉ strBytes name) :
    EncodesBlock strings addr tokens (tokens.flatMap (Token.bytes names)) := by
  induction tokens generalizing addr with
  | nil => exact .nil
  | cons token tokens ih =>
      obtain ⟨htoken, htokens⟩ := h
      rw [List.flatMap_cons]
      exact .token (htoken.encodes haddr hbytes hsize hnames) (ih htokens)

/-! ## The blob -/

namespace Content

theorem length_header (content : Content) :
    (content.header.words.flatMap be32Bytes).length = 40 := rfl

theorem four_dvd_reservationBlock (content : Content) : 4 ∣ content.reservationBlock.length := by
  have hall : ∀ reservations : List (Nat × Nat),
      4 ∣ (reservations.flatMap reservationBytes).length := by
    intro reservations
    induction reservations with
    | nil => exact Nat.dvd_zero 4
    | cons r reservations ih =>
        rw [List.flatMap_cons, List.length_append]
        exact Nat.dvd_add ⟨4, rfl⟩ ih
  rw [reservationBlock, List.length_append]
  exact Nat.dvd_add (hall _) ⟨4, rfl⟩

theorem bytes_reservationBlock : (content.fdt.header.skip 40).bytes =
    content.reservationBlock ++ (content.block ++ stringsBytes content.names) := by
  rw [Cursor.skip_bytes, fdt, ← length_header content, List.drop_left]

theorem bytes_block : (content.fdt.header.skip content.header.offDtStruct).bytes =
    content.block ++ stringsBytes content.names := by
  have hskip : content.fdt.header.skip content.header.offDtStruct =
      (content.fdt.header.skip 40).skip content.reservationBlock.length := by
    rw [Cursor.skip_skip]
    rfl
  rw [hskip, Cursor.skip_bytes, bytes_reservationBlock, List.drop_left]

theorem bytes_strings : (content.fdt.header.skip content.header.offDtStrings).bytes =
    stringsBytes content.names := by
  have hskip : content.fdt.header.skip content.header.offDtStrings =
      (content.fdt.header.skip content.header.offDtStruct).skip content.block.length := by
    rw [Cursor.skip_skip]
    rfl
  rw [hskip, Cursor.skip_bytes, bytes_block, List.drop_left]

/-- A content that fits is encoded by the blob that is written. -/
theorem Writable.encodes (h : content.Writable) :
    content.fdt.Encodes content.header content.tree content.reservations where
  aligned := h.aligned
  aligned_rsvmap := ⟨5, rfl⟩
  header := ⟨_, rfl⟩
  words_lt := by
    have htotal := h.totalSize
    simp only [Content.header] at htotal
    simp only [Header.words, Content.header, List.forall_mem_cons]
    refine ⟨by decide, htotal, by omega, by omega, by decide, by decide, by decide, by decide,
      by omega, by omega, ?_⟩
    intro word hword
    cases hword
  rootName := h.rootName
  short := h.short
  structureBlock := by
    have htotal := h.totalSize
    simp only [Content.header] at htotal
    have hpos := h.address_pos
    refine ⟨content.block, stringsBytes content.names, ?_, ⟨?_, ?_, bytes_block⟩, rfl⟩
    · apply h.tokens.encodes _ bytes_strings (by omega) h.names
      exact Nat.lt_of_lt_of_le hpos (Nat.le_add_right _ _)
    · exact Nat.lt_of_lt_of_le hpos (Nat.le_add_right _ _)
    · exact Nat.dvd_add (Nat.dvd_trans ⟨2, rfl⟩ h.aligned)
        (Nat.dvd_add ⟨10, rfl⟩ (four_dvd_reservationBlock content))
  memoryReservationBlock := by
    refine ⟨content.block ++ stringsBytes content.names, ?_, ?_, ?_⟩
    · exact Nat.lt_of_lt_of_le h.address_pos (Nat.le_add_right _ _)
    · exact Nat.dvd_add (Nat.dvd_trans ⟨2, rfl⟩ h.aligned) ⟨10, rfl⟩
    · rw [← List.append_assoc]
      exact bytes_reservationBlock
  reservations_lt := h.reservations

end Content

end Kruspix.Kernel.Devicetree
