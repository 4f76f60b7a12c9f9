import Kruspix.Drivers.Mailbox
import Kruspix.Lib.ArrayWriter
import Mathlib.Algebra.GroupWithZero.Nat

/-!
# Messages of the property interface

A message is a sequence of tags, each with its value behind a header of three words, and a word
that ends them. The checks at compile time count one header, however many tags there are.
-/

namespace Kruspix.Drivers.PropertyMessage

open Lib.ArrayWriter
open Mailbox (Word)

def REQUEST_CODE : Word := 0x00000000#32
def END_TAG : Word := 0x00000000#32
def FRAMEBUFFER_SET_PHYSICAL_WIDTH_HEIGHT : Word := 0x00048003#32
def FRAMEBUFFER_SET_VIRTUAL_WIDTH_HEIGHT : Word := 0x00048004#32
def FRAMEBUFFER_SET_DEPTH : Word := 0x00048005#32
def FRAMEBUFFER_SET_PIXEL_ORDER : Word := 0x00048006#32
def FRAMEBUFFER_SET_OVERSCAN : Word := 0x0004800a#32
def FRAMEBUFFER_SET_VIRTUAL_OFFSET : Word := 0x00048009#32
def FRAMEBUFFER_ALLOCATE_BUFFER : Word := 0x00040001#32

/-- A tag with a value of `n` words. The size is in bytes, cut to 32 bits. -/
structure Tag (n : Nat) where
  identifier : Word
  valueBufferSize : Word
  reqResCode : Word
  valueBuffer : Vector Word n
  identifier_ne : identifier ≠ END_TAG
  valueBufferSize_eq : valueBufferSize = BitVec.ofNat 32 (n * 4)

namespace Tag

/-- An empty tag of a request. -/
def new {n : Nat} (identifier : Word) (h : identifier ≠ END_TAG) : Tag n where
  identifier := identifier
  valueBufferSize := BitVec.ofNat 32 (n * 4)
  reqResCode := REQUEST_CODE
  valueBuffer := .replicate n 0#32
  identifier_ne := h
  valueBufferSize_eq := rfl

/-- The value of a tag is filled in. -/
def withValue {n : Nat} (tag : Tag n) (value : Vector Word n) : Tag n :=
  { tag with valueBuffer := value }

end Tag

/-- A message: its size in bytes, the code, and the words of the tags. -/
structure Message (words : Nat) where
  size : Word
  reqResCode : Word
  data : Vector Word words
  deriving DecidableEq

/-- What `ConstChecks` asserts. For less than four words `WORDS - 4` does not compile. -/
def ConstChecks (n words : Nat) : Prop := 4 ≤ words ∧ n ≤ words - 4 ∧ (words + 2) % 16 = 0

/-- What is asserted for seven tags. -/
def CombinedChecks (n₁ n₂ n₃ n₄ n₅ n₆ n₇ words : Nat) : Prop :=
  ConstChecks 0 words ∧ n₁ + n₂ + n₃ + n₄ + n₅ + n₆ + n₇ ≤ words - 4

/-- A tag at the cursor. The source repeats these writes for each of the seven tags. -/
def writeTag {n words : Nat} (tag : Tag n) (c : Cursor Word words) :
    Option (Cursor Word words) := do
  let c ← put tag.identifier c
  let c ← put tag.valueBufferSize c
  let c ← put tag.reqResCode c
  puts tag.valueBuffer.toList c

namespace Message

variable {words n n₁ n₂ n₃ n₄ n₅ n₆ n₇ : Nat}

/-- A request with these words. -/
def ofData (data : Vector Word words) : Message words :=
  ⟨BitVec.ofNat 32 ((2 + words) * 4), REQUEST_CODE, data⟩

/-- `Message::new`. `none` is an index out of bounds. -/
def new (tag : Tag n) : Option (Message words) := do
  let data ← setAt (.replicate words 0#32) 0 tag.identifier
  let data ← setAt data 1 tag.valueBufferSize
  let data ← setAt data 2 tag.reqResCode
  let c ← puts tag.valueBuffer.toList ⟨data, 3⟩
  let data ← setAt c.data (3 + n) END_TAG
  return ofData data

/-- `Message::new_7`. `none` is an index out of bounds. -/
def new7 (tag₁ : Tag n₁) (tag₂ : Tag n₂) (tag₃ : Tag n₃) (tag₄ : Tag n₄) (tag₅ : Tag n₅)
    (tag₆ : Tag n₆) (tag₇ : Tag n₇) : Option (Message words) := do
  let c : Cursor Word words := ⟨.replicate words 0#32, 0⟩
  let c ← writeTag tag₁ c
  let c ← writeTag tag₂ c
  let c ← writeTag tag₃ c
  let c ← writeTag tag₄ c
  let c ← writeTag tag₅ c
  let c ← writeTag tag₆ c
  let c ← writeTag tag₇ c
  let c ← put END_TAG c
  return ofData c.data

/-- The request for a framebuffer, with its seven tags. -/
def newAllocateBuffer (width height depth : Word) : Option (Message 46) :=
  new7
    ((Tag.new FRAMEBUFFER_SET_PHYSICAL_WIDTH_HEIGHT (by decide)).withValue #v[width, height])
    ((Tag.new FRAMEBUFFER_SET_VIRTUAL_WIDTH_HEIGHT (by decide)).withValue #v[width, height])
    ((Tag.new FRAMEBUFFER_SET_DEPTH (by decide)).withValue #v[depth])
    -- the pixels are BGR
    ((Tag.new FRAMEBUFFER_SET_PIXEL_ORDER (by decide)).withValue #v[0#32])
    ((Tag.new FRAMEBUFFER_SET_OVERSCAN (by decide)).withValue #v[0#32, 0#32, 0#32, 0#32])
    ((Tag.new FRAMEBUFFER_SET_VIRTUAL_OFFSET (by decide)).withValue #v[0#32, 0#32])
    -- the alignment of the buffer
    ((Tag.new FRAMEBUFFER_ALLOCATE_BUFFER (by decide)).withValue #v[4096#32, 0#32])

/-- The words of a response that `init_framebuffer` reads: the width and the height of the
display, the bus address and the size of the buffer. -/
def framebufferWords (msg : Message 46) : Word × Word × Word × Word :=
  (msg.data[3], msg.data[4], msg.data[33], msg.data[34])

end Message

/-! ## The format -/

/-- A tag as it stands in a buffer. -/
structure RawTag where
  identifier : Word
  size : Word
  code : Word
  value : List Word
  deriving DecidableEq, Repr

namespace RawTag

/-- The words of a tag. -/
def words (tag : RawTag) : List Word := tag.identifier :: tag.size :: tag.code :: tag.value

/-- The words that the size in bytes stands for. -/
def count (size : Word) : Nat := (size.toNat + 3) / 4

end RawTag

/-- The reader of the format: tags, up to the end tag. -/
def parse : List Word → Option (List RawTag)
  | [] => none
  | identifier :: rest =>
      if identifier = END_TAG then some []
      else
        match rest with
        | size :: code :: rest =>
            if rest.length < RawTag.count size then none
            else
              (parse (rest.drop (RawTag.count size))).map
                (⟨identifier, size, code, rest.take (RawTag.count size)⟩ :: ·)
        | _ => none
termination_by data => data.length
decreasing_by
  simp only [List.length_drop, List.length_cons]
  omega

/-- Tags and the end tag. -/
def encode (tags : List RawTag) : List Word := tags.flatMap RawTag.words ++ [END_TAG]

/-- The word at which the value of a tag starts: behind its header, the headers before it and
the values before it. -/
def valueStart (tags : List RawTag) (k : Nat) : Nat :=
  3 * (k + 1) + ((tags.take k).map fun tag => tag.value.length).sum

/-- The tags are read back, and their values lie where they are expected. -/
structure Recovers (data : List Word) (tags : List RawTag) : Prop where
  parse : parse data = some tags
  value : ∀ (k : Nat) (tag : RawTag), tags[k]? = some tag → ∀ i < tag.value.length,
    data[valueStart tags k + i]? = tag.value[i]?

section Format

variable {tags : List RawTag} {tag : RawTag} {rest : List Word}

theorem encode_cons : encode (tag :: tags) = tag.words ++ encode tags := by
  rw [encode, List.flatMap_cons, List.append_assoc]
  rfl

theorem length_words : tag.words.length = 3 + tag.value.length := by
  simp only [RawTag.words, List.length_cons]
  omega

theorem length_encode : (encode tags).length =
    3 * tags.length + (tags.map fun tag => tag.value.length).sum + 1 := by
  induction tags with
  | nil => rfl
  | cons tag tags ih =>
      rw [encode_cons, List.length_append, ih, length_words, List.map_cons, List.sum_cons,
        List.length_cons]
      omega

theorem parse_words (hid : tag.identifier ≠ END_TAG) : parse (tag.words ++ rest) =
    if (tag.value ++ rest).length < RawTag.count tag.size then none
    else (parse ((tag.value ++ rest).drop (RawTag.count tag.size))).map
      (⟨tag.identifier, tag.size, tag.code, (tag.value ++ rest).take (RawTag.count tag.size)⟩ ::
        ·) := by
  rw [RawTag.words, parse.eq_def]
  exact if_neg hid

/-- Tags are read back exactly if each size is that of its value. -/
theorem parse_encode_iff (hid : ∀ tag ∈ tags, tag.identifier ≠ END_TAG) :
    parse (encode tags ++ rest) = some tags ↔
      ∀ tag ∈ tags, RawTag.count tag.size = tag.value.length := by
  induction tags with
  | nil =>
      refine iff_of_true ?_ nofun
      rw [parse.eq_def]
      exact if_pos rfl
  | cons tag tags ih =>
      obtain ⟨htag, htags⟩ := List.forall_mem_cons.mp hid
      rw [encode_cons, List.append_assoc, parse_words htag, List.forall_mem_cons]
      constructor
      · intro h
        split at h
        · cases h
        · rename_i hlength
          obtain ⟨tags', hparse, hcons⟩ := Option.map_eq_some_iff.mp h
          obtain ⟨htag', rfl⟩ := List.cons.inj hcons
          have hvalue := congrArg RawTag.value htag'
          have hcount : RawTag.count tag.size = tag.value.length := by
            rw [← hvalue, List.length_take_of_le (Nat.le_of_not_lt hlength)]
          rw [hcount, List.drop_left] at hparse
          exact ⟨hcount, (ih htags).mp hparse⟩
      · rintro ⟨hcount, hrest⟩
        rw [hcount, if_neg (by rw [List.length_append]; omega), List.drop_left, List.take_left,
          (ih htags).mpr hrest]
        rfl

/-- The value of a tag lies behind the tags before it and its own header. -/
theorem value_encode {k i : Nat} (hk : tags[k]? = some tag) (hi : i < tag.value.length) :
    (encode tags ++ rest)[valueStart tags k + i]? = tag.value[i]? := by
  induction tags generalizing k with
  | nil => cases hk
  | cons first tags ih =>
      rw [encode_cons, List.append_assoc]
      cases k with
      | zero =>
          obtain rfl : first = tag := Option.some.inj hk
          have hstart : valueStart (first :: tags) 0 + i = 3 + i := by
            rw [valueStart]
            rfl
          rw [hstart, List.getElem?_append_left (by rw [length_words]; omega), RawTag.words,
            Nat.add_comm]
          rfl
      | succ k =>
          have hstart : valueStart (first :: tags) (k + 1) + i =
              first.words.length + (valueStart tags k + i) := by
            rw [valueStart, valueStart, length_words, List.take_succ_cons, List.map_cons,
              List.sum_cons]
            omega
          rw [hstart, List.getElem?_append_right (Nat.le_add_right _ _), Nat.add_sub_cancel_left]
          exact ih hk

/-- What is written from the start of an array is recovered exactly if the sizes are right. -/
theorem recovers_iff {data : List Word} (hdata : encode tags <+: data)
    (hid : ∀ tag ∈ tags, tag.identifier ≠ END_TAG) :
    Recovers data tags ↔ ∀ tag ∈ tags, RawTag.count tag.size = tag.value.length := by
  obtain ⟨rest, rfl⟩ := hdata
  rw [← @parse_encode_iff tags rest hid]
  exact ⟨Recovers.parse, fun h => ⟨h, fun _ _ hk _ hi => value_encode hk hi⟩⟩

end Format

/-! ## The writers -/

namespace Tag

variable {n : Nat}

/-- A tag as it stands in a buffer. -/
def raw (tag : Tag n) : RawTag :=
  ⟨tag.identifier, tag.valueBufferSize, tag.reqResCode, tag.valueBuffer.toList⟩

theorem length_value_raw (tag : Tag n) : tag.raw.value.length = n := Vector.length_toList

/-- A size of 32 bits is right for values of less than 4 GiB. -/
theorem count_raw (tag : Tag n) :
    RawTag.count tag.raw.size = tag.raw.value.length ↔ n < 2 ^ 30 := by
  rw [length_value_raw, RawTag.count, raw, tag.valueBufferSize_eq, BitVec.toNat_ofNat]
  omega

end Tag

namespace Message

variable {words n n₁ n₂ n₃ n₄ n₅ n₆ n₇ : Nat} {c : Cursor Word words}

/-- A tag is written in front of the tags behind it. -/
theorem writeTag_bind (tag : Tag n) (tags : List RawTag) :
    ((writeTag tag c).bind fun c => (puts (encode tags) c).map fun c => ofData c.data) =
      (puts (encode (tag.raw :: tags)) c).map fun c => ofData c.data := by
  rw [encode_cons, puts_append, Option.map_bind]
  rfl

theorem put_end (c : Cursor Word words) : ((put END_TAG c).bind fun c => some (ofData c.data)) =
    (puts (encode []) c).map fun c => ofData c.data := by
  change _ = ((put END_TAG c).bind fun c => some c).map _
  cases put END_TAG c <;> rfl

theorem new7_eq (tag₁ : Tag n₁) (tag₂ : Tag n₂) (tag₃ : Tag n₃) (tag₄ : Tag n₄) (tag₅ : Tag n₅)
    (tag₆ : Tag n₆) (tag₇ : Tag n₇) :
    (new7 tag₁ tag₂ tag₃ tag₄ tag₅ tag₆ tag₇ : Option (Message words)) =
      (puts (encode [tag₁.raw, tag₂.raw, tag₃.raw, tag₄.raw, tag₅.raw, tag₆.raw, tag₇.raw])
        (⟨.replicate words 0#32, 0⟩ : Cursor Word words)).map fun c => ofData c.data := by
  simp only [new7, Option.bind_eq_bind, Option.pure_def, put_end, writeTag_bind]

/-- The end tag of a single tag is written where the cursor is behind the value. -/
theorem new_eq (tag : Tag n) : (new tag : Option (Message words)) =
    (puts (encode [tag.raw]) (⟨.replicate words 0#32, 0⟩ : Cursor Word words)).map
      fun c => ofData c.data := by
  rw [← writeTag_bind, writeTag]
  simp only [Option.bind_eq_bind, Option.bind_assoc, put_bind, new, Option.pure_def]
  refine Option.bind_congr fun data₀ _ => Option.bind_congr fun data₁ _ =>
    Option.bind_congr fun data₂ _ => Option.bind_congr fun c hc => ?_
  have hindex := index_puts hc
  rw [Vector.length_toList] at hindex
  rw [← put_end]
  obtain ⟨data, index⟩ := c
  dsimp only at hindex ⊢
  rw [put_bind, hindex]

/-- A written message is recovered exactly if the array holds it and the sizes are right. -/
theorem exists_recovers_iff {tags : List RawTag} (hid : ∀ tag ∈ tags, tag.identifier ≠ END_TAG) :
    (∃ msg, (puts (encode tags) (⟨.replicate words 0#32, 0⟩ : Cursor Word words)).map
        (fun c => ofData c.data) = some msg ∧ Recovers msg.data.toList tags) ↔
      (encode tags).length ≤ words ∧
        ∀ tag ∈ tags, RawTag.count tag.size = tag.value.length := by
  have hputs := @Written.puts _ _ _ _ (encode tags) (written_nil (.replicate words 0#32))
  rw [List.length_nil, Nat.zero_add, List.nil_append] at hputs
  by_cases hfit : (encode tags).length ≤ words
  · obtain ⟨c, hc, hwritten⟩ := hputs.1 hfit
    rw [hc, ← recovers_iff hwritten.isPrefix hid]
    constructor
    · rintro ⟨msg, hmsg, h⟩
      cases hmsg
      exact ⟨hfit, h⟩
    · rintro ⟨-, h⟩
      exact ⟨_, rfl, h⟩
  · rw [hputs.2 (Nat.zero_le _) (by omega)]
    apply iff_of_false
    · rintro ⟨msg, hmsg, -⟩
      cases hmsg
    · rintro ⟨hle, -⟩
      exact hfit hle

/-- Seven tags take seven headers and the end tag besides their values. -/
theorem length_encode_seven (tag₁ : Tag n₁) (tag₂ : Tag n₂) (tag₃ : Tag n₃) (tag₄ : Tag n₄)
    (tag₅ : Tag n₅) (tag₆ : Tag n₆) (tag₇ : Tag n₇) :
    (encode [tag₁.raw, tag₂.raw, tag₃.raw, tag₄.raw, tag₅.raw, tag₆.raw, tag₇.raw]).length =
      n₁ + n₂ + n₃ + n₄ + n₅ + n₆ + n₇ + 22 := by
  simp only [length_encode, List.length_cons, List.length_nil, List.map_cons, List.map_nil,
    List.sum_cons, List.sum_nil, Tag.length_value_raw]
  omega

theorem exists_new7_iff (tag₁ : Tag n₁) (tag₂ : Tag n₂) (tag₃ : Tag n₃) (tag₄ : Tag n₄)
    (tag₅ : Tag n₅) (tag₆ : Tag n₆) (tag₇ : Tag n₇) :
    (∃ msg : Message words, new7 tag₁ tag₂ tag₃ tag₄ tag₅ tag₆ tag₇ = some msg ∧
      Recovers msg.data.toList
        [tag₁.raw, tag₂.raw, tag₃.raw, tag₄.raw, tag₅.raw, tag₆.raw, tag₇.raw]) ↔
      n₁ + n₂ + n₃ + n₄ + n₅ + n₆ + n₇ + 22 ≤ words ∧ ∀ n ∈ [n₁, n₂, n₃, n₄, n₅, n₆, n₇],
        n < 2 ^ 30 := by
  rw [new7_eq, exists_recovers_iff, length_encode_seven]
  · simp only [List.forall_mem_cons, Tag.count_raw, List.not_mem_nil, false_imp_iff,
      implies_true, and_true]
  · simp only [List.forall_mem_cons, List.not_mem_nil, false_imp_iff, implies_true, and_true]
    exact ⟨tag₁.identifier_ne, tag₂.identifier_ne, tag₃.identifier_ne, tag₄.identifier_ne,
      tag₅.identifier_ne, tag₆.identifier_ne, tag₇.identifier_ne⟩

/-- Where the values of a recovered framebuffer message are read. -/
theorem framebufferWords_eq {msg : Message 46} {tag₁ tag₂ tag₆ tag₇ : Tag 2} {tag₃ tag₄ : Tag 1}
    {tag₅ : Tag 4} (h : Recovers msg.data.toList
      [tag₁.raw, tag₂.raw, tag₃.raw, tag₄.raw, tag₅.raw, tag₆.raw, tag₇.raw]) :
    framebufferWords msg = (tag₁.valueBuffer[0], tag₁.valueBuffer[1], tag₇.valueBuffer[0],
      tag₇.valueBuffer[1]) := by
  have hstart₇ : valueStart
      [tag₁.raw, tag₂.raw, tag₃.raw, tag₄.raw, tag₅.raw, tag₆.raw, tag₇.raw] 6 = 33 := by
    simp only [valueStart, List.take_succ_cons, List.take_zero, List.map_cons, List.map_nil,
      List.sum_cons, List.sum_nil, Tag.length_value_raw]
    rfl
  have hvalue₁ := h.value 0 tag₁.raw rfl
  have hvalue₇ := h.value 6 tag₇.raw rfl
  rw [Tag.length_value_raw, hstart₇] at hvalue₇
  rw [Tag.length_value_raw] at hvalue₁
  have h₀ := hvalue₁ 0 (by omega)
  have h₁ := hvalue₁ 1 (by omega)
  have h₂ := hvalue₇ 0 (by omega)
  have h₃ := hvalue₇ 1 (by omega)
  simp only [valueStart, List.take_zero, List.map_nil, List.sum_nil, Tag.raw,
    Vector.getElem?_toList, Nat.reduceAdd, Nat.reduceMul, Nat.reduceLT, getElem?_pos,
    Nat.lt_add_one, Nat.zero_lt_succ, Option.some.injEq] at h₀ h₁ h₂ h₃
  rw [framebufferWords, h₀, h₁, h₂, h₃]

/-- The message for a framebuffer is written, with its request where the response is read. -/
theorem newAllocateBuffer_eq_some (width height depth : Word) :
    ∃ msg, newAllocateBuffer width height depth = some msg ∧
      framebufferWords msg = (width, height, 4096#32, 0#32) := by
  obtain ⟨msg, hmsg, hrecovers⟩ := (exists_new7_iff _ _ _ _ _ _ _).mpr
    (show 2 + 2 + 1 + 1 + 4 + 2 + 2 + 22 ≤ 46 ∧ ∀ n ∈ [2, 2, 1, 1, 4, 2, 2], n < 2 ^ 30
      from ⟨by omega, by decide⟩)
  exact ⟨msg, hmsg, framebufferWords_eq hrecovers⟩

/-- Seven tags are recovered exactly if the array also holds their seven headers and no size is
cut; a single tag if its size is not cut. -/
theorem new7_recovers_iff (tag₁ : Tag n₁) (tag₂ : Tag n₂) (tag₃ : Tag n₃) (tag₄ : Tag n₄)
    (tag₅ : Tag n₅) (tag₆ : Tag n₆) (tag₇ : Tag n₇) :
    ((∃ msg : Message words, new7 tag₁ tag₂ tag₃ tag₄ tag₅ tag₆ tag₇ = some msg ∧
        Recovers msg.data.toList
          [tag₁.raw, tag₂.raw, tag₃.raw, tag₄.raw, tag₅.raw, tag₆.raw, tag₇.raw]) ↔
      n₁ + n₂ + n₃ + n₄ + n₅ + n₆ + n₇ + 22 ≤ words ∧ ∀ n ∈ [n₁, n₂, n₃, n₄, n₅, n₆, n₇],
        n < 2 ^ 30) ∧
    (∀ (n : Nat) (tag : Tag n), ConstChecks n words →
      ((∃ msg : Message words, new tag = some msg ∧ Recovers msg.data.toList [tag.raw]) ↔
        n < 2 ^ 30)) ∧
    ∀ (msg : Message 46) (tag₁ tag₂ tag₆ tag₇ : Tag 2) (tag₃ tag₄ : Tag 1) (tag₅ : Tag 4),
      Recovers msg.data.toList
        [tag₁.raw, tag₂.raw, tag₃.raw, tag₄.raw, tag₅.raw, tag₆.raw, tag₇.raw] →
      framebufferWords msg = (tag₁.valueBuffer[0], tag₁.valueBuffer[1], tag₇.valueBuffer[0],
        tag₇.valueBuffer[1]) := by
  refine ⟨?_, fun n tag hchecks => ?_, fun _ _ _ _ _ _ _ _ h => framebufferWords_eq h⟩
  · exact exists_new7_iff tag₁ tag₂ tag₃ tag₄ tag₅ tag₆ tag₇
  · obtain ⟨hfour, hfit, -⟩ := hchecks
    rw [new_eq, exists_recovers_iff (List.forall_mem_singleton.mpr tag.identifier_ne),
      List.forall_mem_singleton, Tag.count_raw]
    apply and_iff_right
    rw [length_encode, List.map_singleton, List.sum_singleton, Tag.length_value_raw,
      List.length_singleton]
    omega

/-- Seven values of one word pass the check of a message whose headers alone take more than the
array. -/
theorem new7_out_of_bounds : CombinedChecks 1 1 1 1 1 1 1 14 ∧
    (new7 (Tag.new FRAMEBUFFER_SET_DEPTH (by decide) : Tag 1)
      (Tag.new FRAMEBUFFER_SET_DEPTH (by decide) : Tag 1)
      (Tag.new FRAMEBUFFER_SET_DEPTH (by decide) : Tag 1)
      (Tag.new FRAMEBUFFER_SET_DEPTH (by decide) : Tag 1)
      (Tag.new FRAMEBUFFER_SET_DEPTH (by decide) : Tag 1)
      (Tag.new FRAMEBUFFER_SET_DEPTH (by decide) : Tag 1)
      (Tag.new FRAMEBUFFER_SET_DEPTH (by decide) : Tag 1) : Option (Message 14)) = none := by
  refine ⟨⟨⟨by decide, by decide, by decide⟩, by decide⟩, ?_⟩
  rw [new7_eq, (written_nil _).puts.2 (Nat.zero_le _) (by rw [length_encode_seven]; decide)]
  rfl

end Message

end Kruspix.Drivers.PropertyMessage
