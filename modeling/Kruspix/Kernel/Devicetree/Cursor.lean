import Kruspix.Lib.Bytes

/-!
# Pointers into the flattened device tree

A pointer is an address with the bytes that can be read from there on. The null
pointer is address 0. A read through it, or behind the end of the blob, faults.
-/

namespace Kruspix.Kernel.Devicetree

open Lib.Bytes

/-- What stops the kernel: a bad access, a failed assertion or a panic. -/
inductive Fault
  | nullPointer
  | misaligned
  | outOfBounds
  | assertion
  | unwrap
  | unreachable
  | unimplemented
  | zeroChunk
  | overflow
  deriving DecidableEq, Repr

/-- An address and the bytes from there on. -/
structure Cursor where
  addr : Nat
  bytes : List UInt8
  deriving DecidableEq

namespace Cursor

/-- The null pointer. -/
def null : Cursor := ⟨0, []⟩

def isNull (c : Cursor) : Bool := c.addr == 0

/-- `byte_add`. -/
def skip (c : Cursor) (n : Nat) : Cursor := ⟨c.addr + n, c.bytes.drop n⟩

def isAligned (c : Cursor) : Bool := c.addr % 4 == 0

/-- `u32::from_be(*ptr)`. -/
def readBe32 (c : Cursor) : Except Fault Nat :=
  if c.isNull then .error .nullPointer
  else
    match c.bytes with
    | b0 :: b1 :: b2 :: b3 :: _ => .ok (be32 b0 b1 b2 b3)
    | _ => .error .outOfBounds

/-- `*ptr` on a little-endian machine. -/
def readLe32 (c : Cursor) : Except Fault Nat :=
  if c.isNull then .error .nullPointer
  else
    match c.bytes with
    | b0 :: b1 :: b2 :: b3 :: _ => .ok (be32 b3 b2 b1 b0)
    | _ => .error .outOfBounds

/-- `CStr::from_ptr`. -/
def readCStr (c : Cursor) : Except Fault (List UInt8) :=
  if c.isNull then .error .nullPointer
  else
    match cStr? c.bytes with
    | some bs => .ok bs
    | none => .error .outOfBounds

/-- `slice::from_raw_parts`. -/
def slice (c : Cursor) (n : Nat) : Except Fault (List UInt8) :=
  if c.isNull then .error .nullPointer
  else if n ≤ c.bytes.length then .ok (c.bytes.take n)
  else .error .outOfBounds

/-- An aligned pointer to the given bytes. -/
structure Points (c : Cursor) (l : List UInt8) : Prop where
  addr_pos : 0 < c.addr
  aligned : 4 ∣ c.addr
  bytes : c.bytes = l

variable {c : Cursor} {l m : List UInt8} {n : Nat}

@[simp] theorem skip_zero (c : Cursor) : c.skip 0 = c := rfl

@[simp] theorem skip_bytes (c : Cursor) (n : Nat) : (c.skip n).bytes = c.bytes.drop n := rfl

@[simp] theorem skip_addr (c : Cursor) (n : Nat) : (c.skip n).addr = c.addr + n := rfl

theorem skip_skip (c : Cursor) (m n : Nat) : (c.skip m).skip n = c.skip (m + n) := by
  simp only [skip, List.drop_drop, Nat.add_assoc]

theorem readBe32_ok (h : c.readBe32 = .ok n) : 4 ≤ c.bytes.length := by
  simp only [readBe32] at h
  split at h
  · cases h
  · split at h
    · rename_i heq
      rw [heq]
      simp only [List.length_cons]
      omega
    · cases h

theorem Points.isNull (h : c.Points l) : c.isNull = false := by
  have hpos := h.addr_pos
  simp only [Cursor.isNull, beq_eq_false_iff_ne]
  omega

theorem Points.isAligned (h : c.Points l) : c.isAligned = true := by
  have hal := h.aligned
  simp only [Cursor.isAligned, beq_iff_eq]
  omega

theorem Points.skip (h : c.Points (l ++ m)) (hl : 4 ∣ l.length) : (c.skip l.length).Points m := by
  have hpos := h.addr_pos
  refine ⟨?_, Nat.dvd_add h.aligned hl, ?_⟩
  · rw [skip_addr]
    omega
  · rw [skip_bytes, h.bytes, List.drop_left]

theorem Points.readBe32 (h : c.Points (be32Bytes n ++ l)) (hn : n < 2 ^ 32) :
    c.readBe32 = .ok n := by
  rw [Cursor.readBe32, h.isNull, h.bytes]
  simp only [be32Bytes, List.cons_append, be32_be32Bytes hn]
  rfl

theorem Points.readCStr (h : c.Points (l ++ 0 :: m)) (hl : 0 ∉ l) : c.readCStr = .ok l := by
  rw [Cursor.readCStr, h.isNull, h.bytes, cStr?_append hl]
  rfl

theorem Points.slice (h : c.Points (l ++ m)) : c.slice l.length = .ok l := by
  rw [Cursor.slice, h.isNull, h.bytes]
  simp

end Cursor

end Kruspix.Kernel.Devicetree
