import Kruspix.Lib.Alignment
import Kruspix.Lib.Bitmap
import Kruspix.Lib.WordMemory
import Mathlib.Data.Nat.Bits
import Mathlib.Algebra.Group.Nat.Even

/-!
# The bitmap frame allocator

The first frames of the managed region hold a bitmap with one bit a frame. A
set bit is a frame that is handed out or that holds the bitmap. The allocator
scans the words from the start and hands out the frame of the first clear bit.

The allocator reads and writes the bitmap in physical memory, so its functions
take the memory and return it. Pointers are physical addresses, and the null
pointer is 0. `new` writes the bitmap by volatile accesses, at 0 as in any other
place of the memory. The other functions dereference the pointers to its words,
and a null pointer is a fault there.
-/

namespace Kruspix.Mm.FrameAllocator

open Lib.Alignment Lib.WordMemory Lib.Bitmap

/-- The allocator's fields. `start` is the aligned start of the region. -/
structure BitMapFrameAllocator where
  frameSize : Nat
  totalFrames : Nat
  bitmapFrames : Nat
  start : Nat
  deriving DecidableEq, Repr

namespace BitMapFrameAllocator

/-- The number of words in the bitmap frames. -/
def bitmapSize (fa : BitMapFrameAllocator) : Nat := fa.bitmapFrames * fa.frameSize / 8

/-- The address of frame `i`. -/
def frameAddr (fa : BitMapFrameAllocator) (i : Nat) : Nat := fa.start + i * fa.frameSize

/-- The fields `new` computes for the region. -/
def layout (start size frameSize : Nat) : BitMapFrameAllocator :=
  let startAligned := nextMultipleOf start frameSize
  let endAligned := nextMultipleOf (start + size) frameSize
  let sizeAligned :=
    (if start + size < endAligned then endAligned - frameSize else endAligned) - startAligned
  let totalFrames := sizeAligned / frameSize
  let bitmapSize := (totalFrames + 7) / 8
  { frameSize := frameSize
    totalFrames := totalFrames
    bitmapFrames := (bitmapSize + frameSize - 1) / frameSize
    start := startAligned }

/-- Clear the bitmap and mark the frames it occupies. -/
def initBitmap (fa : BitMapFrameAllocator) (phys : Words) : Words :=
  let phys := storeRange phys fa.start fa.bitmapSize 0#64
  let usizeToMask := fa.bitmapFrames / 64
  let remainderBits := fa.bitmapFrames % 64
  let phys :=
    if 0 < usizeToMask then storeRange phys fa.start usizeToMask (BitVec.allOnes 64) else phys
  if 0 < remainderBits then
    store phys (fa.start + 8 * usizeToMask) ((1#64 <<< remainderBits) - 1#64)
  else phys

/-- The conditions `new` asserts: a frame is a power of two of bytes and holds
whole words, and the region has more than ten frames. -/
def Accepts (size frameSize : Nat) : Prop :=
  frameSize.isPowerOfTwo ∧ frameSize % 8 = 0 ∧ 10 * frameSize < size

instance (size frameSize : Nat) : Decidable (Accepts size frameSize) :=
  inferInstanceAs (Decidable (_ ∧ _ ∧ _))

/-- `BitMapFrameAllocator::new`. A failed assertion and an overflow of the
rounded-up end panic. -/
def new (start size frameSize : Nat) (phys : Words) : Option (BitMapFrameAllocator × Words) :=
  if Accepts size frameSize ∧ nextMultipleOf (start + size) frameSize < 2 ^ 64 then
    let fa := layout start size frameSize
    some (fa, fa.initBitmap phys)
  else none

/-- The scan of `alloc_frame` from word `index` with `left` words to go. A null
pointer to a word is a fault. -/
def scan (fa : BitMapFrameAllocator) (phys : Words) : Nat → Nat → Option (Nat × Words)
  | 0, _ => some (0, phys)
  | left + 1, index =>
      if fa.start + 8 * index = 0 then none
      else
        let chunk := phys (fa.start + 8 * index)
        if chunk = BitVec.allOnes 64 then scan fa phys left (index + 1)
        else
          let chunkIndex := trailingOnes chunk
          let frameIndex := index * 64 + chunkIndex
          if fa.totalFrames ≤ frameIndex then some (0, phys)
          else
            some (fa.frameAddr frameIndex,
              store phys (fa.start + 8 * index) (chunk ||| (1#64 <<< chunkIndex)))

/-- `alloc_frame`: the first clear bit's frame, or null. -/
def allocFrame (fa : BitMapFrameAllocator) (phys : Words) : Option (Nat × Words) :=
  fa.scan phys fa.bitmapSize 0

/-- `dealloc_frame`. The offset of a pointer below the region underflows, and a
null pointer to a word is a fault. -/
def deallocFrame (fa : BitMapFrameAllocator) (phys : Words) (ptr : Nat) : Option Words :=
  if ptr < fa.start then none
  else
    let frameIndex := (ptr - fa.start) / fa.frameSize
    let index := frameIndex / 64
    let chunkIndex := frameIndex % 64
    if fa.start + 8 * index = 0 then none
    else
      some (store phys (fa.start + 8 * index)
        (phys (fa.start + 8 * index) &&& ~~~(1#64 <<< chunkIndex)))

/-- The bitmap of an allocator in memory. -/
def words (fa : BitMapFrameAllocator) (phys : Words) (k : Nat) : BitVec 64 :=
  phys (fa.start + 8 * k)

/-- The bit of frame `i`. -/
def bit (fa : BitMapFrameAllocator) (phys : Words) (i : Nat) : Bool :=
  testBit (fa.words phys) i

/-- The addresses of the bitmap words. -/
def bitmapAddrs (fa : BitMapFrameAllocator) : Set Nat :=
  {a | fa.start ≤ a ∧ a < fa.start + 8 * fa.bitmapSize}

@[simp] theorem mem_bitmapAddrs {fa : BitMapFrameAllocator} {a : Nat} :
    a ∈ fa.bitmapAddrs ↔ fa.start ≤ a ∧ a < fa.start + 8 * fa.bitmapSize := Iff.rfl

/-- What the other functions rely on: frames are aligned, and the bitmap has a
bit for every frame and lies in the first frames of the region. -/
structure WellFormed (fa : BitMapFrameAllocator) : Prop where
  frameSize_pos : 0 < fa.frameSize
  dvd_frameSize : 8 ∣ fa.frameSize
  dvd_start : fa.frameSize ∣ fa.start
  bitmapFrames_pos : 0 < fa.bitmapFrames
  bitmap_covers : fa.totalFrames ≤ 64 * fa.bitmapSize
  bitmapFrames_le : fa.bitmapFrames ≤ fa.totalFrames

theorem WellFormed.bitmapSize_mul {fa : BitMapFrameAllocator} (h : fa.WellFormed) :
    8 * fa.bitmapSize = fa.bitmapFrames * fa.frameSize :=
  Nat.mul_div_cancel' (Nat.dvd_mul_left_of_dvd h.dvd_frameSize _)

/-- A frame behind the bitmap frames shares no address with the bitmap. -/
theorem WellFormed.not_mem_bitmapAddrs {fa : BitMapFrameAllocator} (h : fa.WellFormed)
    {i a : Nat} (hi : fa.bitmapFrames ≤ i) (ha : fa.frameAddr i ≤ a) :
    a ∉ fa.bitmapAddrs := by
  intro hmem
  have hle : fa.bitmapFrames * fa.frameSize ≤ i * fa.frameSize := Nat.mul_le_mul_right _ hi
  have hsize := h.bitmapSize_mul
  rw [mem_bitmapAddrs] at hmem
  rw [frameAddr] at ha
  omega

/-- The bits only depend on the bitmap words. -/
theorem bit_congr {fa : BitMapFrameAllocator} {phys phys' : Words} (hwf : fa.WellFormed)
    (h : Set.EqOn phys' phys fa.bitmapAddrs) {i : Nat} (hi : i < fa.totalFrames) :
    fa.bit phys' i = fa.bit phys i := by
  have hcover := hwf.bitmap_covers
  have hk : i / 64 < fa.bitmapSize := by omega
  have heq : phys' (fa.start + 8 * (i / 64)) = phys (fa.start + 8 * (i / 64)) :=
    h (by rw [mem_bitmapAddrs]; omega)
  simp only [bit, testBit, words, heq]

/-- Without a start the first word of the bitmap is at the null pointer. -/
theorem allocFrame_null {fa : BitMapFrameAllocator} (hwf : fa.WellFormed) (hstart : fa.start = 0)
    (phys : Words) : fa.allocFrame phys = none := by
  have hsize : 0 < fa.bitmapSize := by
    have hmul := hwf.bitmapSize_mul
    have hpos := Nat.mul_pos hwf.bitmapFrames_pos hwf.frameSize_pos
    omega
  obtain ⟨left, hleft⟩ := Nat.exists_eq_add_one_of_ne_zero hsize.ne'
  rw [allocFrame, hleft, scan, if_pos (by omega)]

/-- The scan finds the first clear bit at or behind word `index`, sets it and
returns its frame, or finds every frame's bit set. -/
theorem scan_spec {fa : BitMapFrameAllocator} (hwf : fa.WellFormed) (hstart : 0 < fa.start)
    (phys : Words) {left index : Nat} (hleft : index + left = fa.bitmapSize)
    (hset : ∀ j < index * 64, fa.bit phys j = true) :
    (fa.scan phys left index = some (0, phys) ∧ ∀ j < fa.totalFrames, fa.bit phys j = true) ∨
      ∃ i < fa.totalFrames, fa.bit phys i = false ∧ (∀ j < i, fa.bit phys j = true) ∧
        fa.scan phys left index =
          some (fa.frameAddr i, store phys (fa.start + 8 * (i / 64))
            (fa.words phys (i / 64) ||| (1#64 <<< (i % 64)))) := by
  have hnull (k : Nat) : ¬ fa.start + 8 * k = 0 := by omega
  induction left generalizing index with
  | zero =>
      left
      refine ⟨rfl, fun j hj => hset j ?_⟩
      have := hwf.bitmap_covers
      omega
  | succ left ih =>
      by_cases hones : fa.words phys index = BitVec.allOnes 64
      · have hstep : fa.scan phys (left + 1) index = fa.scan phys left (index + 1) := by
          rw [words] at hones
          simp only [scan, if_neg (hnull index), if_pos hones]
        rw [hstep]
        refine ih (by omega) fun j hj => ?_
        by_cases hlt : j < index * 64
        · exact hset j hlt
        · exact testBit_of_allOnes hones (by omega) hj
      · obtain ⟨hclear, hbetween⟩ := testBit_trailingOnes hones
        obtain ⟨hdiv, hmod⟩ := mul_add_div_mod (k := index) (trailingOnes_lt hones)
        have hbelow : ∀ j < index * 64 + trailingOnes (fa.words phys index),
            fa.bit phys j = true := by
          intro j hj
          by_cases hlt : j < index * 64
          · exact hset j hlt
          · exact hbetween j (by omega) hj
        by_cases htotal : fa.totalFrames ≤ index * 64 + trailingOnes (fa.words phys index)
        · left
          refine ⟨?_, fun j hj => hbelow j (by omega)⟩
          rw [words] at hones htotal
          simp only [scan, if_neg (hnull index), if_neg hones, if_pos htotal]
        · right
          refine ⟨_, by omega, hclear, hbelow, ?_⟩
          rw [hdiv, hmod]
          rw [words] at hones htotal
          simp only [scan, if_neg (hnull index), if_neg hones, if_neg htotal, words]

/-- The frames of a layout fill the region as far as alignment allows. -/
theorem layout_region (start : Nat) {size frameSize : Nat} (hpos : 0 < frameSize)
    (hsize : 10 * frameSize < size) :
    let fa := layout start size frameSize
    start ≤ fa.start ∧ fa.start + fa.totalFrames * frameSize ≤ start + size ∧
      frameSize ∣ fa.start ∧ 0 < fa.totalFrames := by
  obtain ⟨⟨q, hq⟩, hstart, hstart'⟩ := nextMultipleOf_spec start hpos
  obtain ⟨⟨m, hm⟩, hend, hend'⟩ := nextMultipleOf_spec (start + size) hpos
  obtain ⟨k, hk, hle, hlt⟩ : ∃ k, (if start + size < nextMultipleOf (start + size) frameSize
      then nextMultipleOf (start + size) frameSize - frameSize
      else nextMultipleOf (start + size) frameSize) = frameSize * k ∧
        frameSize * k ≤ start + size ∧ start + size < frameSize * k + frameSize := by
    split_ifs with hround
    · refine ⟨m - 1, ?_, ?_, ?_⟩ <;> rw [Nat.mul_sub, Nat.mul_one, ← hm] <;> omega
    · exact ⟨m, hm, by omega, by omega⟩
  have hqk : frameSize * q < frameSize * k := by omega
  have hlt : q < k := Nat.lt_of_mul_lt_mul_left hqk
  have htotal : (layout start size frameSize).totalFrames = k - q := by
    simp only [layout, hk, hq]
    rw [← Nat.mul_sub, Nat.mul_div_cancel_left _ hpos]
  refine ⟨hstart, ?_, ⟨q, hq⟩, by omega⟩
  rw [htotal]
  simp only [layout, hq]
  rw [Nat.mul_comm frameSize q, ← Nat.add_mul, Nat.add_sub_cancel' hlt.le, Nat.mul_comm]
  exact hle

/-- `bytes` bytes rounded up to frames: the frames hold the bytes, and there
are no more frames than bytes. -/
theorem roundUp_spec {bytes frameSize : Nat} (hpos : 0 < frameSize) (hbytes : 0 < bytes) :
    bytes ≤ (bytes + frameSize - 1) / frameSize * frameSize ∧
      0 < (bytes + frameSize - 1) / frameSize ∧
      (bytes + frameSize - 1) / frameSize ≤ bytes := by
  have hdiv := Nat.div_add_mod (bytes + frameSize - 1) frameSize
  have hlt := Nat.mod_lt (bytes + frameSize - 1) hpos
  rw [Nat.mul_comm] at hdiv
  refine ⟨by omega, Nat.div_pos (by omega) hpos, Nat.div_le_of_le_mul ?_⟩
  obtain ⟨c, rfl⟩ : ∃ c, bytes = c + 1 := ⟨bytes - 1, by omega⟩
  have hmul : c ≤ frameSize * c := Nat.le_mul_of_pos_left c hpos
  rw [Nat.mul_add, Nat.mul_one]
  omega

/-- The bitmap of a layout has a bit for every frame. -/
theorem layout_wellFormed (start : Nat) {size frameSize : Nat} (h : Accepts size frameSize) :
    (layout start size frameSize).WellFormed := by
  obtain ⟨hpow, hmod, hsize⟩ := h
  have hpos : 0 < frameSize := Nat.pos_of_isPowerOfTwo hpow
  have hdvd : 8 ∣ frameSize := Nat.dvd_of_mod_eq_zero hmod
  obtain ⟨_, _, hstart, htotal⟩ := layout_region start hpos hsize
  generalize hfa : layout start size frameSize = fa at hstart htotal ⊢
  have hB : fa.bitmapFrames = ((fa.totalFrames + 7) / 8 + frameSize - 1) / frameSize := by
    rw [← hfa]
    rfl
  have hF : fa.frameSize = frameSize := by
    rw [← hfa]
    rfl
  obtain ⟨hcover, hBpos, hBle⟩ := @roundUp_spec ((fa.totalFrames + 7) / 8) _ hpos (by omega)
  rw [← hB] at hcover hBpos hBle
  have hsize8 : 8 * fa.bitmapSize = fa.bitmapFrames * frameSize := by
    rw [bitmapSize, hF]
    exact Nat.mul_div_cancel' (Nat.dvd_mul_left_of_dvd hdvd _)
  exact ⟨hF ▸ hpos, hF ▸ hdvd, hF ▸ hstart, hBpos, by omega, by omega⟩

/-- The mask of the last, partial word has its low bits set. -/
theorem getLsbD_mask {r j : Nat} (hr : r < 64) :
    ((1#64 <<< r) - 1#64).getLsbD j = decide (j < r) := by
  have hmask : (1#64 <<< r) - 1#64 = BitVec.ofNat 64 (2 ^ r - 1) := by
    apply BitVec.eq_of_toNat_eq
    have hlt : 2 ^ r < 2 ^ 64 := Nat.pow_lt_pow_right (by omega) hr
    have hpos : 0 < 2 ^ r := Nat.two_pow_pos r
    rw [← BitVec.twoPow_eq, BitVec.toNat_sub, BitVec.toNat_twoPow_of_lt hr, BitVec.toNat_ofNat,
      BitVec.toNat_ofNat]
    omega
  rw [hmask, BitVec.getLsbD_ofNat, Nat.testBit_two_pow_sub_one]
  by_cases hj : j < r
  · simp [hj, hj.trans hr]
  · simp [hj]

/-- The bits of a word that is either filled or cleared. -/
theorem getLsbD_fill {p : Prop} [Decidable p] {i : Nat} :
    (if p then BitVec.allOnes 64 else 0#64).getLsbD (i % 64) = decide p := by
  have hlt : i % 64 < 64 := Nat.mod_lt i (by omega)
  by_cases hp : p
  · rw [if_pos hp, BitVec.getLsbD_allOnes, decide_eq_true hp, decide_eq_true hlt]
  · rw [if_neg hp, BitVec.getLsbD_zero, decide_eq_false hp]

/-- A fresh bitmap marks exactly the bitmap frames. -/
theorem bit_initBitmap {fa : BitMapFrameAllocator} (hwf : fa.WellFormed) (phys : Words)
    {i : Nat} (hi : i < fa.totalFrames) :
    fa.bit (fa.initBitmap phys) i = decide (i < fa.bitmapFrames) := by
  have hcover := hwf.bitmap_covers
  have hk : i / 64 < fa.bitmapSize := by omega
  have hzero : storeRange phys fa.start fa.bitmapSize 0#64 (fa.start + 8 * (i / 64)) = 0#64 :=
    storeRange_in _ _ _ hk
  have hmasked : (if 0 < fa.bitmapFrames / 64 then
      storeRange (storeRange phys fa.start fa.bitmapSize 0#64) fa.start (fa.bitmapFrames / 64)
        (BitVec.allOnes 64)
      else storeRange phys fa.start fa.bitmapSize 0#64) (fa.start + 8 * (i / 64)) =
      if i / 64 < fa.bitmapFrames / 64 then BitVec.allOnes 64 else 0#64 := by
    split_ifs with h0 hlt hlt
    · exact storeRange_in _ _ _ hlt
    · rw [storeRange_out _ _ (by omega), hzero]
    · omega
    · exact hzero
  by_cases hrem : 0 < fa.bitmapFrames % 64
  · simp only [bit, testBit, words, initBitmap, if_pos hrem]
    by_cases hlast : i / 64 = fa.bitmapFrames / 64
    · rw [hlast, store_same, getLsbD_mask (Nat.mod_lt _ (by omega))]
      exact decide_eq_decide.mpr (by omega)
    · rw [store_other _ _ (by omega), hmasked, getLsbD_fill]
      exact decide_eq_decide.mpr (by omega)
  · simp only [bit, testBit, words, initBitmap, if_neg hrem]
    rw [hmasked, getLsbD_fill]
    exact decide_eq_decide.mpr (by omega)

end BitMapFrameAllocator

end Kruspix.Mm.FrameAllocator
