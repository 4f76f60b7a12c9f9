import Kruspix.Lib.Masks
import Kruspix.Lib.WriteBackCache
import Kruspix.Mm.Layout

/-!
# Cleaning and invalidating the data cache

Both functions go over the lines of a range of addresses, from the line of the first address on.
Addresses wrap around. The cache has its lines by physical address.
-/

namespace Kruspix.Arch.DataCache

open Lib.Masks Lib.WriteBackCache Mm.Layout

/-- An address or a register. -/
abbrev Word := BitVec 64

/-- The field `DminLine` of `ctr_el0`. -/
def dminLine (ctrEl0 : Word) : Nat := (ctrEl0 >>> 16 &&& 0xF#64).toNat

/-- The line size in bytes that CTR_EL0 states. -/
def dataCacheLineSize (ctrEl0 : Word) : Word := 1#64 <<< (dminLine ctrEl0 + 2)

/-- The size of a line as a number. -/
def lineSize (ctrEl0 : Word) : Nat := (dataCacheLineSize ctrEl0).toNat

/-- The addresses that the loop `while addr < end_addr` comes to in as many turns. `none` is a
loop that goes on. -/
def sweep (size endAddr : Word) : Nat → Word → Option (List Word)
  | 0, addr => if addr < endAddr then none else some []
  | turns + 1, addr =>
      if addr < endAddr then (sweep size endAddr turns (addr + size)).map (addr :: ·)
      else some []

/-- The addresses that both functions give to their instruction. -/
def rangeLines (ctrEl0 startVirtAddr size : Word) (turns : Nat) : Option (List Word) :=
  if size = 0#64 then some []
  else
    sweep (dataCacheLineSize ctrEl0) (startVirtAddr + size) turns
      (startVirtAddr &&& ~~~(dataCacheLineSize ctrEl0 - 1))

variable {W : Type*}

/-- `dc cvac` for each address. -/
def cleanDataCacheRange (phys : Nat → Nat) (ctrEl0 startVirtAddr size : Word) (turns : Nat) :
    Option (List (Access W)) :=
  (rangeLines ctrEl0 startVirtAddr size turns).map
    (List.map fun addr => .clean (phys addr.toNat / lineSize ctrEl0))

/-- `dc ivac` for each address. -/
def invalidateDataCacheRange (phys : Nat → Nat) (ctrEl0 startVirtAddr size : Word) (turns : Nat) :
    Option (List (Access W)) :=
  (rangeLines ctrEl0 startVirtAddr size turns).map
    (List.map fun addr => .invalidate (phys addr.toNat / lineSize ctrEl0))

theorem toNat_ofNat_of_lt {n : Nat} (h : n < 2 ^ 64) : (BitVec.ofNat 64 n).toNat = n :=
  Nat.mod_eq_of_lt h

theorem nontrivial_byte : Nontrivial UInt8 := ⟨0, 1, by decide⟩

/-! ## The size of a line -/

theorem dminLine_lt (ctrEl0 : Word) : dminLine ctrEl0 < 16 := by
  rw [dminLine, BitVec.toNat_and]
  exact Nat.lt_of_le_of_lt Nat.and_le_right (by decide)

theorem lineSize_eq (ctrEl0 : Word) : lineSize ctrEl0 = 2 ^ (dminLine ctrEl0 + 2) := by
  have hlt := dminLine_lt ctrEl0
  rw [lineSize, dataCacheLineSize, ← BitVec.twoPow_eq]
  exact BitVec.toNat_twoPow_of_lt (by omega)

theorem lineSize_pos (ctrEl0 : Word) : 0 < lineSize ctrEl0 := by
  rw [lineSize_eq]
  exact Nat.two_pow_pos _

theorem lineSize_le (ctrEl0 : Word) : lineSize ctrEl0 ≤ 2 ^ 17 := by
  have hlt := dminLine_lt ctrEl0
  rw [lineSize_eq]
  exact Nat.pow_le_pow_right (by decide) (by omega)

theorem lineSize_dvd_iff (ctrEl0 : Word) (k : Nat) :
    lineSize ctrEl0 ∣ 2 ^ k ↔ dminLine ctrEl0 + 2 ≤ k := by
  rw [lineSize_eq]
  exact Nat.pow_dvd_pow_iff_le_right (by decide)

/-- The first address of a line. -/
theorem toNat_alignDown (ctrEl0 addr : Word) :
    (addr &&& ~~~(dataCacheLineSize ctrEl0 - 1)).toNat =
      addr.toNat / lineSize ctrEl0 * lineSize ctrEl0 := by
  have hmask : (dataCacheLineSize ctrEl0 - 1).toNat = 2 ^ (dminLine ctrEl0 + 2) - 1 := by
    rw [← lineSize_eq]
    exact BitVec.toNat_sub_of_le (BitVec.le_def.mpr (lineSize_pos ctrEl0))
  rw [lineSize_eq]
  exact toNat_and_not_low hmask

/-! ## The lines of a range -/

/-- Below the end of the addresses the loop ends, and comes to the lines up to the end. -/
theorem sweep_spec (size endAddr : Word) (hpos : 0 < size.toNat)
    (hend : endAddr.toNat + size.toNat ≤ 2 ^ 64) (turns : Nat) (addr : Word) (q : Nat)
    (haddr : addr.toNat = q * size.toNat)
    (hturns : endAddr.toNat ≤ addr.toNat + turns) :
    ∃ lines, sweep size endAddr turns addr = some lines ∧
      ∀ a : Word, a ∈ lines ↔ ∃ n, q ≤ n ∧ a.toNat = n * size.toNat ∧ a < endAddr := by
  induction turns generalizing addr q with
  | zero =>
      have hge : ¬addr < endAddr := by
        rw [BitVec.lt_def]
        omega
      refine ⟨[], if_neg hge, fun a => ⟨nofun, ?_⟩⟩
      rintro ⟨n, hn, ha, hlt⟩
      have hle : q * size.toNat ≤ n * size.toNat := Nat.mul_le_mul_right _ hn
      rw [BitVec.lt_def] at hlt hge
      omega
  | succ turns ih =>
      rw [sweep]
      by_cases hlt : addr < endAddr
      · rw [if_pos hlt]
        have hltNat := BitVec.lt_def.mp hlt
        have hnext : (addr + size).toNat = (q + 1) * size.toNat := by
          rw [BitVec.toNat_add_of_not_uaddOverflow, haddr, Nat.succ_mul]
          rw [BitVec.uaddOverflow, decide_eq_true_eq]
          omega
        obtain ⟨lines, hsweep, hlines⟩ := ih (addr + size) (q + 1) hnext (by
          rw [hnext, Nat.succ_mul]
          omega)
        refine ⟨addr :: lines, by rw [hsweep]; rfl, fun a => ?_⟩
        rw [List.mem_cons, hlines]
        constructor
        · rintro (rfl | ⟨n, hn, ha⟩)
          · exact ⟨q, Nat.le_refl q, haddr, hlt⟩
          · exact ⟨n, Nat.le_of_succ_le hn, ha⟩
        · rintro ⟨n, hn, ha, halt⟩
          rcases Nat.eq_or_lt_of_le hn with rfl | hn
          · exact .inl (BitVec.eq_of_toNat_eq (ha.trans haddr.symm))
          · exact .inr ⟨n, hn, ha, halt⟩
      · rw [if_neg hlt]
        refine ⟨[], rfl, fun a => ⟨nofun, ?_⟩⟩
        rintro ⟨n, hn, ha, halt⟩
        have hle : q * size.toNat ≤ n * size.toNat := Nat.mul_le_mul_right _ hn
        rw [BitVec.lt_def] at halt hlt
        omega

/-- The addresses are the starts of the lines that the range has a byte in. -/
theorem rangeLines_spec (ctrEl0 : Word) {startVirtAddr size : Word} (hsize : size ≠ 0#64)
    (hend : startVirtAddr.toNat + size.toNat + lineSize ctrEl0 ≤ 2 ^ 64) :
    ∃ turns lines, rangeLines ctrEl0 startVirtAddr size turns = some lines ∧
      ∀ a : Word, a ∈ lines ↔ ∃ v, startVirtAddr.toNat ≤ v ∧
        v < startVirtAddr.toNat + size.toNat ∧
        a.toNat = v / lineSize ctrEl0 * lineSize ctrEl0 := by
  have hpos := lineSize_pos ctrEl0
  have hsum : (startVirtAddr + size).toNat = startVirtAddr.toNat + size.toNat := by
    apply BitVec.toNat_add_of_not_uaddOverflow
    rw [BitVec.uaddOverflow, decide_eq_true_eq]
    omega
  obtain ⟨lines, hsweep, hlines⟩ := sweep_spec (dataCacheLineSize ctrEl0) (startVirtAddr + size)
    hpos (by rw [hsum]; exact hend) (2 ^ 64) (startVirtAddr &&& ~~~(dataCacheLineSize ctrEl0 - 1))
    (startVirtAddr.toNat / lineSize ctrEl0) (toNat_alignDown ctrEl0 startVirtAddr) (by omega)
  refine ⟨2 ^ 64, lines, by rw [rangeLines, if_neg hsize, hsweep], fun a => ?_⟩
  rw [hlines]
  simp only [BitVec.lt_def, hsum]
  change (∃ n, _ ∧ a.toNat = n * lineSize ctrEl0 ∧ _) ↔ _
  constructor
  · rintro ⟨n, hn, ha, hlt⟩
    refine ⟨max startVirtAddr.toNat a.toNat, Nat.le_max_left _ _, ?_, ?_⟩
    · have hne : size.toNat ≠ 0 := fun h => hsize (BitVec.eq_of_toNat_eq h)
      omega
    · rcases Nat.eq_or_lt_of_le hn with rfl | hgt
      · have hle : a.toNat ≤ startVirtAddr.toNat := ha ▸ Nat.div_mul_le_self _ _
        rw [Nat.max_eq_left hle, ha]
      · have hge : startVirtAddr.toNat ≤ a.toNat := by
          rw [ha]
          exact Nat.le_of_lt ((Nat.div_lt_iff_lt_mul hpos).mp hgt)
        rw [Nat.max_eq_right hge, ha, Nat.mul_div_cancel n hpos]
  · rintro ⟨v, hv, hlt, ha⟩
    refine ⟨v / lineSize ctrEl0, Nat.div_le_div_right hv, ha, ?_⟩
    rw [ha]
    exact Nat.lt_of_le_of_lt (Nat.div_mul_le_self _ _) hlt

/-! ## A buffer in the linear map -/

section Buffer

variable {base len : Nat}

theorem lineSize_dvd_linearMapOffset (ctrEl0 : Word) : lineSize ctrEl0 ∣ linearMapOffset := by
  have hoffset : linearMapOffset = 2 ^ 17 * 0x7fffc0000000 := by decide
  have hlt := dminLine_lt ctrEl0
  rw [hoffset]
  exact Nat.dvd_mul_right_of_dvd ((lineSize_dvd_iff ctrEl0 17).mpr (by omega)) _

/-- The first addresses of a line, virtual and physical. -/
theorem lineStart_add_offset (ctrEl0 : Word) (a : Nat) :
    (a + linearMapOffset) / lineSize ctrEl0 * lineSize ctrEl0 =
      a / lineSize ctrEl0 * lineSize ctrEl0 + linearMapOffset := by
  obtain ⟨k, hk⟩ := lineSize_dvd_linearMapOffset ctrEl0
  rw [hk, Nat.add_mul_div_left _ _ (lineSize_pos ctrEl0), Nat.add_mul, Nat.mul_comm k]

/-- The loop ends, and goes over the lines of the buffer. -/
theorem rangeLines_linear (ctrEl0 : Word) (hlen : 0 < len) (hlow : base + len ≤ linearMapSize) :
    ∃ turns lines, rangeLines ctrEl0 (BitVec.ofNat 64 (base + linearMapOffset))
        (BitVec.ofNat 64 len) turns = some lines ∧
      ∀ n, (∃ addr ∈ lines, virtToPhys addr.toNat / lineSize ctrEl0 = n) ↔
        ∃ a, Range base len a ∧ a / lineSize ctrEl0 = n := by
  have hpos := lineSize_pos ctrEl0
  have hle := lineSize_le ctrEl0
  simp only [linearMapSize] at hlow
  have hvirt : (BitVec.ofNat 64 (base + linearMapOffset)).toNat = base + linearMapOffset := by
    apply toNat_ofNat_of_lt
    simp only [linearMapOffset]
    omega
  have hsize : (BitVec.ofNat 64 len).toNat = len := toNat_ofNat_of_lt (by omega)
  have hne : BitVec.ofNat 64 len ≠ 0#64 := by
    intro hzero
    rw [hzero] at hsize
    exact Nat.ne_of_gt hlen hsize.symm
  obtain ⟨turns, lines, hlines, hmem⟩ := rangeLines_spec ctrEl0 hne (by
    rw [hvirt, hsize]
    simp only [linearMapOffset]
    omega)
  rw [hvirt, hsize] at hmem
  refine ⟨turns, lines, hlines, fun n => ?_⟩
  constructor
  · rintro ⟨addr, haddr, rfl⟩
    obtain ⟨v, hv, hlt, heq⟩ := (hmem addr).mp haddr
    refine ⟨v - linearMapOffset, ⟨by omega, by omega⟩, ?_⟩
    have hline := lineStart_add_offset ctrEl0 (v - linearMapOffset)
    rw [Nat.sub_add_cancel (by omega)] at hline
    rw [heq, hline, virtToPhys_linear, Nat.mul_div_cancel _ hpos]
  · rintro ⟨a, ⟨ha, hlt⟩, rfl⟩
    have hdown := Nat.div_mul_le_self a (lineSize ctrEl0)
    obtain ⟨addr, hstart⟩ : ∃ addr : Word,
        addr.toNat = a / lineSize ctrEl0 * lineSize ctrEl0 + linearMapOffset := by
      refine ⟨_, toNat_ofNat_of_lt ?_⟩
      simp only [linearMapOffset]
      omega
    refine ⟨addr, (hmem _).mpr ⟨a + linearMapOffset, by omega, by omega, ?_⟩, ?_⟩
    · rw [hstart, lineStart_add_offset]
    · rw [hstart, virtToPhys_linear, Nat.mul_div_cancel _ hpos]

/-- One instruction for each address, by the line that it is on. -/
theorem forLines_map {lines : List Word} {size : Nat} {op : Nat → Access W}
    (h : ∀ n, (∃ addr ∈ lines, virtToPhys addr.toNat / size = n) ↔
      ∃ a, Range base len a ∧ a / size = n) :
    ForLines size (Range base len) op
      (lines.map fun addr => op (virtToPhys addr.toNat / size)) := by
  intro e
  rw [List.mem_map]
  constructor
  · rintro ⟨addr, haddr, rfl⟩
    obtain ⟨a, ha, heq⟩ := (h _).mp ⟨addr, haddr, rfl⟩
    exact ⟨a, ha, congrArg op heq.symm⟩
  · rintro ⟨a, ha, rfl⟩
    obtain ⟨addr, haddr, heq⟩ := (h _).mpr ⟨a, ha, rfl⟩
    exact ⟨addr, haddr, congrArg op heq⟩

/-- Both functions end, with an instruction for each line of the buffer. -/
theorem forLines_range (W : Type*) (ctrEl0 : Word) (hlen : 0 < len)
    (hlow : base + len ≤ linearMapSize) : ∃ turns, ∃ cleans drops : List (Access W),
      cleanDataCacheRange virtToPhys ctrEl0 (BitVec.ofNat 64 (base + linearMapOffset))
        (BitVec.ofNat 64 len) turns = some cleans ∧
      invalidateDataCacheRange virtToPhys ctrEl0 (BitVec.ofNat 64 (base + linearMapOffset))
        (BitVec.ofNat 64 len) turns = some drops ∧
      ForLines (lineSize ctrEl0) (Range base len) .clean cleans ∧
      ForLines (lineSize ctrEl0) (Range base len) .invalidate drops := by
  obtain ⟨turns, lines, hlines, hmem⟩ := rangeLines_linear ctrEl0 hlen hlow
  exact ⟨turns, _, _, congrArg (Option.map _) hlines, congrArg (Option.map _) hlines,
    forLines_map hmem, forLines_map hmem⟩

end Buffer

end Kruspix.Arch.DataCache
