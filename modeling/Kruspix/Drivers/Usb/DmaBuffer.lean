import Kruspix.Arch.DataCache
import Kruspix.Drivers.Usb.Core

/-!
# The buffers of the host controller and the data cache

The controller reads and writes the memory behind the cache. The driver cleans a buffer before
the controller has it, and drops its lines before it reads what the controller has left. A line
that the buffer shares with other data is dropped with them.
-/

namespace Kruspix.Drivers.Usb.UsbDmaBuffer

open Arch.DataCache Lib.WriteBackCache Mm.Layout

variable (b : UsbDmaBuffer) (ctrEl0 : BitVec 64)

/-- The page that the buffer has for itself. -/
def Page : Nat → Prop := Range b.physAddr pageSize

/-- The bytes of the buffer. -/
def Covers : Nat → Prop := Range b.physAddr b.len

/-- The page is a frame of the linear map. -/
def IsFrame : Prop := pageSize ∣ b.physAddr ∧ b.physAddr + pageSize ≤ linearMapSize

/-- The buffer is overwritten from its first byte on. -/
def fillWith (bytes : List UInt8) : List (Access UInt8) :=
  bytes.mapIdx fun i byte => .store (b.physAddr + i) byte

/-- Fill the buffer with zeros. -/
def clear : List (Access UInt8) := b.fillWith (.replicate b.len 0)

/-- `write`: the bytes, and zeros up to the end of the buffer. -/
def write (bytes : List UInt8) : Except UsbError (List (Access UInt8)) :=
  if bytes.length > b.len then .error .bufferTooLarge
  else .ok (b.fillWith (bytes ++ .replicate (b.len - bytes.length) 0))

/-- The address of the buffer in the linear map. -/
def virtAddr : BitVec 64 := BitVec.ofNat 64 (b.physAddr + linearMapOffset)

/-- Write the lines of the buffer to the memory. -/
def cleanCache (turns : Nat) : Option (List (Access UInt8)) :=
  cleanDataCacheRange virtToPhys ctrEl0 b.virtAddr (BitVec.ofNat 64 b.len) turns

/-- Drop the lines of the buffer from the cache. -/
def invalidateCache (turns : Nat) : Option (List (Access UInt8)) :=
  invalidateDataCacheRange virtToPhys ctrEl0 b.virtAddr (BitVec.ofNat 64 b.len) turns

/-- In any state of the cache and whatever others do meanwhile, the controller reads what was
written, the driver reads what the controller has left, and nothing of others is lost.
`control_transfer` writes and cleans before it sends. To receive, it clears and cleans, and
invalidates at the end, as `start_interrupt_locked` and `handle_interrupt_channel_irq` do. -/
structure Transfers (cleans drops : List (Access UInt8)) : Prop where
  written : ∀ {bytes stores m t}, b.write bytes = .ok stores →
    Runs (lineSize ctrEl0) (Foreign (lineSize ctrEl0) b.Page) (stores ++ cleans) m t →
      ∀ i < b.len, t.ram (b.physAddr + i) = bytes.getD i 0
  received : ∀ {m s u t},
    Runs (lineSize ctrEl0) (Foreign (lineSize ctrEl0) b.Page) (b.clear ++ cleans) m s →
      Runs (lineSize ctrEl0) (Device (lineSize ctrEl0) b.Page b.Covers) [] s u →
        Runs (lineSize ctrEl0) (Foreign (lineSize ctrEl0) b.Page) drops u t →
          ∀ i < b.len, t.read (lineSize ctrEl0) (b.physAddr + i) = u.ram (b.physAddr + i)
  spared : ∀ {others : Access UInt8 → Prop} {bytes stores es c w m t},
    b.write bytes = .ok stores → es = stores ++ cleans ∨ es = drops → ¬b.Page c →
      Runs (lineSize ctrEl0) (fun e => others e ∧ Spares (lineSize ctrEl0) c e) es m t →
        m.CpuHas (lineSize ctrEl0) c w → t.CpuHas (lineSize ctrEl0) c w

variable {b ctrEl0}

/-! ## What is stored -/

theorem mem_fillWith {bytes : List UInt8} {e : Access UInt8} :
    e ∈ b.fillWith bytes ↔ ∃ i byte, bytes[i]? = some byte ∧ e = .store (b.physAddr + i) byte := by
  rw [fillWith, List.mem_mapIdx]
  constructor
  · rintro ⟨i, hi, rfl⟩
    exact ⟨i, bytes[i], List.getElem?_eq_getElem hi, rfl⟩
  · rintro ⟨i, byte, hbyte, rfl⟩
    obtain ⟨hi, rfl⟩ := List.getElem?_eq_some_iff.mp hbyte
    exact ⟨i, hi, rfl⟩

/-- Each byte is stored once. -/
theorem store_mem_fillWith {bytes : List UInt8} {i : Nat} {byte : UInt8} :
    .store (b.physAddr + i) byte ∈ b.fillWith bytes ↔ bytes[i]? = some byte := by
  rw [mem_fillWith]
  constructor
  · rintro ⟨j, byte', hbyte, heq⟩
    obtain ⟨hij, rfl⟩ := Access.store.inj heq
    rwa [Nat.add_left_cancel hij]
  · exact fun h => ⟨i, byte, h, rfl⟩

theorem write_eq_ok {bytes : List UInt8} {stores : List (Access UInt8)}
    (h : b.write bytes = .ok stores) :
    bytes.length ≤ b.len ∧
      stores = b.fillWith (bytes ++ .replicate (b.len - bytes.length) 0) := by
  unfold write at h
  split at h
  · cases h
  · rename_i hle
    cases h
    exact ⟨Nat.le_of_not_lt hle, rfl⟩

theorem getElem?_padded {bytes : List UInt8} {i : Nat} (hle : bytes.length ≤ b.len)
    (hi : i < b.len) :
    (bytes ++ List.replicate (b.len - bytes.length) 0)[i]? = some (bytes.getD i 0) := by
  rw [List.getD_eq_getElem?_getD]
  by_cases hlt : i < bytes.length
  · rw [List.getElem?_append_left hlt, List.getElem?_eq_getElem hlt]
    rfl
  · have hge : bytes.length ≤ i := Nat.le_of_not_lt hlt
    rw [List.getElem?_append_right hge, List.getElem?_eq_none hge,
      List.getElem?_replicate_of_lt (by omega)]
    rfl

/-- Clearing is writing nothing. -/
theorem clear_eq : b.write [] = .ok b.clear := if_neg (Nat.not_lt_zero _)

theorem cpuHas_of_fillWith {size : Nat} {bytes : List UInt8} {m t : Memory UInt8} {i : Nat}
    {byte : UInt8} (hrun : Runs size (Foreign size b.Page) (b.fillWith bytes) m t)
    (hi : i < b.len) (hbyte : bytes[i]? = some byte) : t.CpuHas size (b.physAddr + i) byte := by
  apply hrun.stored
  · intro e he
    obtain ⟨j, byte', -, rfl⟩ := mem_fillWith.mp he
    exact ⟨_, _, rfl⟩
  · exact range_of_lt (Nat.lt_of_lt_of_le hi b.fits.2)
  · exact store_mem_fillWith.mpr hbyte
  · intro byte' hbyte'
    exact Option.some.inj ((store_mem_fillWith.mp hbyte').symm.trans hbyte)

/-! ## Transfers -/

section Transfers

variable {cleans drops : List (Access UInt8)}

theorem transfers_of_coherent
    (h : Coherent (lineSize ctrEl0) b.Page b.Covers cleans drops) :
    b.Transfers ctrEl0 cleans drops where
  written := by
    intro bytes stores m t hwrite hrun i hi
    obtain ⟨hle, rfl⟩ := write_eq_ok hwrite
    obtain ⟨s, hstored, hcleaned⟩ := hrun.split
    have hs := cpuHas_of_fillWith hstored hi (getElem?_padded hle hi)
    exact h.sent (range_of_lt hi) hs hcleaned
  received := by
    intro m s u t hfirst hdevice hlast i hi
    obtain ⟨s', hstored, hcleaned⟩ := hfirst.split
    have hs' := cpuHas_of_fillWith hstored hi (List.getElem?_replicate_of_lt hi)
    exact h.received (range_of_lt hi) hs' hcleaned hdevice hlast
  spared := by
    intro others bytes stores es c w m t hwrite hes hc hrun hm
    obtain ⟨hle, rfl⟩ := write_eq_ok hwrite
    rcases hes with rfl | rfl
    · obtain ⟨s, hstored, hcleaned⟩ := hrun.split
      refine h.spared hc (.inl rfl) hcleaned (hstored.spared (fun e he => ?_) hm)
      obtain ⟨i, byte, hbyte, rfl⟩ := mem_fillWith.mp he
      rintro rfl
      have hlt := (List.getElem?_eq_some_iff.mp hbyte).1
      rw [List.length_append, List.length_replicate, Nat.add_sub_cancel' hle] at hlt
      exact hc (range_of_lt (Nat.lt_of_lt_of_le hlt b.fits.2))
    · exact h.spared hc (.inr rfl) hrun hm

/-- The lines are no longer than a page. -/
theorem whole_iff (h : b.IsFrame) :
    Whole (lineSize ctrEl0) b.Page b.Covers ↔ dminLine ctrEl0 ≤ 10 := by
  have hpos := lineSize_pos ctrEl0
  have hdvd : lineSize ctrEl0 ∣ pageSize ↔ dminLine ctrEl0 + 2 ≤ 12 := lineSize_dvd_iff ctrEl0 12
  constructor
  · intro hw
    by_contra hline
    have hlarge : pageSize < lineSize ctrEl0 := by
      rw [lineSize_eq]
      exact Nat.pow_lt_pow_right (by decide : 1 < 2) (by omega : 12 < dminLine ctrEl0 + 2)
    -- the page starts a line, and the next page is on it
    obtain ⟨q, hq⟩ := hw.dvd_base b.fits.1
    have hnext : (b.physAddr + pageSize) / lineSize ctrEl0 = b.physAddr / lineSize ctrEl0 := by
      rw [hq, Nat.mul_add_div hpos, Nat.div_eq_of_lt hlarge, Nat.mul_div_cancel_left q hpos,
        Nat.add_zero]
    have hpage := hw b.physAddr (range_of_lt b.fits.1) (b.physAddr + pageSize) hnext
    exact Nat.lt_irrefl _ hpage.2
  · intro hline
    have hpage := hdvd.mpr (by omega)
    exact whole_range hpos (Nat.dvd_trans hpage h.1) hpage b.fits.2

/-- The loops over the lines end, and all transfers are right exactly if no line is longer than
a page. -/
theorem transfers_iff (h : b.IsFrame) (ctrEl0 : BitVec 64) : ∃ turns cleans drops,
    b.cleanCache ctrEl0 turns = some cleans ∧ b.invalidateCache ctrEl0 turns = some drops ∧
      (b.Transfers ctrEl0 cleans drops ↔ dminLine ctrEl0 ≤ 10) := by
  have hlow : b.physAddr + b.len ≤ linearMapSize :=
    Nat.le_trans (Nat.add_le_add_left b.fits.2 _) h.2
  obtain ⟨turns, cleans, drops, hclean, hdrop, hcleans, hdrops⟩ :=
    forLines_range UInt8 ctrEl0 b.fits.1 hlow
  refine ⟨turns, cleans, drops, hclean, hdrop, fun htransfers => ?_, fun hline => ?_⟩
  · have := nontrivial_byte
    have hw : Whole (lineSize ctrEl0) b.Page (Range b.physAddr b.len) := by
      refine whole_of_spared hdrops fun {m c w} hc hm => ?_
      have hrun := Runs.foldl (lineSize ctrEl0)
        (fun e => False ∧ Spares (lineSize ctrEl0) c e) drops m
      exact htransfers.spared clear_eq (.inr rfl) hc hrun hm
    exact (whole_iff h).mp hw
  · exact transfers_of_coherent (((whole_iff h).mpr hline).coherent hcleans hdrops)

theorem setup_fits : 0 < 8 ∧ 8 ≤ pageSize := by decide

/-- A buffer for a setup packet. -/
def setupBuffer : UsbDmaBuffer := ⟨0x100000, 8, setup_fits⟩

/-- With lines of 64 bytes. -/
theorem transfers_iff_setup : setupBuffer.IsFrame ∧ ∃ turns cleans drops,
    setupBuffer.cleanCache 0x84448004#64 turns = some cleans ∧
      setupBuffer.invalidateCache 0x84448004#64 turns = some drops ∧
        setupBuffer.Transfers 0x84448004#64 cleans drops := by
  have hframe : setupBuffer.IsFrame := ⟨by decide, by decide⟩
  obtain ⟨turns, cleans, drops, hclean, hdrop, hiff⟩ := transfers_iff hframe 0x84448004#64
  exact ⟨hframe, turns, cleans, drops, hclean, hdrop, hiff.mpr (by decide)⟩

end Transfers

end Kruspix.Drivers.Usb.UsbDmaBuffer
