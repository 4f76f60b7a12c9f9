import Kruspix.Arch.DataCache
import Kruspix.Drivers.PropertyMessage

/-!
# Messages of the property interface and the data cache

The firmware reads a message and writes its answer over it, behind the cache. A message is beside
other data on a stack, and starts at a multiple of 64.
-/

namespace Kruspix.Drivers.PropertyMessage.Message

open Arch.DataCache Lib.WriteBackCache Mm.Layout

/-- What `repr` aligns a message to. -/
def alignment : Nat := 64

/-- `size_of::<Message<N>>()`. -/
def byteSize (words : Nat) : Nat := (2 + words) * 4

/-- The bytes of a message at a physical address. -/
def Covers (words physAddr : Nat) : Nat → Prop := Range physAddr (byteSize words)

section

variable (words : Nat) (ctrEl0 virtAddr : BitVec 64) (turns : Nat)

/-- Before `property` sends the message. -/
def cleanCache : Option (List (Access UInt8)) :=
  cleanDataCacheRange virtToPhys ctrEl0 virtAddr (BitVec.ofNat 64 (byteSize words)) turns

/-- Before `property` looks at the answer. -/
def invalidateCache : Option (List (Access UInt8)) :=
  invalidateDataCacheRange virtToPhys ctrEl0 virtAddr (BitVec.ofNat 64 (byteSize words)) turns

end

variable {n words physAddr : Nat}

/-- The reason that `ConstChecks` gives. -/
theorem alignment_dvd_byteSize (h : ConstChecks n words) : alignment ∣ byteSize words := by
  obtain ⟨-, -, hmod⟩ := h
  rw [alignment, byteSize]
  omega

/-- Whatever the state of the cache and whatever others do meanwhile, the firmware reads the
message, the processors read its answer, and nothing beside the message is lost: exactly if the
message is made of whole lines, and so with lines of up to 64 bytes. -/
theorem property_coherent_iff (hchecks : ConstChecks n words) (hal : alignment ∣ physAddr)
    (hlow : physAddr + byteSize words ≤ linearMapSize) (ctrEl0 : BitVec 64) :
    ∃ turns cleans drops,
      cleanCache words ctrEl0 (BitVec.ofNat 64 (physAddr + linearMapOffset)) turns = some cleans ∧
      invalidateCache words ctrEl0 (BitVec.ofNat 64 (physAddr + linearMapOffset)) turns =
        some drops ∧
      (Coherent (lineSize ctrEl0) (Covers words physAddr) (Covers words physAddr) cleans drops ↔
        lineSize ctrEl0 ∣ physAddr ∧ lineSize ctrEl0 ∣ byteSize words) ∧
      (dminLine ctrEl0 ≤ 4 →
        Coherent (lineSize ctrEl0) (Covers words physAddr) (Covers words physAddr)
          cleans drops) := by
  have hsize : 0 < byteSize words := by
    rw [byteSize]
    omega
  obtain ⟨turns, cleans, drops, hclean, hdrop, hcleans, hdrops⟩ :=
    forLines_range UInt8 ctrEl0 hsize hlow
  have := nontrivial_byte
  have hiff : Coherent (lineSize ctrEl0) (Covers words physAddr) (Covers words physAddr)
      cleans drops ↔ lineSize ctrEl0 ∣ physAddr ∧ lineSize ctrEl0 ∣ byteSize words :=
    (coherent_iff_whole hcleans hdrops).trans (whole_range_iff (lineSize_pos ctrEl0) hsize)
  refine ⟨turns, cleans, drops, hclean, hdrop, hiff, fun hline => hiff.mpr ?_⟩
  have hdvd : lineSize ctrEl0 ∣ alignment := (lineSize_dvd_iff ctrEl0 6).mpr (by omega)
  exact ⟨Nat.dvd_trans hdvd hal, Nat.dvd_trans hdvd (alignment_dvd_byteSize hchecks)⟩

/-- The message that allocates a framebuffer, with lines of 64 bytes. -/
theorem property_coherent_iff_framebuffer : ∃ turns cleans drops,
    cleanCache 46 0x84448004#64 (BitVec.ofNat 64 (0x80000 + linearMapOffset)) turns = some cleans ∧
      invalidateCache 46 0x84448004#64 (BitVec.ofNat 64 (0x80000 + linearMapOffset)) turns =
        some drops ∧
      Coherent (lineSize 0x84448004#64) (Covers 46 0x80000) (Covers 46 0x80000) cleans drops := by
  have hchecks : ConstChecks 14 46 := ⟨by decide, by decide, by decide⟩
  obtain ⟨turns, cleans, drops, hclean, hdrop, -, hcoherent⟩ :=
    property_coherent_iff hchecks (by decide : alignment ∣ 0x80000) (by decide) 0x84448004#64
  exact ⟨turns, cleans, drops, hclean, hdrop, hcoherent (by decide)⟩

end Kruspix.Drivers.PropertyMessage.Message
