import Kruspix.Drivers.Usb.Channel
import Mathlib.Tactic.SplitIfs

/-!
# What the channel does to its registers

The channel changes its interrupt register, its transfer register and the page. It
completes a packet once: the packet count is one when it is armed, and the bytes and
the packet are taken off when it completes.
-/

namespace Kruspix.Drivers.Usb

open Lib.Masks

variable {c : Channel}

/-- The bits other than the completion are all set. -/
theorem raisedBits_has {k : Word} (h : HCINT_XFER_COMPLETE &&& k = 0) (bits : Word) :
    has (c.raisedBits bits) k = has bits k := by
  rw [Channel.raisedBits]
  split
  · rfl
  · rw [has, and_not_and_of_disjoint h, has]

theorem raisedBits_xfer (bits : Word) : has (c.raisedBits bits) HCINT_XFER_COMPLETE =
    (c.packetPending && has bits HCINT_XFER_COMPLETE) := by
  rw [Channel.raisedBits]
  cases c.packetPending with
  | true => rw [if_pos rfl, Bool.true_and]
  | false =>
      rw [if_neg Bool.false_ne_true, Bool.false_and, has, BitVec.and_assoc,
        BitVec.and_comm (~~~_), BitVec.and_not_self]
      change (bits &&& 0#32 != 0#32) = false
      rw [BitVec.and_zero]
      rfl

@[simp] theorem raise_intMask (c : Channel) (r : Raise) : (c.raise r).intMask = c.intMask := by
  simp only [Channel.raise]
  split <;> rfl

@[simp] theorem raise_armedFor (c : Channel) (r : Raise) :
    (c.raise r).armedFor = c.armedFor := by
  simp only [Channel.raise]
  split <;> rfl

@[simp] theorem react_intMask (c : Channel) (r? : Option Raise) :
    (c.react r?).intMask = c.intMask := by
  cases r? with
  | none => rfl
  | some r => exact raise_intMask c r

theorem raise_enabled (c : Channel) (r : Raise) (h : (c.raise r).enabled) : c.enabled := by
  simp only [Channel.raise] at h
  split at h <;> exact (Bool.and_eq_true_iff.mp h).1

@[simp] theorem raise_dmaPhys (c : Channel) (r : Raise) : (c.raise r).dmaPhys = c.dmaPhys := by
  simp only [Channel.raise]
  split <;> rfl

@[simp] theorem raise_hcint (c : Channel) (r : Raise) :
    (c.raise r).hcint = c.hcint ||| c.raisedBits r.bits := by
  simp only [Channel.raise]
  split <;> rfl

@[simp] theorem raise_splitCtrl (c : Channel) (r : Raise) :
    (c.raise r).splitCtrl = c.splitCtrl := by
  simp only [Channel.raise]
  split <;> rfl

@[simp] theorem raise_dataPhase (c : Channel) (r : Raise) :
    (c.raise r).dataPhase = c.dataPhase := by
  rw [Channel.dataPhase, raise_splitCtrl, Channel.dataPhase]

/-- A data phase completes only when a packet is pending and the bit is set. -/
theorem raise_completed (r : Raise)
    (h : c.packetPending → c.dataPhase → has r.bits HCINT_XFER_COMPLETE = false) :
    (c.raise r).completed = c.completed := by
  simp only [Channel.raise, raisedBits_xfer]
  split
  · rename_i hxfer
    obtain ⟨hpending, hbits⟩ := Bool.and_eq_true_iff.mp hxfer
    cases hdata : c.dataPhase with
    | false => rfl
    | true => simp [h hpending hdata] at hbits
  · rfl

theorem raise_not_pending (r : Raise) (h : c.packetPending = false) :
    (c.raise r).packetPending = false := by
  simp only [Channel.raise, raisedBits_xfer, h, Bool.false_and, Bool.false_eq_true, if_false]
  exact h

/-- Nothing completes while the channel is halted. -/
theorem haltChannel_completed (reply : Option Raise)
    (h : c.packetPending → c.dataPhase → ∀ r ∈ reply, has r.bits HCINT_XFER_COMPLETE = false) :
    (c.haltChannel reply).2.completed = c.completed := by
  have hreact : (c.react reply).completed = c.completed := by
    cases reply with
    | none => rfl
    | some r => exact raise_completed r fun hpending hdata => h hpending hdata r rfl
  simp only [Channel.haltChannel]
  split_ifs
  · rfl
  · exact hreact
  · exact hreact

theorem haltChannel_not_pending (reply : Option Raise) (h : c.packetPending = false) :
    (c.haltChannel reply).2.packetPending = false := by
  have hreact : (c.react reply).packetPending = false := by
    cases reply with
    | none => exact h
    | some r => exact raise_not_pending r h
  simp only [Channel.haltChannel]
  split_ifs
  · exact h
  · exact hreact
  · exact hreact

/-- The transfer register holds a size and a packet count of one. -/
def Channel.OnePacket (c : Channel) (size : Nat) : Prop :=
  ∃ pid < 4, c.hctsiz.toNat = size + 2 ^ 19 + pid * 2 ^ 29

theorem remaining_eq_mod (c : Channel) : c.remaining = c.hctsiz.toNat % 2 ^ 19 := by
  rw [Channel.remaining, BitVec.toNat_and]
  exact Nat.and_two_pow_sub_one_eq_mod _ 19

theorem packetPending_iff : c.packetPending ↔ c.hctsiz.toNat / 2 ^ 19 % 2 ^ 10 ≠ 0 := by
  have hmask : (c.hctsiz >>> HCTSIZ_PACKET_COUNT_SHIFT &&& 0x3FF).toNat =
      c.hctsiz.toNat / 2 ^ 19 % 2 ^ 10 := by
    rw [BitVec.toNat_and, BitVec.toNat_ushiftRight, Nat.shiftRight_eq_div_pow]
    exact Nat.and_two_pow_sub_one_eq_mod _ 10
  rw [← hmask, Channel.packetPending, has, bne_iff_ne, ne_eq, ne_eq, BitVec.toNat_eq]
  rfl

theorem Channel.OnePacket.remaining {size : Nat} (h : c.OnePacket size) (hsize : size < 2 ^ 19) :
    c.remaining = size := by
  obtain ⟨pid, -, hword⟩ := h
  rw [remaining_eq_mod, hword]
  omega

theorem Channel.OnePacket.pending {size : Nat} (h : c.OnePacket size) (hsize : size < 2 ^ 19) :
    c.packetPending := by
  obtain ⟨pid, -, hword⟩ := h
  rw [packetPending_iff, hword]
  omega

/-- The packet and its bytes are taken off. -/
theorem Channel.OnePacket.taken {size len : Nat} (h : c.OnePacket size) (c' : Channel)
    (hsize : size < 2 ^ 19) (hlen : len ≤ size)
    (hword : c'.hctsiz = c.hctsiz - BitVec.ofNat 32 len - 1#32 <<< HCTSIZ_PACKET_COUNT_SHIFT) :
    c'.remaining = size - len ∧ ¬c'.packetPending := by
  obtain ⟨pid, hpid, hbefore⟩ := h
  have hafter : c'.hctsiz.toNat = size - len + pid * 2 ^ 29 := by
    have hlen' : (BitVec.ofNat 32 len).toNat = len := by
      rw [BitVec.toNat_ofNat]
      omega
    have hone : (1#32 <<< HCTSIZ_PACKET_COUNT_SHIFT).toNat = 2 ^ 19 := rfl
    rw [hword, BitVec.toNat_sub, BitVec.toNat_sub, hone, hlen', hbefore]
    omega
  constructor
  · rw [remaining_eq_mod, hafter]
    omega
  · rw [packetPending_iff, hafter]
    omega

/-- What the channel has done when it has completed its packet. -/
theorem Channel.OnePacket.raise {size : Nat} {r : Raise} (h : c.OnePacket size)
    (hsize : size < 2 ^ 19) (hxfer : has (c.raisedBits r.bits) HCINT_XFER_COMPLETE) :
    ∃ payload rest, payload.length ≤ size ∧ (c.raise r).remaining + payload.length = size ∧
      ¬(c.raise r).packetPending ∧ (c.raise r).memory c.dmaPhys = payload ++ rest ∧
      (c.raise r).completed =
        if c.dataPhase then c.completed ++ [payload] else c.completed := by
  have hlen : (if c.dataPhase then r.payload.take c.remaining else []).length ≤ size := by
    rw [h.remaining hsize]
    split
    · exact List.length_take_le _ _
    · exact Nat.zero_le _
  obtain ⟨hleft, hdone⟩ := h.taken (c.raise r) hsize hlen (by
    simp only [Channel.raise, hxfer, if_true])
  have hmemory : (c.raise r).memory c.dmaPhys =
      (if c.dataPhase then r.payload.take c.remaining else []) ++ (c.memory c.dmaPhys).drop
        (if c.dataPhase then r.payload.take c.remaining else []).length := by
    simp only [Channel.raise, hxfer, if_true]
    rw [Function.update_self]
  refine ⟨_, _, hlen, ?_, hdone, hmemory, ?_⟩
  · rw [hleft]
    omega
  · simp only [Channel.raise, hxfer, if_true]

theorem PacketId.bits_high (packetId : PacketId) :
    ∃ pid < 4, (1#32 <<< HCTSIZ_PACKET_COUNT_SHIFT ||| packetId.bits <<< HCTSIZ_PID_SHIFT).toNat =
        2 ^ 19 + pid * 2 ^ 29 ∧
      HCTSIZ_TRANSFER_SIZE_MASK &&&
        (1#32 <<< HCTSIZ_PACKET_COUNT_SHIFT ||| packetId.bits <<< HCTSIZ_PID_SHIFT) = 0#32 := by
  cases packetId with
  | data0 => exact ⟨0, by decide⟩
  | data1 => exact ⟨2, by decide⟩
  | setup => exact ⟨3, by decide⟩

/-- What is written to the transfer register is one packet of the programmed size. -/
theorem xferSize_onePacket (request : ChannelRequest) (hword : c.hctsiz = request.xferSize)
    (hsize : programmedTransferSize request < 2 ^ 19) :
    c.OnePacket (programmedTransferSize request) := by
  have hlow : (BitVec.ofNat 32 (programmedTransferSize request) &&&
      HCTSIZ_TRANSFER_SIZE_MASK).toNat = programmedTransferSize request := by
    rw [BitVec.toNat_and, BitVec.toNat_ofNat]
    change _ % 2 ^ 32 &&& (2 ^ 19 - 1) = _
    rw [Nat.and_two_pow_sub_one_eq_mod]
    omega
  obtain ⟨pid, hpid, hhigh, hdisjoint⟩ := request.packetId.bits_high
  refine ⟨pid, hpid, ?_⟩
  rw [hword, ChannelRequest.xferSize, BitVec.or_assoc, ← BitVec.add_eq_or_of_and_eq_zero,
    BitVec.toNat_add, hlow, hhigh]
  · omega
  · rw [BitVec.and_assoc, hdisjoint, BitVec.and_zero]

end Kruspix.Drivers.Usb
