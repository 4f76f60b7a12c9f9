import Kruspix.Drivers.Usb.TransferLength
import Kruspix.Lib.Loop

/-!
# The data stage of a control transfer

The data go packet by packet through one buffer. A packet that is shorter than
asked for is the last one. The loop has no bound of its own, and the size of a
packet is at most what the device has reported.
-/

namespace Kruspix.Drivers.Usb

open Lib.Loop

/-- The fields of a setup packet. -/
structure SetupPacket where
  requestType : UInt8
  request : UInt8
  value : UInt16
  index : UInt16
  length : UInt16
  deriving DecidableEq, Repr

/-- The direction of the data stage. -/
def SetupPacket.direction (setup : SetupPacket) : UsbDirection :=
  if setup.requestType &&& USB_REQ_DIR_IN ≠ 0 then .dirIn else .dirOut

/-- The rounds of a split transaction. Each one makes a start and a complete transaction. -/
def pollSplit (ctl : Controller) (channel : Nat) (request : ChannelRequest)
    (rounds : Nat → (Nat → Attempt) × (Nat → Attempt)) : Nat → Except UsbError Nat
  | 0 => .error .timeout
  | n + 1 =>
      match runSingleTransactionPolling ctl channel { request with splitPhase := .start }
          (rounds 0).1 with
      | .error e => .error e
      | .ok _ =>
          match runSingleTransactionPolling ctl channel { request with splitPhase := .complete }
              (rounds 0).2 with
          | .ok actual => .ok actual
          | .error .busy => pollSplit ctl channel request (fun k => rounds (k + 1)) n
          | .error e => .error e

/-- `transfer_packet_polling` for the control endpoint. -/
def transferPacketPolling (ctl : Controller) (channel : Nat) (route : UsbRoute)
    (direction : UsbDirection) (maxPacketSize : UInt16) (packetId : PacketId) (transferSize : Nat)
    (rounds : Nat → (Nat → Attempt) × (Nat → Attempt)) : Except UsbError Nat :=
  let request : ChannelRequest :=
    ⟨route, 0, .control, direction, maxPacketSize, packetId, transferSize, false, .none⟩
  if !route.usesSplitTransactions then
    runSingleTransactionPolling ctl channel request (rounds 0).1
  else pollSplit ctl channel request rounds MAX_TRANSACTION_RETRIES

/-- A packet of the data stage: where it is in the buffer, and how it is sent. -/
structure Packet where
  offset : Nat
  len : Nat
  packetId : PacketId
  direction : UsbDirection
  deriving DecidableEq, Repr

/-- What the channel answers to the packets, by their number. It reports at most the length
that it was asked for. -/
structure Answers where
  answer : Nat → Packet → Except UsbError Nat
  bounded : ∀ n packet actual, answer n packet = .ok actual → actual ≤ packet.len

/-- A panic, or an error of the transfer. -/
inductive Stop
  | panic
  | err (error : UsbError)
  deriving DecidableEq, Repr

/-- The variables of the loop, the packets so far and how the loop was left early. -/
structure DataStage where
  transferred : Nat
  offset : Nat
  remaining : Nat
  packetId : PacketId
  sent : List Packet
  stopped : Option Stop
  deriving DecidableEq, Repr

/-- The data stage starts with DATA1. -/
def DataStage.start (dataLen : Nat) : DataStage := ⟨0, 0, dataLen, .data1, [], none⟩

/-- One turn of the loop. -/
def dataTurn (dataBuffer : UsbDmaBuffer) (maxPacketSize : UInt16) (setup : SetupPacket)
    (answers : Answers) (s : DataStage) : Turn DataStage :=
  if s.remaining = 0 then .stop s
  else
    let packetLen := min s.remaining maxPacketSize.toNat
    match busAddress (dataBuffer.physAddr + s.offset) with
    | .error e => .stop { s with stopped := some (.err e) }
    | .ok _ =>
        let packet : Packet := ⟨s.offset, packetLen, s.packetId, setup.direction⟩
        let s' := { s with sent := s.sent ++ [packet] }
        match answers.answer s.sent.length packet with
        | .error e => .stop { s' with stopped := some (.err e) }
        | .ok actual =>
            if s.remaining < actual then .stop { s' with stopped := some .panic }
            else
              let s' := { s' with
                transferred := s.transferred + actual
                offset := s.offset + actual
                remaining := s.remaining - actual }
              if actual < packetLen then .stop s'
              else .next { s' with packetId := s.packetId.toggled }

/-- The data stage of `control_transfer`, if it ends within `fuel` turns. -/
def dataStage (dataBuffer : UsbDmaBuffer) (maxPacketSize : UInt16) (setup : SetupPacket)
    (answers : Answers) (dataLen fuel : Nat) : Option DataStage :=
  loopFor (dataTurn dataBuffer maxPacketSize setup answers) fuel (.start dataLen)

/-- Each packet starts where the one before it ends, and the data toggle alternates. The
offset and the toggle of the next packet. -/
inductive Follows : List Packet → Nat → PacketId → Prop
  | nil : Follows [] 0 .data1
  | snoc {sent : List Packet} {offset : Nat} {packetId : PacketId} (h : Follows sent offset packetId)
      (len : Nat) (direction : UsbDirection) :
      Follows (sent ++ [⟨offset, len, packetId, direction⟩]) (offset + len) packetId.toggled

/-- What the data stage sends and counts stays within the data and the buffer. -/
structure WithinData (dataBuffer : UsbDmaBuffer) (dataLen : Nat) (t : DataStage) : Prop where
  transferred : t.transferred ≤ dataLen
  fits : ∀ p ∈ t.sent, p.offset + p.len ≤ dataBuffer.len
  follows : ∃ offset packetId, Follows t.sent offset packetId
  noPanic : t.stopped ≠ some .panic

/-- The data stage ends, and stays within the data. -/
def Finishes (dataBuffer : UsbDmaBuffer) (maxPacketSize : UInt16) (setup : SetupPacket)
    (answers : Answers) (dataLen : Nat) : Prop :=
  ∃ fuel t, dataStage dataBuffer maxPacketSize setup answers dataLen fuel = some t ∧
    WithinData dataBuffer dataLen t

/-- The `n`th packet when no packet carries data. -/
def emptyPacket (setup : SetupPacket) (n : Nat) : Packet :=
  ⟨0, 0, PacketId.toggled^[n] .data1, setup.direction⟩

/-- The device has reported a packet size, there are no data, or some empty packet is not sent
or answered with an error. -/
def Progresses (dataBuffer : UsbDmaBuffer) (maxPacketSize : UInt16) (setup : SetupPacket)
    (answers : Answers) (dataLen : Nat) : Prop :=
  maxPacketSize ≠ 0 ∨ dataLen = 0 ∨ (∃ e, busAddress dataBuffer.physAddr = .error e) ∨
    ∃ n e, answers.answer n (emptyPacket setup n) = .error e

section Bounds

theorem outcome_le {attempt : Attempt} {request : ChannelRequest} {actual : Nat}
    (h : attempt.outcome request = some (.ok actual)) : actual ≤ request.transferSize := by
  unfold Attempt.outcome at h
  split at h
  · cases h
  · dsimp only at h
    split_ifs at h
    · cases h
    · cases h
    · cases h
      exact Nat.zero_le _
    · cases h
      exact Nat.le_refl _
    · cases h
      exact Nat.min_le_right _ _

theorem pollTransaction_le {request : ChannelRequest} {attempts : Nat → Attempt} {n actual : Nat}
    (h : pollTransaction request attempts n = .ok actual) : actual ≤ request.transferSize := by
  induction n generalizing attempts with
  | zero => cases h
  | succ n ih =>
      rw [pollTransaction] at h
      split at h
      · rename_i outcome houtcome
        rw [h] at houtcome
        exact outcome_le houtcome
      · exact ih h

theorem runSingleTransactionPolling_le {ctl : Controller} {channel : Nat}
    {request : ChannelRequest} {attempts : Nat → Attempt} {actual : Nat}
    (h : runSingleTransactionPolling ctl channel request attempts = .ok actual) :
    actual ≤ request.transferSize := by
  unfold runSingleTransactionPolling at h
  split_ifs at h
  exact pollTransaction_le h

theorem pollSplit_le {ctl : Controller} {channel : Nat} {request : ChannelRequest}
    {rounds : Nat → (Nat → Attempt) × (Nat → Attempt)} {n actual : Nat}
    (h : pollSplit ctl channel request rounds n = .ok actual) : actual ≤ request.transferSize := by
  induction n generalizing rounds with
  | zero => cases h
  | succ n ih =>
      rw [pollSplit] at h
      split at h
      · cases h
      · split at h
        · rename_i hok
          cases h
          exact (runSingleTransactionPolling_le hok :)
        · exact ih h
        · cases h

/-- A packet reports at most the length that was asked for, whatever the channel does. -/
theorem transferPacketPolling_le {ctl : Controller} {channel : Nat} {route : UsbRoute}
    {direction : UsbDirection} {maxPacketSize : UInt16} {packetId : PacketId}
    {transferSize actual : Nat} {rounds : Nat → (Nat → Attempt) × (Nat → Attempt)}
    (h : transferPacketPolling ctl channel route direction maxPacketSize packetId transferSize
      rounds = .ok actual) : actual ≤ transferSize := by
  unfold transferPacketPolling at h
  dsimp only at h
  split_ifs at h
  · exact runSingleTransactionPolling_le h
  · exact pollSplit_le h

end Bounds

/-- The answers of a channel, from what it shows in the attempts for each packet. -/
def Answers.ofRounds (ctl : Controller) (channel : Nat) (route : UsbRoute) (maxPacketSize : UInt16)
    (rounds : Nat → Nat → (Nat → Attempt) × (Nat → Attempt)) : Answers where
  answer n packet := transferPacketPolling ctl channel route packet.direction maxPacketSize
    packet.packetId packet.len (rounds n)
  bounded _ _ _ h := transferPacketPolling_le h

section DataStage

variable {dataBuffer : UsbDmaBuffer} {maxPacketSize : UInt16} {setup : SetupPacket}
  {answers : Answers} {dataLen : Nat}

/-- What holds at the start of every turn. -/
structure InStage (dataBuffer : UsbDmaBuffer) (dataLen : Nat) (s : DataStage) : Prop where
  total : s.transferred + s.remaining = dataLen
  offset : s.offset = s.transferred
  fits : ∀ p ∈ s.sent, p.offset + p.len ≤ dataBuffer.len
  follows : Follows s.sent s.offset s.packetId
  stopped : s.stopped = none

theorem inStage_start : InStage dataBuffer dataLen (.start dataLen) where
  total := Nat.zero_add dataLen
  offset := rfl
  fits := nofun
  follows := .nil
  stopped := rfl

/-- A turn ends the loop within the data, or sends a packet and goes on behind it. -/
theorem InStage.turn {s : DataStage} (h : InStage dataBuffer dataLen s)
    (hlen : dataLen ≤ dataBuffer.len) :
    (∃ t, dataTurn dataBuffer maxPacketSize setup answers s = .stop t ∧
        WithinData dataBuffer dataLen t) ∨
      s.remaining ≠ 0 ∧
        let len := min s.remaining maxPacketSize.toNat
        let packet : Packet := ⟨s.offset, len, s.packetId, setup.direction⟩
        (∀ e, busAddress (dataBuffer.physAddr + s.offset) ≠ .error e) ∧
        (∀ e, answers.answer s.sent.length packet ≠ .error e) ∧
        ∃ t, dataTurn dataBuffer maxPacketSize setup answers s = .next t ∧
          InStage dataBuffer dataLen t ∧ t.remaining = s.remaining - len ∧
          t.sent = s.sent ++ [packet] := by
  obtain ⟨htotal, hoffset, hfits, hfollows, hstopped⟩ := h
  have hnoPanic : s.stopped ≠ some .panic := by
    rw [hstopped]
    exact nofun
  by_cases hzero : s.remaining = 0
  · refine .inl ⟨s, ?_, ⟨by omega, hfits, ⟨_, _, hfollows⟩, hnoPanic⟩⟩
    rw [dataTurn, if_pos hzero]
  generalize hpacketLen : min s.remaining maxPacketSize.toNat = packetLen
  have hle : packetLen ≤ s.remaining := hpacketLen ▸ Nat.min_le_left _ _
  -- The packet lies in the buffer whatever the answer to it is.
  have hfits' : ∀ p ∈ s.sent ++ [⟨s.offset, packetLen, s.packetId, setup.direction⟩],
      p.offset + p.len ≤ dataBuffer.len := by
    intro p hp
    rcases List.mem_append.mp hp with hp | hp
    · exact hfits p hp
    · obtain rfl := List.mem_singleton.mp hp
      dsimp only
      omega
  have hfollows' := hfollows.snoc packetLen setup.direction
  unfold dataTurn
  rw [if_neg hzero]
  dsimp only
  rw [hpacketLen]
  cases hbus : busAddress (dataBuffer.physAddr + s.offset) with
  | error e => exact .inl ⟨_, rfl, ⟨by dsimp only; omega, hfits, ⟨_, _, hfollows⟩, nofun⟩⟩
  | ok dma =>
      dsimp only
      cases hanswer : answers.answer s.sent.length
          ⟨s.offset, packetLen, s.packetId, setup.direction⟩ with
      | error e => exact .inl ⟨_, rfl, ⟨by dsimp only; omega, hfits', ⟨_, _, hfollows'⟩, nofun⟩⟩
      | ok actual =>
          have hbound : actual ≤ packetLen := answers.bounded _ _ _ hanswer
          dsimp only
          rw [if_neg (by omega)]
          by_cases hshort : actual < packetLen
          · rw [if_pos hshort]
            exact .inl ⟨_, rfl, ⟨by dsimp only; omega, hfits', ⟨_, _, hfollows'⟩, hnoPanic⟩⟩
          · obtain rfl : actual = packetLen := by omega
            rw [if_neg hshort]
            exact .inr ⟨hzero, nofun, nofun, _, rfl,
              ⟨by dsimp only; omega, by dsimp only; omega, hfits', hfollows', hstopped⟩, rfl, rfl⟩

/-- With a packet size every packet that does not end the loop carries data. -/
theorem finishes_of_size (hlen : dataLen ≤ dataBuffer.len) (hsize : maxPacketSize ≠ 0) :
    Finishes dataBuffer maxPacketSize setup answers dataLen := by
  have hpos : maxPacketSize.toNat ≠ 0 := fun h => hsize (UInt16.toNat_inj.mp h)
  refine loopFor_spec (I := InStage dataBuffer dataLen) DataStage.remaining (fun s hs => ?_)
    inStage_start
  rcases hs.turn hlen with hstop | ⟨hzero, -, -, t, ht, hstage, hrem, -⟩
  · exact .inr hstop
  · exact .inl ⟨t, ht, hstage, by omega⟩

theorem finishes_of_empty (hlen : dataLen ≤ dataBuffer.len) (hempty : dataLen = 0) :
    Finishes dataBuffer maxPacketSize setup answers dataLen := by
  refine loopFor_spec (I := InStage dataBuffer dataLen) DataStage.remaining (fun s hs => ?_)
    inStage_start
  rcases hs.turn hlen with hstop | ⟨hzero, -⟩
  · exact .inr hstop
  · have htotal := hs.total
    omega

theorem Follows.packetId_eq {sent : List Packet} {offset : Nat} {packetId : PacketId}
    (h : Follows sent offset packetId) : packetId = PacketId.toggled^[sent.length] .data1 := by
  induction h with
  | nil => rfl
  | snoc h len direction ih =>
      rw [List.length_append, List.length_singleton, Function.iterate_succ_apply', ← ih]

/-- Without a packet size the next packet is empty, as long as no packet has carried data. -/
theorem InStage.packet_eq (setup : SetupPacket) {s : DataStage}
    (h : InStage dataBuffer dataLen s) (hwhole : s.remaining = dataLen) :
    s.offset = 0 ∧ (⟨s.offset, min s.remaining (0 : UInt16).toNat, s.packetId, setup.direction⟩ :
      Packet) = emptyPacket setup s.sent.length := by
  have htotal := h.total
  have hoffset : s.offset = 0 := by
    rw [h.offset]
    omega
  refine ⟨hoffset, ?_⟩
  rw [emptyPacket, hoffset, h.follows.packetId_eq, UInt16.toNat_zero, Nat.min_zero]

/-- A turn without a packet size ends the loop, or changes nothing but the toggle. -/
theorem InStage.emptyTurn {s : DataStage} (h : InStage dataBuffer dataLen s)
    (hwhole : s.remaining = dataLen) (hlen : dataLen ≤ dataBuffer.len) :
    (∃ t, dataTurn dataBuffer 0 setup answers s = .stop t ∧
        WithinData dataBuffer dataLen t) ∨
      (∀ e, busAddress dataBuffer.physAddr ≠ .error e) ∧
        (∀ e, answers.answer s.sent.length (emptyPacket setup s.sent.length) ≠ .error e) ∧
        ∃ t, dataTurn dataBuffer 0 setup answers s = .next t ∧
          InStage dataBuffer dataLen t ∧ t.remaining = dataLen ∧
          t.sent.length = s.sent.length + 1 := by
  obtain ⟨hoffset, hpacket⟩ := h.packet_eq setup hwhole
  rcases h.turn hlen with hstop | ⟨-, hbus, hanswer, t, ht, hstage, hrem, hsent⟩
  · exact .inl hstop
  rw [hpacket] at hanswer
  rw [hoffset] at hbus
  refine .inr ⟨hbus, hanswer, t, ht, hstage, ?_, ?_⟩
  · rw [hrem, hwhole, UInt16.toNat_zero, Nat.min_zero, Nat.sub_zero]
  · rw [hsent, List.length_append]
    rfl

/-- An empty packet that is answered with an error ends the loop. -/
theorem finishes_of_error (hlen : dataLen ≤ dataBuffer.len) {n : Nat} {e : UsbError}
    (herror : answers.answer n (emptyPacket setup n) = .error e) :
    Finishes dataBuffer 0 setup answers dataLen := by
  refine loopFor_spec
    (I := fun s => InStage dataBuffer dataLen s ∧ s.remaining = dataLen ∧ s.sent.length ≤ n)
    (fun s => n - s.sent.length) (fun s hs => ?_) ⟨inStage_start, rfl, Nat.zero_le n⟩
  obtain ⟨hstage, hwhole, hle⟩ := hs
  rcases hstage.emptyTurn hwhole hlen with hstop | ⟨-, hanswer, t, ht, hstage', hwhole', hlength⟩
  · exact .inr hstop
  · have hne : s.sent.length ≠ n := by
      rintro rfl
      exact hanswer e herror
    exact .inl ⟨t, ht, ⟨hstage', hwhole', by omega⟩, by omega⟩

theorem finishes_of_bus (hlen : dataLen ≤ dataBuffer.len) {e : UsbError}
    (hbus : busAddress dataBuffer.physAddr = .error e) :
    Finishes dataBuffer 0 setup answers dataLen := by
  refine loopFor_spec (I := fun s => InStage dataBuffer dataLen s ∧ s.remaining = dataLen)
    DataStage.remaining (fun s hs => ?_) ⟨inStage_start, rfl⟩
  rcases hs.1.emptyTurn hs.2 hlen with hstop | ⟨hbus', -⟩
  · exact .inr hstop
  · exact absurd hbus (hbus' e)

/-- An empty packet that is answered with success is followed by another one. -/
theorem dataTurn_empty {s : DataStage} (h : InStage dataBuffer dataLen s)
    (hwhole : s.remaining = dataLen) (hpos : dataLen ≠ 0)
    (hbus : ∀ e, busAddress dataBuffer.physAddr ≠ .error e)
    (hanswer : ∀ n e, answers.answer n (emptyPacket setup n) ≠ .error e) :
    ∃ t, dataTurn dataBuffer 0 setup answers s = .next t := by
  obtain ⟨hoffset, hpacket⟩ := h.packet_eq setup hwhole
  unfold dataTurn
  rw [if_neg (hwhole ▸ hpos)]
  dsimp only
  rw [hpacket, hoffset]
  cases hb : busAddress (dataBuffer.physAddr + 0) with
  | error e => exact absurd hb (hbus e)
  | ok dma =>
      dsimp only
      cases ha : answers.answer s.sent.length (emptyPacket setup s.sent.length) with
      | error e => exact absurd ha (hanswer _ e)
      | ok actual =>
          have hle : actual ≤ 0 := answers.bounded _ _ _ ha
          dsimp only
          rw [if_neg (by omega), UInt16.toNat_zero, Nat.min_zero, if_neg (by omega)]
          exact ⟨_, rfl⟩

/-- Empty packets that are answered with success are sent without end. -/
theorem dataStage_eq_none (hlen : dataLen ≤ dataBuffer.len) (hpos : dataLen ≠ 0)
    (hbus : ∀ e, busAddress dataBuffer.physAddr ≠ .error e)
    (hanswer : ∀ n e, answers.answer n (emptyPacket setup n) ≠ .error e) (fuel : Nat) :
    dataStage dataBuffer 0 setup answers dataLen fuel = none := by
  refine loopFor_eq_none (I := fun s => InStage dataBuffer dataLen s ∧ s.remaining = dataLen)
    (fun s hs => ?_) fuel ⟨inStage_start, rfl⟩
  obtain ⟨t, ht⟩ := dataTurn_empty hs.1 hs.2 hpos hbus hanswer
  refine ⟨t, ht, ?_⟩
  rcases hs.1.emptyTurn hs.2 hlen with ⟨u, hu, -⟩ | ⟨-, -, u, hu, hstage, hwhole, -⟩
  · rw [ht] at hu
    cases hu
  · rw [ht] at hu
    cases hu
    exact ⟨hstage, hwhole⟩

/-- The data stage ends exactly when there is a reason to. -/
theorem dataStage_finishes_iff (hlen : dataLen ≤ dataBuffer.len) :
    Finishes dataBuffer maxPacketSize setup answers dataLen ↔
      Progresses dataBuffer maxPacketSize setup answers dataLen := by
  constructor
  · rintro ⟨fuel, t, ht, -⟩
    by_contra hstuck
    simp only [Progresses, not_or, not_exists, not_not] at hstuck
    obtain ⟨rfl, hpos, hbus, hanswer⟩ := hstuck
    rw [dataStage_eq_none hlen hpos hbus hanswer fuel] at ht
    cases ht
  · intro hprogress
    by_cases hsize : maxPacketSize = 0
    · subst hsize
      rcases hprogress with hne | hempty | ⟨e, hbus⟩ | ⟨n, e, herror⟩
      · exact absurd rfl hne
      · exact finishes_of_empty hlen hempty
      · exact finishes_of_bus hlen hbus
      · exact finishes_of_error hlen herror
    · exact finishes_of_size hlen hsize

/-- The buffer of the control endpoint. -/
def controlData : UsbDmaBuffer := ⟨0x100000, 1024, by decide⟩

/-- The request for the device descriptor. -/
def getDeviceDescriptor : SetupPacket := ⟨0x80, 6, 0x100, 0, 18⟩

/-- A device descriptor in packets of eight bytes. -/
theorem dataStage_finishes_descriptor :
    Finishes controlData 8 getDeviceDescriptor
      ⟨fun _ packet => .ok packet.len, fun _ _ _ h => by cases h; exact Nat.le_refl _⟩ 18 :=
  (dataStage_finishes_iff (by decide)).mpr (.inl (by decide))

/-- A device that reports a packet size of zero and answers empty packets keeps the loop busy. -/
theorem not_finishes_no_size :
    ¬ ∀ (dataBuffer : UsbDmaBuffer) (maxPacketSize : UInt16) (setup : SetupPacket)
      (answers : Answers) (dataLen : Nat), dataLen ≤ dataBuffer.len →
        Finishes dataBuffer maxPacketSize setup answers dataLen := by
  intro hall
  let answers : Answers := ⟨fun _ _ => .ok 0, fun _ _ _ h => by cases h; exact Nat.zero_le _⟩
  obtain ⟨fuel, t, ht, -⟩ := hall controlData 0 getDeviceDescriptor answers 18 (by decide)
  have hbus : ∀ e, busAddress controlData.physAddr ≠ .error e := by
    intro e herror
    rw [busAddress, if_pos (by decide)] at herror
    cases herror
  have hanswer : ∀ n e, answers.answer n (emptyPacket getDeviceDescriptor n) ≠ .error e := by
    intro n e herror
    cases herror
  rw [dataStage_eq_none (by decide) (by decide) hbus hanswer fuel] at ht
  cases ht

end DataStage

end Kruspix.Drivers.Usb
