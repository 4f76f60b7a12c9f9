import Kruspix.Drivers.Usb.Core
import Kruspix.Lib.Iterator

/-!
# Descriptors

A configuration is a list of descriptors, each of which starts with its length and its type.
The endpoints behind an interface descriptor belong to it.
-/

namespace Kruspix.Drivers.Usb

open Lib.Iterator

def USB_DESC_INTERFACE : UInt8 := 0x04
def USB_DESC_ENDPOINT : UInt8 := 0x05
def USB_CLASS_HID : UInt8 := 0x03
def USB_HID_SUBCLASS_BOOT : UInt8 := 0x01
def USB_HID_PROTOCOL_KEYBOARD : UInt8 := 0x01

/-- The fields of an interface descriptor. -/
structure InterfaceDescriptor where
  interfaceNumber : UInt8
  alternateSetting : UInt8
  numEndpoints : UInt8
  interfaceClass : UInt8
  interfaceSubclass : UInt8
  interfaceProtocol : UInt8
  interfaceIndex : UInt8
  deriving DecidableEq, Repr

/-- A byte of a descriptor. -/
def byteAt (bytes : List UInt8) (offset : Nat) : Except UsbError UInt8 :=
  match bytes[offset]? with
  | some byte => .ok byte
  | none => .error .invalidDescriptor

/-- Two bytes, the low one first. -/
def readU16Le (bytes : List UInt8) (offset : Nat) : Except UsbError UInt16 := do
  let low ← byteAt bytes offset
  let high ← byteAt bytes (offset + 1)
  return low.toUInt16 ||| high.toUInt16 <<< 8

/-- The checks in front of each parser. The first byte is only read of enough bytes. -/
def checkHeader (bytes : List UInt8) (length : Nat) (descriptorType : UInt8) :
    Except UsbError Unit :=
  if bytes.length < length ∨ bytes[0]?.any (·.toNat < length) ∨ bytes[1]? ≠ some descriptorType then
    .error .invalidDescriptor
  else .ok ()

/-- `parse_interface_descriptor`: nine bytes with the right type. -/
def parseInterfaceDescriptor (bytes : List UInt8) : Except UsbError InterfaceDescriptor := do
  checkHeader bytes 9 USB_DESC_INTERFACE
  return {
    interfaceNumber := ← byteAt bytes 2
    alternateSetting := ← byteAt bytes 3
    numEndpoints := ← byteAt bytes 4
    interfaceClass := ← byteAt bytes 5
    interfaceSubclass := ← byteAt bytes 6
    interfaceProtocol := ← byteAt bytes 7
    interfaceIndex := ← byteAt bytes 8 }

/-- `parse_endpoint_descriptor`: seven bytes with the right type. -/
def parseEndpointDescriptor (bytes : List UInt8) : Except UsbError EndpointInfo := do
  checkHeader bytes 7 USB_DESC_ENDPOINT
  return {
    address := ⟨← byteAt bytes 2⟩
    attributes := ← byteAt bytes 3
    maxPacketSize := ← readU16Le bytes 4
    interval := ← byteAt bytes 6 }

/-- The bytes of one descriptor. -/
structure RawDescriptor where
  bytes : List UInt8
  deriving DecidableEq, Repr

namespace RawDescriptor

def length (d : RawDescriptor) : Nat := d.bytes.length

/-- The second byte of a descriptor. -/
def descriptorType (d : RawDescriptor) : UInt8 := d.bytes[1]?.getD 0

/-- The bytes as an interface descriptor. -/
def asInterface (d : RawDescriptor) : Except UsbError InterfaceDescriptor :=
  parseInterfaceDescriptor d.bytes

/-- The bytes as an endpoint descriptor. -/
def asEndpoint (d : RawDescriptor) : Except UsbError EndpointInfo :=
  parseEndpointDescriptor d.bytes

/-- The first byte is the length. -/
def WellFormed (d : RawDescriptor) : Prop :=
  2 ≤ d.length ∧ ∃ head, d.bytes[0]? = some head ∧ head.toNat = d.length

end RawDescriptor

/-- An index out of bounds. -/
inductive Panic
  | outOfBounds
  deriving DecidableEq, Repr

/-- A list of descriptors and the place of the next one. -/
structure DescriptorIter where
  bytes : List UInt8
  offset : Nat
  deriving DecidableEq, Repr

namespace DescriptorIter

def new (bytes : List UInt8) : DescriptorIter := ⟨bytes, 0⟩

/-- The next descriptor by its length byte. A length below 2 or past the end stops the iterator. -/
def next (it : DescriptorIter) : Except Panic (Option RawDescriptor × DescriptorIter) :=
  if it.offset + 2 > it.bytes.length then .ok (none, it)
  else
    match it.bytes[it.offset]? with
    | none => .error .outOfBounds
    | some head =>
        let length := head.toNat
        if length < 2 ∨ it.offset + length > it.bytes.length then
          .ok (none, { it with offset := it.bytes.length })
        else
          .ok (some ⟨(it.bytes.drop it.offset).take length⟩,
            { it with offset := it.offset + length })

/-- Each descriptor shortens what is left. -/
theorem next_size {it it' : DescriptorIter} {d : RawDescriptor}
    (h : it.next = .ok (some d, it')) :
    it'.bytes.length - it'.offset < it.bytes.length - it.offset := by
  rw [next] at h
  split at h
  · cases h
  · split at h
    · cases h
    · dsimp only at h
      split at h
      · cases h
      · cases h
        dsimp only
        omega

/-- The iterator as a step. -/
def steps : Iter Panic DescriptorIter RawDescriptor where
  next := next
  size it := it.bytes.length - it.offset
  size_lt := next_size

end DescriptorIter

/-- What the iterator does not read as a descriptor. -/
def Unreadable (rest : List UInt8) : Prop :=
  rest.length < 2 ∨ ∃ head, rest[0]? = some head ∧ (head.toNat < 2 ∨ rest.length < head.toNat)

/-- The bytes of descriptors, one after the other. -/
def concat (ds : List RawDescriptor) : List UInt8 := ds.flatMap RawDescriptor.bytes

namespace DescriptorIter

variable {front rest : List UInt8}

/-- The iterator behind `front` ends where the rest is unreadable. -/
theorem next_unreadable (h : Unreadable rest) :
    ∃ it, next ⟨front ++ rest, front.length⟩ = .ok (none, it) := by
  have hhead : (front ++ rest)[front.length]? = rest[0]? := by
    rw [List.getElem?_append_right (Nat.le_refl _), Nat.sub_self]
  by_cases hshort : rest.length < 2
  · refine ⟨_, if_pos ?_⟩
    simp only [List.length_append]
    omega
  obtain hlt | ⟨head, hrest, hlength⟩ := h
  · exact absurd hlt hshort
  refine ⟨⟨front ++ rest, (front ++ rest).length⟩, ?_⟩
  rw [next, if_neg (by simp only [List.length_append]; omega)]
  simp only [hhead, hrest]
  rw [if_pos]
  rw [List.length_append]
  omega

/-- A well-formed descriptor is the next one. -/
theorem next_wellFormed {d : RawDescriptor} (h : d.WellFormed) :
    next ⟨front ++ (d.bytes ++ rest), front.length⟩ =
      .ok (some d, ⟨front ++ d.bytes ++ rest, (front ++ d.bytes).length⟩) := by
  obtain ⟨hlength, head, hhead, hhead'⟩ := h
  have hlen : d.bytes.length = head.toNat := hhead'.symm
  have hat : (front ++ (d.bytes ++ rest))[front.length]? = some head := by
    rw [List.getElem?_append_right (Nat.le_refl _), Nat.sub_self,
      List.getElem?_append_left (by rw [RawDescriptor.length] at hlength; omega), hhead]
  have htotal : (front ++ (d.bytes ++ rest)).length =
      front.length + (head.toNat + rest.length) := by
    rw [List.length_append, List.length_append, hlen]
  rw [RawDescriptor.length, hlen] at hlength
  rw [next, if_neg (by dsimp only; omega)]
  simp only [hat]
  rw [if_neg (by omega), List.drop_left, ← hlen, List.take_left,
    List.length_append, List.append_assoc]

/-- The next descriptor and what is behind it, or an unreadable rest. -/
theorem unreadable_or_cut (rest : List UInt8) :
    Unreadable rest ∨ ∃ d : RawDescriptor, d.WellFormed ∧ ∃ rest', rest = d.bytes ++ rest' := by
  cases rest with
  | nil => exact .inl (.inl (by decide))
  | cons head tail =>
      by_cases hlength : head.toNat < 2 ∨ (head :: tail).length < head.toNat
      · exact .inl (.inr ⟨head, rfl, hlength⟩)
      · refine .inr ⟨⟨(head :: tail).take head.toNat⟩, ?_, (head :: tail).drop head.toNat,
          (List.take_append_drop _ _).symm⟩
        have hlen : ((head :: tail).take head.toNat).length = head.toNat :=
          List.length_take_of_le (by omega)
        refine ⟨by rw [RawDescriptor.length, hlen]; omega, head, ?_, hlen.symm⟩
        rw [List.getElem?_take_of_lt (by omega)]
        rfl

/-- The iterator behind `front` yields well-formed descriptors up to an unreadable rest. -/
theorem yields_cut (front rest : List UInt8) :
    ∃ ds rest', Iter.Yields steps ⟨front ++ rest, front.length⟩ ds ∧
      (∀ d ∈ ds, d.WellFormed) ∧ rest = concat ds ++ rest' ∧ Unreadable rest' := by
  induction hn : rest.length using Nat.strongRecOn generalizing front rest with
  | _ n ih =>
      rcases unreadable_or_cut rest with hrest | ⟨d, hd, rest', hrest⟩
      · obtain ⟨it, hnext⟩ := @next_unreadable front rest hrest
        exact ⟨[], rest, .done hnext, fun d hd => absurd hd List.not_mem_nil, rfl, hrest⟩
      · have hlt : rest'.length < n := by
          have hlength := hd.1
          rw [RawDescriptor.length] at hlength
          rw [← hn, hrest, List.length_append]
          omega
        obtain ⟨ds, rest'', hyields, hds, hcut, hend⟩ :=
          ih rest'.length hlt (front ++ d.bytes) rest' rfl
        refine ⟨d :: ds, rest'', ?_, ?_, ?_, hend⟩
        · rw [hrest]
          exact .more (next_wellFormed hd) hyields
        · intro e he
          rcases List.mem_cons.mp he with rfl | he
          · exact hd
          · exact hds e he
        · rw [hrest, hcut, concat, concat, List.flatMap_cons, List.append_assoc]

theorem yields_concat {ds : List RawDescriptor} (h : ∀ d ∈ ds, d.WellFormed)
    (front : List UInt8) : Iter.Yields steps ⟨front ++ concat ds, front.length⟩ ds := by
  induction ds generalizing front with
  | nil =>
      obtain ⟨it, hnext⟩ := @next_unreadable front [] (.inl (by decide))
      exact .done hnext
  | cons d ds ih =>
      have hcut : concat (d :: ds) = d.bytes ++ concat ds := List.flatMap_cons
      have hrest := ih (fun e he => h e (List.mem_cons_of_mem d he)) (front ++ d.bytes)
      rw [hcut]
      exact .more (next_wellFormed (h d List.mem_cons_self)) hrest

end DescriptorIter

/-- `descriptor_iter` and its descriptors. -/
def descriptorIter (bytes : List UInt8) : DescriptorIter := .new bytes

/-- The descriptors of a byte string. -/
def descriptors (bytes : List UInt8) : Except Panic (List RawDescriptor) :=
  DescriptorIter.steps.collect (descriptorIter bytes)

theorem descriptors_yields {bytes : List UInt8} {ds : List RawDescriptor}
    (h : descriptors bytes = .ok ds) : Iter.Yields DescriptorIter.steps (descriptorIter bytes) ds := by
  obtain ⟨ds', rest, hyields, _⟩ := DescriptorIter.yields_cut [] bytes
  have hcollect : descriptors bytes = .ok ds' := hyields.collect
  rw [h, Except.ok.injEq] at hcollect
  exact hcollect ▸ hyields

/-- The iterator ends on every byte string and cuts it into well-formed descriptors, up to a
rest that is none. A list of well-formed descriptors is read back from its bytes. -/
theorem descriptors_cut :
    (∀ bytes, ∃ ds rest, descriptors bytes = .ok ds ∧
      (∀ d ∈ ds, d.WellFormed) ∧ bytes = concat ds ++ rest ∧ Unreadable rest) ∧
    ∀ ds : List RawDescriptor, (∀ d ∈ ds, d.WellFormed) → descriptors (concat ds) = .ok ds := by
  constructor
  · intro bytes
    obtain ⟨ds, rest, hyields, hds, hcut, hend⟩ := DescriptorIter.yields_cut [] bytes
    exact ⟨ds, rest, hyields.collect, hds, hcut, hend⟩
  · intro ds hds
    exact (DescriptorIter.yields_concat hds []).collect

/-- An interface, its class descriptor and an endpoint. -/
def keyboardSetting (alternateSetting interfaceSubclass interfaceProtocol endpointAddress : UInt8) :
    List RawDescriptor :=
  [⟨[9, 4, 0, alternateSetting, 1, 3, interfaceSubclass, interfaceProtocol, 0]⟩,
    ⟨[9, 0x21, 0x11, 1, 0, 1, 0x22, 65, 0]⟩, ⟨[7, 5, endpointAddress, 3, 8, 0, 10]⟩]

theorem wellFormed_keyboardSetting
    (alternateSetting interfaceSubclass interfaceProtocol endpointAddress : UInt8) :
    ∀ d ∈ keyboardSetting alternateSetting interfaceSubclass interfaceProtocol endpointAddress,
      d.WellFormed := by
  intro d hd
  simp only [keyboardSetting, List.mem_cons, List.not_mem_nil, or_false] at hd
  rcases hd with rfl | rfl | rfl
  · exact ⟨by simp [RawDescriptor.length], 9, rfl, rfl⟩
  · exact ⟨by simp [RawDescriptor.length], 9, rfl, rfl⟩
  · exact ⟨by simp [RawDescriptor.length], 7, rfl, rfl⟩

theorem descriptors_cut_keyboard :
    (∀ d ∈ keyboardSetting 0 1 1 0x81, d.WellFormed) ∧
      descriptors (concat (keyboardSetting 0 1 1 0x81)) = .ok (keyboardSetting 0 1 1 0x81) :=
  ⟨wellFormed_keyboardSetting 0 1 1 0x81,
    descriptors_cut.2 _ (wellFormed_keyboardSetting 0 1 1 0x81)⟩

end Kruspix.Drivers.Usb
