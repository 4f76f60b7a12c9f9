import Kruspix.Drivers.Usb.Descriptors
import Kruspix.Lib.Result

/-!
# The interface of a keyboard

The interface is found by its class and the endpoint by the number of the interface, which
alternate settings share.
-/

namespace Kruspix.Drivers.Usb

open Lib.Iterator

/-- The interface has the class, the subclass and the protocol. -/
def InterfaceDescriptor.isClass (interface : InterfaceDescriptor)
    (interfaceClass interfaceSubclass interfaceProtocol : UInt8) : Bool :=
  interface.interfaceClass == interfaceClass && interface.interfaceSubclass == interfaceSubclass &&
    interface.interfaceProtocol == interfaceProtocol

/-- The endpoint can be polled for reports. -/
def EndpointInfo.isInterruptIn (endpoint : EndpointInfo) : Bool :=
  endpoint.address.direction == .dirIn && endpoint.endpointType == .interrupt

/-- The interface of a descriptor, if it is of the class. -/
def interfaceOfClass (interfaceClass interfaceSubclass interfaceProtocol : UInt8)
    (d : RawDescriptor) : Option InterfaceDescriptor :=
  d.asInterface.toOption.filter (·.isClass interfaceClass interfaceSubclass interfaceProtocol)

/-- The first interface of a class. -/
def findInterface (bytes : List UInt8)
    (interfaceClass interfaceSubclass interfaceProtocol : UInt8) :
    Except Panic (Option InterfaceDescriptor) :=
  DescriptorIter.steps.findMap
    (interfaceOfClass interfaceClass interfaceSubclass interfaceProtocol) (descriptorIter bytes)

/-- One turn of the search for an endpoint: the active interface, or the result. -/
def endpointTurn (interfaceNumber : UInt8) (activeInterface : Option UInt8) (d : RawDescriptor) :
    Option UInt8 ⊕ Option EndpointInfo :=
  if d.descriptorType = USB_DESC_INTERFACE then
    .inl (d.asInterface.toOption.map InterfaceDescriptor.interfaceNumber)
  else if d.descriptorType = USB_DESC_ENDPOINT ∧ activeInterface = some interfaceNumber then
    match d.asEndpoint with
    | .error _ => .inr none
    | .ok endpoint => if endpoint.isInterruptIn then .inr (some endpoint) else .inl activeInterface
  else .inl activeInterface

/-- The first interrupt IN endpoint of an interface. -/
def findInterruptInEndpoint (bytes : List UInt8) (interfaceNumber : UInt8) :
    Except Panic (Option EndpointInfo) :=
  (DescriptorIter.steps.forEach
    (fun activeInterface d => .ok (endpointTurn interfaceNumber activeInterface d)) none
    (descriptorIter bytes)).map fun result => result.elim (fun _ => none) id

/-- The first interface of a boot keyboard, and its endpoint. -/
def findKeyboardInterface (bytes : List UInt8) :
    Except Panic (Option (InterfaceDescriptor × EndpointInfo)) := do
  match ← findInterface bytes USB_CLASS_HID USB_HID_SUBCLASS_BOOT USB_HID_PROTOCOL_KEYBOARD with
  | none => return none
  | some interface =>
      match ← findInterruptInEndpoint bytes interface.interfaceNumber with
      | none => return none
      | some endpoint => return some (interface, endpoint)

/-! ## Places of descriptors -/

/-- The interface of a boot keyboard. -/
def bootKeyboard (d : RawDescriptor) : Option InterfaceDescriptor :=
  interfaceOfClass USB_CLASS_HID USB_HID_SUBCLASS_BOOT USB_HID_PROTOCOL_KEYBOARD d

/-- The place and the interface of the first boot keyboard, from `place` on. -/
def keyboardPlace (place : Nat) : List RawDescriptor → Option (Nat × InterfaceDescriptor)
  | [] => none
  | d :: ds =>
      match bootKeyboard d with
      | some interface => some (place, interface)
      | none => keyboardPlace (place + 1) ds

/-- The search for an endpoint, with the place at which it returns. -/
def endpointPlace (interfaceNumber : UInt8) (activeInterface : Option UInt8) (place : Nat) :
    List RawDescriptor → Option (Nat × EndpointInfo)
  | [] => none
  | d :: ds =>
      match endpointTurn interfaceNumber activeInterface d with
      | .inl active => endpointPlace interfaceNumber active (place + 1) ds
      | .inr none => none
      | .inr (some endpoint) => some (place, endpoint)

/-- An interface descriptor with the number is at the place. -/
def InterfaceAt (ds : List RawDescriptor) (place : Nat) (interfaceNumber : UInt8) : Prop :=
  ∃ d interface, ds[place]? = some d ∧ d.asInterface = .ok interface ∧
    interface.interfaceNumber = interfaceNumber

/-- The descriptor of an interrupt endpoint of direction in is at the place. -/
def InterruptInAt (ds : List RawDescriptor) (place : Nat) (endpoint : EndpointInfo) : Prop :=
  ∃ d, ds[place]? = some d ∧ d.asEndpoint = .ok endpoint ∧ endpoint.isInterruptIn = true

/-- The second place is behind the first and before the next interface descriptor. -/
def Belongs (ds : List RawDescriptor) (interface endpoint : Nat) : Prop :=
  interface < endpoint ∧ ∀ place d, interface < place → place < endpoint → ds[place]? = some d →
    d.descriptorType ≠ USB_DESC_INTERFACE

/-- The interface has an interrupt endpoint of its own, and none before it with its number
has one. -/
structure OwnEndpointFirst (ds : List RawDescriptor) (place : Nat) (interfaceNumber : UInt8) :
    Prop where
  own : ∃ own endpoint, Belongs ds place own ∧ InterruptInAt ds own endpoint
  first : ∀ earlier < place, InterfaceAt ds earlier interfaceNumber →
    ∀ other endpoint, Belongs ds earlier other → ¬ InterruptInAt ds other endpoint

/-- The active interface when the search reads a place. -/
def activeAt (ds : List RawDescriptor) (place : Nat) : Option UInt8 :=
  (ds.take place).foldl
    (fun active d =>
      if d.descriptorType = USB_DESC_INTERFACE then
        d.asInterface.toOption.map InterfaceDescriptor.interfaceNumber
      else active) none

variable {ds : List RawDescriptor} {bytes : List UInt8}

theorem checkHeader_ok {length : Nat} {descriptorType : UInt8}
    (h : checkHeader bytes length descriptorType = .ok ()) : bytes[1]? = some descriptorType := by
  rw [checkHeader] at h
  split at h
  · cases h
  · rename_i hchecks
    simp only [not_or, not_not] at hchecks
    exact hchecks.2.2

theorem descriptorType_of_asInterface {d : RawDescriptor} {interface : InterfaceDescriptor}
    (h : d.asInterface = .ok interface) : d.descriptorType = USB_DESC_INTERFACE := by
  rw [RawDescriptor.asInterface, parseInterfaceDescriptor, Lib.Result.except_bind_eq_ok] at h
  obtain ⟨_, hheader, _⟩ := h
  rw [RawDescriptor.descriptorType, checkHeader_ok hheader]
  rfl

theorem descriptorType_of_asEndpoint {d : RawDescriptor} {endpoint : EndpointInfo}
    (h : d.asEndpoint = .ok endpoint) : d.descriptorType = USB_DESC_ENDPOINT := by
  rw [RawDescriptor.asEndpoint, parseEndpointDescriptor, Lib.Result.except_bind_eq_ok] at h
  obtain ⟨_, hheader, _⟩ := h
  rw [RawDescriptor.descriptorType, checkHeader_ok hheader]
  rfl

/-! ## The active interface -/

theorem activeAt_succ (ds : List RawDescriptor) (place : Nat) {d : RawDescriptor}
    (hd : ds[place]? = some d) :
    activeAt ds (place + 1) =
      if d.descriptorType = USB_DESC_INTERFACE then
        d.asInterface.toOption.map InterfaceDescriptor.interfaceNumber
      else activeAt ds place := by
  rw [activeAt, List.take_add_one, hd, Option.toList_some, List.foldl_append]
  rfl

/-- The interface that is active at a place is the last one before it. -/
theorem activeAt_eq_some {place : Nat} {interfaceNumber : UInt8} (hplace : place ≤ ds.length) :
    activeAt ds place = some interfaceNumber ↔
      ∃ interface, InterfaceAt ds interface interfaceNumber ∧ Belongs ds interface place := by
  induction place with
  | zero =>
      refine iff_of_false (fun h => by cases h) ?_
      rintro ⟨interface, _, hlt, _⟩
      exact Nat.not_lt_zero interface hlt
  | succ place ih =>
      obtain ⟨d, hd⟩ : ∃ d, ds[place]? = some d := ⟨_, List.getElem?_eq_getElem hplace⟩
      rw [activeAt_succ ds place hd]
      split
      · rename_i htype
        constructor
        · intro h
          obtain ⟨interface, hinterface, hnumber⟩ := Option.map_eq_some_iff.mp h
          have hparse := Lib.Result.except_toOption_eq_some.mp hinterface
          exact ⟨place, ⟨d, interface, hd, hparse, hnumber⟩, Nat.lt_succ_self place,
            fun other e hlt hlt' => by omega⟩
        · rintro ⟨other, ⟨e, interface, he, hparse, hnumber⟩, hlt, hbetween⟩
          have hother : other = place := by
            by_contra hne
            exact hbetween place d (by omega) (Nat.lt_succ_self place) hd htype
          rw [hother, hd, Option.some.injEq] at he
          rw [he, hparse, ← hnumber]
          rfl
      · rename_i htype
        rw [ih (by omega)]
        constructor
        · rintro ⟨other, hinterface, hlt, hbetween⟩
          refine ⟨other, hinterface, by omega, ?_⟩
          intro between e hafter hbefore he
          rcases Nat.lt_succ_iff_lt_or_eq.mp hbefore with hbefore | rfl
          · exact hbetween between e hafter hbefore he
          · rw [hd, Option.some.injEq] at he
            rw [← he]
            exact htype
        · rintro ⟨other, ⟨e, interface, he, hparse, hnumber⟩, hlt, hbetween⟩
          have hne : other ≠ place := by
            rintro rfl
            rw [hd, Option.some.injEq] at he
            exact htype (he ▸ descriptorType_of_asInterface hparse)
          exact ⟨other, ⟨e, interface, he, hparse, hnumber⟩, by omega,
            fun between f hafter hbefore => hbetween between f hafter (by omega)⟩

/-! ## The searches over the list -/

theorem endpointTurn_inl {interfaceNumber : UInt8} {place : Nat} {d : RawDescriptor}
    {active : Option UInt8} (hd : ds[place]? = some d)
    (h : endpointTurn interfaceNumber (activeAt ds place) d = .inl active) :
    active = activeAt ds (place + 1) ∧
      (activeAt ds place = some interfaceNumber → ∀ e, ¬ InterruptInAt ds place e) := by
  have hat : ∀ e, InterruptInAt ds place e → d.asEndpoint = .ok e ∧ e.isInterruptIn = true := by
    rintro e ⟨d', hd', hparse, hin⟩
    rw [hd, Option.some.injEq] at hd'
    exact ⟨hd' ▸ hparse, hin⟩
  rw [activeAt_succ ds place hd]
  rw [endpointTurn] at h
  split at h
  · rename_i htype
    refine ⟨by rw [if_pos htype]; exact (Sum.inl.inj h).symm, ?_⟩
    intro _ e he
    have hendpoint := descriptorType_of_asEndpoint (hat e he).1
    rw [htype] at hendpoint
    cases hendpoint
  · rename_i htype
    rw [if_neg htype]
    split at h
    · split at h
      · cases h
      · rename_i endpoint hparse
        split at h
        · cases h
        · rename_i hin
          refine ⟨(Sum.inl.inj h).symm, ?_⟩
          intro _ e he
          obtain ⟨hparse', hin'⟩ := hat e he
          rw [hparse, Except.ok.injEq] at hparse'
          exact hin (hparse' ▸ hin')
    · rename_i hactive
      refine ⟨(Sum.inl.inj h).symm, ?_⟩
      intro hnumber e he
      exact hactive ⟨descriptorType_of_asEndpoint (hat e he).1, hnumber⟩

theorem endpointTurn_inr {interfaceNumber : UInt8} {active : Option UInt8} {d : RawDescriptor}
    {endpoint : EndpointInfo}
    (h : endpointTurn interfaceNumber active d = .inr (some endpoint)) :
    active = some interfaceNumber ∧ d.asEndpoint = .ok endpoint ∧
      endpoint.isInterruptIn = true := by
  rw [endpointTurn] at h
  split at h
  · cases h
  · split at h
    · rename_i hactive
      split at h
      · cases h
      · rename_i parsed hparse
        split at h
        · rename_i hin
          cases h
          exact ⟨hactive.2, hparse, hin⟩
        · cases h
    · cases h

theorem drop_eq_cons {place : Nat} {d : RawDescriptor} {rest : List RawDescriptor}
    (h : ds.drop place = d :: rest) : ds[place]? = some d ∧ ds.drop (place + 1) = rest := by
  constructor
  · rw [← List.head?_drop, h, List.head?_cons]
  · rw [← List.tail_drop, h, List.tail_cons]

/-- The search returns at the first interrupt endpoint below an interface with the number. -/
theorem endpointPlace_spec {interfaceNumber : UInt8} {endpoint : EndpointInfo} {found : Nat}
    (place : Nat) (rest : List RawDescriptor) (hrest : ds.drop place = rest)
    (h : endpointPlace interfaceNumber (activeAt ds place) place rest = some (found, endpoint)) :
    InterruptInAt ds found endpoint ∧ activeAt ds found = some interfaceNumber ∧
      ∀ earlier, place ≤ earlier → earlier < found → activeAt ds earlier = some interfaceNumber →
        ∀ e, ¬ InterruptInAt ds earlier e := by
  induction rest generalizing place with
  | nil => cases h
  | cons d rest ih =>
      obtain ⟨hd, htail⟩ := drop_eq_cons hrest
      rw [endpointPlace] at h
      cases hturn : endpointTurn interfaceNumber (activeAt ds place) d with
      | inl active =>
          obtain ⟨hactive, hnone⟩ := endpointTurn_inl hd hturn
          rw [hturn, hactive] at h
          obtain ⟨hfound, hnumber, hfirst⟩ := ih (place + 1) htail h
          refine ⟨hfound, hnumber, ?_⟩
          intro earlier hle hlt hearlier
          rcases Nat.eq_or_lt_of_le hle with rfl | hlt'
          · exact hnone hearlier
          · exact hfirst earlier hlt' hlt hearlier
      | inr result =>
          cases result with
          | none =>
              rw [hturn] at h
              cases h
          | some result =>
              obtain ⟨hnumber, hparse, hin⟩ := endpointTurn_inr hturn
              rw [hturn] at h
              cases h
              exact ⟨⟨d, hd, hparse, hin⟩, hnumber, fun earlier hle hlt => by omega⟩

theorem keyboardPlace_spec {interface : InterfaceDescriptor} {found : Nat} (place : Nat)
    (rest : List RawDescriptor) (hrest : ds.drop place = rest)
    (h : keyboardPlace place rest = some (found, interface)) :
    ∃ d, ds[found]? = some d ∧ bootKeyboard d = some interface := by
  induction rest generalizing place with
  | nil => cases h
  | cons d rest ih =>
      obtain ⟨hd, htail⟩ := drop_eq_cons hrest
      rw [keyboardPlace] at h
      cases hboot : bootKeyboard d with
      | none =>
          rw [hboot] at h
          exact ih (place + 1) htail h
      | some found =>
          rw [hboot] at h
          cases h
          exact ⟨d, hd, hboot⟩

theorem keyboardPlace_map (place : Nat) (ds : List RawDescriptor) :
    (keyboardPlace place ds).map Prod.snd = ds.findSome? bootKeyboard := by
  induction ds generalizing place with
  | nil => rfl
  | cons d ds ih =>
      rw [keyboardPlace, List.findSome?_cons]
      cases bootKeyboard d with
      | none => exact ih (place + 1)
      | some interface => rfl

theorem endpointPlace_map (interfaceNumber : UInt8) (active : Option UInt8) (place : Nat)
    (ds : List RawDescriptor) :
    (Iter.forList (fun active d => (.ok (endpointTurn interfaceNumber active d) : Except Panic _))
        active ds).map (fun result => result.elim (fun _ => none) id) =
      .ok ((endpointPlace interfaceNumber active place ds).map Prod.snd) := by
  induction ds generalizing active place with
  | nil => rfl
  | cons d ds ih =>
      rw [Iter.forList, endpointPlace]
      cases endpointTurn interfaceNumber active d with
      | inl active => exact ih active (place + 1)
      | inr result =>
          cases result with
          | none => rfl
          | some endpoint => rfl

/-- Both searches see the same descriptors. -/
theorem findKeyboardInterface_eq_some (hds : descriptors bytes = .ok ds)
    {interface : InterfaceDescriptor} {endpoint : EndpointInfo} :
    findKeyboardInterface bytes = .ok (some (interface, endpoint)) ↔
      ∃ keyboard found, keyboardPlace 0 ds = some (keyboard, interface) ∧
        endpointPlace interface.interfaceNumber none 0 ds = some (found, endpoint) := by
  have hyields := descriptors_yields hds
  have hinterface : findInterface bytes USB_CLASS_HID USB_HID_SUBCLASS_BOOT
      USB_HID_PROTOCOL_KEYBOARD = .ok ((keyboardPlace 0 ds).map Prod.snd) := by
    rw [findInterface, hyields.findMap, keyboardPlace_map]
    rfl
  have hendpoint : ∀ interfaceNumber, findInterruptInEndpoint bytes interfaceNumber =
      .ok ((endpointPlace interfaceNumber none 0 ds).map Prod.snd) := by
    intro interfaceNumber
    rw [findInterruptInEndpoint, hyields.forEach, endpointPlace_map _ _ 0]
  rw [findKeyboardInterface, hinterface, Lib.Result.except_ok_bind]
  cases keyboardPlace 0 ds with
  | none => simp
  | some keyboard =>
      obtain ⟨keyboard, interface'⟩ := keyboard
      simp only [Option.map_some, hendpoint, Lib.Result.except_ok_bind]
      constructor
      · intro h
        cases hfound : endpointPlace interface'.interfaceNumber none 0 ds with
        | none =>
            rw [hfound] at h
            cases h
        | some found =>
            obtain ⟨found, endpoint'⟩ := found
            rw [hfound] at h
            cases h
            exact ⟨keyboard, found, rfl, hfound⟩
      · rintro ⟨keyboard', found, hkeyboard, hfound⟩
        cases hkeyboard
        rw [hfound]
        rfl

/-- The endpoint that is found belongs to the keyboard exactly if the keyboard has one of its
own and no interface before it with the same number has one. -/
theorem belongs_iff {interfaceNumber : UInt8} {endpoint : EndpointInfo} {keyboard found : Nat}
    (hkeyboard : InterfaceAt ds keyboard interfaceNumber)
    (h : endpointPlace interfaceNumber none 0 ds = some (found, endpoint)) :
    Belongs ds keyboard found ↔ OwnEndpointFirst ds keyboard interfaceNumber := by
  obtain ⟨hfound, hactive, hfirst⟩ := endpointPlace_spec 0 ds rfl h
  have hlength : ∀ place e, InterruptInAt ds place e → place < ds.length := by
    rintro place e ⟨d, hd, _⟩
    exact (List.getElem?_eq_some_iff.mp hd).1
  -- an endpoint below an interface with the number is not passed over
  have hnot : ∀ earlier place e, InterfaceAt ds earlier interfaceNumber →
      Belongs ds earlier place → InterruptInAt ds place e → found ≤ place := by
    intro earlier place e hinterface hbelongs hendpoint
    by_contra hlt
    have hactive := (activeAt_eq_some (Nat.le_of_lt (hlength place e hendpoint))).mpr
      ⟨earlier, hinterface, hbelongs⟩
    exact hfirst place (Nat.zero_le _) (Nat.lt_of_not_le hlt) hactive e hendpoint
  constructor
  · intro hbelongs
    refine ⟨⟨found, endpoint, hbelongs, hfound⟩, ?_⟩
    intro earlier hearlier hinterface other e hother hendpoint
    have hle := hnot earlier other e hinterface hother hendpoint
    obtain ⟨d, interface, hd, hparse, _⟩ := hkeyboard
    exact hother.2 keyboard d hearlier (by have := hbelongs.1; omega) hd
      (descriptorType_of_asInterface hparse)
  · rintro ⟨⟨own, e, hown, hendpoint⟩, hfirst'⟩
    have hle := hnot keyboard own e hkeyboard hown hendpoint
    obtain ⟨active, hinterface, hbelongs⟩ :=
      (activeAt_eq_some (Nat.le_of_lt (hlength found endpoint hfound))).mp hactive
    rcases Nat.lt_trichotomy active keyboard with hlt | rfl | hlt
    · exact absurd hfound (hfirst' active hlt hinterface found endpoint hbelongs)
    · exact hbelongs
    · obtain ⟨d, interface, hd, hparse, _⟩ := hinterface
      exact absurd (descriptorType_of_asInterface hparse)
        (hown.2 active d hlt (by have := hbelongs.1; omega) hd)

/-- The interface that is returned is the one of the first boot keyboard, the endpoint is of
direction in and of type interrupt, and it belongs to that very interface exactly if the
interface has such an endpoint and none before it with its number has one. -/
theorem findKeyboardInterface_belongs_iff {interface : InterfaceDescriptor}
    {endpoint : EndpointInfo}
    (h : findKeyboardInterface bytes = .ok (some (interface, endpoint))) :
    ∃ ds keyboard found, descriptors bytes = .ok ds ∧
      keyboardPlace 0 ds = some (keyboard, interface) ∧
      endpointPlace interface.interfaceNumber none 0 ds = some (found, endpoint) ∧
      (∃ d, ds[keyboard]? = some d ∧ bootKeyboard d = some interface) ∧
      InterruptInAt ds found endpoint ∧
      (Belongs ds keyboard found ↔ OwnEndpointFirst ds keyboard interface.interfaceNumber) := by
  obtain ⟨ds, _, hds, _⟩ := descriptors_cut.1 bytes
  obtain ⟨keyboard, found, hkeyboard, hfound⟩ := (findKeyboardInterface_eq_some hds).mp h
  obtain ⟨d, hd, hboot⟩ := keyboardPlace_spec 0 ds rfl hkeyboard
  have hinterface : InterfaceAt ds keyboard interface.interfaceNumber := by
    obtain ⟨hparse, _⟩ := Option.filter_eq_some_iff.mp hboot
    exact ⟨d, interface, hd, Lib.Result.except_toOption_eq_some.mp hparse, rfl⟩
  exact ⟨ds, keyboard, found, hds, hkeyboard, hfound, ⟨d, hd, hboot⟩,
    (endpointPlace_spec 0 ds rfl hfound).1, belongs_iff hinterface hfound⟩

theorem findKeyboardInterface_belongs_iff_keyboard :
    findKeyboardInterface (concat (keyboardSetting 0 1 1 0x81)) =
        .ok (some (⟨0, 0, 1, 3, 1, 1, 0⟩, ⟨⟨0x81⟩, 3, 8, 10⟩)) ∧
      (Belongs (keyboardSetting 0 1 1 0x81) 0 2 ↔
        OwnEndpointFirst (keyboardSetting 0 1 1 0x81) 0 0) := by
  have hds := descriptors_cut.2 _ (wellFormed_keyboardSetting 0 1 1 0x81)
  have hfind : findKeyboardInterface (concat (keyboardSetting 0 1 1 0x81)) =
      .ok (some (⟨0, 0, 1, 3, 1, 1, 0⟩, ⟨⟨0x81⟩, 3, 8, 10⟩)) :=
    (findKeyboardInterface_eq_some hds).mpr ⟨0, 2, by decide, by decide⟩
  obtain ⟨ds, keyboard, found, hds', hkeyboard, hfound, _, _, hiff⟩ :=
    findKeyboardInterface_belongs_iff hfind
  rw [hds, Except.ok.injEq] at hds'
  subst hds'
  have hkeyboard' : keyboardPlace 0 (keyboardSetting 0 1 1 0x81) =
      some (0, ⟨0, 0, 1, 3, 1, 1, 0⟩) := by decide
  have hfound' : endpointPlace 0 none 0 (keyboardSetting 0 1 1 0x81) =
      some (2, ⟨⟨0x81⟩, 3, 8, 10⟩) := by decide
  rw [hkeyboard', Option.some.injEq, Prod.mk.injEq] at hkeyboard
  rw [hfound', Option.some.injEq, Prod.mk.injEq] at hfound
  exact ⟨hfind, by rwa [← hkeyboard.1, ← hfound.1] at hiff⟩

/-- The first setting of an interface is no boot keyboard, its alternate setting is one. -/
def alternateSettings : List RawDescriptor :=
  keyboardSetting 0 0 0 0x81 ++ keyboardSetting 1 1 1 0x82

/-- The keyboard is returned with the endpoint of the other setting, which is none of its own. -/
theorem findKeyboardInterface_foreign_endpoint :
    findKeyboardInterface (concat alternateSettings) =
        .ok (some (⟨0, 1, 1, 3, 1, 1, 0⟩, ⟨⟨0x81⟩, 3, 8, 10⟩)) ∧
      ¬ ∃ ds keyboard own d, descriptors (concat alternateSettings) = .ok ds ∧
        ds[keyboard]? = some d ∧ bootKeyboard d = some ⟨0, 1, 1, 3, 1, 1, 0⟩ ∧
        Belongs ds keyboard own ∧ InterruptInAt ds own ⟨⟨0x81⟩, 3, 8, 10⟩ := by
  have hds : descriptors (concat alternateSettings) = .ok alternateSettings := by
    apply descriptors_cut.2
    intro d hd
    rcases List.mem_append.mp hd with hd | hd
    · exact wellFormed_keyboardSetting 0 0 0 0x81 d hd
    · exact wellFormed_keyboardSetting 1 1 1 0x82 d hd
  refine ⟨(findKeyboardInterface_eq_some hds).mpr ⟨3, 2, by decide, by decide⟩, ?_⟩
  rintro ⟨ds, keyboard, own, d, hds', hd, hboot, hbelongs, d', hd', hparse, _⟩
  rw [hds, Except.ok.injEq] at hds'
  subst hds'
  have hplaces : ∀ place < 6, ∀ d ∈ alternateSettings[place]?,
      (bootKeyboard d ≠ none → place = 3) ∧
        (d.asEndpoint.toOption = some ⟨⟨0x81⟩, 3, 8, 10⟩ → place = 2) := by decide
  have hkeyboard : keyboard = 3 :=
    (hplaces keyboard (List.getElem?_eq_some_iff.mp hd).1 d hd).1 (by rw [hboot]; nofun)
  have hown : own = 2 :=
    (hplaces own (List.getElem?_eq_some_iff.mp hd').1 d' hd').2 (by rw [hparse]; rfl)
  have hlt := hbelongs.1
  omega

end Kruspix.Drivers.Usb
