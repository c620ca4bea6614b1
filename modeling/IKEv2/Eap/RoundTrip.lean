import IKEv2.Eap.Reread

/-!
# EAP packets of the other methods

Identity, Notification, Nak, MD5-Challenge and Expanded keep their data as they are.  Encoder and
decoder fit, except that the first three are read, but not written, without any data.

* `EAP.simple_roundTrip`    what is written is read back;
* `EAP.reencode_iff`        what is read is written as it came, unless it is a packet of five octets.
-/

set_option linter.unusedVariables false

namespace Ike
open GoLang

/-- a method other than AKA'; the vendor of an Expanded packet has 24 bits -/
def EapTypeData.Simple : EapTypeData → Prop
  | .akaPrime _ => False
  | .expanded d => d.vendorID.toNat < 2 ^ 24
  | _ => True

/-- data of such a method, or none in a packet that is neither a request nor a response -/
def EAP.Simple (e : EAP) : Prop :=
  (∃ d, e.eapTypeData = some d ∧ d.Simple) ∨
    e.eapTypeData = none ∧ e.code ≠ eapCodeRequest ∧ e.code ≠ eapCodeResponse

theorem EAP.marshal_none (code identifier : UInt8) :
    EAP.marshal ⟨code, identifier, none⟩ = .ok (eapHeader code identifier 4) := rfl

/-- the data of a method are read as they were written -/
theorem EapTypeData.unmarshal_marshal {d : EapTypeData} (hs : d.Simple) {x : Bytes}
    (h : d.marshal = .ok x) (sp : Bytes) :
    ∃ rest, x = d.type :: rest ∧ eapTypeSupported d.type = true ∧
      EapTypeData.unmarshal d.type ⟨x, sp⟩ = .ok d := by
  cases d with
  | identity d =>
    obtain ⟨_, rfl⟩ := typedMarshal_eq_ok.mp h
    refine ⟨_, rfl, rfl, ?_⟩
    show EapTypeData.identity <$> (EapIdentity.mk <$> typedUnmarshal _ _ [] _) = _
    rw [typedUnmarshal_cons]
    rfl
  | notification d =>
    obtain ⟨_, rfl⟩ := typedMarshal_eq_ok.mp h
    refine ⟨_, rfl, rfl, ?_⟩
    show EapTypeData.notification <$> (EapNotification.mk <$> typedUnmarshal _ _ [] _) = _
    rw [typedUnmarshal_cons]
    rfl
  | nak d =>
    obtain ⟨_, rfl⟩ := typedMarshal_eq_ok.mp h
    refine ⟨_, rfl, rfl, ?_⟩
    show EapTypeData.nak <$> (EapNak.mk <$> typedUnmarshal _ _ [] _) = _
    rw [typedUnmarshal_cons]
    rfl
  | md5 d =>
    obtain ⟨h1, h2, rfl⟩ := EapMD5.marshal_eq_ok.mp h
    exact ⟨_, rfl, rfl, Outcome.map_eq_ok.mpr ⟨d, EapMD5.unmarshal_iff.mpr ⟨h1, h2, rfl⟩, rfl⟩⟩
  | akaPrime d => exact False.elim hs
  | expanded d =>
    obtain ⟨l, hl, hu⟩ := EapExpanded.unmarshal_marshal hs h
    exact ⟨l, hl, rfl, Outcome.map_eq_ok.mpr ⟨d, hu sp, rfl⟩⟩

theorem lenField_eapHeader (code identifier : UInt8) {x : Bytes} (h : 4 + x.length < 65536) :
    lenField (eapHeader code identifier (4 + x.length) ++ x) = 4 + x.length := by
  show lenField (code :: identifier :: (putUint16 _ ++ x)) = _
  rw [lenField_put, UInt16.toNat_ofNat_of_lt' h]

theorem length_eapHeader (code identifier : UInt8) (n : Nat) (x : Bytes) :
    (eapHeader code identifier n ++ x).length = 4 + x.length := by
  rw [List.length_append]
  rfl

/-- **What is written of a method other than AKA' is read back**, and the length field is right. -/
theorem EAP.simple_roundTrip {e : EAP} (hs : e.Simple) {b : Bytes} (h : e.marshal = .ok b) :
    lenField b = b.length ∧ ∀ sp, EAP.unmarshal EAP.zero ⟨b, sp⟩ = .ok e := by
  obtain ⟨code, identifier, data⟩ := e
  rcases hs with ⟨d, hd, hs⟩ | ⟨hd, hreq, hresp⟩
  · obtain rfl : data = some d := hd
    obtain ⟨x, hx, hle, rfl⟩ := EAP.marshal_some_iff.mp h
    refine ⟨by rw [lenField_eapHeader _ _ (by omega), length_eapHeader], fun sp => ?_⟩
    obtain ⟨rest, hrest, hsup, hu⟩ := EapTypeData.unmarshal_marshal hs hx sp
    exact EAP.unmarshal_iff.mpr (Or.inr ⟨code, identifier, x, rfl, by omega,
      Or.inr ⟨d.type, rest, d, hrest, hsup, hu, rfl⟩⟩)
  · obtain rfl : data = none := hd
    rw [EAP.marshal_none] at h
    obtain rfl := Outcome.ok.inj h
    refine ⟨lenField_eapHeader code identifier (x := []) (by decide), fun sp => ?_⟩
    exact EAP.unmarshal_iff.mpr (Or.inr ⟨code, identifier, [], rfl, by decide,
      Or.inl ⟨rfl, hreq, hresp, rfl⟩⟩)

/-- the start of EAP-5G, and a Success packet -/
theorem EAP.simple_roundTrip_5G :
    (∀ sp, EAP.unmarshal EAP.zero ⟨[1, 7, 0, 14, 254, 0, 0x28, 0xaf, 0, 0, 0, 3, 1, 0], sp⟩ =
      .ok ⟨1, 7, some (.expanded ⟨10415, 3, [1, 0]⟩)⟩) ∧
    ∀ sp, EAP.unmarshal EAP.zero ⟨[3, 8, 0, 4], sp⟩ = .ok ⟨3, 8, none⟩ := by
  refine ⟨(EAP.simple_roundTrip (Or.inl ⟨_, rfl, ?_⟩) ?_).2,
    (EAP.simple_roundTrip (Or.inr ⟨rfl, by decide, by decide⟩) rfl).2⟩
  · show (10415 : UInt32).toNat < 2 ^ 24
    decide
  · rfl

/-- **What is read of a method other than AKA' is written as it came**, unless it is a packet with a
type and nothing behind it. -/
theorem EAP.reencode_iff {b sp : Bytes} {e : EAP} (h : EAP.unmarshal EAP.zero ⟨b, sp⟩ = .ok e)
    (hne : b ≠ []) (ht : b[4]? ≠ some eapTypeAkaPrime) : e.marshal = .ok b ↔ b.length ≠ 5 := by
  rcases EAP.unmarshal_iff.mp h with ⟨h0, _⟩ | ⟨code, identifier, body, rfl, hlt, hbody⟩
  · exact absurd h0 hne
  rw [length_eapHeader]
  rcases hbody with ⟨rfl, _, _, rfl⟩ | ⟨t, rest, d, rfl, hs, hd, rfl⟩
  · refine iff_of_true ?_ (by decide)
    rw [List.append_nil]
    exact EAP.marshal_none code identifier
  · have ht' : t ≠ eapTypeAkaPrime := fun h0 => ht (congrArg some h0)
    rw [EAP.marshal_some_iff]
    constructor
    · intro hm
      obtain ⟨x, hx, _⟩ := hm
      have hrest := ((EapTypeData.marshal_other hs ht' hd x).mp hx).1
      have hpos := List.length_pos_iff.mpr hrest
      rw [List.length_cons]
      omega
    · intro h5
      have hrest : rest ≠ [] := by
        rintro rfl
        exact h5 rfl
      exact ⟨_, (EapTypeData.marshal_other hs ht' hd _).mpr ⟨hrest, rfl⟩, by omega, rfl⟩

theorem EAP.reencode_identity :
    EAP.marshal ⟨2, 1, some (.identity ⟨[97]⟩)⟩ = .ok [2, 1, 0, 6, 1, 97] := by
  have hread : EAP.unmarshal EAP.zero ⟨[2, 1, 0, 6, 1, 97], []⟩ =
      .ok ⟨2, 1, some (.identity ⟨[97]⟩)⟩ := rfl
  exact (EAP.reencode_iff hread (by decide) (by decide)).mpr (by decide)

/-- an Identity response without an identity is read, but not written -/
theorem EAP.empty_identity :
    EAP.unmarshal EAP.zero ⟨[2, 1, 0, 5, 1], []⟩ = .ok ⟨2, 1, some (.identity ⟨[]⟩)⟩ ∧
      EAP.marshal ⟨2, 1, some (.identity ⟨[]⟩)⟩ =
        .err (.wrapf "EAP: EAP type data marshal failed"
          (.errorf "EapIdentity: EAP identity is empty")) :=
  ⟨rfl, rfl⟩

end Ike
