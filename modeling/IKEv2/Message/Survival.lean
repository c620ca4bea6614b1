import IKEv2.Eap.RoundTrip
import IKEv2.Message.Build
import IKEv2.Message.Stability

/-!
# Which messages come back, read off the message

A message is encoded, and what was written is decoded.  `IKEPayload.Regular` says of a payload whether
the decoder gives it back, in terms of its fields; `IKEPayload.size` is the number of octets it takes
then.  Together with the sizes that fit the length fields and the octet that an SK payload carries this
decides the message.

* `EapTypeData.regular_iff`        the data of one EAP method;
* `IKEPayload.comesBack_regular`   one payload;
* `stable_message_iff`             the message.
-/

set_option linter.unusedVariables false

namespace Ike
open GoLang

/-! ## EAP -/

/-- the octets of the data of a method -/
def EapTypeData.size : EapTypeData → Nat
  | .identity d => 1 + d.identityData.length
  | .notification d => 1 + d.notificationData.length
  | .nak d => 1 + d.nakData.length
  | .md5 d => 2 + d.value.length + d.name.length
  | .akaPrime d => (d.marshal.value.getD []).length
  | .expanded d => 8 + d.vendorData.length

/-- data that a new object of the method reads as they were written: a condition on the fields, and for
AKA' the same for the list of attributes (`Rereads`) -/
def EapTypeData.Regular : EapTypeData → Prop
  | .identity d => d.identityData ≠ []
  | .notification d => d.notificationData ≠ []
  | .nak d => d.nakData ≠ []
  | .md5 d => d.valueSize = 16 ∧ d.value.length = 16
  -- the order of arrival is there, and the octets of the attributes are read as these attributes
  | .akaPrime d => ∃ l, d.Holds l ∧ Rereads l
  | .expanded d => d.vendorID.toNat < 2 ^ 24

/-- the octets `x` begin with the type of a method, which reads them as `d` -/
def EapTypeData.ReadFrom (d : EapTypeData) (x : Bytes) : Prop :=
  ∃ t rest sp, x = t :: rest ∧ eapTypeSupported t = true ∧ EapTypeData.unmarshal t ⟨x, sp⟩ = .ok d

theorem EapTypeData.readFrom_simple {d : EapTypeData} (hs : d.Simple) {x : Bytes}
    (h : d.marshal = .ok x) : d.ReadFrom x := by
  obtain ⟨rest, hx, hsup, hu⟩ := EapTypeData.unmarshal_marshal hs h []
  exact ⟨d.type, rest, [], hx, hsup, hu⟩

/-- the vendor that the decoder reads has 24 bits -/
theorem EapExpanded.vendor_of_unmarshal {x sp : Bytes} {d : EapExpanded}
    (h : EapExpanded.unmarshal ⟨0, 0, []⟩ ⟨x, sp⟩ = .ok d) : d.vendorID.toNat < 2 ^ 24 := by
  have hand : ∀ v : UInt32, (v &&& 0x00ffffff).toNat < 2 ^ 24 := by
    intro v
    rw [UInt32.toNat_and]
    exact Nat.lt_of_le_of_lt Nat.and_le_right (by decide)
  unfold EapExpanded.unmarshal at h
  split at h
  · split at h
    · exact absurd h (fail_ne_ok _ _)
    · obtain ⟨_, _, h⟩ := Outcome.bind_eq_ok.mp h
      obtain ⟨v, _, h⟩ := Outcome.bind_eq_ok.mp h
      obtain ⟨_, _, h⟩ := Outcome.bind_eq_ok.mp h
      obtain ⟨_, _, h⟩ := Outcome.bind_eq_ok.mp h
      obtain ⟨_, _, h⟩ := Outcome.bind_eq_ok.mp h
      obtain rfl := Outcome.ok.inj h
      exact hand v
  · obtain rfl := Outcome.ok.inj h
    decide

theorem EapAkaPrime.holds_of_unmarshal {x : Bytes} {e : EapAkaPrime}
    (h : EapAkaPrime.unmarshal x EapAkaPrime.zero = (.ok (), e)) : ∃ l, e.Holds l := by
  obtain ⟨sub, r1, r2, ws, tail, _, _, _, rfl⟩ := EapAkaPrime.unmarshal_iff.mp h
  exact ⟨_, holds_storeAll (holds_blank _ _) _⟩

theorem length_expanded (d : EapExpanded) :
    ∃ x, d.marshal = .ok x ∧ x.length = 8 + d.vendorData.length := by
  refine ⟨_, rfl, ?_⟩
  simp only [List.length_append, length_putUint32]

/-- **The data of a method come back** iff they are regular. -/
theorem EapTypeData.regular_iff {d : EapTypeData} :
    (∃ x, d.marshal = .ok x ∧ d.ReadFrom x) ↔ d.Regular := by
  cases d with
  | identity d =>
    constructor
    · intro ⟨x, hx, _⟩
      exact (typedMarshal_eq_ok.mp hx).1
    · intro h
      have hx : (EapTypeData.identity d).marshal = .ok (eapTypeIdentity :: d.identityData) :=
        typedMarshal_eq_ok.mpr ⟨h, rfl⟩
      exact ⟨_, hx, EapTypeData.readFrom_simple (d := .identity d) trivial hx⟩
  | notification d =>
    constructor
    · intro ⟨x, hx, _⟩
      exact (typedMarshal_eq_ok.mp hx).1
    · intro h
      have hx : (EapTypeData.notification d).marshal = .ok (eapTypeNotification :: d.notificationData) :=
        typedMarshal_eq_ok.mpr ⟨h, rfl⟩
      exact ⟨_, hx, EapTypeData.readFrom_simple (d := .notification d) trivial hx⟩
  | nak d =>
    constructor
    · intro ⟨x, hx, _⟩
      exact (typedMarshal_eq_ok.mp hx).1
    · intro h
      have hx : (EapTypeData.nak d).marshal = .ok (eapTypeNak :: d.nakData) :=
        typedMarshal_eq_ok.mpr ⟨h, rfl⟩
      exact ⟨_, hx, EapTypeData.readFrom_simple (d := .nak d) trivial hx⟩
  | md5 d =>
    constructor
    · intro ⟨x, hx, _⟩
      obtain ⟨h1, h2, _⟩ := EapMD5.marshal_eq_ok.mp hx
      exact ⟨h1, h2⟩
    · intro h
      have hx : (EapTypeData.md5 d).marshal = .ok (eapTypeMD5 :: 16 :: (d.value ++ d.name)) :=
        EapMD5.marshal_eq_ok.mpr ⟨h.1, h.2, rfl⟩
      exact ⟨_, hx, EapTypeData.readFrom_simple (d := .md5 d) trivial hx⟩
  | akaPrime d =>
    constructor
    · intro ⟨x, hx, t, rest, sp, hxt, hs, hu⟩
      have ht : t = eapTypeAkaPrime := by
        obtain ⟨y, _, hy⟩ := Outcome.bind_eq_ok.mp (show EapAkaPrime.marshal d = .ok x from hx)
        rw [← Outcome.ok.inj hy] at hxt
        exact (List.cons.inj hxt).1.symm
      subst ht
      obtain ⟨e, he, hde⟩ := unmarshal_akaPrime.mp hu
      injection hde with hde
      subst hde
      obtain ⟨l, hl⟩ := EapAkaPrime.holds_of_unmarshal he
      exact ⟨l, hl, (EapAkaPrime.unmarshal_written hl hx).mp he⟩
    · intro ⟨l, hl, hre⟩
      have hx := hl.marshal
      exact ⟨_, hx, eapTypeAkaPrime, _, [], rfl, rfl,
        unmarshal_akaPrime.mpr ⟨d, (EapAkaPrime.unmarshal_written hl hx).mpr hre, rfl⟩⟩
  | expanded d =>
    constructor
    · intro ⟨x, hx, t, rest, sp, _, hs, hu⟩
      simp only [eapTypeSupported, Bool.or_eq_true, decide_eq_true_eq] at hs
      rcases hs with ((((rfl | rfl) | rfl) | rfl) | rfl) | rfl
      · obtain ⟨y, _, hy⟩ := Outcome.map_eq_ok.mp (show EapTypeData.identity <$> _ = _ from hu)
        exact absurd hy (by simp)
      · obtain ⟨y, _, hy⟩ := Outcome.map_eq_ok.mp (show EapTypeData.notification <$> _ = _ from hu)
        exact absurd hy (by simp)
      · obtain ⟨y, _, hy⟩ := Outcome.map_eq_ok.mp (show EapTypeData.nak <$> _ = _ from hu)
        exact absurd hy (by simp)
      · obtain ⟨y, _, hy⟩ := Outcome.map_eq_ok.mp (show EapTypeData.md5 <$> _ = _ from hu)
        exact absurd hy (by simp)
      · obtain ⟨y, _, hy⟩ := unmarshal_akaPrime.mp hu
        exact absurd hy (by simp)
      · obtain ⟨y, hy, hyd⟩ := Outcome.map_eq_ok.mp (show EapTypeData.expanded <$> _ = _ from hu)
        injection hyd with hyd
        subst hyd
        exact EapExpanded.vendor_of_unmarshal hy
    · intro h
      obtain ⟨x, hx, _⟩ := length_expanded d
      exact ⟨x, hx, EapTypeData.readFrom_simple (d := .expanded d) h hx⟩

theorem EapTypeData.length_marshal {d : EapTypeData} {x : Bytes} (h : d.marshal = .ok x) :
    x.length = d.size := by
  cases d with
  | identity d => rw [(typedMarshal_eq_ok.mp h).2, List.length_cons, Nat.add_comm]; rfl
  | notification d => rw [(typedMarshal_eq_ok.mp h).2, List.length_cons, Nat.add_comm]; rfl
  | nak d => rw [(typedMarshal_eq_ok.mp h).2, List.length_cons, Nat.add_comm]; rfl
  | md5 d =>
    obtain ⟨_, _, rfl⟩ := EapMD5.marshal_eq_ok.mp h
    simp only [EapTypeData.size, List.length_cons, List.length_append]
    omega
  | akaPrime d =>
    rw [EapTypeData.size, show d.marshal = .ok x from h]
    rfl
  | expanded d =>
    obtain ⟨y, hy, hlen⟩ := length_expanded d
    obtain rfl : y = x := Outcome.ok.inj (hy.symm.trans h)
    exact hlen

def EAP.size (e : EAP) : Nat :=
  match e.eapTypeData with
  | none => 4
  | some d => 4 + d.size

/-- a packet that comes back: only one that is neither a request nor a response has no data -/
def EAP.Regular (e : EAP) : Prop :=
  match e.eapTypeData with
  | none => e.code ≠ eapCodeRequest ∧ e.code ≠ eapCodeResponse
  | some d => d.Regular ∧ 4 + d.size ≤ 65535

theorem EAP.returns_regular (e : EAP) (n : Nat) :
    Returns EAP.marshal (EAP.unmarshal EAP.zero) e n ↔ e.Regular ∧ n = e.size := by
  obtain ⟨code, identifier, data⟩ := e
  cases data with
  | none =>
    have hm : EAP.marshal ⟨code, identifier, none⟩ = .ok [code, identifier, 0, 4] := rfl
    have hread : ∀ sp, EAP.unmarshal EAP.zero ⟨[code, identifier, 0, 4], sp⟩ =
        .ok ⟨code, identifier, none⟩ ↔ code ≠ eapCodeRequest ∧ code ≠ eapCodeResponse := by
      intro sp
      refine (EAP.unmarshal_cons _ _ code identifier 0 4 [] sp).trans ?_
      constructor
      · intro ⟨_, h⟩
        rcases h with ⟨_, h1, h2, _⟩ | ⟨t, rest, d, h, _⟩
        · exact ⟨h1, h2⟩
        · exact absurd h (by simp)
      · intro h
        exact ⟨rfl, .inl ⟨rfl, h.1, h.2, rfl⟩⟩
    constructor
    · intro ⟨x, sp, hx, hlen, hu⟩
      obtain rfl := Outcome.ok.inj (hm.symm.trans hx)
      exact ⟨(hread sp).mp hu, hlen.symm⟩
    · intro ⟨h, hn⟩
      exact ⟨_, [], hm, hn.symm, (hread []).mpr h⟩
  | some d =>
    rw [EAP.returns_some_iff]
    constructor
    · intro ⟨x, hx, hn, hle, hread⟩
      have hlen := EapTypeData.length_marshal hx
      exact ⟨⟨EapTypeData.regular_iff.mp ⟨x, hx, hread⟩, by omega⟩, by rw [hn, hlen]; rfl⟩
    · intro ⟨⟨hreg, hle⟩, hn⟩
      have hn : n = 4 + d.size := hn
      obtain ⟨x, hx, hread⟩ := EapTypeData.regular_iff.mpr hreg
      have hlen := EapTypeData.length_marshal hx
      exact ⟨x, hx, by omega, by omega, hread⟩

/-! ## the other payloads -/

theorem KeyExchange.returns_regular (p : KeyExchange) (n : Nat) :
    Returns KeyExchange.marshal (KeyExchange.unmarshal ⟨0, []⟩) p n ↔
      p.keyExchangeData ≠ [] ∧ n = 4 + p.keyExchangeData.length := by
  obtain ⟨g, data⟩ := p
  obtain ⟨g1, g2, hg, _⟩ := exists_octets_putUint16 g
  have hm : KeyExchange.marshal ⟨g, data⟩ = .ok (g1 :: g2 :: 0 :: 0 :: data) := by
    rw [KeyExchange.marshal, hg]
    rfl
  rw [returns_of_ok hm fun sp => KeyExchange.unmarshal_eq ⟨0, []⟩ _ sp, and_comm, if_neg (by simp),
    show (g1 :: g2 :: 0 :: 0 :: data).length = 4 + data.length by simp only [List.length_cons]; omega]
  refine and_congr_left fun _ => ?_
  by_cases h0 : data = []
  · subst h0
    exact iff_of_false (fun h => fail_ne_ok _ _ h) (fun h => h rfl)
  · have hpos : 0 < data.length := List.length_pos_iff.mpr h0
    rw [if_neg (by omega)]
    refine iff_of_true ?_ h0
    have hgroup : octNat [g1, g2] = g.toNat := by
      rw [← hg, putUint16, octNat_octets_of_lt (show g.toNat < 256 ^ 2 from g.toNat_lt)]
    simp only [List.take_succ_cons, List.take_zero, hgroup, List.drop_succ_cons, List.drop_zero,
      List.nil_append, UInt16.ofNat_toNat]

theorem Nonce.returns_regular (p : Nonce) (n : Nat) :
    Returns Nonce.marshal (Nonce.unmarshal ⟨[]⟩) p n ↔ n = p.nonceData.length :=
  Nonce.returns_iff (Nonce.unmarshal_eq ⟨[]⟩ ⟨p.nonceData, []⟩) n

theorem VendorID.returns_regular (p : VendorID) (n : Nat) :
    Returns VendorID.marshal (VendorID.unmarshal ⟨[]⟩) p n ↔ n = p.vendorIDData.length :=
  VendorID.returns_iff (VendorID.unmarshal_eq ⟨[]⟩ ⟨p.vendorIDData, []⟩) n

theorem Notification.returns_regular (p : Notification) (n : Nat) :
    Returns Notification.marshal (Notification.unmarshal ⟨0, 0, [], []⟩) p n ↔
      p.spi.length < 252 ∧ n = 4 + p.spi.length + p.notificationData.length := by
  by_cases h255 : p.spi.length > 255
  · have hm : ∀ d, p.marshal ≠ .ok d := by
      intro d
      rw [Notification.marshal, if_pos h255]
      exact fail_ne_ok _ _
    exact iff_of_false (not_returns hm) (fun h => by omega)
  · have hm : p.marshal = .ok ([p.protocolID, UInt8.ofNat p.spi.length] ++
        putUint16 p.notifyMessageType ++ p.spi ++ p.notificationData) := if_neg h255
    rw [returns_of_ok hm (Notification.unmarshal_encoded hm), and_comm]
    simp only [List.length_append, length_putUint16, List.length_cons, List.length_nil]
    refine and_congr_left fun _ => ?_
    by_cases hw : 252 ≤ p.spi.length
    · rw [if_pos hw]
      exact iff_of_false (by simp) (by omega)
    · rw [if_neg hw]
      exact iff_of_true rfl (by omega)

theorem Delete.returns_regular (d : Delete) (n : Nat) :
    Returns Delete.marshal (Delete.unmarshal ⟨0, 0, 0, []⟩) d n ↔
      (d.spis.length = d.numberOfSPI.toNat ∧ (d.spis = [] ∨ d.spiSize.toNat = 4)) ∧
        n = 4 + 4 * d.spis.length := by
  have hlen : ∀ {data}, d.marshal = .ok data → (d.spis = [] ∨ d.spiSize.toNat = 4) →
      data.length = 4 + 4 * d.spis.length := by
    intro data hm h4
    obtain ⟨_, _, rfl⟩ := Delete.marshal_eq_ok.mp hm
    simp only [List.length_append, length_putUint16, List.length_cons, List.length_nil]
    rcases h4 with h0 | h4
    · simp [h0]
    · rw [length_flatMap_const d.spis _ 4 (by simp [h4])]
  constructor
  · intro ⟨data, sp, hm, hl, hu⟩
    have hsize := Delete.size_of_survives hm hu
    exact ⟨⟨(Delete.marshal_eq_ok.mp hm).1, hsize⟩, by rw [← hl, hlen hm hsize]⟩
  · intro ⟨⟨hn, h4⟩, hl⟩
    have hwide : d.spis = [] ∨ 4 ≤ d.spiSize.toNat := h4.imp_right fun h => le_of_eq h.symm
    have hm := Delete.marshal_eq_ok.mpr ⟨hn, hwide, rfl⟩
    exact ⟨_, [], hm, by rw [hl, hlen hm h4], Delete.unmarshal_written hn h4 hm []⟩

/-- the selectors that the encoders take -/
def SelectorsRegular (tss : List IndividualTrafficSelector) : Prop :=
  tss ≠ [] ∧ tss.length ≤ 255 ∧ ∀ ts ∈ tss, SelectorOk ts

theorem ts_returns_regular (t : String) (tss : List IndividualTrafficSelector) (n : Nat) :
    Returns (tsMarshal t) (tsUnmarshal []) tss n ↔
      SelectorsRegular tss ∧ n = 4 + (tss.flatMap selectorOctets).length := by
  have hlen : ([UInt8.ofNat tss.length, 0, 0, 0] ++ tss.flatMap selectorOctets).length =
      4 + (tss.flatMap selectorOctets).length := by
    rw [List.length_append]
    rfl
  constructor
  · intro ⟨data, sp, hm, hl, _⟩
    obtain ⟨hreg, rfl⟩ := tsMarshal_iff.mp hm
    exact ⟨hreg, by rw [← hl, hlen]⟩
  · intro ⟨hreg, hl⟩
    have hm := (tsMarshal_iff (t := t)).mpr ⟨hreg, rfl⟩
    exact ⟨_, [], hm, by rw [hl, hlen], tsUnmarshal_marshal hm []⟩

/-- an attribute, and no attribute with a type of 16 bits or a value that is too long -/
def Configuration.Regular (c : Configuration) : Prop :=
  c.configurationAttribute ≠ [] ∧
    ∀ a ∈ c.configurationAttribute, AttrOk a ∧ a.type.toNat < 2 ^ 15

theorem Configuration.returns_regular (c : Configuration) (n : Nat) :
    Returns Configuration.marshal (Configuration.unmarshal ⟨0, []⟩) c n ↔
      c.Regular ∧ n = 4 + (c.configurationAttribute.flatMap attrOctets).length := by
  constructor
  · intro hret
    obtain ⟨data, sp, hm, hl, hu⟩ := hret
    obtain ⟨t, r1, r2, r3, as, hb, hne, hok, htop, hn⟩ :=
      (Configuration.returns_iff hu n).mp ⟨data, sp, hm, hl, hu⟩
    rcases (Configuration.unmarshal_iff ..).mp hu with ⟨h0, _⟩ | ⟨t', x1, x2, x3, as', hb', _, hok', hc⟩
    · rw [h0] at hb
      exact absurd hb (by simp)
    rw [hb] at hb'
    simp only [List.cons.injEq] at hb'
    obtain ⟨-, -, -, -, hflat⟩ := hb'
    have hread := (Configuration.unmarshal_iff ⟨0, []⟩ ⟨t, as⟩ data sp).mpr
      (.inr ⟨t, r1, r2, r3, as, hb, hne, hok, rfl⟩)
    rw [hu] at hread
    obtain rfl := Outcome.ok.inj hread
    refine ⟨⟨hne, fun a ha => ⟨hok a ha, htop a ha⟩⟩, ?_⟩
    rw [hn, hb]
    simp only [List.length_cons]
    omega
  · intro ⟨⟨hne, hall⟩, hn⟩
    have hm := Configuration.marshal_ok fun a ha => (hall a ha).1
    rw [(map_clearTop_eq_self _).mpr fun a ha => (hall a ha).2] at hm
    refine ⟨_, [], hm, by rw [hn, List.length_append]; rfl, ?_⟩
    exact (Configuration.unmarshal_iff ..).mpr
      (.inr ⟨c.configurationType, 0, 0, 0, c.configurationAttribute, rfl, hne,
        fun a ha => (hall a ha).1, rfl⟩)

theorem SecurityAssociation.returns_regular (sa : SecurityAssociation) (n : Nat) :
    Returns SecurityAssociation.marshal (SecurityAssociation.unmarshal ⟨[]⟩) sa n ↔
      (∀ p ∈ sa.proposals, p.Regular) ∧ n = (sa.proposals.map Proposal.size).sum := by
  constructor
  · intro hret
    obtain ⟨data, sp, hm, hl, hu⟩ := hret
    obtain ⟨rs, ps, hbody, hof, hps⟩ := SecurityAssociation.unmarshal_raw hu
    obtain rfl : sa.proposals = ps := hps
    have hregular : ∀ p ∈ sa.proposals, p.Regular := by
      intro p hp
      obtain ⟨r, hr, hrp⟩ := forall₂_partner hof hp
      obtain ⟨h0, h255, hval⟩ := SecurityAssociation.marshal_ok_only hm hp
      exact proposalOf_regular hrp (proposalOf_kept hrp h0 h255 hval)
    refine ⟨hregular, ?_⟩
    rw [SecurityAssociation.marshal_regular hregular] at hm
    rw [← hl, ← Outcome.ok.inj hm,
      length_markLast Proposal.octets Proposal.size length_octets_proposal]
  · intro ⟨hregular, hn⟩
    refine ⟨_, [], SecurityAssociation.marshal_regular hregular, ?_,
      SecurityAssociation.unmarshal_marshal hregular []⟩
    rw [hn, length_markLast Proposal.octets Proposal.size length_octets_proposal]

/-! ## one payload -/

namespace IKEPayload

/-- the octets of a payload that comes back -/
def size : IKEPayload → Nat
  | .sa p => (p.proposals.map Proposal.size).sum
  | .ke p => 4 + p.keyExchangeData.length
  | .idi p => 4 + p.idData.length
  | .idr p => 4 + p.idData.length
  | .cert p => 1 + p.certificateData.length
  | .certreq p => 1 + p.certificationAuthority.length
  | .auth p => 4 + p.authenticationData.length
  | .nonce p => p.nonceData.length
  | .n p => 4 + p.spi.length + p.notificationData.length
  | .d p => 4 + 4 * p.spis.length
  | .v p => p.vendorIDData.length
  | .tsi p => 4 + (p.trafficSelectors.flatMap selectorOctets).length
  | .tsr p => 4 + (p.trafficSelectors.flatMap selectorOctets).length
  | .sk p => p.encryptedData.length
  | .cp p => 4 + (p.configurationAttribute.flatMap attrOctets).length
  | .eap p => p.size

/-- the payloads that the decoder gives back from what the encoder makes of them -/
def Regular : IKEPayload → Prop
  | .sa p => ∀ q ∈ p.proposals, q.Regular
  | .ke p => p.keyExchangeData ≠ []
  | .idi p => p.idData ≠ []
  | .idr p => p.idData ≠ []
  | .cert p => p.certificateData ≠ []
  | .certreq p => p.certificationAuthority ≠ []
  | .auth p => p.authenticationData ≠ []
  | .nonce _ => True
  | .n p => p.spi.length < 252
  | .d p => p.spis.length = p.numberOfSPI.toNat ∧ (p.spis = [] ∨ p.spiSize.toNat = 4)
  | .v _ => True
  | .tsi p => SelectorsRegular p.trafficSelectors
  | .tsr p => SelectorsRegular p.trafficSelectors
  | .sk p => p.encryptedData ≠ []
  | .cp p => p.Regular
  | .eap p => p.Regular

/-- the payloads with one octet, reserved octets and data -/
theorem comesBack_tagged (f : UInt8 × Bytes → IKEPayload) {k : Nat} (hk : 0 < k) (t : String)
    (hf : ∀ x y, f x = f y → x = y) (r : UInt8 × Bytes)
    (hm : (f r).marshal = .ok (taggedMarshal k r.1 r.2))
    (hu : ∀ next b, (new next (f r).type).unmarshal b = f <$> taggedUnmarshal k t (0, []) b) (n : Nat) :
    (f r).ComesBack n ↔ r.2 ≠ [] ∧ n = k + r.2.length :=
  comesBack_map f ((tagged_returns hk t r n).trans and_comm) (fun y hy => hf y r hy) hm hu

theorem comesBack_encrypted (e : Encrypted) (n : Nat) :
    (sk e).ComesBack n ↔ e.encryptedData ≠ [] ∧ n = e.encryptedData.length :=
  comesBack_sk (show Encrypted.unmarshal ⟨e.nextPayload, []⟩ ⟨e.encryptedData, []⟩ = .ok e from rfl) n

/-- **One payload**: it comes back iff it is regular, in `size` octets. -/
theorem comesBack_regular (p : IKEPayload) (n : Nat) : p.ComesBack n ↔ p.Regular ∧ n = p.size := by
  cases p with
  | sa p =>
    exact comesBack_map .sa (SecurityAssociation.returns_regular p n) (fun y hy => by injection hy) rfl
      fun _ _ => rfl
  | ke p =>
    exact comesBack_map .ke (KeyExchange.returns_regular p n) (fun y hy => by injection hy) rfl
      fun _ _ => rfl
  | idi p =>
    exact comesBack_tagged (fun r => .idi ⟨r.1, r.2⟩) (by omega) _
      (fun x y h => by injection h with h; injection h with h1 h2; exact Prod.ext h1 h2)
      (p.idType, p.idData) rfl (fun _ _ => Functor.map_map _ _ _) n
  | idr p =>
    exact comesBack_tagged (fun r => .idr ⟨r.1, r.2⟩) (by omega) _
      (fun x y h => by injection h with h; injection h with h1 h2; exact Prod.ext h1 h2)
      (p.idType, p.idData) rfl (fun _ _ => Functor.map_map _ _ _) n
  | cert p =>
    exact comesBack_tagged (fun r => .cert ⟨r.1, r.2⟩) (by omega) _
      (fun x y h => by injection h with h; injection h with h1 h2; exact Prod.ext h1 h2)
      (p.certificateEncoding, p.certificateData) rfl (fun _ _ => Functor.map_map _ _ _) n
  | certreq p =>
    exact comesBack_tagged (fun r => .certreq ⟨r.1, r.2⟩) (by omega) _
      (fun x y h => by injection h with h; injection h with h1 h2; exact Prod.ext h1 h2)
      (p.certificateEncoding, p.certificationAuthority) rfl (fun _ _ => Functor.map_map _ _ _) n
  | auth p =>
    exact comesBack_tagged (fun r => .auth ⟨r.1, r.2⟩) (by omega) _
      (fun x y h => by injection h with h; injection h with h1 h2; exact Prod.ext h1 h2)
      (p.authenticationMethod, p.authenticationData) rfl (fun _ _ => Functor.map_map _ _ _) n
  | nonce p =>
    exact (comesBack_map .nonce (Nonce.returns_regular p n) (fun y hy => by injection hy) rfl
      fun _ _ => rfl).trans (and_iff_right trivial).symm
  | n p =>
    exact comesBack_map .n (Notification.returns_regular p n) (fun y hy => by injection hy) rfl
      fun _ _ => rfl
  | d p =>
    exact comesBack_map .d (Delete.returns_regular p n) (fun y hy => by injection hy) rfl
      fun _ _ => rfl
  | v p =>
    exact (comesBack_map .v (VendorID.returns_regular p n) (fun y hy => by injection hy) rfl
      fun _ _ => rfl).trans (and_iff_right trivial).symm
  | tsi p =>
    exact comesBack_map (fun tss => .tsi ⟨tss⟩) (ts_returns_regular _ p.trafficSelectors n)
      (fun y hy => by injection hy with hy; injection hy) rfl fun _ _ => Functor.map_map _ _ _
  | tsr p =>
    exact comesBack_map (fun tss => .tsr ⟨tss⟩) (ts_returns_regular _ p.trafficSelectors n)
      (fun y hy => by injection hy with hy; injection hy) (TrafficSelectorResponder.marshal_eq p)
      fun _ _ => Functor.map_map _ _ _
  | sk p => exact comesBack_encrypted p n
  | cp p =>
    exact comesBack_map .cp (Configuration.returns_regular p n) (fun y hy => by injection hy) rfl
      fun _ _ => rfl
  | eap p => exact comesBack_eap.trans (EAP.returns_regular p n)

theorem survives_iff {p : IKEPayload} : p.Survives ↔ p.Regular := by
  constructor
  · intro ⟨data, next, sp, hm, hu⟩
    exact ((comesBack_regular p data.length).mp ⟨data, next, sp, hm, rfl, hu⟩).1
  · intro h
    exact ((comesBack_regular p p.size).mpr ⟨h, rfl⟩).survives

end IKEPayload

/-! ## the message -/

/-- the octets of the records of the payloads -/
def IKEPayloadContainer.size (ps : IKEPayloadContainer) : Nat :=
  (ps.map fun p => 4 + IKEPayload.size p).sum

/-- a message that comes back, up to what the encoder puts into its header -/
structure IKEMessage.Regular (m : IKEMessage) : Prop where
  major : m.header.majorVersion < 16
  minor : m.header.minorVersion < 16
  payloads : ∀ p ∈ m.payloads, p.Regular ∧ p.size ≤ 65531
  linked : m.payloads.Linked
  size : 28 + m.payloads.size ≤ 4294967295

theorem forall₂_regular {ps : IKEPayloadContainer} {ns : List Nat} :
    List.Forall₂ (fun p n => IKEPayload.ComesBack p n ∧ n ≤ 65531) ps ns ↔
      (∀ p ∈ ps, p.Regular ∧ p.size ≤ 65531) ∧ ns = ps.map IKEPayload.size := by
  induction ps generalizing ns with
  | nil => simp
  | cons p ps ih =>
    rw [List.forall₂_cons_left_iff]
    constructor
    · intro ⟨n, ns', ⟨hp, hle⟩, hps, hns⟩
      obtain ⟨hreg, rfl⟩ := (IKEPayload.comesBack_regular p n).mp hp
      obtain ⟨hall, rfl⟩ := ih.mp hps
      exact ⟨List.forall_mem_cons.mpr ⟨⟨hreg, hle⟩, hall⟩, hns⟩
    · intro ⟨hall, hns⟩
      obtain ⟨hp, hps⟩ := List.forall_mem_cons.mp hall
      exact ⟨p.size, ps.map IKEPayload.size, ⟨(p.comesBack_regular _).mpr ⟨hp.1, rfl⟩, hp.2⟩,
        ih.mpr ⟨hps, rfl⟩, hns⟩

/-- regular payloads are written, in `size` octets -/
theorem IKEPayloadContainer.encode_regular {ps : IKEPayloadContainer}
    (h : ∀ p ∈ ps, p.Regular ∧ p.size ≤ 65531) : ∃ b, ps.encode = .ok b ∧ b.length = ps.size := by
  obtain ⟨b, hb, hlen⟩ := IKEPayloadContainer.encode_of_comesBack (forall₂_regular.mpr ⟨h, rfl⟩)
  refine ⟨b, hb, ?_⟩
  rw [hlen, List.map_map]
  rfl

/-- what the encoder makes of a regular message, and what the decoder makes of that -/
theorem IKEMessage.Regular.roundTrip {m : IKEMessage} (h : m.Regular) :
    ∃ b, (IKEMessage.encode m).1 = .ok b ∧ b.length = 28 + m.payloads.size ∧
      ∀ sp, IKEMessage.decode [] ⟨b, sp⟩ =
        .ok ⟨m.header.setPayload m.payloads.firstType (b.drop 28), m.payloads⟩ := by
  obtain ⟨p, hp, hlen⟩ := IKEPayloadContainer.encode_regular h.payloads
  have hfits : 28 + p.length ≤ 4294967295 := by rw [hlen]; exact h.size
  obtain ⟨b, hb⟩ :=
    marshal_header_iff (h := m.header.setPayload m.payloads.firstType p) |>.mpr hfits
  have hencode : (IKEMessage.encode m).1 = .ok b := by
    unfold IKEMessage.encode
    rw [hp]
    exact hb
  obtain ⟨hb28, _, _⟩ := headerOf_marshal (h := m.header.setPayload _ p) h.major h.minor hb
  refine ⟨b, hencode, ?_, fun sp => decode_of_encode sp h.major h.minor h.linked
    (fun q hq => IKEPayload.survives_iff.mpr (h.payloads q hq).1) hencode⟩
  rw [hb28, ← hlen]
  rfl

theorem IKEMessage.Regular.stable {m : IKEMessage} (h : m.Regular) : m.Stable := by
  obtain ⟨b, hb, _, hread⟩ := h.roundTrip
  exact ⟨b, hb, fun sp => ⟨_, hread sp, rfl, rfl⟩⟩

theorem IKEMessage.Stable.regular {m : IKEMessage} (h : m.Stable) : m.Regular := by
  obtain ⟨b, hb, hread⟩ := h
  obtain ⟨m', hm', hpay, hsame⟩ := hread []
  obtain ⟨_, _, _, hh, hd⟩ := message_decode_iff.mp hm'
  -- the version octet that was read has two halves of four bits
  have hv := version_lt (b.getD 17 0)
  have hmajor : m.header.majorVersion < 16 := by
    have he : (m'.header.setPayload 0 []).majorVersion = m.header.majorVersion := by rw [hsame]; rfl
    rw [← he, hh]
    exact hv.1
  have hminor : m.header.minorVersion < 16 := by
    have he : (m'.header.setPayload 0 []).minorVersion = m.header.minorVersion := by rw [hsame]; rfl
    rw [← he, hh]
    exact hv.2
  obtain ⟨p, hp, hmar⟩ := encode_message_ok hb
  obtain ⟨hlen, _, hhead⟩ := headerOf_marshal (h := m.header.setPayload _ p) hmajor hminor hmar
  have hdrop : b.drop 28 = p := congrArg IKEHeader.payloadBytes hhead
  rw [hpay, hhead, hdrop] at hd
  obtain ⟨hlinked, ns, hback, hplen⟩ := IKEPayloadContainer.comesBack_of_decode hp hd
  obtain ⟨hall, rfl⟩ := forall₂_regular.mp hback
  refine ⟨hmajor, hminor, hall, hlinked, ?_⟩
  have hfits : 28 + p.length ≤ 4294967295 := marshal_header_iff.mp ⟨b, hmar⟩
  rw [hplen, List.map_map] at hfits
  exact hfits

/-- **Which messages come back**: exactly the regular ones, in as many octets as their payloads say. -/
theorem stable_message_iff (m : IKEMessage) :
    (m.Stable ↔ m.Regular) ∧
    ∀ b, m.Stable → (IKEMessage.encode m).1 = .ok b → b.length = 28 + m.payloads.size := by
  refine ⟨⟨IKEMessage.Stable.regular, IKEMessage.Regular.stable⟩, fun b h hb => ?_⟩
  obtain ⟨b', hb', hlen, _⟩ := h.regular.roundTrip
  obtain rfl : b' = b := Outcome.ok.inj (hb'.symm.trans hb)
  exact hlen

end Ike
