import IKEv2.Message.Types

/-!
# Payloads of fixed layout (`message/payload_*.go`)

KE, IDi, IDr, CERT, CERTreq, AUTH, Nonce, VendorID, SK and Notification: a few header octets and
then the data.  `unmarshal` takes the object it fills, as the method of the source does, and the
slice it reads; every index and slice expression of the source is there with its range check.

`unmarshal_eq` of a payload is its decoder without slices: the octets behind the slice never
matter.  `Notification.unmarshal_cons` keeps the wrapping `uint8` sum `4+spiSize`, and
`Notification.unmarshal_encoded` says what it makes of an encoded notification.
-/

set_option linter.unusedVariables false

namespace Ike
open GoLang

/-! ## one octet, reserved octets, data -/

/-- `headerLen` octets of which only the first is used, then the data -/
def taggedMarshal (headerLen : Nat) (tag : UInt8) (data : Bytes) : Bytes :=
  tag :: List.replicate (headerLen - 1) 0 ++ data

def taggedUnmarshal (headerLen : Nat) (text : String) (old : UInt8 × Bytes) (b : Slice UInt8) :
    Outcome (UInt8 × Bytes) :=
  if b.len > 0 then
    if b.len ≤ headerLen then fail text
    else do
      let tag ← b.index 0
      let rest ← b.sliceFrom headerLen
      pure (tag, old.2 ++ rest.data)
  else pure old

theorem taggedUnmarshal_nil (n : Nat) (t : String) (old : UInt8 × Bytes) (sp : Bytes) :
    taggedUnmarshal n t old ⟨[], sp⟩ = .ok old := rfl

theorem taggedUnmarshal_cons (n : Nat) (t : String) (old : UInt8 × Bytes) (tag : UInt8)
    (l sp : Bytes) :
    taggedUnmarshal n t old ⟨tag :: l, sp⟩ =
      if l.length + 1 ≤ n then fail t else .ok (tag, old.2 ++ (tag :: l).drop n) := by
  unfold taggedUnmarshal
  rw [if_pos (by simp)]
  by_cases h : l.length + 1 ≤ n
  · rw [if_pos (by simpa using h), if_pos h]
  · rw [if_neg (by simpa using h), if_neg h, Slice.index_mk_zero,
      Slice.sliceFrom_data _ (by simp; omega)]
    rfl

theorem taggedUnmarshal_spare (n : Nat) (t : String) (old : UInt8 × Bytes) (l sp sp' : Bytes) :
    taggedUnmarshal n t old ⟨l, sp⟩ = taggedUnmarshal n t old ⟨l, sp'⟩ := by
  cases l with
  | nil => rfl
  | cons tag l => rw [taggedUnmarshal_cons, taggedUnmarshal_cons]

/-- what a tagged payload carries survives, unless its data are empty -/
theorem taggedUnmarshal_marshal (n : Nat) (hn : 0 < n) (t : String) (old : UInt8 × Bytes)
    (tag : UInt8) (data sp : Bytes) :
    taggedUnmarshal n t old ⟨taggedMarshal n tag data, sp⟩ =
      if data = [] then fail t else .ok (tag, old.2 ++ data) := by
  have hd : (tag :: (List.replicate (n - 1) 0 ++ data)).drop n = data := by
    obtain ⟨k, rfl⟩ : ∃ k, n = k + 1 := ⟨n - 1, by omega⟩
    simp
  show taggedUnmarshal n t old ⟨tag :: (List.replicate (n - 1) 0 ++ data), sp⟩ = _
  rw [taggedUnmarshal_cons, hd]
  cases data with
  | nil => rw [if_pos (by simp; omega), if_pos rfl]
  | cons x xs => rw [if_neg (by simp; omega), if_neg (by simp)]

/-! ## Key Exchange -/

def KeyExchange.marshal (k : KeyExchange) : Outcome Bytes :=
  .ok (putUint16 k.diffieHellmanGroup ++ [0, 0] ++ k.keyExchangeData)

def KeyExchange.unmarshal (k : KeyExchange) (b : Slice UInt8) : Outcome KeyExchange :=
  if b.len > 0 then
    if b.len ≤ 4 then fail "KeyExchange: No sufficient bytes to decode next key exchange data"
    else do
      let g ← b.slice 0 2
      let group ← uint16 g.data
      let rest ← b.sliceFrom 4
      pure { diffieHellmanGroup := group, keyExchangeData := k.keyExchangeData ++ rest.data }
  else pure k

theorem KeyExchange.unmarshal_eq (k : KeyExchange) (d sp : Bytes) :
    k.unmarshal ⟨d, sp⟩ =
      if d = [] then .ok k
      else if d.length ≤ 4 then
        fail "KeyExchange: No sufficient bytes to decode next key exchange data"
      else .ok ⟨UInt16.ofNat (octNat (d.take 2)), k.keyExchangeData ++ d.drop 4⟩ := by
  unfold KeyExchange.unmarshal
  by_cases h0 : d = []
  · subst h0; rfl
  · have hp : 0 < d.length := List.length_pos_iff.mpr h0
    rw [if_pos (show (⟨d, sp⟩ : Slice UInt8).len > 0 from hp), if_neg h0]
    by_cases h4 : d.length ≤ 4
    · rw [if_pos (show (⟨d, sp⟩ : Slice UInt8).len ≤ 4 from h4), if_pos h4]
    · have hl : 2 ≤ d.length := by omega
      rw [if_neg (show ¬ (⟨d, sp⟩ : Slice UInt8).len ≤ 4 from h4), if_neg h4,
        Slice.slice_data _ (by omega) (show 2 ≤ d.length from hl),
        Slice.sliceFrom_data _ (show 4 ≤ d.length by omega)]
      simp [uint16, octUint, hl, List.take_take]

/-! ## Identification, Certificate, Certificate Request, Authentication -/

def IdentificationInitiator.marshal (p : IdentificationInitiator) : Outcome Bytes :=
  .ok (taggedMarshal 4 p.idType p.idData)

def IdentificationInitiator.unmarshal (p : IdentificationInitiator) (b : Slice UInt8) :
    Outcome IdentificationInitiator :=
  (fun r => ⟨r.1, r.2⟩) <$> taggedUnmarshal 4
    "Identification: No sufficient bytes to decode next identification" (p.idType, p.idData) b

def IdentificationResponder.marshal (p : IdentificationResponder) : Outcome Bytes :=
  .ok (taggedMarshal 4 p.idType p.idData)

def IdentificationResponder.unmarshal (p : IdentificationResponder) (b : Slice UInt8) :
    Outcome IdentificationResponder :=
  (fun r => ⟨r.1, r.2⟩) <$> taggedUnmarshal 4
    "Identification: No sufficient bytes to decode next identification" (p.idType, p.idData) b

def Certificate.marshal (p : Certificate) : Outcome Bytes :=
  .ok (taggedMarshal 1 p.certificateEncoding p.certificateData)

def Certificate.unmarshal (p : Certificate) (b : Slice UInt8) : Outcome Certificate :=
  (fun r => ⟨r.1, r.2⟩) <$> taggedUnmarshal 1
    "Certificate: No sufficient bytes to decode next certificate"
    (p.certificateEncoding, p.certificateData) b

def CertificateRequest.marshal (p : CertificateRequest) : Outcome Bytes :=
  .ok (taggedMarshal 1 p.certificateEncoding p.certificationAuthority)

def CertificateRequest.unmarshal (p : CertificateRequest) (b : Slice UInt8) :
    Outcome CertificateRequest :=
  (fun r => ⟨r.1, r.2⟩) <$> taggedUnmarshal 1
    "CertificateRequest: No sufficient bytes to decode next certificate request"
    (p.certificateEncoding, p.certificationAuthority) b

def Authentication.marshal (p : Authentication) : Outcome Bytes :=
  .ok (taggedMarshal 4 p.authenticationMethod p.authenticationData)

def Authentication.unmarshal (p : Authentication) (b : Slice UInt8) : Outcome Authentication :=
  (fun r => ⟨r.1, r.2⟩) <$> taggedUnmarshal 4
    "Authentication: No sufficient bytes to decode next authentication"
    (p.authenticationMethod, p.authenticationData) b

/-! ## Nonce, Vendor ID, Encrypted -/

def Nonce.marshal (p : Nonce) : Outcome Bytes := .ok p.nonceData

def Nonce.unmarshal (p : Nonce) (b : Slice UInt8) : Outcome Nonce :=
  if b.len > 0 then .ok ⟨p.nonceData ++ b.data⟩ else .ok p

theorem Nonce.unmarshal_eq (p : Nonce) (b : Slice UInt8) :
    p.unmarshal b = .ok ⟨p.nonceData ++ b.data⟩ := by
  obtain ⟨d, sp⟩ := b
  unfold Nonce.unmarshal
  cases d with
  | nil => simp
  | cons x xs => simp

def VendorID.marshal (p : VendorID) : Outcome Bytes := .ok p.vendorIDData

def VendorID.unmarshal (p : VendorID) (b : Slice UInt8) : Outcome VendorID :=
  if b.len > 0 then .ok ⟨p.vendorIDData ++ b.data⟩ else .ok p

theorem VendorID.unmarshal_eq (p : VendorID) (b : Slice UInt8) :
    p.unmarshal b = .ok ⟨p.vendorIDData ++ b.data⟩ := by
  obtain ⟨d, sp⟩ := b
  unfold VendorID.unmarshal
  cases d with
  | nil => simp
  | cons x xs => simp

def Encrypted.marshal (p : Encrypted) : Outcome Bytes :=
  if p.encryptedData.length = 0 then fail "[Encrypted] The encrypted data is empty"
  else .ok p.encryptedData

def Encrypted.unmarshal (p : Encrypted) (b : Slice UInt8) : Outcome Encrypted :=
  .ok { p with encryptedData := p.encryptedData ++ b.data }

/-! ## Notification -/

def Notification.marshal (p : Notification) : Outcome Bytes :=
  if p.spi.length > 255 then
    fail s!"Notification: Number of SPI exceeds uint8 limit: {p.spi.length}"
  else
    .ok ([p.protocolID, UInt8.ofNat p.spi.length] ++ putUint16 p.notifyMessageType ++ p.spi
      ++ p.notificationData)

/-- `4+spiSize` is a sum of `uint8`: it wraps for `spiSize ≥ 252` -/
def Notification.unmarshal (p : Notification) (b : Slice UInt8) : Outcome Notification :=
  if b.len > 0 then
    if b.len < 4 then fail "Notification: No sufficient bytes to decode next notification"
    else do
      let spiSize ← b.index 1
      if b.len < (4 + spiSize).toNat then
        fail "Notification: No sufficient bytes to get SPI according to the length specified in header"
      else do
        let protocolID ← b.index 0
        let t ← b.slice 2 4
        let notifyMessageType ← uint16 t.data
        let spi ← b.slice 4 (4 + spiSize).toNat
        let rest ← b.sliceFrom (4 + spiSize).toNat
        pure { protocolID := protocolID, notifyMessageType := notifyMessageType,
               spi := p.spi ++ spi.data, notificationData := p.notificationData ++ rest.data }
  else pure p

theorem Notification.unmarshal_cons (p : Notification) (proto size m1 m2 : UInt8) (l sp : Bytes) :
    p.unmarshal ⟨proto :: size :: m1 :: m2 :: l, sp⟩ =
      if 252 ≤ size.toNat then .panic .sliceOutOfRange
      else if l.length < size.toNat then
        fail "Notification: No sufficient bytes to get SPI according to the length specified in header"
      else .ok ⟨proto, UInt16.ofNat (m1.toNat * 256 + m2.toNat), p.spi ++ l.take size.toNat,
        p.notificationData ++ l.drop size.toNat⟩ := by
  have hs : size.toNat < 256 := size.toNat_lt
  have h4 : (4 + size).toNat = (4 + size.toNat) % 256 := by rw [UInt8.toNat_add]; rfl
  unfold Notification.unmarshal
  rw [if_pos (by simp), if_neg (by simp), Slice.index_mk_succ, Slice.index_mk_zero]
  simp only [Outcome.ok_bind, h4]
  by_cases hw : 252 ≤ size.toNat
  · have hlt : ¬ (l.length + 4 < (4 + size.toNat) % 256) := by omega
    rw [if_pos hw, if_neg (by simpa using hlt), Slice.index_mk_zero,
      Slice.slice_data _ (by omega) (by simp)]
    simp only [Outcome.ok_bind, List.take_succ_cons, List.take_zero, List.drop_succ_cons,
      List.drop_zero, uint16_pair]
    rw [Slice.slice_panic _ (by omega)]
    rfl
  · have hm : (4 + size.toNat) % 256 = size.toNat + 4 := by omega
    rw [if_neg hw, hm]
    by_cases hl : l.length < size.toNat
    · rw [if_pos (by simpa using hl), if_pos hl]
    · rw [if_neg (by simpa using hl), if_neg hl, Slice.index_mk_zero,
        Slice.slice_data _ (by omega) (by simp), Slice.slice_data _ (by omega) (by simp; omega),
        Slice.sliceFrom_data _ (by simp; omega)]
      simp [uint16_pair]

theorem Notification.unmarshal_short (p : Notification) {l : Bytes} (h0 : l ≠ []) (h : l.length < 4)
    (sp : Bytes) :
    p.unmarshal ⟨l, sp⟩ = fail "Notification: No sufficient bytes to decode next notification" := by
  rw [Notification.unmarshal,
    if_pos (show (⟨l, sp⟩ : Slice UInt8).len > 0 from List.length_pos_iff.mpr h0),
    if_pos (show (⟨l, sp⟩ : Slice UInt8).len < 4 from h)]

theorem Notification.unmarshal_spare (p : Notification) (l sp sp' : Bytes) :
    p.unmarshal ⟨l, sp⟩ = p.unmarshal ⟨l, sp'⟩ := by
  rcases header_cases l with rfl | ⟨h0, h4⟩ | ⟨proto, size, m1, m2, l, rfl⟩
  · rfl
  · rw [p.unmarshal_short h0 h4, p.unmarshal_short h0 h4]
  · rw [Notification.unmarshal_cons, Notification.unmarshal_cons]

/-- a notification that the encoder takes, as the decoder reads it -/
theorem Notification.unmarshal_encoded {p : Notification} {d : Bytes} (h : p.marshal = .ok d)
    (sp : Bytes) :
    Notification.unmarshal ⟨0, 0, [], []⟩ ⟨d, sp⟩ =
      if 252 ≤ p.spi.length then .panic .sliceOutOfRange else .ok p := by
  unfold Notification.marshal at h
  by_cases h255 : p.spi.length > 255
  · rw [if_pos h255] at h
    exact absurd h (fail_ne_ok _ _)
  rw [if_neg h255] at h
  injection h with h
  obtain ⟨m1, m2, hm, hn⟩ := exists_octets_putUint16 p.notifyMessageType
  have hsize : (UInt8.ofNat p.spi.length).toNat = p.spi.length :=
    UInt8.toNat_ofNat_of_lt' (show p.spi.length < 256 by omega)
  have hd : d = p.protocolID :: UInt8.ofNat p.spi.length :: m1 :: m2 ::
      (p.spi ++ p.notificationData) := by
    rw [← h, hm]
    simp
  rw [hd, Notification.unmarshal_cons, hsize]
  by_cases hw : 252 ≤ p.spi.length
  · rw [if_pos hw, if_pos hw]
  · rw [if_neg hw, if_neg hw, if_neg (by rw [List.length_append]; omega), hn, UInt16.ofNat_toNat,
      List.take_left, List.drop_left]
    rfl

/-- **Notifications through the codec.**  What the encoder takes comes back iff the SPI has at most
251 octets; the encoder goes on to 255. -/
theorem Notification.unmarshal_marshal_iff {p : Notification} {d : Bytes} (h : p.marshal = .ok d)
    (sp : Bytes) :
    Notification.unmarshal ⟨0, 0, [], []⟩ ⟨d, sp⟩ = .ok p ↔ p.spi.length ≤ 251 := by
  rw [Notification.unmarshal_encoded h]
  by_cases hw : 252 ≤ p.spi.length
  · rw [if_pos hw]
    refine ⟨fun hp => absurd hp (by simp), fun hl => absurd hl (by omega)⟩
  · rw [if_neg hw]
    exact ⟨fun _ => by omega, fun _ => rfl⟩

/-- a notification about an ESP SA -/
theorem Notification.unmarshal_marshal_esp :
    Notification.unmarshal ⟨0, 0, [], []⟩ ⟨[3, 4, 0x40, 0x09, 1, 2, 3, 4, 9], []⟩ =
      .ok ⟨3, 16393, [1, 2, 3, 4], [9]⟩ :=
  (Notification.unmarshal_marshal_iff (p := ⟨3, 16393, [1, 2, 3, 4], [9]⟩) rfl []).mpr
    (by decide)

/-- an SPI of 252 octets is encoded, and its decoder slices `b[4:0]` -/
theorem Notification.spi_252_panics :
    ∃ d, Notification.marshal ⟨3, 16393, List.replicate 252 7, []⟩ = .ok d ∧
      Notification.unmarshal ⟨0, 0, [], []⟩ (Slice.ofList d) = .panic .sliceOutOfRange := by
  have hm : Notification.marshal ⟨3, 16393, List.replicate 252 7, []⟩ =
      .ok ([3, 252] ++ putUint16 16393 ++ List.replicate 252 7 ++ []) := by
    rw [Notification.marshal, if_neg (by rw [List.length_replicate]; omega)]
    rw [List.length_replicate]
    rfl
  refine ⟨_, hm, ?_⟩
  rw [Slice.ofList, Notification.unmarshal_encoded hm, if_pos (by rw [List.length_replicate])]

end Ike
