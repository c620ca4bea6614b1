import IKEv2.Message.Framing
import IKEv2.Protect.Receive

/-!
# Which protected messages are accepted

The checksum is cut off the last SK payload, the octets it covers are cut off the message.  The first
cut is out of range when the payload is shorter than the checksum; the two belong together when the
SK payload is the last record of the message.

* `openSK_eq`              the SK payload is opened iff its checksum is the HMAC of the covered octets;
* `decodeDecrypt_iff`      when a message is accepted, and with which payloads;
* `decodeDecrypt_returns`  when the receiver panics;
* `accepted_authentic`     an accepted message ends with the HMAC of everything in front of it.
-/

set_option linter.unusedVariables false

namespace Ike
open GoLang

/-- the end of the SK payload is the HMAC of the message without as many octets, under the key of the
other side -/
def Verified (C : Crypto) (k : IKESAKey) (role : Role) (b : Bytes) (e : Encrypted) : Prop :=
  e.encryptedData.drop (e.encryptedData.length - k.outputLength) =
    k.mac C role.not (b.take (b.length - k.outputLength))

instance (C : Crypto) (k : IKESAKey) (role : Role) (b : Bytes) (e : Encrypted) :
    Decidable (Verified C k role b e) := inferInstanceAs (Decidable (_ = _))

/-- the end of the call when the checksum is wrong -/
def rejectChecksum (C : Crypto) (k : IKESAKey) (role : Role) (b : Bytes) :
    Outcome IKEPayloadContainer := do
  let _ ← k.checksum C role.not (b.take (b.length - k.outputLength))
  .err (.wrapf "decryptMsg(): verify integrity" (.errorf "invalid checksum"))

theorem openSK_eq {C : Crypto} {k : IKESAKey} (hk : k.Populated) {b sp : Bytes} {role : Role}
    {e : Encrypted} (he : k.outputLength ≤ e.encryptedData.length) (hb : k.outputLength ≤ b.length) :
    openSK C ⟨b, sp⟩ k role e =
      if Verified C k role b e then openVerified C k role e else rejectChecksum C k role b := by
  obtain ⟨h, hh⟩ := hk.integ role.not
  unfold openSK
  rw [Slice.sliceLast_data _ he, Slice.sliceInit_data _ hb]
  simp only [Outcome.ok_bind, Slice.data_ofList, Slice.len_ofList, Slice.len_mk]
  have hlen : (e.encryptedData.drop (e.encryptedData.length - k.outputLength)).length =
      k.outputLength := by
    rw [List.length_drop]
    omega
  by_cases hv : Verified C k role b e
  · have hok := IKESAKey.checksum_eq_ok.mpr ⟨by simp [hh], hlen, hv⟩
    rw [if_pos hv, hok, Outcome.ok_bind, if_neg (not_not_intro rfl)]
    rfl
  · rw [if_neg hv, rejectChecksum]
    cases hc : k.checksum C role.not (b.take (b.length - k.outputLength)) with
    | ok c =>
      obtain ⟨_, _, hmac⟩ := IKESAKey.checksum_eq_ok.mp hc
      rw [Outcome.ok_bind, if_pos (by rw [hmac]; exact hv)]
      rfl
    | err err => exact absurd hc (IKESAKey.checksum_ne_err hk _ _ err)
    | panic p => rfl

theorem openSK_eq_ok {C : Crypto} {k : IKESAKey} (hk : k.Populated) {b sp : Bytes} {role : Role}
    {e : Encrypted} (hb : k.outputLength ≤ b.length) {ps : IKEPayloadContainer} :
    openSK C ⟨b, sp⟩ k role e = .ok ps ↔
      k.outputLength ≤ e.encryptedData.length ∧ Verified C k role b e ∧
        openVerified C k role e = .ok ps := by
  by_cases hlen : k.outputLength ≤ e.encryptedData.length
  · rw [openSK_eq hk hlen hb]
    by_cases hv : Verified C k role b e
    · rw [if_pos hv]
      exact ⟨fun h => ⟨hlen, hv, h⟩, fun h => h.2.2⟩
    · rw [if_neg hv]
      constructor
      · intro h
        obtain ⟨_, _, h⟩ := Outcome.bind_eq_ok.mp h
        exact absurd h (by simp)
      · intro h
        exact absurd h.2.1 hv
  · rw [openSK, Slice.sliceLast_panic _ (show e.encryptedData.length < k.outputLength by omega)]
    exact ⟨fun h => absurd h (by simp), fun h => absurd h.1 hlen⟩

theorem openSK_returns {C : Crypto} (hC : C.Sized) {k : IKESAKey} (hk : k.Populated) {b sp : Bytes}
    {role : Role} {e : Encrypted} (hb : k.outputLength ≤ b.length) :
    (openSK C ⟨b, sp⟩ k role e).returns ↔
      k.outputLength ≤ e.encryptedData.length ∧
        (Verified C k role b e → (openVerified C k role e).returns) := by
  by_cases hlen : k.outputLength ≤ e.encryptedData.length
  · rw [openSK_eq hk hlen hb]
    by_cases hv : Verified C k role b e
    · rw [if_pos hv]
      exact ⟨fun h => ⟨hlen, fun _ => h⟩, fun h => h.2 hv⟩
    · obtain ⟨h, hh⟩ := hk.integ role.not
      rw [if_neg hv, rejectChecksum, IKESAKey.checksum_of_sized hC (by simp [hh])]
      exact ⟨fun _ => ⟨hlen, fun h => absurd h hv⟩, fun _ => trivial⟩
  · rw [openSK, Slice.sliceLast_panic _ (show e.encryptedData.length < k.outputLength by omega)]
    exact ⟨fun h => False.elim h, fun h => absurd h.1 hlen⟩

theorem openVerified_eq_ok {C : Crypto} {k : IKESAKey} {role : Role} {e : Encrypted}
    {ps : IKEPayloadContainer} (he : k.outputLength ≤ e.encryptedData.length) :
    openVerified C k role e = .ok ps ↔
      ∃ encr plain, k.encr role.not = some encr ∧
        encr.decrypt C ⟨e.encryptedData.take (e.encryptedData.length - k.outputLength),
          e.encryptedData.drop (e.encryptedData.length - k.outputLength)⟩ = .ok plain ∧
        IKEPayloadContainer.decode [] e.nextPayload plain = .ok ps := by
  unfold openVerified
  rw [Slice.sliceInit_data _ he, Outcome.ok_bind, decryptPayload_eq, Slice.spare_ofList,
    List.append_nil, Outcome.bind_eq_ok]
  cases k.encr role.not with
  | none => simp [deref]
  | some encr => simp [deref]

/-! ## a key and a message -/

/-- AES-CBC-128 and HMAC-SHA-1-96 with these keys -/
def sharedKey : IKESAKey :=
  (IKESAKey.ofInfo (some .dh1024BitModp) (some .encrAesCbc128) (some .authHmacSha1_96)
    (some .prfHmacSha1)).assign .authHmacSha1_96 .prfHmacSha1
      { sk_d := List.replicate 20 0xd0
        sk_ai := List.replicate 20 0xa1
        sk_ar := List.replicate 20 0xa2
        sk_ei := List.replicate 16 0xe1
        sk_er := List.replicate 16 0xe2
        sk_pi := List.replicate 20 0xb1
        sk_pr := List.replicate 20 0xb2 }
      ⟨⟨List.replicate 16 0xe1, by decide⟩, none, none⟩
      ⟨⟨List.replicate 16 0xe2, by decide⟩, none, none⟩

theorem sharedKey_populated : sharedKey.Populated := by
  refine ⟨⟨_, rfl⟩, ⟨_, rfl⟩, ?_, ?_⟩
  · intro role
    cases role <;> exact ⟨_, rfl⟩
  · intro role
    cases role <;> exact ⟨_, rfl, rfl, rfl⟩

/-- the header and the SK payload of a message, without the checksum -/
def coveredOctets : Bytes :=
  octets 64 0x000000000000000100000000000000022e202508000000000000004c28000030101112131415161718191a1b1c1d1e1fa23c57e29c4ad7cb7cc2ce07bb33c780

/-- the message: an informational request with one nonce payload -/
def protectedOctets : Bytes := coveredOctets ++ octets 12 0x55ad14eed94843c077fec267

/-- the block of that message, and its HMACs under the keys of both directions -/
def messageCrypto : Crypto :=
  Crypto.ofTable
    [(.sha1, List.replicate 20 0xa1, coveredOctets,
      octets 20 0x55ad14eed94843c077fec267a244fda8cc60d4b4),
     (.sha1, List.replicate 20 0xa2, coveredOctets,
      octets 20 0x5dbc2a881e3a6d76bda560e6de8baeb8dd196608)]
    (octets 16 0x1011121f151715131d1f1d13b6a6d21c) (octets 16 0xa23c57e29c4ad7cb7cc2ce07bb33c780)

theorem messageCrypto_lawful : messageCrypto.Lawful :=
  Crypto.ofTable_lawful _ (by decide) (by decide)

/-- what the message is before it is decrypted -/
theorem protectedOctets_decode :
    IKEMessage.decode [] ⟨protectedOctets, []⟩ =
      .ok ⟨headerOf protectedOctets, [.sk ⟨40, protectedOctets.drop 32⟩]⟩ := rfl

theorem protectedOctets_clear :
    decodeClear ⟨protectedOctets, []⟩ none =
      .ok ⟨headerOf protectedOctets, [.sk ⟨40, protectedOctets.drop 32⟩]⟩ :=
  decodeClear_none_iff.mpr protectedOctets_decode

/-! ## the message -/

theorem outputLength_le_accepted {k : IKESAKey} {b sp : Bytes} {hdr : Option IKEHeader}
    {m : IKEMessage} (hd : decodeClear ⟨b, sp⟩ hdr = .ok m) : k.outputLength ≤ b.length := by
  have h1 : 28 ≤ b.length := length_of_clear hd
  have h2 := k.outputLength_le_16
  omega

/-- the slices that are cut before the checksum is verified -/
def CutsInRange (k : IKESAKey) (msg : Slice UInt8) (ps : IKEPayloadContainer) : Prop :=
  ∀ e, findEncrypted none ps = .ok (some e) →
    ((Slice.ofList e.encryptedData).sliceLast k.outputLength).returns ∧
    (msg.sliceInit k.outputLength).returns

theorem cutsInRange_of_all {k : IKESAKey} {b sp : Bytes} {ps : IKEPayloadContainer} {e : Encrypted}
    (hb : k.outputLength ≤ b.length) (hall : ∀ p ∈ ps, p.type = .SK) (he : lastSK ps = some e) :
    CutsInRange k ⟨b, sp⟩ ps ↔ k.outputLength ≤ e.encryptedData.length := by
  have hfind : findEncrypted none ps = .ok (some e) := by
    rw [findEncrypted_ok hall, he]
    rfl
  constructor
  · intro h
    by_contra hlen
    have hcut := (h e hfind).1
    rw [Slice.sliceLast_panic _ (show e.encryptedData.length < k.outputLength by omega)] at hcut
    exact hcut
  · intro hlen e' he'
    rw [hfind] at he'
    injection he' with he'
    injection he' with he'
    rw [← he', Slice.sliceLast_data _ hlen, Slice.sliceInit_data _ hb]
    exact ⟨trivial, trivial⟩

theorem cutsInRange_of_other {k : IKESAKey} {msg : Slice UInt8} {ps : IKEPayloadContainer}
    (hall : ¬ ∀ p ∈ ps, p.type = .SK) : CutsInRange k msg ps := by
  obtain ⟨err, herr⟩ := findEncrypted_err none hall
  intro e he
  rw [herr] at he
  exact absurd he (by simp)

section
variable {C : Crypto} {k : IKESAKey} (hk : k.Populated) {b sp : Bytes} {hdr : Option IKEHeader}
  {m : IKEMessage} (role : Role) (hd : decodeClear ⟨b, sp⟩ hdr = .ok m)
  (hs : startsWithSK m.payloads = true)
include hk hd hs

theorem decodeDecrypt_of_all {e : Encrypted} (he : lastSK m.payloads = some e)
    (hall : ∀ p ∈ m.payloads, p.type = .SK) :
    (decodeDecrypt C ⟨b, sp⟩ hdr role (some k)).1 = Outcome.wrapf "IKE decode decrypt"
      ((fun ps => { m with payloads := ps }) <$> openSK C ⟨b, sp⟩ k role e) := by
  rw [decodeDecrypt_eq hk role hd hs, findEncrypted_ok hall, he]
  show Outcome.wrapf _ (openSK C ⟨b, sp⟩ k role e >>= _) = _
  cases openSK C ⟨b, sp⟩ k role e <;> rfl

theorem decodeDecrypt_of_other (hall : ¬ ∀ p ∈ m.payloads, p.type = .SK) :
    ∃ err, ∀ C : Crypto, (decodeDecrypt C ⟨b, sp⟩ hdr role (some k)).1 = .err err := by
  obtain ⟨err, herr⟩ := findEncrypted_err none hall
  refine ⟨.wrapf "IKE decode decrypt" err, fun C => ?_⟩
  rw [decodeDecrypt_eq hk role hd hs, herr]
  rfl

theorem decodeDecrypt_eq_ok {e : Encrypted} (he : lastSK m.payloads = some e) {m' : IKEMessage} :
    (decodeDecrypt C ⟨b, sp⟩ hdr role (some k)).1 = .ok m' ↔
      (∀ p ∈ m.payloads, p.type = .SK) ∧ k.outputLength ≤ e.encryptedData.length ∧
        Verified C k role b e ∧ openVerified C k role e = .ok m'.payloads ∧
        m'.header = m.header := by
  have hb := outputLength_le_accepted (k := k) hd
  by_cases hall : ∀ p ∈ m.payloads, p.type = .SK
  · rw [decodeDecrypt_of_all hk role hd hs he hall, Outcome.wrapf_eq_ok, Outcome.map_eq_ok]
    simp only [openSK_eq_ok hk hb]
    constructor
    · intro h
      obtain ⟨ps, ⟨hlen, hv, hps⟩, rfl⟩ := h
      exact ⟨hall, hlen, hv, hps, rfl⟩
    · intro h
      obtain ⟨_, hlen, hv, hps, hh⟩ := h
      refine ⟨m'.payloads, ⟨hlen, hv, hps⟩, ?_⟩
      rw [← hh]
  · obtain ⟨err, herr⟩ := decodeDecrypt_of_other hk role hd hs hall
    rw [herr]
    exact ⟨fun h => absurd h (by simp), fun h => absurd h.1 hall⟩

theorem decodeDecrypt_of_not_verified {C' : Crypto} (hC : C'.hmac = C.hmac) {e : Encrypted}
    (he : lastSK m.payloads = some e) (hlen : k.outputLength ≤ e.encryptedData.length)
    (hv : ¬ Verified C k role b e) :
    (decodeDecrypt C' ⟨b, sp⟩ hdr role (some k)).1 =
      (decodeDecrypt C ⟨b, sp⟩ hdr role (some k)).1 := by
  have hb := outputLength_le_accepted (k := k) hd
  by_cases hall : ∀ p ∈ m.payloads, p.type = .SK
  · have hmac : ∀ d, k.checksum C' role.not d = k.checksum C role.not d := by
      intro d
      rw [IKESAKey.checksum, hC, IKESAKey.checksum]
    have hv' : ¬ Verified C' k role b e := by
      rw [Verified, IKESAKey.mac, hC]
      exact hv
    rw [decodeDecrypt_of_all hk role hd hs he hall, decodeDecrypt_of_all hk role hd hs he hall,
      openSK_eq hk hlen hb, openSK_eq hk hlen hb, if_neg hv, if_neg hv', rejectChecksum, hmac,
      rejectChecksum]
  · obtain ⟨err, herr⟩ := decodeDecrypt_of_other hk role hd hs hall
    rw [herr, herr]

end

/-- **When a protected message is accepted**, with a header or without one, and what it contains.  The
decryption does not matter when the checksum is wrong. -/
theorem decodeDecrypt_iff {C : Crypto} {k : IKESAKey} (hk : k.Populated) {b sp : Bytes}
    {hdr : Option IKEHeader} {m : IKEMessage} {e : Encrypted} (role : Role)
    (hd : decodeClear ⟨b, sp⟩ hdr = .ok m) (hs : startsWithSK m.payloads = true)
    (he : lastSK m.payloads = some e) (hlen : k.outputLength ≤ e.encryptedData.length) :
    (∀ m', (decodeDecrypt C ⟨b, sp⟩ hdr role (some k)).1 = .ok m' ↔
      (∀ p ∈ m.payloads, p.type = .SK) ∧ Verified C k role b e ∧
      (∃ encr plain, k.encr role.not = some encr ∧
        encr.decrypt C ⟨e.encryptedData.take (e.encryptedData.length - k.outputLength),
          e.encryptedData.drop (e.encryptedData.length - k.outputLength)⟩ = .ok plain ∧
        IKEPayloadContainer.decode [] e.nextPayload plain = .ok m'.payloads) ∧
      m'.header = m.header) ∧
    (¬ Verified C k role b e → ∀ C' : Crypto, C'.hmac = C.hmac →
      (decodeDecrypt C' ⟨b, sp⟩ hdr role (some k)).1 =
        (decodeDecrypt C ⟨b, sp⟩ hdr role (some k)).1) := by
  refine ⟨fun m' => ?_, fun hv C' hC => ?_⟩
  · rw [decodeDecrypt_eq_ok hk role hd hs he, openVerified_eq_ok hlen, and_iff_right hlen]
  · exact decodeDecrypt_of_not_verified hk role hd hs hC he hlen hv

theorem decodeDecrypt_protected :
    (decodeDecrypt messageCrypto ⟨protectedOctets, []⟩ none .responder (some sharedKey)).1 =
        .ok ⟨headerOf protectedOctets, [.nonce ⟨[1, 2, 3, 4, 5, 6, 7, 8]⟩]⟩ ∧
      ∀ C' : Crypto, C'.hmac = messageCrypto.hmac →
        (decodeDecrypt C' ⟨protectedOctets, []⟩ none .initiator (some sharedKey)).1 =
          (decodeDecrypt messageCrypto ⟨protectedOctets, []⟩ none .initiator (some sharedKey)).1 := by
  have hdata : sharedKey.outputLength ≤ (protectedOctets.drop 32).length := by decide
  have h1 := (decodeDecrypt_iff (C := messageCrypto) sharedKey_populated .responder
    protectedOctets_clear rfl rfl hdata).1
  have h2 := (decodeDecrypt_iff (C := messageCrypto) sharedKey_populated .initiator
    protectedOctets_clear rfl rfl hdata).2 (by decide +kernel)
  refine ⟨(h1 _).mpr ⟨?_, ?_, ⟨_, _, rfl, rfl, rfl⟩, rfl⟩, h2⟩
  · intro p hp
    rw [List.mem_singleton.mp hp]
    rfl
  · decide +kernel

/-- **When the receiver does not panic**, with a header or without one.  The cuts in front of the check
of the checksum are in range iff the SK payload is as long as a checksum, or not looked at. -/
theorem decodeDecrypt_returns {C : Crypto} (hC : C.Sized) {k : IKESAKey} (hk : k.Populated)
    {b sp : Bytes} {hdr : Option IKEHeader} {m : IKEMessage} {e : Encrypted} (role : Role)
    (hd : decodeClear ⟨b, sp⟩ hdr = .ok m) (hs : startsWithSK m.payloads = true)
    (he : lastSK m.payloads = some e) :
    (CutsInRange k ⟨b, sp⟩ m.payloads ↔
      ((∃ p ∈ m.payloads, p.type ≠ .SK) ∨ k.outputLength ≤ e.encryptedData.length)) ∧
    ((decodeDecrypt C ⟨b, sp⟩ hdr role (some k)).1.returns ↔
      ((∃ p ∈ m.payloads, p.type ≠ .SK) ∨ k.outputLength ≤ e.encryptedData.length) ∧
      ((∀ p ∈ m.payloads, p.type = .SK) → Verified C k role b e →
        (openVerified C k role e).returns)) := by
  have hb := outputLength_le_accepted (k := k) hd
  by_cases hall : ∀ p ∈ m.payloads, p.type = .SK
  · have hnone : ¬ ∃ p ∈ m.payloads, p.type ≠ .SK := fun ⟨p, hp, hne⟩ => hne (hall p hp)
    rw [cutsInRange_of_all hb hall he, decodeDecrypt_of_all hk role hd hs he hall,
      Outcome.returns_wrapf, Outcome.returns_map, openSK_returns hC hk hb, or_iff_right hnone]
    exact ⟨Iff.rfl, and_congr_right fun _ => ⟨fun h _ => h, fun h => h hall⟩⟩
  · have hother : ∃ p ∈ m.payloads, p.type ≠ .SK := by
      by_contra h
      exact hall fun p hp => by_contra fun hne => h ⟨p, hp, hne⟩
    obtain ⟨err, herr⟩ := decodeDecrypt_of_other hk role hd hs hall
    rw [herr]
    exact ⟨⟨fun _ => Or.inl hother, fun _ => cutsInRange_of_other hall⟩,
      ⟨fun _ => ⟨Or.inl hother, fun h => absurd h hall⟩, fun _ => trivial⟩⟩

theorem decodeDecrypt_returns_protected :
    CutsInRange sharedKey ⟨protectedOctets, []⟩ [.sk ⟨40, protectedOctets.drop 32⟩] ∧
      (decodeDecrypt messageCrypto ⟨protectedOctets, []⟩ none .initiator (some sharedKey)).1.returns := by
  have hdata : sharedKey.outputLength ≤ (protectedOctets.drop 32).length := by decide
  have h := decodeDecrypt_returns messageCrypto_lawful.hmac_length sharedKey_populated .initiator
    protectedOctets_clear rfl rfl
  refine ⟨h.1.mpr (Or.inr hdata), h.2.mpr ⟨Or.inr hdata, fun _ hv => absurd hv ?_⟩⟩
  decide +kernel

/-- an SK payload without data -/
theorem empty_SK_panics :
    IKEMessage.decode [] (Slice.ofList (informational 46 32 [0, 0, 0, 4])) =
        .ok ⟨headerOf (informational 46 32 [0, 0, 0, 4]), [.sk ⟨0, []⟩]⟩ ∧
      ¬ CutsInRange sharedKey (Slice.ofList (informational 46 32 [0, 0, 0, 4])) [.sk ⟨0, []⟩] ∧
      (decodeDecrypt messageCrypto (Slice.ofList (informational 46 32 [0, 0, 0, 4])) none .responder
        (some sharedKey)).1 = .panic .sliceOutOfRange := by
  refine ⟨rfl, ?_, rfl⟩
  intro h
  exact (h ⟨0, []⟩ rfl).1

/-! ## the covered octets -/

theorem recordTypes_cons (n : UInt8) (a : Bytes) (as : List Bytes) :
    recordTypes n (a :: as) = n :: recordTypes (recNext a) as := rfl

/-- the last record of the message is an SK payload.  This leaves out an SK payload with a record behind
it that is skipped: the checksum is the end of the SK payload, and the octets it covers are the message
without as many octets at its end, so that they reach into the checksum. -/
def EndsWithSK (b : Bytes) : Prop :=
  ∃ as : List Bytes, (∀ a ∈ as, LenRec 4 a) ∧ b.drop 28 = as.flatten ∧
    (recordTypes (headerOf b).nextPayload as).getLast? = some IkePayloadType.SK.code

/-- the last SK payload is the last record, if that is an SK payload -/
theorem lastSK_of_chain {sp : Bytes} {n n' : UInt8} {as : List Bytes} {ps : IKEPayloadContainer}
    (h : PayloadChain sp n as ps n')
    (hlast : (recordTypes n as).getLast? = some IkePayloadType.SK.code) :
    ∃ pre e, as.flatten = pre ++ e.encryptedData ∧ lastSK ps = some e := by
  induction h with
  | nil n => exact absurd hlast (by simp [recordTypes])
  | @skip n n' a as ps ha ht hc h ih =>
    cases as with
    | nil =>
      obtain rfl : n = IkePayloadType.SK.code := by simpa [recordTypes] using hlast
      exact absurd ht (by decide)
    | cons a' as =>
      rw [recordTypes_cons, recordTypes_cons, List.getLast?_cons_cons] at hlast
      obtain ⟨pre, e, hpre, he⟩ := ih hlast
      refine ⟨a ++ pre, e, ?_, he⟩
      rw [List.flatten_cons, hpre, List.append_assoc]
  | @payload n n' t a as p ps ha ht hp h ih =>
    cases as with
    | nil =>
      obtain rfl : n = IkePayloadType.SK.code := by simpa [recordTypes] using hlast
      obtain rfl : t = .SK := by simpa [eq_comm] using ht
      injection hp with hp
      cases h
      subst hp
      refine ⟨a.take 4, ⟨recNext a, recBody a⟩, ?_, rfl⟩
      simp [recBody]
    | cons a' as =>
      rw [recordTypes_cons, recordTypes_cons, List.getLast?_cons_cons] at hlast
      obtain ⟨pre, e, hpre, he⟩ := ih hlast
      refine ⟨a ++ pre, e, ?_, ?_⟩
      · rw [List.flatten_cons, hpre, List.append_assoc]
      · rw [lastSK_cons, he]
        rfl

/-- **An accepted message is authentic**: it ends with the truncated HMAC of all octets in front of it,
under the integrity key of the other side. -/
theorem accepted_authentic {C : Crypto} {k : IKESAKey} (hk : k.Populated) {b sp : Bytes}
    {m m' : IKEMessage} (role : Role) (hd : IKEMessage.decode [] ⟨b, sp⟩ = .ok m)
    (hs : startsWithSK m.payloads = true) (hl : EndsWithSK b)
    (h : (decodeDecrypt C ⟨b, sp⟩ none role (some k)).1 = .ok m') :
    k.outputLength ≤ b.length ∧
      b.drop (b.length - k.outputLength) =
        k.mac C role.not (b.take (b.length - k.outputLength)) := by
  refine ⟨outputLength_le_accepted (decodeClear_none_iff.mpr hd), ?_⟩
  obtain ⟨_, _, _, _, hdec⟩ := message_decode_iff.mp hd
  obtain ⟨as, ps, n', hchain, hdrop, hps⟩ := IKEPayloadContainer.decode_iff.mp hdec
  obtain ⟨as', hrec, hdrop', hlast⟩ := hl
  have has : as' = as := lenRecs_unique (h := 4) (by omega) hrec (lenRec_of_chain hchain)
    (by rw [← hdrop', hdrop])
  rw [has] at hlast
  obtain ⟨pre, e, hpre, he⟩ := lastSK_of_chain hchain hlast
  have hps' : ps = m.payloads := hps.symm
  rw [hps'] at he
  obtain ⟨_, hlen, hv, _⟩ := (decodeDecrypt_eq_ok hk role (decodeClear_none_iff.mpr hd) hs he).mp h
  -- the SK payload and the message end with the same octets
  have hb : b = (b.take 28 ++ pre) ++ e.encryptedData := by
    rw [List.append_assoc, ← hpre, ← hdrop, List.take_append_drop]
  have htail : b.drop (b.length - k.outputLength) =
      e.encryptedData.drop (e.encryptedData.length - k.outputLength) := by
    generalize b.take 28 ++ pre = x at hb
    rw [hb, List.length_append, List.drop_append, List.drop_of_length_le (by omega), List.nil_append]
    congr 1
    omega
  rw [htail]
  exact hv

theorem accepted_authentic_protected :
    protectedOctets.drop 64 = sharedKey.mac messageCrypto .initiator (protectedOctets.take 64) := by
  have hl : EndsWithSK protectedOctets := by
    refine ⟨[protectedOctets.drop 28], ?_, rfl, rfl⟩
    intro a ha
    rw [List.mem_singleton.mp ha]
    exact ⟨by decide, by decide +kernel⟩
  exact (accepted_authentic (C := messageCrypto) sharedKey_populated .responder protectedOctets_decode
    rfl hl rfl).2

/-- the HMAC of the first message below without its last octets -/
def cleartextCrypto : Crypto :=
  Crypto.ofTable
    [(.sha1, List.replicate 20 0xa1, (informational 40 34 [0, 0, 0, 6, 1, 2]).take 22,
      octets 20 0xc494f2c455124b981aa0f67b6cf9e5345de0cd47)] [] []

/-- the octets of the second message that its checksum covers; the last four are of the checksum -/
def trailingCovered : Bytes :=
  octets 68 0x000000000000000100000000000000022e2025080000000100000050c8000030101112131415161718191a1b1c1d1e1fc1e2ed09a4972431401e2cf76447b6237d415ab6

/-- an SK payload, and behind it an empty record of type 200 -/
def trailingOctets : Bytes := trailingCovered ++ octets 12 0x69953389d808af2f00000004

/-- the block and the HMAC of that message -/
def trailingCrypto : Crypto :=
  Crypto.ofTable
    [(.sha1, List.replicate 20 0xa1, trailingCovered,
      octets 20 0x7d415ab669953389d808af2fe083968dc4179274)]
    (octets 16 0x381112171415161f191b191fb6a6d21c) (octets 16 0xc1e2ed09a4972431401e2cf76447b623)

/-- a message whose first payload is not an SK payload is returned as it is; and with a skipped record
behind the SK payload the message does not end with its checksum -/
theorem unauthentic_accepted :
    (decodeDecrypt cleartextCrypto (Slice.ofList (informational 40 34 [0, 0, 0, 6, 1, 2])) none
        .responder (some sharedKey)).1 =
      .ok ⟨headerOf (informational 40 34 [0, 0, 0, 6, 1, 2]), [.nonce ⟨[1, 2]⟩]⟩ ∧
    (informational 40 34 [0, 0, 0, 6, 1, 2]).drop (34 - sharedKey.outputLength) ≠
      sharedKey.mac cleartextCrypto .initiator
        ((informational 40 34 [0, 0, 0, 6, 1, 2]).take (34 - sharedKey.outputLength)) ∧
    (decodeDecrypt trailingCrypto (Slice.ofList trailingOctets) none .responder (some sharedKey)).1 =
      .ok ⟨headerOf trailingOctets, [.nonce ⟨[1, 2, 3, 4]⟩]⟩ ∧
    trailingOctets.drop (80 - sharedKey.outputLength) ≠
      sharedKey.mac trailingCrypto .initiator
        (trailingOctets.take (80 - sharedKey.outputLength)) := by
  refine ⟨rfl, by decide +kernel, rfl, by decide +kernel⟩

end Ike
