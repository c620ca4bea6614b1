import IKEv2.Message.Crash
import IKEv2.Message.EncodeCrash
import IKEv2.Protect.Capacity

/-!
# What stops the receiver and the sender

`DecodeDecrypt` cuts slices out of octets that nobody has verified yet, and out of the decrypted
octets once they are.  The first can be sent by anyone, the second only by the peer.  `EncodeEncrypt`
stops the program for some payloads, and when the random source has too few octets for the padding.

* `decrypt_returns_iff`, `encrypt_returns_iff`   the decryption returns unless there is no block, the
                              encryption unless there are too few random octets for the padding;
* `openVerified_returns_iff`  what happens behind a correct checksum;
* `receiver_returns_iff`      all octets on which the receiver stops the program;
* `sender_returns_iff`        all messages on which the sender does.
-/

set_option linter.unusedVariables false

namespace Ike
open GoLang

/-! ## the receiver -/

theorem decrypt_returns_iff {C : Crypto} (hC : C.Lawful) {e : EncrAesCbcCrypto} (hi : e.iv = none)
    (c : Slice UInt8) : (e.decrypt C c).returns ↔ c.len ≠ 16 := by
  have hiv : ∀ v, e.iv = some v → v.length = 16 := fun v hv => absurd (hi.symm.trans hv) (by simp)
  by_cases h16 : c.len = 16
  · rw [decrypt_vector_only hiv h16]
    exact iff_of_false id (not_not_intro h16)
  refine iff_of_true ?_ h16
  by_cases hshort : c.len < 16
  · obtain ⟨t, ht⟩ := EncrAesCbcCrypto.decrypt_short (e := e) (C := C) hshort
    rw [ht]
    trivial
  by_cases hmod : c.len % 16 = 0
  · exact (EncrAesCbcCrypto.Decrypts.of_whole hC hiv (by omega) hmod).returns
  · obtain ⟨t, ht⟩ := EncrAesCbcCrypto.decrypt_uneven (e := e) (C := C) hmod
    rw [ht]
    trivial

/-- the encrypted octets of an SK payload, with the checksum behind them -/
def IKESAKey.cipherText (k : IKESAKey) (e : Encrypted) : Slice UInt8 :=
  ⟨e.encryptedData.take (e.encryptedData.length - k.outputLength),
    e.encryptedData.drop (e.encryptedData.length - k.outputLength)⟩

/-- octets that only the peer can send: no block, or payloads inside on which the decoder stops the
program -/
def PeerCrash (C : Crypto) (k : IKESAKey) (role : Role) (e : Encrypted) : Prop :=
  e.encryptedData.length = k.outputLength + 16 ∨
    ∃ encr plain, k.encr role.not = some encr ∧ encr.decrypt C (k.cipherText e) = .ok plain ∧
      ChainCrash plain.spare e.nextPayload plain.data

theorem openVerified_returns_iff {C : Crypto} (hC : C.Lawful) {k : IKESAKey} (hk : k.Populated)
    (role : Role) {e : Encrypted} (he : k.outputLength ≤ e.encryptedData.length) :
    (openVerified C k role e).returns ↔ ¬ PeerCrash C k role e := by
  obtain ⟨encr, hencr, hiv, _⟩ := hk.encr role.not
  have hlen : (k.cipherText e).len ≠ 16 ↔ ¬ e.encryptedData.length = k.outputLength + 16 := by
    show (e.encryptedData.take (e.encryptedData.length - k.outputLength)).length ≠ 16 ↔ _
    rw [List.length_take]
    omega
  have hcut : (Slice.ofList e.encryptedData).sliceInit k.outputLength = .ok (k.cipherText e) := by
    rw [Slice.sliceInit_data _ he, Slice.spare_ofList, List.append_nil]
    rfl
  unfold openVerified
  rw [hcut, Outcome.ok_bind, decryptPayload_eq, hencr]
  show (((encr.decrypt C (k.cipherText e)).wrapf _).wrapf _ >>= _).returns ↔ _
  rw [Outcome.returns_bind, Outcome.returns_wrapf, Outcome.returns_wrapf,
    decrypt_returns_iff hC hiv, hlen, PeerCrash, not_or]
  refine and_congr_right fun _ => ?_
  simp only [Outcome.wrapf_eq_ok, Outcome.returns_wrapf]
  constructor
  · rintro h ⟨encr', plain, hencr', hplain, hcrash⟩
    obtain rfl := Option.some.inj (hencr.symm.trans hencr')
    exact (IKEPayloadContainer.decode_returns_iff ..).mp (h plain hplain) hcrash
  · intro h plain hplain
    exact (IKEPayloadContainer.decode_returns_iff ..).mpr fun hcrash =>
      h ⟨encr, plain, hencr, hplain, hcrash⟩

theorem lastSK_of_not_starts {ps : IKEPayloadContainer} (h : startsWithSK ps = false)
    (hall : ∀ p ∈ ps, p.type = .SK) : lastSK ps = none := by
  cases ps with
  | nil => rfl
  | cons p ps =>
    have hp := hall p (List.mem_cons_self ..)
    exact absurd h (by simp [startsWithSK, hp])

/-- octets that stop the program before a key is looked at.  With a header that was parsed already, its
next payload counts and the octets of the header are cut off, however many there are. -/
def ClearCrash (sp b : Bytes) : Option IKEHeader → Prop
  | none => MessageCrash sp b
  | some h => b.length < 28 ∨ ChainCrash sp h.nextPayload (b.drop 28)

theorem decodeClear_returns_iff (b sp : Bytes) (hdr : Option IKEHeader) :
    (decodeClear ⟨b, sp⟩ hdr).returns ↔ ¬ ClearCrash sp b hdr := by
  cases hdr with
  | none => exact Outcome.returns_wrapf.trans (IKEMessage.decode_returns_iff [] b sp)
  | some h =>
    by_cases hlen : b.length < 28
    · rw [decodeClear_short hlen]
      exact iff_of_false id (not_not_intro (Or.inl hlen))
    · rw [decodeClear_given (Nat.le_of_not_lt hlen), Outcome.returns_wrapf,
        IKEMessage.decodePayload_returns_iff]
      exact not_congr (or_iff_right hlen).symm

/-- **All octets on which the receiver stops the program**, with a header that was parsed already or
without one.  Without a key: payloads that stop the decoder, fewer octets than a header has when it was
parsed already, or nothing but SK payloads with the last one shorter than a checksum.  With a correct
checksum: an SK payload that holds a vector and no block, or payloads inside it that stop the
decoder. -/
theorem receiver_returns_iff {C : Crypto} (hC : C.Lawful) {k : IKESAKey} (hk : k.Populated)
    (b sp : Bytes) (hdr : Option IKEHeader) (role : Role) :
    (decodeDecrypt C ⟨b, sp⟩ hdr role (some k)).1.returns ↔
      ¬ ClearCrash sp b hdr ∧
      ∀ m e, decodeClear ⟨b, sp⟩ hdr = .ok m → (∀ p ∈ m.payloads, p.type = .SK) →
        lastSK m.payloads = some e →
        k.outputLength ≤ e.encryptedData.length ∧ (Verified C k role b e → ¬ PeerCrash C k role e) := by
  have hclear := decodeClear_returns_iff b sp hdr
  cases hd : decodeClear ⟨b, sp⟩ hdr with
  | err err =>
    rw [hd] at hclear
    refine iff_of_true ?_ ⟨hclear.mp trivial, fun m e hm => absurd hm (by simp)⟩
    rw [decodeDecrypt, hd]
    trivial
  | panic p =>
    rw [hd] at hclear
    refine iff_of_false ?_ fun h => hclear.mpr h.1
    rw [decodeDecrypt, hd]
    exact id
  | ok m =>
    rw [hd] at hclear
    rw [and_iff_right (hclear.mp trivial)]
    have hb := outputLength_le_accepted (k := k) hd
    cases hs : startsWithSK m.payloads with
    | false =>
      refine iff_of_true ?_ fun m' e hm hall he => ?_
      · rw [decodeDecrypt, hd]
        show (if startsWithSK m.payloads then _ else _ : Outcome IKEMessage × Option IKESAKey).1.returns
        rw [if_neg (by simp [hs])]
        trivial
      · obtain rfl := Outcome.ok.inj hm
        exact absurd he (by rw [lastSK_of_not_starts hs hall]; simp)
    | true =>
      obtain ⟨e, he⟩ := lastSK_of_starts hs
      by_cases hall : ∀ p ∈ m.payloads, p.type = .SK
      · rw [decodeDecrypt_of_all hk role hd hs he hall, Outcome.returns_wrapf, Outcome.returns_map,
          openSK_returns hC.hmac_length hk hb]
        constructor
        · intro h m' e' hm _ he'
          obtain rfl := Outcome.ok.inj hm
          obtain rfl := Option.some.inj (he.symm.trans he')
          exact ⟨h.1, fun hv => (openVerified_returns_iff hC hk role h.1).mp (h.2 hv)⟩
        · intro h
          obtain ⟨hlen, hpeer⟩ := h m e rfl hall he
          exact ⟨hlen, fun hv => (openVerified_returns_iff hC hk role hlen).mpr (hpeer hv)⟩
      · obtain ⟨err, herr⟩ := decodeDecrypt_of_other hk role hd hs hall
        rw [herr]
        refine iff_of_true trivial fun m' e' hm hall' => ?_
        obtain rfl := Outcome.ok.inj hm
        exact absurd hall' hall

/-- a notification with an SPI size of 252, from anyone; and half a header, where it was parsed already -/
theorem receiver_returns_notification :
    ¬ (decodeDecrypt messageCrypto ⟨informational 41 36 [0, 0, 0, 8, 1, 252, 0, 0], []⟩ none .responder
      (some sharedKey)).1.returns ∧
    ¬ (decodeDecrypt messageCrypto ⟨protectedOctets.take 20, []⟩ (some (headerOf protectedOctets))
      .responder (some sharedKey)).1.returns := by
  rw [receiver_returns_iff messageCrypto_lawful sharedKey_populated,
    receiver_returns_iff messageCrypto_lawful sharedKey_populated]
  refine ⟨fun h => ?_, fun h => h.1 (Or.inl (by decide))⟩
  refine h.1 ⟨by decide, by decide, ?_⟩
  refine chainCrash_here (t := .N) (a := [0, 0, 0, 8, 1, 252, 0, 0]) (r := []) ?_ rfl ?_
  · exact ⟨by decide, by decide⟩
  · exact ⟨by decide, by decide⟩

/-! ## the sender -/

/-- the payloads are encoded, and the random source has too few octets for their padding -/
def Starved (rand : Bytes) (m : IKEMessage) : Prop :=
  ∃ plain, m.payloads.encode = .ok plain ∧ rand.length < 16 - plain.length % 16

/-- without a padding of its own an encryption object stops the program when the random source has too
few octets for it, and then only -/
theorem encrypt_returns_unset {C : Crypto} (hC : C.Lawful) {encr : EncrAesCbcCrypto}
    (hiv : encr.iv = none) (hpad : encr.padding = none) (rand plain : Bytes) :
    (encr.encrypt C rand plain).returns ↔ 16 - plain.length % 16 ≤ rand.length := by
  have hdraws : encr.padDraws plain.length = 16 - plain.length % 16 := by
    rw [EncrAesCbcCrypto.padDraws, hpad, if_pos rfl]
  rw [EncrAesCbcCrypto.encrypt_returns_iff hC, hdraws]
  exact and_iff_left (Or.inr (wholeBlocks_none hiv hpad plain.length))

section
variable {C : Crypto} (hC : C.Lawful) {k : IKESAKey} (hk : k.Populated) (rand : Bytes)
  (m : IKEMessage) (role : Role)
include hC hk

theorem sealStart_returns_iff :
    (sealStart C rand m k role).returns ↔ ¬ EncodeCrash m.payloads ∧ ¬ Starved rand m := by
  obtain ⟨t, ht⟩ := hk.integInfo
  obtain ⟨encr, hencr, hiv, hpad⟩ := hk.encr role
  rw [sealStart_run ht (hk.complete .responder), Outcome.returns_bind, Outcome.returns_wrapf,
    IKEPayloadContainer.encode_returns_iff]
  refine and_congr_right fun _ => ?_
  have hrest : ∀ plain, (deref (k.encr role) >>= fun e =>
      ((e.encrypt C rand plain).wrapf "encryptPayload()").wrapf
        "encryptMsg(): Error encrypting message" >>= fun c => pure (t, c)).returns ↔
      16 - plain.length % 16 ≤ rand.length := by
    intro plain
    rw [hencr, ← encrypt_returns_unset hC hiv hpad rand plain]
    show ((Outcome.wrapf _ _).wrapf _ >>= _).returns ↔ _
    rw [Outcome.returns_bind, Outcome.returns_wrapf, Outcome.returns_wrapf]
    exact and_iff_left fun _ _ => trivial
  simp only [Outcome.wrapf_eq_ok]
  constructor
  · rintro h ⟨plain, hplain, hfew⟩
    exact Nat.not_le.mpr hfew ((hrest plain).mp (h plain hplain))
  · intro h plain hplain
    exact (hrest plain).mpr (Nat.le_of_not_lt fun hfew => h ⟨plain, hplain, hfew⟩)

theorem encodeEncryptKey_returns_iff :
    (encodeEncryptKey C rand role (m, k)).1.returns ↔
      ¬ EncodeCrash m.payloads ∧ ¬ Starved rand m := by
  rw [← sealStart_returns_iff hC hk rand m role]
  cases hs : sealStart C rand m k role with
  | err e =>
    rw [encodeEncryptKey_err hs]
    exact iff_of_true trivial trivial
  | panic p =>
    rw [encodeEncryptKey_panic hs]
    exact iff_of_false id id
  | ok r =>
    obtain ⟨t, cipher⟩ := r
    refine iff_of_true ?_ trivial
    obtain ⟨ht, _, encr, plain, _, _, _, _, hlen⟩ := (sealStart_iff hC).mp ⟨cipher, hs, rfl⟩
    by_cases hwhy : 65535 < 4 + (cipher.length + t.getOutputLength) ∨ k.integ role = none
    · obtain ⟨err, he⟩ := encodeEncryptKey_fails hs (by omega) ht hwhy
      rw [he]
      trivial
    · obtain ⟨b, hb⟩ := encodeEncryptKey_succeeds hs hC.hmac_length (by omega) ht hwhy
      rw [hb]
      trivial

end

/-- **All messages on which the sender stops the program.**  With a complete key or without one, they
have a payload that stops its encoder and in front of it only payloads that are encoded; in a message
that was decoded, it is a Delete payload with SPIs in fewer than four octets.  With a key there are
also those for whose padding the random source has too few octets. -/
theorem sender_returns_iff {C : Crypto} (hC : C.Lawful) {key : Option IKESAKey}
    (hk : ∀ k, key = some k → k.Populated) (rand : Bytes) (m : IKEMessage) (role : Role) :
    ((encodeEncrypt C rand (some m) key role).1.returns ↔
      ¬ EncodeCrash m.payloads ∧ (key ≠ none → ¬ Starved rand m)) ∧
    ∀ b sp, IKEMessage.decode [] ⟨b, sp⟩ = .ok m → EncodeCrash m.payloads →
      ∃ d, .d d ∈ m.payloads ∧ d.Narrow := by
  refine ⟨?_, fun b sp hd hcrash => ?_⟩
  · cases key with
    | none =>
      refine (Outcome.returns_wrapf.trans m.encode_returns_iff).trans ?_
      exact (and_iff_left fun h => absurd rfl h).symm
    | some k =>
      refine (encodeEncryptKey_returns_iff hC (hk k rfl) rand m role).trans ?_
      exact and_congr_right fun _ => ⟨fun h _ => h, fun h => h (Option.some_ne_none k)⟩
  · obtain ⟨_, _, _, _, hps⟩ := message_decode_iff.mp hd
    obtain ⟨as, ps, n', hchain, _, hps⟩ := IKEPayloadContainer.decode_iff.mp hps
    obtain rfl : m.payloads = ps := hps
    exact stops_of_decoded hchain hcrash

/-- a Delete payload that is received with one SPI and a size of two; and a nonce without random octets -/
theorem sender_returns_delete : (∃ m,
    IKEMessage.decode [] ⟨informational 42 40 [0, 0, 0, 12, 3, 2, 0, 1, 1, 2, 3, 4], []⟩ = .ok m ∧
    ¬ (encodeEncrypt messageCrypto (List.replicate 32 7) (some m) (some sharedKey)
      .responder).1.returns) ∧
    ¬ (encodeEncrypt messageCrypto [] (some nonceMessage) (some sharedKey) .responder).1.returns := by
  have hk : ∀ k, some sharedKey = some k → k.Populated := by
    intro k hk
    obtain rfl := Option.some.inj hk
    exact sharedKey_populated
  refine ⟨⟨⟨_, [.d ⟨3, 2, 1, [0x01020304]⟩]⟩, rfl, ?_⟩, ?_⟩
  · rw [(sender_returns_iff messageCrypto_lawful hk _ _ _).1]
    refine fun h => h.1 ⟨[], _, [], rfl, ⟨rfl, by simp, by decide⟩, ?_⟩
    exact fun q hq => absurd hq (by simp)
  · rw [(sender_returns_iff messageCrypto_lawful hk _ _ _).1]
    exact fun h => h.2 (by simp) ⟨_, rfl, by decide⟩

end Ike
