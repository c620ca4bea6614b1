import IKEv2.Security.KeySchedule

/-!
# The two ends of an exchange have the same keys

The initiator sends `GetPublicValue(a)`, the responder draws `b`, runs `NewIKESAKey` on it and sends
its own public value back.  Public values and shared keys are written with zeros in front, up to the
octets of the modulus, so reading them gives back the number (`octNat_getPublicValue`).

`keyAgreement`: if both ends succeed, they have the same shared key and the same seven keys.
-/

set_option linter.unusedVariables false

namespace Ike
open GoLang

namespace DHType

theorem factor_pos (t : DHType) : 0 < t.factor := by
  cases t <;> decide +kernel

/-- a power modulo the prime is never longer than the prime -/
theorem byteLen_bigExp_le (t : DHType) (x e : Nat) :
    (bigBytes (bigExp x e t.factor)).length ≤ t.factorBytesLength := by
  rw [length_bigBytes]
  have h1 := bigExp_lt x e t.factor_pos
  have h2 := lt_byteLen t.factor
  exact byteLen_le (by rw [factorBytesLength]; omega)

theorem length_of_prependZero {n : Nat} {v w : Bytes} (h : prependZero n v = .ok w) :
    w.length = n ∧ octNat w = octNat v := by
  unfold prependZero at h
  split at h
  · rename_i hl
    injection h with h
    subst h
    refine ⟨?_, octNat_zeros_append _ _⟩
    rw [List.length_append, List.length_replicate]
    omega
  · exact absurd h (by simp)

theorem octNat_getPublicValue {t : DHType} {s : Nat} {v : Bytes}
    (h : t.getPublicValue s = .ok v) : octNat v = bigExp t.generator s t.factor := by
  rw [(length_of_prependZero h).2, octNat_bigBytes]

/-- the shared key depends on the power alone -/
theorem getSharedKey_ok {t : DHType} {s peer : Nat} {v : Bytes}
    (h : t.getSharedKey s peer = .ok v) :
    v.length = t.factorBytesLength ∧
      prependZero t.factorBytesLength (bigBytes (bigExp peer s t.factor)) = .ok v := by
  unfold getSharedKey at h
  split at h
  · exact absurd h (fail_ne_ok _ _)
  · exact ⟨(length_of_prependZero h).1, h⟩

/-- **Diffie-Hellman**: both ends compute the same shared key. -/
theorem sharedKey_eq {t : DHType} {a b : Nat} {A B ka kb : Bytes}
    (hA : t.getPublicValue a = .ok A) (hB : t.getPublicValue b = .ok B)
    (ha : t.getSharedKey a (octNat B) = .ok ka) (hb : t.getSharedKey b (octNat A) = .ok kb) :
    ka = kb := by
  have h1 := (getSharedKey_ok ha).2
  have h2 := (getSharedKey_ok hb).2
  rw [octNat_getPublicValue hB, bigExp_comm] at h1
  rw [octNat_getPublicValue hA, h1] at h2
  injection h2

end DHType

/-- what the responder has done when it succeeds -/
theorem newIKESAKey_ok {C : Crypto} {draws : List Nat} {proposal : Proposal} {A nonce B : Bytes}
    {i r : UInt64} {key : IKESAKey}
    (h : newIKESAKey C draws (some proposal) A nonce i r = .ok (key, B)) :
    ∃ dhInfo encrInfo integInfo prfInfo b shared,
      (proposal.diffieHellmanGroup.head?.bind DHType.decodeTransform) = some dhInfo ∧
      generateRandomNumber draws = .ok b ∧ dhInfo.getSharedKey b (octNat A) = .ok shared ∧
      dhInfo.getPublicValue b = .ok B ∧
      IKESAKey.generateKeyForIKESA C nonce shared i r
        (IKESAKey.ofInfo (some dhInfo) (some encrInfo) integInfo (some prfInfo)) = (.ok (), key) := by
  rcases newIKESAKey_looks C draws proposal A nonce i r with
    ⟨dhInfo, encrInfo, integInfo, prfInfo, hoff⟩ | ⟨err, herr⟩
  · rw [hoff.newIKESAKey_eq] at h
    obtain ⟨m, hm, h⟩ := Outcome.bind_eq_ok.mp h
    obtain ⟨_, hg, h⟩ := Outcome.bind_eq_ok.mp h
    injection h with h
    obtain ⟨hkey, hB⟩ := Prod.mk.inj h
    obtain ⟨b, hb, hm⟩ := Outcome.bind_eq_ok.mp (Outcome.wrapf_eq_ok.mp hm)
    obtain ⟨shared, hsh, hm⟩ := Outcome.bind_eq_ok.mp hm
    obtain ⟨pub, hpub, hm⟩ := Outcome.bind_eq_ok.mp hm
    injection hm with hm
    subst hm
    obtain ⟨dh, hdh, hdi⟩ := hoff.dh
    refine ⟨dhInfo, encrInfo, integInfo, prfInfo, b, shared, by rw [hdh]; exact hdi,
      Outcome.wrapf_eq_ok.mp hb, Outcome.wrapf_eq_ok.mp hsh, by rw [hpub]; exact congrArg _ hB,
      Prod.ext (Outcome.wrapf_eq_ok.mp hg) hkey⟩
  · rw [herr] at h
    exact absurd h (by simp)

/-- **Key agreement**: the shared key of the initiator is that of the responder, as long as the
modulus, and the initiator's key object gets the seven keys of the responder's. -/
theorem keyAgreement (C : Crypto) {t : DHType} {a : Nat} {A : Bytes}
    (hA : t.getPublicValue a = .ok A) {draws : List Nat} {proposal : Proposal}
    (ht : proposal.diffieHellmanGroup.head?.bind DHType.decodeTransform = some t) {nonce : Bytes}
    {i r : UInt64} {key : IKESAKey} {B : Bytes}
    (hresp : newIKESAKey C draws (some proposal) A nonce i r = .ok (key, B)) {shared : Bytes}
    (hinit : t.getSharedKey a (octNat B) = .ok shared) {k : IKESAKey}
    (hdh : k.dhInfo = key.dhInfo) (hencr : k.encrInfo = key.encrInfo)
    (hinteg : k.integInfo = key.integInfo) (hprf : k.prfInfo = key.prfInfo) :
    (∃ b, generateRandomNumber draws = .ok b ∧ t.getPublicValue b = .ok B ∧
      t.getSharedKey b (octNat A) = .ok shared) ∧
    shared.length = t.factorBytesLength ∧
    (∃ k', IKESAKey.generateKeyForIKESA C nonce shared i r k = (.ok (), k') ∧
      k'.toSKKeys = key.toSKKeys) ∧
    ∀ x e, (bigBytes (bigExp x e t.factor)).length ≤ t.factorBytesLength := by
  obtain ⟨dhInfo, encrInfo, integInfo, prfInfo, b, shared', hd, hb, hsh, hpub, hg⟩ :=
    newIKESAKey_ok hresp
  rw [ht] at hd
  injection hd with hd
  subst hd
  have hsame : shared = shared' := DHType.sharedKey_eq hA hpub hinit hsh
  subst hsame
  refine ⟨⟨b, hb, hpub, hsh⟩, (DHType.getSharedKey_ok hinit).1, ?_, t.byteLen_bigExp_le⟩
  obtain ⟨encr, integ, prf, dh, keys, encr_i, encr_r, h1, h2, h3, h4, hn, hs, hk, hei, her, rfl⟩ :=
    generateKeyForIKESA_iff.mp hg
  refine ⟨_, generateKeyForIKESA_iff.mpr ⟨encr, integ, prf, dh, keys, encr_i, encr_r, ?_, ?_, ?_, ?_,
    hn, hs, hk, hei, her, rfl⟩, rfl⟩
  · rw [hencr]; exact h1
  · rw [hinteg]; exact h2
  · rw [hprf]; exact h3
  · rw [hdh]; exact h4

/-- group 2, AES-CBC-128, HMAC-SHA-1-96 and HMAC-SHA-1 -/
def exchangeProposal : Proposal :=
  { proposalNumber := 1, protocolID := 1, spi := []
    encryptionAlgorithm := [⟨1, 12, true, 1, 14, 128, []⟩]
    pseudorandomFunction := [⟨2, 2, false, 0, 0, 0, []⟩]
    integrityAlgorithm := [⟨3, 2, false, 0, 0, 0, []⟩]
    diffieHellmanGroup := [⟨4, 2, false, 0, 0, 0, []⟩]
    extendedSequenceNumbers := [] }

/-- the public value of the responder that has drawn `2 ^ 128` -/
def exchangePublicValue : Bytes :=
  octets 128 0xc01d82b8aef388cb004345a5514fd601719bc7f28e9b64fde67a284bad83e9c4e23ff4a94ec0a72170236513fde80ca9fe038065bf2a0e814d9ec1d911a87de078d407669bbdf6e05d556c547df83308a6f0c03a05a8cca313866e2ad6781d3baf6f3e30c8a786723ce9d65efbb0a42e98aba2eccdf7ff3a49155d305f7ede25

theorem exchange_sharedKey :
    DHType.getSharedKey .dh1024BitModp 3 (octNat exchangePublicValue) = .ok exchangeSharedKey := by
  decide +kernel

theorem keyAgreement_exchange :
    ∃ key shared k', newIKESAKey (Crypto.ofTable exchangeTable [] []) [2 ^ 128] (some exchangeProposal)
        (octets 128 8) (octets 4 0x4e694e72) 1 2 = .ok (key, exchangePublicValue) ∧
      DHType.getSharedKey .dh1024BitModp 3 (octNat exchangePublicValue) = .ok shared ∧
      IKESAKey.generateKeyForIKESA (Crypto.ofTable exchangeTable [] []) (octets 4 0x4e694e72)
        shared 1 2 (IKESAKey.ofInfo key.dhInfo key.encrInfo key.integInfo key.prfInfo) =
          (.ok (), k') ∧
      k'.toSKKeys = key.toSKKeys := by
  have hA : DHType.getPublicValue .dh1024BitModp 3 = .ok (octets 128 8) := by decide +kernel
  have hresp : Prod.snd <$> newIKESAKey (Crypto.ofTable exchangeTable [] []) [2 ^ 128]
      (some exchangeProposal) (octets 128 8) (octets 4 0x4e694e72) 1 2 =
        .ok exchangePublicValue := by decide +kernel
  obtain ⟨⟨key, B⟩, hkey, hB⟩ := Outcome.map_eq_ok.mp hresp
  rw [show B = exchangePublicValue from hB] at hkey
  obtain ⟨_, _, ⟨k', hk', hsame⟩, _⟩ := keyAgreement (Crypto.ofTable exchangeTable [] []) hA rfl hkey
    exchange_sharedKey (k := IKESAKey.ofInfo key.dhInfo key.encrInfo key.integInfo key.prfInfo) rfl rfl rfl rfl
  exact ⟨key, _, k', hkey, exchange_sharedKey, hk', hsame⟩

end Ike
