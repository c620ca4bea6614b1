import IKEv2.Security.Agreement
import IKEv2.Security.IkeKeys

/-!
# The proposals that `NewIKESAKey` accepts

The proposal is looked at in `NewIKESAKey`, the public value of the peer in `GetSharedKey`, the nonce in
`GenerateKeyForIKESA`.  An integrity algorithm that is not supported is found there only: the check in
`NewIKESAKey` tests another field.

* `newIKESAKey_offered`   a supported proposal gives a key object with its algorithms;
* `newIKESAKey_cases`     everything is supported, or the call is an error;
* `newIKESAKey_accepts`   the proposals, public values and nonces that are accepted.
-/

set_option linter.unusedVariables false

namespace Ike
open GoLang

/-! ## the numbers of the algorithms -/

/-- a table with two numbers -/
theorem lookup_eq_some {α : Type} (number : α → UInt16) {a b : α} (hall : ∀ g, g = a ∨ g = b)
    (hne : number a ≠ number b) {x : UInt16} {g : α} :
    (if x = number a then some a else if x = number b then some b else none) = some g ↔
      x = number g := by
  rcases hall g with rfl | rfl
  · by_cases ha : x = number g
    · rw [if_pos ha]
      exact iff_of_true rfl ha
    · rw [if_neg ha]
      refine iff_of_false ?_ ha
      split
      · intro h
        injection h with h
        exact hne (congrArg number h.symm)
      · simp
  · by_cases ha : x = number a
    · rw [if_pos ha, ha]
      refine iff_of_false ?_ hne
      intro h
      injection h with h
      exact hne (congrArg number h)
    · rw [if_neg ha]
      by_cases hb : x = number g
      · rw [if_pos hb]
        exact iff_of_true rfl hb
      · rw [if_neg hb]
        exact iff_of_false (by simp) hb

theorem DHType.decodeTransform_eq_some {t : Transform} {g : DHType} :
    DHType.decodeTransform t = some g ↔ t.transformID = g.transformID :=
  lookup_eq_some DHType.transformID (a := .dh1024BitModp) (b := .dh2048BitModp)
    (fun g => by cases g <;> decide) (by decide)

theorem INTEGType.decodeTransform_eq_some {t : Transform} {g : INTEGType} :
    INTEGType.decodeTransform t = some g ↔ t.transformID = g.transformID :=
  lookup_eq_some INTEGType.transformID (a := .authHmacSha1_96) (b := .authHmacSha2_256_128)
    (fun g => by cases g <;> decide) (by decide)

theorem PRFType.decodeTransform_eq_some {t : Transform} {g : PRFType} :
    PRFType.decodeTransform t = some g ↔ t.transformID = g.transformID :=
  lookup_eq_some PRFType.transformID (a := .prfHmacSha1) (b := .prfHmacSha2_256)
    (fun g => by cases g <;> decide) (by decide)

/-- the key length of AES-CBC, in bits, is an attribute of the transform -/
theorem ENCRType.decodeTransform_eq_some {t : Transform} {g : ENCRType} :
    ENCRType.decodeTransform t = some g ↔ t.transformID = 12 ∧ t.attributeType = 14 ∧
      t.attributeValue.toNat = 8 * g.getKeyLength := by
  unfold ENCRType.decodeTransform
  by_cases hid : t.transformID = 12
  · by_cases hat : t.attributeType = 14
    · rw [if_pos hid, if_pos hat]
      simp only [hid, hat, true_and]
      split
      · rename_i h; rw [h]; cases g <;> decide
      split
      · rename_i h; rw [h]; cases g <;> decide
      split
      · rename_i h; rw [h]; cases g <;> decide
      rename_i h128 h192 h256
      refine iff_of_false (by simp) ?_
      intro h
      cases g with
      | encrAesCbc128 => exact h128 (UInt16.toNat_inj.mp h)
      | encrAesCbc192 => exact h192 (UInt16.toNat_inj.mp h)
      | encrAesCbc256 => exact h256 (UInt16.toNat_inj.mp h)
    · rw [if_pos hid, if_neg hat]
      exact iff_of_false (by simp) (fun h => hat h.2.1)
  · rw [if_neg hid]
    exact iff_of_false (by simp) (fun h => hid h.1)

/-! ## the group -/

namespace DHType

/-- the values of a peer that the group takes -/
def InRange (t : DHType) (v : Nat) : Prop := 1 < v ∧ v < t.factor - 1

theorem factorBytesLength_pos (t : DHType) : 0 < t.factorBytesLength := by
  rw [factorBytesLength, byteLen, if_neg (Nat.ne_of_gt t.factor_pos)]
  omega

theorem prependZero_power (t : DHType) (x e : Nat) :
    ∃ v, prependZero t.factorBytesLength (bigBytes (bigExp x e t.factor)) = .ok v ∧ v ≠ [] := by
  refine ⟨_, if_pos (t.byteLen_bigExp_le x e), ?_⟩
  intro hnil
  have hpos := t.factorBytesLength_pos
  have hlen := congrArg List.length hnil
  rw [List.length_append, List.length_replicate, List.length_nil] at hlen
  omega

end DHType

theorem calculateDiffieHellmanMaterials_inRange {draws : List Nat} {secret : Nat}
    (hrand : generateRandomNumber draws = .ok secret) {t : DHType} {peer : Bytes}
    (h : t.InRange (octNat peer)) :
    ∃ pub shared, calculateDiffieHellmanMaterials draws t peer = .ok (pub, shared) ∧ shared ≠ [] := by
  obtain ⟨shared, hshared, hne⟩ := t.prependZero_power (octNat peer) secret
  obtain ⟨pub, hpub, _⟩ := t.prependZero_power t.generator secret
  have hin : ¬ (octNat peer ≤ 1 ∨ t.factor - 1 ≤ octNat peer) := by
    obtain ⟨h1, h2⟩ := h
    omega
  refine ⟨pub, shared, ?_, hne⟩
  rw [calculateDiffieHellmanMaterials, hrand, Outcome.wrapf_ok, Outcome.ok_bind, DHType.getSharedKey,
    if_neg hin, hshared, Outcome.wrapf_ok, Outcome.ok_bind, DHType.getPublicValue, hpub]
  rfl

theorem calculateDiffieHellmanMaterials_outside {draws : List Nat} {secret : Nat}
    (hrand : generateRandomNumber draws = .ok secret) {t : DHType} {peer : Bytes}
    (h : ¬ t.InRange (octNat peer)) :
    ∃ err, calculateDiffieHellmanMaterials draws t peer = .err err := by
  have hout : octNat peer ≤ 1 ∨ t.factor - 1 ≤ octNat peer := by
    unfold DHType.InRange at h
    omega
  rw [calculateDiffieHellmanMaterials, hrand, Outcome.wrapf_ok, Outcome.ok_bind, DHType.getSharedKey,
    if_pos hout]
  exact ⟨_, rfl⟩

/-! ## the call -/

section
variable {C : Crypto} {draws : List Nat} {p : Proposal} {ke nonce : Bytes} {i r : UInt64}
  {dhInfo : DHType} {encrInfo : ENCRType} {prfInfo : PRFType}

/-- **A supported proposal gives a key object with its algorithms**, if the public value is in the range
of the group and there is a nonce. -/
theorem newIKESAKey_offered (hC : C.Sized) {secret : Nat}
    (hrand : generateRandomNumber draws = .ok secret) {integInfo : INTEGType}
    (h : p.Offers dhInfo encrInfo (some integInfo) prfInfo) (hrange : dhInfo.InRange (octNat ke))
    (hn : nonce ≠ []) :
    ∃ key pub, newIKESAKey C draws (some p) ke nonce i r = .ok (key, pub) ∧ key.dhInfo = some dhInfo ∧
      key.encrInfo = some encrInfo ∧ key.integInfo = some integInfo ∧ key.prfInfo = some prfInfo := by
  obtain ⟨pub, shared, hm, hs⟩ := calculateDiffieHellmanMaterials_inRange hrand hrange
  obtain ⟨key, hkey, _, _, _, hd, he, hi, hp⟩ := generateKeyForIKESA_ok hC
    (k := IKESAKey.ofInfo (some dhInfo) (some encrInfo) (some integInfo) (some prfInfo)) rfl rfl rfl rfl
    hn hs i r
  refine ⟨key, pub, ?_, hd, he, hi, hp⟩
  rw [h.newIKESAKey_eq, hm, Outcome.wrapf_ok, Outcome.ok_bind]
  dsimp only
  rw [hkey]
  rfl

/-- everything is supported, or the call is an error -/
theorem newIKESAKey_cases (C : Crypto) {secret : Nat} (hrand : generateRandomNumber draws = .ok secret)
    (p : Proposal) (ke nonce : Bytes) (i r : UInt64) :
    (∃ dhInfo encrInfo integInfo prfInfo, p.Offers dhInfo encrInfo (some integInfo) prfInfo ∧
      dhInfo.InRange (octNat ke) ∧ nonce ≠ []) ∨
    ∃ err, newIKESAKey C draws (some p) ke nonce i r = .err err := by
  rcases newIKESAKey_looks C draws p ke nonce i r with ⟨dhInfo, encrInfo, integInfo, prfInfo, h⟩ | herr
  · rw [h.newIKESAKey_eq]
    by_cases hrange : dhInfo.InRange (octNat ke)
    · obtain ⟨pub, shared, hm, hs⟩ := calculateDiffieHellmanMaterials_inRange hrand hrange
      rw [hm, Outcome.wrapf_ok, Outcome.ok_bind]
      dsimp only
      -- an integrity algorithm or a nonce that is missing is found here
      rcases generateKeyForIKESA_missing C (IKESAKey.ofInfo (some dhInfo) (some encrInfo) integInfo
        (some prfInfo)) nonce shared i r with ⟨err, hgen⟩ | ⟨_, integ, _, _, _, hinteg, _, _, hn, _⟩
      · rw [hgen]
        exact .inr ⟨_, rfl⟩
      · have hsome : integInfo = some integ := hinteg
        subst hsome
        exact .inl ⟨dhInfo, encrInfo, integ, prfInfo, h, hrange, hn⟩
    · obtain ⟨err, hm⟩ := calculateDiffieHellmanMaterials_outside hrand hrange
      rw [hm]
      exact .inr ⟨_, rfl⟩
  · exact .inr herr

end

/-! ## acceptance -/

/-- the first transforms have numbers that are supported, the public value `v` is in the range of the
group, and there is a nonce -/
structure Proposal.Supported (p : Proposal) (v : Nat) (nonce : Bytes) : Prop where
  dh : ∃ t, p.diffieHellmanGroup.head? = some t ∧
    (t.transformID = 2 ∧ DHType.dh1024BitModp.InRange v ∨
      t.transformID = 14 ∧ DHType.dh2048BitModp.InRange v)
  encr : ∃ t, p.encryptionAlgorithm.head? = some t ∧ t.transformID = 12 ∧ t.attributeType = 14 ∧
    (t.attributeValue = 128 ∨ t.attributeValue = 192 ∨ t.attributeValue = 256)
  integ : ∃ t, p.integrityAlgorithm.head? = some t ∧ (t.transformID = 2 ∨ t.transformID = 12)
  prf : ∃ t, p.pseudorandomFunction.head? = some t ∧ (t.transformID = 2 ∨ t.transformID = 5)
  nonce : nonce ≠ []

theorem ENCRType.supported_iff {t : Transform} :
    (t.transformID = 12 ∧ t.attributeType = 14 ∧
      (t.attributeValue = 128 ∨ t.attributeValue = 192 ∨ t.attributeValue = 256)) ↔
    ∃ g, ENCRType.decodeTransform t = some g := by
  constructor
  · intro ⟨hid, hat, hv⟩
    rcases hv with hv | hv | hv
    · exact ⟨.encrAesCbc128, ENCRType.decodeTransform_eq_some.mpr ⟨hid, hat, by rw [hv]; rfl⟩⟩
    · exact ⟨.encrAesCbc192, ENCRType.decodeTransform_eq_some.mpr ⟨hid, hat, by rw [hv]; rfl⟩⟩
    · exact ⟨.encrAesCbc256, ENCRType.decodeTransform_eq_some.mpr ⟨hid, hat, by rw [hv]; rfl⟩⟩
  · intro ⟨g, hg⟩
    obtain ⟨hid, hat, hv⟩ := ENCRType.decodeTransform_eq_some.mp hg
    refine ⟨hid, hat, ?_⟩
    cases g with
    | encrAesCbc128 => exact .inl (UInt16.toNat_inj.mp hv)
    | encrAesCbc192 => exact .inr (.inl (UInt16.toNat_inj.mp hv))
    | encrAesCbc256 => exact .inr (.inr (UInt16.toNat_inj.mp hv))

theorem Proposal.supported_iff {p : Proposal} {v : Nat} {nonce : Bytes} :
    p.Supported v nonce ↔
      ∃ dhInfo encrInfo integInfo prfInfo, p.Offers dhInfo encrInfo (some integInfo) prfInfo ∧
        dhInfo.InRange v ∧ nonce ≠ [] := by
  constructor
  · intro h
    obtain ⟨dh, hdh, hdhID⟩ := h.dh
    obtain ⟨encr, hencr, hencrID⟩ := h.encr
    obtain ⟨integ, hinteg, hintegID⟩ := h.integ
    obtain ⟨prf, hprf, hprfID⟩ := h.prf
    have hdhInfo : ∃ g, DHType.decodeTransform dh = some g ∧ g.InRange v := by
      rcases hdhID with ⟨hid, hrange⟩ | ⟨hid, hrange⟩
      · exact ⟨.dh1024BitModp, DHType.decodeTransform_eq_some.mpr hid, hrange⟩
      · exact ⟨.dh2048BitModp, DHType.decodeTransform_eq_some.mpr hid, hrange⟩
    have hintegInfo : ∃ g, INTEGType.decodeTransform integ = some g := by
      rcases hintegID with hid | hid
      · exact ⟨.authHmacSha1_96, INTEGType.decodeTransform_eq_some.mpr hid⟩
      · exact ⟨.authHmacSha2_256_128, INTEGType.decodeTransform_eq_some.mpr hid⟩
    have hprfInfo : ∃ g, PRFType.decodeTransform prf = some g := by
      rcases hprfID with hid | hid
      · exact ⟨.prfHmacSha1, PRFType.decodeTransform_eq_some.mpr hid⟩
      · exact ⟨.prfHmacSha2_256, PRFType.decodeTransform_eq_some.mpr hid⟩
    obtain ⟨dhInfo, hdhInfo, hrange⟩ := hdhInfo
    obtain ⟨encrInfo, hencrInfo⟩ := ENCRType.supported_iff.mp hencrID
    obtain ⟨integInfo, hintegInfo⟩ := hintegInfo
    obtain ⟨prfInfo, hprfInfo⟩ := hprfInfo
    exact ⟨dhInfo, encrInfo, integInfo, prfInfo, ⟨⟨dh, hdh, hdhInfo⟩, ⟨encr, hencr, hencrInfo⟩,
      ⟨integ, hinteg, hintegInfo⟩, ⟨prf, hprf, hprfInfo⟩⟩, hrange, h.nonce⟩
  · intro ⟨dhInfo, encrInfo, integInfo, prfInfo, h, hrange, hn⟩
    obtain ⟨dh, hdh, hdhInfo⟩ := h.dh
    obtain ⟨encr, hencr, hencrInfo⟩ := h.encr
    obtain ⟨integ, hinteg, hintegInfo⟩ := h.integ
    obtain ⟨prf, hprf, hprfInfo⟩ := h.prf
    have hdhID := DHType.decodeTransform_eq_some.mp hdhInfo
    have hintegID := INTEGType.decodeTransform_eq_some.mp hintegInfo
    have hprfID := PRFType.decodeTransform_eq_some.mp hprfInfo
    refine ⟨⟨dh, hdh, ?_⟩, ⟨encr, hencr, ENCRType.supported_iff.mpr ⟨encrInfo, hencrInfo⟩⟩,
      ⟨integ, hinteg, ?_⟩, ⟨prf, hprf, ?_⟩, hn⟩
    · cases dhInfo with
      | dh1024BitModp => exact .inl ⟨hdhID, hrange⟩
      | dh2048BitModp => exact .inr ⟨hdhID, hrange⟩
    · cases integInfo with
      | authHmacSha1_96 => exact .inl hintegID
      | authHmacSha2_256_128 => exact .inr hintegID
    · cases prfInfo with
      | prfHmacSha1 => exact .inl hprfID
      | prfHmacSha2_256 => exact .inr hprfID

/-- **What `NewIKESAKey` accepts.**  With a random source that works, the call succeeds exactly for the
supported proposals, public values in the range of the group and nonces that are not empty; otherwise it
is an error.  The algorithms of the key object are those of the first transforms, so none is nil. -/
theorem newIKESAKey_accepts {C : Crypto} (hC : C.Sized) {draws : List Nat} {secret : Nat}
    (hrand : generateRandomNumber draws = .ok secret) (proposal : Option Proposal) (ke nonce : Bytes)
    (i r : UInt64) :
    ((∃ result, newIKESAKey C draws proposal ke nonce i r = .ok result) ↔
      ∃ p, proposal = some p ∧ p.Supported (octNat ke) nonce) ∧
    ((∃ result, newIKESAKey C draws proposal ke nonce i r = .ok result) ∨
      ∃ err, newIKESAKey C draws proposal ke nonce i r = .err err) ∧
    ∀ key pub, newIKESAKey C draws proposal ke nonce i r = .ok (key, pub) →
      ∃ p dhInfo encrInfo integInfo prfInfo, proposal = some p ∧
        p.Offers dhInfo encrInfo (some integInfo) prfInfo ∧ key.dhInfo = some dhInfo ∧
        key.encrInfo = some encrInfo ∧ key.integInfo = some integInfo ∧ key.prfInfo = some prfInfo := by
  have hgives : ∀ p, proposal = some p → p.Supported (octNat ke) nonce →
      ∃ key pub dhInfo encrInfo integInfo prfInfo,
        newIKESAKey C draws proposal ke nonce i r = .ok (key, pub) ∧
        p.Offers dhInfo encrInfo (some integInfo) prfInfo ∧ key.dhInfo = some dhInfo ∧
        key.encrInfo = some encrInfo ∧ key.integInfo = some integInfo ∧
        key.prfInfo = some prfInfo := by
    intro p hp hsupp
    obtain ⟨dhInfo, encrInfo, integInfo, prfInfo, h, hrange, hn⟩ := Proposal.supported_iff.mp hsupp
    obtain ⟨key, pub, hok, hinfo⟩ := newIKESAKey_offered (i := i) (r := r) hC hrand h hrange hn
    exact ⟨key, pub, dhInfo, encrInfo, integInfo, prfInfo, by rw [hp, hok], h, hinfo⟩
  have hcases : (∃ p, proposal = some p ∧ p.Supported (octNat ke) nonce) ∨
      ∃ err, newIKESAKey C draws proposal ke nonce i r = .err err := by
    cases proposal with
    | none => exact .inr ⟨_, rfl⟩
    | some p =>
      rcases newIKESAKey_cases C hrand p ke nonce i r with hall | herr
      · exact .inl ⟨p, rfl, Proposal.supported_iff.mpr hall⟩
      · exact .inr herr
  rcases hcases with ⟨p, hp, hsupp⟩ | ⟨err, herr⟩
  · obtain ⟨key, pub, dhInfo, encrInfo, integInfo, prfInfo, hok, hinfo⟩ := hgives p hp hsupp
    refine ⟨iff_of_true ⟨_, hok⟩ ⟨p, hp, hsupp⟩, .inl ⟨_, hok⟩, ?_⟩
    intro key' pub' hok'
    rw [hok] at hok'
    injection hok' with hok'
    injection hok' with hkey _
    subst hkey
    exact ⟨p, dhInfo, encrInfo, integInfo, prfInfo, hp, hinfo⟩
  · have hno : ∀ result, newIKESAKey C draws proposal ke nonce i r ≠ .ok result := by
      intro result h
      rw [herr] at h
      exact absurd h (by simp)
    refine ⟨iff_of_false ?_ ?_, .inr ⟨err, herr⟩, fun key pub h => absurd h (hno _)⟩
    · intro ⟨result, h⟩
      exact hno result h
    · intro ⟨p, hp, hsupp⟩
      obtain ⟨key, pub, _, _, _, _, hok, _⟩ := hgives p hp hsupp
      exact hno _ hok

/-- group 2 and the public value of the secret 3 -/
theorem newIKESAKey_accepts_exchange :
    exchangeProposal.Supported (octNat (octets 128 8)) (octets 4 0x4e694e72) ∧
    ∃ result, newIKESAKey (Crypto.ofTable exchangeTable [] []) [2 ^ 128] (some exchangeProposal)
      (octets 128 8) (octets 4 0x4e694e72) 1 2 = .ok result := by
  have hsupp : exchangeProposal.Supported (octNat (octets 128 8)) (octets 4 0x4e694e72) := by
    refine ⟨⟨_, rfl, .inl ⟨rfl, ?_⟩⟩, ⟨_, rfl, rfl, rfl, .inl rfl⟩, ⟨_, rfl, .inl rfl⟩,
      ⟨_, rfl, .inl rfl⟩, by decide⟩
    exact ⟨by decide +kernel, by decide +kernel⟩
  have hrand : generateRandomNumber [2 ^ 128] = .ok (2 ^ 128) := by decide +kernel
  exact ⟨hsupp, (newIKESAKey_accepts (Crypto.ofTable_sized exchangeTable [] []) hrand
    (some exchangeProposal) (octets 128 8) (octets 4 0x4e694e72) 1 2).1.mpr
    ⟨exchangeProposal, rfl, hsupp⟩⟩

end Ike
