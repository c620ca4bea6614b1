import IKEv2.Security.AesCbc
import IKEv2.Security.PrfPlus

/-!
# Keys of an IKE SA and of a child SA (`security/security.go`)

A key object holds the algorithms, the keys and the objects that are made of them.  The hash objects
keep what is written to them, so the calls that use them change the key object.

* `generateKeyForIKESA_iff`   when the keys of an IKE SA are generated, and what the object is then;
* `newIKESAKey_looks`         the look-ups of `NewIKESAKey` succeed, or the call is an error.
-/

set_option linter.unusedVariables false

namespace Ike
open GoLang

/-! ## key objects -/

structure SKKeys where
  sk_d : Bytes
  sk_ai : Bytes
  sk_ar : Bytes
  sk_ei : Bytes
  sk_er : Bytes
  sk_pi : Bytes
  sk_pr : Bytes
deriving DecidableEq, Repr

structure IKESAKey extends SKKeys where
  dhInfo : Option DHType
  encrInfo : Option ENCRType
  integInfo : Option INTEGType
  prfInfo : Option PRFType
  prf_d : Option Hash
  integ_i : Option Hash
  integ_r : Option Hash
  encr_i : Option EncrAesCbcCrypto
  encr_r : Option EncrAesCbcCrypto
  prf_i : Option Hash
  prf_r : Option Hash
deriving DecidableEq

/-- `new(IKESAKey)` with its four algorithms -/
def IKESAKey.ofInfo (dhInfo : Option DHType) (encrInfo : Option ENCRType)
    (integInfo : Option INTEGType) (prfInfo : Option PRFType) : IKESAKey :=
  { sk_d := [], sk_ai := [], sk_ar := [], sk_ei := [], sk_er := [], sk_pi := [], sk_pr := []
    dhInfo := dhInfo, encrInfo := encrInfo, integInfo := integInfo, prfInfo := prfInfo
    prf_d := none, integ_i := none, integ_r := none, encr_i := none, encr_r := none
    prf_i := none, prf_r := none }

/-- an error for a `nil` -/
def require {α : Type} (text : String) : Option α → Outcome α
  | some a => .ok a
  | none => fail text

theorem require_eq_ok {α : Type} {text : String} {o : Option α} {a : α} :
    require text o = .ok a ↔ o = some a := by
  cases o with
  | none =>
    constructor
    · intro h; exact absurd h (fail_ne_ok _ _)
    · intro h; exact absurd h (by simp)
  | some b =>
    constructor
    · intro h; injection h with h; rw [h]
    · intro h; injection h with h; rw [h]; rfl

/-! ## the keys of an IKE SA -/

def concatenateNonceAndSPI (nonce : Bytes) (spi_initiator spi_responder : UInt64) : Bytes :=
  nonce ++ putUint64 spi_initiator ++ putUint64 spi_responder

/-- `keyStream[:n]` and `keyStream[n:]` -/
def cutKey (n : Nat) (keyStream : Slice UInt8) : Outcome (Bytes × Slice UInt8) := do
  let key ← keyStream.sliceTo n
  let rest ← keyStream.sliceFrom n
  pure (key.data, rest)

/-- the seven keys one after the other -/
def cutKeys (length_SK_d length_SK_a length_SK_e : Nat) (keyStream : Bytes) : Outcome SKKeys := do
  let d ← cutKey length_SK_d (Slice.ofList keyStream)
  let ai ← cutKey length_SK_a d.2
  let ar ← cutKey length_SK_a ai.2
  let ei ← cutKey length_SK_e ar.2
  let er ← cutKey length_SK_e ei.2
  let pi ← cutKey length_SK_d er.2
  let pr ← pi.2.sliceTo length_SK_d
  pure { sk_d := d.1, sk_ai := ai.1, sk_ar := ar.1, sk_ei := ei.1, sk_er := er.1, sk_pi := pi.1,
         sk_pr := pr.data }

/-- SKEYSEED, the key stream and the seven keys -/
def deriveKeys (C : Crypto) (encrInfo : ENCRType) (integInfo : INTEGType) (prfInfo : PRFType)
    (concatenatedNonce diffieHellmanSharedKey : Bytes) (initiatorSPI responderSPI : UInt64) :
    Outcome SKKeys := do
  let length_SK_d := prfInfo.getKeyLength
  let length_SK_a := integInfo.getKeyLength
  let length_SK_e := encrInfo.getKeyLength
  let totalKeyLength := length_SK_d + length_SK_a + length_SK_a + length_SK_e + length_SK_e
    + length_SK_d + length_SK_d
  let skeyseed := ((prfInfo.init concatenatedNonce).write diffieHellmanSharedKey).sum C
  let seed := concatenateNonceAndSPI concatenatedNonce initiatorSPI responderSPI
  let keyStream ← (prfPlus (Hash.methods C) seed totalKeyLength (prfInfo.init skeyseed)).1
  if keyStream = [] then fail "Error happened in PrfPlus"
  else cutKeys length_SK_d length_SK_a length_SK_e keyStream

def IKESAKey.generateKeyForIKESA (C : Crypto) (concatenatedNonce diffieHellmanSharedKey : Bytes)
    (initiatorSPI responderSPI : UInt64) : Proc IKESAKey Unit := do
  let k ← Proc.this
  let encrInfo ← Proc.lift (require "No encryption algorithm specified" k.encrInfo)
  let integInfo ← Proc.lift (require "No integrity algorithm specified" k.integInfo)
  let prfInfo ← Proc.lift (require "No pseudorandom function specified" k.prfInfo)
  let _ ← Proc.lift (require "No Diffie-hellman group algorithm specified" k.dhInfo)
  if concatenatedNonce.length = 0 then Proc.lift (fail "No concatenated nonce data")
  else if diffieHellmanSharedKey.length = 0 then Proc.lift (fail "No Diffie-Hellman shared key")
  else do
    let keys ← Proc.lift (deriveKeys C encrInfo integInfo prfInfo concatenatedNonce
      diffieHellmanSharedKey initiatorSPI responderSPI)
    Proc.modify fun k => { k with
      toSKKeys := keys
      prf_d := some (prfInfo.init keys.sk_d)
      integ_i := integInfo.init keys.sk_ai
      integ_r := integInfo.init keys.sk_ar }
    Proc.modify fun k => { k with encr_i := (encrInfo.newCrypto keys.sk_ei).value }
    let _ ← Proc.lift (encrInfo.newCrypto keys.sk_ei)
    Proc.modify fun k => { k with encr_r := (encrInfo.newCrypto keys.sk_er).value }
    let _ ← Proc.lift (encrInfo.newCrypto keys.sk_er)
    Proc.modify fun k => { k with
      prf_i := some (prfInfo.init keys.sk_pi)
      prf_r := some (prfInfo.init keys.sk_pr) }

/-- the objects made of the keys -/
def IKESAKey.assign (k : IKESAKey) (integInfo : INTEGType) (prfInfo : PRFType) (keys : SKKeys)
    (encr_i encr_r : EncrAesCbcCrypto) : IKESAKey :=
  { k with
    toSKKeys := keys
    prf_d := some (prfInfo.init keys.sk_d)
    integ_i := integInfo.init keys.sk_ai
    integ_r := integInfo.init keys.sk_ar
    encr_i := some encr_i
    encr_r := some encr_r
    prf_i := some (prfInfo.init keys.sk_pi)
    prf_r := some (prfInfo.init keys.sk_pr) }

/-- **When the keys are generated**, and what the key object is then. -/
theorem generateKeyForIKESA_iff {C : Crypto} {nonce shared : Bytes} {i r : UInt64}
    {k k' : IKESAKey} :
    IKESAKey.generateKeyForIKESA C nonce shared i r k = (.ok (), k') ↔
      ∃ encrInfo integInfo prfInfo dhInfo keys encr_i encr_r,
        k.encrInfo = some encrInfo ∧ k.integInfo = some integInfo ∧ k.prfInfo = some prfInfo ∧
        k.dhInfo = some dhInfo ∧ nonce ≠ [] ∧ shared ≠ [] ∧
        deriveKeys C encrInfo integInfo prfInfo nonce shared i r = .ok keys ∧
        encrInfo.newCrypto keys.sk_ei = .ok encr_i ∧ encrInfo.newCrypto keys.sk_er = .ok encr_r ∧
        k' = k.assign integInfo prfInfo keys encr_i encr_r := by
  unfold IKESAKey.generateKeyForIKESA
  simp only [Proc.bind_eq_ok, Proc.this_eq_ok, Proc.lift_eq_ok, require_eq_ok]
  constructor
  · rintro ⟨_, _, ⟨rfl, rfl⟩, encrInfo, _, ⟨he, rfl⟩, integInfo, _, ⟨hi, rfl⟩, prfInfo, _, ⟨hp, rfl⟩,
      dhInfo, _, ⟨hd, rfl⟩, h⟩
    split at h
    · exact absurd h (by simp [Proc.lift])
    rename_i hn
    split at h
    · exact absurd h (by simp [Proc.lift])
    rename_i hs
    simp only [Proc.bind_eq_ok, Proc.lift_eq_ok, Proc.modify_eq_ok] at h
    obtain ⟨keys, _, ⟨hk, rfl⟩, _, _, rfl, _, _, rfl, encr_i, _, ⟨hei, rfl⟩, _, _, rfl, encr_r, _,
      ⟨her, rfl⟩, rfl⟩ := h
    refine ⟨encrInfo, integInfo, prfInfo, dhInfo, keys, encr_i, encr_r, he, hi, hp, hd, ?_, ?_, hk,
      hei, her, ?_⟩
    · rintro rfl; exact hn rfl
    · rintro rfl; exact hs rfl
    · rw [hei, her]
      rfl
  · rintro ⟨encrInfo, integInfo, prfInfo, dhInfo, keys, encr_i, encr_r, he, hi, hp, hd, hn, hs, hk,
      hei, her, rfl⟩
    refine ⟨_, _, ⟨rfl, rfl⟩, encrInfo, _, ⟨he, rfl⟩, integInfo, _, ⟨hi, rfl⟩, prfInfo, _, ⟨hp, rfl⟩,
      dhInfo, _, ⟨hd, rfl⟩, ?_⟩
    rw [if_neg (fun h => hn (List.length_eq_zero_iff.mp h)),
      if_neg (fun h => hs (List.length_eq_zero_iff.mp h))]
    simp only [Proc.bind_eq_ok, Proc.lift_eq_ok, Proc.modify_eq_ok]
    refine ⟨keys, _, ⟨hk, rfl⟩, (), _, rfl, (), _, rfl, encr_i, _, ⟨hei, rfl⟩, (), _, rfl, encr_r, _,
      ⟨her, rfl⟩, ?_⟩
    rw [hei, her]
    rfl

/-- `strings.Repeat("F", 512)` -/
def randomNumberMaximum : Nat := 2 ^ 2048 - 1

/-- `strings.Repeat("F", 32)` -/
def randomNumberMinimum : Nat := 2 ^ 128 - 1

/-- `draws` are the numbers of the random source, one for each call of `rand.Int` -/
def generateRandomNumber : List Nat → Outcome Nat
  | [] => .err (.wrapf "GenerateRandomNumber(): Error occurs when generate random number"
      (.errorf "EOF"))
  | draw :: draws =>
    let number := draw % randomNumberMaximum
    if number > randomNumberMinimum then .ok number else generateRandomNumber draws

/-- local public value and shared key -/
def calculateDiffieHellmanMaterials (draws : List Nat) (dhInfo : DHType) (peerPublicValue : Bytes) :
    Outcome (Bytes × Bytes) := do
  let secret ← (generateRandomNumber draws).wrapf "CalculateDiffieHellmanMaterials()"
  let sharedKey ← (dhInfo.getSharedKey secret (octNat peerPublicValue)).wrapf
    "CalculateDiffieHellmanMaterials() failed to get shared key"
  let localPublicValue ← dhInfo.getPublicValue secret
  pure (localPublicValue, sharedKey)

/-- the key object of the responder and its public value -/
def newIKESAKey (C : Crypto) (draws : List Nat) (proposal : Option Proposal)
    (keyExchangeData concatenatedNonce : Bytes) (initiatorSPI responderSPI : UInt64) :
    Outcome (IKESAKey × Bytes) := do
  let proposal ← require "NewIKESAKey : proposal is nil" proposal
  let dh ← require "NewIKESAKey : DiffieHellmanGroup is nil" proposal.diffieHellmanGroup.head?
  let encr ← require "NewIKESAKey : EncryptionAlgorithm is nil" proposal.encryptionAlgorithm.head?
  let integ ← require "NewIKESAKey : IntegrityAlgorithm is nil" proposal.integrityAlgorithm.head?
  let prf ← require "NewIKESAKey : PseudorandomFunction is nil" proposal.pseudorandomFunction.head?
  let dhInfo ← require
    s!"NewIKESAKey : Get unsupport DiffieHellmanGroup[{dh.transformID.toNat}]"
    (DHType.decodeTransform dh)
  let encrInfo ← require
    s!"NewIKESAKey : Get unsupport EncryptionAlgorithm[{encr.transformID.toNat}]"
    (ENCRType.decodeTransform encr)
  -- the check behind this look-up is for `EncrInfo` once more: an unknown algorithm goes on as nil
  let integInfo := INTEGType.decodeTransform integ
  let prfInfo ← require
    s!"NewIKESAKey : Get unsupport PseudorandomFunction[{prf.transformID.toNat}]"
    (PRFType.decodeTransform prf)
  let materials ← (calculateDiffieHellmanMaterials draws dhInfo keyExchangeData).wrapf "NewIKESAKey"
  let generated := IKESAKey.generateKeyForIKESA C concatenatedNonce materials.2 initiatorSPI
    responderSPI (IKESAKey.ofInfo (some dhInfo) (some encrInfo) integInfo (some prfInfo))
  let _ ← generated.1.wrapf "NewIKESAKey"
  pure (generated.2, materials.1)

/-! ## the look-ups -/

/-- what the look-ups find; an unknown integrity algorithm is not an error -/
structure Proposal.Offers (p : Proposal) (dhInfo : DHType) (encrInfo : ENCRType)
    (integInfo : Option INTEGType) (prfInfo : PRFType) : Prop where
  dh : ∃ t, p.diffieHellmanGroup.head? = some t ∧ DHType.decodeTransform t = some dhInfo
  encr : ∃ t, p.encryptionAlgorithm.head? = some t ∧ ENCRType.decodeTransform t = some encrInfo
  integ : ∃ t, p.integrityAlgorithm.head? = some t ∧ INTEGType.decodeTransform t = integInfo
  prf : ∃ t, p.pseudorandomFunction.head? = some t ∧ PRFType.decodeTransform t = some prfInfo

/-- what is left of the call after the look-ups -/
theorem Proposal.Offers.newIKESAKey_eq {C : Crypto} {draws : List Nat} {p : Proposal}
    {ke nonce : Bytes} {i r : UInt64} {dhInfo : DHType} {encrInfo : ENCRType}
    {integInfo : Option INTEGType} {prfInfo : PRFType}
    (h : p.Offers dhInfo encrInfo integInfo prfInfo) :
    newIKESAKey C draws (some p) ke nonce i r = (do
      let materials ← (calculateDiffieHellmanMaterials draws dhInfo ke).wrapf "NewIKESAKey"
      let generated := IKESAKey.generateKeyForIKESA C nonce materials.2 i r
        (IKESAKey.ofInfo (some dhInfo) (some encrInfo) integInfo (some prfInfo))
      let _ ← generated.1.wrapf "NewIKESAKey"
      pure (generated.2, materials.1)) := by
  obtain ⟨dh, hdh, hdhInfo⟩ := h.dh
  obtain ⟨encr, hencr, hencrInfo⟩ := h.encr
  obtain ⟨integ, hinteg, hintegInfo⟩ := h.integ
  obtain ⟨prf, hprf, hprfInfo⟩ := h.prf
  simp only [newIKESAKey, hdh, hdhInfo, hencr, hencrInfo, hinteg, hintegInfo, hprf, hprfInfo, require,
    Outcome.ok_bind]

/-- the look-ups succeed, or the call is an error -/
theorem newIKESAKey_looks (C : Crypto) (draws : List Nat) (p : Proposal) (ke nonce : Bytes)
    (i r : UInt64) :
    (∃ dhInfo encrInfo integInfo prfInfo, p.Offers dhInfo encrInfo integInfo prfInfo) ∨
    ∃ err, newIKESAKey C draws (some p) ke nonce i r = .err err := by
  simp only [newIKESAKey, require, Outcome.ok_bind]
  cases hdh : p.diffieHellmanGroup.head? with
  | none => exact .inr ⟨_, rfl⟩
  | some dh =>
  cases hencr : p.encryptionAlgorithm.head? with
  | none => exact .inr ⟨_, rfl⟩
  | some encr =>
  cases hinteg : p.integrityAlgorithm.head? with
  | none => exact .inr ⟨_, rfl⟩
  | some integ =>
  cases hprf : p.pseudorandomFunction.head? with
  | none => exact .inr ⟨_, rfl⟩
  | some prf =>
  simp only [Outcome.ok_bind]
  cases hdhInfo : DHType.decodeTransform dh with
  | none => exact .inr ⟨_, rfl⟩
  | some dhInfo =>
  cases hencrInfo : ENCRType.decodeTransform encr with
  | none => exact .inr ⟨_, rfl⟩
  | some encrInfo =>
  cases hprfInfo : PRFType.decodeTransform prf with
  | none => exact .inr ⟨_, rfl⟩
  | some prfInfo =>
  exact .inl ⟨dhInfo, encrInfo, INTEGType.decodeTransform integ, prfInfo, ⟨dh, hdh, hdhInfo⟩,
    ⟨encr, hencr, hencrInfo⟩, ⟨integ, hinteg, rfl⟩, ⟨prf, hprf, hprfInfo⟩⟩

/-! ## the keys of a child SA -/

structure ChildSAKey where
  spi : UInt32
  dhInfo : Option DHType
  encrKInfo : Option ENCRType
  integKInfo : Option INTEGType
  esnInfo : ESN
  initiatorToResponderEncryptionKey : Bytes
  responderToInitiatorEncryptionKey : Bytes
  initiatorToResponderIntegrityKey : Bytes
  responderToInitiatorIntegrityKey : Bytes
deriving DecidableEq, Repr

/-- `new(ChildSAKey)` with its algorithms -/
def ChildSAKey.ofInfo (dhInfo : Option DHType) (encrKInfo : Option ENCRType)
    (integKInfo : Option INTEGType) (esnInfo : ESN) : ChildSAKey :=
  { spi := 0, dhInfo := dhInfo, encrKInfo := encrKInfo, integKInfo := integKInfo, esnInfo := esnInfo
    initiatorToResponderEncryptionKey := [], responderToInitiatorEncryptionKey := []
    initiatorToResponderIntegrityKey := [], responderToInitiatorIntegrityKey := [] }

/-- a list of one transform is decoded, a list of any other length is passed over -/
def decodeOnly {α : Type} (name : String) (decode : Transform → Option α) :
    List Transform → Outcome (Option α)
  | [transform] =>
    some <$> require
      s!"NewChildSAKeyByProposal : Get unsupport {name}[{transform.transformID.toNat}]"
      (decode transform)
  | _ => .ok none

def newChildSAKeyByProposal (proposal : Option Proposal) : Outcome ChildSAKey := do
  let proposal ← require "NewChildSAKeyByProposal : proposal is nil" proposal
  let encr ← require "NewChildSAKeyByProposal : EncryptionAlgorithm is nil"
    proposal.encryptionAlgorithm.head?
  let _ ← require "NewChildSAKeyByProposal : IntegrityAlgorithm is nil"
    proposal.integrityAlgorithm.head?
  let esn ← require "NewChildSAKeyByProposal : ExtendedSequenceNumbers is nil"
    proposal.extendedSequenceNumbers.head?
  let dhInfo ← decodeOnly "DiffieHellmanGroup" DHType.decodeTransform proposal.diffieHellmanGroup
  let encrKInfo ← require
    s!"NewChildSAKeyByProposal : Get unsupport EncryptionAlgorithm[{encr.transformID.toNat}]"
    (ENCRType.decodeTransform encr)
  let integKInfo ← decodeOnly "IntegrityAlgorithm" INTEGType.decodeTransform
    proposal.integrityAlgorithm
  let esnInfo ← (ESN.decodeTransform esn).wrapf "NewChildSAKeyByProposal"
  pure (ChildSAKey.ofInfo dhInfo (some encrKInfo) integKInfo esnInfo)

/-- the keys are appended to those of the child SA -/
def ChildSAKey.appendKeys (c : ChildSAKey) (lengthEncryptionKeyIPSec lengthIntegrityKeyIPSec : Nat)
    (keyStream : Bytes) : Outcome ChildSAKey := do
  let ie ← cutKey lengthEncryptionKeyIPSec (Slice.ofList keyStream)
  let ii ← cutKey lengthIntegrityKeyIPSec ie.2
  let re ← cutKey lengthEncryptionKeyIPSec ii.2
  let ri ← re.2.sliceTo lengthIntegrityKeyIPSec
  pure { c with
    initiatorToResponderEncryptionKey := c.initiatorToResponderEncryptionKey ++ ie.1
    initiatorToResponderIntegrityKey := c.initiatorToResponderIntegrityKey ++ ii.1
    responderToInitiatorEncryptionKey := c.responderToInitiatorEncryptionKey ++ re.1
    responderToInitiatorIntegrityKey := c.responderToInitiatorIntegrityKey ++ ri.data }

/-- no integrity key without an algorithm -/
def ChildSAKey.lengthIntegrityKey (c : ChildSAKey) : Nat :=
  match c.integKInfo with
  | some integKInfo => integKInfo.getKeyLength
  | none => 0

/-- the keys of a child SA; `Prf_d` of the IKE SA is used and changed -/
def ChildSAKey.generateKeys (C : Crypto) (c : ChildSAKey) (concatenatedNonce : Bytes) :
    Proc IKESAKey ChildSAKey := fun ikeSA =>
  match ikeSA.prfInfo, c.encrKInfo, ikeSA.prf_d with
  | none, _, _ => (fail "No pseudorandom function specified", ikeSA)
  | some _, none, _ => (fail "No encryption algorithm specified", ikeSA)
  | some _, some _, none => (fail "No key deriving key", ikeSA)
  | some _, some encrKInfo, some prf_d =>
    let lengthEncryptionKeyIPSec := encrKInfo.getKeyLength
    let lengthIntegrityKeyIPSec := c.lengthIntegrityKey
    let totalKeyLength := (lengthEncryptionKeyIPSec + lengthIntegrityKeyIPSec) * 2
    let r := prfPlus (Hash.methods C) concatenatedNonce totalKeyLength prf_d
    ((do
      let keyStream ← r.1
      if keyStream = [] then fail "Error happened in PrfPlus"
      else c.appendKeys lengthEncryptionKeyIPSec lengthIntegrityKeyIPSec keyStream),
      { ikeSA with prf_d := some r.2 })

/-- either object may be `nil`; the child SA key with its keys -/
def ChildSAKey.generateKeyForChildSA (C : Crypto) (childsaKey : Option ChildSAKey)
    (concatenatedNonce : Bytes) : Proc (Option IKESAKey) ChildSAKey := fun ikeSA =>
  match ikeSA, childsaKey with
  | none, _ => (fail "IKE SA is nil", none)
  | some k, none => (fail "Child SA is nil", some k)
  | some k, some c =>
    let r := c.generateKeys C concatenatedNonce k
    (r.1, some r.2)

/-! ## an exchange -/

/-- the shared key of the secrets 3 and `2 ^ 128` -/
def exchangeSharedKey : Bytes :=
  octets 128 0xdd12cea591b4fa00ba7fefc62d117c49b2b20059f33324f30a30bcd0862433edbce566106187b8656f47f63c6d06cc38712bc95c20761958af62ff052f16c2f46f570995017963372f7b360b13086cb67ec02313910f5bea2fca5202da2c221fd0b2e28151af2827e58e7ff9a7715b394a9b0ba45270ac3023c9b6f94cb45d8b

/-- the HMAC-SHA-1 values that the keys of an exchange with these secrets are made of, for the nonce
`4e694e72` and the SPIs 1 and 2 -/
def exchangeTable : List HmacEntry :=
  [(.sha1, octets 4 0x4e694e72,
    exchangeSharedKey,
    octets 20 0xea8caad65fe859f9983764409f0ac71e079b046a),
   (.sha1, octets 20 0xea8caad65fe859f9983764409f0ac71e079b046a,
    octets 21 0x4e694e720000000000000001000000000000000201,
    octets 20 0x6bc2c3433aa225c98ed157965e6545aa9ee70090),
   (.sha1, octets 20 0xea8caad65fe859f9983764409f0ac71e079b046a,
    octets 41 0x6bc2c3433aa225c98ed157965e6545aa9ee700904e694e720000000000000001000000000000000202,
    octets 20 0xfb5340c543ade551635ec30a3be1eec4cdc82723),
   (.sha1, octets 20 0xea8caad65fe859f9983764409f0ac71e079b046a,
    octets 41 0xfb5340c543ade551635ec30a3be1eec4cdc827234e694e720000000000000001000000000000000203,
    octets 20 0xb7339ab644e0b4efe184044f60d7bc97d5799b6c),
   (.sha1, octets 20 0xea8caad65fe859f9983764409f0ac71e079b046a,
    octets 41 0xb7339ab644e0b4efe184044f60d7bc97d5799b6c4e694e720000000000000001000000000000000204,
    octets 20 0xe7f870666ddac796fb3b2240fcc2a96828759df8),
   (.sha1, octets 20 0xea8caad65fe859f9983764409f0ac71e079b046a,
    octets 41 0xe7f870666ddac796fb3b2240fcc2a96828759df84e694e720000000000000001000000000000000205,
    octets 20 0x196bb3f72b877c66a4b9da5f1b084154f7b29dae),
   (.sha1, octets 20 0xea8caad65fe859f9983764409f0ac71e079b046a,
    octets 41 0x196bb3f72b877c66a4b9da5f1b084154f7b29dae4e694e720000000000000001000000000000000206,
    octets 20 0x82b8371556e0348323352a4e4e7a51d6d62835a2),
   (.sha1, octets 20 0xea8caad65fe859f9983764409f0ac71e079b046a,
    octets 41 0x82b8371556e0348323352a4e4e7a51d6d62835a24e694e720000000000000001000000000000000207,
    octets 20 0x39c14a260e3a4ab2b1c5f541e3d66ebdf99db7bb)]

end Ike
