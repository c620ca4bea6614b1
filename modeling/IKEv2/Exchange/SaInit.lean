import IKEv2.Message.Survival
import IKEv2.Protect.Session
import IKEv2.Security.Registry

/-!
# From the algorithms of one end to the keys of both

The initiator turns its algorithms into a proposal (`ToProposal`) and sends it with its public value and
its nonce.  The responder hands what it has read to `NewIKESAKey` and answers with its own public value
and nonce; the initiator computes the shared key and calls `GenerateKeyForIKESA`.

* `IKESAKey.toProposal_ok`    the proposal survives the codec, and offers the algorithms;
* `IKESAKey.toProposal_nil`   without one of the algorithms the call panics;
* `newIKESAKey_initiator`     the two calls end with the same key object;
* `saInit_agrees`             the exchange over the wire succeeds, with one key object at both ends;
* `exchange_protects`         the messages that are protected with it form an authentic channel.
-/

set_option linter.unusedVariables false

namespace Ike
open GoLang

/-! ## the proposal of a key object -/

/-- `message.TypeIKE` -/
def typeIKE : UInt8 := 1

def IKESAKey.toProposal (k : IKESAKey) : Outcome Proposal := do
  let dhInfo ← deref k.dhInfo
  let prfInfo ← deref k.prfInfo
  let encrTransform ← (deref k.encrInfo >>= ENCRType.toTransform).wrapf "IKESAKey ToProposal"
  let integInfo ← deref k.integInfo
  pure { proposalNumber := 0, protocolID := typeIKE, spi := []
         encryptionAlgorithm := [encrTransform]
         pseudorandomFunction := [prfInfo.toTransform]
         integrityAlgorithm := [integInfo.toTransform]
         diffieHellmanGroup := [dhInfo.toTransform]
         extendedSequenceNumbers := [] }

/-- it reads the algorithms only -/
theorem IKESAKey.toProposal_congr {k k' : IKESAKey} (hd : k'.dhInfo = k.dhInfo)
    (he : k'.encrInfo = k.encrInfo) (hi : k'.integInfo = k.integInfo) (hp : k'.prfInfo = k.prfInfo) :
    k'.toProposal = k.toProposal := by
  unfold IKESAKey.toProposal
  rw [hd, he, hi, hp]

/-- an algorithm that is not there is called nevertheless -/
theorem IKESAKey.toProposal_nil {k : IKESAKey}
    (h : k.dhInfo = none ∨ k.prfInfo = none ∨ k.encrInfo = none ∨ k.integInfo = none) :
    k.toProposal = .panic .nilDereference := by
  unfold IKESAKey.toProposal
  cases hd : k.dhInfo with
  | none => rfl
  | some dhInfo =>
    cases hp : k.prfInfo with
    | none => rfl
    | some prfInfo =>
      cases he : k.encrInfo with
      | none => rfl
      | some encrInfo =>
        obtain ⟨x, hx, _⟩ := encrInfo.toTransform_ok
        cases hi : k.integInfo with
        | none =>
          simp only [deref, Outcome.ok_bind, hx, Outcome.wrapf_ok]
          rfl
        | some integInfo =>
          rw [hd, hp, he, hi] at h
          exact absurd h (by simp)

/-- a transform in the list of its type -/
def Transform.Of (transformType : UInt8) (t : Transform) : Prop :=
  t.transformType = transformType ∧ t.Plain

theorem Proposal.regular_of {p : Proposal} (hspi : p.spi.length < 248) (hne : p.transformList ≠ [])
    (hfew : p.transformList.length ≤ 255)
    (hencr : ∀ t ∈ p.encryptionAlgorithm, t.Of typeEncryptionAlgorithm)
    (hprf : ∀ t ∈ p.pseudorandomFunction, t.Of typePseudorandomFunction)
    (hinteg : ∀ t ∈ p.integrityAlgorithm, t.Of typeIntegrityAlgorithm)
    (hdh : ∀ t ∈ p.diffieHellmanGroup, t.Of typeDiffieHellmanGroup)
    (hesn : ∀ t ∈ p.extendedSequenceNumbers, t.Of typeExtendedSequenceNumbers) : p.Regular where
  spi := hspi
  nonempty := hne
  few := hfew
  plain t ht := by
    simp only [Proposal.transformList, List.mem_append] at ht
    rcases ht with (((h | h) | h) | h) | h
    · exact (hencr t h).2
    · exact (hprf t h).2
    · exact (hinteg t h).2
    · exact (hdh t h).2
    · exact (hesn t h).2
  grouped := ⟨fun t h => (hencr t h).1, fun t h => (hprf t h).1, fun t h => (hinteg t h).1,
    fun t h => (hdh t h).1, fun t h => (hesn t h).1⟩

theorem noAttribute_of (transformType : UInt8) (transformID : UInt16) :
    ∀ t ∈ [makeTransform transformType transformID noAttribute], t.Of transformType := by
  intro t ht
  rw [List.mem_singleton.mp ht]
  exact ⟨rfl, noAttribute_plain transformType transformID⟩

section
variable (dhInfo : DHType) (encrInfo : ENCRType) (integInfo : INTEGType) (prfInfo : PRFType)

/-- **The proposal of a key object** survives the codec, and the look-ups of the other end find the
algorithms of the key object in it. -/
theorem IKESAKey.toProposal_ok :
    ∃ p, (IKESAKey.ofInfo (some dhInfo) (some encrInfo) (some integInfo) (some prfInfo)).toProposal =
        .ok p ∧ p.Regular ∧ p.Offers dhInfo encrInfo (some integInfo) prfInfo := by
  obtain ⟨x, hx, _, htype, hplain, hdec⟩ := encrInfo.toTransform_ok
  refine ⟨{ proposalNumber := 0, protocolID := typeIKE, spi := []
            encryptionAlgorithm := [x]
            pseudorandomFunction := [prfInfo.toTransform]
            integrityAlgorithm := [integInfo.toTransform]
            diffieHellmanGroup := [dhInfo.toTransform]
            extendedSequenceNumbers := [] }, ?_, ?_, ?_⟩
  · simp only [IKESAKey.toProposal, IKESAKey.ofInfo, deref, Outcome.ok_bind, hx, Outcome.wrapf_ok]
    rfl
  · refine Proposal.regular_of (show 0 < 248 by decide) (List.cons_ne_nil _ _)
      (show 4 ≤ 255 by decide) ?_ (noAttribute_of _ _) (noAttribute_of _ _) (noAttribute_of _ _)
      (fun t ht => absurd ht List.not_mem_nil)
    intro t ht
    rw [List.mem_singleton.mp ht]
    exact ⟨htype, hplain⟩
  · exact ⟨⟨_, rfl, dhInfo.decode_toTransform⟩, ⟨_, rfl, hdec⟩, ⟨_, rfl, integInfo.decode_toTransform⟩,
      ⟨_, rfl, prfInfo.decode_toTransform⟩⟩

end

/-! ## the keys of the two ends -/

theorem MadeOf.exists {make : Bytes → Option Hash} {key : Bytes} {o : Option Hash}
    (h : MadeOf make key o) : ∃ x, o = some x := by
  obtain ⟨x, hx, _⟩ := h
  exact ⟨x, hx⟩

/-- a cipher that was made of a key has no vector and no padding of its own -/
theorem CipherOf.plain {t : ENCRType} {key : Bytes} {o : Option EncrAesCbcCrypto}
    (h : CipherOf t key o) : ∃ e, o = some e ∧ e.iv = none ∧ e.padding = none := by
  obtain ⟨e, he, hnew, _⟩ := h
  unfold ENCRType.newCrypto at hnew
  split at hnew
  · exact absurd hnew (fail_ne_ok _ _)
  · obtain ⟨block, _, hblock⟩ := Outcome.bind_eq_ok.mp hnew
    obtain rfl : _ = e := Outcome.ok.inj hblock
    exact ⟨_, he, rfl, rfl⟩

theorem IKESAKey.Keyed.populated {k : IKESAKey} {encrInfo : ENCRType} {integInfo : INTEGType}
    {prfInfo : PRFType} (h : k.Keyed encrInfo integInfo prfInfo) (he : k.encrInfo = some encrInfo)
    (hi : k.integInfo = some integInfo) : k.Populated where
  integInfo := ⟨integInfo, hi⟩
  encrInfo := ⟨encrInfo, he⟩
  integ role := by
    cases role with
    | initiator => exact h.integ_i.exists
    | responder => exact h.integ_r.exists
  encr role := by
    cases role with
    | initiator => exact h.encr_i.plain
    | responder => exact h.encr_r.plain

section
variable {C : Crypto} {draws : List Nat} {p : Proposal} {dhInfo : DHType} {encrInfo : ENCRType}
  {integInfo : INTEGType} {prfInfo : PRFType}

/-- what the responder has done when it succeeds on a proposal with these algorithms -/
theorem Proposal.Offers.newIKESAKey_ok (h : p.Offers dhInfo encrInfo (some integInfo) prfInfo)
    {A nonce B : Bytes} {i r : UInt64} {k : IKESAKey}
    (hr : newIKESAKey C draws (some p) A nonce i r = .ok (k, B)) :
    ∃ b shared, generateRandomNumber draws = .ok b ∧ dhInfo.getPublicValue b = .ok B ∧
      dhInfo.getSharedKey b (octNat A) = .ok shared ∧
      IKESAKey.generateKeyForIKESA C nonce shared i r
        (IKESAKey.ofInfo (some dhInfo) (some encrInfo) (some integInfo) (some prfInfo)) =
          (.ok (), k) := by
  rw [h.newIKESAKey_eq] at hr
  obtain ⟨m, hm, hr⟩ := Outcome.bind_eq_ok.mp hr
  obtain ⟨_, hg, hr⟩ := Outcome.bind_eq_ok.mp hr
  obtain ⟨hk, hB⟩ := Prod.mk.inj (Outcome.ok.inj hr)
  obtain ⟨b, hb, hm⟩ := Outcome.bind_eq_ok.mp (Outcome.wrapf_eq_ok.mp hm)
  obtain ⟨shared, hsh, hm⟩ := Outcome.bind_eq_ok.mp hm
  obtain ⟨pub, hpub, hm⟩ := Outcome.bind_eq_ok.mp hm
  obtain rfl : (pub, shared) = m := Outcome.ok.inj hm
  exact ⟨b, shared, Outcome.wrapf_eq_ok.mp hb, hpub.trans (congrArg _ hB), Outcome.wrapf_eq_ok.mp hsh,
    Prod.ext (Outcome.wrapf_eq_ok.mp hg) hk⟩

/-- **The two calls end with the same key object**: that of `NewIKESAKey` at the responder, and that of
`GenerateKeyForIKESA` at the initiator, each with the public value of the other. -/
theorem newIKESAKey_initiator (h : p.Offers dhInfo encrInfo (some integInfo) prfInfo) {a : Nat}
    {A nonce B shared : Bytes} (hA : dhInfo.getPublicValue a = .ok A) {i r : UInt64}
    {ki kr : IKESAKey} (hr : newIKESAKey C draws (some p) A nonce i r = .ok (kr, B))
    (hs : dhInfo.getSharedKey a (octNat B) = .ok shared)
    (hi : IKESAKey.generateKeyForIKESA C nonce shared i r
      (IKESAKey.ofInfo (some dhInfo) (some encrInfo) (some integInfo) (some prfInfo)) = (.ok (), ki)) :
    kr = ki := by
  obtain ⟨b, shared', _, hB, hs', hg⟩ := h.newIKESAKey_ok hr
  obtain rfl : shared = shared' := DHType.sharedKey_eq hA hB hs hs'
  exact (Prod.mk.inj (hg.symm.trans hi)).2

/-- the object of a call that ends well -/
theorem generateKeyForIKESA_populated (hC : C.Sized) {nonce shared : Bytes} {i r : UInt64}
    {k : IKESAKey} (h : IKESAKey.generateKeyForIKESA C nonce shared i r
      (IKESAKey.ofInfo (some dhInfo) (some encrInfo) (some integInfo) (some prfInfo)) = (.ok (), k)) :
    k.Populated := by
  obtain ⟨_, _, _, _, _, _, _, _, _, _, _, hn, hs, _⟩ := generateKeyForIKESA_iff.mp h
  obtain ⟨k', hk', _, _, hkeyed, _, he, hi, _⟩ := generateKeyForIKESA_ok hC
    (k := IKESAKey.ofInfo (some dhInfo) (some encrInfo) (some integInfo) (some prfInfo)) rfl rfl rfl rfl
    hn hs i r
  obtain rfl : k' = k := (Prod.mk.inj (hk'.symm.trans h)).2
  exact hkeyed.populated he hi

end

/-! ## the messages -/

/-- the payloads of an IKE_SA_INIT message, and what the caller adds -/
def saInitPayloads (p : Proposal) (dhInfo : DHType) (publicValue nonce : Bytes)
    (more : IKEPayloadContainer) : IKEPayloadContainer :=
  .sa ⟨[p]⟩ :: .ke ⟨dhInfo.transformID, publicValue⟩ :: .nonce ⟨nonce⟩ :: more

/-- payloads that may be added: notifications, vendor IDs, .. -/
structure Addable (more : IKEPayloadContainer) : Prop where
  payloads : ∀ q ∈ more, q.Regular ∧ q.size ≤ 65531
  noSK : ∀ q ∈ more, q.type ≠ .SK
  size : IKEPayloadContainer.size more ≤ 4294000000

/-- a public value in the range of the group gives a shared key -/
theorem DHType.getSharedKey_inRange {t : DHType} {v : Nat} (h : t.InRange v) (secret : Nat) :
    ∃ shared, t.getSharedKey secret v = .ok shared ∧ shared ≠ [] := by
  obtain ⟨shared, hshared, hne⟩ := t.prependZero_power v secret
  obtain ⟨h1, h2⟩ := h
  refine ⟨shared, ?_, hne⟩
  rw [DHType.getSharedKey, if_neg (by omega), hshared]

theorem DHType.factorBytesLength_le (t : DHType) : t.factorBytesLength ≤ 256 := by
  cases t <;> decide +kernel

theorem DHType.length_getPublicValue {t : DHType} {s : Nat} {v : Bytes}
    (h : t.getPublicValue s = .ok v) : 0 < v.length ∧ v.length ≤ 256 := by
  have hlen := (DHType.length_of_prependZero h).1
  have hpos := t.factorBytesLength_pos
  have hle := t.factorBytesLength_le
  omega

theorem saInit_regular {p : Proposal} (hp : p.Regular) {dhInfo : DHType} {s : Nat}
    {publicValue nonce : Bytes} (hv : dhInfo.getPublicValue s = .ok publicValue)
    (hn : nonce.length ≤ 65531) {more : IKEPayloadContainer} (hmore : Addable more) (i r : UInt64)
    (response initiator : Bool) :
    (newMessage i r 34 response initiator 0
      (saInitPayloads p dhInfo publicValue nonce more)).Regular := by
  obtain ⟨hv0, hv1⟩ := DHType.length_getPublicValue hv
  have hsize := hp.size_lt
  have hsa : (IKEPayload.sa ⟨[p]⟩).size = p.size := Nat.add_zero _
  refine ⟨show (2 : UInt8) < 16 by decide, show (0 : UInt8) < 16 by decide, ?_, ?_, ?_⟩
  · refine List.forall_mem_cons.mpr ⟨⟨?_, by omega⟩, List.forall_mem_cons.mpr ⟨⟨?_, ?_⟩,
      List.forall_mem_cons.mpr ⟨⟨trivial, hn⟩, hmore.payloads⟩⟩⟩
    · intro q hq
      rw [List.mem_singleton.mp hq]
      exact hp
    · exact List.length_pos_iff.mp hv0
    · show 4 + publicValue.length ≤ 65531
      omega
  · refine IKEPayloadContainer.linked_of_last fun q hq => ?_
    rcases List.mem_cons.mp (List.mem_of_mem_dropLast hq) with rfl | hq
    · simp [IKEPayload.type]
    rcases List.mem_cons.mp hq with rfl | hq
    · simp [IKEPayload.type]
    rcases List.mem_cons.mp hq with rfl | hq
    · simp [IKEPayload.type]
    · exact hmore.noSK q hq
  · have hm := hmore.size
    show 28 + ((4 + (IKEPayload.sa ⟨[p]⟩).size) + ((4 + (4 + publicValue.length)) +
      ((4 + nonce.length) + IKEPayloadContainer.size more))) ≤ 4294967295
    omega

/-! ## the exchange -/

section
variable {C : Crypto} {dhInfo : DHType} {encrInfo : ENCRType} {integInfo : INTEGType}
  {prfInfo : PRFType}

/-- both calls succeed on public values in the range of the group -/
theorem Proposal.Offers.exchange (hC : C.Sized) {p : Proposal}
    (hoff : p.Offers dhInfo encrInfo (some integInfo) prfInfo) {a b : Nat} {draws : List Nat}
    (hdraws : generateRandomNumber draws = .ok b) {A B : Bytes}
    (hA : dhInfo.getPublicValue a = .ok A) (hB : dhInfo.getPublicValue b = .ok B)
    (hrangeA : dhInfo.InRange (octNat A)) (hrangeB : dhInfo.InRange (octNat B)) {nonce : Bytes}
    (hn : nonce ≠ []) (i r : UInt64) :
    ∃ shared k, newIKESAKey C draws (some p) A nonce i r = .ok (k, B) ∧
      (k.dhInfo = some dhInfo ∧ k.encrInfo = some encrInfo ∧ k.integInfo = some integInfo ∧
        k.prfInfo = some prfInfo) ∧
      dhInfo.getSharedKey a (octNat B) = .ok shared ∧
      IKESAKey.generateKeyForIKESA C nonce shared i r
        (IKESAKey.ofInfo (some dhInfo) (some encrInfo) (some integInfo) (some prfInfo)) =
          (.ok (), k) := by
  obtain ⟨k, B', hk, hinfo⟩ := newIKESAKey_offered (i := i) (r := r) hC hdraws hoff hrangeA hn
  obtain ⟨b', _, hb', hB', _, hg⟩ := hoff.newIKESAKey_ok hk
  obtain rfl : b = b' := Outcome.ok.inj (hdraws.symm.trans hb')
  obtain rfl : B = B' := Outcome.ok.inj (hB.symm.trans hB')
  -- the initiator finds the shared key, and then the key object of the responder
  obtain ⟨shared, hs, hs0⟩ := DHType.getSharedKey_inRange hrangeB a
  obtain ⟨ki, hki, _⟩ := generateKeyForIKESA_ok hC
    (k := IKESAKey.ofInfo (some dhInfo) (some encrInfo) (some integInfo) (some prfInfo)) rfl rfl rfl rfl
    hn hs0 i r
  obtain rfl : k = ki := newIKESAKey_initiator hoff hA hk hs hki
  exact ⟨shared, k, hk, hinfo, hs, hki⟩

/-- **The exchange succeeds**, if the public values of both ends are in the range of the group: the
responder reads the proposal, public value and nonce that were sent and gets a key object out of them,
the initiator reads the answer and gets the same key object, all objects in it are there, and its own
proposal is the one that was offered. -/
theorem saInit_agrees (hC : C.Sized) (dhInfo : DHType) (encrInfo : ENCRType) (integInfo : INTEGType)
    (prfInfo : PRFType) {a b : Nat} {draws : List Nat} (hdraws : generateRandomNumber draws = .ok b)
    {A B : Bytes} (hA : dhInfo.getPublicValue a = .ok A) (hB : dhInfo.getPublicValue b = .ok B)
    (hrangeA : dhInfo.InRange (octNat A)) (hrangeB : dhInfo.InRange (octNat B)) {ni nr : Bytes}
    (hni : ni.length ≤ 65531) (hnr : nr.length ≤ 65531) (hn : ni ++ nr ≠ [])
    {more more' : IKEPayloadContainer} (hmore : Addable more) (hmore' : Addable more') (i r : UInt64) :
    ∃ p request response shared k,
      (IKESAKey.ofInfo (some dhInfo) (some encrInfo) (some integInfo) (some prfInfo)).toProposal =
        .ok p ∧
      (IKEMessage.encode (newMessage i 0 34 false true 0 (saInitPayloads p dhInfo A ni more))).1 =
        .ok request ∧
      (∀ sp, ∃ h, IKEMessage.decode [] ⟨request, sp⟩ =
        .ok ⟨h, saInitPayloads p dhInfo A ni more⟩ ∧ h.initiatorSPI = i) ∧
      newIKESAKey C draws (some p) A (ni ++ nr) i r = .ok (k, B) ∧ k.toProposal = .ok p ∧
      (IKEMessage.encode (newMessage i r 34 true false 0 (saInitPayloads p dhInfo B nr more'))).1 =
        .ok response ∧
      (∀ sp, ∃ h, IKEMessage.decode [] ⟨response, sp⟩ =
        .ok ⟨h, saInitPayloads p dhInfo B nr more'⟩ ∧ h.initiatorSPI = i ∧ h.responderSPI = r) ∧
      dhInfo.getSharedKey a (octNat B) = .ok shared ∧
      IKESAKey.generateKeyForIKESA C (ni ++ nr) shared i r
        (IKESAKey.ofInfo (some dhInfo) (some encrInfo) (some integInfo) (some prfInfo)) = (.ok (), k) ∧
      k.Populated := by
  obtain ⟨p, hp, hreg, hoff⟩ := IKESAKey.toProposal_ok dhInfo encrInfo integInfo prfInfo
  obtain ⟨request, hreq, _, hreqd⟩ := (saInit_regular hreg hA hni hmore i 0 false true).roundTrip
  obtain ⟨response, hres, _, hresd⟩ := (saInit_regular hreg hB hnr hmore' i r true false).roundTrip
  obtain ⟨shared, k, hk, ⟨hd, he, hi, hpr⟩, hs, hki⟩ :=
    hoff.exchange hC hdraws hA hB hrangeA hrangeB hn i r
  refine ⟨p, request, response, shared, k, hp, hreq, fun sp => ⟨_, hreqd sp, rfl⟩, hk, ?_, hres,
    fun sp => ⟨_, hresd sp, rfl, rfl⟩, hs, hki, generateKeyForIKESA_populated hC hki⟩
  exact (IKESAKey.toProposal_congr (k := IKESAKey.ofInfo _ _ _ _) hd he hi hpr).trans hp

theorem exchange_publicValues :
    DHType.getPublicValue .dh1024BitModp 3 = .ok (octets 128 8) ∧
      DHType.getPublicValue .dh1024BitModp (2 ^ 128) = .ok exchangePublicValue :=
  ⟨by decide +kernel, by decide +kernel⟩

theorem exchange_inRange :
    DHType.dh1024BitModp.InRange (octNat (octets 128 8)) ∧
      DHType.dh1024BitModp.InRange (octNat exchangePublicValue) :=
  ⟨⟨by decide +kernel, by decide +kernel⟩, by decide +kernel, by decide +kernel⟩

theorem exchange_draws : generateRandomNumber [2 ^ 128] = .ok (2 ^ 128) := by decide +kernel

/-- the key object that comes out of the exchange -/
theorem exchange_key {shared : Bytes} {k : IKESAKey}
    (hs : DHType.getSharedKey .dh1024BitModp 3 (octNat exchangePublicValue) = .ok shared)
    (hk : IKESAKey.generateKeyForIKESA exchangeCrypto (octets 4 0x4e694e72) shared 1 2
      (IKESAKey.ofInfo (some .dh1024BitModp) (some .encrAesCbc128) (some .authHmacSha1_96)
        (some .prfHmacSha1)) = (.ok (), k)) : k = exchangeKey := by
  rw [exchange_sharedKey, Outcome.ok.injEq] at hs
  rw [← hs, exchangeKey_eq, Prod.mk.injEq] at hk
  exact hk.2.symm

/-- group 2, AES-CBC-128, HMAC-SHA-1-96 and HMAC-SHA-1, with the secrets 3 and `2 ^ 128` -/
theorem saInit_agrees_exchange :
    ∃ p request, (IKESAKey.ofInfo (some .dh1024BitModp) (some .encrAesCbc128) (some .authHmacSha1_96)
        (some .prfHmacSha1)).toProposal = .ok p ∧
      (IKEMessage.encode (newMessage 1 0 34 false true 0
        (saInitPayloads p .dh1024BitModp (octets 128 8) (octets 2 0x4e69) []))).1 = .ok request ∧
      newIKESAKey exchangeCrypto [2 ^ 128] (some p) (octets 128 8) (octets 4 0x4e694e72) 1 2 =
        .ok (exchangeKey, exchangePublicValue) ∧ exchangeKey.Populated := by
  have hnone : Addable [] :=
    ⟨fun q hq => absurd hq List.not_mem_nil, fun q hq => absurd hq List.not_mem_nil, by decide⟩
  have hnonce : octets 2 0x4e69 ++ octets 2 0x4e72 = octets 4 0x4e694e72 := by decide
  have hn : octets 2 0x4e69 ++ octets 2 0x4e72 ≠ [] := by decide
  obtain ⟨p, request, _, shared, k, hp, hreq, _, hk, _, _, _, hs, hki, hpop⟩ :=
    saInit_agrees exchangeCrypto_lawful.hmac_length .dh1024BitModp .encrAesCbc128 .authHmacSha1_96
      .prfHmacSha1 exchange_draws exchange_publicValues.1 exchange_publicValues.2 exchange_inRange.1
      exchange_inRange.2 (by decide) (by decide) hn hnone hnone 1 2
  rw [hnonce] at hk hki
  obtain rfl := exchange_key hs hki
  exact ⟨p, request, hp, hreq, hk, hpop⟩

/-- **From the algorithms to a channel**: whenever both calls succeed, each with the proposal and the
public value of the other, the two ends hold the same keys, and the messages under a checksum that they
exchange from then on (`Session.step`), in any order and with any losses, repetitions and insertions on
the way, are those of an authentic channel, as long as the ends send what the codec gives back and nobody
forges a checksum. -/
theorem exchange_protects (hC : C.Lawful) {p : Proposal}
    (hp : (IKESAKey.ofInfo (some dhInfo) (some encrInfo) (some integInfo) (some prfInfo)).toProposal =
      .ok p) {draws : List Nat} {a : Nat} {A B nonce shared : Bytes} {i r : UInt64} {ki kr : IKESAKey}
    (hA : dhInfo.getPublicValue a = .ok A)
    (hr : newIKESAKey C draws (some p) A nonce i r = .ok (kr, B))
    (hs : dhInfo.getSharedKey a (octNat B) = .ok shared)
    (hi : IKESAKey.generateKeyForIKESA C nonce shared i r
      (IKESAKey.ofInfo (some dhInfo) (some encrInfo) (some integInfo) (some prfInfo)) = (.ok (), ki))
    {events : List Event}
    (h : Along (Session.step C) (Session.Honest C ki) (Session.start ki kr) events) :
    kr = ki ∧ ki.Populated ∧
      Channel.Reaches Role.not ⟨[], []⟩
        (run (Session.step C) (Session.start ki kr) events).channel := by
  obtain ⟨p', hp', _, hoff⟩ := IKESAKey.toProposal_ok dhInfo encrInfo integInfo prfInfo
  obtain rfl : p' = p := Outcome.ok.inj (hp'.symm.trans hp)
  obtain rfl : kr = ki := newIKESAKey_initiator hoff hA hr hs hi
  have hk := generateKeyForIKESA_populated hC.hmac_length hi
  exact ⟨rfl, hk, (refines (Session.step C) Session.channel Session.faithful_step
    (Session.channel_step hC hk)
    ⟨Session.sound_start rfl, fun x hx => absurd hx List.not_mem_nil⟩ h).2⟩

theorem exchange_sent :
    (run (Session.step exchangeCrypto) (Session.start exchangeKey exchangeKey) [sendNonce]).sent =
      [{ sentNonce with octets := exchangeOctets }] := by
  have h : (encodeEncrypt exchangeCrypto (octets 20 0xaabbccdd101112131415161718191a1b1c1d1e1f)
      (some sentNonce.message) (some exchangeKey) .initiator).1 = .ok exchangeOctets := by
    decide +kernel
  show (Option.map (Sent.mk .initiator sentNonce.message) (encodeEncrypt exchangeCrypto _
    (some sentNonce.message) (some exchangeKey) .initiator).1.value).toList ++ [] = _
  rw [h]
  rfl

/-- the exchange above, and a nonce that the initiator sends then and the responder gets -/
theorem exchange_protects_nonce :
    ∃ p, newIKESAKey exchangeCrypto [2 ^ 128] (some p) (octets 128 8) (octets 4 0x4e694e72) 1 2 =
        .ok (exchangeKey, exchangePublicValue) ∧
      Channel.Reaches Role.not ⟨[], []⟩
        (run (Session.step exchangeCrypto) (Session.start exchangeKey exchangeKey)
          [sendNonce, .receive .responder ⟨exchangeOctets, []⟩]).channel := by
  obtain ⟨p, hp, _, hoff⟩ :=
    IKESAKey.toProposal_ok .dh1024BitModp .encrAesCbc128 .authHmacSha1_96 .prfHmacSha1
  have hn : octets 4 0x4e694e72 ≠ [] := by decide
  obtain ⟨shared, k, hk, _, hs, hki⟩ := hoff.exchange exchangeCrypto_lawful.hmac_length exchange_draws
    exchange_publicValues.1 exchange_publicValues.2 exchange_inRange.1 exchange_inRange.2 hn 1 2
  obtain rfl := exchange_key hs hki
  have hgenuine : ¬ Session.Forged exchangeCrypto exchangeKey
      (run (Session.step exchangeCrypto) (Session.start exchangeKey exchangeKey) [sendNonce]) .responder
      ⟨exchangeOctets, []⟩ := by
    intro h
    exact h.1 _ (by rw [exchange_sent]; exact List.mem_singleton.mpr rfl) rfl rfl
  have hrun : Along (Session.step exchangeCrypto) (Session.Honest exchangeCrypto exchangeKey)
      (Session.start exchangeKey exchangeKey) [sendNonce, .receive .responder ⟨exchangeOctets, []⟩] :=
    ⟨sentNonce_sealable, hgenuine, trivial⟩
  exact ⟨p, hk,
    (exchange_protects exchangeCrypto_lawful hp exchange_publicValues.1 hk hs hki hrun).2.2⟩

end

end Ike
