import IKEv2.Exchange.SaInit
import IKEv2.Security.ChildSA

/-!
# Child SAs over a protected session

One end turns the algorithms of a child SA into a proposal, the other end makes an object of its own out
of it, and both derive the keys from the key object of the IKE SA, whatever was sealed, opened or derived
with that before.

* `ChildSAKey.toProposal_ok`      the proposal survives the codec;
* `childOffer_accepted_iff`       the other end accepts it iff it has an integrity algorithm;
* `childSa_agrees`                the two ends derive the same keys at any points of any run.
-/

set_option linter.unusedVariables false

namespace Ike
open GoLang

/-! ## the proposal of a child SA -/

/-- `message.TypeESP` -/
def typeESP : UInt8 := 3

namespace ChildSAKey

def toProposal (c : ChildSAKey) : Outcome Proposal := do
  let encrKTransform ←
    (deref c.encrKInfo >>= ENCRType.toTransformChildSA).wrapf "ChildSAKey ToProposal"
  pure { proposalNumber := 0, protocolID := typeESP, spi := []
         encryptionAlgorithm := [encrKTransform]
         pseudorandomFunction := []
         integrityAlgorithm := (c.integKInfo.map INTEGType.toTransformChildSA).toList
         diffieHellmanGroup := (c.dhInfo.map DHType.toTransform).toList
         extendedSequenceNumbers := [c.esnInfo.toTransform] }

/-- the proposal, with the transform of the encryption algorithm -/
theorem toProposal_ok {c : ChildSAKey} {encrKInfo : ENCRType} (he : c.encrKInfo = some encrKInfo) :
    ∃ x, ENCRType.decodeTransform x = some encrKInfo ∧ x.Of typeEncryptionAlgorithm ∧
      c.toProposal = .ok
        { proposalNumber := 0, protocolID := typeESP, spi := []
          encryptionAlgorithm := [x]
          pseudorandomFunction := []
          integrityAlgorithm := (c.integKInfo.map INTEGType.toTransformChildSA).toList
          diffieHellmanGroup := (c.dhInfo.map DHType.toTransform).toList
          extendedSequenceNumbers := [c.esnInfo.toTransform] } := by
  obtain ⟨x, _, hx, htype, hplain, hdec⟩ := encrKInfo.toTransform_ok
  refine ⟨x, hdec, ⟨htype, hplain⟩, ?_⟩
  unfold toProposal
  rw [he]
  simp only [deref, Outcome.ok_bind, hx, Outcome.wrapf_ok]
  rfl

/-- without an encryption algorithm the call panics -/
theorem toProposal_needs {c : ChildSAKey} {p : Proposal} (h : c.toProposal = .ok p) :
    ∃ encrKInfo, c.encrKInfo = some encrKInfo := by
  cases he : c.encrKInfo with
  | none =>
    unfold toProposal at h
    rw [he] at h
    exact absurd h (by simp [deref])
  | some encrKInfo => exact ⟨encrKInfo, rfl⟩

end ChildSAKey

theorem optional_of {α : Type} (f : α → Transform) {transformType : UInt8}
    (h : ∀ a, (f a).Of transformType) (o : Option α) : ∀ t ∈ (o.map f).toList, t.Of transformType := by
  intro t ht
  obtain ⟨a, _, rfl⟩ := Option.map_eq_some_iff.mp (Option.mem_toList.mp ht)
  exact h a

theorem length_optional {α : Type} (o : Option α) : o.toList.length ≤ 1 := by
  cases o with
  | none => exact Nat.zero_le 1
  | some a => exact Nat.le_refl 1

theorem ChildSAKey.toProposal_regular {c : ChildSAKey} {p : Proposal} (h : c.toProposal = .ok p) :
    p.Regular := by
  obtain ⟨encrKInfo, he⟩ := toProposal_needs h
  obtain ⟨x, _, hx, hp⟩ := toProposal_ok he
  obtain rfl := Outcome.ok.inj (hp.symm.trans h)
  refine Proposal.regular_of (show 0 < 248 by decide) (List.cons_ne_nil _ _) ?_ ?_
    (fun t ht => absurd ht List.not_mem_nil)
    (optional_of INTEGType.toTransformChildSA (fun a => ⟨rfl, noAttribute_plain _ _⟩) _)
    (optional_of DHType.toTransform (fun a => ⟨rfl, noAttribute_plain _ _⟩) _) (noAttribute_of _ _)
  · have h1 := length_optional (c.integKInfo.map INTEGType.toTransformChildSA)
    have h2 := length_optional (c.dhInfo.map DHType.toTransform)
    simp only [Proposal.transformList, List.length_append, List.length_cons, List.length_nil]
    omega
  · intro t ht
    rw [List.mem_singleton.mp ht]
    exact hx

/-- a transform that may be left out is decoded as the algorithm it stands for, or as none -/
theorem decodeOnly_optional {α : Type} (name : String) {decode : Transform → Option α}
    (f : α → Transform) (h : ∀ a, decode (f a) = some a) (o : Option α) :
    decodeOnly name decode (o.map f).toList = .ok o := by
  cases o with
  | none => rfl
  | some a =>
    show some <$> require _ (decode (f a)) = _
    rw [h]
    rfl

theorem newChildSAKeyByProposal_offered {c : ChildSAKey} {p : Proposal} (h : c.toProposal = .ok p)
    {integKInfo : INTEGType} (hi : c.integKInfo = some integKInfo) :
    newChildSAKeyByProposal (some p) =
      .ok (ChildSAKey.ofInfo c.dhInfo c.encrKInfo c.integKInfo c.esnInfo) := by
  obtain ⟨encrKInfo, he⟩ := ChildSAKey.toProposal_needs h
  obtain ⟨x, hx, _, hp⟩ := ChildSAKey.toProposal_ok he
  obtain rfl := Outcome.ok.inj (hp.symm.trans h)
  have hdh := decodeOnly_optional "DiffieHellmanGroup" DHType.toTransform DHType.decode_toTransform
    c.dhInfo
  have hinteg := decodeOnly_optional "IntegrityAlgorithm" INTEGType.toTransformChildSA
    INTEGType.decode_toTransform c.integKInfo
  rw [hi] at hinteg ⊢
  simp only [newChildSAKeyByProposal, require, Outcome.ok_bind, Option.map_some, Option.toList_some,
    List.head?_cons, hx, he, ESN.decode_toTransform, Outcome.wrapf_ok, hdh]
  exact congrArg (fun o : Outcome (Option INTEGType) => o >>= fun integKInfo =>
    pure (ChildSAKey.ofInfo c.dhInfo (some encrKInfo) integKInfo c.esnInfo)) hinteg

theorem newChildSAKeyByProposal_refused {c : ChildSAKey} {p : Proposal} (h : c.toProposal = .ok p)
    (hi : c.integKInfo = none) :
    newChildSAKeyByProposal (some p) =
      fail "NewChildSAKeyByProposal : IntegrityAlgorithm is nil" := by
  obtain ⟨encrKInfo, he⟩ := ChildSAKey.toProposal_needs h
  obtain ⟨x, _, _, hp⟩ := ChildSAKey.toProposal_ok he
  obtain rfl := Outcome.ok.inj (hp.symm.trans h)
  rw [hi]
  rfl

/-- what the other end has accepted -/
theorem newChildSAKeyByProposal_inv {c c' : ChildSAKey} {p : Proposal} (h : c.toProposal = .ok p)
    (h' : newChildSAKeyByProposal (some p) = .ok c') :
    c.integKInfo ≠ none ∧ c' = ChildSAKey.ofInfo c.dhInfo c.encrKInfo c.integKInfo c.esnInfo := by
  cases hi : c.integKInfo with
  | none =>
    rw [newChildSAKeyByProposal_refused h hi] at h'
    exact absurd h' (fail_ne_ok _ _)
  | some integKInfo =>
    rw [← hi]
    exact ⟨by simp [hi], Outcome.ok.inj (h'.symm.trans (newChildSAKeyByProposal_offered h hi))⟩

/-- **Which offers are accepted.**  The proposal of a child SA survives the codec.  The other end makes
an object with the same algorithms out of it; but without an integrity algorithm, which the child SA may
lack and `GenerateKeyForChildSA` does not ask for, it refuses the proposal. -/
theorem childOffer_accepted_iff {c : ChildSAKey} {p : Proposal} (h : c.toProposal = .ok p) :
    (IKEPayload.sa ⟨[p]⟩).Survives ∧
    ((∃ c', newChildSAKeyByProposal (some p) = .ok c') ↔ c.integKInfo ≠ none) ∧
    (∀ c', newChildSAKeyByProposal (some p) = .ok c' →
      c' = ChildSAKey.ofInfo c.dhInfo c.encrKInfo c.integKInfo c.esnInfo ∧ c'.toProposal = .ok p) ∧
    (c.integKInfo = none →
      newChildSAKeyByProposal (some p) = fail "NewChildSAKeyByProposal : IntegrityAlgorithm is nil") := by
  refine ⟨IKEPayload.survives_iff.mpr ?_, ⟨?_, ?_⟩, ?_, newChildSAKeyByProposal_refused h⟩
  · intro q hq
    rw [List.mem_singleton.mp hq]
    exact ChildSAKey.toProposal_regular h
  · intro ⟨c', hc'⟩
    exact (newChildSAKeyByProposal_inv h hc').1
  · intro hi
    obtain ⟨integKInfo, hi⟩ := Option.ne_none_iff_exists'.mp hi
    exact ⟨_, newChildSAKeyByProposal_offered h hi⟩
  · intro c' hc'
    obtain ⟨_, rfl⟩ := newChildSAKeyByProposal_inv h hc'
    exact ⟨rfl, h⟩

/-- an object with an integrity algorithm, and one without -/
theorem childOffer_without_integrity :
    (∃ p, childOfSha1.toProposal = .ok p ∧ newChildSAKeyByProposal (some p) = .ok childOfSha1) ∧
    ∃ p, (ChildSAKey.ofInfo none (some .encrAesCbc128) none ⟨false⟩).toProposal = .ok p ∧
      ¬ ∃ c', newChildSAKeyByProposal (some p) = .ok c' := by
  constructor
  · obtain ⟨x, _, _, hp⟩ := ChildSAKey.toProposal_ok (c := childOfSha1) rfl
    obtain ⟨_, hoffer, hsame, _⟩ := childOffer_accepted_iff hp
    obtain ⟨c', hc'⟩ := hoffer.mpr (by decide)
    obtain rfl : c' = childOfSha1 := (hsame c' hc').1
    exact ⟨_, hp, hc'⟩
  · obtain ⟨x, _, _, hp⟩ := ChildSAKey.toProposal_ok
      (c := ChildSAKey.ofInfo none (some .encrAesCbc128) none ⟨false⟩) rfl
    exact ⟨_, hp, fun h => (childOffer_accepted_iff hp).2.1.mp h rfl⟩

/-! ## the keys of both ends -/

/-- keys of known lengths are determined by their octets one after the other -/
theorem ChildSAKey.withKeys_unique {d d' : ChildSAKey} {e i : Nat} (h : d.octets = d'.octets)
    (hd : d.Sizes e i) (hd' : d'.Sizes e i) (c : ChildSAKey) : c.withKeys d = c.withKeys d' := by
  obtain ⟨h1, h⟩ := List.append_inj h (hd.ie.trans hd'.ie.symm)
  obtain ⟨h2, h⟩ := List.append_inj h (hd.ii.trans hd'.ii.symm)
  obtain ⟨h3, h4⟩ := List.append_inj h (hd.re.trans hd'.re.symm)
  simp only [ChildSAKey.withKeys, h1, h2, h3, h4]

/-- **Child keys**: at any points of any runs of a session, the end that has offered a child SA and the
end that has accepted it derive the same keys from the same nonces; the keys are KEYMAT. -/
theorem childSa_agrees {C : Crypto} (hC : C.Sized) {ki kr : IKESAKey} (hfresh : kr.fresh = ki.fresh)
    {prfInfo : PRFType} {prf_d : Hash} (hprf : ki.prfInfo = some prfInfo) (hd : ki.prf_d = some prf_d)
    {c c' : ChildSAKey} (hc : c.Fresh) {p : Proposal} (h : c.toProposal = .ok p)
    (h' : newChildSAKeyByProposal (some p) = .ok c') (nonce : Bytes) (events events' : List Event)
    (role role' : Role) :
    ∃ encrKInfo x, c.encrKInfo = some encrKInfo ∧
      (ChildSAKey.generateKeyForChildSA C (some c) nonce
        (some ((run (Session.step C) (Session.start ki kr) events).key role))).1 = .ok x ∧
      (ChildSAKey.generateKeyForChildSA C (some c') nonce
        (some ((run (Session.step C) (Session.start ki kr) events').key role'))).1 =
          .ok { x with spi := 0 } ∧
      x.octets = c.keymat C encrKInfo prf_d nonce ∧
      x.Sizes encrKInfo.getKeyLength c.lengthIntegrityKey := by
  obtain ⟨encrKInfo, he⟩ := ChildSAKey.toProposal_needs h
  obtain ⟨_, rfl⟩ := newChildSAKeyByProposal_inv h h'
  obtain ⟨d, _, hgen, _, hoct, hsizes⟩ := ChildSAKey.generateKeys_ok hC he hprf hd nonce
  obtain ⟨d', _, hgen', _, hoct', hsizes'⟩ := ChildSAKey.generateKeys_ok hC
    (c := ChildSAKey.ofInfo c.dhInfo c.encrKInfo c.integKInfo c.esnInfo) he hprf hd nonce
  refine ⟨encrKInfo, c.withKeys d, he, ?_, ?_, (hc.octets_withKeys d).trans hoct,
    (ChildSAKey.withKeys_sizes hsizes).mpr hc⟩
  · rw [(generateKeyForChildSA_alike C ((Session.sound_run hfresh events).keys role) (some c) nonce).1]
    exact congrArg Prod.fst hgen
  · rw [(generateKeyForChildSA_alike C ((Session.sound_run hfresh events').keys role') _ nonce).1]
    refine (congrArg Prod.fst hgen').trans (congrArg Outcome.ok ?_)
    rw [ChildSAKey.withKeys_unique (hoct'.trans hoct.symm) hsizes' hsizes]
    simp only [ChildSAKey.withKeys, ChildSAKey.ofInfo, hc.ie, hc.ii, hc.re, hc.ri]

/-- the initiator after it has derived keys for another child SA, and the responder at the start -/
theorem childSa_agrees_sha1 :
    ∃ p c' x, childOfSha1.toProposal = .ok p ∧ newChildSAKeyByProposal (some p) = .ok c' ∧
      (ChildSAKey.generateKeyForChildSA childCrypto (some childOfSha1) [1, 2]
        (some ((run (Session.step childCrypto) (Session.start parentOfSha1 parentOfSha1)
          [.child .initiator childOfSha1 [9]]).key .initiator))).1 = .ok x ∧
      (ChildSAKey.generateKeyForChildSA childCrypto (some c') [1, 2]
        (some ((run (Session.step childCrypto) (Session.start parentOfSha1 parentOfSha1) []).key
          .responder))).1 = .ok { x with spi := 0 } := by
  obtain ⟨t, _, _, hp⟩ := ChildSAKey.toProposal_ok (c := childOfSha1) rfl
  have hc' := newChildSAKeyByProposal_offered hp (c := childOfSha1) rfl
  obtain ⟨_, x, _, hx, hx', _⟩ := childSa_agrees childCrypto_sized
    (show parentOfSha1.fresh = parentOfSha1.fresh from rfl) rfl rfl
    (show childOfSha1.Fresh from ⟨rfl, rfl, rfl, rfl⟩) hp hc' [1, 2]
    [.child .initiator childOfSha1 [9]] [] .initiator .responder
  exact ⟨_, _, x, hp, hc', hx, hx'⟩

end Ike
