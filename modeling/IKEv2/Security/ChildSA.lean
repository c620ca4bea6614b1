import IKEv2.Security.IkeKeys

/-!
# The keys of a child SA

The keys are cut out of `prf+(SK_d, nonce)` and put behind what the object already has, so they are
right for an object without keys only.  `NewChildSAKeyByProposal` takes the first encryption algorithm,
but passes over a list of two integrity algorithms or of two groups.

* `generateKeys_ok`            what every call appends;
* `childKeys_exact_iff`        when the keys are the stream, and what a second call does;
* `childProposal_honours_iff`  when an accepted proposal is honoured.
-/

set_option linter.unusedVariables false

namespace Ike
open GoLang

namespace ChildSAKey

/-- the four keys in the order of the stream -/
def octets (c : ChildSAKey) : Bytes :=
  c.initiatorToResponderEncryptionKey ++ (c.initiatorToResponderIntegrityKey ++
    (c.responderToInitiatorEncryptionKey ++ c.responderToInitiatorIntegrityKey))

/-- the lengths of the keys, for encryption keys of `e` and integrity keys of `i` octets -/
structure Sizes (c : ChildSAKey) (e i : Nat) : Prop where
  ie : c.initiatorToResponderEncryptionKey.length = e
  ii : c.initiatorToResponderIntegrityKey.length = i
  re : c.responderToInitiatorEncryptionKey.length = e
  ri : c.responderToInitiatorIntegrityKey.length = i

/-- no keys have been generated -/
structure Fresh (c : ChildSAKey) : Prop where
  ie : c.initiatorToResponderEncryptionKey = []
  ii : c.initiatorToResponderIntegrityKey = []
  re : c.responderToInitiatorEncryptionKey = []
  ri : c.responderToInitiatorIntegrityKey = []

/-- the keys of `d` behind those of `c` -/
def withKeys (c d : ChildSAKey) : ChildSAKey :=
  { c with
    initiatorToResponderEncryptionKey :=
      c.initiatorToResponderEncryptionKey ++ d.initiatorToResponderEncryptionKey
    initiatorToResponderIntegrityKey :=
      c.initiatorToResponderIntegrityKey ++ d.initiatorToResponderIntegrityKey
    responderToInitiatorEncryptionKey :=
      c.responderToInitiatorEncryptionKey ++ d.responderToInitiatorEncryptionKey
    responderToInitiatorIntegrityKey :=
      c.responderToInitiatorIntegrityKey ++ d.responderToInitiatorIntegrityKey }

/-! ## generating keys -/

theorem appendKeys_ok (c : ChildSAKey) {e i : Nat} {keyStream : Bytes}
    (h : keyStream.length = e + (i + (e + i))) :
    ∃ d, c.appendKeys e i keyStream = .ok (c.withKeys d) ∧ d.octets = keyStream ∧ d.Sizes e i := by
  obtain ⟨ie, rest, rfl, hie, h⟩ := exists_append_of_length h
  obtain ⟨ii, rest, rfl, hii, h⟩ := exists_append_of_length h
  obtain ⟨re, ri, rfl, hre, hri⟩ := exists_append_of_length h
  refine ⟨{ c with
    initiatorToResponderEncryptionKey := ie
    initiatorToResponderIntegrityKey := ii
    responderToInitiatorEncryptionKey := re
    responderToInitiatorIntegrityKey := ri }, ?_, rfl, ⟨hie, hii, hre, hri⟩⟩
  simp only [appendKeys, cutKey_append hie, cutKey_append hii, cutKey_append hre, sliceTo_whole hri,
    Outcome.ok_bind]
  rfl

/-- KEYMAT for the algorithms of a child SA and the key of `Prf_d` -/
def keymat (C : Crypto) (c : ChildSAKey) (encrKInfo : ENCRType) (prf_d : Hash) (nonce : Bytes) :
    Bytes :=
  chainStream (C.hmac prf_d.fn prf_d.key) nonce (2 * (encrKInfo.getKeyLength + c.lengthIntegrityKey))

section
variable {C : Crypto} (hC : C.Sized) {c : ChildSAKey} {encrKInfo : ENCRType}
  (he : c.encrKInfo = some encrKInfo)
include hC he

/-- **What a call appends**: new keys, which are the stream.  `Prf_d` keeps its key. -/
theorem generateKeys_ok {k : IKESAKey} {prfInfo : PRFType} {prf_d : Hash}
    (hp : k.prfInfo = some prfInfo) (hd : k.prf_d = some prf_d) (nonce : Bytes) :
    ∃ d prf_d', c.generateKeys C nonce k = (.ok (c.withKeys d), { k with prf_d := some prf_d' }) ∧
      (prf_d'.fn = prf_d.fn ∧ prf_d'.key = prf_d.key) ∧ d.octets = c.keymat C encrKInfo prf_d nonce ∧
      d.Sizes encrKInfo.getKeyLength c.lengthIntegrityKey := by
  have hpos : 0 < prf_d.fn.size := by cases prf_d.fn <;> decide
  have hM := Hash.methods_computes hC prf_d.fn prf_d.key
  have hstream : ∃ prf_d', prfPlus (Hash.methods C) nonce
      (2 * (encrKInfo.getKeyLength + c.lengthIntegrityKey)) prf_d =
        (.ok (c.keymat C encrKInfo prf_d nonce), prf_d') ∧
      prf_d'.fn = prf_d.fn ∧ prf_d'.key = prf_d.key :=
    prfPlus_eq hM nonce hpos _ prf_d ⟨rfl, rfl⟩
  obtain ⟨prf_d', hstream, hkeyed⟩ := hstream
  have hlen : (c.keymat C encrKInfo prf_d nonce).length =
      2 * (encrKInfo.getKeyLength + c.lengthIntegrityKey) :=
    length_chainStream nonce hM.length hpos _
  have hne : c.keymat C encrKInfo prf_d nonce ≠ [] := by
    intro h
    rw [h, List.length_nil] at hlen
    have := encrKInfo.getKeyLength_pos
    omega
  obtain ⟨d, hcut, hoct, hsizes⟩ := c.appendKeys_ok (show (c.keymat C encrKInfo prf_d nonce).length =
    encrKInfo.getKeyLength + (c.lengthIntegrityKey + (encrKInfo.getKeyLength + c.lengthIntegrityKey)) by
      omega)
  refine ⟨d, prf_d', ?_, hkeyed, hoct, hsizes⟩
  simp only [generateKeys, hp, he, hd]
  rw [Nat.mul_comm _ 2, hstream]
  dsimp only
  rw [Outcome.ok_bind, if_neg hne, hcut]

end

theorem withKeys_sizes {c d : ChildSAKey} {e i : Nat} (hd : d.Sizes e i) :
    (c.withKeys d).Sizes e i ↔ c.Fresh := by
  have hlen : ∀ x y : Bytes, (x ++ y).length = y.length ↔ x = [] := by
    intro x y
    rw [List.length_append, Nat.add_eq_right, List.length_eq_zero_iff]
  constructor
  · intro h
    refine ⟨?_, ?_, ?_, ?_⟩
    · exact (hlen _ _).mp (h.ie.trans hd.ie.symm)
    · exact (hlen _ _).mp (h.ii.trans hd.ii.symm)
    · exact (hlen _ _).mp (h.re.trans hd.re.symm)
    · exact (hlen _ _).mp (h.ri.trans hd.ri.symm)
  · intro h
    refine ⟨?_, ?_, ?_, ?_⟩
    · exact ((hlen _ _).mpr h.ie).trans hd.ie
    · exact ((hlen _ _).mpr h.ii).trans hd.ii
    · exact ((hlen _ _).mpr h.re).trans hd.re
    · exact ((hlen _ _).mpr h.ri).trans hd.ri

theorem Fresh.octets_withKeys {c : ChildSAKey} (h : c.Fresh) (d : ChildSAKey) :
    (c.withKeys d).octets = d.octets := by
  simp only [octets, withKeys, h.ie, h.ii, h.re, h.ri, List.nil_append]

end ChildSAKey

/-- **When the keys of a child SA are KEYMAT.**  After a successful call the four keys one after the
other are `prf+(SK_d, nonce)`, each as long as its algorithm wants, exactly if the object had no keys
before: the call appends.  So a second call never leaves the same keys. -/
theorem childKeys_exact_iff {C : Crypto} (hC : C.Sized) {c : ChildSAKey} {encrKInfo : ENCRType}
    (he : c.encrKInfo = some encrKInfo) {k : IKESAKey} {prfInfo : PRFType} {prf_d : Hash}
    (hp : k.prfInfo = some prfInfo) (hd : k.prf_d = some prf_d) (nonce : Bytes) :
    ((∀ c' ikeSA, ChildSAKey.generateKeyForChildSA C (some c) nonce (some k) = (.ok c', ikeSA) →
      c'.octets = c.keymat C encrKInfo prf_d nonce ∧
      c'.Sizes encrKInfo.getKeyLength c.lengthIntegrityKey) ↔ c.Fresh) ∧
    ∃ c' ikeSA c'' ikeSA', ChildSAKey.generateKeyForChildSA C (some c) nonce (some k) = (.ok c', ikeSA) ∧
      ChildSAKey.generateKeyForChildSA C (some c') nonce ikeSA = (.ok c'', ikeSA') ∧
      c''.initiatorToResponderEncryptionKey ≠ c'.initiatorToResponderEncryptionKey := by
  obtain ⟨d, prf_d', hgen, _, hoct, hsizes⟩ := ChildSAKey.generateKeys_ok hC he hp hd nonce
  have hfirst : ChildSAKey.generateKeyForChildSA C (some c) nonce (some k) =
      (.ok (c.withKeys d), some { k with prf_d := some prf_d' }) := by
    simp only [ChildSAKey.generateKeyForChildSA, hgen]
  refine ⟨⟨?_, ?_⟩, ?_⟩
  · intro h
    exact (ChildSAKey.withKeys_sizes hsizes).mp (h _ _ hfirst).2
  · intro hfresh c' ikeSA h
    rw [hfirst] at h
    injection h with hc _
    injection hc with hc
    subst hc
    exact ⟨(hfresh.octets_withKeys d).trans hoct, (ChildSAKey.withKeys_sizes hsizes).mpr hfresh⟩
  · obtain ⟨d', prf_d'', hagain, _, _, hsizes'⟩ := ChildSAKey.generateKeys_ok hC
      (show (c.withKeys d).encrKInfo = some encrKInfo from he)
      (show ({ k with prf_d := some prf_d' } : IKESAKey).prfInfo = some prfInfo from hp) rfl nonce
    refine ⟨_, _, (c.withKeys d).withKeys d', some { k with prf_d := some prf_d'' }, hfirst, ?_, ?_⟩
    · simp only [ChildSAKey.generateKeyForChildSA, hagain]
    · intro h
      have hlen := congrArg List.length (show (c.withKeys d).initiatorToResponderEncryptionKey ++
        d'.initiatorToResponderEncryptionKey = (c.withKeys d).initiatorToResponderEncryptionKey from h)
      rw [List.length_append, hsizes'.ie] at hlen
      have := encrKInfo.getKeyLength_pos
      omega

/-- a child SA with AES-CBC-128 and HMAC-SHA-1-96 -/
def childOfSha1 : ChildSAKey :=
  ChildSAKey.ofInfo none (some .encrAesCbc128) (some .authHmacSha1_96) { needESN := false }

/-- an IKE SA that has a key for its child SAs -/
def parentOfSha1 : IKESAKey :=
  { IKESAKey.ofInfo none none none (some .prfHmacSha1) with
    sk_d := List.replicate 20 7, prf_d := some (Hash.new .sha1 (List.replicate 20 7)) }

/-- KEYMAT of that key for the nonces `[1, 2]` and `[9]`, block by block -/
def childCrypto : Crypto :=
  Crypto.ofTable
    (chainEntries .sha1 (List.replicate 20 7) [1, 2] [] 1
      [octets 20 0x0fb707ab5f8cf864f653bd57996e28530e286523,
        octets 20 0xa7531758770370173f1e56a692e447b8b7806b61,
        octets 20 0x6375a0ed77f1b701ab52cbe898bbd426e77c8a66,
        octets 20 0xd8f80ad5cc0680e5f3980151d05935b66469d81e] ++
      chainEntries .sha1 (List.replicate 20 7) [9] [] 1
        [octets 20 0xea304f738de742f8f5a0eff97a91c8a6c8904ce4,
          octets 20 0x93795e1f10ddc6f6f9e8e8ebb0eb8a31d6709d7a,
          octets 20 0xd7da2477f2c1c02e6d7cb769faaf8f9da426c22c,
          octets 20 0x1397a7dac8ebbadd068f02ff4259de77b8fa1ecd]) [] []

theorem childCrypto_sized : childCrypto.Sized := Crypto.ofTable_sized _ _ _

theorem childKeys_exact_sha1 : childOfSha1.Fresh ∧
    ∃ c' ikeSA, ChildSAKey.generateKeyForChildSA childCrypto (some childOfSha1) [1, 2]
      (some parentOfSha1) = (.ok c', ikeSA) ∧ c'.Sizes 16 20 ∧
      c'.initiatorToResponderEncryptionKey = octets 16 0x0fb707ab5f8cf864f653bd57996e2853 := by
  have hfresh : childOfSha1.Fresh := ⟨rfl, rfl, rfl, rfl⟩
  obtain ⟨hexact, c', ikeSA, _, _, hc, _⟩ := childKeys_exact_iff childCrypto_sized (c := childOfSha1)
    rfl (k := parentOfSha1) rfl rfl [1, 2]
  have hvalue : (fun c => c.initiatorToResponderEncryptionKey) <$>
      (ChildSAKey.generateKeyForChildSA childCrypto (some childOfSha1) [1, 2] (some parentOfSha1)).1 =
        .ok (octets 16 0x0fb707ab5f8cf864f653bd57996e2853) := by decide +kernel
  rw [hc] at hvalue
  exact ⟨hfresh, c', ikeSA, hc, (hexact.mpr hfresh c' ikeSA hc).2, Outcome.ok.inj hvalue⟩

/-- two calls for one object: the encryption key is twice as long as after the first -/
theorem childKeys_appended :
    (fun c => c.initiatorToResponderEncryptionKey.length) <$>
      (ChildSAKey.generateKeyForChildSA childCrypto (some childOfSha1) [1, 2] (some parentOfSha1)).1 =
        .ok 16 ∧
    (fun c => c.initiatorToResponderEncryptionKey.length) <$>
      ((ChildSAKey.generateKeyForChildSA childCrypto (some childOfSha1) [1, 2] >>= fun c =>
        ChildSAKey.generateKeyForChildSA childCrypto (some c) [1, 2]) (some parentOfSha1)).1 =
        .ok 32 := by
  decide +kernel

/-! ## proposals -/

theorem decodeOnly_ok {α : Type} {name : String} {decode : Transform → Option α} {ts : List Transform}
    {o : Option α} (h : decodeOnly name decode ts = .ok o) :
    (∃ t a, ts = [t] ∧ decode t = some a ∧ o = some a) ∨ (ts.length ≠ 1 ∧ o = none) := by
  unfold decodeOnly at h
  split at h
  · rename_i t
    obtain ⟨a, ha, rfl⟩ := Outcome.map_eq_ok.mp h
    exact .inl ⟨t, a, rfl, require_eq_ok.mp ha, rfl⟩
  · rename_i hts
    injection h with h
    refine .inr ⟨?_, h.symm⟩
    intro hlen
    obtain ⟨t, rfl⟩ := List.length_eq_one_iff.mp hlen
    exact hts t rfl

/-- what has been found in a proposal that is accepted -/
theorem newChildSAKeyByProposal_ok {p : Proposal} {c : ChildSAKey}
    (h : newChildSAKeyByProposal (some p) = .ok c) :
    ∃ encr integ esn encrKInfo, p.encryptionAlgorithm.head? = some encr ∧
      p.integrityAlgorithm.head? = some integ ∧ p.extendedSequenceNumbers.head? = some esn ∧
      ENCRType.decodeTransform encr = some encrKInfo ∧ c.encrKInfo = some encrKInfo ∧
      ESN.decodeTransform esn = .ok c.esnInfo ∧
      decodeOnly "DiffieHellmanGroup" DHType.decodeTransform p.diffieHellmanGroup = .ok c.dhInfo ∧
      decodeOnly "IntegrityAlgorithm" INTEGType.decodeTransform p.integrityAlgorithm =
        .ok c.integKInfo := by
  obtain ⟨q, hq, h⟩ := Outcome.bind_eq_ok.mp h
  injection hq with hq
  subst hq
  obtain ⟨encr, hencr, h⟩ := Outcome.bind_eq_ok.mp h
  obtain ⟨integ, hinteg, h⟩ := Outcome.bind_eq_ok.mp h
  obtain ⟨esn, hesn, h⟩ := Outcome.bind_eq_ok.mp h
  obtain ⟨dhInfo, hdh, h⟩ := Outcome.bind_eq_ok.mp h
  obtain ⟨encrKInfo, hek, h⟩ := Outcome.bind_eq_ok.mp h
  obtain ⟨integKInfo, hik, h⟩ := Outcome.bind_eq_ok.mp h
  obtain ⟨esnInfo, hes, h⟩ := Outcome.bind_eq_ok.mp h
  injection h with h
  subst h
  exact ⟨encr, integ, esn, encrKInfo, require_eq_ok.mp hencr, require_eq_ok.mp hinteg,
    require_eq_ok.mp hesn, require_eq_ok.mp hek, rfl, Outcome.wrapf_eq_ok.mp hes, hdh, hik⟩

/-- a call succeeds only with everything it needs -/
theorem generateKeyForChildSA_needs {C : Crypto} {c c' : ChildSAKey} {nonce : Bytes}
    {ikeSA ikeSA' : Option IKESAKey}
    (h : ChildSAKey.generateKeyForChildSA C (some c) nonce ikeSA = (.ok c', ikeSA')) :
    ∃ k prfInfo encrKInfo prf_d, ikeSA = some k ∧ k.prfInfo = some prfInfo ∧
      c.encrKInfo = some encrKInfo ∧ k.prf_d = some prf_d := by
  cases ikeSA with
  | none => exact absurd (congrArg Prod.fst h) (fail_ne_ok _ _)
  | some k =>
    have hgen : (c.generateKeys C nonce k).1 = .ok c' := congrArg Prod.fst h
    unfold ChildSAKey.generateKeys at hgen
    split at hgen
    · exact absurd hgen (fail_ne_ok _ _)
    · exact absurd hgen (fail_ne_ok _ _)
    · exact absurd hgen (fail_ne_ok _ _)
    · rename_i prfInfo encrKInfo prf_d hp he hd
      exact ⟨k, prfInfo, encrKInfo, prf_d, rfl, hp, he, hd⟩

/-- the keys of an integrity algorithm are never empty -/
theorem integrityKeys_ne_nil {C : Crypto} (hC : C.Sized) {c c' : ChildSAKey}
    {integKInfo : INTEGType} (hi : c.integKInfo = some integKInfo) {ikeSA ikeSA' : Option IKESAKey}
    {nonce : Bytes} (h : ChildSAKey.generateKeyForChildSA C (some c) nonce ikeSA = (.ok c', ikeSA')) :
    c'.initiatorToResponderIntegrityKey ≠ [] ∧ c'.responderToInitiatorIntegrityKey ≠ [] := by
  obtain ⟨k, prfInfo, encrKInfo, prf_d, rfl, hp, he, hd⟩ := generateKeyForChildSA_needs h
  obtain ⟨d, prf_d', hgen, _, _, hsizes⟩ := ChildSAKey.generateKeys_ok hC he hp hd nonce
  have hc : c' = c.withKeys d := by
    have hfst : (c.generateKeys C nonce k).1 = .ok c' := congrArg Prod.fst h
    rw [hgen] at hfst
    injection hfst with hfst
    exact hfst.symm
  have hpos : 0 < c.lengthIntegrityKey := by
    rw [ChildSAKey.lengthIntegrityKey, hi]
    exact integKInfo.getKeyLength_pos
  have hne : ∀ x y : Bytes, y.length = c.lengthIntegrityKey → x ++ y ≠ [] := by
    intro x y hy hnil
    rw [(List.append_eq_nil_iff.mp hnil).2] at hy
    exact absurd hy (Nat.ne_of_lt hpos)
  subst hc
  exact ⟨hne _ _ hsizes.ii, hne _ _ hsizes.ri⟩

/-- the algorithms of a proposal are those of the child SA -/
structure ChildSAKey.Honours (c : ChildSAKey) (p : Proposal) : Prop where
  encr : ∃ t a, p.encryptionAlgorithm.head? = some t ∧ ENCRType.decodeTransform t = some a ∧
    c.encrKInfo = some a
  integ : ∃ t a, p.integrityAlgorithm.head? = some t ∧ INTEGType.decodeTransform t = some a ∧
    c.integKInfo = some a
  esn : ∃ t, p.extendedSequenceNumbers.head? = some t ∧ ESN.decodeTransform t = .ok c.esnInfo
  integKeys : ∀ C : Crypto, C.Sized → ∀ nonce ikeSA c' ikeSA',
    ChildSAKey.generateKeyForChildSA C (some c) nonce ikeSA = (.ok c', ikeSA') →
      c'.initiatorToResponderIntegrityKey ≠ [] ∧ c'.responderToInitiatorIntegrityKey ≠ []
  dh : c.dhInfo = p.diffieHellmanGroup.head?.bind DHType.decodeTransform
  dhNil : c.dhInfo = none → p.diffieHellmanGroup = []

/-- **When an accepted proposal is honoured.**  The integrity algorithm and the group are taken from
lists of one transform only: with more integrity algorithms the child SA has none, and with more groups
it has no group. -/
theorem childProposal_honours_iff {p : Proposal} {c : ChildSAKey}
    (h : newChildSAKeyByProposal (some p) = .ok c) :
    c.Honours p ↔ p.integrityAlgorithm.length = 1 ∧ p.diffieHellmanGroup.length ≤ 1 := by
  obtain ⟨encr, integ, esn, encrKInfo, hencr, hinteg, hesn, hek, hce, hces, hdh, hik⟩ :=
    newChildSAKeyByProposal_ok h
  constructor
  · intro hh
    constructor
    · rcases decodeOnly_ok hik with ⟨t, a, hts, _⟩ | ⟨_, hnone⟩
      · rw [hts]
        rfl
      · obtain ⟨t, a, _, _, hsome⟩ := hh.integ
        rw [hnone] at hsome
        exact absurd hsome (by simp)
    · rcases decodeOnly_ok hdh with ⟨t, a, hts, _⟩ | ⟨_, hnone⟩
      · rw [hts]
        exact Nat.le_refl 1
      · rw [hh.dhNil hnone]
        exact Nat.zero_le 1
  · intro ⟨hone, hle⟩
    rcases decodeOnly_ok hik with ⟨t, a, hts, hta, hca⟩ | ⟨hne, _⟩
    · have hdhs : c.dhInfo = p.diffieHellmanGroup.head?.bind DHType.decodeTransform ∧
          (c.dhInfo = none → p.diffieHellmanGroup = []) := by
        rcases decodeOnly_ok hdh with ⟨g, b, hgs, hgb, hcb⟩ | ⟨hne, hnone⟩
        · rw [hcb, hgs]
          exact ⟨hgb.symm, fun hn => absurd hn (by simp)⟩
        · have hnil : p.diffieHellmanGroup = [] := List.length_eq_zero_iff.mp (by omega)
          rw [hnone, hnil]
          exact ⟨rfl, fun _ => rfl⟩
      exact
        { encr := ⟨encr, encrKInfo, hencr, hek, hce⟩
          integ := ⟨t, a, by rw [hts]; rfl, hta, hca⟩
          esn := ⟨esn, hesn, hces⟩
          integKeys := fun C hC nonce ikeSA c' ikeSA' hgen => integrityKeys_ne_nil hC hca hgen
          dh := hdhs.1
          dhNil := hdhs.2 }
    · exact absurd hone hne

/-- AES-CBC-128 without extended sequence numbers, with some integrity algorithms and groups -/
def childProposal (integrityAlgorithm diffieHellmanGroup : List Transform) : Proposal :=
  { proposalNumber := 1, protocolID := 3, spi := [1, 2, 3, 4]
    encryptionAlgorithm := [⟨1, 12, true, 1, 14, 128, []⟩]
    pseudorandomFunction := []
    integrityAlgorithm := integrityAlgorithm
    diffieHellmanGroup := diffieHellmanGroup
    extendedSequenceNumbers := [⟨5, 0, false, 0, 0, 0, []⟩] }

theorem childProposal_honours_one :
    (ChildSAKey.ofInfo none (some .encrAesCbc128) (some .authHmacSha1_96) { needESN := false }).Honours
      (childProposal [⟨3, 2, false, 0, 0, 0, []⟩] []) :=
  (childProposal_honours_iff (p := childProposal [⟨3, 2, false, 0, 0, 0, []⟩] [])
    (c := ChildSAKey.ofInfo none (some .encrAesCbc128) (some .authHmacSha1_96) { needESN := false })
    (by decide)).mpr (by decide)

/-- two integrity algorithms and two groups, all of them supported: the proposal is accepted, without
integrity and without a group -/
theorem childProposal_dropped :
    newChildSAKeyByProposal (some (childProposal
      [⟨3, 2, false, 0, 0, 0, []⟩, ⟨3, 12, false, 0, 0, 0, []⟩]
      [⟨4, 14, false, 0, 0, 0, []⟩, ⟨4, 2, false, 0, 0, 0, []⟩])) =
      .ok (ChildSAKey.ofInfo none (some .encrAesCbc128) none { needESN := false }) := by
  decide

end Ike
