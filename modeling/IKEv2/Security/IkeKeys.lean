import IKEv2.Security.KeySchedule

/-!
# The seven keys of an IKE SA

The keys are cut one after the other out of the stream `prf+(SKEYSEED, nonce | SPIi | SPIr)`.  The
stream is as long as the keys together, so every cut has its octets, and an object that wants a key of
one length gets one of that length.

* `deriveKeys_ok`                 the seven keys are the stream;
* `generateKeyForIKESA_missing`   without its arguments the call ends before anything is stored;
* `ikeKeys_exact`                 the keys, and the objects that are made of them.
-/

set_option linter.unusedVariables false

namespace Ike
open GoLang

/-! ## cutting -/

theorem exists_append_of_length {α : Type} {l : List α} {m n : Nat} (h : l.length = m + n) :
    ∃ x y, l = x ++ y ∧ x.length = m ∧ y.length = n := by
  refine ⟨l.take m, l.drop m, (List.take_append_drop m l).symm, ?_, ?_⟩
  · rw [List.length_take]
    omega
  · rw [List.length_drop]
    omega

theorem cutKey_append {n : Nat} {key : Bytes} (h : key.length = n) (rest : Bytes) :
    cutKey n (Slice.ofList (key ++ rest)) = .ok (key, Slice.ofList rest) := by
  have hle : n ≤ (Slice.ofList (key ++ rest)).len := by
    rw [Slice.len_ofList, List.length_append]
    omega
  rw [cutKey, Slice.sliceTo_data _ hle, Slice.sliceFrom_data _ hle, Slice.data_ofList,
    List.take_left' h, List.drop_left' h]
  rfl

theorem sliceTo_whole {n : Nat} {key : Bytes} (h : key.length = n) :
    (Slice.ofList key).sliceTo n = .ok ⟨key, []⟩ := by
  rw [Slice.sliceTo_data _ (Nat.le_of_eq h.symm), Slice.data_ofList, ← h, List.take_length,
    List.drop_length]
  rfl

/-- SK_d | SK_ai | SK_ar | SK_ei | SK_er | SK_pi | SK_pr -/
def SKKeys.octets (k : SKKeys) : Bytes :=
  k.sk_d ++ (k.sk_ai ++ (k.sk_ar ++ (k.sk_ei ++ (k.sk_er ++ (k.sk_pi ++ k.sk_pr)))))

/-- the lengths of the keys, for keys of the pseudorandom function, the integrity and the encryption
algorithm -/
structure SKKeys.Sizes (k : SKKeys) (prf integ encr : Nat) : Prop where
  sk_d : k.sk_d.length = prf
  sk_ai : k.sk_ai.length = integ
  sk_ar : k.sk_ar.length = integ
  sk_ei : k.sk_ei.length = encr
  sk_er : k.sk_er.length = encr
  sk_pi : k.sk_pi.length = prf
  sk_pr : k.sk_pr.length = prf

theorem cutKeys_ok {d a e : Nat} {keyStream : Bytes}
    (h : keyStream.length = d + (a + (a + (e + (e + (d + d)))))) :
    ∃ keys, cutKeys d a e keyStream = .ok keys ∧ keys.octets = keyStream ∧ keys.Sizes d a e := by
  obtain ⟨sk_d, rest, rfl, hd, h⟩ := exists_append_of_length h
  obtain ⟨sk_ai, rest, rfl, hai, h⟩ := exists_append_of_length h
  obtain ⟨sk_ar, rest, rfl, har, h⟩ := exists_append_of_length h
  obtain ⟨sk_ei, rest, rfl, hei, h⟩ := exists_append_of_length h
  obtain ⟨sk_er, rest, rfl, her, h⟩ := exists_append_of_length h
  obtain ⟨sk_pi, sk_pr, rfl, hpi, hpr⟩ := exists_append_of_length h
  refine ⟨⟨sk_d, sk_ai, sk_ar, sk_ei, sk_er, sk_pi, sk_pr⟩, ?_, rfl, ⟨hd, hai, har, hei, her, hpi, hpr⟩⟩
  simp only [cutKeys, cutKey_append hd, cutKey_append hai, cutKey_append har, cutKey_append hei,
    cutKey_append her, cutKey_append hpi, sliceTo_whole hpr, Outcome.ok_bind]
  rfl

/-! ## the stream -/

/-- `prf(key, data)` -/
def PRFType.prf (C : Crypto) (t : PRFType) (key data : Bytes) : Bytes :=
  ((t.init key).write data).sum C

/-- the objects of a pseudorandom function compute it -/
theorem PRFType.prf_computes {C : Crypto} (hC : C.Sized) (t : PRFType) (key : Bytes) :
    (Hash.methods C).Computes (fun h => h.fn = (t.init key).fn ∧ h.key = key) (t.prf C key)
      t.getKeyLength := by
  cases t with
  | prfHmacSha1 => exact Hash.methods_computes hC .sha1 key
  | prfHmacSha2_256 => exact Hash.methods_computes hC .sha256 key

/-- `prf+(prf(nonce, sharedKey), nonce | SPIi | SPIr)`, `n` octets of it -/
def ikeKeyStream (C : Crypto) (prfInfo : PRFType) (nonce shared : Bytes) (i r : UInt64) (n : Nat) :
    Bytes :=
  chainStream (prfInfo.prf C (prfInfo.prf C nonce shared)) (concatenateNonceAndSPI nonce i r) n

/-- **The seven keys are the stream**, for every choice of algorithms. -/
theorem deriveKeys_ok {C : Crypto} (hC : C.Sized) (encrInfo : ENCRType) (integInfo : INTEGType)
    (prfInfo : PRFType) (nonce shared : Bytes) (i r : UInt64) :
    ∃ keys, deriveKeys C encrInfo integInfo prfInfo nonce shared i r = .ok keys ∧
      keys.octets = ikeKeyStream C prfInfo nonce shared i r (3 * prfInfo.getKeyLength +
        2 * integInfo.getKeyLength + 2 * encrInfo.getKeyLength) ∧
      keys.Sizes prfInfo.getKeyLength integInfo.getKeyLength encrInfo.getKeyLength := by
  have hpos := prfInfo.getKeyLength_pos
  have htotal : prfInfo.getKeyLength + integInfo.getKeyLength + integInfo.getKeyLength +
      encrInfo.getKeyLength + encrInfo.getKeyLength + prfInfo.getKeyLength + prfInfo.getKeyLength =
      3 * prfInfo.getKeyLength + 2 * integInfo.getKeyLength + 2 * encrInfo.getKeyLength := by
    omega
  have hM := prfInfo.prf_computes hC (prfInfo.prf C nonce shared)
  have hkeyed : (prfInfo.init (prfInfo.prf C nonce shared)).key = prfInfo.prf C nonce shared := by
    cases prfInfo <;> rfl
  obtain ⟨_, hstream, _⟩ := prfPlus_eq hM (concatenateNonceAndSPI nonce i r) hpos
    (3 * prfInfo.getKeyLength + 2 * integInfo.getKeyLength + 2 * encrInfo.getKeyLength)
    (prfInfo.init (prfInfo.prf C nonce shared)) ⟨rfl, hkeyed⟩
  have hlen := length_chainStream (concatenateNonceAndSPI nonce i r) hM.length hpos
    (3 * prfInfo.getKeyLength + 2 * integInfo.getKeyLength + 2 * encrInfo.getKeyLength)
  obtain ⟨keys, hkeys, hoct, hsizes⟩ := cutKeys_ok (d := prfInfo.getKeyLength)
    (a := integInfo.getKeyLength) (e := encrInfo.getKeyLength) (by rw [hlen]; omega)
  refine ⟨keys, ?_, hoct, hsizes⟩
  have hne : chainStream (prfInfo.prf C (prfInfo.prf C nonce shared))
      (concatenateNonceAndSPI nonce i r) (3 * prfInfo.getKeyLength + 2 * integInfo.getKeyLength +
        2 * encrInfo.getKeyLength) ≠ [] := by
    intro h
    rw [h] at hlen
    exact absurd hlen (by simp only [List.length_nil]; omega)
  simp only [deriveKeys]
  rw [htotal]
  show (prfPlus (Hash.methods C) (concatenateNonceAndSPI nonce i r) _
    (prfInfo.init (prfInfo.prf C nonce shared))).1 >>= _ = _
  rw [hstream, Outcome.ok_bind, if_neg hne, hkeys]

/-! ## the objects -/

/-- a hash object that an algorithm has made of a key, and to which nothing has been written -/
def MadeOf (make : Bytes → Option Hash) (key : Bytes) (o : Option Hash) : Prop :=
  ∃ h, o = some h ∧ make key = some h ∧ h.key = key ∧ h.written = []

/-- a cipher that an algorithm has made of a key -/
def CipherOf (t : ENCRType) (key : Bytes) (o : Option EncrAesCbcCrypto) : Prop :=
  ∃ e, o = some e ∧ t.newCrypto key = .ok e ∧ e.block.key = key

/-- every object is there, and has its own key -/
structure IKESAKey.Keyed (k : IKESAKey) (encrInfo : ENCRType) (integInfo : INTEGType)
    (prfInfo : PRFType) : Prop where
  prf_d : MadeOf (some ∘ prfInfo.init) k.sk_d k.prf_d
  integ_i : MadeOf integInfo.init k.sk_ai k.integ_i
  integ_r : MadeOf integInfo.init k.sk_ar k.integ_r
  encr_i : CipherOf encrInfo k.sk_ei k.encr_i
  encr_r : CipherOf encrInfo k.sk_er k.encr_r
  prf_i : MadeOf (some ∘ prfInfo.init) k.sk_pi k.prf_i
  prf_r : MadeOf (some ∘ prfInfo.init) k.sk_pr k.prf_r

theorem PRFType.madeOf (t : PRFType) (key : Bytes) :
    MadeOf (some ∘ t.init) key (some (t.init key)) := by
  cases t with
  | prfHmacSha1 => exact ⟨Hash.new .sha1 key, rfl, rfl, rfl, rfl⟩
  | prfHmacSha2_256 => exact ⟨Hash.new .sha256 key, rfl, rfl, rfl, rfl⟩

theorem INTEGType.madeOf (t : INTEGType) {key : Bytes} (h : key.length = t.getKeyLength) :
    MadeOf t.init key (t.init key) := by
  cases t with
  | authHmacSha1_96 => exact ⟨Hash.new .sha1 key, if_pos h, if_pos h, rfl, rfl⟩
  | authHmacSha2_256_128 => exact ⟨Hash.new .sha256 key, if_pos h, if_pos h, rfl, rfl⟩

theorem ENCRType.cipherOf (t : ENCRType) {key : Bytes} (h : key.length = t.getKeyLength) :
    ∃ e, t.newCrypto key = .ok e ∧ CipherOf t key (some e) := by
  have hkey : AesKey key := by
    cases t with
    | encrAesCbc128 => exact .inl h
    | encrAesCbc192 => exact .inr (.inl h)
    | encrAesCbc256 => exact .inr (.inr h)
  have hnew : t.newCrypto key = .ok ⟨⟨key, hkey⟩, none, none⟩ := by
    rw [ENCRType.newCrypto, if_neg (not_not_intro h), aesNewCipher, dif_pos hkey]
    rfl
  exact ⟨_, hnew, _, rfl, hnew, rfl⟩

section
variable {C : Crypto} (hC : C.Sized)
include hC

theorem generateKeyForIKESA_ok {k : IKESAKey} {encrInfo : ENCRType} {integInfo : INTEGType}
    {prfInfo : PRFType} {dhInfo : DHType} (he : k.encrInfo = some encrInfo)
    (hi : k.integInfo = some integInfo) (hp : k.prfInfo = some prfInfo) (hd : k.dhInfo = some dhInfo)
    {nonce shared : Bytes} (hn : nonce ≠ []) (hs : shared ≠ []) (i r : UInt64) :
    ∃ k', IKESAKey.generateKeyForIKESA C nonce shared i r k = (.ok (), k') ∧
      k'.octets = ikeKeyStream C prfInfo nonce shared i r (3 * prfInfo.getKeyLength +
        2 * integInfo.getKeyLength + 2 * encrInfo.getKeyLength) ∧
      k'.Sizes prfInfo.getKeyLength integInfo.getKeyLength encrInfo.getKeyLength ∧
      k'.Keyed encrInfo integInfo prfInfo ∧
      k'.dhInfo = k.dhInfo ∧ k'.encrInfo = k.encrInfo ∧ k'.integInfo = k.integInfo ∧
      k'.prfInfo = k.prfInfo := by
  obtain ⟨keys, hkeys, hoct, hsizes⟩ := deriveKeys_ok hC encrInfo integInfo prfInfo nonce shared i r
  obtain ⟨encr_i, hei, hkei⟩ := encrInfo.cipherOf hsizes.sk_ei
  obtain ⟨encr_r, her, hker⟩ := encrInfo.cipherOf hsizes.sk_er
  refine ⟨k.assign integInfo prfInfo keys encr_i encr_r, generateKeyForIKESA_iff.mpr ⟨encrInfo,
    integInfo, prfInfo, dhInfo, keys, encr_i, encr_r, he, hi, hp, hd, hn, hs, hkeys, hei, her, rfl⟩,
    hoct, hsizes, ?_, rfl, rfl, rfl, rfl⟩
  exact
    { prf_d := prfInfo.madeOf keys.sk_d
      integ_i := integInfo.madeOf hsizes.sk_ai
      integ_r := integInfo.madeOf hsizes.sk_ar
      encr_i := hkei
      encr_r := hker
      prf_i := prfInfo.madeOf keys.sk_pi
      prf_r := prfInfo.madeOf keys.sk_pr }

end

/-- an algorithm, the nonce or the shared key is missing, or everything is there -/
theorem generateKeyForIKESA_missing (C : Crypto) (k : IKESAKey) (nonce shared : Bytes) (i r : UInt64) :
    (∃ err, IKESAKey.generateKeyForIKESA C nonce shared i r k = (.err err, k)) ∨
    ∃ encrInfo integInfo prfInfo dhInfo, k.encrInfo = some encrInfo ∧ k.integInfo = some integInfo ∧
      k.prfInfo = some prfInfo ∧ k.dhInfo = some dhInfo ∧ nonce ≠ [] ∧ shared ≠ [] := by
  unfold IKESAKey.generateKeyForIKESA
  rw [Proc.this_bind]
  cases he : k.encrInfo with
  | none => exact .inl ⟨_, rfl⟩
  | some encrInfo =>
    cases hi : k.integInfo with
    | none => exact .inl ⟨_, rfl⟩
    | some integInfo =>
      cases hp : k.prfInfo with
      | none => exact .inl ⟨_, rfl⟩
      | some prfInfo =>
        cases hd : k.dhInfo with
        | none => exact .inl ⟨_, rfl⟩
        | some dhInfo =>
          cases nonce with
          | nil => exact .inl ⟨_, rfl⟩
          | cons x nonce =>
            cases shared with
            | nil => exact .inl ⟨_, rfl⟩
            | cons y shared =>
              exact .inr ⟨encrInfo, integInfo, prfInfo, dhInfo, rfl, rfl, rfl, rfl, by simp, by simp⟩

/-- **The keys of an IKE SA.**  With all algorithms, a nonce and a shared key, `GenerateKeyForIKESA`
succeeds: the seven keys one after the other are the stream `prf+(prf(nonce, sharedKey), nonce | SPIi |
SPIr)`, each as long as its algorithm wants, and every object is made of its own key, whatever the key
object held before.  An error leaves the key object as it was. -/
theorem ikeKeys_exact {C : Crypto} (hC : C.Sized) :
    (∀ (k : IKESAKey) (encrInfo : ENCRType) (integInfo : INTEGType) (prfInfo : PRFType)
      (dhInfo : DHType) (nonce shared : Bytes) (i r : UInt64),
      k.encrInfo = some encrInfo → k.integInfo = some integInfo → k.prfInfo = some prfInfo →
      k.dhInfo = some dhInfo → nonce ≠ [] → shared ≠ [] →
      ∃ k', IKESAKey.generateKeyForIKESA C nonce shared i r k = (.ok (), k') ∧
        k'.octets = ikeKeyStream C prfInfo nonce shared i r (3 * prfInfo.getKeyLength +
          2 * integInfo.getKeyLength + 2 * encrInfo.getKeyLength) ∧
        k'.Sizes prfInfo.getKeyLength integInfo.getKeyLength encrInfo.getKeyLength ∧
        k'.Keyed encrInfo integInfo prfInfo) ∧
    ∀ (k k' : IKESAKey) (nonce shared : Bytes) (i r : UInt64) (err : GoError),
      IKESAKey.generateKeyForIKESA C nonce shared i r k = (.err err, k') → k' = k := by
  constructor
  · intro k encrInfo integInfo prfInfo dhInfo nonce shared i r he hi hp hd hn hs
    obtain ⟨k', hk', hoct, hsizes, hkeyed, _⟩ := generateKeyForIKESA_ok hC he hi hp hd hn hs i r
    exact ⟨k', hk', hoct, hsizes, hkeyed⟩
  · intro k k' nonce shared i r err h
    rcases generateKeyForIKESA_missing C k nonce shared i r with ⟨err', herr⟩ | hall
    · rw [herr] at h
      injection h with _ hk
      exact hk.symm
    · obtain ⟨encrInfo, integInfo, prfInfo, dhInfo, he, hi, hp, hd, hn, hs⟩ := hall
      obtain ⟨k'', hk'', _⟩ := generateKeyForIKESA_ok hC he hi hp hd hn hs i r
      rw [hk''] at h
      injection h with hok _
      exact absurd hok (by simp)

/-- a key object of group 2, AES-CBC-128, HMAC-SHA-1-96 and HMAC-SHA-1 that has been used before -/
def usedKey : IKESAKey :=
  { IKESAKey.ofInfo (some .dh1024BitModp) (some .encrAesCbc128) (some .authHmacSha1_96)
      (some .prfHmacSha1) with
    sk_d := [9], prf_i := some ⟨.sha1, [9], [8]⟩ }

/-- the keys of the exchange in that object, and an object that has no algorithms yet -/
theorem ikeKeys_exact_exchange :
    (∃ k', IKESAKey.generateKeyForIKESA (Crypto.ofTable exchangeTable [] []) (octets 4 0x4e694e72)
        exchangeSharedKey 1 2 usedKey = (.ok (), k') ∧
      k'.Sizes 20 20 16 ∧ k'.sk_d = octets 20 0x6bc2c3433aa225c98ed157965e6545aa9ee70090) ∧
    ∀ k', IKESAKey.generateKeyForIKESA (Crypto.ofTable exchangeTable [] []) (octets 4 0x4e694e72)
        exchangeSharedKey 1 2 (IKESAKey.ofInfo none none none none) =
      (fail "No encryption algorithm specified", k') → k' = IKESAKey.ofInfo none none none none := by
  obtain ⟨hgen, herr⟩ := ikeKeys_exact (Crypto.ofTable_sized exchangeTable [] [])
  obtain ⟨k', hk', _, hsizes, _⟩ := hgen usedKey .encrAesCbc128 .authHmacSha1_96 .prfHmacSha1
    .dh1024BitModp (octets 4 0x4e694e72) exchangeSharedKey 1 2 rfl rfl rfl rfl (by decide)
    (by decide +kernel)
  have hvalue : (IKESAKey.generateKeyForIKESA (Crypto.ofTable exchangeTable [] [])
      (octets 4 0x4e694e72) exchangeSharedKey 1 2 usedKey).2.sk_d =
        octets 20 0x6bc2c3433aa225c98ed157965e6545aa9ee70090 := by decide +kernel
  rw [hk'] at hvalue
  exact ⟨⟨k', hk', hsizes, hvalue⟩, fun k' h => herr _ k' _ _ _ _ _ h⟩

end Ike
