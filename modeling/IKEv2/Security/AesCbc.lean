import IKEv2.GoLang.Cbc
import IKEv2.Security.Algorithms

/-!
# AES-CBC with random padding (`security/encr/encr_aes_cbc.go`, `PKCS7Padding` of `security/lib`)

The padding fills the last block, or a whole block when none is open; its last octet counts the
octets in front of it.  A cipher text is the initialisation vector and the encrypted blocks.

* `decrypt_total_iff`   the cipher texts for which the decoder returns as it should;
* `decrypt_encrypt`   the decoder gives back the plain text, with the padding behind it in memory;
* `encrypt_minimal`   the encoder adds one to sixteen octets, which the decoder takes off again;
* `encrypt_starved`, `encrypt_unvectored`, `encrypt_uneven`, `encrypt_runs`   how the encoder ends:
                      without enough random octets for the padding or for the vector, on octets that are
                      no whole blocks, and otherwise.
-/

set_option linter.unusedVariables false

namespace Ike
open GoLang

/-- the plain text with its padding, and the random octets that are left -/
def pkcs7Padding (rand plainText : Bytes) (blockSize : Nat) : Outcome (Bytes × Bytes) :=
  let padding := blockSize - plainText.length % blockSize
  let padding := if padding = 0 then blockSize else padding
  if padding > 255 then fail "PKCS7Padding: invalid padding size"
  else do
    let r ← (randRead padding rand).wrapf "PKCS7Padding()"
    let paddingText := r.1.dropLast ++ [UInt8.ofNat (padding - 1)]
    pure (plainText ++ paddingText, r.2)

/-- `Iv` and `Padding` are `nil`, unless they are set by hand -/
structure EncrAesCbcCrypto where
  block : AesCipher
  iv : Option Bytes
  padding : Option Bytes
deriving DecidableEq

def ENCRType.newCrypto (t : ENCRType) (key : Bytes) : Outcome EncrAesCbcCrypto :=
  if key.length ≠ t.getKeyLength then fail "EncrAesCbc init error: Get unexpected key length"
  else do
    let block ← (aesNewCipher key).wrapf
      "EncrAesCbc init: Error occur when create new cipher: "
    pure { block := block, iv := none, padding := none }

namespace EncrAesCbcCrypto

/-- the plain text in whole blocks, and the random octets that are left -/
def pad (rand : Bytes) (e : EncrAesCbcCrypto) (plainText : Bytes) : Outcome (Bytes × Bytes) :=
  match e.padding with
  | none => (pkcs7Padding rand plainText aesBlockSize).wrapf "Encr Encrypt()"
  | some padding => .ok (plainText ++ padding, rand)

def drawIv (rand : Bytes) (e : EncrAesCbcCrypto) : Outcome Bytes :=
  match e.iv with
  | none =>
    match readRandom aesBlockSize rand with
    | .ok r => .ok r.1
    | .err _ => fail "Read random initialization vector failed"
    | .panic p => .panic p
  | some iv => .ok iv

def encrypt (C : Crypto) (rand : Bytes) (e : EncrAesCbcCrypto) (plainText : Bytes) :
    Outcome Bytes := do
  let padded ← e.pad rand plainText
  let initializationVector ← e.drawIv padded.2
  let cipherText ← newCBCEncrypter (C.aesEncrypt e.block.key) aesBlockSize initializationVector
    padded.1
  pure (initializationVector ++ cipherText)

/-- the initialisation vector of a cipher text -/
def readIv (e : EncrAesCbcCrypto) (cipherText : Slice UInt8) : Outcome Bytes :=
  match e.iv with
  | none => Slice.data <$> cipherText.sliceTo aesBlockSize
  | some iv => .ok iv

/-- the plain text keeps its padding behind it -/
def decrypt (C : Crypto) (e : EncrAesCbcCrypto) (cipherText : Slice UInt8) :
    Outcome (Slice UInt8) :=
  if cipherText.len < aesBlockSize then
    fail "EncrAesCbcCrypto: Length of cipher text is too short to decrypt"
  else do
    let initializationVector ← e.readIv cipherText
    let encryptedMessage ← cipherText.sliceFrom aesBlockSize
    if encryptedMessage.len % aesBlockSize ≠ 0 then
      fail "EncrAesCbcCrypto: Cipher text is not a multiple of block size"
    else do
      let plain ← newCBCDecrypter (C.aesDecrypt e.block.key) aesBlockSize initializationVector
        encryptedMessage.data
      let plainText := Slice.ofList plain
      -- index -1 when there is no block
      let last ← plainText.index (plainText.len - 1)
      let padding := last.toNat + 1
      if padding > plainText.len then
        fail s!"invalid padding length {padding} exceeds plaintext length {plainText.len}"
      else plainText.sliceInit padding

end EncrAesCbcCrypto

/-! ## padding -/

theorem pkcs7Padding_ok {rand plainText : Bytes} {r : Bytes × Bytes}
    (h : pkcs7Padding rand plainText aesBlockSize = .ok r) :
    ∃ pad : Bytes, r.1 = plainText ++ (pad ++ [UInt8.ofNat pad.length]) ∧ pad.length < 16 ∧
      (plainText.length + pad.length + 1) % 16 = 0 ∧ r.2 = rand.drop (16 - plainText.length % 16) := by
  have hlt : plainText.length % 16 < 16 := Nat.mod_lt _ (by decide)
  unfold pkcs7Padding at h
  simp only [show aesBlockSize = 16 from rfl] at h
  rw [if_neg (show ¬ 16 - plainText.length % 16 = 0 by omega)] at h
  generalize hval : 16 - plainText.length % 16 = padding at h
  rw [if_neg (show ¬ padding > 255 by omega)] at h
  obtain ⟨q, hq, h⟩ := Outcome.bind_eq_ok.mp h
  obtain ⟨hle, rfl⟩ := randRead_ok (Outcome.wrapf_eq_ok.mp hq)
  injection h with h
  have hd : (rand.take padding).dropLast.length = padding - 1 := by
    rw [List.length_dropLast, List.length_take_of_le hle]
  refine ⟨(rand.take padding).dropLast, ?_, by omega, by omega, by rw [← h]⟩
  rw [← h, hd]

/-! ## decryption -/

namespace EncrAesCbcCrypto

/-- the initialisation vector that is taken for a cipher text -/
def vector (e : EncrAesCbcCrypto) (c : Bytes) : Bytes := e.iv.getD (c.take 16)

/-- the CBC decryption of `c[16:]` -/
def plain (C : Crypto) (e : EncrAesCbcCrypto) (c : Bytes) : Bytes :=
  cbcDecrypt (C.aesDecrypt e.block.key) 16 ((c.length - 16) / 16) (e.vector c) (c.drop 16)

section
variable {C : Crypto} {e : EncrAesCbcCrypto} {c : Slice UInt8}

theorem readIv_eq (h : 16 ≤ c.len) : e.readIv c = .ok (e.vector c.data) := by
  rw [readIv, vector]
  cases e.iv with
  | none =>
    dsimp only
    rw [Slice.sliceTo_data c (show aesBlockSize ≤ c.len from h)]
    rfl
  | some iv => rfl

theorem decrypt_short (h : c.len < 16) : ∃ err, e.decrypt C c = .err err :=
  ⟨_, if_pos h⟩

theorem decrypt_uneven (h : c.len % 16 ≠ 0) : ∃ err, e.decrypt C c = .err err := by
  by_cases h16 : c.len < 16
  · exact decrypt_short h16
  · have hlen : (c.data.drop 16).length = c.len - 16 := List.length_drop
    refine ⟨.errorf "EncrAesCbcCrypto: Cipher text is not a multiple of block size", ?_⟩
    rw [decrypt, show aesBlockSize = 16 from rfl, if_neg h16, readIv_eq (Nat.not_lt.mp h16),
      Outcome.ok_bind, Slice.sliceFrom_data c (Nat.not_lt.mp h16), Outcome.ok_bind]
    exact if_pos (show (c.data.drop 16).length % 16 ≠ 0 by omega)

variable (hi : ∀ v, e.iv = some v → v.length = 16)
include hi

theorem length_vector {c : Bytes} (h : 16 ≤ c.length) : (e.vector c).length = 16 := by
  rw [vector]
  cases hiv : e.iv with
  | none => exact List.length_take_of_le h
  | some iv => exact hi iv hiv

theorem length_plain (hC : C.Lawful) {c : Bytes} (h16 : 16 ≤ c.length) (hmod : c.length % 16 = 0) :
    (e.plain C c).length = c.length - 16 := by
  have hdec : ∀ b : Bytes, b.length = 16 → (C.aesDecrypt e.block.key b).length = 16 :=
    fun b hb => length_of_undo (fun b hb => hC.aesEncrypt_length _ b e.block.valid hb)
      (fun b hb => hC.aesDecrypt_aesEncrypt _ b e.block.valid hb) hb
  have hlen := length_cbcDecrypt hdec ((c.length - 16) / 16) (length_vector hi h16) (d := c.drop 16)
    (by rw [List.length_drop]; omega)
  rw [plain, hlen]
  omega

/-- what is left of the call for whole blocks -/
theorem decrypt_whole (h16 : 16 ≤ c.len) (hmod : c.len % 16 = 0) :
    e.decrypt C c = (do
      let last ← (Slice.ofList (e.plain C c.data)).index ((e.plain C c.data).length - 1)
      if last.toNat + 1 > (e.plain C c.data).length then
        fail s!"invalid padding length {last.toNat + 1} exceeds plaintext length {(e.plain C c.data).length}"
      else (Slice.ofList (e.plain C c.data)).sliceInit (last.toNat + 1)) := by
  have hlen : (c.data.drop 16).length = c.len - 16 := List.length_drop
  have hmod' : (c.data.drop 16).length % 16 = 0 := by omega
  have hplain : newCBCDecrypter (C.aesDecrypt e.block.key) 16 (e.vector c.data) (c.data.drop 16) =
      .ok (e.plain C c.data) := by
    rw [newCBCDecrypter, if_neg (not_not_intro (length_vector hi h16)),
      if_neg (not_not_intro hmod'), hlen]
    rfl
  rw [decrypt, show aesBlockSize = 16 from rfl, if_neg (Nat.not_lt.mpr h16), readIv_eq h16,
    Outcome.ok_bind, Slice.sliceFrom_data c h16, Outcome.ok_bind]
  dsimp only
  rw [Slice.len_mk, if_neg (not_not_intro hmod'), hplain, Outcome.ok_bind]
  rfl

/-- the padding is cut off if it is not longer than what has been decrypted -/
theorem decrypt_snoc (h16 : 16 ≤ c.len) (hmod : c.len % 16 = 0) {x : Bytes} {last : UInt8}
    (hp : e.plain C c.data = x ++ [last]) :
    (x.length < last.toNat → ∃ err, e.decrypt C c = .err err) ∧
    (last.toNat ≤ x.length → e.decrypt C c =
      .ok ⟨x.take (x.length - last.toNat), (x ++ [last]).drop (x.length - last.toNat)⟩) := by
  have hidx : (Slice.ofList (x ++ [last])).index ((x ++ [last]).length - 1) = .ok last := by
    rw [Slice.index, Slice.data_ofList, List.length_append, List.length_singleton, Nat.add_sub_cancel,
      List.getElem?_concat_length]
  have hlen : (x ++ [last]).length = x.length + 1 := by simp
  rw [decrypt_whole hi h16 hmod, hp, hidx, Outcome.ok_bind, hlen]
  constructor
  · intro h
    rw [if_pos (by omega)]
    exact ⟨_, rfl⟩
  · intro h
    rw [if_neg (by omega), Slice.sliceInit_data _ (by rw [Slice.len_ofList, hlen]; omega),
      Slice.len_ofList, hlen, Slice.data_ofList, Slice.spare_ofList, List.append_nil,
      Nat.add_sub_add_right, List.take_append_of_le_length (Nat.sub_le _ _)]

end

end EncrAesCbcCrypto

/-! ## the cipher texts that the decoder takes -/

/-- a call of the decoder returns: an error for octets that are no whole blocks and for a padding that is
longer than the decrypted octets, and otherwise these octets without their padding -/
structure EncrAesCbcCrypto.Decrypts (C : Crypto) (e : EncrAesCbcCrypto) (c : Slice UInt8) : Prop where
  returns : (e.decrypt C c).returns
  short : c.len < 16 → ∃ err, e.decrypt C c = .err err
  uneven : c.len % 16 ≠ 0 → ∃ err, e.decrypt C c = .err err
  overlong : ∀ last, (e.plain C c.data).getLast? = some last →
    (e.plain C c.data).length < last.toNat + 1 → ∃ err, e.decrypt C c = .err err
  plain : ∀ p, e.decrypt C c = .ok p → ∃ last, (e.plain C c.data).getLast? = some last ∧
    last.toNat + 1 ≤ (e.plain C c.data).length ∧
    p.data = (e.plain C c.data).take ((e.plain C c.data).length - (last.toNat + 1))

theorem EncrAesCbcCrypto.Decrypts.of_err {C : Crypto} {e : EncrAesCbcCrypto} {c : Slice UInt8}
    (h : ∃ err, e.decrypt C c = .err err) : e.Decrypts C c := by
  refine ⟨?_, fun _ => h, fun _ => h, fun _ _ _ => h, ?_⟩
  · obtain ⟨err, h⟩ := h
    rw [h]
    trivial
  · intro p hp
    obtain ⟨err, h⟩ := h
    rw [h] at hp
    exact absurd hp (by simp)

/-- without a block there is no last octet -/
theorem decrypt_vector_only {C : Crypto} {e : EncrAesCbcCrypto} {c : Slice UInt8}
    (hi : ∀ v, e.iv = some v → v.length = 16) (h : c.len = 16) :
    e.decrypt C c = .panic .indexOutOfRange := by
  have hplain : e.plain C c.data = [] := by
    rw [EncrAesCbcCrypto.plain, show c.data.length = 16 from h]
    rfl
  rw [EncrAesCbcCrypto.decrypt_whole hi (by omega) (by omega), hplain]
  rfl

theorem EncrAesCbcCrypto.Decrypts.of_whole {C : Crypto} (hC : C.Lawful) {e : EncrAesCbcCrypto}
    (hi : ∀ v, e.iv = some v → v.length = 16) {c : Slice UInt8} (h16 : 16 < c.len)
    (hmod : c.len % 16 = 0) : e.Decrypts C c := by
  have hlen : (e.plain C c.data).length = c.len - 16 :=
    EncrAesCbcCrypto.length_plain hi hC (Nat.le_of_lt h16) hmod
  rcases List.eq_nil_or_concat (e.plain C c.data) with hnil | ⟨x, last, hsnoc⟩
  · rw [hnil, List.length_nil] at hlen
    omega
  rw [List.concat_eq_append] at hsnoc
  obtain ⟨herr, hok⟩ := EncrAesCbcCrypto.decrypt_snoc hi (Nat.le_of_lt h16) hmod hsnoc
  by_cases hover : x.length < last.toNat
  · exact .of_err (herr hover)
  have hcut := hok (Nat.not_lt.mp hover)
  have htotal : (x ++ [last]).length = x.length + 1 := by simp
  refine ⟨by rw [hcut]; trivial, fun h => by omega, fun h => absurd hmod h, ?_, ?_⟩
  · intro last' hlast hlt
    rw [hsnoc, List.getLast?_concat] at hlast
    injection hlast with hlast
    rw [hsnoc, htotal, ← hlast] at hlt
    omega
  · intro p hp
    rw [hcut] at hp
    injection hp with hp
    refine ⟨last, by rw [hsnoc, List.getLast?_concat], by rw [hsnoc, htotal]; omega, ?_⟩
    rw [← hp, hsnoc, htotal, Nat.add_sub_add_right, List.take_append_of_le_length (Nat.sub_le _ _)]

/-- **When the decoder returns as it should**: for everything but an initialisation vector with no block
behind it, which is a panic. -/
theorem decrypt_total_iff {C : Crypto} (hC : C.Lawful) {e : EncrAesCbcCrypto}
    (hi : ∀ v, e.iv = some v → v.length = 16) (c : Slice UInt8) : e.Decrypts C c ↔ c.len ≠ 16 := by
  constructor
  · intro h h16
    have hret := h.returns
    rw [decrypt_vector_only hi h16] at hret
    exact hret
  · intro hne
    by_cases hshort : c.len < 16
    · exact .of_err (EncrAesCbcCrypto.decrypt_short hshort)
    by_cases hmod : c.len % 16 = 0
    · exact .of_whole hC hi (by omega) hmod
    · exact .of_err (EncrAesCbcCrypto.decrypt_uneven hmod)

/-- AES with a key of zeros -/
def zeroCipher : AesCipher := ⟨List.replicate 16 0, .inl rfl⟩

/-- one block under that key -/
def zeroCrypto : Crypto :=
  Crypto.ofTable [] (octets 16 0x0605040302020202020202020202020c)
    (octets 16 0x3c0d28342c8788ae6674b7beee90212f)

theorem zeroCrypto_lawful : zeroCrypto.Lawful := Crypto.ofTable_lawful _ (by decide) (by decide)

/-- a vector and the block behind it: four octets and their padding -/
def zeroCipherText : Bytes :=
  List.replicate 16 7 ++ octets 16 0x3c0d28342c8788ae6674b7beee90212f

theorem decrypt_total_block :
    (EncrAesCbcCrypto.mk zeroCipher none none).Decrypts zeroCrypto ⟨zeroCipherText, []⟩ ∧
      Slice.data <$> (EncrAesCbcCrypto.mk zeroCipher none none).decrypt zeroCrypto
        ⟨zeroCipherText, []⟩ = .ok [1, 2, 3, 4] := by
  refine ⟨?_, by decide +kernel⟩
  exact (decrypt_total_iff zeroCrypto_lawful (fun v hv => absurd hv (by simp)) ⟨zeroCipherText, []⟩).mpr
    (by decide)

/-- a cipher text of 16 octets: the last octet of nothing is read -/
theorem decrypt_vector_panics :
    (EncrAesCbcCrypto.mk zeroCipher none none).decrypt zeroCrypto ⟨List.replicate 16 0, []⟩ =
      .panic .indexOutOfRange := by
  decide

/-! ## encryption and decryption -/

/-- the vector is drawn, unless it has been set -/
theorem EncrAesCbcCrypto.drawIv_eq_ok {e : EncrAesCbcCrypto} {rand iv : Bytes}
    (hi : ∀ v, e.iv = some v → v.length = 16) (h : e.drawIv rand = .ok iv) :
    iv = e.vector rand ∧ iv.length = 16 := by
  rw [drawIv] at h
  rw [vector]
  cases hiv : e.iv with
  | none =>
    rw [hiv] at h
    dsimp only at h
    cases hq : readRandom aesBlockSize rand with
    | ok q =>
      rw [hq] at h
      injection h with h
      obtain ⟨hle, rfl⟩ := readRandom_ok hq
      rw [← h]
      exact ⟨rfl, List.length_take_of_le hle⟩
    | err _ =>
      rw [hq] at h
      exact absurd h (fail_ne_ok _ _)
    | panic _ =>
      rw [hq] at h
      exact absurd h (by simp)
  | some v =>
    rw [hiv] at h
    injection h with h
    subst h
    exact ⟨rfl, hi v hiv⟩

theorem encrypt_ok {C : Crypto} {rand plainText c : Bytes} {e : EncrAesCbcCrypto}
    (hp : e.padding = none) (hi : ∀ v, e.iv = some v → v.length = 16)
    (h : e.encrypt C rand plainText = .ok c) :
    ∃ pad iv : Bytes, pad.length < 16 ∧ (plainText.length + pad.length + 1) % 16 = 0 ∧
      iv.length = 16 ∧ iv = e.vector (rand.drop (16 - plainText.length % 16)) ∧
      c = iv ++ cbcEncrypt (C.aesEncrypt e.block.key) 16 ((plainText.length + pad.length + 1) / 16) iv
        (plainText ++ (pad ++ [UInt8.ofNat pad.length])) := by
  obtain ⟨r, hr, h⟩ := Outcome.bind_eq_ok.mp h
  rw [EncrAesCbcCrypto.pad, hp] at hr
  obtain ⟨pad, hr1, hpad, hmod, hr2⟩ := pkcs7Padding_ok (Outcome.wrapf_eq_ok.mp hr)
  obtain ⟨iv, hiv, h⟩ := Outcome.bind_eq_ok.mp h
  obtain ⟨hset, hl⟩ := EncrAesCbcCrypto.drawIv_eq_ok hi hiv
  rw [hr2] at hset
  obtain ⟨d, hd, h⟩ := Outcome.bind_eq_ok.mp h
  injection h with h
  have hlen : r.1.length = plainText.length + pad.length + 1 := by
    rw [hr1]
    simp only [List.length_append, List.length_cons, List.length_nil]
    omega
  rw [show aesBlockSize = 16 from rfl, newCBCEncrypter, if_neg (not_not_intro hl),
    if_neg (not_not_intro (show r.1.length % 16 = 0 by rw [hlen]; exact hmod))] at hd
  injection hd with hd
  refine ⟨pad, iv, hpad, hmod, hl, hset, ?_⟩
  rw [← h, ← hd, hlen, hr1]

/-- **What was encrypted is decrypted**, whatever the padding and the initialisation vector, by any
object with the same block cipher that takes the vector from the cipher text or has the same one. -/
theorem decrypt_encrypt {C : Crypto} (hC : C.Lawful) {rand plainText c : Bytes}
    {e e' : EncrAesCbcCrypto} (hp : e.padding = none) (hi : ∀ v, e.iv = some v → v.length = 16)
    (hblock : e'.block = e.block) (hiv' : e'.iv = none ∨ e'.iv = e.iv)
    (h : e.encrypt C rand plainText = .ok c) (sp : Bytes) :
    32 ≤ c.length ∧ ∃ pad, e'.decrypt C ⟨c, sp⟩ = .ok ⟨plainText, pad⟩ := by
  obtain ⟨pad, iv, hpad, hmod, hiv, hset, rfl⟩ := encrypt_ok hp hi h
  generalize hk : (plainText.length + pad.length + 1) / 16 = k
  have hd : (plainText ++ (pad ++ [UInt8.ofNat pad.length])).length = k * 16 := by
    simp only [List.length_append, List.length_cons, List.length_nil]
    omega
  have hkpos : 0 < k := by omega
  have henc : ∀ b : Bytes, b.length = 16 → (C.aesEncrypt e.block.key b).length = 16 :=
    fun b hb => hC.aesEncrypt_length _ _ e.block.valid hb
  have hdec : ∀ b : Bytes, b.length = 16 →
      C.aesDecrypt e.block.key (C.aesEncrypt e.block.key b) = b :=
    fun b hb => hC.aesDecrypt_aesEncrypt _ _ e.block.valid hb
  have hclen := length_cbcEncrypt henc k hiv hd
  have hround := cbcDecrypt_cbcEncrypt henc hdec k hiv hd
  generalize hE : cbcEncrypt (C.aesEncrypt e.block.key) 16 k iv
    (plainText ++ (pad ++ [UInt8.ofNat pad.length])) = E at hclen hround
  have hlen : (iv ++ E).length = 16 + k * 16 := by rw [List.length_append, hiv, hclen]
  have hi' : ∀ v, e'.iv = some v → v = iv := by
    intro v hv
    rcases hiv' with hnone | hsame
    · rw [hnone] at hv
      exact absurd hv (by simp)
    · rw [hset, EncrAesCbcCrypto.vector, ← hsame, hv]
      rfl
  have hvec : e'.vector (iv ++ E) = iv := by
    rw [EncrAesCbcCrypto.vector]
    cases hv : e'.iv with
    | none => exact List.take_left' hiv
    | some v => exact hi' v hv
  have hplain : e'.plain C (iv ++ E) = (plainText ++ pad) ++ [UInt8.ofNat pad.length] := by
    rw [EncrAesCbcCrypto.plain, hvec, hlen, hblock, List.drop_left' hiv,
      show (16 + k * 16 - 16) / 16 = k by omega, hround, List.append_assoc]
  have hn : (UInt8.ofNat pad.length).toNat = pad.length :=
    UInt8.toNat_ofNat_of_lt' (show pad.length < 256 by omega)
  have hcut := (EncrAesCbcCrypto.decrypt_snoc (c := ⟨iv ++ E, sp⟩)
    (fun v hv => (hi' v hv).symm ▸ hiv) (show 16 ≤ (iv ++ E).length by omega)
    (show (iv ++ E).length % 16 = 0 by omega) hplain).2 (by rw [hn, List.length_append]; omega)
  rw [hn, List.length_append, Nat.add_sub_cancel, List.take_left' rfl] at hcut
  exact ⟨by omega, _, hcut⟩

/-! ## what encryption needs -/

theorem pkcs7Padding_drawn {rand plainText : Bytes}
    (h : 16 - plainText.length % 16 ≤ rand.length) :
    ∃ r, pkcs7Padding rand plainText aesBlockSize = .ok r ∧
      r.2.length = rand.length - (16 - plainText.length % 16) := by
  have hlt : plainText.length % 16 < 16 := Nat.mod_lt _ (by decide)
  unfold pkcs7Padding randRead
  simp only [show aesBlockSize = 16 from rfl]
  generalize hn : 16 - plainText.length % 16 = n at h
  rw [if_neg (show ¬ n = 0 by omega), if_neg (show ¬ n > 255 by omega), if_pos h]
  exact ⟨_, rfl, List.length_drop⟩

theorem pkcs7Padding_starved {rand plainText : Bytes}
    (h : rand.length < 16 - plainText.length % 16) :
    pkcs7Padding rand plainText aesBlockSize = .panic .fatalError := by
  unfold pkcs7Padding randRead
  simp only [show aesBlockSize = 16 from rfl]
  generalize hn : 16 - plainText.length % 16 = n at h
  rw [if_neg (show ¬ n = 0 by omega), if_neg (show ¬ n > 255 by omega),
    if_neg (show ¬ n ≤ rand.length by omega)]
  rfl

namespace EncrAesCbcCrypto

/-- the random octets that the padding of `n` octets takes -/
def padDraws (e : EncrAesCbcCrypto) (n : Nat) : Nat :=
  if e.padding = none then 16 - n % 16 else 0

/-- the random octets that the initialisation vector takes -/
def ivDraws (e : EncrAesCbcCrypto) : Nat := if e.iv = none then 16 else 0

/-- the length of `n` octets with their padding -/
def paddedLength (e : EncrAesCbcCrypto) (n : Nat) : Nat :=
  match e.padding with
  | none => n + (16 - n % 16)
  | some padding => n + padding.length

/-- a vector and a padding that were set by hand fill whole blocks -/
def WholeBlocks (e : EncrAesCbcCrypto) (n : Nat) : Prop :=
  (∀ iv, e.iv = some iv → iv.length = 16) ∧ e.paddedLength n % 16 = 0

theorem pad_ok {e : EncrAesCbcCrypto} {rand plainText : Bytes}
    (h : e.padDraws plainText.length ≤ rand.length) :
    ∃ r, e.pad rand plainText = .ok r ∧ r.1.length = e.paddedLength plainText.length ∧
      r.2.length = rand.length - e.padDraws plainText.length := by
  unfold pad padDraws paddedLength at *
  cases hp : e.padding with
  | none =>
    rw [hp, if_pos rfl] at h
    obtain ⟨r, hr, hrest⟩ := pkcs7Padding_drawn h
    obtain ⟨p, hr1, hpad, hmod, _⟩ := pkcs7Padding_ok hr
    refine ⟨r, Outcome.wrapf_eq_ok.mpr hr, ?_, by rw [if_pos rfl, hrest]⟩
    rw [hr1]
    simp only [List.length_append, List.length_cons, List.length_nil]
    omega
  | some padding => exact ⟨_, rfl, List.length_append, rfl⟩

theorem pad_starved {e : EncrAesCbcCrypto} {rand plainText : Bytes}
    (h : rand.length < e.padDraws plainText.length) : e.pad rand plainText = .panic .fatalError := by
  unfold pad padDraws at *
  cases hp : e.padding with
  | none =>
    rw [hp, if_pos rfl] at h
    exact congrArg (Outcome.wrapf "Encr Encrypt()") (pkcs7Padding_starved h)
  | some padding =>
    rw [hp, if_neg (by simp)] at h
    omega

theorem drawIv_ok {e : EncrAesCbcCrypto} {rand : Bytes} (h : e.ivDraws ≤ rand.length) :
    ∃ iv, e.drawIv rand = .ok iv ∧ (iv.length = 16 ↔ ∀ v, e.iv = some v → v.length = 16) := by
  unfold drawIv ivDraws at *
  cases hi : e.iv with
  | none =>
    rw [hi, if_pos rfl] at h
    refine ⟨rand.take 16, ?_, ?_⟩
    · rw [readRandom, if_pos (show aesBlockSize ≤ rand.length from h)]
      rfl
    · rw [List.length_take]
      simp only [reduceCtorEq, false_imp_iff, implies_true, iff_true]
      omega
  | some iv => exact ⟨iv, rfl, by simp⟩

theorem drawIv_err {e : EncrAesCbcCrypto} {rand : Bytes} (h : rand.length < e.ivDraws) :
    ∃ err, e.drawIv rand = .err err := by
  unfold drawIv ivDraws at *
  cases hi : e.iv with
  | none =>
    rw [hi, if_pos rfl] at h
    refine ⟨.errorf "Read random initialization vector failed", ?_⟩
    rw [readRandom, if_neg (show ¬ aesBlockSize ≤ rand.length from Nat.not_le.mpr h)]
    rfl
  | some iv =>
    rw [hi, if_neg (by simp)] at h
    omega

section
variable {C : Crypto} {e : EncrAesCbcCrypto} {rand plainText : Bytes}

/-- too few random octets for the padding end the process -/
theorem encrypt_starved (h : rand.length < e.padDraws plainText.length) :
    e.encrypt C rand plainText = .panic .fatalError := by
  rw [encrypt, pad_starved h, Outcome.panic_bind]

/-- too few random octets for the vector are an error -/
theorem encrypt_unvectored (hp : e.padDraws plainText.length ≤ rand.length)
    (h : rand.length < e.padDraws plainText.length + e.ivDraws) :
    ∃ err, e.encrypt C rand plainText = .err err := by
  obtain ⟨r, hr, _, hrest⟩ := pad_ok hp
  obtain ⟨err, hi⟩ := drawIv_err (show r.2.length < e.ivDraws by omega)
  exact ⟨err, by rw [encrypt, hr, Outcome.ok_bind, hi, Outcome.err_bind]⟩

/-- what was encrypted got its random octets -/
theorem draws_of_encrypt {c : Bytes} (h : e.encrypt C rand plainText = .ok c) :
    e.padDraws plainText.length + e.ivDraws ≤ rand.length := by
  by_contra hfew
  by_cases hp : e.padDraws plainText.length ≤ rand.length
  · obtain ⟨err, he⟩ := encrypt_unvectored (C := C) hp (Nat.lt_of_not_le hfew)
    exact absurd (h.symm.trans he) (by simp)
  · exact absurd (h.symm.trans (encrypt_starved (Nat.lt_of_not_le hp))) (by simp)

theorem encrypt_fed (h : e.padDraws plainText.length + e.ivDraws ≤ rand.length) :
    ∃ iv padded, (iv.length = 16 ↔ ∀ v, e.iv = some v → v.length = 16) ∧
      padded.length = e.paddedLength plainText.length ∧
      e.encrypt C rand plainText =
        (newCBCEncrypter (C.aesEncrypt e.block.key) 16 iv padded >>= fun c => .ok (iv ++ c)) := by
  obtain ⟨r, hr, hlen, hrest⟩ := pad_ok (show e.padDraws plainText.length ≤ rand.length by omega)
  obtain ⟨iv, hi, hiv⟩ := drawIv_ok (show e.ivDraws ≤ r.2.length by omega)
  refine ⟨iv, r.1, hiv, hlen, ?_⟩
  rw [encrypt, hr, Outcome.ok_bind, hi, Outcome.ok_bind]
  rfl

/-- **A plain text in whole blocks is encrypted**, behind a vector of one block. -/
theorem encrypt_runs (hC : C.Lawful)
    (h : e.padDraws plainText.length + e.ivDraws ≤ rand.length)
    (hw : e.WholeBlocks plainText.length) : ∃ c, e.encrypt C rand plainText = .ok c ∧
      c.length = 16 + e.paddedLength plainText.length := by
  obtain ⟨iv, padded, hiv, hpad, heq⟩ := encrypt_fed (C := C) h
  have hl := hiv.mpr hw.1
  have hmod : padded.length % 16 = 0 := by rw [hpad]; exact hw.2
  have henc : ∀ b : Bytes, b.length = 16 → (C.aesEncrypt e.block.key b).length = 16 :=
    fun b hb => hC.aesEncrypt_length _ _ e.block.valid hb
  have hlen := length_cbcEncrypt henc (padded.length / 16) hl (d := padded) (by omega)
  rw [newCBCEncrypter, if_neg (not_not_intro hl), if_neg (not_not_intro hmod)] at heq
  refine ⟨_, heq, ?_⟩
  rw [List.length_append, hlen]
  omega

/-- a vector or a padding of the wrong size is a panic -/
theorem encrypt_uneven (h : e.padDraws plainText.length + e.ivDraws ≤ rand.length)
    (hw : ¬ e.WholeBlocks plainText.length) : e.encrypt C rand plainText = .panic .cipherInput := by
  obtain ⟨iv, padded, hiv, hpad, heq⟩ := encrypt_fed (C := C) h
  rw [heq, newCBCEncrypter]
  by_cases hl : iv.length = 16
  · have hmod : padded.length % 16 ≠ 0 := by
      rw [hpad]
      exact fun h0 => hw ⟨hiv.mp hl, h0⟩
    rw [if_neg (not_not_intro hl), if_pos hmod]
    rfl
  · rw [if_pos hl]
    rfl

/-- the padding gets its random octets, and then the vector does not get its own or the blocks are
whole -/
theorem encrypt_returns_iff (hC : C.Lawful) : (e.encrypt C rand plainText).returns ↔
    e.padDraws plainText.length ≤ rand.length ∧
      (rand.length < e.padDraws plainText.length + e.ivDraws ∨ e.WholeBlocks plainText.length) := by
  by_cases hp : e.padDraws plainText.length ≤ rand.length
  · rw [and_iff_right hp]
    by_cases hfew : rand.length < e.padDraws plainText.length + e.ivDraws
    · obtain ⟨err, he⟩ := encrypt_unvectored (C := C) hp hfew
      rw [he]
      exact iff_of_true trivial (Or.inl hfew)
    · rw [or_iff_right hfew]
      by_cases hw : e.WholeBlocks plainText.length
      · obtain ⟨c, hc, _⟩ := encrypt_runs hC (Nat.le_of_not_lt hfew) hw
        rw [hc]
        exact iff_of_true trivial hw
      · rw [encrypt_uneven (Nat.le_of_not_lt hfew) hw]
        exact iff_of_false id hw
  · rw [encrypt_starved (Nat.lt_of_not_le hp)]
    exact iff_of_false id fun h => hp h.1

end

end EncrAesCbcCrypto

/-- **The padding is minimal and comes off again.**  Encryption succeeds for every plain text, if there
are enough random octets: the result is the initialisation vector, drawn or set, and whole blocks with
one to sixteen octets more than the plain text, and the decoder gives back the plain text. -/
theorem encrypt_minimal {C : Crypto} (hC : C.Lawful) (e e' : EncrAesCbcCrypto) (plainText rand : Bytes)
    (hp : e.padding = none) (hi : ∀ v, e.iv = some v → v.length = 16) (hblock : e'.block = e.block)
    (hiv' : e'.iv = none ∨ e'.iv = e.iv)
    (hrand : 16 - plainText.length % 16 + (if e.iv = none then 16 else 0) ≤ rand.length) :
    ∃ iv body : Bytes, e.encrypt C rand plainText = .ok (iv ++ body) ∧ iv.length = 16 ∧
      iv = e.iv.getD ((rand.drop (16 - plainText.length % 16)).take 16) ∧
      body.length % 16 = 0 ∧ plainText.length + 1 ≤ body.length ∧ body.length ≤ plainText.length + 16 ∧
      ∀ sp, ∃ pad, e'.decrypt C ⟨iv ++ body, sp⟩ = .ok ⟨plainText, pad⟩ := by
  have hpadded : e.paddedLength plainText.length =
      plainText.length + (16 - plainText.length % 16) := by
    rw [EncrAesCbcCrypto.paddedLength, hp]
  have hdraws : e.padDraws plainText.length + e.ivDraws ≤ rand.length := by
    rw [EncrAesCbcCrypto.padDraws, if_pos hp]
    exact hrand
  obtain ⟨c, hc, hlen⟩ := EncrAesCbcCrypto.encrypt_runs hC hdraws ⟨hi, by rw [hpadded]; omega⟩
  obtain ⟨pad, iv, _, _, hiv, hvec, hbody⟩ := encrypt_ok hp hi hc
  generalize cbcEncrypt _ _ _ _ _ = body at hbody
  subst hbody
  rw [List.length_append, hiv, hpadded] at hlen
  refine ⟨iv, body, hc, hiv, hvec, by omega, by omega, by omega, ?_⟩
  intro sp
  exact (decrypt_encrypt hC hp hi hblock hiv' hc sp).2

/-- four octets: twelve random octets for the padding and sixteen for the vector -/
theorem encrypt_minimal_drawn :
    (EncrAesCbcCrypto.mk zeroCipher none none).encrypt zeroCrypto
        (List.replicate 12 5 ++ List.replicate 16 7) [1, 2, 3, 4] = .ok zeroCipherText ∧
      ∀ sp, ∃ pad, (EncrAesCbcCrypto.mk zeroCipher none none).decrypt zeroCrypto
        ⟨zeroCipherText, sp⟩ = .ok ⟨[1, 2, 3, 4], pad⟩ := by
  have hval : (EncrAesCbcCrypto.mk zeroCipher none none).encrypt zeroCrypto
      (List.replicate 12 5 ++ List.replicate 16 7) [1, 2, 3, 4] = .ok zeroCipherText := by
    decide +kernel
  obtain ⟨iv, body, henc, _, _, _, _, _, hdec⟩ := encrypt_minimal zeroCrypto_lawful
    ⟨zeroCipher, none, none⟩ ⟨zeroCipher, none, none⟩ [1, 2, 3, 4]
    (List.replicate 12 5 ++ List.replicate 16 7) rfl (fun v hv => absurd hv (by simp)) rfl (.inl rfl)
    (by decide)
  rw [Outcome.ok.inj (henc.symm.trans hval)] at hdec
  exact ⟨hval, hdec⟩

end Ike
