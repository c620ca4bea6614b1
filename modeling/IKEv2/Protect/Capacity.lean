import IKEv2.Protect.Failure
import IKEv2.Protect.Session

/-!
# How much a protected message can hold

The payloads are padded to whole blocks, a vector is put in front and a checksum behind them, and
the SK payload has sixteen bits for its length.

* `seals_populated`          with a complete key and random octets, the payloads are encrypted if they
                             can be encoded;
* `encodeEncrypt_fits`       and the message is sealed if they have at most 65487 octets;
* `encodeEncrypt_capacity`   the sender takes payloads of up to 65487 octets, and how long the message
                             then is.
-/

set_option linter.unusedVariables false

namespace Ike
open GoLang

/-- the next multiple of sixteen -/
theorem paddedLength_none {e : EncrAesCbcCrypto} (h : e.padding = none) (n : Nat) :
    e.paddedLength n = 16 * (n / 16) + 16 := by
  rw [EncrAesCbcCrypto.paddedLength, h]
  dsimp only
  omega

section
variable {e : EncrAesCbcCrypto} (hiv : e.iv = none) (hpad : e.padding = none) (n : Nat)
include hiv hpad

theorem draws_le {rand : Bytes} (hrand : 32 ≤ rand.length) : e.padDraws n + e.ivDraws ≤ rand.length := by
  rw [EncrAesCbcCrypto.padDraws, EncrAesCbcCrypto.ivDraws, if_pos hpad, if_pos hiv]
  omega

theorem wholeBlocks_none : e.WholeBlocks n := by
  refine ⟨fun iv h => absurd (hiv.symm.trans h) (by simp), ?_⟩
  rw [paddedLength_none hpad]
  omega

end

theorem seals_populated {k : IKESAKey} (hk : k.Populated) {rand : Bytes} (hrand : 32 ≤ rand.length)
    {m : IKEMessage} {role : Role} {t : INTEGType} {l : Nat} :
    Seals rand m k role t l ↔ k.integInfo = some t ∧
      ∃ plain, m.payloads.encode = .ok plain ∧ l = 32 + 16 * (plain.length / 16) := by
  obtain ⟨encr, hencr, hiv, hpad⟩ := hk.encr role
  constructor
  · rintro ⟨ht, _, encr', plain, hencr', hplain, _, _, rfl⟩
    obtain rfl := Option.some.inj (hencr.symm.trans hencr')
    refine ⟨ht, plain, hplain, ?_⟩
    rw [paddedLength_none hpad]
    omega
  · rintro ⟨ht, plain, hplain, rfl⟩
    refine ⟨ht, hk.complete .responder, encr, plain, hencr, hplain, draws_le hiv hpad _ hrand,
      wholeBlocks_none hiv hpad _, ?_⟩
    rw [paddedLength_none hpad]
    omega

/-- the vector and the blocks -/
theorem length_encrypted {C : Crypto} (hC : C.Lawful) {e : EncrAesCbcCrypto} (hi : e.iv = none)
    (hp : e.padding = none) {rand plain c : Bytes} (h : e.encrypt C rand plain = .ok c) :
    c.length = 32 + 16 * (plain.length / 16) := by
  obtain ⟨c', hc', hlen⟩ := EncrAesCbcCrypto.encrypt_runs hC (EncrAesCbcCrypto.draws_of_encrypt h)
    (wholeBlocks_none hi hp _)
  obtain rfl := Outcome.ok.inj (h.symm.trans hc')
  rw [hlen, paddedLength_none hp]
  omega

/-- a sealed message: 32 octets, the vector, the blocks and the checksum -/
theorem length_sealed {C : Crypto} (hC : C.Lawful) {k : IKESAKey} (hk : k.Populated) {rand : Bytes}
    {m : IKEMessage} {role : Role} {b plain : Bytes}
    (h : (encodeEncrypt C rand (some m) (some k) role).1 = .ok b)
    (hplain : m.payloads.encode = .ok plain) :
    b.length = 64 + k.outputLength + 16 * (plain.length / 16) := by
  obtain ⟨encr, plain', cipher, sum, p, hencr, hplain', hcipher, hsum, _, hb⟩ := encodeEncrypt_ok hk h
  obtain rfl := Outcome.ok.inj (hplain.symm.trans hplain')
  obtain ⟨encr', hencr', hiv, hpad⟩ := hk.encr role
  obtain rfl := Option.some.inj (hencr.symm.trans hencr')
  have hlen := length_encrypted hC hiv hpad hcipher
  rw [encode_sealed hb, List.length_append, length_sealedHead, List.length_append, hsum]
  omega

theorem getOutputLength_cases (t : INTEGType) : t.getOutputLength = 12 ∨ t.getOutputLength = 16 := by
  cases t with
  | authHmacSha1_96 => exact .inl rfl
  | authHmacSha2_256_128 => exact .inr rfl

theorem encodeEncrypt_fits {C : Crypto} (hC : C.Lawful) {k : IKESAKey} (hk : k.Populated)
    {rand : Bytes} (hrand : 32 ≤ rand.length) {m : IKEMessage} (role : Role) {plain : Bytes}
    (hplain : m.payloads.encode = .ok plain) (hle : plain.length ≤ 65487) :
    ∃ b, (encodeEncrypt C rand (some m) (some k) role).1 = .ok b := by
  obtain ⟨t, ht⟩ := hk.integInfo
  obtain ⟨cipher, hs, hlen⟩ :=
    (sealStart_iff hC).mpr ((seals_populated hk hrand).mpr ⟨ht, plain, hplain, rfl⟩)
  have ht12 := getOutputLength_cases t
  obtain ⟨h, hh⟩ := hk.integ role
  refine encodeEncryptKey_succeeds hs hC.hmac_length (by omega) ht ?_
  rintro (hlong | hnone)
  · omega
  · exact absurd (hh.symm.trans hnone) (by simp)

/-- **How much a protected message can hold.**  With a complete key and random octets, the call
succeeds iff the payloads can be encoded and have at most 65487 octets; the message then has 64 octets,
the checksum and the whole blocks of the payloads. -/
theorem encodeEncrypt_capacity {C : Crypto} (hC : C.Lawful) {k : IKESAKey} (hk : k.Populated)
    {rand : Bytes} (hrand : 32 ≤ rand.length) (m : IKEMessage) (role : Role) :
    ((∃ b, (encodeEncrypt C rand (some m) (some k) role).1 = .ok b) ↔
      ∃ plain, m.payloads.encode = .ok plain ∧ plain.length ≤ 65487) ∧
    ∀ b plain, (encodeEncrypt C rand (some m) (some k) role).1 = .ok b →
      m.payloads.encode = .ok plain → b.length = 64 + k.outputLength + 16 * (plain.length / 16) := by
  refine ⟨⟨?_, ?_⟩, fun b plain hb hplain => length_sealed hC hk hb hplain⟩
  · rintro ⟨b, hb⟩
    have hb : (encodeEncryptKey C rand role (m, k)).1 = .ok b := hb
    cases hs : sealStart C rand m k role with
    | err err =>
      rw [encodeEncryptKey_err hs] at hb
      exact absurd hb (by simp)
    | panic p =>
      rw [encodeEncryptKey_panic hs] at hb
      exact absurd hb (by simp)
    | ok r =>
      obtain ⟨t, cipher⟩ := r
      obtain ⟨ht, plain, hplain, hlen⟩ :=
        (seals_populated hk hrand).mp ((sealStart_iff hC).mp ⟨cipher, hs, rfl⟩)
      refine ⟨plain, hplain, ?_⟩
      by_contra hlong
      have ht12 := getOutputLength_cases t
      obtain ⟨err, he⟩ := encodeEncryptKey_fails hs (by omega) ht (.inl (by omega))
      exact absurd (hb.symm.trans he) (by simp)
  · rintro ⟨plain, hplain, hle⟩
    exact encodeEncrypt_fits hC hk hrand role hplain hle

theorem encode_nonce {d : Bytes} (h : 4 + d.length ≤ 65535) :
    IKEPayloadContainer.encode [.nonce ⟨d⟩] = .ok (IKEPayloadContainer.record 0 d) := by
  refine IKEPayloadContainer.encode_cons.mpr ⟨d, [], rfl, Nat.not_lt.mpr h, rfl, ?_⟩
  exact (List.append_nil _).symm

/-- a nonce of 65483 octets fits, one of 65484 octets does not -/
theorem encodeEncrypt_capacity_nonce :
    (∃ b, (encodeEncrypt messageCrypto (List.replicate 32 7)
      (some (newMessage 1 2 37 false true 0 [.nonce ⟨List.replicate 65483 9⟩])) (some sharedKey)
      .initiator).1 = .ok b ∧ b.length = 65548) ∧
    ¬ ∃ b, (encodeEncrypt messageCrypto (List.replicate 32 7)
      (some (newMessage 1 2 37 false true 0 [.nonce ⟨List.replicate 65484 9⟩])) (some sharedKey)
      .initiator).1 = .ok b := by
  have hrand : 32 ≤ (List.replicate 32 (7 : UInt8)).length := by decide
  have hcap := fun m => encodeEncrypt_capacity messageCrypto_lawful sharedKey_populated hrand m .initiator
  have henc : ∀ {n : Nat}, n ≤ 65531 → ∃ x, IKEPayloadContainer.encode
      [.nonce ⟨List.replicate n (9 : UInt8)⟩] = .ok x ∧ x.length = 4 + n := by
    intro n hn
    refine ⟨_, encode_nonce (by rw [List.length_replicate]; omega), ?_⟩
    simp only [IKEPayloadContainer.record, List.length_append, List.length_cons, List.length_nil,
      length_putUint16, List.length_replicate]
  refine ⟨?_, fun hb => ?_⟩
  · obtain ⟨x, hx, hlen⟩ := henc (n := 65483) (by omega)
    obtain ⟨b, hb⟩ := (hcap (newMessage 1 2 37 false true 0
      [.nonce ⟨List.replicate 65483 9⟩])).1.mpr ⟨x, hx, by omega⟩
    refine ⟨b, hb, ((hcap _).2 b x hb hx).trans ?_⟩
    rw [hlen]
    rfl
  · obtain ⟨x, hx, hlen⟩ := henc (n := 65484) (by omega)
    obtain ⟨plain, hplain, hle⟩ := (hcap _).1.mp hb
    obtain rfl := Outcome.ok.inj (hx.symm.trans hplain)
    omega

end Ike
