import IKEv2.Message.NilFree
import IKEv2.Protect.RoundTrip

/-!
# Calls that fail

`encryptMsg` has two halves.  `sealStart` asks for the objects of the key, encodes the payloads and
encrypts them; `sealRest` puts the SK payload in their place, and can still fail: when the SK payload
is too long for its length field, or when there is no integrity object for the checksum.

The sender asks for the objects of the responder, and the receiver for those of the initiator,
whatever their role is.

* `failed_seal_keeps_payloads_iff`   when a failed call leaves the payloads of the message in place;
* `missing_objects_reported_iff`     when a missing object of the key is reported as an error.
-/

set_option linter.unusedVariables false

namespace Ike
open GoLang

/-! ## the two halves of the sender -/

/-- the algorithm of the checksum and the cipher text -/
def sealStart (C : Crypto) (rand : Bytes) (m : IKEMessage) (k : IKESAKey) (role : Role) :
    Outcome (INTEGType × Bytes) := do
  let integInfo ← require "encryptMsg(): No integrity algorithm specified" k.integInfo
  let _ ← require "encryptMsg(): No encryption algorithm specified" k.encrInfo
  let _ ← require "encryptMsg(): No responder's integrity key" k.integ_r
  let _ ← require "encryptMsg(): No responder's encryption key" k.encr_r
  let plainTextPayload ← m.payloads.encode.wrapf "encryptMsg(): Encoding IKE payload failed."
  let cipherText ← (encryptPayload C rand plainTextPayload k role).wrapf
    "encryptMsg(): Error encrypting message"
  pure (integInfo, cipherText)

/-- the message with the SK payload, twice: without and with the checksum -/
def sealRest (C : Crypto) (role : Role) (next : UInt8) (checksumLength : Nat) (cipherText : Bytes) :
    Proc (IKEMessage × IKESAKey) Unit := do
  let encryptedData := cipherText ++ List.replicate checksumLength 0
  Proc.modify fun s => ({ s.1 with payloads := [.sk ⟨next, encryptedData⟩] }, s.2)
  let ikeMsgData ← (Proc.onFst IKEMessage.encode).wrapf "encryptMsg(): Encoding IKE message error"
  let covered ← Proc.lift ((Slice.ofList ikeMsgData).sliceInit checksumLength)
  let checksumOfMessage ← (Proc.onSnd (calculateIntegrity C role covered.data)).wrapf
    "encryptMsg(): Error calculating checksum"
  let _ ← Proc.lift ((Slice.ofList encryptedData).sliceLast checksumLength)
  Proc.modify fun s => ({ s.1 with payloads :=
    [.sk ⟨next, copyLast checksumLength encryptedData checksumOfMessage⟩] }, s.2)

theorem encryptMsg_halves (C : Crypto) (rand : Bytes) (role : Role) (m : IKEMessage) (k : IKESAKey) :
    encryptMsg C rand role (m, k) = (Proc.lift (sealStart C rand m k role) >>= fun r =>
      sealRest C role m.payloads.firstType r.1.getOutputLength r.2) (m, k) := by
  unfold sealStart
  simp only [Proc.lift_bind_bind]
  rfl

/-- the sender asks for the objects of the responder, in both roles -/
theorem sealStart_refuses {C : Crypto} {k : IKESAKey} (hk : ¬ k.Complete .responder) (rand : Bytes)
    (m : IKEMessage) (role : Role) : ∃ err, sealStart C rand m k role = .err err := by
  unfold sealStart
  cases ht : k.integInfo with
  | none => exact ⟨_, rfl⟩
  | some t =>
    cases hu : k.encrInfo with
    | none => exact ⟨_, rfl⟩
    | some u =>
      cases hi : k.integ_r with
      | none => exact ⟨_, rfl⟩
      | some i =>
        cases he : k.encr_r with
        | none => exact ⟨_, rfl⟩
        | some e =>
          have hi' : k.integ .responder = some i := hi
          have he' : k.encr .responder = some e := he
          exact absurd ⟨by simp [ht], by simp [hu], by simp [hi'], by simp [he']⟩ hk

theorem sealStart_run {C : Crypto} {k : IKESAKey} {t : INTEGType} (ht : k.integInfo = some t)
    (hk : k.Complete .responder) (rand : Bytes) (m : IKEMessage) (role : Role) :
    sealStart C rand m k role = (do
      let plain ← m.payloads.encode.wrapf "encryptMsg(): Encoding IKE payload failed."
      let encr ← deref (k.encr role)
      let cipher ← ((encr.encrypt C rand plain).wrapf "encryptPayload()").wrapf
        "encryptMsg(): Error encrypting message"
      pure (t, cipher)) := by
  obtain ⟨_, hu, hi, he⟩ := hk
  obtain ⟨u, hu⟩ := Option.ne_none_iff_exists'.mp hu
  obtain ⟨i, hi⟩ := Option.ne_none_iff_exists'.mp hi
  obtain ⟨e, he⟩ := Option.ne_none_iff_exists'.mp he
  have hi' : k.integ_r = some i := hi
  have he' : k.encr_r = some e := he
  unfold sealStart
  simp only [ht, hu, hi', he', require, Outcome.ok_bind, encryptPayload_eq]
  refine bind_congr fun plain => ?_
  cases k.encr role <;> rfl

/-! ## the SK payload -/

theorem encode_payloads (m : IKEMessage) : (IKEMessage.encode m).2.payloads = m.payloads := by
  unfold IKEMessage.encode
  cases m.payloads.encode <;> rfl

section
variable {h : IKEHeader} {e : Encrypted}

theorem encode_sk_long (hl : 65535 < 4 + e.encryptedData.length) :
    ∃ err, (IKEMessage.encode ⟨h, [.sk e]⟩).1 = .err err := by
  have hp : ∃ err, IKEPayloadContainer.encode [.sk e] = .err err := by
    rw [IKEPayloadContainer.encode, IKEPayload.marshal, Encrypted.marshal,
      if_neg (show ¬ e.encryptedData.length = 0 by omega), Outcome.wrapf_ok, Outcome.ok_bind,
      if_pos (show 4 + e.encryptedData.length > 0xFFFF from hl)]
    exact ⟨_, rfl⟩
  obtain ⟨err, hp⟩ := hp
  unfold IKEMessage.encode
  simp only [hp]
  exact ⟨_, rfl⟩

theorem encode_sk_fits (h0 : 0 < e.encryptedData.length) (hl : ¬ 65535 < 4 + e.encryptedData.length) :
    ∃ b, (IKEMessage.encode ⟨h, [.sk e]⟩).1 = .ok b := by
  have hp : IKEPayloadContainer.encode [.sk e] =
      .ok (IKEPayloadContainer.record e.nextPayload e.encryptedData) := by
    rw [IKEPayloadContainer.encode, IKEPayload.marshal, Encrypted.marshal,
      if_neg (show ¬ e.encryptedData.length = 0 by omega), Outcome.wrapf_ok, Outcome.ok_bind,
      if_neg (show ¬ 4 + e.encryptedData.length > 0xFFFF from hl)]
    simp [IKEPayloadContainer.encode, IKEPayloadContainer.nextOctet, IKEPayloadContainer.lastNext]
  have hlen : (IKEPayloadContainer.record e.nextPayload e.encryptedData).length =
      4 + e.encryptedData.length := by
    simp only [IKEPayloadContainer.record, List.length_append, List.length_cons, List.length_nil,
      length_putUint16]
  unfold IKEMessage.encode
  simp only [hp]
  unfold IKEHeader.marshal
  simp only [IKEHeader.setPayload, show ikeHeaderLen = 28 from rfl]
  rw [if_neg (by omega)]
  exact ⟨_, rfl⟩

end

/-- what the second half leaves in the message: one SK payload with `n` octets behind the cipher text -/
def HoldsSealed (next : UInt8) (l : Nat) (s : IKEMessage × IKESAKey) : Prop :=
  ∃ x, s.1.payloads = [.sk ⟨next, x⟩] ∧ x.length = l

theorem length_copyLast {n : Nat} {dst src : Bytes} (hn : n ≤ dst.length) :
    (copyLast n dst src).length = dst.length := by
  simp only [copyLast, List.length_append, List.length_take, List.length_drop]
  omega

theorem encode_maintains (next : UInt8) (l : Nat) :
    Proc.Maintains (HoldsSealed next l) (Proc.onFst IKEMessage.encode) := by
  intro s hs
  obtain ⟨x, hx, hl⟩ := hs
  exact ⟨x, (encode_payloads s.1).trans hx, hl⟩

theorem sealRest_holds (C : Crypto) (role : Role) (next : UInt8) (n : Nat) (cipher : Bytes)
    (s : IKEMessage × IKESAKey) :
    HoldsSealed next (cipher.length + n) (sealRest C role next n cipher s).2 := by
  have hlen : (cipher ++ List.replicate n (0 : UInt8)).length = cipher.length + n := by
    rw [List.length_append, List.length_replicate]
  unfold sealRest
  rw [Proc.modify_bind]
  refine Proc.Maintains.bind ((encode_maintains next _).wrapf _) (fun b =>
    (Proc.maintains_lift _).bind fun covered => Proc.Maintains.bind ?_ fun sum =>
    (Proc.maintains_lift _).bind fun _ => ?_) _ ⟨_, rfl, hlen⟩
  · exact fun s hs => hs
  · intro s hs
    exact ⟨_, rfl, (length_copyLast (by omega)).trans hlen⟩

/-! ## the outcome of the second half -/

section
variable {C : Crypto} {role : Role} {next : UInt8} {n : Nat} {cipher : Bytes} {m : IKEMessage}
  {k : IKESAKey}

theorem sealRest_fst : (sealRest C role next n cipher (m, k)).1 = (do
    let b ← (IKEMessage.encode ⟨m.header, [.sk ⟨next, cipher ++ List.replicate n 0⟩]⟩).1.wrapf
      "encryptMsg(): Encoding IKE message error"
    let covered ← (Slice.ofList b).sliceInit n
    let sum ← (calculateIntegrity C role covered.data k).1.wrapf
      "encryptMsg(): Error calculating checksum"
    let _ ← (Slice.ofList (cipher ++ List.replicate n 0)).sliceLast n
    pure ()) := by
  unfold sealRest
  rw [Proc.modify_bind, Proc.fst_bind]
  refine bind_congr fun b => ?_
  rw [Proc.fst_lift_bind]
  refine bind_congr fun covered => ?_
  rw [Proc.fst_bind]
  refine bind_congr fun sum => ?_
  rw [Proc.fst_lift_bind]
  rfl

/-- an SK payload that does not fit its length field -/
theorem sealRest_long (hl : 65535 < 4 + (cipher.length + n)) :
    ∃ err, (sealRest C role next n cipher (m, k)).1 = .err err := by
  obtain ⟨err, he⟩ := encode_sk_long (h := m.header) (e := ⟨next, cipher ++ List.replicate n 0⟩)
    (by rw [List.length_append, List.length_replicate]; exact hl)
  rw [sealRest_fst, he]
  exact ⟨_, rfl⟩

/-- the first encoding is there, and has the zeros at its end -/
theorem sealRest_fits (h0 : 0 < cipher.length) (hl : ¬ 65535 < 4 + (cipher.length + n)) :
    ∃ covered, (sealRest C role next n cipher (m, k)).1 =
      (fun _ => ()) <$> (calculateIntegrity C role covered k).1.wrapf
        "encryptMsg(): Error calculating checksum" := by
  have hlen : (cipher ++ List.replicate n (0 : UInt8)).length = cipher.length + n := by
    rw [List.length_append, List.length_replicate]
  obtain ⟨b, hb⟩ := encode_sk_fits (h := m.header) (e := ⟨next, cipher ++ List.replicate n 0⟩)
    (by rw [hlen]; omega) (by rw [hlen]; exact hl)
  have hblen : n ≤ b.length := by
    rw [encode_sealed hb]
    simp only [List.length_append, List.length_replicate]
    omega
  refine ⟨b.take (b.length - n), ?_⟩
  rw [sealRest_fst, hb, Outcome.wrapf_ok, Outcome.ok_bind,
    Slice.sliceInit_data _ (show n ≤ b.length from hblen), Outcome.ok_bind,
    Slice.sliceLast_data _ (show n ≤ (cipher ++ List.replicate n (0 : UInt8)).length by omega)]
  show (calculateIntegrity C role (b.take (b.length - n)) k).1.wrapf _ >>= _ = _
  cases (calculateIntegrity C role (b.take (b.length - n)) k).1 <;> rfl

/-- no integrity object for the checksum -/
theorem sealRest_unsigned (h0 : 0 < cipher.length) (ht : k.integInfo ≠ none)
    (hk : k.integ role = none) : ∃ err, (sealRest C role next n cipher (m, k)).1 = .err err := by
  by_cases hl : 65535 < 4 + (cipher.length + n)
  · exact sealRest_long hl
  · obtain ⟨covered, heq⟩ := sealRest_fits (C := C) (k := k) (m := m) h0 hl
    obtain ⟨err, he⟩ := calculateIntegrity_err (C := C) ht hk covered
    rw [heq, he]
    exact ⟨_, rfl⟩

theorem sealRest_signed (hC : C.Sized) (h0 : 0 < cipher.length)
    (hl : ¬ 65535 < 4 + (cipher.length + n)) {t : INTEGType} (ht : k.integInfo = some t)
    (hk : k.integ role ≠ none) : (sealRest C role next n cipher (m, k)).1 = .ok () := by
  obtain ⟨covered, heq⟩ := sealRest_fits (C := C) (k := k) (m := m) h0 hl
  obtain ⟨h, hh⟩ := Option.ne_none_iff_exists'.mp hk
  have hsum : t.getOutputLength ≤ (C.hmac h.fn h.key covered).length := by
    rw [hC]
    exact t.getOutputLength_le h.fn
  rw [heq, calculateIntegrity_run ht hh, Slice.sliceTo_data _ hsum]
  rfl

end

/-! ## the outcome of the first half -/

/-- the payloads are encrypted, to `l` octets -/
def Seals (rand : Bytes) (m : IKEMessage) (k : IKESAKey) (role : Role) (t : INTEGType) (l : Nat) :
    Prop :=
  k.integInfo = some t ∧ k.Complete .responder ∧
    ∃ encr plain, k.encr role = some encr ∧ m.payloads.encode = .ok plain ∧
      encr.padDraws plain.length + encr.ivDraws ≤ rand.length ∧ encr.WholeBlocks plain.length ∧
      l = 16 + encr.paddedLength plain.length

theorem sealStart_iff {C : Crypto} (hC : C.Lawful) {rand : Bytes} {m : IKEMessage} {k : IKESAKey}
    {role : Role} {t : INTEGType} {l : Nat} :
    (∃ cipher, sealStart C rand m k role = .ok (t, cipher) ∧ cipher.length = l) ↔
      Seals rand m k role t l := by
  constructor
  · intro h
    obtain ⟨cipher, h, rfl⟩ := h
    have hk : k.Complete .responder := by
      by_contra hk
      obtain ⟨err, he⟩ := sealStart_refuses (C := C) hk rand m role
      exact absurd (h.symm.trans he) (by simp)
    obtain ⟨t', ht'⟩ := Option.ne_none_iff_exists'.mp hk.1
    rw [sealStart_run ht' hk] at h
    obtain ⟨plain, hplain, h⟩ := Outcome.bind_eq_ok.mp h
    obtain ⟨encr, hencr, h⟩ := Outcome.bind_eq_ok.mp h
    obtain ⟨c, hc, h⟩ := Outcome.bind_eq_ok.mp h
    obtain ⟨rfl, rfl⟩ := Prod.mk.inj (Outcome.ok.inj h)
    have hencr : k.encr role = some encr := by
      cases he : k.encr role with
      | none => rw [he] at hencr; exact absurd hencr (by simp [deref])
      | some e => rw [he] at hencr; exact congrArg some (Outcome.ok.inj hencr)
    have hc := Outcome.wrapf_eq_ok.mp (Outcome.wrapf_eq_ok.mp hc)
    have hfed := EncrAesCbcCrypto.draws_of_encrypt hc
    by_cases hw : encr.WholeBlocks plain.length
    · obtain ⟨c', hc', hlen⟩ := EncrAesCbcCrypto.encrypt_runs hC hfed hw
      obtain rfl : c' = c := Outcome.ok.inj (hc'.symm.trans hc)
      exact ⟨ht', hk, encr, plain, hencr, Outcome.wrapf_eq_ok.mp hplain, hfed, hw, hlen⟩
    · exact absurd (hc.symm.trans (EncrAesCbcCrypto.encrypt_uneven hfed hw)) (by simp)
  · intro h
    obtain ⟨ht, hk, encr, plain, hencr, hplain, hfed, hw, rfl⟩ := h
    obtain ⟨c, hc, hlen⟩ := EncrAesCbcCrypto.encrypt_runs hC hfed hw
    refine ⟨c, ?_, hlen⟩
    rw [sealStart_run ht hk, hplain, hencr]
    show ((encr.encrypt C rand plain).wrapf _).wrapf _ >>= _ = _
    rw [hc]
    rfl

/-! ## the whole call -/

section
variable {C : Crypto} {rand : Bytes} {m : IKEMessage} {k : IKESAKey} {role : Role}

theorem encodeEncryptKey_halves : encodeEncryptKey C rand role (m, k) =
    ((Proc.wrapf "IKE encode encrypt" (Proc.lift (sealStart C rand m k role) >>= fun r =>
      sealRest C role m.payloads.firstType r.1.getOutputLength r.2)) >>= fun _ =>
      (Proc.onFst IKEMessage.encode).wrapf "IKE encode") (m, k) := by
  unfold encodeEncryptKey
  rw [Proc.bind_apply, Proc.bind_apply]
  unfold Proc.wrapf
  rw [encryptMsg_halves]

theorem encodeEncryptKey_err {err : GoError} (h : sealStart C rand m k role = .err err) :
    encodeEncryptKey C rand role (m, k) = (.err (.wrapf "IKE encode encrypt" err), m, k) := by
  rw [encodeEncryptKey_halves, h]
  rfl

theorem encodeEncryptKey_panic {p : Panic} (h : sealStart C rand m k role = .panic p) :
    encodeEncryptKey C rand role (m, k) = (.panic p, m, k) := by
  rw [encodeEncryptKey_halves, h]
  rfl

variable {t : INTEGType} {cipher : Bytes}
  (hs : sealStart C rand m k role = .ok (t, cipher))
include hs

theorem encodeEncryptKey_sealed : encodeEncryptKey C rand role (m, k) =
    ((sealRest C role m.payloads.firstType t.getOutputLength cipher).wrapf "IKE encode encrypt" >>=
      fun _ => (Proc.onFst IKEMessage.encode).wrapf "IKE encode") (m, k) := by
  rw [encodeEncryptKey_halves, hs]
  rfl

theorem encodeEncryptKey_holds :
    HoldsSealed m.payloads.firstType (cipher.length + t.getOutputLength)
      (encodeEncryptKey C rand role (m, k)).2 := by
  rw [encodeEncryptKey_sealed hs]
  exact Proc.after_bind (sealRest_holds ..) fun _ => (encode_maintains _ _).wrapf _

theorem encodeEncryptKey_fails (h0 : 0 < cipher.length) (ht : k.integInfo = some t)
    (h : 65535 < 4 + (cipher.length + t.getOutputLength) ∨ k.integ role = none) :
    ∃ err, (encodeEncryptKey C rand role (m, k)).1 = .err err := by
  have hr : ∃ err, (sealRest C role m.payloads.firstType t.getOutputLength cipher (m, k)).1 =
      .err err := by
    cases h with
    | inl hl => exact sealRest_long hl
    | inr hk => exact sealRest_unsigned h0 (by simp [ht]) hk
  obtain ⟨err, hr⟩ := hr
  rw [encodeEncryptKey_sealed hs, Proc.fst_bind, Proc.wrapf, hr]
  exact ⟨_, rfl⟩

theorem encodeEncryptKey_succeeds (hC : C.Sized) (h0 : 0 < cipher.length) (ht : k.integInfo = some t)
    (h : ¬ (65535 < 4 + (cipher.length + t.getOutputLength) ∨ k.integ role = none)) :
    ∃ b, (encodeEncryptKey C rand role (m, k)).1 = .ok b := by
  obtain ⟨hl, hk⟩ := not_or.mp h
  obtain ⟨x, hx, hlen⟩ :=
    sealRest_holds C role m.payloads.firstType t.getOutputLength cipher (m, k)
  rw [encodeEncryptKey_sealed hs, Proc.fst_bind, Proc.wrapf, sealRest_signed hC h0 hl ht hk,
    Outcome.wrapf_ok, Outcome.ok_bind, Proc.wrapf, Proc.onFst]
  generalize (sealRest C role m.payloads.firstType t.getOutputLength cipher (m, k)).2.1 = u at hx
  obtain ⟨hd, ps⟩ := u
  obtain rfl : ps = _ := hx
  obtain ⟨b, hb⟩ := encode_sk_fits (h := hd) (e := ⟨m.payloads.firstType, x⟩)
    (show 0 < x.length by omega) (show ¬ 65535 < 4 + x.length by omega)
  rw [hb]
  exact ⟨b, rfl⟩

end

/-! ## what a failed call leaves -/

/-- the payloads are replaced before the call fails: encrypted they are too long for an SK payload, or
the checksum has no integrity object -/
def LosesPayloads (rand : Bytes) (m : IKEMessage) (k : IKESAKey) (role : Role) : Prop :=
  ∃ t l, Seals rand m k role t l ∧
    (65535 < 4 + (l + t.getOutputLength) ∨ k.integ role = none)

theorem paddedLength_ge (e : EncrAesCbcCrypto) (n : Nat) : n ≤ e.paddedLength n := by
  unfold EncrAesCbcCrypto.paddedLength
  cases e.padding <;> exact Nat.le_add_right ..

/-- the SK payload of a message is longer than the payloads that are in it -/
theorem ne_of_holdsSealed {m : IKEMessage} {next : UInt8} {plain : Bytes} {l : Nat}
    {s : IKEMessage × IKESAKey} (hp : m.payloads.encode = .ok plain) (hl : plain.length ≤ l)
    (hs : HoldsSealed next l s) : s.1.payloads ≠ m.payloads := by
  intro he
  obtain ⟨x, hx, hlen⟩ := hs
  rw [← he, hx] at hp
  obtain ⟨data, rest, hdata, _, _, hp⟩ := IKEPayloadContainer.encode_cons.mp hp
  have hdata : data = x := by
    unfold IKEPayload.marshal Encrypted.marshal at hdata
    simp only at hdata
    split at hdata
    · exact absurd hdata (fail_ne_ok _ _)
    · exact (Outcome.ok.inj hdata).symm
  have hplain : plain.length = 4 + x.length + rest.length := by
    rw [hp, hdata]
    simp only [IKEPayloadContainer.record, List.length_append, List.length_cons, List.length_nil,
      length_putUint16]
  omega

theorem loses_payloads {C : Crypto} (hC : C.Lawful) {rand : Bytes} {m : IKEMessage} {k : IKESAKey}
    {role : Role} (h : LosesPayloads rand m k role) :
    ∃ err m' key', encodeEncrypt C rand (some m) (some k) role = (.err err, some m', key') ∧
      m'.payloads ≠ m.payloads := by
  obtain ⟨t, l, hseals, hwhy⟩ := h
  obtain ⟨cipher, hs, rfl⟩ := (sealStart_iff hC).mpr hseals
  obtain ⟨ht, _, encr, plain, _, hplain, _, _, hlen⟩ := hseals
  have hge := paddedLength_ge encr plain.length
  obtain ⟨err, he⟩ := encodeEncryptKey_fails hs (by omega) ht hwhy
  refine ⟨err, _, _, Prod.ext he rfl, ?_⟩
  exact ne_of_holdsSealed hplain (by omega) (encodeEncryptKey_holds hs)

/-- **When a failed call leaves the payloads in place**: unless they were replaced by an SK payload
that is too long, or whose checksum cannot be computed. -/
theorem failed_seal_keeps_payloads_iff {C : Crypto} (hC : C.Lawful) (rand : Bytes) (m : IKEMessage)
    (key : Option IKESAKey) (role : Role) :
    (∀ err m' key', encodeEncrypt C rand (some m) key role = (.err err, some m', key') →
      m'.payloads = m.payloads) ↔ ∀ k, key = some k → ¬ LosesPayloads rand m k role := by
  constructor
  · intro h k hk hlose
    subst hk
    obtain ⟨err, m', key', he, hne⟩ := loses_payloads hC hlose
    exact hne (h err m' key' he)
  · intro h err m' key' he
    obtain ⟨h1, h2⟩ := Prod.mk.inj he
    have hm := (Prod.mk.inj h2).1
    cases key with
    | none =>
      obtain rfl : (IKEMessage.encode m).2 = m' := Option.some.inj hm
      exact encode_payloads m
    | some k =>
      have h1 : (encodeEncryptKey C rand role (m, k)).1 = .err err := h1
      obtain rfl : (encodeEncryptKey C rand role (m, k)).2.1 = m' := Option.some.inj hm
      cases hs : sealStart C rand m k role with
      | err e => rw [encodeEncryptKey_err hs]
      | panic p =>
        rw [encodeEncryptKey_panic hs] at h1
        exact absurd h1 (by simp)
      | ok r =>
        obtain ⟨t, cipher⟩ := r
        have hseals := (sealStart_iff hC).mp ⟨cipher, hs, rfl⟩
        have h0 : 0 < cipher.length := by
          obtain ⟨_, _, _, _, _, _, _, _, hlen⟩ := hseals
          omega
        obtain ⟨b, hb⟩ := encodeEncryptKey_succeeds hs hC.hmac_length h0 hseals.1
          fun hwhy => h k rfl ⟨t, _, hseals, hwhy⟩
        exact absurd (hb.symm.trans h1) (by simp)

/-- an informational request with one nonce payload -/
def nonceMessage : IKEMessage :=
  newMessage 1 2 37 false true 0 [.nonce ⟨[1, 2, 3, 4, 5, 6, 7, 8]⟩]

/-- the nonce, and a proposal without transforms, which is not encoded -/
def unencodedMessage : IKEMessage :=
  { nonceMessage with
    payloads := [.nonce ⟨[1, 2, 3, 4, 5, 6, 7, 8]⟩, .sa ⟨[⟨1, 1, [], [], [], [], [], []⟩]⟩] }

/-- the payloads are not encoded; or there are random octets for the padding and none for the vector: the
call fails, and the payloads are still in the message -/
theorem failed_seal_keeps_payloads_early :
    (∃ err m' key', encodeEncrypt messageCrypto (List.replicate 32 0) (some unencodedMessage)
        (some sharedKey) .initiator = (.err err, some m', key') ∧
      m'.payloads = unencodedMessage.payloads) ∧
    ∃ err m' key', encodeEncrypt messageCrypto (List.replicate 4 0) (some nonceMessage)
        (some sharedKey) .initiator = (.err err, some m', key') ∧
      m'.payloads = nonceMessage.payloads := by
  have hcode : ¬ LosesPayloads (List.replicate 32 0) unencodedMessage sharedKey .initiator := by
    rintro ⟨t, l, ⟨_, _, encr, plain, _, hplain, _⟩, _⟩
    obtain ⟨err, herr⟩ : ∃ err, unencodedMessage.payloads.encode = .err err := ⟨_, rfl⟩
    exact absurd (hplain.symm.trans herr) (by simp)
  have hiv : ¬ LosesPayloads (List.replicate 4 0) nonceMessage sharedKey .initiator := by
    rintro ⟨t, l, ⟨_, _, encr, plain, hencr, _, hfed, _⟩, _⟩
    obtain rfl := Option.some.inj hencr
    have h16 : 16 ≤ 4 := Nat.le_trans (Nat.le_add_left ..) hfed
    omega
  have h1 := (failed_seal_keeps_payloads_iff messageCrypto_lawful (List.replicate 32 0)
    unencodedMessage (some sharedKey) .initiator).mpr fun k hk => Option.some.inj hk ▸ hcode
  have h2 := (failed_seal_keeps_payloads_iff messageCrypto_lawful (List.replicate 4 0)
    nonceMessage (some sharedKey) .initiator).mpr fun k hk => Option.some.inj hk ▸ hiv
  exact ⟨⟨_, _, _, rfl, h1 _ _ _ rfl⟩, ⟨_, _, _, rfl, h2 _ _ _ rfl⟩⟩

/-- the initiator's integrity object is missing; or two nonces fill more than one SK payload -/
theorem failed_seal_loses_payloads :
    (∃ err m' key', encodeEncrypt messageCrypto (List.replicate 32 0) (some nonceMessage)
        (some { sharedKey with integ_i := none }) .initiator = (.err err, some m', key') ∧
      m'.payloads ≠ nonceMessage.payloads) ∧
    ∃ err m' key', encodeEncrypt messageCrypto (List.replicate 32 0)
        (some { nonceMessage with payloads := List.replicate 2 (.nonce ⟨List.replicate 40000 0⟩) })
        (some sharedKey) .initiator = (.err err, some m', key') ∧
      m'.payloads ≠ List.replicate 2 (.nonce ⟨List.replicate 40000 0⟩) := by
  refine ⟨loses_payloads messageCrypto_lawful ?_, loses_payloads messageCrypto_lawful ?_⟩
  · refine ⟨_, _, ⟨rfl, by decide, _, _, rfl, rfl, by decide, ?_, rfl⟩, Or.inr rfl⟩
    exact ⟨fun iv hiv => absurd hiv (by simp), by decide⟩
  · -- for any data of that length, so that the 40000 octets are never written out
    have hone : ∀ (data : Bytes) ps rest, data.length = 40000 →
        IKEPayloadContainer.encode ps = .ok rest →
        ∃ b, IKEPayloadContainer.encode (.nonce ⟨data⟩ :: ps) = .ok b ∧
          b.length = 40004 + rest.length := by
      intro data ps rest hdata hrest
      refine ⟨_, IKEPayloadContainer.encode_cons.mpr ⟨data, rest, rfl, ?_, hrest, rfl⟩, ?_⟩
      · rw [hdata]
        omega
      · simp only [IKEPayloadContainer.record, List.length_append, List.length_cons,
          List.length_nil, length_putUint16, hdata]
    obtain ⟨b, hb, hl⟩ := hone (List.replicate 40000 0) [] [] List.length_replicate rfl
    obtain ⟨b', hb', hl'⟩ := hone (List.replicate 40000 0) _ b List.length_replicate hb
    have hlen : b'.length = 80008 := by simpa [hl] using hl'
    refine ⟨_, _, ⟨rfl, by decide, _, b', rfl, hb', ?_, ?_, rfl⟩, Or.inl ?_⟩
    · rw [hlen]
      decide
    · rw [hlen]
      exact ⟨fun iv hiv => absurd hiv (by simp), by decide⟩
    · rw [hlen]
      decide

/-! ## missing objects -/

/-- the call follows no nil pointer, unless it does so `elsewhere`; and if the objects that it needs
are not all there, it returns an error -/
def Reports {α : Type} (complete elsewhere : Prop) (o : Outcome α) : Prop :=
  (o = .panic .nilDereference → elsewhere) ∧ (¬ complete → ∃ err, o = .err err)

section
variable {α : Type} {complete elsewhere : Prop} {o : Outcome α}

theorem reports_of_err {err : GoError} (h : o = .err err) : Reports complete elsewhere o :=
  ⟨fun h0 => absurd (h.symm.trans h0) (by simp), fun _ => ⟨err, h⟩⟩

theorem reports_of_panic {p : Panic} (h : o = .panic p) (hp : p = .nilDereference → elsewhere) :
    Reports complete elsewhere o ↔ complete := by
  constructor
  · intro h0
    by_contra hc
    obtain ⟨err, he⟩ := h0.2 hc
    exact absurd (h.symm.trans he) (by simp)
  · intro hc
    exact ⟨fun h0 => hp (Outcome.panic.inj (h.symm.trans h0)), fun h0 => absurd hc h0⟩

theorem not_reports {p : Panic} (h : o = .panic p) (hc : ¬ complete) :
    ¬ Reports complete elsewhere o := by
  intro h0
  obtain ⟨err, he⟩ := h0.2 hc
  exact absurd (h.symm.trans he) (by simp)

end

/-- the sender has its own objects; or it misses one of the responder's, for which it asks; or it does
not get to the encryption; or the encryption object of its role is there, the padding gets its random
octets, and then the vector does not get its own or the blocks are whole -/
def SenderCovered (rand : Bytes) (m : IKEMessage) (k : IKESAKey) (role : Role) : Prop :=
  k.Complete role ∨ ¬ k.Complete .responder ∨ (∃ err, m.payloads.encode = .err err) ∨
    ∃ plain encr, m.payloads.encode = .ok plain ∧ k.encr role = some encr ∧
      encr.padDraws plain.length ≤ rand.length ∧
      (rand.length < encr.padDraws plain.length + encr.ivDraws ∨ encr.WholeBlocks plain.length)

/-- encrypted payloads: the call returns, and with an error if the integrity object is missing -/
theorem reports_of_sealed {C : Crypto} (hC : C.Sized) {rand : Bytes} {m : IKEMessage} {k : IKESAKey}
    {role : Role} {t : INTEGType} {cipher : Bytes}
    (hs : sealStart C rand m k role = .ok (t, cipher)) (h0 : 0 < cipher.length)
    (ht : k.integInfo = some t) (hr : k.Complete .responder) (he : k.encr role ≠ none)
    (elsewhere : Prop) :
    Reports (k.Complete role) elsewhere (encodeEncryptKey C rand role (m, k)).1 := by
  by_cases hwhy : 65535 < 4 + (cipher.length + t.getOutputLength) ∨ k.integ role = none
  · obtain ⟨err, h⟩ := encodeEncryptKey_fails hs h0 ht hwhy
    exact reports_of_err h
  · obtain ⟨b, h⟩ := encodeEncryptKey_succeeds hs hC h0 ht hwhy
    have hc : k.Complete role := ⟨hr.1, hr.2.1, (not_or.mp hwhy).2, he⟩
    exact ⟨fun h0 => absurd (h.symm.trans h0) (by simp), fun h0 => absurd hc h0⟩

theorem encrypt_nilFree (C : Crypto) (rand : Bytes) (e : EncrAesCbcCrypto) (plain : Bytes) :
    NilFree (e.encrypt C rand plain) := by
  have hpad : NilFree (e.pad rand plain) := by
    unfold EncrAesCbcCrypto.pad
    cases e.padding <;> simp [pkcs7Padding, randRead]
  have hiv : ∀ r, NilFree (e.drawIv r) := by
    intro r
    by_cases h : e.ivDraws ≤ r.length
    · obtain ⟨iv, hiv, _⟩ := EncrAesCbcCrypto.drawIv_ok h
      rw [hiv]
      exact nilFree_ok iv
    · obtain ⟨err, herr⟩ := EncrAesCbcCrypto.drawIv_err (Nat.lt_of_not_le h)
      rw [herr]
      exact nilFree_err err
  simp [EncrAesCbcCrypto.encrypt, newCBCEncrypter, hpad, hiv]

theorem sender_reports_iff {C : Crypto} (hC : C.Lawful) (rand : Bytes) (m : IKEMessage)
    (k : IKESAKey) (role : Role) :
    Reports (k.Complete role) (m.payloads.encode = .panic .nilDereference)
        (encodeEncrypt C rand (some m) (some k) role).1 ↔ SenderCovered rand m k role := by
  show Reports _ _ (encodeEncryptKey C rand role (m, k)).1 ↔ _
  have herr : ∀ {err}, sealStart C rand m k role = .err err →
      Reports (k.Complete role) (m.payloads.encode = .panic .nilDereference)
        (encodeEncryptKey C rand role (m, k)).1 := fun h =>
    reports_of_err (congrArg Prod.fst (encodeEncryptKey_err h))
  have hpanic : ∀ {p}, sealStart C rand m k role = .panic p →
      (encodeEncryptKey C rand role (m, k)).1 = .panic p := fun h =>
    congrArg Prod.fst (encodeEncryptKey_panic h)
  by_cases hr : k.Complete .responder
  · obtain ⟨t, ht⟩ := Option.ne_none_iff_exists'.mp hr.1
    have hrun := sealStart_run (C := C) ht hr rand m role
    cases hp : m.payloads.encode with
    | err e =>
      rw [hp] at hrun herr
      exact iff_of_true (herr hrun) (Or.inr (Or.inr (Or.inl ⟨e, hp⟩)))
    | panic p =>
      rw [hp] at hrun
      rw [reports_of_panic (hpanic hrun) (fun h => congrArg Outcome.panic h)]
      simp [SenderCovered, hr, hp]
    | ok plain =>
      rw [hp] at hrun herr
      cases he : k.encr role with
      | none =>
        rw [he] at hrun
        have hc : ¬ k.Complete role := fun h => h.2.2.2 he
        refine iff_of_false (not_reports (hpanic hrun) hc) ?_
        simp [SenderCovered, hr, hp, he, hc]
      | some encr =>
        have hrun : sealStart C rand m k role = ((encr.encrypt C rand plain).wrapf
            "encryptPayload()").wrapf "encryptMsg(): Error encrypting message" >>= fun c =>
            pure (t, c) := by
          rw [hrun, he]
          rfl
        have hret : (encr.encrypt C rand plain).returns ↔ _ := EncrAesCbcCrypto.encrypt_returns_iff hC
        have hfree := encrypt_nilFree C rand encr plain
        have hcovered : SenderCovered rand m k role ↔
            k.Complete role ∨ (encr.encrypt C rand plain).returns := by
          rw [hret]
          simp [SenderCovered, hr, hp, he]
        rw [hcovered]
        cases hc : encr.encrypt C rand plain with
        | ok c =>
          rw [hc] at hrun
          obtain ⟨_, _, _, _, _, _, _, _, hlen⟩ := (sealStart_iff hC).mp ⟨c, hrun, rfl⟩
          refine iff_of_true ?_ (Or.inr trivial)
          exact reports_of_sealed hC.hmac_length hrun (by omega) ht hr (by simp [he]) _
        | err err =>
          rw [hc] at hrun
          exact iff_of_true (herr hrun) (Or.inr trivial)
        | panic p =>
          rw [hc] at hrun hfree
          rw [reports_of_panic (hpanic hrun) fun h => absurd h (nilFree_panic.mp hfree)]
          exact (or_iff_left id).symm
  · obtain ⟨err, he⟩ := sealStart_refuses (C := C) hr rand m role
    exact iff_of_true (herr he) (Or.inr (Or.inl hr))

/-- the checksum of the SK payload `e` cannot be computed, or is another one -/
def Unverified (C : Crypto) (msg : Slice UInt8) (k : IKESAKey) (role : Role) (e : Encrypted) : Prop :=
  k.integ role.not = none ∨ e.encryptedData.drop (e.encryptedData.length - k.outputLength) ≠
    k.mac C role.not (msg.data.take (msg.len - k.outputLength))

/-- the receiver has the objects of its peer; or it misses one of the initiator's, for which it asks;
or there is something else than SK payloads; or it does not get past the checksum -/
def ReceiverCovered (C : Crypto) (msg : Slice UInt8) (m : IKEMessage) (k : IKESAKey) (role : Role) :
    Prop :=
  k.Complete role.not ∨ ¬ k.Complete .initiator ∨ (¬ ∀ p ∈ m.payloads, p.type = .SK) ∨
    ∀ e, lastSK m.payloads = some e →
      k.outputLength ≤ e.encryptedData.length ∧ Unverified C msg k role e

/-- with the initiator's objects and nothing else than SK payloads -/
theorem receiverCovered_iff {C : Crypto} {msg : Slice UInt8} {m : IKEMessage} {k : IKESAKey}
    {role : Role} (hk : k.Complete .initiator) (hall : ∀ p ∈ m.payloads, p.type = .SK) {e : Encrypted}
    (he : lastSK m.payloads = some e) :
    ReceiverCovered C msg m k role ↔ k.Complete role.not ∨
      k.outputLength ≤ e.encryptedData.length ∧ Unverified C msg k role e := by
  unfold ReceiverCovered
  rw [or_iff_right (not_not_intro hk), or_iff_right (not_not_intro hall), he]
  simp

theorem decrypt_nilFree (C : Crypto) (e : EncrAesCbcCrypto) (c : Slice UInt8) :
    NilFree (e.decrypt C c) := by
  have hiv : NilFree (e.readIv c) := by
    unfold EncrAesCbcCrypto.readIv
    cases e.iv <;> simp
  simp [EncrAesCbcCrypto.decrypt, newCBCDecrypter, hiv]

theorem openVerified_nilFree {C : Crypto} {k : IKESAKey} {role : Role} {encr : EncrAesCbcCrypto}
    (h : k.encr role.not = some encr) (e : Encrypted) : NilFree (openVerified C k role e) := by
  simp [openVerified, decryptPayload_eq, h, deref, decrypt_nilFree,
    IKEPayloadContainer.decode_nilFree]

theorem openVerified_nil {C : Crypto} {k : IKESAKey} {role : Role} {e : Encrypted}
    (hn : k.outputLength ≤ e.encryptedData.length) (h : k.encr role.not = none) :
    openVerified C k role e = .panic .nilDereference := by
  rw [openVerified, Slice.sliceInit_data _ hn, Outcome.ok_bind, decryptPayload_eq, h]
  rfl

section
variable {C : Crypto} {k : IKESAKey} (hk : k.Complete .initiator)
  {msg : Slice UInt8} (hmsg : 28 ≤ msg.len) {m : IKEMessage}
  (hall : ∀ p ∈ m.payloads, p.type = .SK) {e : Encrypted} (he : lastSK m.payloads = some e)
include hk hmsg hall he

/-- the receiver on its last SK payload -/
theorem decryptMsg_last (role : Role) : (decryptMsg C msg m role k).1 = (do
    let checksum ← (Slice.ofList e.encryptedData).sliceLast k.outputLength
    let covered ← msg.sliceInit k.outputLength
    ((verifyIntegrity C covered.data checksum.data role.not k).1).wrapf
      "decryptMsg(): verify integrity"
    let ps ← openVerified C k role e
    pure { m with payloads := ps }) := by
  rw [decryptMsg_run hk (by omega), findEncrypted_ok hall, he]
  rfl

variable {role : Role} (hn : k.outputLength ≤ e.encryptedData.length)
include hn

theorem decryptMsg_cut : (decryptMsg C msg m role k).1 =
    ((verifyIntegrity C (msg.data.take (msg.len - k.outputLength))
      (e.encryptedData.drop (e.encryptedData.length - k.outputLength)) role.not k).1.wrapf
        "decryptMsg(): verify integrity" >>= fun _ => openVerified C k role e >>= fun ps =>
          pure { m with payloads := ps }) := by
  have h16 := k.outputLength_le_16
  rw [decryptMsg_last hk hmsg hall he, Slice.sliceLast_data _ hn,
    Slice.sliceInit_data _ (by omega)]
  rfl

theorem decryptMsg_unverified (hC : C.Sized) (h : Unverified C msg k role e) :
    ∃ err, (decryptMsg C msg m role k).1 = .err err := by
  rw [decryptMsg_cut hk hmsg hall he hn]
  by_cases hi : k.integ role.not = none
  · obtain ⟨err, hc⟩ := calculateIntegrity_err (C := C) hk.1 hi
      (msg.data.take (msg.len - k.outputLength))
    unfold verifyIntegrity
    rw [Proc.this_bind, Proc.fst_bind, Proc.wrapf, hc]
    exact ⟨_, rfl⟩
  · rw [verifyIntegrity_mac hC hk.1 hi, if_pos (h.resolve_left hi)]
    exact ⟨_, rfl⟩

theorem decryptMsg_verified (hC : C.Sized) (h : ¬ Unverified C msg k role e) :
    (decryptMsg C msg m role k).1 =
      (openVerified C k role e >>= fun ps => pure { m with payloads := ps }) := by
  obtain ⟨hi, hsum⟩ := not_or.mp h
  rw [decryptMsg_cut hk hmsg hall he hn, verifyIntegrity_mac hC hk.1 hi, if_neg hsum]
  rfl

end

theorem receiver_reports_iff {C : Crypto} (hC : C.Sized) (k : IKESAKey) (role : Role)
    {msg : Slice UInt8} {hdr : Option IKEHeader} {m : IKEMessage} (hd : decodeClear msg hdr = .ok m)
    (hs : startsWithSK m.payloads = true) :
    Reports (k.Complete role.not) False (decodeDecrypt C msg hdr role (some k)).1 ↔
      ReceiverCovered C msg m k role := by
  have hmsg := length_of_clear hd
  obtain ⟨e, he⟩ := lastSK_of_starts hs
  have ho : (decodeDecrypt C msg hdr role (some k)).1 =
      (decryptMsg C msg m role k).1.wrapf "IKE decode decrypt" := by
    simp only [decodeDecrypt, hd, hs, if_true]
  have herr : ∀ {err}, (decryptMsg C msg m role k).1 = .err err →
      Reports (k.Complete role.not) False (decodeDecrypt C msg hdr role (some k)).1 := fun h =>
    reports_of_err (ho.trans (congrArg (Outcome.wrapf _) h))
  have hpanic : ∀ {p}, (decryptMsg C msg m role k).1 = .panic p →
      (decodeDecrypt C msg hdr role (some k)).1 = .panic p := fun h =>
    ho.trans (congrArg (Outcome.wrapf _) h)
  by_cases hk : k.Complete .initiator
  · by_cases hall : ∀ p ∈ m.payloads, p.type = .SK
    · by_cases hn : k.outputLength ≤ e.encryptedData.length
      · by_cases hv : Unverified C msg k role e
        · obtain ⟨err, h⟩ := decryptMsg_unverified hk hmsg hall he hn hC hv
          exact iff_of_true (herr h) ((receiverCovered_iff hk hall he).mpr (Or.inr ⟨hn, hv⟩))
        · have hrun := decryptMsg_verified hk hmsg hall he hn hC hv
          cases hencr : k.encr role.not with
          | none =>
            rw [openVerified_nil hn hencr] at hrun
            have hc : ¬ k.Complete role.not := fun h => h.2.2.2 hencr
            refine iff_of_false (not_reports (hpanic hrun) hc) ?_
            rw [receiverCovered_iff hk hall he]
            simp [hc, hv]
          | some encr =>
            have hc : k.Complete role.not := ⟨hk.1, hk.2.1, (not_or.mp hv).1, by simp [hencr]⟩
            refine iff_of_true ⟨fun h => ?_, fun h => absurd hc h⟩ (Or.inl hc)
            have hfree : NilFree (decryptMsg C msg m role k).1 := by
              rw [hrun]
              simp [openVerified_nilFree hencr e]
            exact nilFree_wrapf.mpr hfree (ho.symm.trans h)
      · have hrun : (decryptMsg C msg m role k).1 = .panic .sliceOutOfRange := by
          rw [decryptMsg_last hk hmsg hall he, Slice.sliceLast_panic _ (Nat.not_le.mp hn)]
          rfl
        rw [reports_of_panic (hpanic hrun) (by simp), receiverCovered_iff hk hall he]
        simp [hn]
    · obtain ⟨err, hf⟩ := findEncrypted_err none hall
      have hrun := decryptMsg_run (C := C) hk (show msg.len ≠ 0 by omega) m role
      rw [hf] at hrun
      exact iff_of_true (herr hrun) (Or.inr (Or.inr (Or.inl hall)))
  · obtain ⟨err, h⟩ := decryptMsg_refuses (C := C) hk msg m role
    exact iff_of_true (herr h) (Or.inr (Or.inl hk))

/-- **When a missing object of the key is reported as an error**, by the sender and by the receiver of
a message that starts with an SK payload. -/
theorem missing_objects_reported_iff {C : Crypto} (hC : C.Lawful) (k : IKESAKey) (role : Role) :
    (∀ rand m, Reports (k.Complete role) (m.payloads.encode = .panic .nilDereference)
      (encodeEncrypt C rand (some m) (some k) role).1 ↔ SenderCovered rand m k role) ∧
    ∀ msg hdr m, decodeClear msg hdr = .ok m → startsWithSK m.payloads = true →
      (Reports (k.Complete role.not) False (decodeDecrypt C msg hdr role (some k)).1 ↔
        ReceiverCovered C msg m k role) := by
  refine ⟨fun rand m => sender_reports_iff hC rand m k role, fun msg hdr m hd hs => ?_⟩
  exact receiver_reports_iff hC.hmac_length k role hd hs

/-- in the role of the responder both calls report that their encryption object is missing -/
theorem missing_objects_reported_responder :
    (∃ err, (encodeEncrypt messageCrypto (List.replicate 32 0) (some nonceMessage)
      (some { sharedKey with encr_i := none, encr_r := none }) .responder).1 = .err err) ∧
    ∃ err, (decodeDecrypt messageCrypto ⟨protectedOctets, []⟩ none .responder
      (some { sharedKey with encr_i := none, encr_r := none })).1 = .err err := by
  obtain ⟨hsend, hreceive⟩ := missing_objects_reported_iff messageCrypto_lawful
    { sharedKey with encr_i := none, encr_r := none } .responder
  have h1 := (hsend (List.replicate 32 0) nonceMessage).mpr (Or.inr (Or.inl (by decide)))
  have h2 := (hreceive ⟨protectedOctets, []⟩ none _ protectedOctets_clear rfl).mpr (Or.inr (Or.inl (by decide)))
  exact ⟨h1.2 (by decide), h2.2 (by decide)⟩

/-- a message of the responder, with an SK payload of 44 octets, without its checksum -/
def unopenedCovered : Bytes := informational 46 76 ([40, 0, 0, 48] ++ List.replicate 32 0)

/-- the HMAC of that message -/
def unopenedCrypto : Crypto :=
  Crypto.ofTable
    [(.sha1, List.replicate 20 0xa2, unopenedCovered,
      octets 20 0x49600957e6f413873ac4d23885a2c35d0cab8cd1)] [] []

/-- in the role of the initiator they dereference it; the checksum of the second message is right -/
theorem missing_objects_panic :
    (encodeEncrypt messageCrypto (List.replicate 32 0) (some nonceMessage)
      (some { sharedKey with encr_i := none }) .initiator).1 = .panic .nilDereference ∧
    (decodeDecrypt unopenedCrypto
      (Slice.ofList (unopenedCovered ++ octets 12 0x49600957e6f413873ac4d238)) none .initiator
      (some { sharedKey with encr_r := none })).1 = .panic .nilDereference := by
  exact ⟨by decide +kernel, rfl⟩

end Ike
