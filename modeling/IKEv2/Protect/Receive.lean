import IKEv2.Protect.Model

/-!
# What the receiver does with a message

`IKESAKey.fresh` forgets what has been written to the hash objects of a key.  A checksum does not
depend on it (`calculateIntegrity_eq`), nor does anything else the receiver does
(`decryptMsg_eq`): with all objects of the key in place the call is a function of the message and of
the keys.
-/

set_option linter.unusedVariables false

namespace Ike
open GoLang

namespace IKESAKey

/-- the key object with nothing written to its hash objects -/
def fresh (k : IKESAKey) : IKESAKey :=
  { k with
    prf_d := k.prf_d.map Hash.reset
    integ_i := k.integ_i.map Hash.reset
    integ_r := k.integ_r.map Hash.reset
    prf_i := k.prf_i.map Hash.reset
    prf_r := k.prf_r.map Hash.reset }

/-- the integrity object of a role -/
def integ (k : IKESAKey) : Role → Option Hash
  | .initiator => k.integ_i
  | .responder => k.integ_r

/-- the encryption object of a role -/
def encr (k : IKESAKey) : Role → Option EncrAesCbcCrypto
  | .initiator => k.encr_i
  | .responder => k.encr_r

/-- the integrity object of a role replaced -/
def setInteg (k : IKESAKey) (role : Role) (h : Hash) : IKESAKey :=
  match role with
  | .initiator => { k with integ_i := some h }
  | .responder => { k with integ_r := some h }

/-- `IntegInfo.GetOutputLength()` -/
def outputLength (k : IKESAKey) : Nat :=
  match k.integInfo with
  | some integInfo => integInfo.getOutputLength
  | none => 0

/-- the truncated HMAC under the integrity key of a role -/
def mac (C : Crypto) (k : IKESAKey) (role : Role) (data : Bytes) : Bytes :=
  match k.integ role with
  | some h => (C.hmac h.fn h.key data).take k.outputLength
  | none => []

/-- all that protects the messages of a role is there -/
def Complete (k : IKESAKey) (role : Role) : Prop :=
  k.integInfo ≠ none ∧ k.encrInfo ≠ none ∧ k.integ role ≠ none ∧ k.encr role ≠ none

instance (k : IKESAKey) (role : Role) : Decidable (k.Complete role) :=
  inferInstanceAs (Decidable (_ ∧ _ ∧ _ ∧ _))

/-- algorithms and objects are there, and the encryption objects have no vector and no padding of
their own -/
structure Populated (k : IKESAKey) : Prop where
  integInfo : ∃ t, k.integInfo = some t
  encrInfo : ∃ t, k.encrInfo = some t
  integ : ∀ role, ∃ h, k.integ role = some h
  encr : ∀ role, ∃ e, k.encr role = some e ∧ e.iv = none ∧ e.padding = none

theorem Populated.complete {k : IKESAKey} (hk : k.Populated) (role : Role) : k.Complete role := by
  obtain ⟨t, ht⟩ := hk.integInfo
  obtain ⟨u, hu⟩ := hk.encrInfo
  obtain ⟨h, hh⟩ := hk.integ role
  obtain ⟨e, he, _⟩ := hk.encr role
  exact ⟨by simp [ht], by simp [hu], by simp [hh], by simp [he]⟩

theorem encr_fresh (k : IKESAKey) (role : Role) : k.fresh.encr role = k.encr role := by
  cases role <;> rfl

theorem integ_fresh (k : IKESAKey) (role : Role) : k.fresh.integ role = (k.integ role).map Hash.reset := by
  cases role <;> rfl

theorem fresh_setInteg {k : IKESAKey} {role : Role} {h h' : Hash} (hk : k.integ role = some h)
    (hr : h'.reset = h.reset) : (k.setInteg role h').fresh = k.fresh := by
  cases role with
  | initiator =>
    have hi : k.integ_i = some h := hk
    simp only [fresh, setInteg, hi, Option.map_some, hr]
  | responder =>
    have hi : k.integ_r = some h := hk
    simp only [fresh, setInteg, hi, Option.map_some, hr]

theorem outputLength_le {k : IKESAKey} (h : HashFn) : k.outputLength ≤ h.size := by
  unfold outputLength
  cases k.integInfo with
  | none => exact Nat.zero_le _
  | some t => exact t.getOutputLength_le h

theorem outputLength_le_16 (k : IKESAKey) : k.outputLength ≤ 16 := by
  unfold outputLength
  cases k.integInfo with
  | none => exact Nat.zero_le _
  | some t => cases t <;> decide

/-- `Sum(nil)[:outputLen]` under the integrity key of a role -/
def checksum (C : Crypto) (k : IKESAKey) (role : Role) (data : Bytes) : Outcome Bytes := do
  let h ← deref (k.integ role)
  Slice.data <$> (Slice.ofList (C.hmac h.fn h.key data)).sliceTo k.outputLength

theorem checksum_eq_ok {C : Crypto} {k : IKESAKey} {role : Role} {data c : Bytes} :
    k.checksum C role data = .ok c ↔
      k.integ role ≠ none ∧ c.length = k.outputLength ∧ c = k.mac C role data := by
  unfold checksum mac
  cases hk : k.integ role with
  | none => simp [deref]
  | some h =>
    show Slice.data <$> (Slice.ofList (C.hmac h.fn h.key data)).sliceTo k.outputLength = _ ↔
      _ ∧ _ ∧ c = (C.hmac h.fn h.key data).take k.outputLength
    have hlen : ((C.hmac h.fn h.key data).take k.outputLength).length =
      min k.outputLength (C.hmac h.fn h.key data).length := List.length_take
    by_cases hn : k.outputLength ≤ (C.hmac h.fn h.key data).length
    · rw [Slice.sliceTo_data _ hn]
      constructor
      · intro h0
        injection h0 with h0
        refine ⟨by simp, ?_, h0.symm⟩
        rw [← h0]
        exact hlen.trans (Nat.min_eq_left hn)
      · intro h0
        rw [h0.2.2]
        rfl
    · rw [Slice.sliceTo_panic _ (by omega)]
      constructor
      · intro h0
        exact absurd h0 (by simp)
      · intro h0
        rw [← h0.2.2, h0.2.1] at hlen
        omega

theorem checksum_of_sized {C : Crypto} (hC : C.Sized) {k : IKESAKey} {role : Role}
    (hk : k.integ role ≠ none) (data : Bytes) : k.checksum C role data = .ok (k.mac C role data) := by
  refine checksum_eq_ok.mpr ⟨hk, ?_, rfl⟩
  unfold mac
  cases hk' : k.integ role with
  | none => exact absurd hk' hk
  | some h =>
    show ((C.hmac h.fn h.key data).take k.outputLength).length = _
    rw [List.length_take, hC]
    have := outputLength_le (k := k) h.fn
    omega

theorem checksum_ne_err {C : Crypto} {k : IKESAKey} (hk : k.Populated) (role : Role) (data : Bytes)
    (err : GoError) : k.checksum C role data ≠ .err err := by
  obtain ⟨h, hh⟩ := hk.integ role
  unfold checksum
  rw [hh]
  show Slice.data <$> (Slice.ofList (C.hmac h.fn h.key data)).sliceTo k.outputLength ≠ .err err
  unfold Slice.sliceTo Slice.slice
  split <;> simp

theorem checksum_wrapf {C : Crypto} {k : IKESAKey} (hk : k.Populated) (role : Role) (data : Bytes)
    (t : String) : (k.checksum C role data).wrapf t = k.checksum C role data := by
  cases h : k.checksum C role data with
  | ok c => rfl
  | err err => exact absurd h (checksum_ne_err hk role data err)
  | panic p => rfl

end IKESAKey

/-! ## checksums -/

theorem calculateIntegrity_run {C : Crypto} {k : IKESAKey} {t : INTEGType} {h : Hash} {role : Role}
    (ht : k.integInfo = some t) (hh : k.integ role = some h) (data : Bytes) :
    calculateIntegrity C role data k =
      (Slice.data <$> (Slice.ofList (C.hmac h.fn h.key data)).sliceTo t.getOutputLength,
        k.setInteg role (h.reset.write data)) := by
  cases role with
  | initiator =>
    have hi : k.integ_i = some h := hh
    simp only [calculateIntegrity, IKESAKey.setInteg, ht, hi]
    rfl
  | responder =>
    have hr : k.integ_r = some h := hh
    simp only [calculateIntegrity, IKESAKey.setInteg, ht, hr]
    rfl

theorem calculateIntegrity_none {C : Crypto} {k : IKESAKey} {role : Role}
    (h : k.integInfo = none ∨ k.integ role = none) (data : Bytes) :
    (calculateIntegrity C role data k).2 = k := by
  cases ht : k.integInfo with
  | none => simp only [calculateIntegrity, ht]
  | some t =>
    rw [ht] at h
    have h := h.resolve_left (by simp)
    cases role with
    | initiator =>
      have hi : k.integ_i = none := h
      simp only [calculateIntegrity, ht, hi]
    | responder =>
      have hr : k.integ_r = none := h
      simp only [calculateIntegrity, ht, hr]

/-- **A checksum is the truncated HMAC**, whatever was written to the hash object before. -/
theorem calculateIntegrity_checksum {C : Crypto} {k : IKESAKey} {role : Role}
    (ht : k.integInfo ≠ none) (hk : k.integ role ≠ none) (data : Bytes) :
    (calculateIntegrity C role data k).1 = k.checksum C role data := by
  obtain ⟨t, ht⟩ := Option.ne_none_iff_exists'.mp ht
  obtain ⟨h, hh⟩ := Option.ne_none_iff_exists'.mp hk
  have hout : k.outputLength = t.getOutputLength := by rw [IKESAKey.outputLength, ht]
  rw [calculateIntegrity_run ht hh, IKESAKey.checksum, hh, hout]
  rfl

theorem calculateIntegrity_eq {C : Crypto} {k : IKESAKey} (hk : k.Populated) (role : Role)
    (data : Bytes) : (calculateIntegrity C role data k).1 = k.checksum C role data :=
  calculateIntegrity_checksum (hk.complete role).1 (hk.complete role).2.2.1 data

theorem calculateIntegrity_keeps (C : Crypto) (role : Role) (data : Bytes) :
    Proc.Keeps IKESAKey.fresh (calculateIntegrity C role data) := by
  intro k
  cases ht : k.integInfo with
  | none => rw [calculateIntegrity_none (Or.inl ht)]
  | some t =>
    cases hh : k.integ role with
    | none => rw [calculateIntegrity_none (Or.inr hh)]
    | some h =>
      rw [calculateIntegrity_run ht hh]
      exact IKESAKey.fresh_setInteg hh rfl

theorem verifyIntegrity_keeps (C : Crypto) (data checksum : Bytes) (role : Role) :
    Proc.Keeps IKESAKey.fresh (verifyIntegrity C data checksum role) :=
  Proc.keeps_this.bind fun _ =>
    ((calculateIntegrity_keeps C role data).wrapf _).bind fun _ => Proc.keeps_lift _

/-- without the integrity object of the role there is no checksum -/
theorem calculateIntegrity_err {C : Crypto} {k : IKESAKey} {role : Role} (ht : k.integInfo ≠ none)
    (hh : k.integ role = none) (data : Bytes) :
    ∃ err, (calculateIntegrity C role data k).1 = .err err := by
  cases hi : k.integInfo with
  | none => exact absurd hi ht
  | some t =>
    cases role with
    | initiator =>
      have hn : k.integ_i = none := hh
      simp only [calculateIntegrity, hi, hn]
      exact ⟨_, rfl⟩
    | responder =>
      have hn : k.integ_r = none := hh
      simp only [calculateIntegrity, hi, hn]
      exact ⟨_, rfl⟩

theorem verifyIntegrity_mac {C : Crypto} (hC : C.Sized) {k : IKESAKey} {role : Role}
    (ht : k.integInfo ≠ none) (hk : k.integ role ≠ none) (data checksum : Bytes) :
    (verifyIntegrity C data checksum role k).1 =
      if checksum ≠ k.mac C role data then fail "invalid checksum" else .ok () := by
  unfold verifyIntegrity
  rw [Proc.this_bind, Proc.fst_bind]
  show (calculateIntegrity C role data k).1.wrapf _ >>= _ = _
  rw [calculateIntegrity_checksum ht hk, IKESAKey.checksum_of_sized hC hk]
  rfl

theorem verifyIntegrity_eq {C : Crypto} {k : IKESAKey} (hk : k.Populated)
    (data checksum : Bytes) (role : Role) :
    (verifyIntegrity C data checksum role k).1 = (do
      let expectChecksum ← k.checksum C role data
      if checksum ≠ expectChecksum then fail "invalid checksum" else .ok ()) := by
  unfold verifyIntegrity
  rw [Proc.this_bind, Proc.fst_bind]
  show (calculateIntegrity C role data k).1.wrapf _ >>= _ = _
  rw [calculateIntegrity_eq hk, IKESAKey.checksum_wrapf hk]
  rfl

/-! ## the SK payload -/

def asSK : IKEPayload → Option Encrypted
  | .sk e => some e
  | _ => none

/-- the last SK payload -/
def lastSK (ps : IKEPayloadContainer) : Option Encrypted := (ps.filterMap asSK).getLast?

theorem lastSK_cons (p : IKEPayload) (ps : IKEPayloadContainer) :
    lastSK (p :: ps) = (lastSK ps).or (asSK p) := by
  unfold lastSK
  rw [List.filterMap_cons]
  cases asSK p with
  | none => simp
  | some e =>
    rw [List.getLast?_cons]
    cases (ps.filterMap asSK).getLast? <;> rfl

theorem findEncrypted_ok {acc : Option Encrypted} {ps : IKEPayloadContainer}
    (h : ∀ p ∈ ps, p.type = .SK) : findEncrypted acc ps = .ok ((lastSK ps).or acc) := by
  induction ps generalizing acc with
  | nil => rfl
  | cons p ps ih =>
    cases p with
    | sk e =>
      rw [findEncrypted, ih fun q hq => h q (List.mem_cons_of_mem _ hq), lastSK_cons]
      cases lastSK ps <;> rfl
    | _ => exact absurd (h _ (List.mem_cons_self ..)) (by simp [IKEPayload.type])

theorem findEncrypted_err (acc : Option Encrypted) {ps : IKEPayloadContainer}
    (h : ¬ ∀ p ∈ ps, p.type = .SK) : ∃ e, findEncrypted acc ps = .err e := by
  induction ps generalizing acc with
  | nil => exact absurd (fun p hp => absurd hp (by simp)) h
  | cons p ps ih =>
    cases p with
    | sk e =>
      refine ih _ fun hall => h fun q hq => ?_
      rcases List.mem_cons.mp hq with rfl | hq
      · rfl
      · exact hall q hq
    | _ => exact ⟨_, rfl⟩

theorem lastSK_of_starts {ps : IKEPayloadContainer} (h : startsWithSK ps = true) :
    ∃ e, lastSK ps = some e := by
  cases ps with
  | nil => exact absurd h (by simp [startsWithSK])
  | cons p ps =>
    cases p with
    | sk e =>
      rw [lastSK_cons]
      cases lastSK ps with
      | none => exact ⟨e, rfl⟩
      | some e' => exact ⟨e', rfl⟩
    | _ => exact absurd h (by simp [startsWithSK, IKEPayload.type])

/-! ## the receiver -/

/-- what happens to the SK payload `e` once its checksum is verified -/
def openVerified (C : Crypto) (k : IKESAKey) (role : Role) (e : Encrypted) :
    Outcome IKEPayloadContainer := do
  let encryptedData ← (Slice.ofList e.encryptedData).sliceInit k.outputLength
  let plainText ← (decryptPayload C encryptedData k role).wrapf
    "decryptMsg(): Error decrypting message"
  (IKEPayloadContainer.decode [] e.nextPayload plainText).wrapf
    "decryptMsg(): Decoding decrypted payload failed"

/-- what happens to the SK payload `e` -/
def openSK (C : Crypto) (msg : Slice UInt8) (k : IKESAKey) (role : Role) (e : Encrypted) :
    Outcome IKEPayloadContainer := do
  let checksum ← (Slice.ofList e.encryptedData).sliceLast k.outputLength
  let covered ← msg.sliceInit k.outputLength
  Outcome.wrapf "decryptMsg(): verify integrity" (do
    let expectChecksum ← k.checksum C role.not covered.data
    if checksum.data ≠ expectChecksum then fail "invalid checksum" else .ok ())
  openVerified C k role e

theorem decryptPayload_eq (C : Crypto) (c : Slice UInt8) (k : IKESAKey) (role : Role) :
    decryptPayload C c k role = (do
      let encr ← deref (k.encr role.not)
      (encr.decrypt C c).wrapf "decryptPayload()") := by
  cases role <;> rfl

theorem decryptPayload_fresh {C : Crypto} {k k' : IKESAKey} (h : k.fresh = k'.fresh)
    (c : Slice UInt8) (role : Role) : decryptPayload C c k role = decryptPayload C c k' role := by
  rw [decryptPayload_eq, decryptPayload_eq, ← k.encr_fresh, h, k'.encr_fresh]

/-- the receiver asks for the objects of the initiator, in both roles -/
theorem decryptMsg_refuses {C : Crypto} {k : IKESAKey} (hk : ¬ k.Complete .initiator)
    (msg : Slice UInt8) (m : IKEMessage) (role : Role) :
    ∃ err, (decryptMsg C msg m role k).1 = .err err := by
  unfold decryptMsg
  rw [Proc.this_bind]
  by_cases hmsg : msg.len = 0
  · rw [if_pos hmsg]
    exact ⟨_, rfl⟩
  rw [if_neg hmsg]
  simp only [Proc.fst_lift_bind]
  cases ht : k.integInfo with
  | none => exact ⟨_, rfl⟩
  | some t =>
    cases hu : k.encrInfo with
    | none => exact ⟨_, rfl⟩
    | some u =>
      cases hi : k.integ_i with
      | none => exact ⟨_, rfl⟩
      | some i =>
        cases he : k.encr_i with
        | none => exact ⟨_, rfl⟩
        | some e =>
          have hi' : k.integ .initiator = some i := hi
          have he' : k.encr .initiator = some e := he
          exact absurd ⟨by simp [ht], by simp [hu], by simp [hi'], by simp [he']⟩ hk

theorem decryptMsg_run {C : Crypto} {k : IKESAKey} (hk : k.Complete .initiator)
    {msg : Slice UInt8} (hmsg : msg.len ≠ 0) (m : IKEMessage) (role : Role) :
    (decryptMsg C msg m role k).1 = (do
      let found ← findEncrypted none m.payloads
      let e ← deref found
      let checksum ← (Slice.ofList e.encryptedData).sliceLast k.outputLength
      let covered ← msg.sliceInit k.outputLength
      ((verifyIntegrity C covered.data checksum.data role.not k).1).wrapf
        "decryptMsg(): verify integrity"
      let ps ← openVerified C k role e
      pure { m with payloads := ps }) := by
  obtain ⟨ht, hu, hi, he⟩ := hk
  obtain ⟨t, ht⟩ := Option.ne_none_iff_exists'.mp ht
  obtain ⟨u, hu⟩ := Option.ne_none_iff_exists'.mp hu
  obtain ⟨i, hi⟩ := Option.ne_none_iff_exists'.mp hi
  obtain ⟨e, he⟩ := Option.ne_none_iff_exists'.mp he
  have hout : k.outputLength = t.getOutputLength := by rw [IKESAKey.outputLength, ht]
  have hi' : k.integ_i = some i := hi
  have he' : k.encr_i = some e := he
  unfold decryptMsg openVerified
  rw [Proc.this_bind, if_neg hmsg]
  simp only [Proc.fst_lift_bind, ht, hu, hi', he', require, Outcome.ok_bind, hout]
  refine bind_congr fun found => bind_congr fun e => bind_congr fun checksum =>
    bind_congr fun covered => ?_
  have hf := verifyIntegrity_keeps C covered.data checksum.data role.not k
  rw [Proc.fst_bind]
  simp only [Proc.wrapf, Proc.fst_lift_bind, Proc.this_bind, decryptPayload_fresh hf, bind_assoc]
  rfl

/-- **The receiver as a function** of the message and of the keys. -/
theorem decryptMsg_eq {C : Crypto} {k : IKESAKey} (hk : k.Populated) {msg : Slice UInt8}
    (hmsg : msg.len ≠ 0) (m : IKEMessage) (role : Role) :
    (decryptMsg C msg m role k).1 = (do
      let found ← findEncrypted none m.payloads
      let e ← deref found
      let ps ← openSK C msg k role e
      pure { m with payloads := ps }) := by
  rw [decryptMsg_run (hk.complete _) hmsg]
  unfold openSK
  simp only [verifyIntegrity_eq hk, bind_assoc]

theorem decodeClear_none_iff {msg : Slice UInt8} {m : IKEMessage} :
    decodeClear msg none = .ok m ↔ IKEMessage.decode [] msg = .ok m := Outcome.wrapf_eq_ok

theorem decodeClear_short {b sp : Bytes} (hlen : b.length < 28) (h : IKEHeader) :
    decodeClear ⟨b, sp⟩ (some h) = .panic .sliceOutOfRange := by
  show ((⟨b, sp⟩ : Slice UInt8).slice ikeHeaderLen b.length >>= _) = _
  rw [Slice.slice_panic _ (show b.length < ikeHeaderLen from hlen), Outcome.panic_bind]

/-- with a header that was parsed already the octets of the header are not read -/
theorem decodeClear_given {b sp : Bytes} (hlen : 28 ≤ b.length) (h : IKEHeader) :
    decodeClear ⟨b, sp⟩ (some h) =
      (IKEMessage.decodePayload ⟨h, []⟩ ⟨b.drop 28, sp⟩).wrapf "DecodeDecrypt()" := by
  show ((⟨b, sp⟩ : Slice UInt8).sliceFrom ikeHeaderLen >>= _) = _
  rw [Slice.sliceFrom_data _ (show ikeHeaderLen ≤ b.length from hlen), Outcome.ok_bind]
  rfl

/-- with a header or without one, there are the octets of a header -/
theorem length_of_clear {msg : Slice UInt8} {hdr : Option IKEHeader} {m : IKEMessage}
    (h : decodeClear msg hdr = .ok m) : 28 ≤ msg.len := by
  cases hdr with
  | none => exact (message_decode_iff.mp (decodeClear_none_iff.mp h)).1
  | some hd =>
    by_contra hlt
    exact absurd (h.symm.trans (decodeClear_short (Nat.lt_of_not_le hlt) hd)) (by simp)

/-- a message that starts with an SK payload -/
theorem decodeDecrypt_eq {C : Crypto} {k : IKESAKey} (hk : k.Populated) {b sp : Bytes}
    {hdr : Option IKEHeader} {m : IKEMessage} (role : Role) (hd : decodeClear ⟨b, sp⟩ hdr = .ok m)
    (hs : startsWithSK m.payloads = true) :
    (decodeDecrypt C ⟨b, sp⟩ hdr role (some k)).1 = Outcome.wrapf "IKE decode decrypt" (do
      let found ← findEncrypted none m.payloads
      let e ← deref found
      let ps ← openSK C ⟨b, sp⟩ k role e
      pure { m with payloads := ps }) := by
  have hlen := length_of_clear hd
  unfold decodeDecrypt
  rw [hd]
  show (if startsWithSK m.payloads = true then _ else _ : Outcome IKEMessage × Option IKESAKey).1 = _
  rw [if_pos hs]
  show (decryptMsg C ⟨b, sp⟩ m role k).1.wrapf _ = _
  rw [decryptMsg_eq hk (by omega)]

end Ike
