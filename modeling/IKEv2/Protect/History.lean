import IKEv2.Security.Agreement
import IKEv2.Protect.Acceptance

/-!
# One key object, many calls

Five hash objects of a key are written to and read again and again.  Every call that uses one of them
resets it first, so nothing of an earlier call is left: the calls see a key object only up to
`IKESAKey.fresh`, and do not change that.

* `Call.run_alike`   one call on key objects that differ in what was written only;
* `runCalls_eq`      any sequence of calls on one key object gives the results of the single calls.
-/

set_option linter.unusedVariables false

namespace Ike
open GoLang

/-! ## key objects that differ in what was written -/

/-- what the calls below see of a key object -/
structure Alike (k k' : IKESAKey) : Prop where
  integInfo : k.integInfo = k'.integInfo
  encrInfo : k.encrInfo = k'.encrInfo
  prfInfo : k.prfInfo = k'.prfInfo
  prf_d : k.prf_d.map Hash.reset = k'.prf_d.map Hash.reset
  integ : ∀ role, (k.integ role).map Hash.reset = (k'.integ role).map Hash.reset
  encr : ∀ role, k.encr role = k'.encr role

theorem alike_of_fresh {k k' : IKESAKey} (h : k.fresh = k'.fresh) : Alike k k' where
  integInfo := (congrArg (fun x : IKESAKey => x.integInfo) h :)
  encrInfo := (congrArg (fun x : IKESAKey => x.encrInfo) h :)
  prfInfo := (congrArg (fun x : IKESAKey => x.prfInfo) h :)
  prf_d := (congrArg (fun x : IKESAKey => x.prf_d) h :)
  integ role := by rw [← k.integ_fresh, h, k'.integ_fresh]
  encr role := by rw [← k.encr_fresh, h, k'.encr_fresh]

theorem reset_cases {o o' : Option Hash} (h : o.map Hash.reset = o'.map Hash.reset) :
    (o = none ∧ o' = none) ∨
      ∃ x y, o = some x ∧ o' = some y ∧ x.fn = y.fn ∧ x.key = y.key := by
  cases o with
  | none =>
    cases o' with
    | none => exact Or.inl ⟨rfl, rfl⟩
    | some y => exact absurd h (by simp)
  | some x =>
    cases o' with
    | none => exact absurd h (by simp)
    | some y =>
      have hxy : x.reset = y.reset := by simpa using h
      exact Or.inr ⟨x, y, rfl, rfl, (congrArg Hash.fn hxy :), (congrArg Hash.key hxy :)⟩

theorem require_same {t : String} {o o' : Option Hash} (h : o.map Hash.reset = o'.map Hash.reset) :
    (fun _ => ()) <$> require t o = (fun _ => ()) <$> require t o' := by
  rcases reset_cases h with ⟨rfl, rfl⟩ | ⟨x, y, rfl, rfl, _⟩
  · rfl
  · rfl

theorem reset_eq {x y : Hash} (h1 : x.fn = y.fn) (h2 : x.key = y.key) : x.reset = y.reset := by
  rw [Hash.reset, Hash.reset, h1, h2]

/-! ## checksums -/

theorem calculateIntegrity_same (C : Crypto) (role : Role) (data : Bytes) :
    Proc.Same IKESAKey.fresh (calculateIntegrity C role data) (calculateIntegrity C role data) := by
  intro k k' h
  have ha := alike_of_fresh h
  refine ⟨?_, by rw [calculateIntegrity_keeps, calculateIntegrity_keeps, h]⟩
  cases ht : k.integInfo with
  | none => simp only [calculateIntegrity, ← ha.integInfo, ht]
  | some t =>
    rcases reset_cases (ha.integ role) with ⟨hx, hy⟩ | ⟨x, y, hx, hy, hf, hk⟩
    · cases role with
      | initiator =>
        have hi : k.integ_i = none := hx
        have hi' : k'.integ_i = none := hy
        simp only [calculateIntegrity, ← ha.integInfo, ht, hi, hi']
      | responder =>
        have hr : k.integ_r = none := hx
        have hr' : k'.integ_r = none := hy
        simp only [calculateIntegrity, ← ha.integInfo, ht, hr, hr']
    · rw [calculateIntegrity_run ht hx, calculateIntegrity_run (ha.integInfo ▸ ht) hy, hf, hk]

theorem verifyIntegrity_same (C : Crypto) (data checksum : Bytes) (role : Role) :
    Proc.Same IKESAKey.fresh (verifyIntegrity C data checksum role)
      (verifyIntegrity C data checksum role) := by
  refine Proc.Same.this_bind fun k k' h => ?_
  have hid : k.integID = k'.integID := by
    rw [IKESAKey.integID, IKESAKey.integID, (alike_of_fresh h).integInfo]
  rw [hid]
  exact ((calculateIntegrity_same C role data).wrapf _).bind fun _ => Proc.same_lift _

/-! ## the receiver -/

theorem decryptMsg_same (C : Crypto) (msg : Slice UInt8) (m : IKEMessage) (role : Role) :
    Proc.Same IKESAKey.fresh (decryptMsg C msg m role) (decryptMsg C msg m role) := by
  refine Proc.Same.this_bind fun k k' h => ?_
  have ha := alike_of_fresh h
  have hei : k.encr_i = k'.encr_i := ha.encr .initiator
  split
  · exact Proc.same_lift _
  rw [ha.integInfo, ha.encrInfo, hei]
  refine (Proc.same_lift _).bind fun integInfo => (Proc.same_lift _).bind fun _ => ?_
  refine Proc.Same.lift_bind (require_same (ha.integ .initiator)) ?_
  refine (Proc.same_lift _).bind fun _ => (Proc.same_lift _).bind fun found =>
    (Proc.same_lift _).bind fun e => (Proc.same_lift _).bind fun checksum =>
    (Proc.same_lift _).bind fun covered => ?_
  refine ((verifyIntegrity_same C _ _ _).wrapf _).bind fun _ => (Proc.same_lift _).bind fun d => ?_
  refine Proc.Same.this_bind fun k k' h => ?_
  rw [decryptPayload_fresh h]
  exact (Proc.same_lift _).bind fun _ => (Proc.same_lift _).bind fun _ => Proc.same_lift _

theorem decryptMsg_keeps (C : Crypto) (msg : Slice UInt8) (m : IKEMessage) (role : Role) :
    Proc.Keeps IKESAKey.fresh (decryptMsg C msg m role) := by
  refine Proc.keeps_this.bind fun k => ?_
  split
  · exact Proc.keeps_lift _
  refine (Proc.keeps_lift _).bind fun _ => (Proc.keeps_lift _).bind fun _ =>
    (Proc.keeps_lift _).bind fun _ => (Proc.keeps_lift _).bind fun _ =>
    (Proc.keeps_lift _).bind fun _ => (Proc.keeps_lift _).bind fun _ =>
    (Proc.keeps_lift _).bind fun _ => (Proc.keeps_lift _).bind fun _ => ?_
  refine ((verifyIntegrity_keeps C _ _ _).wrapf _).bind fun _ => (Proc.keeps_lift _).bind fun _ => ?_
  exact Proc.keeps_this.bind fun _ => (Proc.keeps_lift _).bind fun _ =>
    (Proc.keeps_lift _).bind fun _ => Proc.keeps_lift _

/-! ## the sender -/

theorem encryptPayload_eq (C : Crypto) (rand plainText : Bytes) (k : IKESAKey) (role : Role) :
    encryptPayload C rand plainText k role = (do
      let encr ← deref (k.encr role)
      (encr.encrypt C rand plainText).wrapf "encryptPayload()") := by
  cases role <;> rfl

/-- the message, and the key object up to what was written -/
def observe (s : IKEMessage × IKESAKey) : IKEMessage × IKESAKey := (s.1, s.2.fresh)

theorem observe_payloads {s t : IKEMessage × IKESAKey} (ps : IKEPayloadContainer)
    (h : observe s = observe t) :
    observe ({ s.1 with payloads := ps }, s.2) = observe ({ t.1 with payloads := ps }, t.2) := by
  obtain ⟨h1, h2⟩ := Prod.mk.inj h
  unfold observe
  rw [h1, h2]

theorem encryptMsg_same (C : Crypto) (rand : Bytes) (role : Role) :
    Proc.Same observe (encryptMsg C rand role) (encryptMsg C rand role) := by
  refine Proc.Same.this_bind fun s t hst => ?_
  obtain ⟨hm, hk⟩ := Prod.mk.inj hst
  have ha := alike_of_fresh hk
  have her : s.2.encr_r = t.2.encr_r := ha.encr .responder
  have hpay : ∀ plain, encryptPayload C rand plain s.2 role = encryptPayload C rand plain t.2 role := by
    intro plain
    rw [encryptPayload_eq, encryptPayload_eq, ha.encr]
  simp only [hm, ha.integInfo, ha.encrInfo, her, hpay]
  refine (Proc.same_lift _).bind fun integInfo => (Proc.same_lift _).bind fun _ => ?_
  refine Proc.Same.lift_bind (require_same (ha.integ .responder)) ?_
  refine (Proc.same_lift _).bind fun _ => (Proc.same_lift _).bind fun plain =>
    (Proc.same_lift _).bind fun cipherText => ?_
  refine Proc.Same.bind (Proc.same_modify ?_) fun _ => ?_
  · intro u v huv
    exact observe_payloads _ huv
  refine ((Proc.same_onFst IKESAKey.fresh IKEMessage.encode).wrapf _).bind fun data =>
    (Proc.same_lift _).bind fun covered =>
    ((calculateIntegrity_same C role _).onSnd.wrapf _).bind fun checksum =>
    (Proc.same_lift _).bind fun _ => Proc.same_modify ?_
  intro u v huv
  exact observe_payloads _ huv

theorem encryptMsg_keeps (C : Crypto) (rand : Bytes) (role : Role) :
    Proc.Keeps (fun s => s.2.fresh) (encryptMsg C rand role) := by
  refine Proc.keeps_this.bind fun s => (Proc.keeps_lift _).bind fun _ =>
    (Proc.keeps_lift _).bind fun _ => (Proc.keeps_lift _).bind fun _ =>
    (Proc.keeps_lift _).bind fun _ => (Proc.keeps_lift _).bind fun _ =>
    (Proc.keeps_lift _).bind fun _ => ?_
  refine Proc.Keeps.bind (Proc.keeps_modify ?_) fun _ => ?_
  · intro u
    rfl
  refine ((Proc.keeps_onFst IKESAKey.fresh IKEMessage.encode).wrapf _).bind fun _ =>
    (Proc.keeps_lift _).bind fun _ =>
    ((calculateIntegrity_keeps C role _).onSnd.wrapf _).bind fun _ =>
    (Proc.keeps_lift _).bind fun _ => Proc.keeps_modify ?_
  intro u
  rfl

theorem encodeEncryptKey_same (C : Crypto) (rand : Bytes) (role : Role) :
    Proc.Same observe (encodeEncryptKey C rand role) (encodeEncryptKey C rand role) :=
  ((encryptMsg_same C rand role).wrapf _).bind fun _ =>
    (Proc.same_onFst IKESAKey.fresh IKEMessage.encode).wrapf _

theorem encodeEncryptKey_keeps (C : Crypto) (rand : Bytes) (role : Role) :
    Proc.Keeps (fun s => s.2.fresh) (encodeEncryptKey C rand role) :=
  ((encryptMsg_keeps C rand role).wrapf _).bind fun _ =>
    (Proc.keeps_onFst IKESAKey.fresh IKEMessage.encode).wrapf _

/-! ## child keys -/

/-- the loop variables of two runs of `PrfPlus` on hash objects that are `h` after a reset -/
def PrfPlusAlike (h : Hash) (st st' : PrfPlusState Hash) : Prop :=
  st.i = st'.i ∧ st.stream = st'.stream ∧ st.block = st'.block ∧ st.prf.reset = h ∧
    st'.prf.reset = h

theorem prfPlusRound_alike {C : Crypto} {s : Bytes} {h : Hash} {st st' : PrfPlusState Hash}
    (hst : PrfPlusAlike h st st') :
    Outcome.Rel (PrfPlusAlike h) (prfPlusRound (Hash.methods C) s st) (prfPlusRound (Hash.methods C) s st') := by
  obtain ⟨h1, h2, h3, h4, h5⟩ := hst
  have hround : prfPlusRound (Hash.methods C) s st = prfPlusRound (Hash.methods C) s st' := by
    have hr : (Hash.methods C).reset st.prf = h := h4
    have hr' : (Hash.methods C).reset st'.prf = h := h5
    unfold prfPlusRound
    rw [h1, h2, h3, hr, hr']
  rw [hround]
  refine Outcome.rel_self fun st1 h1 => ?_
  obtain ⟨block, _, h1⟩ := Outcome.bind_eq_ok.mp h1
  injection h1 with h1
  have hp : st1.prf.reset = h := by
    rw [← h1, ← h5]
    rfl
  exact ⟨rfl, rfl, rfl, hp, hp⟩

theorem prfPlusLoop_alike {C : Crypto} {s : Bytes} {n : Nat} {h : Hash} {st st' : PrfPlusState Hash}
    (hst : PrfPlusAlike h st st') :
    Outcome.Rel (PrfPlusAlike h) (prfPlusLoop (Hash.methods C) s n st) (prfPlusLoop (Hash.methods C) s n st') := by
  refine whileLoop_rel (R := PrfPlusAlike h) ?_ ?_ ?_ hst
  · intro st st' hst
    rw [hst.2.1]
  · intro st st' hst _
    exact prfPlusRound_alike hst
  · rw [hst.2.1]

/-- `PrfPlus` gives the same stream on hash objects with the same key, and keeps the key -/
theorem prfPlus_alike (C : Crypto) (s : Bytes) (n : Nat) {prf prf' : Hash}
    (h : prf.reset = prf'.reset) :
    (prfPlus (Hash.methods C) s n prf).1 = (prfPlus (Hash.methods C) s n prf').1 ∧ (prfPlus (Hash.methods C) s n prf).2.reset = prf.reset := by
  have hrel := prfPlusLoop_alike (C := C) (s := s) (n := n)
    (show PrfPlusAlike prf.reset ⟨1, [], [], prf⟩ ⟨1, [], [], prf'⟩ from
      ⟨rfl, rfl, rfl, rfl, h.symm⟩)
  unfold prfPlus
  cases hx : prfPlusLoop (Hash.methods C) s n ⟨1, [], [], prf⟩ with
  | ok st =>
    cases hy : prfPlusLoop (Hash.methods C) s n ⟨1, [], [], prf'⟩ with
    | ok st' =>
      rw [hx, hy] at hrel
      obtain ⟨_, hs, _, hp, _⟩ := hrel
      exact ⟨by simp only [hs], hp⟩
    | err e => rw [hx, hy] at hrel; exact False.elim hrel
    | panic p => rw [hx, hy] at hrel; exact False.elim hrel
  | err e =>
    cases hy : prfPlusLoop (Hash.methods C) s n ⟨1, [], [], prf'⟩ with
    | ok st' => rw [hx, hy] at hrel; exact False.elim hrel
    | err e' => rw [hx, hy] at hrel; exact ⟨congrArg Outcome.err hrel, rfl⟩
    | panic p => rw [hx, hy] at hrel; exact False.elim hrel
  | panic p =>
    cases hy : prfPlusLoop (Hash.methods C) s n ⟨1, [], [], prf'⟩ with
    | ok st' => rw [hx, hy] at hrel; exact False.elim hrel
    | err e => rw [hx, hy] at hrel; exact False.elim hrel
    | panic p' => rw [hx, hy] at hrel; exact ⟨congrArg Outcome.panic hrel, rfl⟩

theorem generateKeys_alike (C : Crypto) (c : ChildSAKey) (nonce : Bytes) {k k' : IKESAKey}
    (h : k.fresh = k'.fresh) :
    (c.generateKeys C nonce k).1 = (c.generateKeys C nonce k').1 ∧
      (c.generateKeys C nonce k).2.fresh = k.fresh := by
  have ha := alike_of_fresh h
  cases hp : k.prfInfo with
  | none =>
    have hp' : k'.prfInfo = none := ha.prfInfo ▸ hp
    simp only [ChildSAKey.generateKeys, hp, hp', and_self]
  | some prfInfo =>
    have hp' : k'.prfInfo = some prfInfo := ha.prfInfo ▸ hp
    cases he : c.encrKInfo with
    | none => simp only [ChildSAKey.generateKeys, hp, hp', he, and_self]
    | some encrKInfo =>
      rcases reset_cases ha.prf_d with ⟨hx, hy⟩ | ⟨x, y, hx, hy, hf, hk⟩
      · simp only [ChildSAKey.generateKeys, hp, hp', he, hx, hy, and_self]
      · obtain ⟨h1, h2⟩ := prfPlus_alike C nonce
          ((encrKInfo.getKeyLength + c.lengthIntegrityKey) * 2) (reset_eq hf hk)
        simp only [ChildSAKey.generateKeys, hp, hp', he, hx, hy, h1, true_and]
        simp only [IKESAKey.fresh, hp, hx, Option.map_some, h2]

/-! ## calls on one key object -/

inductive Call where
  | encodeEncrypt (rand : Bytes) (ikeMsg : Option IKEMessage) (role : Role)
  | decodeDecrypt (msg : Slice UInt8) (ikeHeader : Option IKEHeader) (role : Role)
  | generateKeyForChildSA (childsaKey : Option ChildSAKey) (concatenatedNonce : Bytes)

/-- what the caller gets: a value or an error, and the message it has passed -/
inductive Result where
  | encoded (result : Outcome Bytes) (ikeMsg : Option IKEMessage)
  | decoded (result : Outcome IKEMessage)
  | childKeys (result : Outcome ChildSAKey)

/-- the result, and the key object after the call -/
def Call.run (C : Crypto) (k : Option IKESAKey) : Call → Result × Option IKESAKey
  | .encodeEncrypt rand ikeMsg role =>
    let r := Ike.encodeEncrypt C rand ikeMsg k role
    (.encoded r.1 r.2.1, r.2.2)
  | .decodeDecrypt msg ikeHeader role =>
    let r := Ike.decodeDecrypt C msg ikeHeader role k
    (.decoded r.1, r.2)
  | .generateKeyForChildSA childsaKey nonce =>
    let r := ChildSAKey.generateKeyForChildSA C childsaKey nonce k
    (.childKeys r.1, r.2)

/-- the results of the calls, one after the other -/
def runCalls (C : Crypto) : Option IKESAKey → List Call → List Result
  | _, [] => []
  | k, c :: cs => (c.run C k).1 :: runCalls C (c.run C k).2 cs

section
variable (C : Crypto) {k k' : IKESAKey} (h : k.fresh = k'.fresh)
include h

theorem encodeEncrypt_alike (rand : Bytes) (m : Option IKEMessage) (role : Role) :
    (encodeEncrypt C rand m (some k) role).1 = (encodeEncrypt C rand m (some k') role).1 ∧
      (encodeEncrypt C rand m (some k) role).2.1 = (encodeEncrypt C rand m (some k') role).2.1 ∧
      ∃ k₁, (encodeEncrypt C rand m (some k) role).2.2 = some k₁ ∧ k₁.fresh = k.fresh := by
  cases m with
  | none => exact ⟨rfl, rfl, k, rfl, rfl⟩
  | some m =>
    obtain ⟨h1, h2⟩ := encodeEncryptKey_same C rand role (m, k) (m, k') (Prod.ext rfl h)
    obtain ⟨h3, _⟩ := Prod.mk.inj h2
    exact ⟨h1, congrArg some h3, _, rfl, encodeEncryptKey_keeps C rand role (m, k)⟩

theorem decodeDecrypt_alike (msg : Slice UInt8) (header : Option IKEHeader) (role : Role) :
    (decodeDecrypt C msg header role (some k)).1 = (decodeDecrypt C msg header role (some k')).1 ∧
      ∃ k₁, (decodeDecrypt C msg header role (some k)).2 = some k₁ ∧ k₁.fresh = k.fresh := by
  unfold decodeDecrypt
  cases decodeClear msg header with
  | err e => exact ⟨rfl, k, rfl, rfl⟩
  | panic p => exact ⟨rfl, k, rfl, rfl⟩
  | ok m =>
    show (if startsWithSK m.payloads = true then _ else _ : Outcome IKEMessage × Option IKESAKey).1 = _ ∧ _
    by_cases hs : startsWithSK m.payloads = true
    · simp only [if_pos hs]
      exact ⟨congrArg (Outcome.wrapf _) (decryptMsg_same C msg m role k k' h).1, _, rfl,
        decryptMsg_keeps C msg m role k⟩
    · simp only [if_neg hs, true_and]
      exact ⟨k, rfl, rfl⟩

theorem generateKeyForChildSA_alike (c : Option ChildSAKey) (nonce : Bytes) :
    (ChildSAKey.generateKeyForChildSA C c nonce (some k)).1 =
        (ChildSAKey.generateKeyForChildSA C c nonce (some k')).1 ∧
      ∃ k₁, (ChildSAKey.generateKeyForChildSA C c nonce (some k)).2 = some k₁ ∧
        k₁.fresh = k.fresh := by
  cases c with
  | none => exact ⟨rfl, k, rfl, rfl⟩
  | some c =>
    obtain ⟨h1, h2⟩ := generateKeys_alike C c nonce h
    exact ⟨h1, _, rfl, h2⟩

theorem Call.run_alike (c : Call) :
    (c.run C (some k)).1 = (c.run C (some k')).1 ∧
      ∃ k₁, (c.run C (some k)).2 = some k₁ ∧ k₁.fresh = k.fresh := by
  cases c with
  | encodeEncrypt rand m role =>
    obtain ⟨h1, h2, h3⟩ := encodeEncrypt_alike C h rand m role
    exact ⟨congrArg₂ Result.encoded h1 h2, h3⟩
  | decodeDecrypt msg header role =>
    obtain ⟨h1, h2⟩ := decodeDecrypt_alike C h msg header role
    exact ⟨congrArg Result.decoded h1, h2⟩
  | generateKeyForChildSA c nonce =>
    obtain ⟨h1, h2⟩ := generateKeyForChildSA_alike C h c nonce
    exact ⟨congrArg Result.childKeys h1, h2⟩

theorem runCalls_alike (calls : List Call) :
    runCalls C (some k) calls = calls.map fun c => (c.run C (some k')).1 := by
  induction calls generalizing k with
  | nil => rfl
  | cons c cs ih =>
    obtain ⟨h1, k₁, h2, h3⟩ := Call.run_alike C h c
    show (c.run C (some k)).1 :: runCalls C (c.run C (some k)).2 cs = _
    rw [h1, h2, ih (h3.trans h)]
    rfl

end

/-- key objects derived with the same algorithms are the same when their keys are -/
theorem generateKeyForIKESA_unique {C : Crypto} {nonce shared nonce' shared' : Bytes}
    {i r i' r' : UInt64} {k₀ k k₀' k' : IKESAKey}
    (h : IKESAKey.generateKeyForIKESA C nonce shared i r k₀ = (.ok (), k))
    (h' : IKESAKey.generateKeyForIKESA C nonce' shared' i' r' k₀' = (.ok (), k'))
    (hdh : k₀.dhInfo = k₀'.dhInfo) (he : k₀.encrInfo = k₀'.encrInfo)
    (hi : k₀.integInfo = k₀'.integInfo) (hp : k₀.prfInfo = k₀'.prfInfo)
    (hkeys : k.toSKKeys = k'.toSKKeys) : k = k' := by
  obtain ⟨e, t, p, d, keys, ei, er, h1, h2, h3, h4, _, _, _, h5, h6, rfl⟩ :=
    generateKeyForIKESA_iff.mp h
  obtain ⟨e', t', p', d', keys', ei', er', h1', h2', h3', h4', _, _, _, h5', h6', rfl⟩ :=
    generateKeyForIKESA_iff.mp h'
  obtain rfl : keys = keys' := hkeys
  obtain rfl : e = e' := Option.some.inj (by rw [← h1, he, h1'])
  obtain rfl : t = t' := Option.some.inj (by rw [← h2, hi, h2'])
  obtain rfl : p = p' := Option.some.inj (by rw [← h3, hp, h3'])
  rw [h5] at h5'
  rw [h6] at h6'
  injection h5' with h5'
  injection h6' with h6'
  simp only [IKESAKey.assign, hdh, he, hi, hp, h5', h6']

/-- **A key object carries nothing from one call to the next**: each call of a sequence gives what it
gives on a key object that was just derived, with the same algorithms and keys. -/
theorem runCalls_eq {C : Crypto} {nonce shared nonce' shared' : Bytes} {i r i' r' : UInt64}
    {k₀ k k₀' k' : IKESAKey}
    (h : IKESAKey.generateKeyForIKESA C nonce shared i r k₀ = (.ok (), k))
    (h' : IKESAKey.generateKeyForIKESA C nonce' shared' i' r' k₀' = (.ok (), k'))
    (hdh : k₀.dhInfo = k₀'.dhInfo) (he : k₀.encrInfo = k₀'.encrInfo)
    (hi : k₀.integInfo = k₀'.integInfo) (hp : k₀.prfInfo = k₀'.prfInfo)
    (hkeys : k.toSKKeys = k'.toSKKeys) (calls : List Call) :
    runCalls C (some k) calls = calls.map fun c => (c.run C (some k')).1 := by
  have hk := generateKeyForIKESA_unique h h' hdh he hi hp hkeys
  exact runCalls_alike C (congrArg IKESAKey.fresh hk) calls

/-- the message with a nonce under the keys of the exchange, without the checksum -/
def exchangeCovered : Bytes :=
  octets 64 0x000000000000000100000000000000022e202508000000000000004c28000030101112131415161718191a1b1c1d1e1fee604b510e4e05658e03666f6963e346

def exchangeOctets : Bytes := exchangeCovered ++ octets 12 0x76c6c1e53709bcfccb9c6252

/-- the HMACs of the key exchange, those of the message and of KEYMAT under the keys it gives, and the
block of the message -/
def exchangeCrypto : Crypto :=
  Crypto.ofTable (exchangeTable ++
    ((.sha1, octets 20 0xfb5340c543ade551635ec30a3be1eec4cdc82723, exchangeCovered,
      octets 20 0x76c6c1e53709bcfccb9c6252b4ad93cf1a9c5ca3) ::
    chainEntries .sha1 (octets 20 0x6bc2c3433aa225c98ed157965e6545aa9ee70090) (octets 4 0x4e694e72) [] 1
      [octets 20 0xf884c307c772853b5bd3ed942bf07fdef078707a,
        octets 20 0x178fc8dbcb34be400ad328e31a40133d90e23817,
        octets 20 0x299fe0491e2979bdd035dc9552d035554398ad7c,
        octets 20 0xd9467ecfd777ee7d3e2afdd03921984967dee9ea]))
    (octets 16 0x1011121f151715131d1f1d13b6a6d21c) (octets 16 0xee604b510e4e05658e03666f6963e346)

theorem exchangeCrypto_lawful : exchangeCrypto.Lawful :=
  Crypto.ofTable_lawful _ (by decide) (by decide)

/-- the key object of the exchange -/
def exchangeKey : IKESAKey :=
  (IKESAKey.ofInfo (some .dh1024BitModp) (some .encrAesCbc128) (some .authHmacSha1_96)
    (some .prfHmacSha1)).assign .authHmacSha1_96 .prfHmacSha1
      { sk_d := octets 20 0x6bc2c3433aa225c98ed157965e6545aa9ee70090
        sk_ai := octets 20 0xfb5340c543ade551635ec30a3be1eec4cdc82723
        sk_ar := octets 20 0xb7339ab644e0b4efe184044f60d7bc97d5799b6c
        sk_ei := octets 16 0xe7f870666ddac796fb3b2240fcc2a968
        sk_er := octets 16 0x28759df8196bb3f72b877c66a4b9da5f
        sk_pi := octets 20 0x1b084154f7b29dae82b8371556e0348323352a4e
        sk_pr := octets 20 0x4e7a51d6d62835a239c14a260e3a4ab2b1c5f541 }
      ⟨⟨octets 16 0xe7f870666ddac796fb3b2240fcc2a968, by decide⟩, none, none⟩
      ⟨⟨octets 16 0x28759df8196bb3f72b877c66a4b9da5f, by decide⟩, none, none⟩

theorem exchangeKey_eq :
    IKESAKey.generateKeyForIKESA exchangeCrypto (octets 4 0x4e694e72) exchangeSharedKey 1 2
      (IKESAKey.ofInfo (some .dh1024BitModp) (some .encrAesCbc128) (some .authHmacSha1_96)
        (some .prfHmacSha1)) = (.ok (), exchangeKey) := by
  decide +kernel

/-- the initiator seals a nonce, the responder opens it; then keys of a child SA, and both once more -/
def exchangeCalls : List Call :=
  let sealNonce := Call.encodeEncrypt (octets 20 0xaabbccdd101112131415161718191a1b1c1d1e1f)
    (some (newMessage 1 2 37 false true 0 [.nonce ⟨[1, 2, 3, 4, 5, 6, 7, 8]⟩])) .initiator
  let openNonce := Call.decodeDecrypt ⟨exchangeOctets, []⟩ none .responder
  [sealNonce, openNonce,
    .generateKeyForChildSA (some (ChildSAKey.ofInfo none (some .encrAesCbc128) (some .authHmacSha1_96)
      { needESN := false })) (octets 4 0x4e694e72), sealNonce, openNonce]

theorem runCalls_exchange :
    runCalls exchangeCrypto (some exchangeKey) exchangeCalls =
        exchangeCalls.map (fun c => (c.run exchangeCrypto (some exchangeKey)).1) ∧
      (encodeEncrypt exchangeCrypto (octets 20 0xaabbccdd101112131415161718191a1b1c1d1e1f)
        (some (newMessage 1 2 37 false true 0 [.nonce ⟨[1, 2, 3, 4, 5, 6, 7, 8]⟩])) (some exchangeKey)
        .initiator).1 = .ok exchangeOctets ∧
      (decodeDecrypt exchangeCrypto ⟨exchangeOctets, []⟩ none .responder (some exchangeKey)).1 =
        .ok ⟨headerOf exchangeOctets, [.nonce ⟨[1, 2, 3, 4, 5, 6, 7, 8]⟩]⟩ := by
  refine ⟨?_, by decide +kernel, rfl⟩
  exact runCalls_eq exchangeKey_eq exchangeKey_eq rfl rfl rfl rfl rfl exchangeCalls

end Ike
