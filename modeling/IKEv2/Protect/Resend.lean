import IKEv2.Protect.Transparent

/-!
# Sending one message twice

`EncodeEncrypt` leaves the SK payload in the message it was given.  A second call with the same
message protects this payload again: the octets of the first call are inside those of the second.

* `encodeEncrypt_state`   the message after a call that returns octets;
* `open_again`            what the other end opens if the call is repeated;
* `resend_nests`          any number of calls, one after the other.
-/

set_option linter.unusedVariables false

namespace Ike
open GoLang

/-! ## the message after a call -/

theorem IKEHeader.setPayload_setPayload (h : IKEHeader) (n n' : UInt8) (p p' : Bytes) :
    (h.setPayload n p).setPayload n' p' = h.setPayload n' p' := rfl

/-- a second encoding gives the same octets -/
theorem encode_again {m m' : IKEMessage} {b : Bytes} (h : IKEMessage.encode m = (.ok b, m')) :
    (IKEMessage.encode m').1 = .ok b := by
  obtain ⟨p, hp, hm⟩ := encode_message_ok (congrArg Prod.fst h)
  unfold IKEMessage.encode at h
  rw [hp] at h
  obtain ⟨_, rfl⟩ := Prod.mk.inj h
  unfold IKEMessage.encode
  simp only [hp]
  exact hm

/-- **The message after a call**: the header as before but for its last two fields, one SK payload, and
the octets of the call as its encoding. -/
theorem encodeEncrypt_state {C : Crypto} {k : IKESAKey} {m : IKEMessage} {rand b : Bytes} {role : Role}
    {s : IKEMessage × IKESAKey} (h : encodeEncryptKey C rand role (m, k) = (.ok b, s)) :
    (IKEMessage.encode s.1).1 = .ok b ∧
      ∃ n p e, s.1 = ⟨m.header.setPayload n p, [.sk e]⟩ ∧ e.nextPayload = m.payloads.firstType := by
  obtain ⟨_, u, h1, h2⟩ := Proc.bind_eq_ok.mp h
  obtain ⟨hb, _⟩ := Proc.onFst_eq_ok.mp (Proc.wrapf_eq_ok.mp h2)
  obtain ⟨t, plain, cipher, b0, m1, covered, sum, _, _, _, hb0, _, _, hu⟩ :=
    encryptMsg_ok (Proc.wrapf_eq_ok.mp h1)
  refine ⟨encode_again hb, ?_⟩
  obtain ⟨p0, hp0⟩ := header_of_encode hb0
  obtain ⟨p, hp⟩ := header_of_encode hb
  have hpay : s.1.payloads = u.1.payloads := by
    rw [← encode_payloads u.1, hb]
  have hhead : s.1.header = m.header.setPayload u.1.payloads.firstType p := by
    rw [hp, hu]
    show m1.header.setPayload _ _ = _
    rw [hp0, IKEHeader.setPayload_setPayload]
  rw [hu] at hpay
  refine ⟨u.1.payloads.firstType, p, ⟨m.payloads.firstType, copyLast t.getOutputLength
    (cipher ++ List.replicate t.getOutputLength 0) sum⟩, ?_, rfl⟩
  exact congrArg₂ IKEMessage.mk hhead hpay

theorem encodeEncrypt_key {C : Crypto} {k k' : IKESAKey} (hk : k'.fresh = k.fresh) {m : IKEMessage}
    {rand b : Bytes} {role : Role} {s : IKEMessage × IKESAKey}
    (h : encodeEncryptKey C rand role (m, k') = (.ok b, s)) :
    s.2.fresh = k.fresh ∧ (encodeEncrypt C rand (some m) (some k) role).1 = .ok b := by
  obtain ⟨hsame, _, k₁, hk₁, hfresh⟩ := encodeEncrypt_alike C hk rand (some m) role
  have hkey : some s.2 = some k₁ := by
    rw [← hk₁]
    exact congrArg some (congrArg (fun r => r.2.2) h).symm
  refine ⟨?_, hsame.symm.trans (congrArg Prod.fst h)⟩
  rw [Option.some.inj hkey, hfresh]
  exact hk

/-! ## the second call -/

/-- the payload of a sealed message is decoded as it is -/
theorem decode_sk {e : Encrypted} {plain : Bytes} (h : IKEPayloadContainer.encode [.sk e] = .ok plain)
    (pad : Bytes) : IKEPayloadContainer.decode [] IkePayloadType.SK.code ⟨plain, pad⟩ = .ok [.sk e] := by
  have hne : e.encryptedData.length ≠ 0 := by
    intro h0
    obtain ⟨data, rest, hm, _⟩ := IKEPayloadContainer.encode_cons.mp h
    rw [IKEPayload.marshal, Encrypted.marshal, if_pos h0] at hm
    exact absurd hm (fail_ne_ok _ _)
  have hs : ∀ q ∈ [IKEPayload.sk e], q.Survives := by
    intro q hq
    rw [List.mem_singleton.mp hq]
    exact survives_sk hne
  exact IKEPayloadContainer.decode_encode hs (IKEPayloadContainer.linked_of_last (by simp)) h pad

theorem encode_setPayload (h : IKEHeader) (n : UInt8) (p : Bytes) (ps : IKEPayloadContainer) :
    (IKEMessage.encode ⟨h.setPayload n p, ps⟩).1 = (IKEMessage.encode ⟨h, ps⟩).1 := by
  unfold IKEMessage.encode
  cases ps.encode <;> rfl

theorem encode_written (h : IKEHeader) (ps : IKEPayloadContainer) :
    (IKEMessage.encode ⟨h.written, ps⟩).1 = (IKEMessage.encode ⟨h, ps⟩).1 := by
  unfold IKEMessage.encode
  cases ps.encode with
  | ok p => exact IKEHeader.marshal_written (h.setPayload _ p)
  | err e => rfl
  | panic p => rfl

/-- opened at the other end, `b'` is a message with an SK payload whose encoding is `b` -/
def Inside (C : Crypto) (k : IKESAKey) (role : Role) (b b' : Bytes) : Prop :=
  ∀ sp, ∃ m e, (decodeDecrypt C ⟨b', sp⟩ none role.not (some k)).1 = .ok m ∧ m.payloads = [.sk e] ∧
    (IKEMessage.encode m).1 = .ok b

section
variable {C : Crypto} (hC : C.Lawful) {k : IKESAKey} (hk : k.Populated) {h : IKEHeader}
include hC hk

/-- **The second call** gives octets that are longer, and in which those of the first call are. -/
theorem open_again {e : Encrypted} {rand b b' : Bytes} {role : Role}
    (hb : (IKEMessage.encode ⟨h, [.sk e]⟩).1 = .ok b)
    (hb' : (encodeEncrypt C rand (some ⟨h, [.sk e]⟩) (some k) role).1 = .ok b') :
    Inside C k role b b' ∧ b.length < b'.length := by
  obtain ⟨plain, pad, hplain, _, hopen⟩ := open_sealed_outcome hC hk hb'
  have hhead : ∃ n p, headerOf b' = (h.setPayload n p).written := by
    obtain ⟨_, _, _, _, _, _, _, _, _, _, henc⟩ := encodeEncrypt_ok hk hb'
    obtain ⟨q, _, hm⟩ := encode_message_ok henc
    exact ⟨_, q, (headerOf_written (h := h.setPayload _ q) hm).2.2⟩
  obtain ⟨n, p, hhead⟩ := hhead
  refine ⟨fun sp => ⟨⟨headerOf b', [.sk e]⟩, e, ?_, rfl, ?_⟩, ?_⟩
  · rw [hopen sp, show IKEPayloadContainer.firstType [.sk e] = IkePayloadType.SK.code from rfl,
      decode_sk hplain pad]
    rfl
  · rw [hhead, encode_written, encode_setPayload]
    exact hb
  · have hlen' := length_sealed hC hk hb' hplain
    have hlen : b.length = 28 + plain.length := by
      obtain ⟨q, hq, hm⟩ := encode_message_ok hb
      obtain rfl := Outcome.ok.inj (hplain.symm.trans hq)
      exact (headerOf_written (h := h.setPayload _ plain) hm).1
    omega

end

/-! ## any number of calls -/

/-- the octets of calls one after the other with the same message and key, to the first that fails -/
def resend (C : Crypto) (role : Role) : List Bytes → IKEMessage × IKESAKey → List Bytes
  | [], _ => []
  | rand :: rands, s =>
    match encodeEncryptKey C rand role s with
    | (.ok b, s') => b :: resend C role rands s'
    | _ => []

theorem resend_cons (C : Crypto) (role : Role) (rand : Bytes) (rands : List Bytes)
    (s : IKEMessage × IKESAKey) : resend C role (rand :: rands) s = [] ∨
      ∃ b s', encodeEncryptKey C rand role s = (.ok b, s') ∧
        resend C role (rand :: rands) s = b :: resend C role rands s' := by
  obtain ⟨x, s', h⟩ : ∃ x s', encodeEncryptKey C rand role s = (x, s') := ⟨_, _, rfl⟩
  rw [resend, h]
  cases x with
  | ok b => exact .inr ⟨b, s', rfl, rfl⟩
  | err e => exact .inl rfl
  | panic p => exact .inl rfl

section
variable {C : Crypto} (hC : C.Lawful) {k : IKESAKey} (hk : k.Populated) {h : IKEHeader}
include hC hk

/-- the calls behind one that has returned `b` -/
theorem resend_behind (role : Role) (rands : List Bytes) {b : Bytes} {s : IKEMessage × IKESAKey}
    (hfresh : s.2.fresh = k.fresh) (hb : (IKEMessage.encode s.1).1 = .ok b)
    (hs : ∃ n p e, s.1 = ⟨h.setPayload n p, [.sk e]⟩) :
    (b :: resend C role rands s).IsChain fun b b' => Inside C k role b b' ∧ b.length < b'.length := by
  induction rands generalizing b s with
  | nil => exact .singleton b
  | cons rand rands ih =>
    rcases resend_cons C role rand rands s with hnil | ⟨b', s', hcall, hcons⟩
    · rw [hnil]
      exact .singleton b
    obtain ⟨m, k'⟩ := s
    obtain ⟨n, p, e, rfl⟩ : ∃ n p e, m = ⟨h.setPayload n p, [.sk e]⟩ := hs
    obtain ⟨hkey, hb'⟩ := encodeEncrypt_key hfresh hcall
    obtain ⟨hagain, n', p', e', hs', _⟩ := encodeEncrypt_state hcall
    rw [hcons, List.isChain_cons_cons]
    exact ⟨open_again hC hk hb hb', ih hkey hagain ⟨n', p', e', hs'⟩⟩

end

/-- **Any number of calls with one message**: the octets of each call after the first are longer than
those of the call before, and the other end finds those inside, and not the payloads. -/
theorem resend_nests {C : Crypto} (hC : C.Lawful) {k : IKESAKey} (hk : k.Populated) (m : IKEMessage)
    (role : Role) (rands : List Bytes) : (resend C role rands (m, k)).IsChain
      fun b b' => Inside C k role b b' ∧ b.length < b'.length := by
  cases rands with
  | nil => exact .nil
  | cons rand rands =>
    rcases resend_cons C role rand rands (m, k) with hnil | ⟨b, s, hcall, hcons⟩
    · rw [hnil]
      exact .nil
    obtain ⟨hagain, n, p, e, hs, _⟩ := encodeEncrypt_state hcall
    rw [hcons]
    exact resend_behind hC hk role rands (encodeEncrypt_key rfl hcall).1 hagain ⟨n, p, e, hs⟩

/-- a nonce that is sent twice -/
theorem resend_nests_nonce : ∃ b b',
    resend messageCrypto .initiator [List.replicate 32 7, List.replicate 32 8]
      (newMessage 1 2 37 false true 0 [.nonce ⟨[1, 2, 3, 4, 5, 6, 7, 8]⟩], sharedKey) = [b, b'] ∧
    Inside messageCrypto sharedKey .initiator b b' ∧ b.length < b'.length := by
  generalize hm : newMessage 1 2 37 false true 0 [.nonce ⟨[1, 2, 3, 4, 5, 6, 7, 8]⟩] = m
  have hnests := resend_nests messageCrypto_lawful sharedKey_populated m .initiator
    [List.replicate 32 7, List.replicate 32 8]
  have hplain : m.payloads.encode = .ok [0, 0, 0, 12, 1, 2, 3, 4, 5, 6, 7, 8] := by rw [← hm]; rfl
  -- both calls succeed
  have hrand : ∀ x : UInt8, 32 ≤ (List.replicate 32 x).length :=
    fun x => Nat.le_of_eq List.length_replicate.symm
  obtain ⟨b, hb⟩ := encodeEncrypt_fits messageCrypto_lawful sharedKey_populated (hrand 7) .initiator
    hplain (by decide)
  have hlen := length_sealed messageCrypto_lawful sharedKey_populated hb hplain
  obtain ⟨s, hs⟩ := Proc.exists_of_fst
    (show (encodeEncryptKey messageCrypto _ .initiator (m, sharedKey)).1 = .ok b from hb)
  obtain ⟨hfresh, _⟩ := encodeEncrypt_key (k := sharedKey) rfl hs
  obtain ⟨hagain, n, q, e, hst, _⟩ := encodeEncrypt_state hs
  obtain ⟨m', k'⟩ := s
  obtain rfl : m' = ⟨m.header.setPayload n q, [.sk e]⟩ := hst
  obtain ⟨p, hp, hmar⟩ := encode_message_ok hagain
  have hple : p.length ≤ 65487 := by
    have hl : b.length = 28 + p.length :=
      (headerOf_written (h := (m.header.setPayload n q).setPayload _ p) hmar).1
    have hout := sharedKey.outputLength_le_16
    simp only [List.length_cons, List.length_nil] at hlen
    omega
  obtain ⟨b', hb'⟩ := encodeEncrypt_fits messageCrypto_lawful sharedKey_populated (hrand 8) .initiator
    hp hple
  obtain ⟨s', hs'⟩ := Proc.exists_of_fst
    (show (encodeEncryptKey messageCrypto _ .initiator (⟨m.header.setPayload n q, [.sk e]⟩, k')).1 =
      .ok b' from (encodeEncrypt_alike messageCrypto hfresh _ _ .initiator).1.trans hb')
  have hrun : resend messageCrypto .initiator [List.replicate 32 7, List.replicate 32 8]
      (m, sharedKey) = [b, b'] := by
    rw [resend, hs]
    show b :: resend messageCrypto .initiator [List.replicate 32 8] _ = _
    rw [resend, hs']
    rfl
  rw [hrun, List.isChain_cons_cons] at hnests
  exact ⟨b, b', hrun, hnests.1⟩

end Ike
