import IKEv2.GoLang.Channel
import IKEv2.Protect.RoundTrip

/-!
# Two ends and a network

The initiator and the responder hold key objects with the same keys.  They seal messages, open what the
network brings and derive child keys, in any order.  The network may lose, repeat and reorder what was
sealed, and bring octets that nobody sealed: `Event.receive` takes any slice.  `DecodeDecrypt` hands
messages in the clear to an end that has a key; a session counts what starts with an SK payload only.

* `decode_sealedHead`          what is in front of the data of an SK payload decides how it is read;
* `Session.sound_run`          the key objects stay alike, and what was sent was sealed with them;
* `Session.receive_authentic`  the three ways to be accepted: in the clear, sent by the peer, forged;
* `session_authentic`          the same, after any run;
* `session_refines`            without forgeries the two ends are an authentic channel, and what was sent
                               can be delivered at any later time;
* `session_reflects`           an end refuses its own messages.
-/

set_option linter.unusedVariables false

namespace Ike
open GoLang

/-! ## the octets of a sealed message -/

/-- the octets under the checksum -/
def IKESAKey.covered (k : IKESAKey) (b : Bytes) : Bytes := b.take (b.length - k.outputLength)

/-- messages that the other end gets as they are -/
structure IKEMessage.Sealable (m : IKEMessage) : Prop where
  major : m.header.majorVersion < 16
  minor : m.header.minorVersion < 16
  survives : ∀ p ∈ m.payloads, p.Survives
  noSK : ∀ p ∈ m.payloads, p.type ≠ .SK

theorem length_sealedHead (h : IKEHeader) (next : UInt8) (l : Nat) :
    (sealedHead h next l).length = 32 := by
  simp only [sealedHead, List.length_append, length_putUint64, length_putUint32, length_putUint16,
    List.length_cons, List.length_nil]

/-- the header and the only record of a message with one SK payload -/
theorem sealedHead_append (h : IKEHeader) (next : UInt8) (d : Bytes) :
    sealedHead h next d.length ++ d =
      headerOctets (putUint64 h.initiatorSPI) (putUint64 h.responderSPI) IkePayloadType.SK.code
        ((h.majorVersion <<< 4) ||| (h.minorVersion &&& 0x0F)) h.exchangeType h.flags
        (putUint32 h.messageID) (putUint32 (UInt32.ofNat (28 + (4 + d.length))))
        (IKEPayloadContainer.record next d) := by
  simp only [sealedHead, headerOctets, IKEPayloadContainer.record, List.append_assoc]

theorem payloadBytes_headerOf (b : Bytes) : (headerOf b).payloadBytes = b.drop 28 := rfl

/-- **The octets in front of the data decide how a message is read**: one SK payload with these data. -/
theorem decode_sealedHead (h : IKEHeader) (next : UInt8) {d : Bytes} (hd : 4 + d.length ≤ 65535)
    (sp : Bytes) :
    IKEMessage.decode [] ⟨sealedHead h next d.length ++ d, sp⟩ =
      .ok ⟨headerOf (sealedHead h next d.length ++ d), [.sk ⟨next, d⟩]⟩ := by
  obtain ⟨hhead, hlen⟩ := headerOf_octets (n := IkePayloadType.SK.code)
    (v := (h.majorVersion <<< 4) ||| (h.minorVersion &&& 0x0F)) (x := h.exchangeType) (f := h.flags)
    (p := IKEPayloadContainer.record next d) (length_putUint64 h.initiatorSPI)
    (length_putUint64 h.responderSPI) (length_putUint32 h.messageID)
    (length_putUint32 (UInt32.ofNat (28 + (4 + d.length))))
  rw [← sealedHead_append] at hhead hlen
  have hfield : octNat (putUint32 (UInt32.ofNat (28 + (4 + d.length)))) = 28 + (4 + d.length) := by
    rw [putUint32, UInt32.toNat_ofNat_of_lt' (by show _ < 4294967296; omega),
      octNat_octets_of_lt (by omega)]
  have hnext : (headerOf (sealedHead h next d.length ++ d)).nextPayload = IkePayloadType.SK.code := by
    rw [hhead]
  have hdrop : (sealedHead h next d.length ++ d).drop 28 = IKEPayloadContainer.record next d := by
    rw [← payloadBytes_headerOf, hhead]
  have hrec : LenRec 4 (IKEPayloadContainer.record next d) :=
    IKEPayloadContainer.lenRec_record (by omega)
  refine message_decode_iff.mpr ⟨?_, ?_, .inr ?_, rfl, ?_⟩
  · rw [List.length_append, length_sealedHead]
    omega
  · rw [hlen, hfield]
    omega
  · rw [hdrop]
    exact List.cons_ne_nil _ _
  · rw [hnext, hdrop]
    have hp : (IKEPayload.new (recNext (IKEPayloadContainer.record next d)) .SK).unmarshal
        ⟨recBody (IKEPayloadContainer.record next d), [].flatten ++ sp⟩ = .ok (.sk ⟨next, d⟩) := by
      rw [IKEPayloadContainer.recNext_record, IKEPayloadContainer.recBody_record]
      rfl
    have hchain := PayloadChain.payload hrec (IkePayloadType.ofCode_code .SK) hp (.nil _)
    exact IKEPayloadContainer.decode_iff.mpr ⟨_, _, _, hchain, by simp, rfl⟩

theorem sealedHead_setPayload (h : IKEHeader) (n next : UInt8) (p : Bytes) (l : Nat) :
    sealedHead (h.setPayload n p) next l = sealedHead h next l := rfl

/-- what a sealed message is made of -/
theorem sealed_octets {C : Crypto} {k : IKESAKey} (hk : k.Populated) {m : IKEMessage}
    {rand b : Bytes} {role : Role} (h : (encodeEncrypt C rand (some m) (some k) role).1 = .ok b) :
    ∃ cipher sum, sum.length = k.outputLength ∧ 4 + (cipher ++ sum).length ≤ 65535 ∧
      b = sealedHead m.header m.payloads.firstType (cipher ++ sum).length ++ (cipher ++ sum) ∧
      sum = k.mac C role
        (sealedHead m.header m.payloads.firstType (cipher ++ sum).length ++ cipher) := by
  obtain ⟨encr, plain, cipher, sum, p, _, _, _, hlen, hsum, hb⟩ := encodeEncrypt_ok hk h
  have hdata : (cipher ++ sum).length = cipher.length + k.outputLength := by
    rw [List.length_append, hlen]
  obtain ⟨q, hq, _⟩ := encode_message_ok hb
  obtain ⟨data, rest, hm, hfit, _, _⟩ := IKEPayloadContainer.encode_cons.mp hq
  have hm : data = cipher ++ sum := by
    unfold IKEPayload.marshal Encrypted.marshal at hm
    simp only at hm
    split at hm
    · exact absurd hm (fail_ne_ok _ _)
    · exact (Outcome.ok.inj hm).symm
  rw [hm] at hfit
  have hb := encode_sealed hb
  rw [sealedHead_setPayload] at hb
  refine ⟨cipher, sum, hlen, Nat.not_lt.mp hfit, hb, ?_⟩
  rw [hdata]
  exact hsum

/-! ## the two ends -/

/-- a message and the octets that an end has made of it -/
structure Sent where
  sender : Role
  message : IKEMessage
  octets : Bytes

/-- octets that an end has taken for a protected message, and the message -/
structure Accepted where
  receiver : Role
  octets : Bytes
  message : IKEMessage

/-- the key objects of the two ends, and what has happened, the last first -/
structure Session where
  key : Role → IKESAKey
  sent : List Sent
  accepted : List Accepted

/-- a call of one end; the network brings any octets -/
inductive Event where
  | send (role : Role) (rand : Bytes) (ikeMsg : IKEMessage)
  | receive (role : Role) (msg : Slice UInt8)
  | child (role : Role) (childsaKey : ChildSAKey) (concatenatedNonce : Bytes)

/-- the octets are a message that starts with an SK payload -/
def isProtected (msg : Slice UInt8) : Bool :=
  match IKEMessage.decode [] msg with
  | .ok m => startsWithSK m.payloads
  | _ => false

namespace Session

/-- the two ends after the key exchange -/
def start (ki kr : IKESAKey) : Session where
  key
    | .initiator => ki
    | .responder => kr
  sent := []
  accepted := []

/-- the object of an end after a call -/
def setKey (s : Session) (role : Role) (k : Option IKESAKey) : Role → IKESAKey :=
  Function.update s.key role (k.getD (s.key role))

/-- one call.  What `DecodeDecrypt` returns counts as accepted if the octets start with an SK payload:
a message in the clear is returned to the caller as well, and it is a choice of this model to leave it
out.  A call that returns no value, with an error or because it stops the program, adds nothing. -/
def step (C : Crypto) (s : Session) : Event → Session
  | .send role rand m =>
    let r := encodeEncrypt C rand (some m) (some (s.key role)) role
    { s with
      key := s.setKey role r.2.2
      sent := (r.1.value.map (Sent.mk role m)).toList ++ s.sent }
  | .receive role msg =>
    let r := decodeDecrypt C msg none role (some (s.key role))
    { s with
      key := s.setKey role r.2
      accepted := (if isProtected msg then (r.1.value.map (Accepted.mk role msg.data)).toList else [])
        ++ s.accepted }
  | .child role c nonce =>
    { s with
      key := s.setKey role (ChildSAKey.generateKeyForChildSA C (some c) nonce (some (s.key role))).2 }

/-- the key objects are `k` up to what was written to them, and what was sent was sealed with `k` -/
structure Sound (C : Crypto) (k : IKESAKey) (s : Session) : Prop where
  keys : ∀ role, (s.key role).fresh = k.fresh
  sealing : ∀ x ∈ s.sent, ∃ rand,
    (encodeEncrypt C rand (some x.message) (some k) x.sender).1 = .ok x.octets

theorem sound_start {C : Crypto} {ki kr : IKESAKey} (h : kr.fresh = ki.fresh) :
    Sound C ki (start ki kr) where
  keys role := by
    cases role with
    | initiator => rfl
    | responder => exact h
  sealing x hx := absurd hx (List.not_mem_nil)

theorem fresh_setKey {s : Session} {k : IKESAKey} (hs : ∀ role, (s.key role).fresh = k.fresh)
    {role : Role} {o : Option IKESAKey}
    (ho : ∃ k₁, o = some k₁ ∧ k₁.fresh = (s.key role).fresh) (role' : Role) :
    (s.setKey role o role').fresh = k.fresh := by
  obtain ⟨k₁, rfl, hk₁⟩ := ho
  unfold setKey
  by_cases hr : role' = role
  · subst hr
    rw [Function.update_self]
    exact hk₁.trans (hs role')
  · rw [Function.update_of_ne hr]
    exact hs role'

theorem sound_step {C : Crypto} {k : IKESAKey} (s : Session) (e : Event) (hs : Sound C k s) :
    Sound C k (s.step C e) := by
  cases e with
  | send role rand m =>
    obtain ⟨h1, _, hkey⟩ := encodeEncrypt_alike C (hs.keys role) rand (some m) role
    refine ⟨fresh_setKey hs.keys hkey, fun x hx => ?_⟩
    rcases List.mem_append.mp hx with hx | hx
    · obtain ⟨b, hb, rfl⟩ := Option.map_eq_some_iff.mp (Option.mem_toList.mp hx)
      exact ⟨rand, h1.symm.trans (Outcome.value_eq_some.mp hb)⟩
    · exact hs.sealing x hx
  | receive role msg =>
    obtain ⟨_, hkey⟩ := decodeDecrypt_alike C (hs.keys role) msg none role
    exact ⟨fresh_setKey hs.keys hkey, hs.sealing⟩
  | child role c nonce =>
    obtain ⟨_, hkey⟩ := generateKeyForChildSA_alike C (hs.keys role) (some c) nonce
    exact ⟨fresh_setKey hs.keys hkey, hs.sealing⟩

theorem sound_run {C : Crypto} {ki kr : IKESAKey} (h : kr.fresh = ki.fresh) (events : List Event) :
    Sound C ki (run (step C) (start ki kr) events) :=
  run_inv (step C) sound_step (sound_start h) events

/-! ## what is accepted -/

/-- a checksum under the key of the other end, on octets that this end has never sealed -/
def Forged (C : Crypto) (k : IKESAKey) (s : Session) (role : Role) (msg : Slice UInt8) : Prop :=
  (∀ x ∈ s.sent, x.sender = role.not → k.covered x.octets ≠ k.covered msg.data) ∧
  ∃ m e, IKEMessage.decode [] msg = .ok m ∧ lastSK m.payloads = some e ∧ Verified C k role msg.data e

/-- octets with a right checksum are a sealed message if they are one without the checksum -/
theorem eq_of_covered {C : Crypto} {k : IKESAKey} (hk : k.Populated) {m : IKEMessage}
    {rand b : Bytes} {role : Role}
    (h : (encodeEncrypt C rand (some m) (some k) role.not).1 = .ok b) {b' sp : Bytes} {m' : IKEMessage}
    {e : Encrypted} (hd : IKEMessage.decode [] ⟨b', sp⟩ = .ok m') (he : lastSK m'.payloads = some e)
    (hv : Verified C k role b' e) (hcov : k.covered b = k.covered b') : b = b' := by
  obtain ⟨cipher, sum, hlen, hfit, hb, hsum⟩ := sealed_octets hk h
  have hle : k.outputLength ≤ b'.length :=
    outputLength_le_accepted (decodeClear_none_iff.mpr hd)
  have hb0 : k.covered b =
      sealedHead m.header m.payloads.firstType (cipher ++ sum).length ++ cipher := by
    rw [hb, IKESAKey.covered, ← List.append_assoc]
    exact (cut_append hlen).1
  -- the end of the octets is as long as a checksum, so the head announces exactly these data
  generalize hy : b'.drop (b'.length - k.outputLength) = y
  have hylen : y.length = k.outputLength := by
    rw [← hy, List.length_drop]
    omega
  have hb' : b' = sealedHead m.header m.payloads.firstType (cipher ++ y).length ++ (cipher ++ y) := by
    have hsplit : b' = k.covered b' ++ y := by rw [← hy]; exact (List.take_append_drop _ _).symm
    rw [hsplit, ← hcov, hb0, List.append_assoc, List.length_append, List.length_append, hlen, hylen]
  have hfit' : 4 + (cipher ++ y).length ≤ 65535 := by
    rw [List.length_append] at hfit ⊢
    omega
  have hread := decode_sealedHead m.header m.payloads.firstType hfit' sp
  rw [← hb', hd] at hread
  injection hread with hread
  rw [hread] at he
  obtain rfl : e = ⟨m.payloads.firstType, cipher ++ y⟩ := (Option.some.inj he).symm
  have hmac : y = k.mac C role.not (k.covered b') := by
    rw [← (cut_append (c := cipher) hylen).2]
    exact hv
  rw [hb, hb', hmac, ← hcov, hb0, ← hsum]

/-- the octets that are taken for a message in the clear, or have a right checksum -/
theorem accepted_cases {C : Crypto} {k : IKESAKey} (hk : k.Populated) {role : Role} {msg : Slice UInt8}
    {m' : IKEMessage} (h : (decodeDecrypt C msg none role (some k)).1 = .ok m') :
    (IKEMessage.decode [] msg = .ok m' ∧ isProtected msg = false) ∨
    ∃ m e, IKEMessage.decode [] msg = .ok m ∧ startsWithSK m.payloads = true ∧
      lastSK m.payloads = some e ∧ Verified C k role msg.data e := by
  obtain ⟨b, sp⟩ := msg
  cases hd : IKEMessage.decode [] ⟨b, sp⟩ with
  | err err =>
    unfold decodeDecrypt decodeClear at h
    rw [hd] at h
    exact absurd h (by simp)
  | panic p =>
    unfold decodeDecrypt decodeClear at h
    rw [hd] at h
    exact absurd h (by simp)
  | ok m =>
    by_cases hs : startsWithSK m.payloads = true
    · obtain ⟨e, he⟩ := lastSK_of_starts hs
      obtain ⟨_, _, hv, _⟩ :=
        (decodeDecrypt_eq_ok hk role (decodeClear_none_iff.mpr hd) hs he).mp h
      exact .inr ⟨m, e, rfl, hs, he, hv⟩
    · have hclear : (decodeDecrypt C ⟨b, sp⟩ none role (some k)).1 = .ok m := by
        unfold decodeDecrypt decodeClear
        rw [hd]
        exact congrArg Prod.fst (if_neg hs)
      obtain rfl : m = m' := Outcome.ok.inj (hclear.symm.trans h)
      refine .inl ⟨rfl, ?_⟩
      rw [isProtected, hd]
      exact Bool.not_eq_true _ ▸ hs

/-- **What an end accepts** in a sound state. -/
theorem receive_authentic {C : Crypto} {k : IKESAKey} (hk : k.Populated) {s : Session}
    (hs : Sound C k s) {role : Role} {msg : Slice UInt8} {m' : IKEMessage}
    (h : (decodeDecrypt C msg none role (some (s.key role))).1 = .ok m') :
    (IKEMessage.decode [] msg = .ok m' ∧ isProtected msg = false) ∨
    (∃ x ∈ s.sent, x.sender = role.not ∧ x.octets = msg.data ∧
      (C.Lawful → x.message.Sealable →
        m' = ⟨x.message.header.setPayload IkePayloadType.SK.code (msg.data.drop 28),
          x.message.payloads⟩)) ∨
    Forged C k s role msg := by
  rw [(decodeDecrypt_alike C (hs.keys role) msg none role).1] at h
  rcases accepted_cases hk h with hclear | ⟨m, e, hd, _, he, hv⟩
  · exact .inl hclear
  by_cases hnew : ∀ x ∈ s.sent, x.sender = role.not → k.covered x.octets ≠ k.covered msg.data
  · exact .inr (.inr ⟨hnew, m, e, hd, he, hv⟩)
  · simp only [not_forall, not_not] at hnew
    obtain ⟨x, hx, hsender, hcov⟩ := hnew
    obtain ⟨rand, hseal⟩ := hs.sealing x hx
    rw [hsender] at hseal
    have hsame : x.octets = msg.data := eq_of_covered hk hseal hd he hv hcov
    refine .inr (.inl ⟨x, hx, hsender, hsame, fun hC hm => ?_⟩)
    have hopen := open_sealed hC hk hm.major hm.minor hm.survives hm.noSK hseal msg.spare
    rw [Role.not_not, hsame] at hopen
    exact Outcome.ok.inj (h.symm.trans hopen)

end Session

/-- **What an end accepts, after any run**: a message in the clear; or octets that the other end has
sent, and then the message it has sealed, where the codec gives that back; or a forgery. -/
theorem session_authentic {C : Crypto} {ki kr : IKESAKey} (hk : ki.Populated)
    (hfresh : kr.fresh = ki.fresh) (events : List Event) {role : Role} {msg : Slice UInt8}
    {m' : IKEMessage}
    (h : (decodeDecrypt C msg none role
      (some ((run (Session.step C) (Session.start ki kr) events).key role))).1 = .ok m') :
    (IKEMessage.decode [] msg = .ok m' ∧ isProtected msg = false) ∨
    (∃ x ∈ (run (Session.step C) (Session.start ki kr) events).sent,
      x.sender = role.not ∧ x.octets = msg.data ∧
      (C.Lawful → x.message.Sealable →
        m' = ⟨x.message.header.setPayload IkePayloadType.SK.code (msg.data.drop 28),
          x.message.payloads⟩)) ∨
    Session.Forged C ki (run (Session.step C) (Session.start ki kr) events) role msg :=
  Session.receive_authentic hk (Session.sound_run hfresh events) h

/-- the initiator sends a message with one nonce -/
def sendNonce : Event :=
  .send .initiator (octets 20 0xaabbccdd101112131415161718191a1b1c1d1e1f)
    (newMessage 1 2 37 false true 0 [.nonce ⟨[1, 2, 3, 4, 5, 6, 7, 8]⟩])

/-- the two ends after that -/
def nonceSession : Session :=
  run (Session.step messageCrypto) (Session.start sharedKey sharedKey) [sendNonce]

/-- what the initiator has sent -/
def sentNonce : Sent :=
  ⟨.initiator, newMessage 1 2 37 false true 0 [.nonce ⟨[1, 2, 3, 4, 5, 6, 7, 8]⟩], protectedOctets⟩

theorem nonceSession_sent : nonceSession.sent = [sentNonce] := by
  have h : (encodeEncrypt messageCrypto (octets 20 0xaabbccdd101112131415161718191a1b1c1d1e1f)
      (some sentNonce.message) (some sharedKey) .initiator).1 = .ok protectedOctets := by
    decide +kernel
  show (Option.map (Sent.mk .initiator sentNonce.message) (encodeEncrypt messageCrypto _
    (some sentNonce.message) (some sharedKey) .initiator).1.value).toList ++ [] = _
  rw [h]
  rfl

theorem mem_nonceSession : sentNonce ∈ nonceSession.sent := by
  rw [nonceSession_sent]
  exact List.mem_singleton.mpr rfl

theorem nonceSession_not_forged (sp : Bytes) :
    ¬ Session.Forged messageCrypto sharedKey nonceSession .responder ⟨protectedOctets, sp⟩ :=
  fun h => h.1 sentNonce mem_nonceSession rfl rfl

theorem session_authentic_nonce :
    ∃ x ∈ nonceSession.sent, x.sender = .initiator ∧ x.octets = protectedOctets := by
  have hopen : (decodeDecrypt messageCrypto ⟨protectedOctets, []⟩ none .responder
      (some (nonceSession.key .responder))).1 =
        .ok ⟨headerOf protectedOctets, [.nonce ⟨[1, 2, 3, 4, 5, 6, 7, 8]⟩]⟩ := rfl
  rcases session_authentic sharedKey_populated rfl [sendNonce] hopen with
    ⟨_, hclear⟩ | ⟨x, hx, hsender, hoct, _⟩ | hforged
  · exact absurd hclear (by decide)
  · exact ⟨x, hx, hsender, hoct⟩
  · exact absurd hforged (nonceSession_not_forged [])

/-! ## the channel -/

/-- a message without what the encoder puts into its header -/
def IKEMessage.content (m : IKEMessage) : IKEMessage := ⟨m.header.setPayload 0 [], m.payloads⟩

theorem IKEMessage.content_setPayload (h : IKEHeader) (ps : IKEPayloadContainer) (n : UInt8)
    (p : Bytes) : IKEMessage.content ⟨h.setPayload n p, ps⟩ = IKEMessage.content ⟨h, ps⟩ := rfl

namespace Session

/-- the session as a channel of messages -/
def channel (s : Session) : Channel Role IKEMessage where
  sent := s.sent.map fun x => (x.sender, x.message.content)
  delivered := s.accepted.map fun y => (y.receiver, y.message.content)

/-- the ends send messages that the codec gives back (`Sealable`), and nobody forges a checksum -/
def Honest (C : Crypto) (k : IKESAKey) (s : Session) : Event → Prop
  | .send _ _ m => m.Sealable
  | .receive role msg => ¬ Forged C k s role msg
  | .child _ _ _ => True

/-- a sound state in which the codec gives back everything that was sent -/
structure Faithful (C : Crypto) (k : IKESAKey) (s : Session) : Prop extends Sound C k s where
  sealable : ∀ x ∈ s.sent, x.message.Sealable

theorem faithful_step {C : Crypto} {k : IKESAKey} (s : Session) (e : Event) (hs : Faithful C k s)
    (he : Honest C k s e) : Faithful C k (s.step C e) := by
  refine ⟨sound_step s e hs.toSound, ?_⟩
  cases e with
  | send role rand m =>
    intro x hx
    rcases List.mem_append.mp hx with hx | hx
    · obtain ⟨b, _, rfl⟩ := Option.map_eq_some_iff.mp (Option.mem_toList.mp hx)
      exact he
    · exact hs.sealable x hx
  | receive role msg => exact hs.sealable
  | child role c nonce => exact hs.sealable

/-- an honest event is a step of the channel, or none -/
theorem channel_step {C : Crypto} (hC : C.Lawful) {k : IKESAKey} (hk : k.Populated) (s : Session)
    (e : Event) (hs : Faithful C k s) (he : Honest C k s e) :
    Channel.Reaches Role.not s.channel (s.step C e).channel := by
  cases e with
  | send role rand m =>
    unfold step channel
    dsimp only
    cases (encodeEncrypt C rand (some m) (some (s.key role)) role).1.value with
    | none => exact .refl
    | some b => exact .single (.send _ role m.content)
  | receive role msg =>
    unfold step channel
    dsimp only
    cases hp : isProtected msg with
    | false => exact .refl
    | true =>
      cases hr : (decodeDecrypt C msg none role (some (s.key role))).1.value with
      | none => exact .refl
      | some m' =>
        rcases receive_authentic hk hs.toSound (Outcome.value_eq_some.mp hr) with
          ⟨_, hclear⟩ | ⟨x, hx, hsender, hoct, hm'⟩ | hforged
        · exact absurd (hp.symm.trans hclear) (by simp)
        · refine .single (.deliver _ role m'.content ?_)
          rw [hm' hC (hs.sealable x hx), IKEMessage.content_setPayload, ← hsender]
          exact List.mem_map.mpr ⟨x, hx, rfl⟩
        · exact absurd hforged he
  | child role c nonce => exact .refl

theorem isProtected_sealed {C : Crypto} {k : IKESAKey} (hk : k.Populated) {m : IKEMessage}
    {rand b : Bytes} {role : Role} (h : (encodeEncrypt C rand (some m) (some k) role).1 = .ok b)
    (sp : Bytes) : isProtected ⟨b, sp⟩ = true := by
  obtain ⟨cipher, sum, _, hfit, hb, _⟩ := sealed_octets hk h
  rw [isProtected, hb, decode_sealedHead _ _ hfit]
  rfl

/-- what was sent can be delivered -/
theorem channel_delivers {C : Crypto} (hC : C.Lawful) {k : IKESAKey} (hk : k.Populated) {s : Session}
    (hs : Faithful C k s) {role : Role} {m : IKEMessage} (h : (role.not, m) ∈ s.channel.sent) :
    ∃ msg, (s.step C (.receive role msg)).channel =
      { s.channel with delivered := (role, m) :: s.channel.delivered } := by
  obtain ⟨x, hx, hxm⟩ := List.mem_map.mp h
  obtain ⟨hsender, hm⟩ := Prod.mk.inj hxm
  obtain ⟨rand, hseal⟩ := hs.sealing x hx
  have hg := hs.sealable x hx
  have hopen := open_sealed hC hk hg.major hg.minor hg.survives hg.noSK hseal []
  rw [hsender, Role.not_not, ← (decodeDecrypt_alike C (hs.keys role) _ none role).1] at hopen
  refine ⟨⟨x.octets, []⟩, ?_⟩
  unfold step channel
  dsimp only
  rw [isProtected_sealed hk hseal, hopen, ← hm]
  rfl

end Session

/-- **The session implements an authentic channel.**  If the ends send messages that the codec gives
back, and nobody forges a checksum, the run is one of the channel: what was delivered under a checksum
was sent by the peer.  And whatever has been sent can be delivered, now and as often as the network brings it. -/
theorem session_refines {C : Crypto} (hC : C.Lawful) {ki kr : IKESAKey} (hk : ki.Populated)
    (hfresh : kr.fresh = ki.fresh) {events : List Event}
    (h : Along (Session.step C) (Session.Honest C ki) (Session.start ki kr) events) :
    Channel.Reaches Role.not ⟨[], []⟩
      (run (Session.step C) (Session.start ki kr) events).channel ∧
    (∀ y ∈ (run (Session.step C) (Session.start ki kr) events).accepted,
      ∃ x ∈ (run (Session.step C) (Session.start ki kr) events).sent,
        x.sender = y.receiver.not ∧ x.message.content = y.message.content) ∧
    ∀ role m, (role.not, m) ∈ (run (Session.step C) (Session.start ki kr) events).channel.sent →
      ∃ msg, ((run (Session.step C) (Session.start ki kr) events).step C (.receive role msg)).channel =
        { (run (Session.step C) (Session.start ki kr) events).channel with
          delivered := (role, m) ::
            (run (Session.step C) (Session.start ki kr) events).channel.delivered } := by
  have hstart : Session.Faithful C ki (Session.start ki kr) :=
    ⟨Session.sound_start hfresh, fun x hx => absurd hx List.not_mem_nil⟩
  obtain ⟨hend, hreach⟩ := refines (Session.step C) Session.channel Session.faithful_step
    (Session.channel_step hC hk) hstart h
  refine ⟨hreach, ?_, fun role m => Session.channel_delivers hC hk hend⟩
  intro y hy
  have hsent := Channel.Reaches.authentic Role.not hreach (fun x hx => absurd hx List.not_mem_nil)
    (y.receiver, y.message.content) (List.mem_map.mpr ⟨y, hy, rfl⟩)
  obtain ⟨x, hx, hxy⟩ := List.mem_map.mp hsent
  obtain ⟨h1, h2⟩ := Prod.mk.inj hxy
  exact ⟨x, hx, h1, h2⟩

theorem sentNonce_sealable : sentNonce.message.Sealable := by
  refine ⟨by decide, by decide, ?_, ?_⟩
  · intro p hp
    rw [List.mem_singleton.mp hp]
    exact ⟨_, 0, [], rfl, rfl⟩
  · intro p hp
    rw [List.mem_singleton.mp hp]
    simp [IKEPayload.type]

theorem session_refines_nonce :
    Channel.Reaches Role.not ⟨[], []⟩ (run (Session.step messageCrypto)
      (Session.start sharedKey sharedKey)
      [sendNonce, .receive .responder ⟨protectedOctets, []⟩]).channel := by
  have hrun : Along (Session.step messageCrypto) (Session.Honest messageCrypto sharedKey)
      (Session.start sharedKey sharedKey) [sendNonce, .receive .responder ⟨protectedOctets, []⟩] :=
    ⟨sentNonce_sealable, nonceSession_not_forged [], trivial⟩
  exact (session_refines messageCrypto_lawful sharedKey_populated rfl hrun).1

/-! ## reflection -/

/-- an SK payload with a right checksum never ends with the error for a wrong one -/
theorem openVerified_ne_reject (C : Crypto) (k : IKESAKey) (role : Role) (e : Encrypted) (err : GoError)
    (hlen : k.outputLength ≤ e.encryptedData.length) :
    openVerified C k role e ≠ .err (.wrapf "decryptMsg(): verify integrity" err) := by
  unfold openVerified
  rw [Slice.sliceInit_data _ hlen, Outcome.ok_bind]
  cases decryptPayload C _ k role with
  | err x =>
    intro h
    injection h with h
    injection h with h
    exact absurd h (by decide)
  | panic p => simp
  | ok plain =>
    rw [Outcome.wrapf_ok, Outcome.ok_bind]
    cases IKEPayloadContainer.decode [] e.nextPayload plain with
    | ok ps => simp
    | err x =>
      intro h
      injection h with h
      injection h with h
      exact absurd h (by decide)
    | panic p => simp

/-- **An end refuses its own messages** when the network sends them back: the checksum is that of the
other direction, unless the two keys give the same one. -/
theorem session_reflects {C : Crypto} (hC : C.Sized) {ki kr : IKESAKey} (hk : ki.Populated)
    (hfresh : kr.fresh = ki.fresh) (events : List Event) {x : Sent}
    (hx : x ∈ (run (Session.step C) (Session.start ki kr) events).sent) (sp : Bytes) :
    (decodeDecrypt C ⟨x.octets, sp⟩ none x.sender
        (some ((run (Session.step C) (Session.start ki kr) events).key x.sender))).1 =
      .err (.wrapf "IKE decode decrypt"
        (.wrapf "decryptMsg(): verify integrity" (.errorf "invalid checksum"))) ↔
    ki.mac C .initiator (ki.covered x.octets) ≠ ki.mac C .responder (ki.covered x.octets) := by
  have hs := Session.sound_run (C := C) hfresh events
  obtain ⟨rand, hseal⟩ := hs.sealing x hx
  obtain ⟨cipher, sum, hlen, hfit, hb, hsum⟩ := sealed_octets hk hseal
  have hd := decode_sealedHead x.message.header x.message.payloads.firstType hfit sp
  rw [← hb, ← decodeClear_none_iff] at hd
  have hcov : ki.covered x.octets = sealedHead x.message.header x.message.payloads.firstType
      (cipher ++ sum).length ++ cipher := by
    rw [hb, IKESAKey.covered, ← List.append_assoc]
    exact (cut_append hlen).1
  have hdata : ki.outputLength ≤ (cipher ++ sum).length := by
    rw [List.length_append]
    omega
  have he : lastSK [.sk ⟨x.message.payloads.firstType, cipher ++ sum⟩] =
      some ⟨x.message.payloads.firstType, cipher ++ sum⟩ := rfl
  have hv : Verified C ki x.sender x.octets ⟨x.message.payloads.firstType, cipher ++ sum⟩ ↔
      ki.mac C x.sender (ki.covered x.octets) = ki.mac C x.sender.not (ki.covered x.octets) := by
    rw [Verified, (cut_append hlen).2, ← IKESAKey.covered, hcov, ← hsum]
  have hroles : ki.mac C x.sender (ki.covered x.octets) = ki.mac C x.sender.not (ki.covered x.octets) ↔
      ki.mac C .initiator (ki.covered x.octets) = ki.mac C .responder (ki.covered x.octets) := by
    cases x.sender with
    | initiator => exact Iff.rfl
    | responder => exact eq_comm
  rw [(decodeDecrypt_alike C (hs.keys x.sender) _ none x.sender).1, ne_eq, ← hroles, ← hv,
    decodeDecrypt_of_all hk x.sender hd rfl he (fun p hp => by rw [List.mem_singleton.mp hp]; rfl),
    openSK_eq hk hdata (outputLength_le_accepted hd)]
  by_cases hver : Verified C ki x.sender x.octets ⟨x.message.payloads.firstType, cipher ++ sum⟩
  · rw [if_pos hver]
    refine iff_of_false ?_ (not_not_intro hver)
    intro h
    have hne := openVerified_ne_reject C ki x.sender ⟨x.message.payloads.firstType, cipher ++ sum⟩
      (.errorf "invalid checksum") hdata
    revert h hne
    cases openVerified C ki x.sender ⟨x.message.payloads.firstType, cipher ++ sum⟩ with
    | ok ps => exact fun h _ => absurd h (by simp)
    | panic p => exact fun h _ => absurd h (by simp)
    | err err =>
      intro h hne
      injection h with h
      injection h with _ h
      exact hne (congrArg Outcome.err h)
  · rw [if_neg hver, rejectChecksum, IKESAKey.checksum_of_sized hC (hk.complete _).2.2.1]
    exact iff_of_true rfl hver

theorem session_reflects_nonce :
    (decodeDecrypt messageCrypto ⟨protectedOctets, []⟩ none .initiator
      (some (nonceSession.key .initiator))).1 =
    .err (.wrapf "IKE decode decrypt"
      (.wrapf "decryptMsg(): verify integrity" (.errorf "invalid checksum"))) := by
  exact (session_reflects messageCrypto_lawful.hmac_length sharedKey_populated rfl [sendNonce]
    mem_nonceSession []).mpr (by decide +kernel)

end Ike
