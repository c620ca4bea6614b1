import IKEv2.Message.PeerCrash
import IKEv2.Protect.Capacity

/-!
# What the other end makes of a protected message

Behind a checksum of the peer the receiver does with the payloads what the decoder does with them in
the clear, but for one thing: the octets behind the payloads are the padding.

* `open_sealed_outcome`   the outcome of opening a sealed message, for all messages that can be sealed;
* `session_transparent`   the same at any point of any run of two ends, and which messages of one end
                          stop the other.
-/

set_option linter.unusedVariables false

namespace Ike
open GoLang

/-! ## lengths -/

/-- the padding stays behind the plain text in the buffer -/
theorem length_decrypted {C : Crypto} (hC : C.Lawful) {e : EncrAesCbcCrypto} (hi : e.iv = none)
    {c p : Slice UInt8} (hmod : c.len % 16 = 0) (h : e.decrypt C c = .ok p) :
    p.data.length + p.spare.length = c.len - 16 := by
  have hiv : ∀ v, e.iv = some v → v.length = 16 := fun v hv => absurd (hi.symm.trans hv) (by simp)
  have h16 : 16 ≤ c.len := by
    by_contra hshort
    obtain ⟨err, he⟩ := EncrAesCbcCrypto.decrypt_short (C := C) (e := e) (Nat.lt_of_not_le hshort)
    exact absurd (h.symm.trans he) (by simp)
  have hlen := EncrAesCbcCrypto.length_plain hiv hC h16 hmod
  rcases List.eq_nil_or_concat (e.plain C c.data) with hnil | ⟨x, last, hsnoc⟩
  · rw [hnil, List.length_nil] at hlen
    have hlen : c.len = 16 := by
      show c.data.length = 16
      have : 16 ≤ c.data.length := h16
      omega
    exact absurd (h.symm.trans (decrypt_vector_only hiv hlen)) (by simp)
  rw [List.concat_eq_append] at hsnoc
  obtain ⟨herr, hok⟩ := EncrAesCbcCrypto.decrypt_snoc hiv h16 hmod hsnoc
  rw [hsnoc] at hlen
  by_cases hover : x.length < last.toNat
  · obtain ⟨err, he⟩ := herr hover
    exact absurd (h.symm.trans he) (by simp)
  · obtain rfl := Outcome.ok.inj (h.symm.trans (hok (Nat.not_lt.mp hover)))
    refine Eq.trans ?_ hlen
    simp only [List.length_take, List.length_drop, List.length_append, List.length_singleton]
    omega

/-! ## one message -/

/-- the decoded payloads behind the header of the octets, with the texts around an error -/
def opened (b : Bytes) (ps : Outcome IKEPayloadContainer) : Outcome IKEMessage :=
  Outcome.wrapf "IKE decode decrypt" ((fun ps => ⟨headerOf b, ps⟩) <$>
    Outcome.wrapf "decryptMsg(): Decoding decrypted payload failed" ps)

theorem returns_opened {b : Bytes} {x : Outcome IKEPayloadContainer} :
    (opened b x).returns ↔ x.returns := by
  rw [opened, Outcome.returns_wrapf, Outcome.returns_map, Outcome.returns_wrapf]

theorem openVerified_decrypted {C : Crypto} {k : IKESAKey} {role : Role} {encr : EncrAesCbcCrypto}
    (hencr : k.encr role.not = some encr) {cipher sum : Bytes} (hlen : sum.length = k.outputLength)
    {plain : Slice UInt8} (hdec : encr.decrypt C ⟨cipher, sum⟩ = .ok plain) (next : UInt8) :
    openVerified C k role ⟨next, cipher ++ sum⟩ =
      Outcome.wrapf "decryptMsg(): Decoding decrypted payload failed"
        (IKEPayloadContainer.decode [] next plain) := by
  have hfits : k.outputLength ≤ (cipher ++ sum).length := by
    rw [List.length_append]
    omega
  obtain ⟨hcut1, hcut2⟩ := cut_append (c := cipher) hlen
  unfold openVerified
  rw [Slice.sliceInit_data _ hfits, Outcome.ok_bind, decryptPayload_eq, hencr, Slice.spare_ofList,
    List.append_nil]
  show (((encr.decrypt C ⟨(cipher ++ sum).take ((cipher ++ sum).length - k.outputLength),
    (cipher ++ sum).drop ((cipher ++ sum).length - k.outputLength)⟩).wrapf _).wrapf _ >>= _) = _
  rw [hcut1, hcut2, hdec]
  rfl

/-- the checksum at the end of the octets is the one that the other end computes -/
theorem verified_appended {C : Crypto} {k : IKESAKey} {role : Role} {head cipher sum : Bytes}
    (hlen : sum.length = k.outputLength) (hsum : sum = k.mac C role (head ++ cipher)) (next : UInt8) :
    Verified C k role.not (head ++ (cipher ++ sum)) ⟨next, cipher ++ sum⟩ := by
  show (cipher ++ sum).drop ((cipher ++ sum).length - k.outputLength) = _
  rw [(cut_append hlen).2, ← List.append_assoc, (cut_append hlen).1, Role.not_not]
  exact hsum

/-- **Opening a sealed message** is decoding its payloads, with the padding behind them. -/
theorem open_sealed_outcome {C : Crypto} (hC : C.Lawful) {k : IKESAKey} (hk : k.Populated)
    {m : IKEMessage} {rand b : Bytes} {role : Role}
    (h : (encodeEncrypt C rand (some m) (some k) role).1 = .ok b) :
    ∃ plain pad, m.payloads.encode = .ok plain ∧ pad.length = 16 - plain.length % 16 ∧ ∀ sp,
      (decodeDecrypt C ⟨b, sp⟩ none role.not (some k)).1 =
        opened b (IKEPayloadContainer.decode [] m.payloads.firstType ⟨plain, pad⟩) := by
  obtain ⟨encr, plain, cipher, sum, p, hencr, hplain, hcipher, hlen, hsum, hb⟩ := encodeEncrypt_ok hk h
  obtain ⟨encr', hencr', hiv, hpad⟩ := hk.encr role
  obtain rfl : encr = encr' := Option.some.inj (hencr.symm.trans hencr')
  obtain ⟨_, pad, hdec⟩ := decrypt_encrypt hC hpad (fun v hv => absurd hv (by simp [hiv])) rfl
    (.inl hiv) hcipher sum
  have hclen := length_encrypted hC hiv hpad hcipher
  have hplen : plain.length + pad.length = cipher.length - 16 :=
    length_decrypted hC hiv (c := ⟨cipher, sum⟩) (show cipher.length % 16 = 0 by omega) hdec
  refine ⟨plain, pad, hplain, by omega, fun sp => ?_⟩
  have hroom : 4 + (cipher ++ sum).length ≤ 65535 := by
    by_contra hlong
    obtain ⟨err, he⟩ := encode_sk_long (h := m.header.setPayload IkePayloadType.SK.code p)
      (e := ⟨m.payloads.firstType, cipher ++ sum⟩) (Nat.lt_of_not_le hlong)
    exact absurd (hb.symm.trans he) (by simp)
  have hb' := encode_sealed hb
  rw [sealedHead_setPayload] at hb'
  have hdata : (cipher ++ sum).length = cipher.length + k.outputLength := by
    rw [List.length_append, hlen]
  have hclear : decodeClear ⟨b, sp⟩ none =
      .ok ⟨headerOf b, [.sk ⟨m.payloads.firstType, cipher ++ sum⟩]⟩ := by
    rw [hb', decodeClear_none_iff]
    exact decode_sealedHead _ _ hroom sp
  have hver : Verified C k role.not b ⟨m.payloads.firstType, cipher ++ sum⟩ := by
    rw [hb']
    refine verified_appended hlen ?_ _
    rw [hdata]
    exact hsum
  have hfits : k.outputLength ≤ (cipher ++ sum).length := by omega
  have hall : ∀ q ∈ [IKEPayload.sk ⟨m.payloads.firstType, cipher ++ sum⟩], q.type = .SK := by
    intro q hq
    rw [List.mem_singleton.mp hq]
    rfl
  rw [decodeDecrypt_of_all hk role.not hclear rfl (e := ⟨m.payloads.firstType, cipher ++ sum⟩) rfl hall,
    openSK_eq hk hfits (outputLength_le_accepted hclear), if_pos hver,
    openVerified_decrypted (by rw [Role.not_not]; exact hencr) hlen hdec]
  rfl

/-! ## two ends -/

/-- **What an end makes of the messages of the other**, at any point of any run: it decodes their
payloads, with the padding behind them.  The messages that stop it are, behind payloads that are read,
those with a notification whose SPI wraps, with a proposal whose SPI wraps behind proposals that pass,
or with a Delete payload that the octets behind it do not fill up. -/
theorem session_transparent {C : Crypto} (hC : C.Lawful) {ki kr : IKESAKey} (hk : ki.Populated)
    (h : kr.fresh = ki.fresh) (events : List Event) {x : Sent}
    (hx : x ∈ (run (Session.step C) (Session.start ki kr) events).sent) :
    ∃ plain pad, x.message.payloads.encode = .ok plain ∧ pad.length = 16 - plain.length % 16 ∧ ∀ sp,
      (decodeDecrypt C ⟨x.octets, sp⟩ none x.sender.not
        (some ((run (Session.step C) (Session.start ki kr) events).key x.sender.not))).1 =
          opened x.octets
            (IKEPayloadContainer.decode [] x.message.payloads.firstType ⟨plain, pad⟩) ∧
      ((decodeDecrypt C ⟨x.octets, sp⟩ none x.sender.not
        (some ((run (Session.step C) (Session.start ki kr) events).key x.sender.not))).1.returns ↔
          ¬ StopsPeer (16 - plain.length % 16) x.message.payloads) := by
  have hs := Session.sound_run (C := C) h events
  obtain ⟨rand, hseal⟩ := hs.sealing x hx
  obtain ⟨plain, pad, hplain, hpad, hopen⟩ := open_sealed_outcome hC hk hseal
  have hout : ∀ sp, (decodeDecrypt C ⟨x.octets, sp⟩ none x.sender.not
      (some ((run (Session.step C) (Session.start ki kr) events).key x.sender.not))).1 =
        opened x.octets
          (IKEPayloadContainer.decode [] x.message.payloads.firstType ⟨plain, pad⟩) := by
    intro sp
    rw [(decodeDecrypt_alike C (hs.keys x.sender.not) ⟨x.octets, sp⟩ none x.sender.not).1]
    exact hopen sp
  refine ⟨plain, pad, hplain, hpad, fun sp => ⟨hout sp, ?_⟩⟩
  rw [hout sp, returns_opened, ← hpad]
  exact decode_encoded_returns_iff hplain [] pad

theorem encode_notification {p : Notification} (h : p.spi.length ≤ 255)
    (hd : p.notificationData = []) :
    ∃ plain, IKEPayloadContainer.encode [.n p] = .ok plain ∧ plain.length = 8 + p.spi.length := by
  have hlen : ([p.protocolID, UInt8.ofNat p.spi.length] ++ putUint16 p.notifyMessageType ++ p.spi ++
      p.notificationData).length = 4 + p.spi.length := by
    rw [hd]
    simp only [List.length_append, List.length_cons, List.length_nil, length_putUint16]
    omega
  refine ⟨_, IKEPayloadContainer.encode_cons.mpr ⟨_, [], if_neg (Nat.not_lt.mpr h), ?_, rfl, rfl⟩, ?_⟩
  · rw [hlen]
    omega
  · rw [List.append_nil, IKEPayloadContainer.record, List.length_append, hlen, List.length_append,
      length_putUint16]
    simp only [List.length_cons, List.length_nil]
    omega

/-- a notification with an SPI of 252 octets is sealed, and stops the other end -/
theorem session_transparent_spi : ∃ x : Sent,
    x ∈ (run (Session.step messageCrypto) (Session.start sharedKey sharedKey)
      [.send .initiator (List.replicate 32 7) (newMessage 1 2 37 false true 0
        [.n ⟨0, 16384, List.replicate 252 1, []⟩])]).sent ∧
    ¬ (decodeDecrypt messageCrypto ⟨x.octets, []⟩ none .responder
      (some ((run (Session.step messageCrypto) (Session.start sharedKey sharedKey)
        [.send .initiator (List.replicate 32 7) (newMessage 1 2 37 false true 0
          [.n ⟨0, 16384, List.replicate 252 1, []⟩])]).key .responder))).1.returns := by
  obtain ⟨spi, hspi⟩ : ∃ spi : Bytes, List.replicate 252 1 = spi := ⟨_, rfl⟩
  have h252 : spi.length = 252 := by rw [← hspi, List.length_replicate]
  rw [hspi]
  generalize hm : newMessage 1 2 37 false true 0 [.n ⟨0, 16384, spi, []⟩] = m
  have hps : m.payloads = [.n ⟨0, 16384, spi, []⟩] := by rw [← hm]; rfl
  obtain ⟨plain, hplain, hlen⟩ := encode_notification (p := ⟨0, 16384, spi, []⟩)
    (show spi.length ≤ 255 by omega) rfl
  have hlen : plain.length = 8 + spi.length := hlen
  rw [← hps] at hplain
  have hrand : 32 ≤ (List.replicate 32 (7 : UInt8)).length := by decide
  obtain ⟨b, hb⟩ := encodeEncrypt_fits messageCrypto_lawful sharedKey_populated hrand .initiator
    hplain (by omega)
  have hx : (⟨.initiator, m, b⟩ : Sent) ∈ (run (Session.step messageCrypto)
      (Session.start sharedKey sharedKey) [.send .initiator (List.replicate 32 7) m]).sent := by
    show _ ∈ ((encodeEncrypt messageCrypto _ (some m) (some sharedKey) .initiator).1.value.map
      (Sent.mk .initiator m)).toList ++ []
    rw [hb]
    exact List.mem_append_left _ (List.mem_singleton.mpr rfl)
  refine ⟨_, hx, ?_⟩
  obtain ⟨plain', pad, hplain', _, hout⟩ :=
    session_transparent messageCrypto_lawful sharedKey_populated rfl _ hx
  refine fun hret => (hout []).2.mp hret ⟨[], _, [], [], hps, rfl, ?_, fun q hq => absurd hq (by simp)⟩
  exact Nat.le_of_eq h252.symm

end Ike
