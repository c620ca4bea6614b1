import IKEv2.Protect.History

/-!
# What the sender protects, the receiver opens

The message is encoded twice.  Both encodings are `sealedHead` followed by the data of the SK payload,
and the data differ in the checksum only (`encodeEncrypt_ok`): so the checksum that was computed over
the first encoding covers the octets in front of it in the second one.

* `decodeDecrypt_encodeEncrypt`   the receiver gives back the payloads and the header.
-/

set_option linter.unusedVariables false

namespace Ike
open GoLang

/-! ## a message with one SK payload -/

/-- what stands in front of the `l` octets of the SK payload -/
def sealedHead (h : IKEHeader) (next : UInt8) (l : Nat) : Bytes :=
  putUint64 h.initiatorSPI ++ putUint64 h.responderSPI
    ++ [IkePayloadType.SK.code, (h.majorVersion <<< 4) ||| (h.minorVersion &&& 0x0F), h.exchangeType,
      h.flags]
    ++ putUint32 h.messageID ++ putUint32 (UInt32.ofNat (28 + (4 + l)))
    ++ ([next, 0] ++ putUint16 (UInt16.ofNat (4 + l)))

theorem encode_sealed {h : IKEHeader} {e : Encrypted} {b : Bytes}
    (hb : (IKEMessage.encode ⟨h, [.sk e]⟩).1 = .ok b) :
    b = sealedHead h e.nextPayload e.encryptedData.length ++ e.encryptedData := by
  obtain ⟨p, hp, hm⟩ := encode_message_ok hb
  obtain ⟨data, rest, hdata, hlen, hrest, hp⟩ := IKEPayloadContainer.encode_cons.mp hp
  have hdata : e.encryptedData = data := by
    unfold IKEPayload.marshal Encrypted.marshal at hdata
    simp only at hdata
    split at hdata
    · exact absurd hdata (fail_ne_ok _ _)
    · exact Outcome.ok.inj hdata
  have hrest : [] = rest := Outcome.ok.inj hrest
  have hplen : p.length = 4 + e.encryptedData.length := by
    rw [hp, ← hdata, ← hrest]
    simp only [IKEPayloadContainer.record, List.length_append, List.length_cons, List.length_nil,
      length_putUint16]
    omega
  unfold IKEHeader.marshal at hm
  simp only at hm
  split at hm
  · exact absurd hm (fail_ne_ok _ _)
  injection hm with hm
  have hp : p = [e.nextPayload, 0] ++ putUint16 (UInt16.ofNat (4 + e.encryptedData.length)) ++
      e.encryptedData := by
    rw [hp, ← hdata, ← hrest, List.append_nil]
    rfl
  rw [← hm, sealedHead]
  simp only [IKEHeader.setPayload, hplen]
  rw [hp]
  simp only [List.append_assoc]
  rfl

theorem copyLast_append {n : Nat} {c z x : Bytes} (hz : z.length = n) (hx : x.length = n) :
    copyLast n (c ++ z) x = c ++ x := by
  have hlen : (c ++ z).length - n = c.length := by
    rw [List.length_append]
    omega
  rw [copyLast, hlen, List.take_left' rfl, List.drop_left' rfl, List.take_of_length_le (by omega),
    List.drop_of_length_le (by omega), List.append_nil]

/-! ## the sender -/

/-- what `encryptMsg` has done when it returns -/
theorem encryptMsg_ok {C : Crypto} {rand : Bytes} {role : Role} {m : IKEMessage} {k : IKESAKey}
    {u : IKEMessage × IKESAKey} (h : encryptMsg C rand role (m, k) = (.ok (), u)) :
    ∃ t plain cipher b0 m1 covered sum, k.integInfo = some t ∧ m.payloads.encode = .ok plain ∧
      encryptPayload C rand plain k role = .ok cipher ∧
      IKEMessage.encode ⟨m.header, [.sk ⟨m.payloads.firstType,
        cipher ++ List.replicate t.getOutputLength 0⟩]⟩ = (.ok b0, m1) ∧
      (Slice.ofList b0).sliceInit t.getOutputLength = .ok covered ∧
      (calculateIntegrity C role covered.data k).1 = .ok sum ∧
      u.1 = ⟨m1.header, [.sk ⟨m.payloads.firstType, copyLast t.getOutputLength
        (cipher ++ List.replicate t.getOutputLength 0) sum⟩]⟩ := by
  unfold encryptMsg at h
  rw [Proc.this_bind] at h
  obtain ⟨t, ht, h⟩ := Proc.lift_bind_eq_ok.mp h
  obtain ⟨_, _, h⟩ := Proc.lift_bind_eq_ok.mp h
  obtain ⟨_, _, h⟩ := Proc.lift_bind_eq_ok.mp h
  obtain ⟨_, _, h⟩ := Proc.lift_bind_eq_ok.mp h
  obtain ⟨plain, hplain, h⟩ := Proc.lift_bind_eq_ok.mp h
  obtain ⟨cipher, hcipher, h⟩ := Proc.lift_bind_eq_ok.mp h
  rw [Proc.modify_bind] at h
  obtain ⟨b0, s, hb0, h⟩ := Proc.bind_eq_ok.mp h
  obtain ⟨hb0, hs⟩ := Proc.onFst_eq_ok.mp (Proc.wrapf_eq_ok.mp hb0)
  obtain ⟨covered, hcov, h⟩ := Proc.lift_bind_eq_ok.mp h
  obtain ⟨sum, w, hsum, h⟩ := Proc.bind_eq_ok.mp h
  obtain ⟨hsum, hw⟩ := Proc.onSnd_eq_ok.mp (Proc.wrapf_eq_ok.mp hsum)
  obtain ⟨_, _, h⟩ := Proc.lift_bind_eq_ok.mp h
  have hu := Proc.modify_eq_ok.mp h
  refine ⟨t, plain, cipher, b0, s.1, covered, sum, require_eq_ok.mp ht, Outcome.wrapf_eq_ok.mp hplain,
    Outcome.wrapf_eq_ok.mp hcipher, hb0, hcov, ?_, ?_⟩
  · rw [hs] at hsum
    exact congrArg Prod.fst hsum
  · rw [hu, hw]

/-- **What the sender has done** when it returns a message. -/
theorem encodeEncrypt_ok {C : Crypto} {k : IKESAKey} (hk : k.Populated) {m : IKEMessage}
    {rand b : Bytes} {role : Role} (h : (encodeEncrypt C rand (some m) (some k) role).1 = .ok b) :
    ∃ encr plain cipher sum p, k.encr role = some encr ∧ m.payloads.encode = .ok plain ∧
      encr.encrypt C rand plain = .ok cipher ∧ sum.length = k.outputLength ∧
      sum = k.mac C role
        (sealedHead m.header m.payloads.firstType (cipher.length + k.outputLength) ++ cipher) ∧
      (IKEMessage.encode ⟨m.header.setPayload IkePayloadType.SK.code p,
        [.sk ⟨m.payloads.firstType, cipher ++ sum⟩]⟩).1 = .ok b := by
  obtain ⟨encr, hencr, _⟩ := hk.encr role
  obtain ⟨s, hs⟩ := Proc.exists_of_fst (show (encodeEncryptKey C rand role (m, k)).1 = .ok b from h)
  obtain ⟨_, u, h1, h2⟩ := Proc.bind_eq_ok.mp hs
  obtain ⟨hb, _⟩ := Proc.onFst_eq_ok.mp (Proc.wrapf_eq_ok.mp h2)
  obtain ⟨t, plain, cipher, b0, m1, covered, sum, ht, hplain, hcipher, hb0, hcov, hsum, hu⟩ :=
    encryptMsg_ok (Proc.wrapf_eq_ok.mp h1)
  have hout : t.getOutputLength = k.outputLength := by rw [IKESAKey.outputLength, ht]
  rw [hout] at hb0 hcov hu
  have hz : (List.replicate k.outputLength (0 : UInt8)).length = k.outputLength :=
    List.length_replicate
  -- the octets under the checksum
  have hcov' : covered.data =
      sealedHead m.header m.payloads.firstType (cipher.length + k.outputLength) ++ cipher := by
    have hb0' := encode_sealed (congrArg Prod.fst hb0)
    simp only [List.length_append, hz, ← List.append_assoc] at hb0'
    have hcut := Slice.sliceInit_append (sealedHead m.header m.payloads.firstType
      (cipher.length + k.outputLength) ++ cipher) (List.replicate k.outputLength 0)
    rw [hz, ← hb0', hcov] at hcut
    rw [Outcome.ok.inj hcut]
  rw [calculateIntegrity_eq hk, hcov'] at hsum
  obtain ⟨_, hlen, hmac⟩ := IKESAKey.checksum_eq_ok.mp hsum
  obtain ⟨p, hp⟩ := header_of_encode hb0
  rw [encryptPayload_eq, hencr] at hcipher
  refine ⟨encr, plain, cipher, sum, p, hencr, hplain, Outcome.wrapf_eq_ok.mp hcipher, hlen, hmac, ?_⟩
  rw [hu, copyLast_append hz hlen, hp] at hb
  exact congrArg Prod.fst hb

/-! ## the receiver -/

/-- what was appended is cut off again -/
theorem cut_append {n : Nat} {c x : Bytes} (hx : x.length = n) :
    (c ++ x).take ((c ++ x).length - n) = c ∧ (c ++ x).drop ((c ++ x).length - n) = x := by
  have hlen : (c ++ x).length - n = c.length := by
    rw [List.length_append]
    omega
  rw [hlen]
  exact ⟨List.take_left' rfl, List.drop_left' rfl⟩

theorem survives_sk {e : Encrypted} (h : e.encryptedData.length ≠ 0) : (IKEPayload.sk e).Survives :=
  ⟨e.encryptedData, e.nextPayload, [], if_neg h, rfl⟩

section
variable {C : Crypto} (hC : C.Lawful) {k : IKESAKey} (hk : k.Populated) {m : IKEMessage}
  (h1 : m.header.majorVersion < 16) (h2 : m.header.minorVersion < 16)
  (hs : ∀ p ∈ m.payloads, p.Survives) (hsk : ∀ p ∈ m.payloads, p.type ≠ .SK)
include hC hk h1 h2 hs hsk

theorem open_sealed {rand b : Bytes} {role : Role}
    (h : (encodeEncrypt C rand (some m) (some k) role).1 = .ok b) (sp : Bytes) :
    (decodeDecrypt C ⟨b, sp⟩ none role.not (some k)).1 =
      .ok ⟨m.header.setPayload IkePayloadType.SK.code (b.drop 28), m.payloads⟩ := by
  obtain ⟨encr, plain, cipher, sum, p, hencr, hplain, hcipher, hlen, hsum, hb⟩ := encodeEncrypt_ok hk h
  obtain ⟨encr', hencr', hiv, hpad⟩ := hk.encr role
  obtain rfl : encr = encr' := Option.some.inj (hencr.symm.trans hencr')
  obtain ⟨hc, pad, hdec⟩ := decrypt_encrypt hC hpad (fun v hv => absurd hv (by simp [hiv])) rfl
    (.inl hiv) hcipher sum
  have hdata : (cipher ++ sum).length = cipher.length + k.outputLength := by
    rw [List.length_append, hlen]
  have hclear : IKEMessage.decode [] ⟨b, sp⟩ =
      .ok ⟨m.header.setPayload IkePayloadType.SK.code (b.drop 28),
        [.sk ⟨m.payloads.firstType, cipher ++ sum⟩]⟩ := by
    refine decode_of_encode (m := ⟨m.header.setPayload _ p, _⟩) sp h1 h2
      (IKEPayloadContainer.linked_of_last (by simp)) ?_ hb
    intro q hq
    rw [List.mem_singleton.mp hq]
    refine survives_sk ?_
    show (cipher ++ sum).length ≠ 0
    omega
  obtain ⟨hcut1, hcut2⟩ := cut_append (c := cipher) hlen
  refine (decodeDecrypt_eq_ok hk role.not (decodeClear_none_iff.mpr hclear) rfl rfl).mpr
    ⟨?_, ?_, ?_, ?_, rfl⟩
  · intro q hq
    rw [List.mem_singleton.mp hq]
    rfl
  · show k.outputLength ≤ (cipher ++ sum).length
    omega
  · -- the second encoding in front of the checksum is the first one in front of the zeros
    have hb' := encode_sealed hb
    have hcov : b.take (b.length - k.outputLength) =
        sealedHead m.header m.payloads.firstType (cipher.length + k.outputLength) ++ cipher := by
      rw [hb', ← List.append_assoc, (cut_append hlen).1, hdata]
      rfl
    show (cipher ++ sum).drop ((cipher ++ sum).length - k.outputLength) = _
    rw [hcut2, hcov, Role.not_not]
    exact hsum
  · refine (openVerified_eq_ok (show k.outputLength ≤ (cipher ++ sum).length by omega)).mpr ?_
    refine ⟨encr, ⟨plain, pad⟩, by rw [Role.not_not]; exact hencr, ?_, ?_⟩
    · show encr.decrypt C ⟨(cipher ++ sum).take ((cipher ++ sum).length - k.outputLength),
        (cipher ++ sum).drop ((cipher ++ sum).length - k.outputLength)⟩ = _
      rw [hcut1, hcut2]
      exact hdec
    · exact IKEPayloadContainer.decode_encode hs
        (IKEPayloadContainer.linked_of_last fun q hq => hsk q (List.dropLast_subset _ hq)) hplain pad

end

/-- **What the sender protects, the receiver opens**: the payloads in their order and the header, with
SK as its next payload.  The receiver may use the key object of the sender or any other one with the
same keys. -/
theorem decodeDecrypt_encodeEncrypt {C : Crypto} (hC : C.Lawful) {k : IKESAKey} (hk : k.Populated)
    {m : IKEMessage} (h1 : m.header.majorVersion < 16) (h2 : m.header.minorVersion < 16)
    (hs : ∀ p ∈ m.payloads, p.Survives) (hsk : ∀ p ∈ m.payloads, p.type ≠ .SK) {rand b : Bytes}
    {role : Role} (h : (encodeEncrypt C rand (some m) (some k) role).1 = .ok b) (sp : Bytes) :
    (decodeDecrypt C ⟨b, sp⟩ none role.not (encodeEncrypt C rand (some m) (some k) role).2.2).1 =
        .ok ⟨m.header.setPayload IkePayloadType.SK.code (b.drop 28), m.payloads⟩ ∧
      ∀ k', k'.fresh = k.fresh →
        (decodeDecrypt C ⟨b, sp⟩ none role.not (some k')).1 =
          .ok ⟨m.header.setPayload IkePayloadType.SK.code (b.drop 28), m.payloads⟩ := by
  have hall : ∀ k', k'.fresh = k.fresh →
      (decodeDecrypt C ⟨b, sp⟩ none role.not (some k')).1 =
        .ok ⟨m.header.setPayload IkePayloadType.SK.code (b.drop 28), m.payloads⟩ := by
    intro k' hk'
    rw [(decodeDecrypt_alike C hk' ⟨b, sp⟩ none role.not).1]
    exact open_sealed hC hk h1 h2 hs hsk h sp
  obtain ⟨_, _, k₁, hk₁, hfresh⟩ := encodeEncrypt_alike C (k := k) rfl rand (some m) role
  refine ⟨?_, hall⟩
  rw [hk₁]
  exact hall k₁ hfresh

theorem decodeDecrypt_encodeEncrypt_nonce :
    (encodeEncrypt messageCrypto (octets 20 0xaabbccdd101112131415161718191a1b1c1d1e1f)
        (some (newMessage 1 2 37 false true 0 [.nonce ⟨[1, 2, 3, 4, 5, 6, 7, 8]⟩])) (some sharedKey)
        .initiator).1 = .ok protectedOctets ∧
      (decodeDecrypt messageCrypto ⟨protectedOctets, []⟩ none .responder (some sharedKey)).1 =
        .ok ⟨newHeader 1 2 37 false true 0 46 (protectedOctets.drop 28),
          [.nonce ⟨[1, 2, 3, 4, 5, 6, 7, 8]⟩]⟩ := by
  have h : (encodeEncrypt messageCrypto (octets 20 0xaabbccdd101112131415161718191a1b1c1d1e1f)
      (some (newMessage 1 2 37 false true 0 [.nonce ⟨[1, 2, 3, 4, 5, 6, 7, 8]⟩])) (some sharedKey)
      .initiator).1 = .ok protectedOctets := by decide +kernel
  refine ⟨h, (decodeDecrypt_encodeEncrypt messageCrypto_lawful sharedKey_populated (by decide)
    (by decide) ?_ ?_ h []).2 sharedKey rfl⟩
  · intro p hp
    rw [List.mem_singleton.mp hp]
    exact ⟨_, 0, [], rfl, rfl⟩
  · intro p hp
    rw [List.mem_singleton.mp hp]
    simp [IKEPayload.type]

end Ike
