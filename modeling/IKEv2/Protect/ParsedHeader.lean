import IKEv2.Message.Crash
import IKEv2.Protect.Acceptance

/-!
# A header that was parsed already

A receiver has to look at the SPIs of a message before it knows the key, so it parses the header first
and hands it to `DecodeDecrypt` with the message.  The header is taken as it is given: it is not
compared with the octets, and the checksum is over the octets.

* `decodePayload_withHeader`, `decryptMsg_withHeader`   the header is carried along;
* `decodeDecrypt_sameBut`   both ways to call it agree, but for the header that is returned;
* `decodeDecrypt_header`    and where they do not.
-/

set_option linter.unusedVariables false

namespace Ike
open GoLang

def IKEMessage.withHeader (m : IKEMessage) (h : IKEHeader) : IKEMessage := { m with header := h }

theorem decodePayload_withHeader {h h' : IKEHeader} (hn : h'.nextPayload = h.nextPayload)
    (ps : IKEPayloadContainer) (b : Slice UInt8) :
    IKEMessage.decodePayload ⟨h', ps⟩ b =
      (fun m => m.withHeader h') <$> IKEMessage.decodePayload ⟨h, ps⟩ b := by
  simp only [IKEMessage.decodePayload, hn]
  split
  · rfl
  · cases IKEPayloadContainer.decode ps h.nextPayload b <;> rfl

theorem decryptMsg_withHeader (C : Crypto) (msg : Slice UInt8) (m : IKEMessage) (h : IKEHeader)
    (role : Role) :
    Proc.Maps (fun m => m.withHeader h) (decryptMsg C msg m role)
      (decryptMsg C msg (m.withHeader h) role) := by
  unfold decryptMsg
  refine Proc.maps_bind _ fun k => ?_
  split
  · exact Proc.maps_fail _
  refine Proc.maps_bind _ fun integInfo => ?_
  refine Proc.maps_bind _ fun _ => Proc.maps_bind _ fun _ => Proc.maps_bind _ fun _ => ?_
  refine Proc.maps_bind _ fun found => Proc.maps_bind _ fun e => ?_
  refine Proc.maps_bind _ fun checksum => Proc.maps_bind _ fun covered => ?_
  refine Proc.maps_bind _ fun _ => Proc.maps_bind _ fun encryptedData => ?_
  refine Proc.maps_bind _ fun k => Proc.maps_bind _ fun plainText => ?_
  exact Proc.maps_bind _ fun ps => Proc.maps_pure _

theorem header_decodePayload {h : IKEHeader} {ps : IKEPayloadContainer} {b : Slice UInt8}
    {m : IKEMessage} (hm : IKEMessage.decodePayload ⟨h, ps⟩ b = .ok m) : m.header = h := by
  rw [decodePayload_withHeader rfl] at hm
  obtain ⟨_, _, rfl⟩ := Outcome.map_eq_ok.mp hm
  rfl

theorem header_decryptMsg {C : Crypto} {msg : Slice UInt8} {m m' : IKEMessage} {role : Role}
    {k : IKESAKey} (hm : (decryptMsg C msg m role k).1 = .ok m') : m'.header = m.header := by
  have hmap := congrArg Prod.fst (decryptMsg_withHeader C msg m m.header role k)
  rw [show m.withHeader m.header = m from rfl, hm] at hmap
  obtain ⟨_, hx, hy⟩ := Outcome.map_eq_ok.mp hmap.symm
  rw [← hy]
  rfl

/-- two outcomes with the same end, but for the header of the message -/
structure SameBut (h0 h : IKEHeader) (x y : Outcome IKEMessage) : Prop where
  value : ∀ m, y = .ok m ↔ m.header = h ∧ x = .ok (m.withHeader h0)
  returns : y.returns ↔ x.returns

theorem sameBut_map {h0 h : IKEHeader} {x : Outcome IKEMessage} (hx : ∀ m, x = .ok m → m.header = h0)
    (t t' : String) : SameBut h0 h (x.wrapf t) (((fun m => m.withHeader h) <$> x).wrapf t') := by
  refine ⟨fun m => ?_, ?_⟩
  · rw [Outcome.wrapf_eq_ok, Outcome.wrapf_eq_ok, Outcome.map_eq_ok]
    constructor
    · rintro ⟨m0, hm0, rfl⟩
      refine ⟨rfl, ?_⟩
      rw [hm0, ← hx m0 hm0]
      rfl
    · rintro ⟨hh, hm⟩
      refine ⟨_, hm, ?_⟩
      rw [← hh]
      rfl
  · rw [Outcome.returns_wrapf, Outcome.returns_wrapf, Outcome.returns_map]

section
variable {b sp : Bytes} {h0 : IKEHeader} (hp : parseHeader ⟨b, sp⟩ = .ok h0)
include hp

theorem decodeClear_none : decodeClear ⟨b, sp⟩ none =
    ((IKEMessage.decodePayload ⟨h0, []⟩ ⟨b.drop 28, sp⟩).wrapf
      "Decode(): DecodePayload failed").wrapf "DecodeDecrypt()" := by
  have hlen : ikeHeaderLen ≤ b.length := (parseHeader_iff.mp hp).1
  rw [decodeClear, IKEMessage.decode, hp, Outcome.wrapf_ok, Outcome.ok_bind,
    Slice.sliceFrom_data _ hlen]
  rfl

theorem decodeClear_some {h : IKEHeader} (hn : h.nextPayload = h0.nextPayload) :
    decodeClear ⟨b, sp⟩ (some h) = ((fun m => m.withHeader h) <$>
      IKEMessage.decodePayload ⟨h0, []⟩ ⟨b.drop 28, sp⟩).wrapf "DecodeDecrypt()" := by
  rw [decodeClear_given (parseHeader_iff.mp hp).1]
  exact congrArg _ (decodePayload_withHeader hn [] _)

/-- a header that announces the same first payload as the one in the octets -/
theorem decodeDecrypt_sameBut {h : IKEHeader} (hn : h.nextPayload = h0.nextPayload) (C : Crypto)
    (role : Role) (key : Option IKESAKey) :
    SameBut h0 h (decodeDecrypt C ⟨b, sp⟩ none role key).1
      (decodeDecrypt C ⟨b, sp⟩ (some h) role key).1 ∧
    (decodeDecrypt C ⟨b, sp⟩ (some h) role key).2 = (decodeDecrypt C ⟨b, sp⟩ none role key).2 := by
  have hnone := decodeClear_none hp
  have hsome := decodeClear_some hp hn
  unfold decodeDecrypt
  rw [hnone, hsome]
  cases hx : IKEMessage.decodePayload ⟨h0, []⟩ ⟨b.drop 28, sp⟩ with
  | err e => exact ⟨⟨fun m => by simp, Iff.rfl⟩, rfl⟩
  | panic p => exact ⟨⟨fun m => by simp, Iff.rfl⟩, rfl⟩
  | ok m =>
    have hm := header_decodePayload hx
    simp only [Outcome.wrapf_ok, Outcome.map_ok]
    rw [show (m.withHeader h).payloads = m.payloads from rfl]
    by_cases hs : startsWithSK m.payloads = true
    · rw [if_pos hs, if_pos hs]
      cases key with
      | none => exact ⟨⟨fun m => by simp, Iff.rfl⟩, rfl⟩
      | some k =>
        have hmap := decryptMsg_withHeader C ⟨b, sp⟩ m h role k
        dsimp only
        rw [hmap]
        refine ⟨sameBut_map (fun m' hm' => ?_) _ _, rfl⟩
        rw [header_decryptMsg hm', hm]
    · rw [if_neg hs, if_neg hs]
      refine ⟨sameBut_map (x := .ok m) (fun m' hm' => ?_) "" "", rfl⟩
      rw [← Outcome.ok.inj hm', hm]

end

/-- octets whose header is refused -/
theorem decodeDecrypt_refused {msg : Slice UInt8} {err : GoError} (hp : parseHeader msg = .err err)
    (C : Crypto) (role : Role) (key : Option IKESAKey) :
    ∃ err, (decodeDecrypt C msg none role key).1 = .err err := by
  unfold decodeDecrypt decodeClear IKEMessage.decode
  rw [hp]
  exact ⟨_, rfl⟩

/-- **A header that was parsed already.**  Where the header in the octets is accepted and the given one
announces the same first payload, the call ends as without a header, with the same payloads and the
same key object; the message it returns carries the header that was given, whatever the octets of the
message say.  Octets whose own header is refused are an error without a header.  With one, fewer than 28
octets stop the program, and of more the first 28 are not decoded. -/
theorem decodeDecrypt_header (C : Crypto) (b sp : Bytes) (h : IKEHeader) (role : Role)
    (key : Option IKESAKey) :
    (∀ h0, parseHeader ⟨b, sp⟩ = .ok h0 → h.nextPayload = h0.nextPayload →
      SameBut h0 h (decodeDecrypt C ⟨b, sp⟩ none role key).1
        (decodeDecrypt C ⟨b, sp⟩ (some h) role key).1 ∧
      (decodeDecrypt C ⟨b, sp⟩ (some h) role key).2 = (decodeDecrypt C ⟨b, sp⟩ none role key).2) ∧
    ((¬ ∃ h0, parseHeader ⟨b, sp⟩ = .ok h0) →
      ∃ err, (decodeDecrypt C ⟨b, sp⟩ none role key).1 = .err err) ∧
    (b.length < 28 → (decodeDecrypt C ⟨b, sp⟩ (some h) role key).1 = .panic .sliceOutOfRange) ∧
    ∀ b', 28 ≤ b.length → 28 ≤ b'.length → b'.drop 28 = b.drop 28 →
      decodeClear ⟨b', sp⟩ (some h) = decodeClear ⟨b, sp⟩ (some h) := by
  refine ⟨fun h0 hp hn => decodeDecrypt_sameBut hp hn C role key, fun hp => ?_, fun hlen => ?_,
    fun b' hlen hlen' hdrop => ?_⟩
  · have hret := parseHeader_returns b sp
    cases hcase : parseHeader ⟨b, sp⟩ with
    | ok h0 => exact absurd ⟨h0, hcase⟩ hp
    | err err => exact decodeDecrypt_refused hcase C role key
    | panic p =>
      rw [hcase] at hret
      exact absurd hret id
  · rw [decodeDecrypt, decodeClear_short hlen]
  · rw [decodeClear_given hlen, decodeClear_given hlen', hdrop]

/-- a protected message is accepted with a message ID that it does not have; with a Length field of 5 a
message is accepted with a header only; and 20 octets stop the program then -/
theorem decodeDecrypt_header_foreign :
    (decodeDecrypt messageCrypto ⟨protectedOctets, []⟩
      (some { headerOf protectedOctets with messageID := 77 }) .responder (some sharedKey)).1 =
        .ok ⟨{ headerOf protectedOctets with messageID := 77 }, [.nonce ⟨[1, 2, 3, 4, 5, 6, 7, 8]⟩]⟩ ∧
      (headerOf protectedOctets).messageID ≠ 77 ∧
    (∃ err, (decodeDecrypt messageCrypto ⟨informational 40 5 [0, 0, 0, 6, 1, 2], []⟩ none .responder
      (some sharedKey)).1 = .err err) ∧
    decodeClear ⟨informational 40 5 [0, 0, 0, 6, 1, 2], []⟩
        (some (headerOf (informational 40 34 [0, 0, 0, 6, 1, 2]))) =
      .ok ⟨headerOf (informational 40 34 [0, 0, 0, 6, 1, 2]), [.nonce ⟨[1, 2]⟩]⟩ ∧
    (decodeDecrypt messageCrypto ⟨protectedOctets.take 20, []⟩ (some (headerOf protectedOctets))
      .responder (some sharedKey)).1 = .panic .sliceOutOfRange := by
  have hparse : parseHeader ⟨protectedOctets, []⟩ = .ok (headerOf protectedOctets) :=
    parseHeader_iff.mpr ⟨by decide, by decide, rfl⟩
  have hlen : sharedKey.outputLength ≤ (protectedOctets.drop 32).length := by decide
  have hown : (decodeDecrypt messageCrypto ⟨protectedOctets, []⟩ none .responder (some sharedKey)).1 =
      .ok ⟨headerOf protectedOctets, [.nonce ⟨[1, 2, 3, 4, 5, 6, 7, 8]⟩]⟩ := by
    refine (decodeDecrypt_eq_ok sharedKey_populated .responder protectedOctets_clear rfl rfl).mpr
      ⟨?_, hlen, by decide +kernel, (openVerified_eq_ok hlen).mpr ⟨_, _, rfl, rfl, rfl⟩, rfl⟩
    intro p hp
    rw [List.mem_singleton.mp hp]
    rfl
  have hid : (headerOf protectedOctets).messageID ≠ 77 := by decide
  obtain ⟨_, hrefused, _, hclear⟩ := decodeDecrypt_header messageCrypto
    (informational 40 5 [0, 0, 0, 6, 1, 2]) []
    (headerOf (informational 40 34 [0, 0, 0, 6, 1, 2])) .responder (some sharedKey)
  have hfive : ¬ ∃ h0, parseHeader ⟨informational 40 5 [0, 0, 0, 6, 1, 2], []⟩ = .ok h0 := by
    rintro ⟨h0, hp⟩
    exact absurd (parseHeader_iff.mp hp).2.1 (by decide)
  have hshort := (decodeDecrypt_header messageCrypto (protectedOctets.take 20) []
    (headerOf protectedOctets) .responder (some sharedKey)).2.2.1 (by decide)
  refine ⟨?_, hid, hrefused hfive, ?_, hshort⟩
  · generalize headerOf protectedOctets = h0 at *
    have hsame := (decodeDecrypt_header messageCrypto protectedOctets [] { h0 with messageID := 77 }
      .responder (some sharedKey)).1 h0 hparse rfl
    exact (hsame.1.value ⟨{ h0 with messageID := 77 }, _⟩).mpr ⟨rfl, hown⟩
  · rw [← hclear (informational 40 34 [0, 0, 0, 6, 1, 2]) (by decide) (by decide) rfl]
    rfl

end Ike
