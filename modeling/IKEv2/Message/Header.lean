import IKEv2.GoLang.Proc
import IKEv2.Message.Container

/-!
# IKE messages (`message/header.go`, `IKEMessage` of `message/message.go`)

The header has 28 octets: two SPIs, next payload, versions, exchange type, flags, message ID and the
total length.  `Encode` sets the next payload and the payload octets of the message it is called on.

* `parseHeader_iff`     which octets are accepted as a header, and what is read from them;
* `headerOf_marshal`    a header that was written is read back;
* `message_decode_iff`  accepted messages;
* `decode_encode_message`  a message that was written is read back.
-/

set_option linter.unusedVariables false

namespace Ike
open GoLang

/-- `IKE_HEADER_LEN` -/
def ikeHeaderLen : Nat := 28

structure IKEHeader where
  initiatorSPI : UInt64
  responderSPI : UInt64
  majorVersion : UInt8
  minorVersion : UInt8
  exchangeType : UInt8
  flags : UInt8
  messageID : UInt32
  nextPayload : UInt8
  payloadBytes : Bytes
deriving DecidableEq, Repr

structure IKEMessage where
  header : IKEHeader
  payloads : IKEPayloadContainer

def responseBitCheck : UInt8 := 0x20
def initiatorBitCheck : UInt8 := 0x08

def newHeader (iSPI rSPI : UInt64) (exchgType : UInt8) (response initiator : Bool) (mId : UInt32)
    (nextPayload : UInt8) (payloadBytes : Bytes) : IKEHeader :=
  let flags : UInt8 := if response then 0 ||| responseBitCheck else 0
  let flags := if initiator then flags ||| initiatorBitCheck else flags
  { initiatorSPI := iSPI, responderSPI := rSPI, majorVersion := 2, minorVersion := 0,
    exchangeType := exchgType, flags := flags, messageID := mId, nextPayload := nextPayload,
    payloadBytes := payloadBytes }

def newMessage (iSPI rSPI : UInt64) (exchgType : UInt8) (response initiator : Bool) (mId : UInt32)
    (payloads : IKEPayloadContainer) : IKEMessage :=
  { header := newHeader iSPI rSPI exchgType response initiator mId noNext [], payloads := payloads }

/-! ## the encoder -/

def IKEHeader.marshal (h : IKEHeader) : Outcome Bytes :=
  let totalLen := ikeHeaderLen + h.payloadBytes.length
  if totalLen > 4294967295 then
    fail s!"length exceeds uint32 limit or is negative: {totalLen}"
  else
    .ok (putUint64 h.initiatorSPI ++ putUint64 h.responderSPI
      ++ [h.nextPayload, (h.majorVersion <<< 4) ||| (h.minorVersion &&& 0x0F), h.exchangeType, h.flags]
      ++ putUint32 h.messageID ++ putUint32 (UInt32.ofNat totalLen) ++ h.payloadBytes)

/-- the assignments to `m.NextPayload` and `m.PayloadBytes` -/
def IKEHeader.setPayload (h : IKEHeader) (nextPayload : UInt8) (payloadBytes : Bytes) : IKEHeader :=
  { h with nextPayload := nextPayload, payloadBytes := payloadBytes }

def IKEMessage.encode : Proc IKEMessage Bytes := fun m =>
  match m.payloads.encode with
  | .ok payloadBytes =>
    let h := m.header.setPayload m.payloads.firstType payloadBytes
    (h.marshal, { m with header := h })
  | .err e =>
    (.err (.wrapf "Encode(): EncodePayload failed" e),
      { m with header := m.header.setPayload m.payloads.firstType [] })
  | .panic p =>
    (.panic p, { m with header := m.header.setPayload m.payloads.firstType m.header.payloadBytes })

/-! ## the decoder -/

def parseHeader (b : Slice UInt8) : Outcome IKEHeader :=
  if b.len < ikeHeaderLen then fail "ParseHeader(): Received broken IKE header"
  else do
    let l ← b.slice 24 ikeHeaderLen
    let totalLen ← uint32 l.data
    if totalLen < UInt32.ofNat ikeHeaderLen then
      fail s!"ParseHeader(): Illegal IKE message length {totalLen.toNat} < header length {ikeHeaderLen}"
    else do
      let i ← b.sliceTo 8
      let initiatorSPI ← uint64 i.data
      let r ← b.slice 8 16
      let responderSPI ← uint64 r.data
      let nextPayload ← b.index 16
      let version ← b.index 17
      let exchangeType ← b.index 18
      let flags ← b.index 19
      let mid ← b.slice 20 24
      let messageID ← uint32 mid.data
      let payloadBytes ← b.sliceFrom ikeHeaderLen
      pure { initiatorSPI := initiatorSPI, responderSPI := responderSPI,
             majorVersion := version >>> 4, minorVersion := version &&& 0x0F,
             exchangeType := exchangeType, flags := flags, messageID := messageID,
             nextPayload := nextPayload, payloadBytes := payloadBytes.data }

/-- the payloads are appended to those of the message -/
def IKEMessage.decodePayload (m : IKEMessage) (b : Slice UInt8) : Outcome IKEMessage :=
  if m.header.nextPayload ≠ 0 ∧ b.len = 0 then
    fail s!"DecodePayload(): NextPayload is {m.header.nextPayload.toNat} but payloadbytes are empty"
  else do
    let payloads ← (m.payloads.decode m.header.nextPayload b).wrapf
      "DecodePayload(): DecodePayload failed"
    pure { m with payloads := payloads }

/-- `payloads` are those of the message before the call; its header is replaced -/
def IKEMessage.decode (payloads : IKEPayloadContainer) (b : Slice UInt8) : Outcome IKEMessage := do
  let header ← (parseHeader b).wrapf "Decode()"
  -- `m.PayloadBytes`, with the capacity of `b`
  let payloadBytes ← b.sliceFrom ikeHeaderLen
  (IKEMessage.decodePayload { header := header, payloads := payloads } payloadBytes).wrapf
    "Decode(): DecodePayload failed"

/-! ## the octets of a header -/

/-- the length field -/
def headerLength (b : Bytes) : Nat := octNat ((b.take 28).drop 24)

/-- the octets as a header -/
def headerOf (b : Bytes) : IKEHeader :=
  { initiatorSPI := UInt64.ofNat (octNat (b.take 8))
    responderSPI := UInt64.ofNat (octNat ((b.take 16).drop 8))
    majorVersion := b.getD 17 0 >>> 4
    minorVersion := b.getD 17 0 &&& 0x0F
    exchangeType := b.getD 18 0
    flags := b.getD 19 0
    messageID := UInt32.ofNat (octNat ((b.take 24).drop 20))
    nextPayload := b.getD 16 0
    payloadBytes := b.drop 28 }

theorem headerLength_lt (b : Bytes) : headerLength b < 4294967296 := by
  have h := octNat_lt ((b.take 28).drop 24)
  have hl : ((b.take 28).drop 24).length ≤ 4 := by
    rw [List.length_drop, List.length_take]
    omega
  have hp : 256 ^ ((b.take 28).drop 24).length ≤ 256 ^ 4 := Nat.pow_le_pow_right (by omega) hl
  unfold headerLength
  omega

theorem parseHeader_iff {b sp : Bytes} {h : IKEHeader} :
    parseHeader ⟨b, sp⟩ = .ok h ↔ 28 ≤ b.length ∧ 28 ≤ headerLength b ∧ h = headerOf b := by
  unfold parseHeader
  by_cases hlen : b.length < 28
  · rw [if_pos (show (⟨b, sp⟩ : Slice UInt8).len < ikeHeaderLen from hlen)]
    constructor
    · intro h; exact absurd h (fail_ne_ok _ _)
    · intro h; omega
  · have h28 : 28 ≤ b.length := by omega
    have hoct : ∀ {i j n : Nat}, i + n = j → j ≤ 28 →
        octUint n ((b.take j).drop i) = .ok (octNat ((b.take j).drop i)) := by
      intro i j n hij hj
      have hl : ((b.take j).drop i).length = n := by
        rw [List.length_drop, List.length_take]
        omega
      rw [octUint, if_pos (by omega), ← hl, List.take_length]
    have hidx : ∀ i < 28, (⟨b, sp⟩ : Slice UInt8).index i = .ok (b.getD i 0) := by
      intro i hi
      have hib : i < b.length := by omega
      rw [Slice.index, List.getD_eq_getElem?_getD]
      simp only [List.getElem?_eq_getElem hib, Option.getD_some]
    have hl : UInt32.ofNat (headerLength b) < UInt32.ofNat ikeHeaderLen ↔ headerLength b < 28 := by
      rw [UInt32.lt_iff_toNat_lt, UInt32.toNat_ofNat_of_lt' (headerLength_lt b)]
      rfl
    have h8 : b.take 8 = (b.take 8).drop 0 := rfl
    rw [if_neg (show ¬ (⟨b, sp⟩ : Slice UInt8).len < ikeHeaderLen from hlen),
      Slice.slice_data _ (by decide) (show ikeHeaderLen ≤ b.length from h28), Outcome.ok_bind]
    simp only [uint32, uint64]
    rw [show ikeHeaderLen = 28 from rfl, hoct (i := 24) (j := 28) rfl (by omega)]
    show (if UInt32.ofNat (headerLength b) < UInt32.ofNat ikeHeaderLen then _ else _) = _ ↔ _
    by_cases hlow : headerLength b < 28
    · rw [if_pos (hl.mpr hlow)]
      constructor
      · intro h; exact absurd h (fail_ne_ok _ _)
      · intro h; omega
    · rw [if_neg (fun h => hlow (hl.mp h)), Slice.sliceTo_data _ (show 8 ≤ b.length by omega),
        Slice.slice_data _ (by omega) (show 16 ≤ b.length by omega), hidx 16 (by omega),
        hidx 17 (by omega), hidx 18 (by omega), hidx 19 (by omega),
        Slice.slice_data _ (by omega) (show 24 ≤ b.length by omega),
        Slice.sliceFrom_data _ (show 28 ≤ b.length from h28)]
      simp only [Outcome.ok_bind]
      rw [h8, hoct (i := 0) (j := 8) rfl (by omega), hoct (i := 8) (j := 16) rfl (by omega),
        hoct (i := 20) (j := 24) rfl (by omega)]
      constructor
      · intro h
        injection h with h
        exact ⟨h28, by omega, h.symm⟩
      · rintro ⟨_, _, rfl⟩
        rfl

/-- the octets of a header, one field after the other -/
def headerOctets (A B : Bytes) (n v x f : UInt8) (M L p : Bytes) : Bytes :=
  A ++ B ++ [n, v, x, f] ++ M ++ L ++ p

theorem headerOf_octets {A B M L p : Bytes} {n v x f : UInt8} (hA : A.length = 8)
    (hB : B.length = 8) (hM : M.length = 4) (hL : L.length = 4) :
    headerOf (headerOctets A B n v x f M L p) =
      { initiatorSPI := UInt64.ofNat (octNat A), responderSPI := UInt64.ofNat (octNat B),
        majorVersion := v >>> 4, minorVersion := v &&& 0x0F, exchangeType := x, flags := f,
        messageID := UInt32.ofNat (octNat M), nextPayload := n, payloadBytes := p } ∧
      headerLength (headerOctets A B n v x f M L p) = octNat L := by
  match A, hA, B, hB, M, hM, L, hL with
  | [_, _, _, _, _, _, _, _], _, [_, _, _, _, _, _, _, _], _, [_, _, _, _], _, [_, _, _, _], _ =>
    exact ⟨rfl, rfl⟩

theorem version_eq {major minor : UInt8} (h1 : major < 16) (h2 : minor < 16) :
    ((major <<< 4) ||| (minor &&& 0x0F)) >>> 4 = major ∧
      ((major <<< 4) ||| (minor &&& 0x0F)) &&& 0x0F = minor := by
  have key : ∀ i < 16, ∀ j < 16,
      ((UInt8.ofNat i <<< 4) ||| (UInt8.ofNat j &&& 0x0F)) >>> 4 = UInt8.ofNat i ∧
        ((UInt8.ofNat i <<< 4) ||| (UInt8.ofNat j &&& 0x0F)) &&& 0x0F = UInt8.ofNat j := by
    decide +kernel
  have h := key major.toNat (UInt8.lt_iff_toNat_lt.mp h1) minor.toNat (UInt8.lt_iff_toNat_lt.mp h2)
  rwa [UInt8.ofNat_toNat, UInt8.ofNat_toNat] at h

/-- the header with the versions that are read from its octets: `Marshal` keeps four bits of each -/
def IKEHeader.written (h : IKEHeader) : IKEHeader :=
  { h with
    majorVersion := ((h.majorVersion <<< 4) ||| (h.minorVersion &&& 0x0F)) >>> 4
    minorVersion := ((h.majorVersion <<< 4) ||| (h.minorVersion &&& 0x0F)) &&& 0x0F }

theorem IKEHeader.marshal_written (h : IKEHeader) : h.written.marshal = h.marshal := by
  have key : ∀ i < 256, (((UInt8.ofNat i >>> 4) <<< 4) ||| ((UInt8.ofNat i &&& 0x0F) &&& 0x0F)) =
      UInt8.ofNat i := by
    decide +kernel
  generalize hv : (h.majorVersion <<< 4) ||| (h.minorVersion &&& 0x0F) = v
  have hkey := key v.toNat v.toNat_lt
  rw [UInt8.ofNat_toNat] at hkey
  simp only [marshal, written, hv, hkey]

/-- what is written fits the length field -/
theorem marshal_header_iff {h : IKEHeader} :
    (∃ b, h.marshal = .ok b) ↔ 28 + h.payloadBytes.length ≤ 4294967295 := by
  by_cases hgt : 28 + h.payloadBytes.length > 4294967295
  · have hfail : h.marshal = fail _ := if_pos hgt
    rw [hfail]
    constructor
    · intro hb
      obtain ⟨b, hb⟩ := hb
      exact absurd hb (fail_ne_ok _ _)
    · intro hle
      omega
  · exact ⟨fun _ => by omega, fun _ => ⟨_, if_neg hgt⟩⟩

/-- what is read from the octets of a header -/
theorem headerOf_written {h : IKEHeader} {b : Bytes} (hm : h.marshal = .ok b) :
    b.length = 28 + h.payloadBytes.length ∧ headerLength b = b.length ∧ headerOf b = h.written := by
  unfold IKEHeader.marshal at hm
  simp only at hm
  split at hm
  · exact absurd hm (fail_ne_ok _ _)
  rename_i hle
  injection hm with hm
  have hlen : b.length = 28 + h.payloadBytes.length := by
    rw [← hm]
    simp only [List.length_append, length_putUint64, length_putUint32, List.length_cons,
      List.length_nil]
  have hlt : 28 + h.payloadBytes.length < 4294967296 := by
    have : ¬ 28 + h.payloadBytes.length > 4294967295 := hle
    omega
  have hlay := headerOf_octets (n := h.nextPayload)
    (v := (h.majorVersion <<< 4) ||| (h.minorVersion &&& 0x0F)) (x := h.exchangeType) (f := h.flags)
    (p := h.payloadBytes) (length_putUint64 h.initiatorSPI) (length_putUint64 h.responderSPI)
    (length_putUint32 h.messageID)
    (length_putUint32 (UInt32.ofNat (ikeHeaderLen + h.payloadBytes.length)))
  have hb : headerOctets (putUint64 h.initiatorSPI) (putUint64 h.responderSPI) h.nextPayload
      ((h.majorVersion <<< 4) ||| (h.minorVersion &&& 0x0F)) h.exchangeType h.flags
      (putUint32 h.messageID) (putUint32 (UInt32.ofNat (ikeHeaderLen + h.payloadBytes.length)))
      h.payloadBytes = b := hm
  rw [hb] at hlay
  have h64 : ∀ w : UInt64, UInt64.ofNat (octNat (putUint64 w)) = w := by
    intro w
    rw [putUint64, octNat_octets_of_lt (show w.toNat < 256 ^ 8 from w.toNat_lt), UInt64.ofNat_toNat]
  have h32 : ∀ w : UInt32, octNat (putUint32 w) = w.toNat := by
    intro w
    rw [putUint32, octNat_octets_of_lt (show w.toNat < 256 ^ 4 from w.toNat_lt)]
  refine ⟨hlen, ?_, ?_⟩
  · rw [hlay.2, h32, hlen, UInt32.toNat_ofNat_of_lt' (show ikeHeaderLen + _ < 4294967296 from hlt)]
    rfl
  · rw [hlay.1, h64, h64, h32, UInt32.ofNat_toNat]
    rfl

/-- a header that was written is read back -/
theorem headerOf_marshal {h : IKEHeader} {b : Bytes} (h1 : h.majorVersion < 16)
    (h2 : h.minorVersion < 16) (hm : h.marshal = .ok b) :
    b.length = 28 + h.payloadBytes.length ∧ headerLength b = b.length ∧ headerOf b = h := by
  have hw : h.written = h := by
    rw [IKEHeader.written, (version_eq h1 h2).1, (version_eq h1 h2).2]
  have hread := headerOf_written hm
  rwa [hw] at hread

/-! ## accepted messages -/

/-- **Accepted messages**: a header, and payload data that are a chain from the type in it. -/
theorem message_decode_iff {old : IKEPayloadContainer} {b sp : Bytes} {m : IKEMessage} :
    IKEMessage.decode old ⟨b, sp⟩ = .ok m ↔
      28 ≤ b.length ∧ 28 ≤ headerLength b ∧ ((headerOf b).nextPayload = 0 ∨ b.drop 28 ≠ []) ∧
        m.header = headerOf b ∧
        old.decode (headerOf b).nextPayload ⟨b.drop 28, sp⟩ = .ok m.payloads := by
  unfold IKEMessage.decode
  constructor
  · intro h
    obtain ⟨hd, hh, h⟩ := Outcome.bind_eq_ok.mp h
    obtain ⟨hlen, hlow, rfl⟩ := parseHeader_iff.mp (Outcome.wrapf_eq_ok.mp hh)
    rw [Slice.sliceFrom_data _ (show ikeHeaderLen ≤ b.length from hlen), Outcome.ok_bind,
      Outcome.wrapf_eq_ok] at h
    unfold IKEMessage.decodePayload at h
    split at h
    · exact absurd h (fail_ne_ok _ _)
    rename_i hne
    obtain ⟨ps, hps, h⟩ := Outcome.bind_eq_ok.mp h
    injection h with h
    subst h
    refine ⟨hlen, hlow, ?_, rfl, Outcome.wrapf_eq_ok.mp hps⟩
    by_cases h0 : (headerOf b).nextPayload = 0
    · exact Or.inl h0
    · refine Or.inr fun hnil => hne ⟨h0, ?_⟩
      show (b.drop 28).length = 0
      rw [hnil]
      rfl
  · rintro ⟨hlen, hlow, hne, hh, hps⟩
    rw [parseHeader_iff.mpr ⟨hlen, hlow, rfl⟩, Outcome.wrapf_ok, Outcome.ok_bind,
      Slice.sliceFrom_data _ (show ikeHeaderLen ≤ b.length from hlen), Outcome.ok_bind,
      Outcome.wrapf_eq_ok]
    have hcond : ¬ ((headerOf b).nextPayload ≠ 0 ∧
        (⟨b.drop ikeHeaderLen, sp⟩ : Slice UInt8).len = 0) := by
      rintro ⟨h0, hz⟩
      rcases hne with h | h
      · exact h0 h
      · exact h (List.length_eq_zero_iff.mp hz)
    obtain ⟨mh, mp⟩ := m
    simp only at hh hps
    subst hh
    unfold IKEMessage.decodePayload
    rw [if_neg hcond, show ikeHeaderLen = 28 from rfl, hps]
    rfl

/-! ## messages that were written -/

theorem encode_message_ok {m : IKEMessage} {b : Bytes} (h : (IKEMessage.encode m).1 = .ok b) :
    ∃ p, m.payloads.encode = .ok p ∧
      (m.header.setPayload m.payloads.firstType p).marshal = .ok b := by
  unfold IKEMessage.encode at h
  cases hp : m.payloads.encode with
  | ok p =>
    rw [hp] at h
    exact ⟨p, rfl, h⟩
  | err e =>
    rw [hp] at h
    exact absurd h (by simp)
  | panic e =>
    rw [hp] at h
    exact absurd h (by simp)

theorem header_of_encode {m m' : IKEMessage} {b : Bytes} (h : IKEMessage.encode m = (.ok b, m')) :
    ∃ p, m'.header = m.header.setPayload m.payloads.firstType p := by
  obtain ⟨p, hp, _⟩ := encode_message_ok (congrArg Prod.fst h)
  unfold IKEMessage.encode at h
  rw [hp] at h
  exact ⟨p, by rw [← (Prod.mk.inj h).2]⟩

theorem decode_of_encode {m : IKEMessage} {b : Bytes} (sp : Bytes)
    (h1 : m.header.majorVersion < 16) (h2 : m.header.minorVersion < 16)
    (hl : m.payloads.Linked) (hs : ∀ p ∈ m.payloads, p.Survives)
    (h : (IKEMessage.encode m).1 = .ok b) :
    IKEMessage.decode [] ⟨b, sp⟩ =
      .ok ⟨m.header.setPayload m.payloads.firstType (b.drop 28), m.payloads⟩ := by
  obtain ⟨p, hp, hb⟩ := encode_message_ok h
  obtain ⟨hlen, hL, hh⟩ := headerOf_marshal (h := m.header.setPayload _ p) h1 h2 hb
  have hdrop : b.drop 28 = p := congrArg IKEHeader.payloadBytes hh
  have hnext : (headerOf b).nextPayload = m.payloads.firstType :=
    congrArg IKEHeader.nextPayload hh
  refine message_decode_iff.mpr ⟨by omega, by omega, ?_, ?_, ?_⟩
  · cases hps : m.payloads with
    | nil => left; rw [hnext, hps]; rfl
    | cons q qs =>
      right
      rw [hdrop]
      rw [hps] at hp
      obtain ⟨data, rest, _, _, _, rfl⟩ := IKEPayloadContainer.encode_cons.mp hp
      exact List.cons_ne_nil _ _
  · rw [hh, hdrop]
  · rw [hnext, hdrop]
    exact IKEPayloadContainer.decode_encode hs hl hp sp

/-- **A message that was written is read back**, with the type of the first payload in its header:
for payloads that survive their codec one by one, if only the last of them is an SK payload. -/
theorem decode_encode_message {m : IKEMessage} {b : Bytes} (sp : Bytes)
    (h1 : m.header.majorVersion < 16) (h2 : m.header.minorVersion < 16)
    (hsk : ∀ p ∈ m.payloads.dropLast, p.type ≠ .SK) (hs : ∀ p ∈ m.payloads, p.Survives)
    (h : (IKEMessage.encode m).1 = .ok b) :
    IKEMessage.decode [] ⟨b, sp⟩ =
      .ok ⟨m.header.setPayload m.payloads.firstType (b.drop 28), m.payloads⟩ :=
  decode_of_encode sp h1 h2 (IKEPayloadContainer.linked_of_last hsk) hs h

/-- an IKE_AUTH request with a nonce in front of an SK payload that announces IDi inside -/
def authRequest : IKEMessage :=
  newMessage 0x1122334455667788 0x99aabbccddeeff00 35 false true 1
    [.nonce ⟨[1, 2, 3, 4]⟩, .n ⟨1, 16388, [], [7]⟩, .sk ⟨35, [0xe0, 0xe1, 0xe2]⟩]

theorem decode_encode_authRequest :
    ∃ b, (IKEMessage.encode authRequest).1 = .ok b ∧
      IKEMessage.decode [] (Slice.ofList b) =
        .ok ⟨authRequest.header.setPayload 40 (b.drop 28), authRequest.payloads⟩ := by
  obtain ⟨b, hb⟩ : ∃ b, (IKEMessage.encode authRequest).1 = .ok b := ⟨_, rfl⟩
  refine ⟨b, hb, decode_encode_message [] (by decide) (by decide) ?_ ?_ hb⟩
  · intro p hp
    rcases List.mem_cons.mp hp with rfl | hp
    · simp [IKEPayload.type]
    rcases List.mem_cons.mp hp with rfl | hp
    · simp [IKEPayload.type]
    · exact absurd hp (by simp)
  · intro p hp
    rcases List.mem_cons.mp hp with rfl | hp
    · exact ⟨_, 0, [], rfl, rfl⟩
    rcases List.mem_cons.mp hp with rfl | hp
    · exact ⟨_, 0, [], rfl, rfl⟩
    rcases List.mem_cons.mp hp with rfl | hp
    · exact ⟨_, 35, [], rfl, rfl⟩
    · exact absurd hp (by simp)

end Ike
