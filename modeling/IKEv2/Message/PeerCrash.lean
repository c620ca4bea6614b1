import IKEv2.Message.Crash
import IKEv2.Message.Kept

/-!
# Payloads that are encoded and stop the decoder of the peer

The encoders accept more than the decoders can take: an SPI of up to 255 octets, whose length wraps
in a sum of the decoder, and SPIs in a Delete payload that are not groups of four octets.

* `overruns_encoded`                which encoded security associations stop the decoder;
* `crashes_encoded`                 which encoded payloads do;
* `decode_encoded_returns_iff`      which encoded chains do.
-/

set_option linter.unusedVariables false

namespace Ike
open GoLang

/-! ## security associations -/

/-- the encoder writes a value of two octets, and the decoder reads a length -/
def Transform.Misread (t : Transform) : Prop :=
  t.attributePresent = true ∧ t.attributeFormat ≠ 0 ∧ t.attributeFormatAndType.toNat < 32768 ∧
    t.attributeValue.toNat ≠ 0

/-- a transform with an attribute is long enough, and read unless its length does not fit -/
theorem transformGood_attr {m l1 l2 ty i1 i2 w1 w2 x1 x2 : UInt8} {w x : UInt16}
    (hw : putUint16 w = [w1, w2]) (hx : putUint16 x = [x1, x2]) (v r : Bytes) :
    TransformGood (m :: 0 :: l1 :: l2 :: ty :: 0 :: i1 :: i2 :: w1 :: w2 :: x1 :: x2 :: v) r ↔
      (w.toNat < 32768 → x.toNat = v.length) := by
  have hn := toNat_of_putUint16 hw
  have hw2 : w2.toNat < 256 := w2.toNat_lt
  have hform : wireFormat
      (m :: 0 :: l1 :: l2 :: ty :: 0 :: i1 :: i2 :: w1 :: w2 :: x1 :: x2 :: v ++ r) = 0 ↔
        w.toNat < 32768 := by
    show (w1 &&& 0x80) >>> 7 = 0 ↔ _
    rw [topBit_eq]
    by_cases hs : w1.toNat < 128
    · rw [if_pos hs]
      exact iff_of_true rfl (by omega)
    · rw [if_neg hs]
      exact iff_of_false (by decide) (by omega)
  have hword : (wordAt
      (m :: 0 :: l1 :: l2 :: ty :: 0 :: i1 :: i2 :: w1 :: w2 :: x1 :: x2 :: v ++ r) 10).toNat =
        x.toNat := congrArg UInt16.toNat (ofNat_of_putUint16 hx)
  unfold TransformGood
  rw [hform, hword]
  simp only [List.cons_append, List.length_cons, List.length_append]
  constructor
  · intro h hs
    have := (h (by omega)).2 hs
    omega
  · intro h _
    refine ⟨by omega, fun hs => ?_⟩
    have := h hs
    omega

/-- an attribute: the type and a word, which is the length of the value behind it or the value -/
theorem Transform.attributeData_shape {t : Transform} {a : Bytes} (h : t.attributeData = .ok a) :
    t.attributePresent ≠ true ∧ a = [] ∨
    t.attributePresent = true ∧ ∃ x v, a = putUint16 t.attributeFormatAndType ++ putUint16 x ++ v ∧
      (t.attributeFormat = 0 ∧ x.toNat = v.length ∨
        t.attributeFormat ≠ 0 ∧ x = t.attributeValue ∧ v = []) := by
  unfold Transform.attributeData at h
  by_cases hp : t.attributePresent = true
  · rw [if_pos hp] at h
    refine .inr ⟨hp, ?_⟩
    by_cases hf : t.attributeFormat = 0
    · rw [if_pos hf] at h
      by_cases hz : t.variableLengthAttributeValue.length = 0
      · rw [if_pos hz] at h
        exact absurd h (fail_ne_ok _ _)
      by_cases hlong : t.variableLengthAttributeValue.length > 0xFFFF
      · rw [if_neg hz, if_pos hlong] at h
        exact absurd h (fail_ne_ok _ _)
      rw [if_neg hz, if_neg hlong] at h
      exact ⟨_, _, (Outcome.ok.inj h).symm, .inl ⟨hf,
        UInt16.toNat_ofNat_of_lt' (show _ < 65536 by omega)⟩⟩
    · rw [if_neg hf] at h
      refine ⟨_, [], ?_, .inr ⟨hf, rfl, rfl⟩⟩
      rw [List.append_nil]
      exact (Outcome.ok.inj h).symm
  · rw [if_neg hp] at h
    exact .inl ⟨hp, (Outcome.ok.inj h).symm⟩

theorem Transform.marshal_peer (last : Bool) (t : Transform) (o : Bytes) (h : t.marshal last = .ok o) :
    LenRec 8 o ∧ ∀ r, (TransformGood o r ↔ ¬ t.Misread) ∧ (TransformBad o r ↔ False) := by
  obtain ⟨a, l1, l2, i1, i2, had, _, rfl, hrec⟩ := t.marshal_eq_ok h
  refine ⟨hrec, fun r => ?_⟩
  rcases Transform.attributeData_shape had with ⟨hp, rfl⟩ | ⟨hp, x, v, rfl, hshape⟩
  · refine ⟨iff_of_true (fun h8 => absurd h8 (by simp)) fun hm => hp hm.1, iff_of_false ?_ id⟩
    exact fun hb => absurd hb.1 (by simp)
  obtain ⟨w1, w2, hw, _⟩ := exists_octets_putUint16 t.attributeFormatAndType
  obtain ⟨x1, x2, hx, _⟩ := exists_octets_putUint16 x
  rw [hw, hx]
  refine ⟨(transformGood_attr hw hx v r).trans ?_, iff_of_false ?_ id⟩
  · rcases hshape with ⟨hf, hlen⟩ | ⟨hf, rfl, rfl⟩
    · exact iff_of_true (fun _ => hlen) fun hm => hm.2.1 hf
    constructor
    · rintro hgood ⟨_, _, hs, hne⟩
      exact hne (hgood hs)
    · intro hm hs
      by_contra hne
      exact hm ⟨hp, hf, hs, hne⟩
  · -- a record of nine to eleven octets is never written
    intro hb
    have h12 := hb.2.1
    simp only [List.cons_append, List.nil_append, List.length_cons] at h12
    omega

/-- all transforms of the proposal are read, and the length of its SPI does not wrap -/
def Proposal.Passes (p : Proposal) : Prop :=
  p.spi.length < 248 ∧ ∀ t ∈ p.transformList, ¬ t.Misread

theorem Proposal.marshal_peer (last : Bool) (p : Proposal) (o : Bytes) (h : p.marshal last = .ok o) :
    LenRec 8 o ∧ ∀ r, (ProposalGood o r ↔ p.Passes) ∧ (ProposalBad o r ↔ 248 ≤ p.spi.length) := by
  have hspi : p.spi.length ≤ 255 := by
    by_contra hlong
    rw [Proposal.marshal, if_pos (by omega)] at h
    exact absurd h (fail_ne_ok _ _)
  obtain ⟨d, l1, l2, hd, rfl, hrec, _, _⟩ := Proposal.marshal_eq_ok h
  obtain ⟨hrun, hhits⟩ := lenLoop_emitted (by omega) Transform.marshal_peer hd
  refine ⟨hrec, fun r => ?_⟩
  have hsize : (UInt8.ofNat p.spi.length).toNat = p.spi.length :=
    UInt8.toNat_ofNat_of_lt' (show _ < 256 by omega)
  generalize ho : ((if last then 0 else 2) :: 0 :: l1 :: l2 :: p.proposalNumber :: p.protocolID ::
    UInt8.ofNat p.spi.length :: UInt8.ofNat p.transformList.length :: (p.spi ++ d) : Bytes) = o at *
  have hget : (o.getD 6 0).toNat = p.spi.length := by
    rw [← ho]
    exact hsize
  have hlen : o.length = 8 + p.spi.length + d.length := by
    rw [← ho]
    simp only [List.length_cons, List.length_append]
    omega
  have hoct : transformOctets o = d := by
    rw [transformOctets, hget, ← ho, Nat.add_comm]
    exact List.drop_left' rfl
  unfold ProposalGood ProposalBad
  rw [hget, hoct, hrun, hhits]
  refine ⟨⟨fun hg => ⟨hg.1, hg.2.2⟩, fun hp => ⟨hp.1, by omega, hp.2⟩⟩, ?_⟩
  constructor
  · rintro (hw | ⟨hin, _⟩ | ⟨_, _, _, _, _, hfalse, _⟩)
    · exact hw
    · omega
    · exact hfalse.elim
  · exact .inl

/-- a proposal whose SPI wraps, behind proposals that pass -/
def SecurityAssociation.StopsPeer (sa : SecurityAssociation) : Prop :=
  ∃ pre p post, sa.proposals = pre ++ p :: post ∧ 248 ≤ p.spi.length ∧ ∀ q ∈ pre, q.Passes

theorem overruns_encoded {sa : SecurityAssociation} {data : Bytes} (h : sa.marshal = .ok data) :
    Overruns data ↔ sa.StopsPeer :=
  (lenLoop_emitted (by omega) Proposal.marshal_peer h).2

/-! ## the other payloads -/

theorem wraps_encoded {p : Notification} {data : Bytes} (h : p.marshal = .ok data) :
    Notification.Wraps data ↔ 252 ≤ p.spi.length := by
  unfold Notification.marshal at h
  split at h
  · exact absurd h (fail_ne_ok _ _)
  next hspi =>
  obtain rfl := Outcome.ok.inj h
  have hsize : (UInt8.ofNat p.spi.length).toNat = p.spi.length :=
    UInt8.toNat_ofNat_of_lt' (show _ < 256 by omega)
  obtain ⟨m1, m2, hm, _⟩ := exists_octets_putUint16 p.notifyMessageType
  rw [hm]
  show (4 ≤ _ ∧ 252 ≤ (UInt8.ofNat p.spi.length).toNat) ↔ _
  rw [hsize]
  refine and_iff_right ?_
  simp

/-- the octets of the SPIs -/
def Delete.spiOctets (d : Delete) : Nat := d.spiSize.toNat * d.spis.length

theorem Delete.marshal_octets {d : Delete} {data : Bytes} (h : d.marshal = .ok data) :
    ∃ n1 n2 l, data = d.protocolID :: d.spiSize :: n1 :: n2 :: l ∧
      n1.toNat * 256 + n2.toNat = d.spis.length ∧ l.length = d.spiOctets := by
  obtain ⟨hn, hwide, rfl⟩ := Delete.marshal_eq_ok.mp h
  obtain ⟨n1, n2, hput, hnum⟩ := exists_octets_putUint16 d.numberOfSPI
  refine ⟨n1, n2, _, by rw [hput]; rfl, hnum.trans hn.symm, ?_⟩
  rcases hwide with hnil | h4
  · rw [Delete.spiOctets, hnil]
    rfl
  · refine length_flatMap_const _ _ _ fun v => ?_
    rw [List.length_append, length_putUint32, List.length_replicate]
    omega

theorem short_encoded {d : Delete} {data : Bytes} (h : d.marshal = .ok data) (behind : Bytes) :
    Delete.Short data behind ↔
      d.spiOctets % 4 ≠ 0 ∧ behind.length < 4 - d.spiOctets % 4 := by
  obtain ⟨n1, n2, l, rfl, hnum, hlen⟩ := Delete.marshal_octets h
  have hcount : spiCount (d.protocolID :: d.spiSize :: n1 :: n2 :: l) = d.spis.length := by
    rw [← hnum]
    show octNat [n1, n2] = _
    simp [octNat]
  unfold Delete.Short
  rw [hcount, show (d.protocolID :: d.spiSize :: n1 :: n2 :: l).getD 1 0 = d.spiSize from rfl]
  simp only [List.length_cons, hlen]
  unfold Delete.spiOctets
  omega

/-- with three octets behind it an encoded payload is read -/
theorem Delete.unmarshal_encoded {d : Delete} {data : Bytes} (h : d.marshal = .ok data)
    {behind : Bytes} (hb : 3 ≤ behind.length) (p : Delete) :
    ∃ q, p.unmarshal ⟨data, behind⟩ = .ok q := by
  obtain ⟨n1, n2, l, rfl, hnum, hlen⟩ := Delete.marshal_octets h
  obtain ⟨j, vs, _, hloop⟩ := spiLoop_behind (l := l) (s := behind) (r := (4 - l.length % 4) % 4)
    (by omega) (by omega) (by omega) p.spis
  rw [Delete.unmarshal_cons, hnum, if_neg (by rw [hlen]; exact Nat.lt_irrefl _), hloop]
  exact ⟨_, rfl⟩

theorem not_attrOverrun_encoded {c : Configuration} {data : Bytes} (h : c.marshal = .ok data) :
    ¬ AttrOverrun (data.drop 4) := by
  have hall : ∀ a ∈ c.configurationAttribute, AttrOk a := by
    intro a ha
    obtain ⟨x, hx, _⟩ := Outcome.bind_eq_ok.mp h
    obtain ⟨y, hy⟩ := emitAll_mem hx ha
    unfold IndividualConfigurationAttribute.marshal at hy
    split at hy
    · exact absurd hy (fail_ne_ok _ _)
    next hlen => exact (show a.value.length < 65536 by omega)
  obtain rfl := Outcome.ok.inj (h.symm.trans (Configuration.marshal_ok hall))
  refine (Configuration.unmarshal_crash_iff ⟨0, []⟩ _ []).mp ?_
  cases hc : c.configurationAttribute with
  | nil =>
    rw [List.map_nil, List.flatMap_nil, List.append_nil, Configuration.unmarshal_short _ (by simp)
      (by simp)]
    trivial
  | cons a as =>
    rw [hc] at hall
    have hread := (Configuration.unmarshal_iff ⟨0, []⟩ _ (c.configurationType :: 0 :: 0 :: 0 ::
      ((a :: as).map clearTop).flatMap attrOctets) []).mpr
      (.inr ⟨_, 0, 0, 0, (a :: as).map clearTop, rfl, by simp, ?_, rfl⟩)
    · show (Configuration.unmarshal ⟨0, []⟩ ⟨c.configurationType :: 0 :: 0 :: 0 ::
        ((a :: as).map clearTop).flatMap attrOctets, []⟩).returns
      rw [hread]
      trivial
    · intro b hb
      obtain ⟨b', hb', rfl⟩ := List.mem_map.mp hb
      exact hall b' hb'

/-! ## payloads -/

/-- what stops the decoder of the peer; `behind` octets lie behind the payload in its buffer -/
def IKEPayload.StopsPeer (behind : Nat) : IKEPayload → Prop
  | .sa p => p.StopsPeer
  | .n p => 252 ≤ p.spi.length
  | .d p => p.spiOctets % 4 ≠ 0 ∧ behind < 4 - p.spiOctets % 4
  | _ => False

theorem crashes_encoded {p : IKEPayload} {data : Bytes} (h : p.marshal = .ok data) (behind : Bytes) :
    p.type.Crashes data behind ↔ p.StopsPeer behind.length := by
  cases p with
  | sa p => exact overruns_encoded h
  | n p => exact wraps_encoded h
  | d p => exact short_encoded h behind
  | cp p => exact iff_of_false (not_attrOverrun_encoded h) id
  | _ => exact Iff.rfl

/-- the decoder of the peer accepts the payload -/
def IKEPayload.Reads (p : IKEPayload) : Prop :=
  ∃ data next sp q, p.marshal = .ok data ∧
    (IKEPayload.new next p.type).unmarshal ⟨data, sp⟩ = .ok q

/-- in front of other payloads it does not matter what they are -/
theorem IKEPayload.reads_iff {p : IKEPayload} {data : Bytes} (h : p.marshal = .ok data) (next : UInt8)
    {behind : Bytes} (hb : 3 ≤ behind.length) :
    (∃ q, (IKEPayload.new next p.type).unmarshal ⟨data, behind⟩ = .ok q) ↔ p.Reads := by
  refine ⟨fun ⟨q, hq⟩ => ⟨data, next, behind, q, h, hq⟩, ?_⟩
  rintro ⟨data', next', sp, q, hd, hq⟩
  obtain rfl := Outcome.ok.inj (h.symm.trans hd)
  by_cases hsk : p.type = .SK
  · rw [hsk]
    exact ⟨_, rfl⟩
  by_cases hdel : p.type = .D
  · cases p with
    | d p =>
      obtain ⟨q', hq'⟩ := Delete.unmarshal_encoded h hb ⟨0, 0, 0, []⟩
      exact ⟨.d q', by rw [IKEPayload.type, IKEPayload.new, IKEPayload.unmarshal, hq']; rfl⟩
    | _ => exact absurd hdel (by simp [IKEPayload.type])
  · rw [IKEPayload.new_of_ne_sk next next' hsk]
    exact ⟨q, IKEPayload.unmarshal_spare behind (fun hD => absurd hD hdel) hq⟩

/-! ## chains of payloads -/

/-- a payload that stops the decoder, behind payloads that are read; `spare` octets lie behind the
chain -/
def StopsPeer (spare : Nat) (ps : IKEPayloadContainer) : Prop :=
  ∃ pre p post rest, ps = pre ++ p :: post ∧ IKEPayloadContainer.encode post = .ok rest ∧
    p.StopsPeer (rest.length + spare) ∧ ∀ q ∈ pre, q.Reads

theorem not_stopsPeer_nil (spare : Nat) : ¬ StopsPeer spare [] := by
  rintro ⟨pre, p, post, rest, h, _⟩
  exact absurd h (by simp)

theorem stopsPeer_cons {spare : Nat} {p : IKEPayload} {ps : IKEPayloadContainer} {rest : Bytes}
    (h : IKEPayloadContainer.encode ps = .ok rest) :
    StopsPeer spare (p :: ps) ↔ p.StopsPeer (rest.length + spare) ∨ p.Reads ∧ StopsPeer spare ps := by
  constructor
  · rintro ⟨pre, q, post, r, he, hr, hq, hpre⟩
    cases pre with
    | nil =>
      obtain ⟨rfl, rfl⟩ := List.cons.inj he
      obtain rfl := Outcome.ok.inj (h.symm.trans hr)
      exact .inl hq
    | cons s pre =>
      obtain ⟨rfl, rfl⟩ := List.cons.inj he
      obtain ⟨hs, hpre⟩ := List.forall_mem_cons.mp hpre
      exact .inr ⟨hs, pre, q, post, r, rfl, hr, hq, hpre⟩
  · rintro (hp | ⟨hp, pre, q, post, r, rfl, hr, hq, hpre⟩)
    · exact ⟨[], p, ps, rest, rfl, h, hp, fun q hq => absurd hq (by simp)⟩
    · exact ⟨p :: pre, q, post, r, rfl, hr, hq, List.forall_mem_cons.mpr ⟨hp, hpre⟩⟩

/-- **When the decoder returns on what the encoder wrote.** -/
theorem decode_encoded_returns_iff {ps : IKEPayloadContainer} {b : Bytes}
    (h : IKEPayloadContainer.encode ps = .ok b) (acc : IKEPayloadContainer) (sp : Bytes) :
    (IKEPayloadContainer.decode acc (IKEPayloadContainer.firstType ps) ⟨b, sp⟩).returns ↔
      ¬ StopsPeer sp.length ps := by
  induction ps generalizing b acc with
  | nil =>
    obtain rfl := Outcome.ok.inj h
    rw [IKEPayloadContainer.decode_nil]
    exact iff_of_true trivial (not_stopsPeer_nil _)
  | cons p ps ih =>
    obtain ⟨data, rest, hd, hlen, hr, rfl⟩ := IKEPayloadContainer.encode_cons.mp h
    rw [IKEPayloadContainer.decode_record (IKEPayloadContainer.lenRec_record hlen),
      IKEPayloadContainer.firstType, IkePayloadType.ofCode_code]
    dsimp only
    rw [IKEPayloadContainer.recNext_record, IKEPayloadContainer.recBody_record, Outcome.returns_bind,
      Outcome.returns_wrapf, IKEPayload.unmarshal_crash_iff, crashes_encoded hd, List.length_append,
      stopsPeer_cons hr, not_or]
    refine and_congr_right fun _ => ?_
    simp only [Outcome.wrapf_eq_ok]
    cases ps with
    | nil =>
      obtain rfl := Outcome.ok.inj hr
      refine iff_of_true (fun q _ => ?_) fun hs => not_stopsPeer_nil _ hs.2
      rw [IKEPayloadContainer.decode_nil]
      trivial
    | cons p' ps =>
      have hbehind : 3 ≤ (rest ++ sp).length := by
        obtain ⟨data', rest', _, _, _, rfl⟩ := IKEPayloadContainer.encode_cons.mp hr
        simp only [IKEPayloadContainer.record, List.length_append, List.length_cons, length_putUint16]
        omega
      have hreads := IKEPayload.reads_iff hd (IKEPayloadContainer.nextOctet p (p' :: ps)) hbehind
      rw [← hreads, not_and]
      constructor
      · rintro hall ⟨q, hq⟩
        exact (ih hr (acc ++ [q])).mp (hall q hq)
      · intro hall q hq
        exact (ih hr (acc ++ [q])).mpr (hall ⟨q, hq⟩)

end Ike
