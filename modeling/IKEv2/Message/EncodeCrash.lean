import IKEv2.Eap.Calls
import IKEv2.Message.Header

/-!
# Payloads that stop the encoder

The encoder of a Delete payload writes each SPI with `PutUint32` into a buffer of `SPISize` octets,
and stops the program if the buffer has less than four.  The encoder of an EAP-AKA' packet looks each
type of the order up in the map, and stops the program if it is not there.  All other encoders return,
with octets or with an error.

* `IKEPayload.marshal_crash_iff`             a payload;
* `IKEPayloadContainer.encode_returns_iff`   a chain of payloads;
* `IKEMessage.encode_returns_iff`            a message;
* `stops_of_decoded`                         what was decoded stops the encoder only as a Delete payload.
-/

set_option linter.unusedVariables false

namespace Ike
open GoLang

/-! ## Delete payloads and EAP-AKA' packets -/

/-- SPIs that do not fit into the announced size -/
def Delete.Narrow (d : Delete) : Prop :=
  d.spis.length = d.numberOfSPI.toNat ∧ d.spis ≠ [] ∧ d.spiSize.toNat < 4

theorem Delete.marshal_crash_iff (d : Delete) : d.marshal.returns ↔ ¬ d.Narrow := by
  unfold Delete.marshal
  by_cases hn : d.spis.length = d.numberOfSPI.toNat
  · rw [if_neg (not_not_intro hn)]
    cases hs : d.spis with
    | nil =>
      have hz : d.numberOfSPI.toNat = 0 := by rw [← hn, hs]; rfl
      rw [if_neg (by omega)]
      exact iff_of_true trivial fun h => h.2.1 hs
    | cons v vs =>
      have hpos : d.numberOfSPI.toNat > 0 := by
        rw [← hn, hs, List.length_cons]
        omega
      rw [if_pos hpos]
      by_cases h4 : 4 ≤ d.spiSize.toNat
      · rw [putSPIs_wide _ _ (by simpa using h4)]
        exact iff_of_true trivial fun h => absurd h.2.2 (Nat.not_lt.mpr h4)
      · rw [putSPIs_narrow _ _ _ (by simp; omega)]
        exact iff_of_false id (not_not_intro ⟨hn, by simp [hs], Nat.lt_of_not_le h4⟩)
  · rw [if_pos hn]
    exact iff_of_true trivial fun h => hn h.1

/-- the order of the attributes names one that is not in the map -/
def EapAkaPrime.Dangling (d : EapAkaPrime) : Prop :=
  ∃ t ∈ d.getAttrsKeys, d.lookup t = none

theorem attrOctets_returns_iff (d : EapAkaPrime) (t : UInt8) :
    (d.attrOctets t).returns ↔ d.lookup t ≠ none := by
  unfold EapAkaPrime.attrOctets
  cases d.lookup t with
  | none => exact iff_of_false id (not_not_intro rfl)
  | some a => exact iff_of_true trivial (by simp)

theorem attrOctets_ne_err (d : EapAkaPrime) (t : UInt8) (e : GoError) : d.attrOctets t ≠ .err e := by
  unfold EapAkaPrime.attrOctets
  cases d.lookup t <;> simp

theorem EapAkaPrime.marshal_crash_iff (d : EapAkaPrime) : d.marshal.returns ↔ ¬ d.Dangling := by
  unfold EapAkaPrime.marshal
  rw [Outcome.returns_bind, emitAll_returns_iff (attrOctets_ne_err d)]
  refine (and_iff_left fun _ _ => trivial).trans ⟨?_, ?_⟩
  · rintro h ⟨t, ht, hnone⟩
    exact (attrOctets_returns_iff d t).mp (h t ht) hnone
  · intro h t ht
    exact (attrOctets_returns_iff d t).mpr fun hnone => h ⟨t, ht, hnone⟩

/-- not after calls of the package -/
theorem EapAkaPrime.Consistent.not_dangling {d : EapAkaPrime} (h : d.Consistent) : ¬ d.Dangling := by
  rintro ⟨t, ht, hnone⟩
  have hsome := (h.keys.2 t).mp ht
  rw [hnone] at hsome
  exact absurd hsome (by simp)

/-! ## the encoders that return -/

theorem Transform.marshal_returns (last : Bool) (t : Transform) : (t.marshal last).returns := by
  have hdata : t.attributeData.returns := by
    unfold Transform.attributeData
    split
    · split
      · split
        · trivial
        · split <;> trivial
      · trivial
    · trivial
  refine Outcome.returns_bind.mpr ⟨hdata, fun d _ => ?_⟩
  dsimp only
  split <;> trivial

theorem Proposal.marshal_returns (last : Bool) (p : Proposal) : (p.marshal last).returns := by
  unfold Proposal.marshal
  split
  · trivial
  split
  · trivial
  split
  · trivial
  refine Outcome.returns_bind.mpr ⟨emitLast_returns Transform.marshal_returns, fun d _ => ?_⟩
  dsimp only
  split <;> trivial

theorem IndividualTrafficSelector.marshal_returns (ts : IndividualTrafficSelector) :
    ts.marshal.returns := by
  have hrange : ∀ text size, (rangeMarshal text size ts).returns := by
    intro text size
    unfold rangeMarshal
    split
    · trivial
    split
    · trivial
    dsimp only
    split <;> trivial
  unfold IndividualTrafficSelector.marshal
  split
  · exact hrange ..
  split
  · exact hrange ..
  · trivial

theorem tsMarshal_returns (text : String) (tss : List IndividualTrafficSelector) :
    (tsMarshal text tss).returns := by
  unfold tsMarshal
  split
  · trivial
  split
  · trivial
  refine Outcome.returns_bind.mpr ⟨emitAll_returns fun ts _ => ts.marshal_returns, ?_⟩
  exact fun _ _ => trivial

theorem Configuration.marshal_returns (c : Configuration) : c.marshal.returns := by
  refine Outcome.returns_bind.mpr ⟨emitAll_returns fun a _ => ?_, fun _ _ => trivial⟩
  unfold IndividualConfigurationAttribute.marshal
  split <;> trivial

theorem Notification.marshal_returns (p : Notification) : p.marshal.returns := by
  unfold Notification.marshal
  split <;> trivial

theorem typedMarshal_returns (type : UInt8) (empty : String) (data : Bytes) :
    (typedMarshal type empty data).returns := by
  unfold typedMarshal
  split <;> trivial

theorem EapMD5.marshal_returns (e : EapMD5) : e.marshal.returns := by
  unfold EapMD5.marshal
  split
  · trivial
  split <;> trivial

/-! ## payloads -/

/-- the EAP packets and payloads on which the encoder stops the program -/
def EAP.Stops (e : EAP) : Prop :=
  ∃ d, e.eapTypeData = some (.akaPrime d) ∧ d.Dangling

def IKEPayload.Stops : IKEPayload → Prop
  | .d p => p.Narrow
  | .eap p => p.Stops
  | _ => False

theorem EapTypeData.marshal_crash_iff (t : EapTypeData) :
    t.marshal.returns ↔ ¬ ∃ d, t = .akaPrime d ∧ d.Dangling := by
  have hnever : ∀ {x : Outcome Bytes}, x.returns → (∀ d, t ≠ .akaPrime d) →
      (x.returns ↔ ¬ ∃ d, t = .akaPrime d ∧ d.Dangling) :=
    fun hx ht => iff_of_true hx fun ⟨d, hd, _⟩ => ht d hd
  cases t with
  | identity d => exact hnever (typedMarshal_returns ..) fun _ => by simp
  | notification d => exact hnever (typedMarshal_returns ..) fun _ => by simp
  | nak d => exact hnever (typedMarshal_returns ..) fun _ => by simp
  | md5 d => exact hnever d.marshal_returns fun _ => by simp
  | expanded d => exact hnever trivial fun _ => by simp
  | akaPrime d =>
    refine d.marshal_crash_iff.trans (not_congr ⟨fun h => ⟨d, rfl, h⟩, ?_⟩)
    rintro ⟨d', hd, h⟩
    obtain rfl := EapTypeData.akaPrime.inj hd
    exact h

theorem EAP.marshal_crash_iff (e : EAP) : e.marshal.returns ↔ ¬ e.Stops := by
  have hlen : ∀ x : Bytes, (if 4 + x.length > 65535 then
      fail s!"eap packet length overflow: {4 + x.length}" else
      pure ([e.code, e.identifier] ++ putUint16 (UInt16.ofNat (4 + x.length)) ++ x) :
        Outcome Bytes).returns := by
    intro x
    split <;> trivial
  unfold EAP.marshal EAP.Stops
  cases e.eapTypeData with
  | none => exact iff_of_true (hlen []) fun ⟨d, hd, _⟩ => absurd hd (by simp)
  | some t =>
    refine (Outcome.returns_bind.trans (and_iff_left fun x _ => hlen x)).trans ?_
    rw [Outcome.returns_wrapf, t.marshal_crash_iff]
    simp only [Option.some.injEq]

/-- **When the encoder of a payload returns.** -/
theorem IKEPayload.marshal_crash_iff (p : IKEPayload) : p.marshal.returns ↔ ¬ p.Stops := by
  have hnever : ∀ {x : Outcome Bytes}, x.returns → (x.returns ↔ ¬ False) :=
    fun hx => iff_of_true hx id
  cases p with
  | d p => exact p.marshal_crash_iff
  | eap p => exact p.marshal_crash_iff
  | sa p => exact hnever (emitLast_returns Proposal.marshal_returns)
  | n p => exact hnever p.marshal_returns
  | tsi p => exact hnever (tsMarshal_returns ..)
  | tsr p => exact hnever (by rw [IKEPayload.marshal, p.marshal_eq]; exact tsMarshal_returns ..)
  | cp p => exact hnever p.marshal_returns
  | sk p =>
    refine hnever ?_
    show p.marshal.returns
    unfold Encrypted.marshal
    split <;> trivial
  | ke p => exact hnever trivial
  | idi p => exact hnever trivial
  | idr p => exact hnever trivial
  | cert p => exact hnever trivial
  | certreq p => exact hnever trivial
  | auth p => exact hnever trivial
  | nonce p => exact hnever trivial
  | v p => exact hnever trivial

/-! ## chains of payloads -/

/-- payloads that are encoded, and behind them one on which its encoder stops the program -/
def EncodeCrash (ps : IKEPayloadContainer) : Prop :=
  ∃ pre p post, ps = pre ++ p :: post ∧ p.Stops ∧
    ∀ q ∈ pre, ∃ data, q.marshal = .ok data ∧ 4 + data.length ≤ 65535

theorem not_encodeCrash_nil : ¬ EncodeCrash [] := by
  rintro ⟨pre, p, post, h, _⟩
  exact absurd h (by simp)

theorem encodeCrash_cons {p : IKEPayload} {ps : IKEPayloadContainer} :
    EncodeCrash (p :: ps) ↔ p.Stops ∨
      (∃ data, p.marshal = .ok data ∧ 4 + data.length ≤ 65535) ∧ EncodeCrash ps := by
  constructor
  · rintro ⟨pre, q, post, h, hq, hpre⟩
    cases pre with
    | nil =>
      obtain ⟨rfl, rfl⟩ := List.cons.inj h
      exact .inl hq
    | cons r pre =>
      obtain ⟨rfl, rfl⟩ := List.cons.inj h
      exact .inr ⟨hpre _ (List.mem_cons_self ..), pre, q, post, rfl, hq,
        fun s hs => hpre s (List.mem_cons_of_mem _ hs)⟩
  · rintro (hp | ⟨hp, pre, q, post, rfl, hq, hpre⟩)
    · exact ⟨[], p, ps, rfl, hp, fun q hq => absurd hq (by simp)⟩
    · refine ⟨p :: pre, q, post, rfl, hq, fun s hs => ?_⟩
      rcases List.mem_cons.mp hs with rfl | hs
      · exact hp
      · exact hpre s hs

/-- **When the encoder of a chain returns.** -/
theorem IKEPayloadContainer.encode_returns_iff (ps : IKEPayloadContainer) :
    ps.encode.returns ↔ ¬ EncodeCrash ps := by
  induction ps with
  | nil => exact iff_of_true trivial not_encodeCrash_nil
  | cons p ps ih =>
    rw [IKEPayloadContainer.encode, encodeCrash_cons, not_or, Outcome.returns_bind,
      Outcome.returns_wrapf, p.marshal_crash_iff]
    refine and_congr_right fun _ => ?_
    simp only [Outcome.wrapf_eq_ok]
    constructor
    · rintro h ⟨⟨data, hdata, hfits⟩, hrest⟩
      have h := h data hdata
      rw [if_neg (Nat.not_lt.mpr hfits), Outcome.returns_bind] at h
      exact ih.mp h.1 hrest
    · intro h data hdata
      split
      · trivial
      next hfits =>
      refine Outcome.returns_bind.mpr ⟨ih.mpr fun hrest => h ⟨⟨data, hdata, ?_⟩, hrest⟩, ?_⟩
      · exact Nat.not_lt.mp hfits
      · exact fun _ _ => trivial

/-- **When the encoder of a message returns.** -/
theorem IKEMessage.encode_returns_iff (m : IKEMessage) :
    (IKEMessage.encode m).1.returns ↔ ¬ EncodeCrash m.payloads := by
  rw [← IKEPayloadContainer.encode_returns_iff]
  unfold IKEMessage.encode
  cases m.payloads.encode with
  | ok b =>
    refine iff_of_true ?_ trivial
    show (IKEHeader.marshal _).returns
    unfold IKEHeader.marshal
    dsimp only
    split <;> trivial
  | err e => exact iff_of_true trivial trivial
  | panic p => exact iff_of_false id id

/-! ## what was decoded -/

theorem EapTypeData.unmarshal_consistent {t : UInt8} {b : Slice UInt8} {d : EapAkaPrime}
    (h : EapTypeData.unmarshal t b = .ok (.akaPrime d)) : d.Consistent := by
  have hother : ∀ {α : Type} {f : α → EapTypeData} {x : Outcome α},
      f <$> x = .ok (.akaPrime d) → ∃ a, f a = .akaPrime d := by
    intro α f x hx
    obtain ⟨a, _, ha⟩ := Outcome.map_eq_ok.mp hx
    exact ⟨a, ha⟩
  unfold EapTypeData.unmarshal at h
  split at h
  · exact absurd (hother h) (by simp)
  split at h
  · exact absurd (hother h) (by simp)
  split at h
  · exact absurd (hother h) (by simp)
  split at h
  · exact absurd (hother h) (by simp)
  split at h
  · obtain ⟨_, hd⟩ := hother h
    obtain rfl := EapTypeData.akaPrime.inj hd
    exact consistent_unmarshal b.data _ consistent_zero
  · exact absurd (hother h) (by simp)

theorem EAP.not_stops_of_decoded {b sp : Bytes} {e : EAP}
    (h : EAP.unmarshal EAP.zero ⟨b, sp⟩ = .ok e) : ¬ e.Stops := by
  rintro ⟨d, hd, hdangling⟩
  rcases EAP.unmarshal_iff.mp h with ⟨_, rfl⟩ | ⟨code, identifier, body, _, _, hbody⟩
  · exact absurd hd (by simp [EAP.zero])
  rcases hbody with ⟨_, _, _, rfl⟩ | ⟨t, rest, d', _, _, hd', rfl⟩
  · exact absurd hd (by simp [EAP.zero])
  · obtain rfl := Option.some.inj hd
    exact (EapTypeData.unmarshal_consistent hd').not_dangling hdangling

theorem IKEPayload.stops_of_decoded {next : UInt8} {t : IkePayloadType} {body sp : Bytes}
    {p : IKEPayload} (h : (IKEPayload.new next t).unmarshal ⟨body, sp⟩ = .ok p) (hs : p.Stops) :
    ∃ d, p = .d d ∧ d.Narrow := by
  cases p with
  | d p => exact ⟨p, rfl, hs⟩
  | eap e =>
    obtain rfl : t = .EAP := (IKEPayload.type_of_unmarshal h).symm
    obtain ⟨e', he, hp⟩ := Outcome.map_eq_ok.mp h
    obtain rfl := IKEPayload.eap.inj hp
    exact absurd hs (EAP.not_stops_of_decoded he)
  | _ => exact hs.elim

/-- **What was decoded stops the encoder only as a Delete payload** with SPIs in fewer than four
octets. -/
theorem stops_of_decoded {sp : Bytes} {n n' : UInt8} {as : List Bytes} {ps : IKEPayloadContainer}
    (h : PayloadChain sp n as ps n') (hcrash : EncodeCrash ps) : ∃ d, .d d ∈ ps ∧ d.Narrow := by
  induction h with
  | nil n => exact absurd hcrash not_encodeCrash_nil
  | skip _ _ _ _ ih => exact ih hcrash
  | payload _ _ hp _ ih =>
    rcases encodeCrash_cons.mp hcrash with hs | ⟨_, hrest⟩
    · obtain ⟨d, rfl, hd⟩ := IKEPayload.stops_of_decoded hp hs
      exact ⟨d, List.mem_cons_self .., hd⟩
    · obtain ⟨d, hmem, hd⟩ := ih hrest
      exact ⟨d, List.mem_cons_of_mem _ hmem, hd⟩

end Ike
