import IKEv2.Message.Container

/-!
# Unknown payloads in a chain

The type of a record stands in the record in front of it, so a chain is given by its records and by
the octet that the last of them announces.  `Inserts ks rs`: `rs` is the chain `ks` of known records
with records of unknown types put in, at any places; the next-payload octets follow from the list.

The decoder skips what is not critical.  But a Delete payload that ends inside an SPI reads on behind
its record, and so the payloads of a chain can depend on what was put in.

* `unknown_transparent_iff`   the chains that are decoded as if nothing had been put in.
-/

set_option linter.unusedVariables false

namespace Ike
open GoLang

/-! ## chains -/

/-- a record without its next-payload octet -/
structure ChainRecord where
  type : UInt8
  flags : UInt8
  body : Bytes
  fits : 4 + body.length ≤ 65535

namespace ChainRecord

/-- the record in front of one of type `next` -/
def octets (r : ChainRecord) (next : UInt8) : Bytes :=
  [next, r.flags] ++ putUint16 (UInt16.ofNat (4 + r.body.length)) ++ r.body

def Unknown (r : ChainRecord) : Prop := ¬ (33 ≤ r.type.toNat ∧ r.type.toNat ≤ 48)

/-- a known type other than SK -/
def Known (r : ChainRecord) : Prop := 33 ≤ r.type.toNat ∧ r.type.toNat ≤ 48 ∧ r.type ≠ 46

def Critical (r : ChainRecord) : Prop := 128 ≤ r.flags.toNat

instance (r : ChainRecord) : Decidable r.Unknown := inferInstanceAs (Decidable (¬ _))
instance (r : ChainRecord) : Decidable r.Critical := inferInstanceAs (Decidable (_ ≤ _))

/-- a Delete payload consists of whole groups of four octets -/
def Whole (r : ChainRecord) : Prop :=
  r.type = IkePayloadType.D.code → r.body.length % 4 = 0

/-- what the record is read as, with these octets behind it -/
def read (r : ChainRecord) (behind : Bytes) : Option IKEPayload :=
  (IkePayloadType.ofCode r.type).bind fun t =>
    ((IKEPayload.new 0 t).unmarshal ⟨r.body, behind⟩).value

/-- refused, whatever is behind it -/
def Refused (r : ChainRecord) : Prop := ∀ behind, r.read behind = none

theorem ofCode_of_unknown {r : ChainRecord} : r.Unknown ↔ IkePayloadType.ofCode r.type = none := by
  have hall : ∀ n < 256, (¬ (33 ≤ n ∧ n ≤ 48) ↔ IkePayloadType.ofCode (UInt8.ofNat n) = none) := by
    decide +kernel
  have h := hall r.type.toNat r.type.toNat_lt
  rw [UInt8.ofNat_toNat] at h
  exact h

theorem ofCode_of_known {r : ChainRecord} (h : r.Known) :
    ∃ t, IkePayloadType.ofCode r.type = some t ∧ t ≠ .SK ∧ t.code = r.type := by
  cases ht : IkePayloadType.ofCode r.type with
  | none => exact absurd ⟨h.1, h.2.1⟩ (ofCode_of_unknown.mpr ht)
  | some t =>
    have hcode := IkePayloadType.code_of_ofCode ht
    refine ⟨t, rfl, ?_, hcode.symm⟩
    rintro rfl
    exact h.2.2 hcode

theorem lenRec_octets (r : ChainRecord) (next : UInt8) : LenRec 4 (r.octets next) := by
  have hl : (r.octets next).length = 4 + r.body.length := by
    simp only [octets, List.length_append, List.length_cons, List.length_nil, length_putUint16]
  have hfits := r.fits
  refine ⟨by omega, ?_⟩
  show lenField (next :: r.flags :: (putUint16 _ ++ r.body)) = _
  rw [lenField_put, UInt16.toNat_ofNat_of_lt' (show 4 + r.body.length < 65536 by omega), hl]

theorem recNext_octets (r : ChainRecord) (next : UInt8) : recNext (r.octets next) = next := rfl

theorem recBody_octets (r : ChainRecord) (next : UInt8) : recBody (r.octets next) = r.body :=
  List.drop_left' rfl

theorem recCritical_octets (r : ChainRecord) (next : UInt8) :
    recCritical (r.octets next) = decide r.Critical := rfl

end ChainRecord

/-- the type that is announced in front of a chain; `last` is the octet at its end -/
def announced (last : UInt8) : List ChainRecord → UInt8
  | [] => last
  | r :: _ => r.type

def chainOctets (last : UInt8) : List ChainRecord → Bytes
  | [] => []
  | r :: rs => r.octets (announced last rs) ++ chainOctets last rs

def decodeChain (last : UInt8) (sp : Bytes) (rs : List ChainRecord) : Outcome IKEPayloadContainer :=
  IKEPayloadContainer.decode [] (announced last rs) ⟨chainOctets last rs, sp⟩

inductive Inserts : List ChainRecord → List ChainRecord → Prop
  | nil : Inserts [] []
  | keep {k : ChainRecord} {ks rs : List ChainRecord} (hk : k.Known) (h : Inserts ks rs) :
      Inserts (k :: ks) (k :: rs)
  | insert {r : ChainRecord} {ks rs : List ChainRecord} (hr : r.Unknown) (h : Inserts ks rs) :
      Inserts ks (r :: rs)

/-! ## one record -/

namespace ChainRecord

theorem read_eq_some {r : ChainRecord} {t : IkePayloadType} (ht : IkePayloadType.ofCode r.type = some t)
    {behind : Bytes} {p : IKEPayload} :
    r.read behind = some p ↔ (IKEPayload.new 0 t).unmarshal ⟨r.body, behind⟩ = .ok p := by
  rw [read, ht, Option.bind_some]
  cases (IKEPayload.new 0 t).unmarshal ⟨r.body, behind⟩ <;> simp [Outcome.value]

/-- only a Delete payload that ends inside an SPI looks behind its record -/
theorem read_whole {r : ChainRecord} (hk : r.Known) (hw : r.Whole) (s s' : Bytes) :
    r.read s = r.read s' := by
  obtain ⟨t, ht, _, hcode⟩ := ofCode_of_known hk
  have hD : t = .D → r.body.length % 4 = 0 := fun h => hw (by rw [← hcode, h])
  ext p
  rw [read_eq_some ht, read_eq_some ht]
  exact ⟨IKEPayload.unmarshal_spare s' hD, IKEPayload.unmarshal_spare s hD⟩

theorem read_uneven {r : ChainRecord} (hw : ¬ r.Whole) {s0 : Bytes} {p0 : IKEPayload}
    (h : r.read s0 = some p0) {s : Bytes} (hs : 3 ≤ s.length) :
    ∃ d, r.read s = some (.d d) ∧
      d.spis.flatMap putUint32 = r.body.drop 4 ++ s.take (4 - r.body.length % 4) := by
  obtain ⟨hD, h4⟩ := Classical.not_imp.mp hw
  have ht : IkePayloadType.ofCode r.type = some .D := by rw [hD]; rfl
  obtain ⟨d0, hd0, _⟩ := Outcome.map_eq_ok.mp ((read_eq_some ht).mp h)
  obtain ⟨d, hd, hspis⟩ := Delete.unmarshal_behind h4 hd0 hs
  exact ⟨d, (read_eq_some ht).mpr (Outcome.map_eq_ok.mpr ⟨d, hd, rfl⟩), hspis⟩

/-- a record that is read at all is read with three octets behind it -/
theorem read_behind {r : ChainRecord} (hk : r.Known) {s0 : Bytes} {p0 : IKEPayload}
    (h : r.read s0 = some p0) {s : Bytes} (hs : 3 ≤ s.length) : ∃ p, r.read s = some p := by
  by_cases hw : r.Whole
  · exact ⟨p0, (read_whole hk hw s s0).trans h⟩
  · obtain ⟨d, hd, _⟩ := read_uneven hw h hs
    exact ⟨_, hd⟩

/-- the first octet behind the record is seen -/
theorem read_uneven_inj {r : ChainRecord} (hw : ¬ r.Whole) {u u' : UInt8} {s s' : Bytes}
    {p : IKEPayload} (hs : 2 ≤ s.length) (hs' : 2 ≤ s'.length) (h : r.read (u :: s) = some p)
    (h' : r.read (u' :: s') = some p) : u = u' := by
  obtain ⟨d, hd, hspis⟩ := read_uneven hw h (show 3 ≤ (u :: s).length by simp; omega)
  obtain ⟨d', hd', hspis'⟩ := read_uneven hw h (show 3 ≤ (u' :: s').length by simp; omega)
  obtain rfl : d = d' := by
    have he : IKEPayload.d d = .d d' :=
      Option.some.inj ((hd.symm.trans h).trans (h'.symm.trans hd'))
    injection he
  obtain ⟨n, hn⟩ : ∃ n, 4 - r.body.length % 4 = n + 1 :=
    ⟨4 - r.body.length % 4 - 1, by omega⟩
  have htake := List.append_cancel_left (hspis.symm.trans hspis')
  rw [hn, List.take_succ_cons, List.take_succ_cons] at htake
  exact (List.cons.inj htake).1

end ChainRecord

/-! ## a chain -/

/-- the payloads of a chain, `none` when the decoder fails -/
def chainPayloads (last : UInt8) (sp : Bytes) : List ChainRecord → Option IKEPayloadContainer
  | [] => some []
  | r :: rs =>
    if r.Unknown then if r.Critical then none else chainPayloads last sp rs
    else (r.read (chainOctets last rs ++ sp)).bind fun p =>
      (chainPayloads last sp rs).map fun ps => p :: ps

theorem chainPayloads_known {last : UInt8} {sp : Bytes} {r : ChainRecord} (hk : r.Known)
    (rs : List ChainRecord) :
    chainPayloads last sp (r :: rs) = (r.read (chainOctets last rs ++ sp)).bind fun p =>
      (chainPayloads last sp rs).map fun ps => p :: ps :=
  if_neg (not_not_intro ⟨hk.1, hk.2.1⟩)

theorem chainPayloads_skip {last : UInt8} {sp : Bytes} {r : ChainRecord} (hu : r.Unknown)
    (hc : ¬ r.Critical) (rs : List ChainRecord) :
    chainPayloads last sp (r :: rs) = chainPayloads last sp rs :=
  (if_pos hu).trans (if_neg hc)

theorem decode_chain {last : UInt8} {sp : Bytes} {ks rs : List ChainRecord} (h : Inserts ks rs)
    (acc : IKEPayloadContainer) :
    (IKEPayloadContainer.decode acc (announced last rs) ⟨chainOctets last rs, sp⟩).value =
      (chainPayloads last sp rs).map fun ps => acc ++ ps := by
  induction h generalizing acc with
  | nil =>
    rw [chainOctets, IKEPayloadContainer.decode_nil]
    simp [chainPayloads, Outcome.value]
  | @keep r ks rs hk h ih =>
    obtain ⟨t, ht, hsk, _⟩ := r.ofCode_of_known hk
    rw [chainOctets, IKEPayloadContainer.decode_record (r.lenRec_octets _), chainPayloads_known hk,
      announced, ht, r.recNext_octets, r.recBody_octets, ChainRecord.read, ht, Option.bind_some]
    dsimp only
    rw [IKEPayload.new_of_ne_sk _ 0 hsk]
    cases (IKEPayload.new 0 t).unmarshal ⟨r.body, chainOctets last rs ++ sp⟩ with
    | ok p =>
      show (IKEPayloadContainer.decode (acc ++ [p]) _ _).value = _
      rw [ih]
      cases chainPayloads last sp rs <;> simp [Outcome.value]
    | err e => rfl
    | panic p => rfl
  | @insert r ks rs hu h ih =>
    rw [chainOctets, IKEPayloadContainer.decode_record (r.lenRec_octets _), announced,
      ChainRecord.ofCode_of_unknown.mp hu, r.recCritical_octets, r.recNext_octets]
    by_cases hc : r.Critical
    · rw [chainPayloads, if_pos hu, if_pos hc]
      simp only [decide_eq_true hc]
      rfl
    · rw [chainPayloads_skip hu hc, ← ih]
      simp only [decide_eq_false hc]
      rfl

theorem decodeChain_value {last : UInt8} {sp : Bytes} {ks rs : List ChainRecord}
    (h : Inserts ks rs) : (decodeChain last sp rs).value = chainPayloads last sp rs := by
  rw [decodeChain, decode_chain h]
  simp

theorem chainPayloads_critical {last : UInt8} {sp : Bytes} {rs : List ChainRecord}
    (h : ∃ r ∈ rs, r.Unknown ∧ r.Critical) : chainPayloads last sp rs = none := by
  induction rs with
  | nil => exact absurd h (by simp)
  | cons r rs ih =>
    obtain ⟨x, hx, hu, hc⟩ := h
    rw [chainPayloads]
    rcases List.mem_cons.mp hx with rfl | hx
    · rw [if_pos hu, if_pos hc]
    · rw [ih ⟨x, hx, hu, hc⟩]
      simp

theorem chainPayloads_refused {last : UInt8} {sp : Bytes} {ks rs : List ChainRecord}
    (hi : Inserts ks rs) (h : ∃ k ∈ ks, k.Refused) : chainPayloads last sp rs = none := by
  induction hi with
  | nil => exact absurd h (by simp)
  | @keep r ks rs hk _ ih =>
    obtain ⟨x, hx, href⟩ := h
    rw [chainPayloads_known hk]
    rcases List.mem_cons.mp hx with rfl | hx
    · rw [href]
      rfl
    · rw [ih ⟨x, hx, href⟩]
      cases r.read (chainOctets last rs ++ sp) <;> rfl
  | @insert r ks rs hu _ ih =>
    rw [chainPayloads, ih h]
    simp [hu]

/-- whole Delete payloads: what is put in leaves no trace -/
theorem chainPayloads_inserts {last : UInt8} {sp : Bytes} {ks rs : List ChainRecord}
    (hi : Inserts ks rs) (hc : ∀ r ∈ rs, r.Unknown → ¬ r.Critical) (hw : ∀ k ∈ ks, k.Whole) :
    chainPayloads last sp rs = chainPayloads last sp ks := by
  induction hi with
  | nil => rfl
  | @keep r ks rs hk _ ih =>
    rw [chainPayloads_known hk, chainPayloads_known hk,
      ih (fun x hx => hc x (List.mem_cons_of_mem _ hx)) fun x hx => hw x (List.mem_cons_of_mem _ hx),
      r.read_whole hk (hw r (List.mem_cons_self ..)) _ (chainOctets last ks ++ sp)]
  | @insert r ks rs hu _ ih =>
    rw [chainPayloads_skip hu (hc r (List.mem_cons_self ..) hu)]
    exact ih (fun x hx => hc x (List.mem_cons_of_mem _ hx)) hw

theorem inserts_self {ks : List ChainRecord} (hk : ∀ k ∈ ks, k.Known) : Inserts ks ks := by
  induction ks with
  | nil => exact .nil
  | cons k ks ih =>
    exact .keep (hk k (List.mem_cons_self ..)) (ih fun x hx => hk x (List.mem_cons_of_mem _ hx))

/-! ## a chain with two records behind each of its own -/

/-- a record that is skipped -/
def spacer (type : UInt8) : ChainRecord := ⟨type, 0, [], by decide⟩

/-- behind each record one of type 200 and one of type `u`: the octet behind the record is `u` -/
def spread (u : UInt8) : List ChainRecord → List ChainRecord
  | [] => []
  | k :: ks => k :: spacer 200 :: spacer u :: spread u ks

theorem spacer_octets (t u : UInt8) (rest : Bytes) :
    ∃ s, 2 ≤ s.length ∧ (spacer t).octets u ++ rest = u :: s := by
  refine ⟨0 :: (putUint16 (UInt16.ofNat 4) ++ rest), ?_, ?_⟩
  · rw [List.length_cons, List.length_append, length_putUint16]
    omega
  · simp [spacer, ChainRecord.octets]

theorem not_critical_spacer (t : UInt8) : ¬ (spacer t).Critical := by
  show ¬ 128 ≤ (0 : UInt8).toNat
  decide

theorem inserts_spread {u : UInt8} (hu : (spacer u).Unknown) {ks : List ChainRecord}
    (hk : ∀ k ∈ ks, k.Known) : Inserts ks (spread u ks) := by
  induction ks with
  | nil => exact .nil
  | cons k ks ih =>
    refine .keep (hk k (List.mem_cons_self ..)) (.insert (by decide) (.insert hu ?_))
    exact ih fun x hx => hk x (List.mem_cons_of_mem _ hx)

theorem spread_uncritical {u : UInt8} {ks : List ChainRecord} (hk : ∀ k ∈ ks, k.Known) :
    ∀ r ∈ spread u ks, r.Unknown → ¬ r.Critical := by
  induction ks with
  | nil => exact fun r hr => absurd hr (by simp [spread])
  | cons k ks ih =>
    intro r hr hun
    simp only [spread, List.mem_cons] at hr
    rcases hr with rfl | rfl | rfl | hr
    · have hknown := hk r (List.mem_cons_self ..)
      exact absurd ⟨hknown.1, hknown.2.1⟩ hun
    · exact not_critical_spacer 200
    · exact not_critical_spacer u
    · exact ih (fun x hx => hk x (List.mem_cons_of_mem _ hx)) r hr hun

/-- every record is read, with `u` behind it -/
theorem chainPayloads_spread {u : UInt8} (hu : (spacer u).Unknown)
    {ks : List ChainRecord} (hk : ∀ k ∈ ks, k.Known) (hr : ∀ k ∈ ks, ¬ k.Refused)
    (last : UInt8) (sp : Bytes) :
    ∃ ps, chainPayloads last sp (spread u ks) = some ps ∧
      List.Forall₂ (fun k p => ∃ s, 2 ≤ s.length ∧ k.read (u :: s) = some p) ks ps := by
  induction ks with
  | nil => exact ⟨[], rfl, .nil⟩
  | cons k ks ih =>
    obtain ⟨ps, hps, hall⟩ := ih (fun x hx => hk x (List.mem_cons_of_mem _ hx))
      fun x hx => hr x (List.mem_cons_of_mem _ hx)
    obtain ⟨s0, hs0⟩ := not_forall.mp (hr k (List.mem_cons_self ..))
    obtain ⟨p0, hp0⟩ := Option.ne_none_iff_exists'.mp hs0
    obtain ⟨s, hs, hbehind⟩ := spacer_octets 200 u (chainOctets last (spacer u :: spread u ks) ++ sp)
    have hkn := hk k (List.mem_cons_self ..)
    obtain ⟨p, hp⟩ := k.read_behind hkn hp0 (show 3 ≤ (u :: s).length by simp; omega)
    refine ⟨p :: ps, ?_, .cons ⟨s, hs, hp⟩ hall⟩
    rw [spread, chainPayloads_known hkn, chainOctets, List.append_assoc, announced,
      show (spacer u).type = u from rfl, hbehind, hp,
      chainPayloads_skip (by decide) (not_critical_spacer 200),
      chainPayloads_skip hu (not_critical_spacer u), hps]
    rfl

/-! ## the chains in which unknown records leave no trace -/

/-- **Unknown records are skipped**, unless one of them is critical; and they leave no trace iff a
record of the chain is refused in any case, or all its Delete payloads are whole. -/
theorem unknown_transparent_iff (last : UInt8) (sp : Bytes) (ks : List ChainRecord)
    (hk : ∀ k ∈ ks, k.Known) :
    ((∀ rs, Inserts ks rs → (∀ r ∈ rs, r.Unknown → ¬ r.Critical) →
        (decodeChain last sp rs).value = (decodeChain last sp ks).value) ↔
      ((∃ k ∈ ks, k.Refused) ∨ ∀ k ∈ ks, k.Whole)) ∧
    ∀ rs, Inserts ks rs → (∃ r ∈ rs, r.Unknown ∧ r.Critical) →
      ∀ ps, decodeChain last sp rs ≠ .ok ps := by
  have hself := inserts_self hk
  refine ⟨⟨fun h => ?_, fun h rs hi hc => ?_⟩, fun rs hi hc ps hps => ?_⟩
  · by_contra hno
    obtain ⟨hr, hw⟩ := not_or.mp hno
    obtain ⟨k, hkm, hkw⟩ : ∃ k ∈ ks, ¬ k.Whole := by simpa using hw
    have hr' : ∀ k ∈ ks, ¬ k.Refused := fun k hm href => hr ⟨k, hm, href⟩
    have hsame : ∀ u, (spacer u).Unknown →
        chainPayloads last sp (spread u ks) = chainPayloads last sp ks := by
      intro u hu
      have hi := inserts_spread hu hk
      rw [← decodeChain_value hi, ← decodeChain_value hself]
      exact h _ hi (spread_uncritical hk)
    -- the Delete payload shows the octet behind it, and that is 201 or 202
    have h201 : (spacer 201).Unknown := by decide
    have h202 : (spacer 202).Unknown := by decide
    obtain ⟨ps, hps, hall⟩ := chainPayloads_spread h201 hk hr' last sp
    obtain ⟨ps', hps', hall'⟩ := chainPayloads_spread h202 hk hr' last sp
    rw [hsame 201 h201] at hps
    rw [hsame 202 h202, hps] at hps'
    obtain rfl := Option.some.inj hps'
    obtain ⟨p, ⟨s, hs, h1⟩, ⟨s', hs', h2⟩⟩ := forall₂_common hall hall' hkm
    exact absurd (k.read_uneven_inj hkw hs hs' h1 h2) (by decide)
  · rw [decodeChain_value hi, decodeChain_value hself]
    rcases h with href | hw
    · rw [chainPayloads_refused hi href, chainPayloads_refused hself href]
    · exact chainPayloads_inserts hi hc hw
  · have hv : (decodeChain last sp rs).value = _ := decodeChain_value hi
    rw [hps, chainPayloads_critical hc] at hv
    exact absurd hv (by simp [Outcome.value])

/-- a nonce payload behind an unknown record, not critical and critical -/
theorem unknown_transparent_nonce :
    (decodeChain 0 [] [spacer 200, ⟨40, 0, [1, 2, 3], by decide⟩]).value =
        (decodeChain 0 [] [⟨40, 0, [1, 2, 3], by decide⟩]).value ∧
      ∀ ps, decodeChain 0 [] [⟨200, 128, [], by decide⟩, ⟨40, 0, [1, 2, 3], by decide⟩] ≠ .ok ps := by
  have hk : (⟨40, 0, [1, 2, 3], by decide⟩ : ChainRecord).Known := ⟨by decide, by decide, by decide⟩
  obtain ⟨hiff, hcrit⟩ := unknown_transparent_iff 0 [] [⟨40, 0, [1, 2, 3], by decide⟩]
    fun k hm => List.mem_singleton.mp hm ▸ hk
  refine ⟨hiff.mpr (Or.inr fun k hm => ?_) _ (.insert (by decide) (.keep hk .nil)) ?_,
    hcrit _ (.insert (by decide) (.keep hk .nil)) ⟨_, List.mem_cons_self .., by decide, by decide⟩⟩
  · rw [List.mem_singleton.mp hm]
    exact fun h => absurd h (by decide)
  · intro r hr hu
    rcases List.mem_cons.mp hr with rfl | hr
    · exact not_critical_spacer 200
    · exact absurd hu (List.mem_singleton.mp hr ▸ by decide)

/-- a Delete payload with one octet of an SPI: the octets behind it are those of the next record -/
theorem unknown_not_transparent :
    decodeChain 0 [] [⟨42, 0, [1, 0, 0, 0, 9], by decide⟩, ⟨40, 0, [1], by decide⟩] =
        .ok [.d ⟨1, 0, 0, [0x09000000]⟩, .nonce ⟨[1]⟩] ∧
      decodeChain 0 [] [⟨42, 0, [1, 0, 0, 0, 9], by decide⟩, spacer 200, ⟨40, 0, [1], by decide⟩] =
        .ok [.d ⟨1, 0, 0, [0x09280000]⟩, .nonce ⟨[1]⟩] := by
  exact ⟨rfl, rfl⟩

end Ike
