import IKEv2.Eap.Attributes

/-!
# Where the attributes of an EAP-AKA' packet begin and end

Each attribute carries its length, in groups of four octets.  `Rounds` says which octets the rounds of
the decoder's loop take and what they make of them; `FollowsLengths` asks that each round takes one
record, from its type octet to the end that its length octet announces.

The decoder takes two octets of an attribute without a case of its own, four of AT_KDF and
AT_NOTIFICATION whatever their length octet is, and for AT_KDF_INPUT, AT_RES and AT_CHECKCODE what
comes out of its arithmetic in `uint8` and `uint16`.

* `follows_lengths_iff`   the accepted packets whose attributes end where their length octets say.
-/

set_option linter.unusedVariables false

namespace Ike
open GoLang

/-! ## the rounds of the loop -/

/-- the octets that each round takes off `r`, the attribute made of them, and what is left -/
inductive Rounds : Bytes → List (Bytes × EapAkaPrimeAttr) → Bytes → Prop
  | stop {r : Bytes} (h : readAttr r = .ok none) : Rounds r [] r
  | round {piece r tail : Bytes} {a : EapAkaPrimeAttr} {ps : List (Bytes × EapAkaPrimeAttr)}
      (h : readAttr (piece ++ r) = .ok (some (a, r))) (t : Rounds r ps tail) :
      Rounds (piece ++ r) ((piece, a) :: ps) tail

/-- what a round takes and makes of a wire attribute -/
def WireAttr.piece (w : WireAttr) : Bytes × EapAkaPrimeAttr := (w.octets, w.attr)

theorem rounds_iff {r tail : Bytes} {ps : List (Bytes × EapAkaPrimeAttr)} :
    Rounds r ps tail ↔ ∃ ws : List WireAttr, (∀ w ∈ ws, w.Ok) ∧ tail.length ≤ 1 ∧
      r = ws.flatMap WireAttr.octets ++ tail ∧ ps = ws.map WireAttr.piece := by
  constructor
  · intro h
    induction h with
    | stop h => exact ⟨[], by simp, readAttr_none.mp h, rfl, rfl⟩
    | @round piece r tail a ps h _ ih =>
      obtain ⟨ws, hws, ht, hr, rfl⟩ := ih
      obtain ⟨w, hw, hwr, rfl⟩ := readAttr_iff.mp h
      obtain rfl := List.append_cancel_right hwr
      refine ⟨w :: ws, ?_, ht, ?_, rfl⟩
      · exact List.forall_mem_cons.mpr ⟨hw, hws⟩
      · rw [hr, List.flatMap_cons, List.append_assoc]
  · intro h
    obtain ⟨ws, hws, ht, rfl, rfl⟩ := h
    induction ws with
    | nil => exact .stop (readAttr_none.mpr ht)
    | cons w ws ih =>
      rw [List.flatMap_cons, List.append_assoc]
      exact .round (readAttr_iff.mpr ⟨w, hws w (List.mem_cons_self ..), rfl, rfl⟩)
        (ih fun x hx => hws x (List.mem_cons_of_mem _ hx))

/-- **The decoder stores what its rounds make**, one after the other. -/
theorem EapAkaPrime.unmarshal_rounds {d : Bytes} {e e' : EapAkaPrime} :
    EapAkaPrime.unmarshal d e = (.ok (), e') ↔
      ∃ (sub r1 r2 : UInt8) (rest : Bytes) (ps : List (Bytes × EapAkaPrimeAttr)) (tail : Bytes),
        d = eapTypeAkaPrime :: sub :: r1 :: r2 :: rest ∧ Rounds rest ps tail ∧
        e' = (EapAkaPrime.blank sub (UInt16.ofNat (r1.toNat * 256 + r2.toNat))).storeAll
          (ps.map Prod.snd) := by
  rw [EapAkaPrime.unmarshal_iff]
  constructor
  · intro h
    obtain ⟨sub, r1, r2, ws, tail, rfl, hws, ht, rfl⟩ := h
    refine ⟨sub, r1, r2, _, _, tail, rfl, rounds_iff.mpr ⟨ws, hws, ht, rfl, rfl⟩, ?_⟩
    rw [List.map_map]
    rfl
  · intro h
    obtain ⟨sub, r1, r2, rest, ps, tail, rfl, hr, rfl⟩ := h
    obtain ⟨ws, hws, ht, rfl, rfl⟩ := rounds_iff.mp hr
    refine ⟨sub, r1, r2, ws, tail, rfl, hws, ht, ?_⟩
    rw [List.map_map]
    rfl

/-- the last attribute of a type is kept -/
theorem lookup_storeAll (as : List EapAkaPrimeAttr) (e : EapAkaPrime) (t : UInt8) :
    (e.storeAll as).lookup t =
      ((as.filter fun a => a.attrType = t).getLast?).or (e.lookup t) := by
  induction as generalizing e with
  | nil => rfl
  | cons a as ih =>
    show ((e.store a).storeAll as).lookup t = _
    have hstore : (e.store a).lookup t = if t = a.attrType then some a else e.lookup t := rfl
    rw [ih, hstore, List.filter_cons]
    by_cases ht : a.attrType = t
    · rw [if_pos ht.symm, if_pos (decide_eq_true ht), List.getLast?_cons]
      cases (as.filter fun a => a.attrType = t).getLast? <;> rfl
    · rw [if_neg (Ne.symm ht), if_neg (by simpa using ht)]

/-! ## records -/

/-- a type octet, a length octet, and as many groups of four octets as it says -/
def IsRecord : Bytes → Prop
  | t :: length :: body => 1 ≤ length.toNat ∧ (t :: length :: body).length = 4 * length.toNat
  | _ => False

/-- each round takes one record and looks at nothing behind it, to the end of the data; and of each
type the last record is kept -/
def FollowsLengths (rawData : Bytes) (e : EapAkaPrime) : Prop :=
  ∃ ps : List (Bytes × EapAkaPrimeAttr), Rounds (rawData.drop 4) ps [] ∧
    rawData.drop 4 = (ps.map Prod.fst).flatten ∧
    (∀ x ∈ ps, IsRecord x.1 ∧ readAttr x.1 = .ok (some (x.2, []))) ∧
    ∀ t, e.lookup t = ((ps.filter fun x => x.1.head? = some t).getLast?).map Prod.snd

/-- a record that the decoder takes as a whole -/
def Fits : Bytes → Prop
  | t :: length :: body => (t :: length :: body).length = 4 * length.toNat ∧
    match attrKind t with
    | .value16 => length = 5
    | .kdfInput => 4 + octNat (body.take 2) ≤ 4 * length.toNat ∧ length.toNat ≤ 63
    | .res => 4 + octNat (body.take 2) / 8 ≤ 4 * length.toNat ∧ length.toNat ≤ 63
    | .code => length = 1
    | .checkcode => 1 ≤ length.toNat ∧ length.toNat ≤ 64
    | .auts => length = 4
    | .unhandled => False
  | _ => False

/-- what the padding is made of: with it the attribute has the announced length, up to multiples of
65536 and with the length octet modulo 64 -/
theorem paddingLen_spec (length : UInt8) (v : UInt16) :
    ∃ j, 4 + v.toNat + (paddingLen length v).toNat = (4 * length.toNat) % 256 + 65536 * j := by
  have hv : v.toNat < 65536 := v.toNat_lt
  have hT : ((length * 4).toUInt16).toNat = (4 * length.toNat) % 256 := by
    rw [UInt8.toNat_toUInt16, UInt8.toNat_mul, Nat.mul_comm]
    rfl
  have hlt : (4 * length.toNat) % 256 < 256 := Nat.mod_lt _ (by decide)
  have hp : (paddingLen length v).toNat = (65534 + (65535 + (65535 + (65536 - v.toNat +
      (4 * length.toNat) % 256) % 65536) % 65536) % 65536) % 65536 := by
    unfold paddingLen
    simp only [UInt16.toNat_sub, hT]
    rfl
  generalize (4 * length.toNat) % 256 = T at hlt hp ⊢
  generalize (paddingLen length v).toNat = p at hp ⊢
  exact ⟨(4 + v.toNat + p - T) / 65536, by omega⟩

theorem toNat_fieldNum {w : WireAttr} (h : w.field.length = 2) : w.fieldNum.toNat = octNat w.field := by
  have hlt := octNat_lt w.field
  rw [h] at hlt
  exact UInt16.toNat_ofNat_of_lt' hlt

theorem toNat_actualLen {w : WireAttr} (h : w.field.length = 2) :
    w.actualLen.toNat = if attrKind w.type = .res then octNat w.field / 8 else octNat w.field := by
  unfold WireAttr.actualLen
  by_cases hk : attrKind w.type = .res
  · rw [if_pos hk, if_pos hk, UInt16.toNat_div, toNat_fieldNum h]
    rfl
  · rw [if_neg hk, if_neg hk, toNat_fieldNum h]

theorem length_octets_wire (w : WireAttr) :
    w.octets.length = 2 + w.field.length + w.value.length + w.padding.length := by
  simp only [WireAttr.octets, List.length_cons, List.length_append]
  omega

/-- AT_KDF_INPUT and AT_RES -/
theorem padded_iff {w : WireAttr} (hw : w.Padded) :
    w.octets.length = 4 * w.length.toNat ↔
      4 + w.actualLen.toNat ≤ 4 * w.length.toNat ∧ w.length.toNat ≤ 63 := by
  obtain ⟨hf, hv, hp⟩ := hw
  have hlt : (paddingLen w.length w.actualLen).toNat < 65536 := UInt16.toNat_lt _
  have hL : w.length.toNat < 256 := w.length.toNat_lt
  obtain ⟨j, hj⟩ := paddingLen_spec w.length w.actualLen
  rw [length_octets_wire, hf, hv, hp]
  omega

/-- `4*length - 1 - 1 - 2` in `uint8` -/
theorem checkcodeLen (length : UInt8) :
    (4 * length - 1 - 1 - 2).toNat = (4 * length.toNat + 252) % 256 := by
  have h : (4 * length - 1 - 1 - 2).toNat = (254 + (255 + (255 +
      4 * length.toNat % 256) % 256) % 256) % 256 := by
    simp only [UInt8.toNat_sub, UInt8.toNat_mul]
    rfl
  rw [h]
  omega

/-- **An attribute that the decoder takes is a record** iff it fits. -/
theorem fits_iff {w : WireAttr} (hw : w.Ok) : Fits w.octets ↔ IsRecord w.octets := by
  have hlen := length_octets_wire w
  have hL : w.length.toNat < 256 := w.length.toNat_lt
  show (w.octets.length = 4 * w.length.toNat ∧ _) ↔
    1 ≤ w.length.toNat ∧ w.octets.length = 4 * w.length.toNat
  have htake : ∀ h2 : w.field.length = 2, (w.field ++ w.value ++ w.padding).take 2 = w.field := by
    intro h2
    rw [List.append_assoc, List.take_left' h2]
  unfold WireAttr.Ok at hw
  cases hk : attrKind w.type with
  | value16 =>
    rw [hk] at hw
    obtain ⟨h5, hf, hv, hp⟩ := hw
    have h5' : w.length.toNat = 5 := by rw [h5]; rfl
    exact ⟨fun h => ⟨by omega, h.1⟩, fun h => ⟨h.2, h5⟩⟩
  | kdfInput =>
    rw [hk] at hw
    have hpad := padded_iff hw
    rw [toNat_actualLen hw.1, hk, if_neg (by simp)] at hpad
    simp only [htake hw.1]
    omega
  | res =>
    rw [hk] at hw
    have hpad := padded_iff hw
    rw [toNat_actualLen hw.1, hk, if_pos rfl] at hpad
    simp only [htake hw.1]
    omega
  | code =>
    rw [hk] at hw
    obtain ⟨hf, hv, hp⟩ := hw
    rw [hf, hv, hp] at hlen
    have h1 : w.length.toNat = 1 ↔ w.length = 1 := UInt8.toNat_inj (b := 1)
    rw [← h1]
    simp only [List.length_nil] at hlen
    omega
  | checkcode =>
    rw [hk] at hw
    obtain ⟨hf, hv, hp⟩ := hw
    rw [checkcodeLen] at hv
    rw [hf, hv, hp] at hlen
    simp only [List.length_nil] at hlen ⊢
    omega
  | auts =>
    rw [hk] at hw
    obtain ⟨h4, hf, hv, hp⟩ := hw
    have h4' : w.length.toNat = 4 := by rw [h4]; rfl
    exact ⟨fun h => ⟨by omega, h.1⟩, fun h => ⟨h.2, h4⟩⟩
  | unhandled =>
    rw [hk] at hw
    obtain ⟨hf, hv, hp⟩ := hw
    rw [hf, hv, hp] at hlen
    simp only [List.length_nil, and_false, false_iff] at hlen ⊢
    omega

/-- AT_KDF_INPUT and AT_RES: the announced octets are the value, the others padding -/
theorem exists_padded {t length : UInt8} {body : Bytes}
    (hk : attrKind t = .kdfInput ∨ attrKind t = .res) (hlen : body.length + 2 = 4 * length.toNat)
    {n : Nat} (hn : (if attrKind t = .res then octNat (body.take 2) / 8 else octNat (body.take 2)) = n)
    (h1 : 4 + n ≤ 4 * length.toNat) (h2 : length.toNat ≤ 63) :
    ∃ w : WireAttr, w.Ok ∧ w.octets = t :: length :: body := by
  have htake : (body.take 2).length = 2 := by
    rw [List.length_take]
    omega
  have hact : (WireAttr.actualLen ⟨t, length, body.take 2, [], []⟩).toNat = n :=
    (toNat_actualLen htake).trans hn
  refine ⟨⟨t, length, body.take 2, (body.drop 2).take n, (body.drop 2).drop n⟩,
    (WireAttr.ok_padded hk).mpr ⟨htake, ?_, ?_⟩, ?_⟩
  · show ((body.drop 2).take n).length = (WireAttr.actualLen ⟨t, length, body.take 2, [], []⟩).toNat
    rw [hact, List.length_take, List.length_drop]
    omega
  · show ((body.drop 2).drop n).length =
      (paddingLen length (WireAttr.actualLen ⟨t, length, body.take 2, [], []⟩)).toNat
    obtain ⟨j, hj⟩ := paddingLen_spec length (WireAttr.actualLen ⟨t, length, body.take 2, [], []⟩)
    have hlt := UInt16.toNat_lt
      (paddingLen length (WireAttr.actualLen ⟨t, length, body.take 2, [], []⟩))
    rw [hact] at hj
    rw [List.length_drop, List.length_drop]
    omega
  · rw [WireAttr.octets, List.append_assoc, List.take_append_drop, List.take_append_drop]

/-- what fits is taken by the decoder -/
theorem exists_of_fits {r : Bytes} (h : Fits r) : ∃ w : WireAttr, w.Ok ∧ w.octets = r := by
  rcases r with _ | ⟨t, _ | ⟨length, body⟩⟩
  · exact False.elim h
  · exact False.elim h
  obtain ⟨hlen, h⟩ := h
  have hlen : body.length + 2 = 4 * length.toNat := hlen
  have htake : 2 ≤ body.length → (body.take 2).length = 2 := by
    intro h2
    rw [List.length_take]
    omega
  have hcut : (⟨t, length, body.take 2, body.drop 2, []⟩ : WireAttr).octets = t :: length :: body := by
    rw [WireAttr.octets, List.append_nil, List.take_append_drop]
  cases hk : attrKind t with
  | value16 =>
    rw [hk] at h
    have h5 : length.toNat = 5 := by rw [h]; rfl
    refine ⟨_, ?_, hcut⟩
    simp only [WireAttr.Ok, hk, List.length_drop]
    exact ⟨h, htake (by omega), by omega, trivial⟩
  | kdfInput =>
    rw [hk] at h
    exact exists_padded (.inl hk) hlen (by rw [hk, if_neg (by simp)]) h.1 h.2
  | res =>
    rw [hk] at h
    exact exists_padded (.inr hk) hlen (by rw [hk, if_pos rfl]) h.1 h.2
  | code =>
    rw [hk] at h
    have h1 : length.toNat = 1 := by rw [h]; rfl
    refine ⟨⟨t, length, body, [], []⟩, ?_, by simp [WireAttr.octets]⟩
    simp only [WireAttr.Ok, hk]
    exact ⟨by omega, trivial, trivial⟩
  | checkcode =>
    rw [hk] at h
    refine ⟨_, ?_, hcut⟩
    simp only [WireAttr.Ok, hk, List.length_drop, checkcodeLen]
    have h1 : 1 ≤ length.toNat ∧ length.toNat ≤ 64 := h
    exact ⟨htake (by omega), by omega, trivial⟩
  | auts =>
    rw [hk] at h
    have h4 : length.toNat = 4 := by rw [h]; rfl
    refine ⟨⟨t, length, [], body, []⟩, ?_, by simp [WireAttr.octets]⟩
    simp only [WireAttr.Ok, hk]
    exact ⟨h, trivial, by omega, trivial⟩
  | unhandled =>
    rw [hk] at h
    exact False.elim h

theorem exists_of_all_fit {recs : List Bytes} (h : ∀ r ∈ recs, Fits r) :
    ∃ ws : List WireAttr, (∀ w ∈ ws, w.Ok) ∧ ws.map WireAttr.octets = recs := by
  induction recs with
  | nil => exact ⟨[], by simp, rfl⟩
  | cons r recs ih =>
    obtain ⟨w, hw, rfl⟩ := exists_of_fits (h r (List.mem_cons_self ..))
    obtain ⟨ws, hws, rfl⟩ := ih fun x hx => h x (List.mem_cons_of_mem _ hx)
    refine ⟨w :: ws, ?_, rfl⟩
    exact List.forall_mem_cons.mpr ⟨hw, hws⟩

/-! ## the packets whose attributes end where they say -/

theorem fit_of_follows {rawData : Bytes} {e : EapAkaPrime} (h : FollowsLengths rawData e) :
    ∃ recs : List Bytes, rawData.drop 4 = recs.flatten ∧ ∀ r ∈ recs, Fits r := by
  obtain ⟨ps, hr, hflat, hps, _⟩ := h
  refine ⟨ps.map Prod.fst, hflat, ?_⟩
  obtain ⟨ws, hws, _, _, rfl⟩ := rounds_iff.mp hr
  intro r hr
  obtain ⟨x, hx, rfl⟩ := List.mem_map.mp hr
  obtain ⟨w, hw, rfl⟩ := List.mem_map.mp hx
  exact (fits_iff (hws w hw)).mpr (hps w.piece hx).1

/-- **The accepted packets whose attributes end where their length octets say**: those that consist
of records that the decoder takes as a whole. -/
theorem follows_lengths_iff {rawData : Bytes} {e e' : EapAkaPrime}
    (h : EapAkaPrime.unmarshal rawData e = (.ok (), e')) :
    FollowsLengths rawData e' ↔
      ∃ recs : List Bytes, rawData.drop 4 = recs.flatten ∧ ∀ r ∈ recs, Fits r := by
  constructor
  · exact fit_of_follows
  · intro hrecs
    obtain ⟨recs, hflat, hfits⟩ := hrecs
    obtain ⟨ws, hws, rfl⟩ := exists_of_all_fit hfits
    obtain ⟨sub, r1, r2, rest, rfl⟩ := EapAkaPrime.unmarshal_type h
    have hrest : rest = ws.flatMap WireAttr.octets := hflat
    have hr : Rounds rest (ws.map WireAttr.piece) [] :=
      rounds_iff.mpr ⟨ws, hws, by simp, by rw [hrest, List.append_nil], rfl⟩
    have he := (EapAkaPrime.unmarshal_rounds (e := e)).mpr ⟨sub, r1, r2, rest, _, [], rfl, hr, rfl⟩
    rw [h] at he
    refine ⟨ws.map WireAttr.piece, hr, ?_, ?_, ?_⟩
    · show rest = _
      rw [hrest, List.map_map]
      rfl
    · intro x hx
      obtain ⟨w, hw, rfl⟩ := List.mem_map.mp hx
      refine ⟨(fits_iff (hws w hw)).mp (hfits _ (List.mem_map_of_mem hw)), ?_⟩
      exact readAttr_iff.mpr ⟨w, hws w hw, (List.append_nil _).symm, rfl⟩
    · intro t
      have hhead : ∀ w : WireAttr, w.octets.head? = some t ↔ w.attr.attrType = t :=
        fun w => Option.some_inj
      rw [(Prod.mk.inj he).2, lookup_storeAll, List.map_map, List.filter_map, List.filter_map,
        List.getLast?_map, List.getLast?_map]
      simp only [Function.comp_def, WireAttr.piece, hhead, Option.map_map]
      exact Option.or_none

/-- AT_KDF and a padded AT_KDF_INPUT -/
theorem follows_lengths_kdf :
    ∃ e, EapAkaPrime.unmarshal [50, 1, 0, 0, 24, 1, 0, 1, 23, 2, 0, 2, 65, 66, 0, 0]
        EapAkaPrime.zero = (.ok (), e) ∧
      FollowsLengths [50, 1, 0, 0, 24, 1, 0, 1, 23, 2, 0, 2, 65, 66, 0, 0] e := by
  obtain ⟨e, he⟩ : ∃ e, EapAkaPrime.unmarshal [50, 1, 0, 0, 24, 1, 0, 1, 23, 2, 0, 2, 65, 66, 0, 0]
      EapAkaPrime.zero = (.ok (), e) := ⟨_, rfl⟩
  refine ⟨e, he, (follows_lengths_iff he).mpr ⟨[[24, 1, 0, 1], [23, 2, 0, 2, 65, 66, 0, 0]], rfl, ?_⟩⟩
  intro r hr
  rcases List.mem_cons.mp hr with rfl | hr
  · exact ⟨rfl, rfl⟩
  · rw [List.mem_singleton.mp hr]
    exact ⟨rfl, by decide, by decide⟩

/-- the content of an AT_IDENTITY attribute is read as an attribute without a case and an AT_KDF -/
theorem identity_content_read :
    ∃ e, EapAkaPrime.unmarshal [50, 5, 0, 0, 14, 2, 0, 1, 24, 1, 0, 7] EapAkaPrime.zero = (.ok (), e) ∧
      IsRecord [14, 2, 0, 1, 24, 1, 0, 7] ∧ e.lookup atKDF = some ⟨24, 1, 7, []⟩ ∧
      ¬ FollowsLengths [50, 5, 0, 0, 14, 2, 0, 1, 24, 1, 0, 7] e := by
  refine ⟨_, rfl, ⟨by decide, rfl⟩, rfl, fun h => ?_⟩
  obtain ⟨recs, hflat, hfits⟩ := fit_of_follows h
  have hflat : [14, 2, 0, 1, 24, 1, 0, 7] = recs.flatten := hflat
  cases recs with
  | nil => exact absurd hflat (by simp)
  | cons r recs =>
    -- the first record has the type 14, and no attribute of that type fits
    have hr := hfits r (List.mem_cons_self ..)
    rcases r with _ | ⟨t, _ | ⟨length, body⟩⟩
    · exact hr
    · exact hr
    · have ht : 14 = t := (List.cons.inj hflat).1
      subst ht
      exact hr.2

end Ike
