import IKEv2.Eap.Boundaries
import IKEv2.Eap.Store

/-!
# What a sender sets is what the peer reads

A new packet takes its attributes from calls of `SetAttr`; the encoder writes them in the order of
their types, and the decoder of the peer finds each of them again.  `setAttr_wire` says this for one
attribute: its octets are those of a wire attribute that the decoder accepts, with the value that was
set.

* `set_read`   the peer reads, for each type, the value that was set last.
-/

set_option linter.unusedVariables false

namespace Ike
open GoLang

/-! ## one attribute -/

/-- the bounds for the two attributes that `SetAttr` accepts with lengths that are not read back -/
def Bounded (t : UInt8) (value : Bytes) : Prop :=
  (t = atKDFINPUT → value.length ≤ 248) ∧
    (t = atCHECKCODE → value.length % 4 = 0 ∧ value.length ≤ 252)

theorem attrKind_code {t : UInt8} : attrKind t = .code ↔ t = atKDF ∨ t = atNOTIFICATION := by
  constructor
  · intro h
    have ht := attrKind_types t
    rw [h] at ht
    exact ht
  · intro h
    rcases h with rfl | rfl
    · rfl
    · rfl

theorem paddingBytes_spec (n : Nat) : (n + paddingBytes n) % 4 = 0 ∧ paddingBytes n < 4 := by
  unfold paddingBytes
  omega

/-- AT_KDF_INPUT and AT_RES: a value with zeros up to a multiple of four octets -/
def paddedAttr (t : UInt8) (reserved : UInt16) (value : Bytes) : EapAkaPrimeAttr :=
  ⟨t, UInt8.ofNat ((4 + value.length + paddingBytes (4 + value.length)) / 4), reserved,
    value ++ List.replicate (paddingBytes (4 + value.length)) 0⟩

theorem getValue_of_kind {a : EapAkaPrimeAttr} (h : attrKind a.attrType ≠ .code) :
    a.getValue = a.value :=
  if_neg fun h0 => h (attrKind_code.mpr h0)

/-- an attribute of another type than AT_AUTS, piece by piece -/
theorem octets_of_pieces {t : UInt8} (hk : attrKind t ≠ .auts) (length : UInt8) (reserved : UInt16)
    (value padding : Bytes) :
    (⟨t, length, putUint16 reserved, value, padding⟩ : WireAttr).octets =
      (⟨t, length, reserved, value ++ padding⟩ : EapAkaPrimeAttr).octets := by
  rw [EapAkaPrimeAttr.octets, if_pos fun h0 => hk (attrKind_auts.mpr h0), WireAttr.octets]
  simp

/-- a padded value is written with the padding that the decoder steps over -/
theorem paddingLen_set {n : Nat} (hn : n ≤ 248) :
    (paddingLen (UInt8.ofNat ((4 + n + paddingBytes (4 + n)) / 4)) (UInt16.ofNat n)).toNat =
      paddingBytes (4 + n) := by
  have hpad := paddingBytes_spec (4 + n)
  generalize paddingBytes (4 + n) = p at hpad ⊢
  have hL : (UInt8.ofNat ((4 + n + p) / 4)).toNat = (4 + n + p) / 4 :=
    UInt8.toNat_ofNat_of_lt' (show (4 + n + p) / 4 < 256 by omega)
  have hv : (UInt16.ofNat n).toNat = n := UInt16.toNat_ofNat_of_lt' (show n < 65536 by omega)
  obtain ⟨j, hj⟩ := paddingLen_spec (UInt8.ofNat ((4 + n + p) / 4)) (UInt16.ofNat n)
  have hlt := UInt16.toNat_lt (paddingLen (UInt8.ofNat ((4 + n + p) / 4)) (UInt16.ofNat n))
  rw [hL, hv] at hj
  omega

theorem actualLen_put (t length : UInt8) (reserved : UInt16) (value padding : Bytes) :
    WireAttr.actualLen ⟨t, length, putUint16 reserved, value, padding⟩ =
      if attrKind t = .res then reserved / 8 else reserved := by
  have hv : reserved.toNat < 256 ^ 2 := reserved.toNat_lt
  have hf : WireAttr.fieldNum ⟨t, length, putUint16 reserved, value, padding⟩ = reserved := by
    show UInt16.ofNat (octNat (octets 2 reserved.toNat)) = reserved
    rw [octNat_octets_of_lt hv, UInt16.ofNat_toNat]
  rw [WireAttr.actualLen, hf]

theorem padded_set {t : UInt8} {reserved : UInt16} {value : Bytes} (hn : value.length ≤ 248)
    (hact : (if attrKind t = .res then reserved / 8 else reserved) = UInt16.ofNat value.length) :
    WireAttr.Padded ⟨t, UInt8.ofNat ((4 + value.length + paddingBytes (4 + value.length)) / 4),
      putUint16 reserved, value, List.replicate (paddingBytes (4 + value.length)) 0⟩ := by
  refine ⟨length_putUint16 _, ?_, ?_⟩
  · rw [actualLen_put, hact, UInt16.toNat_ofNat_of_lt' (show value.length < 65536 by omega)]
  · rw [actualLen_put, hact, List.length_replicate, paddingLen_set hn]

/-- what the setter makes of a value -/
theorem setAttr_ok {t : UInt8} {value : Bytes} {a : EapAkaPrimeAttr}
    (h : EapAkaPrimeAttr.setAttr t value = .ok a) :
    match attrKind t with
    | .value16 => value.length = 16 ∧ a = ⟨t, 5, 0, value⟩
    | .auts => value.length = 14 ∧ a = ⟨t, 4, 0, value⟩
    | .kdfInput => a = paddedAttr t (UInt16.ofNat value.length) value
    | .res => (4 ≤ value.length ∧ value.length ≤ 16) ∧
        a = paddedAttr t (UInt16.ofNat (value.length * 8)) value
    | .code => ∃ x y, value = [x, y] ∧ a = ⟨t, 1, UInt16.ofNat (x.toNat * 256 + y.toNat), []⟩
    | .checkcode => a = ⟨t, UInt8.ofNat ((4 + value.length) / 4), 0, value⟩
    | .unhandled => False := by
  unfold EapAkaPrimeAttr.setAttr at h
  cases hk : attrKind t with
  | value16 =>
    rw [hk] at h
    by_cases h16 : value.length = 16
    · rw [if_neg (not_not_intro h16), h16] at h
      exact ⟨h16, (Outcome.ok.inj h).symm⟩
    · rw [if_pos h16] at h
      exact absurd h (fail_ne_ok _ _)
  | auts =>
    rw [hk] at h
    by_cases h14 : value.length = 14
    · rw [if_neg (not_not_intro h14)] at h
      exact ⟨h14, (Outcome.ok.inj h).symm⟩
    · rw [if_pos h14] at h
      exact absurd h (fail_ne_ok _ _)
  | kdfInput =>
    rw [hk] at h
    exact (Outcome.ok.inj h).symm
  | res =>
    rw [hk] at h
    by_cases hbits : value.length * 8 > 128 ∨ value.length * 8 < 32
    · simp only [if_pos hbits] at h
      exact absurd h (fail_ne_ok _ _)
    have hpad := (paddingBytes_spec (4 + value.length)).2
    simp only [if_neg hbits, if_neg (show ¬ value.length * 8 > 65535 by omega),
      if_neg (show ¬ (4 + value.length + paddingBytes (4 + value.length)) / 4 > 255 by omega)] at h
    exact ⟨by omega, (Outcome.ok.inj h).symm⟩
  | code =>
    rw [hk] at h
    by_cases h2 : value.length = 2
    · rw [if_neg (not_not_intro h2)] at h
      obtain ⟨x, y, rfl⟩ := List.length_eq_two.mp h2
      rw [uint16_pair] at h
      exact ⟨x, y, rfl, (Outcome.ok.inj h).symm⟩
    · rw [if_pos h2] at h
      exact absurd h (fail_ne_ok _ _)
  | checkcode =>
    rw [hk] at h
    by_cases hl : (4 + value.length) / 4 > 255
    · simp only [if_pos hl] at h
      exact absurd h (fail_ne_ok _ _)
    · simp only [if_neg hl] at h
      exact (Outcome.ok.inj h).symm
  | unhandled =>
    rw [hk] at h
    exact absurd h (fail_ne_ok _ _)

theorem setAttr_type {t : UInt8} {value : Bytes} {a : EapAkaPrimeAttr}
    (h : EapAkaPrimeAttr.setAttr t value = .ok a) : a.attrType = t := by
  have hok := setAttr_ok h
  cases hk : attrKind t with
  | value16 => rw [hk] at hok; rw [hok.2]
  | auts => rw [hk] at hok; rw [hok.2]
  | kdfInput => rw [hk] at hok; rw [hok, paddedAttr]
  | res => rw [hk] at hok; rw [hok.2, paddedAttr]
  | code =>
    rw [hk] at hok
    obtain ⟨x, y, _, ha⟩ := hok
    rw [ha]
  | checkcode => rw [hk] at hok; rw [hok]
  | unhandled => rw [hk] at hok; exact False.elim hok

/-- **What is set is found on the wire.** -/
theorem setAttr_wire {t : UInt8} {value : Bytes} {a : EapAkaPrimeAttr} (hb : Bounded t value)
    (h : EapAkaPrimeAttr.setAttr t value = .ok a) :
    ∃ w : WireAttr, w.Ok ∧ w.type = t ∧ w.octets = a.octets ∧ w.attr.getValue = value := by
  have hread : ∀ w : WireAttr, w.type = t → attrKind t ≠ .code → w.attr.getValue = w.value :=
    fun w hw hc => getValue_of_kind (by show attrKind w.type ≠ _; rw [hw]; exact hc)
  have hplain : attrKind t ≠ .auts → ∀ length : UInt8,
      (⟨t, length, putUint16 0, value, []⟩ : WireAttr).octets =
        (⟨t, length, 0, value⟩ : EapAkaPrimeAttr).octets := by
    intro hk length
    have ho := octets_of_pieces hk length 0 value []
    rw [List.append_nil] at ho
    exact ho
  have htype := attrKind_types t
  have hok := setAttr_ok h
  cases hk : attrKind t with
  | value16 =>
    rw [hk] at hok hplain
    obtain ⟨h16, rfl⟩ := hok
    refine ⟨_, ?_, rfl, hplain (by simp) 5, hread _ rfl (by simp [hk])⟩
    simp only [WireAttr.Ok, hk]
    exact ⟨trivial, length_putUint16 _, h16, trivial⟩
  | kdfInput =>
    rw [hk] at hok htype
    obtain rfl := hok
    refine ⟨_, ?_, rfl, octets_of_pieces (by simp [hk]) .., hread _ rfl (by simp [hk])⟩
    refine (WireAttr.ok_padded (.inl hk)).mpr (padded_set (hb.1 htype) ?_)
    rw [hk, if_neg (by simp)]
  | res =>
    rw [hk] at hok
    obtain ⟨hlen, rfl⟩ := hok
    refine ⟨_, ?_, rfl, octets_of_pieces (by simp [hk]) .., hread _ rfl (by simp [hk])⟩
    refine (WireAttr.ok_padded (.inr hk)).mpr (padded_set (by omega) ?_)
    rw [hk, if_pos rfl]
    apply UInt16.toNat_inj.mp
    rw [UInt16.toNat_div, UInt16.toNat_ofNat_of_lt' (show value.length * 8 < 65536 by omega),
      UInt16.toNat_ofNat_of_lt' (show value.length < 65536 by omega)]
    show value.length * 8 / 8 = value.length
    omega
  | code =>
    rw [hk] at hok
    obtain ⟨x, y, rfl, rfl⟩ := hok
    have ho := octets_of_pieces (t := t) (by simp [hk]) 1 (UInt16.ofNat (x.toNat * 256 + y.toNat))
      [] []
    rw [putUint16_ofOctets] at ho
    refine ⟨⟨t, 1, [x, y], [], []⟩, ?_, rfl, ho, ?_⟩
    · simp only [WireAttr.Ok, hk]
      exact ⟨rfl, trivial, trivial⟩
    · have hres : (WireAttr.attr ⟨t, 1, [x, y], [], []⟩).reserved =
          UInt16.ofNat (x.toNat * 256 + y.toNat) := by
        simp [WireAttr.attr, hk, WireAttr.fieldNum, octNat]
      have ht : (WireAttr.attr ⟨t, 1, [x, y], [], []⟩).attrType = t := rfl
      rw [EapAkaPrimeAttr.getValue, ht, if_pos (attrKind_code.mp hk), hres, putUint16_ofOctets]
  | checkcode =>
    rw [hk] at hok htype hplain
    obtain rfl := hok
    obtain ⟨h4, h252⟩ := hb.2 htype
    refine ⟨_, ?_, rfl, hplain (by simp) _, hread _ rfl (by simp [hk])⟩
    simp only [WireAttr.Ok, hk, checkcodeLen]
    rw [UInt8.toNat_ofNat_of_lt' (show (4 + value.length) / 4 < 256 by omega)]
    exact ⟨length_putUint16 _, by omega, trivial⟩
  | auts =>
    rw [hk] at hok
    obtain ⟨h14, rfl⟩ := hok
    refine ⟨⟨t, 4, [], value, []⟩, ?_, rfl, ?_, hread _ rfl (by simp [hk])⟩
    · simp only [WireAttr.Ok, hk]
      exact ⟨trivial, trivial, h14, trivial⟩
    · rw [EapAkaPrimeAttr.octets, if_neg (not_not_intro (attrKind_auts.mp hk)), WireAttr.octets]
      simp
  | unhandled =>
    rw [hk] at hok
    exact False.elim hok

/-! ## a sequence of calls -/

/-- `SetAttr` for one pair after the other -/
def EapAkaPrime.setAttrs : List (UInt8 × Bytes) → Proc EapAkaPrime Unit
  | [] => pure ()
  | x :: sets => do
    EapAkaPrime.setAttr x.1 x.2
    EapAkaPrime.setAttrs sets

/-- the value that was set last for `t` -/
def lastSet (sets : List (UInt8 × Bytes)) (t : UInt8) : Option Bytes :=
  ((sets.filter fun x => x.1 = t).getLast?).map Prod.snd

theorem lastSet_concat (sets : List (UInt8 × Bytes)) (x : UInt8 × Bytes) (t : UInt8) :
    lastSet (sets ++ [x]) t = if t = x.1 then some x.2 else lastSet sets t := by
  unfold lastSet
  rw [List.filter_append, List.getLast?_append]
  by_cases ht : x.1 = t
  · rw [if_pos ht.symm, List.filter_singleton, decide_eq_true ht]
    rfl
  · rw [if_neg (Ne.symm ht), List.filter_singleton, decide_eq_false ht]
    rfl

theorem mem_of_lastSet {sets : List (UInt8 × Bytes)} {t : UInt8} {v : Bytes}
    (h : lastSet sets t = some v) : (t, v) ∈ sets := by
  obtain ⟨x, hx, rfl⟩ := Option.map_eq_some_iff.mp h
  obtain ⟨hm, ht⟩ := List.mem_filter.mp (List.mem_of_getLast? hx)
  obtain rfl := of_decide_eq_true ht
  exact hm

theorem lastSet_isSome {sets : List (UInt8 × Bytes)} {t : UInt8} :
    (lastSet sets t).isSome ↔ t ∈ sets.map Prod.fst := by
  constructor
  · intro h
    obtain ⟨v, hv⟩ := Option.isSome_iff_exists.mp h
    exact List.mem_map_of_mem (f := Prod.fst) (mem_of_lastSet hv)
  · intro h
    obtain ⟨x, hx, rfl⟩ := List.mem_map.mp h
    have hm : x ∈ sets.filter fun y => y.1 = x.1 := List.mem_filter.mpr ⟨hx, decide_eq_true rfl⟩
    rw [lastSet, Option.isSome_map, List.getLast?_isSome]
    exact List.ne_nil_of_mem hm

/-- a packet made by `sets`: for each type the attribute of the value that was set last -/
structure Carries (sub : UInt8) (sets : List (UInt8 × Bytes)) (e : EapAkaPrime) : Prop where
  subType : e.subType = sub
  reserved : e.reserved = 0
  order : e.attributeOrder = none
  lookup : ∀ t, (e.lookup t).map Outcome.ok = (lastSet sets t).map (EapAkaPrimeAttr.setAttr t)

theorem carries_new (sub : UInt8) : Carries sub [] (newEapAkaPrime sub) :=
  ⟨rfl, rfl, rfl, fun _ => rfl⟩

/-- one call -/
theorem carries_setAttr {sub : UInt8} {sets : List (UInt8 × Bytes)} {e e' : EapAkaPrime}
    (hc : Carries sub sets e) {x : UInt8 × Bytes}
    (h : EapAkaPrime.setAttr x.1 x.2 e = (.ok (), e')) : Carries sub (sets ++ [x]) e' := by
  obtain ⟨a, ha, hs⟩ := Proc.lift_bind_eq_ok.mp h
  have ha := Outcome.wrapf_eq_ok.mp ha
  obtain rfl := Proc.modify_eq_ok.mp hs
  refine ⟨hc.subType, hc.reserved, ?_, ?_⟩
  · show (if _ then e.attributeOrder.map _ else e.attributeOrder) = none
    rw [hc.order]
    exact ite_self _
  · intro t
    rw [lastSet_concat]
    show ((if t = a.attrType then some a else e.lookup t).map Outcome.ok) = _
    rw [setAttr_type ha]
    by_cases ht : t = x.1
    · rw [if_pos ht, if_pos ht, ht]
      exact congrArg some ha.symm
    · rw [if_neg ht, if_neg ht]
      exact hc.lookup t

/-- all of them -/
theorem carries_setAttrs {sub : UInt8} {sets todo : List (UInt8 × Bytes)} {e e' : EapAkaPrime}
    (hc : Carries sub sets e) (h : EapAkaPrime.setAttrs todo e = (.ok (), e')) :
    Carries sub (sets ++ todo) e' := by
  induction todo generalizing sets e with
  | nil =>
    obtain rfl : e = e' := (Prod.mk.inj h).2
    rw [List.append_nil]
    exact hc
  | cons x todo ih =>
    obtain ⟨_, e1, h1, h2⟩ := Proc.bind_eq_ok.mp h
    rw [List.append_cons]
    exact ih (carries_setAttr hc h1) h2

/-! ## the peer -/

theorem mem_getAttrsKeys {e : EapAkaPrime} (h : e.attributeOrder = none) {t : UInt8} :
    t ∈ e.getAttrsKeys ↔ (e.lookup t).isSome := by
  rw [EapAkaPrime.getAttrsKeys, h]
  show t ∈ List.filter _ _ ↔ _
  rw [List.mem_filter]
  refine ⟨fun h => h.2, fun h => ⟨?_, h⟩⟩
  exact List.mem_map.mpr ⟨t.toNat, List.mem_range.mpr t.toNat_lt, UInt8.ofNat_toNat⟩

/-- the wire attribute of a key -/
theorem Carries.wire {sub : UInt8} {sets : List (UInt8 × Bytes)} {e : EapAkaPrime}
    (hc : Carries sub sets e) (hb : ∀ x ∈ sets, Bounded x.1 x.2) {t : UInt8}
    (ht : t ∈ e.getAttrsKeys) :
    ∃ w : WireAttr, w.Ok ∧ w.type = t ∧ e.attrOctets t = .ok w.octets ∧
      lastSet sets t = some w.attr.getValue := by
  obtain ⟨a, ha⟩ := Option.isSome_iff_exists.mp ((mem_getAttrsKeys hc.order).mp ht)
  have hl := hc.lookup t
  rw [ha] at hl
  obtain ⟨v, hv, hset⟩ := Option.map_eq_some_iff.mp hl.symm
  obtain ⟨w, hw, hty, ho, hval⟩ := setAttr_wire (hb _ (mem_of_lastSet hv)) hset
  refine ⟨w, hw, hty, ?_, by rw [hval, hv]⟩
  rw [EapAkaPrime.attrOctets, ha, ho]

/-- the last one of elements that are all the same -/
theorem getLast?_same {α : Type} {l : List α} {c : α} (h : ∀ x ∈ l, x = c) (hc : c ∈ l) :
    l.getLast? = some c := by
  rw [List.getLast?_eq_some_getLast (List.ne_nil_of_mem hc)]
  exact congrArg some (h _ (List.getLast_mem _))

/-- attributes with distinct types are found under their types -/
theorem lookup_blank (sub : UInt8) (res : UInt16) {keys : List UInt8} {W : UInt8 → WireAttr}
    (hW : ∀ k ∈ keys, (W k).type = k) (t : UInt8) :
    ((EapAkaPrime.blank sub res).storeAll (keys.map fun k => (W k).attr)).lookup t =
      if t ∈ keys then some (W t).attr else none := by
  rw [lookup_storeAll]
  have hblank : (EapAkaPrime.blank sub res).lookup t = none := rfl
  rw [hblank, Option.or_none]
  have hsame : ∀ a ∈ (keys.map fun k => (W k).attr).filter fun a => a.attrType = t,
      t ∈ keys ∧ a = (W t).attr := by
    intro a ha
    obtain ⟨hm, hty⟩ := List.mem_filter.mp ha
    obtain ⟨k, hk, rfl⟩ := List.mem_map.mp hm
    obtain rfl : k = t := (hW k hk).symm.trans (of_decide_eq_true hty)
    exact ⟨hk, rfl⟩
  by_cases ht : t ∈ keys
  · rw [if_pos ht]
    refine getLast?_same (fun a ha => (hsame a ha).2) ?_
    exact List.mem_filter.mpr ⟨List.mem_map.mpr ⟨t, ht, rfl⟩, decide_eq_true (hW t ht)⟩
  · rw [if_neg ht, List.getLast?_eq_none_iff, List.eq_nil_iff_forall_not_mem]
    exact fun a ha => ht (hsame a ha).1

/-- in a map whose attributes stand under their types, the loop over the map is a lookup -/
theorem findSome?_keyed {m : UInt8 → Option EapAkaPrimeAttr}
    (hkeys : ∀ k b, m k = some b → b.attrType = k) (t : UInt8) :
    (((List.range 256).map UInt8.ofNat).findSome? fun key =>
      (m key).filter fun b => b.attrType = t) = m t := by
  have honly : ∀ k b, (m k).filter (fun b => b.attrType = t) = some b → m t = some b := by
    intro k b hk
    obtain ⟨hkb, hty⟩ := Option.filter_eq_some_iff.mp hk
    obtain rfl : k = t := (hkeys k b hkb).symm.trans (of_decide_eq_true hty)
    exact hkb
  cases hmt : m t with
  | none =>
    rw [List.findSome?_eq_none_iff]
    intro k _
    by_contra hne
    obtain ⟨b, hb⟩ := Option.ne_none_iff_exists'.mp hne
    exact absurd (honly k b hb) (by simp [hmt])
  | some a =>
    have hsome : (((List.range 256).map UInt8.ofNat).findSome? fun key =>
        (m key).filter fun b => b.attrType = t).isSome := by
      rw [List.findSome?_isSome_iff]
      refine ⟨t, List.mem_map.mpr ⟨t.toNat, List.mem_range.mpr t.toNat_lt, UInt8.ofNat_toNat⟩, ?_⟩
      rw [hmt, Option.filter_some, if_pos (decide_eq_true (hkeys t a hmt))]
      rfl
    obtain ⟨b, hb⟩ := Option.isSome_iff_exists.mp hsome
    obtain ⟨k, _, hk⟩ := List.exists_of_findSome?_eq_some hb
    rw [hb, ← honly k b hk, hmt]

/-- a map whose attributes stand under their types gives them by type -/
theorem EapAkaPrime.getAttr_value {e : EapAkaPrime}
    (hkeys : ∀ k b, e.lookup k = some b → b.attrType = k) (t : UInt8) :
    (e.getAttr t).value = e.lookup t := by
  cases hm : e.attributes with
  | none =>
    rw [EapAkaPrime.getAttr, EapAkaPrime.lookup, hm]
    rfl
  | some m =>
    have hlook : ∀ k, e.lookup k = m k := fun k => by rw [EapAkaPrime.lookup, hm]; rfl
    rw [EapAkaPrime.getAttr, hm]
    dsimp only
    rw [findSome?_keyed fun k b hk => hkeys k b ((hlook k).trans hk), hlook]
    cases m t with
    | none => rfl
    | some a => rfl

theorem EapAkaPrime.getAttr_lookup {e : EapAkaPrime} {t : UInt8} {a : EapAkaPrimeAttr}
    (hkeys : ∀ k b, e.lookup k = some b → b.attrType = k) (h : e.lookup t = some a) :
    e.getAttr t = .ok a :=
  Outcome.value_eq_some.mp ((EapAkaPrime.getAttr_value hkeys t).trans h)

/-- **What is set is what the peer reads.** -/
theorem set_read {sub : UInt8} {sets : List (UInt8 × Bytes)} {e : EapAkaPrime}
    (h : EapAkaPrime.setAttrs sets (newEapAkaPrime sub) = (.ok (), e))
    (hb : ∀ x ∈ sets, Bounded x.1 x.2) :
    ∃ (b : Bytes) (e' : EapAkaPrime), e.marshal = .ok b ∧
      (∀ fresh, EapAkaPrime.unmarshal b fresh = (.ok (), e')) ∧ e'.subType = sub ∧
      (∀ t, (e'.lookup t).isSome ↔ t ∈ sets.map Prod.fst) ∧
      ∀ t v, lastSet sets t = some v → ∃ a, e'.getAttr t = .ok a ∧ a.getValue = v := by
  have hc : Carries sub sets e := carries_setAttrs (carries_new sub) h
  have : Nonempty WireAttr := ⟨⟨0, 0, [], [], []⟩⟩
  choose! W hok htype hemit hlast using fun t (ht : t ∈ e.getAttrsKeys) => hc.wire hb ht
  have hkeys : ∀ t, t ∈ e.getAttrsKeys ↔ t ∈ sets.map Prod.fst := by
    intro t
    have hl := congrArg Option.isSome (hc.lookup t)
    rw [Option.isSome_map, Option.isSome_map] at hl
    rw [mem_getAttrsKeys hc.order, hl, lastSet_isSome]
  have hlook := lookup_blank sub 0 htype
  refine ⟨[eapTypeAkaPrime, sub, 0, 0] ++ (e.getAttrsKeys.map W).flatMap WireAttr.octets ++ [],
    (EapAkaPrime.blank sub 0).storeAll (e.getAttrsKeys.map fun k => (W k).attr), ?_, ?_, ?_, ?_, ?_⟩
  · rw [EapAkaPrime.marshal, emitAll_ok hemit, hc.subType, hc.reserved, List.append_nil,
      List.flatMap_map]
    rfl
  · intro fresh
    refine EapAkaPrime.unmarshal_iff.mpr
      ⟨sub, 0, 0, e.getAttrsKeys.map W, [], rfl, ?_, Nat.zero_le _, by rw [List.map_map]; rfl⟩
    intro w hw
    obtain ⟨k, hk, rfl⟩ := List.mem_map.mp hw
    exact hok k hk
  · exact (storeAll_header _ _).1
  · intro t
    rw [hlook, ← hkeys t]
    by_cases ht : t ∈ e.getAttrsKeys
    · simp [ht]
    · simp [ht]
  · intro t v hv
    have ht : t ∈ e.getAttrsKeys := (hkeys t).mpr (lastSet_isSome.mp (by rw [hv]; rfl))
    refine ⟨(W t).attr, EapAkaPrime.getAttr_lookup ?_ (by rw [hlook, if_pos ht]),
      Option.some.inj ((hlast t ht).symm.trans hv)⟩
    intro k b hk
    rw [hlook] at hk
    by_cases hm : k ∈ e.getAttrsKeys
    · rw [if_pos hm] at hk
      obtain rfl := Option.some.inj hk
      exact htype k hm
    · rw [if_neg hm] at hk
      exact absurd hk (by simp)

/-- AT_RES is set twice, AT_KDF_INPUT needs three octets of padding -/
def challengeSets : List (UInt8 × Bytes) :=
  [(atRES, [1, 2, 3, 4]), (atKDFINPUT, [87, 76, 65, 78, 49]), (atKDF, [0, 1]),
    (atAUTS, List.replicate 14 7), (atCHECKCODE, []), (atRES, [9, 8, 7, 6, 5])]

theorem set_read_challenge :
    ∃ (e : EapAkaPrime) (b : Bytes) (e' : EapAkaPrime),
      EapAkaPrime.setAttrs challengeSets (newEapAkaPrime 1) = (.ok (), e) ∧ e.marshal = .ok b ∧
      EapAkaPrime.unmarshal b EapAkaPrime.zero = (.ok (), e') ∧ e'.subType = 1 ∧
      (e'.lookup atKDF).isSome ∧ (e'.lookup atMAC).isSome = false ∧
      ∃ a, e'.getAttr atRES = .ok a ∧ a.getValue = [9, 8, 7, 6, 5] := by
  have hset : EapAkaPrime.setAttrs challengeSets (newEapAkaPrime 1) =
      (.ok (), (EapAkaPrime.setAttrs challengeSets (newEapAkaPrime 1)).2) := rfl
  have hb : ∀ x ∈ challengeSets, Bounded x.1 x.2 := by
    unfold Bounded
    decide
  obtain ⟨b, e', hm, hu, hs, ht, hr⟩ := set_read hset hb
  refine ⟨_, b, e', hset, hm, hu _, hs, (ht atKDF).mpr (by decide), ?_, hr atRES _ (by decide)⟩
  exact Bool.eq_false_iff.mpr fun h => absurd ((ht atMAC).mp h) (by decide)

end Ike
