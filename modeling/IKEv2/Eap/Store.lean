import Mathlib.Algebra.Order.BigOperators.Group.List
import IKEv2.GoLang.KeyedList
import IKEv2.Eap.Attributes

/-!
# The attributes of an EAP-AKA' packet as a list

`EapAkaPrime.Holds e l`: the map and the order of `e` stand for the list `l` of attributes with
distinct types.  Storing an attribute is `put` on that list (`holds_store`), encoding goes through
the list (`Holds.marshal`), and the list determines the packet (`Holds.ext`).

`reserialise_iff` says when the attributes of a received packet are encoded as they came.
-/

set_option linter.unusedVariables false

namespace Ike
open GoLang

structure EapAkaPrime.Holds (e : EapAkaPrime) (l : List EapAkaPrimeAttr) : Prop where
  made : e.attributes.isSome
  order : e.attributeOrder = some (l.map EapAkaPrimeAttr.attrType)
  nodup : (l.map EapAkaPrimeAttr.attrType).Nodup
  lookup : ∀ t, e.lookup t = l.find? fun a => a.attrType = t

theorem holds_blank (sub : UInt8) (res : UInt16) : (EapAkaPrime.blank sub res).Holds [] :=
  ⟨rfl, rfl, List.nodup_nil, fun _ => rfl⟩

/-- storing an attribute puts it into the list -/
theorem holds_store {e : EapAkaPrime} {l : List EapAkaPrimeAttr} (h : e.Holds l)
    (a : EapAkaPrimeAttr) : (e.store a).Holds (put EapAkaPrimeAttr.attrType l a) := by
  refine ⟨rfl, ?_, nodup_put _ h.nodup a, ?_⟩
  · show (if (e.lookup a.attrType).isNone then _ else _) = _
    rw [map_key_put, h.lookup, h.order]
    by_cases ha : a.attrType ∈ l.map EapAkaPrimeAttr.attrType
    · rw [if_pos ha, if_neg (by rw [find?_isNone]; exact not_not_intro ha)]
    · rw [if_neg ha, if_pos ((find?_isNone _).mpr ha)]
      rfl
  · intro t
    rw [find?_put, ← h.lookup t]
    rfl

theorem holds_storeAll {e : EapAkaPrime} {l : List EapAkaPrimeAttr} (h : e.Holds l)
    (as : List EapAkaPrimeAttr) : (e.storeAll as).Holds (putAll EapAkaPrimeAttr.attrType l as) := by
  induction as generalizing e l with
  | nil => exact h
  | cons a as ih => exact ih (holds_store h a)

theorem storeAll_header (e : EapAkaPrime) (as : List EapAkaPrimeAttr) :
    (e.storeAll as).subType = e.subType ∧ (e.storeAll as).reserved = e.reserved := by
  induction as generalizing e with
  | nil => exact ⟨rfl, rfl⟩
  | cons a as ih => exact ih (e.store a)

/-- the encoder goes through the list -/
theorem EapAkaPrime.Holds.marshal {e : EapAkaPrime} {l : List EapAkaPrimeAttr} (h : e.Holds l) :
    e.marshal = .ok ([eapTypeAkaPrime, e.subType] ++ putUint16 e.reserved
      ++ l.flatMap EapAkaPrimeAttr.octets) := by
  have hkeys : e.getAttrsKeys = l.map EapAkaPrimeAttr.attrType := by
    rw [EapAkaPrime.getAttrsKeys, h.order]
  have hemit : ∀ a ∈ l, e.attrOctets a.attrType = .ok a.octets := by
    intro a ha
    rw [EapAkaPrime.attrOctets, h.lookup, find?_of_mem _ h.nodup ha]
  rw [EapAkaPrime.marshal, hkeys, emitAll_map, emitAll_ok hemit]
  rfl

/-- the list determines the packet -/
theorem EapAkaPrime.Holds.ext {e e' : EapAkaPrime} {l : List EapAkaPrimeAttr} (h : e.Holds l)
    (h' : e'.Holds l) (hs : e.subType = e'.subType) (hr : e.reserved = e'.reserved) : e = e' := by
  obtain ⟨m, hm⟩ := Option.isSome_iff_exists.mp h.made
  obtain ⟨m', hm'⟩ := Option.isSome_iff_exists.mp h'.made
  have hmm : m = m' := by
    funext t
    have h1 : e.lookup t = m t := by rw [EapAkaPrime.lookup, hm]; rfl
    have h2 : e'.lookup t = m' t := by rw [EapAkaPrime.lookup, hm']; rfl
    rw [← h1, ← h2, h.lookup, h'.lookup]
  have ho : e.attributeOrder = e'.attributeOrder := by rw [h.order, h'.order]
  obtain ⟨s, r, at1, o⟩ := e
  obtain ⟨s', r', at2, o'⟩ := e'
  simp only at hs hr hm hm' ho
  rw [hs, hr, hm, hm', hmm, ho]

/-- the packet determines the list -/
theorem EapAkaPrime.Holds.unique {e : EapAkaPrime} {l l' : List EapAkaPrimeAttr} (h : e.Holds l)
    (h' : e.Holds l') : l = l' := by
  have hkeys : l.map EapAkaPrimeAttr.attrType = l'.map EapAkaPrimeAttr.attrType := by
    have ho := h.order
    rw [h'.order] at ho
    injection ho with ho
    exact ho.symm
  have hl : ∀ (l : List EapAkaPrimeAttr), e.Holds l →
      l.map some = (l.map EapAkaPrimeAttr.attrType).map e.lookup := by
    intro l hl
    rw [List.map_map]
    refine List.map_congr_left fun a ha => ?_
    show some a = e.lookup a.attrType
    rw [hl.lookup, find?_of_mem _ hl.nodup ha]
  have hsome : l.map some = l'.map some := by rw [hl l h, hl l' h', hkeys]
  exact List.map_injective_iff.mpr (Option.some_injective _) hsome

/-! ## encoding what was received -/

/-- AT_AUTS alone has nothing between the length and the value -/
theorem length_field {w : WireAttr} (hw : w.Ok) (hh : attrKind w.type ≠ .unhandled) :
    w.field.length = if attrKind w.type = .auts then 0 else 2 := by
  unfold WireAttr.Ok at hw
  cases hk : attrKind w.type with
  | value16 => rw [hk] at hw; exact hw.2.1
  | kdfInput => rw [hk] at hw; exact hw.1
  | res => rw [hk] at hw; exact hw.1
  | code => rw [hk] at hw; exact hw.1
  | checkcode => rw [hk] at hw; exact hw.1
  | auts => rw [hk] at hw; rw [hw.2.1]; rfl
  | unhandled => exact absurd hk hh

/-- what the encoder writes for a received attribute is as long as the attribute without padding -/
theorem length_octets_attr {w : WireAttr} (hw : w.Ok) (hh : attrKind w.type ≠ .unhandled) :
    w.octets.length = w.attr.octets.length + w.padding.length := by
  have hfield := length_field hw hh
  have hval : w.attr.value = w.value := rfl
  have hty : w.attr.attrType = w.type := rfl
  unfold WireAttr.octets EapAkaPrimeAttr.octets
  rw [hval, hty]
  by_cases ha : w.type = atAUTS
  · rw [if_neg (not_not_intro ha)]
    rw [if_pos (attrKind_auts.mpr ha)] at hfield
    simp only [List.length_cons, List.length_append, hfield, List.length_nil]
    omega
  · rw [if_pos ha]
    rw [if_neg (fun h => ha (attrKind_auts.mp h))] at hfield
    simp only [List.length_cons, List.length_append, hfield, List.length_nil, length_putUint16]
    omega

/-- the encoder gives this attribute back as it came: no padding, and zeros in the two octets that
the decoder does not keep -/
def WireAttr.Exact (w : WireAttr) : Prop :=
  w.padding = [] ∧
    (attrKind w.type = .value16 ∨ attrKind w.type = .checkcode → w.field = [0, 0])

theorem putUint16_fieldNum {w : WireAttr} (h : w.field.length = 2) :
    putUint16 w.fieldNum = w.field := by
  obtain ⟨ty, le, f, v, p⟩ := w
  obtain ⟨x, y, rfl⟩ := List.length_eq_two.mp h
  have ho : octNat [x, y] = x.toNat * 256 + y.toNat := by simp [octNat]
  show putUint16 (UInt16.ofNat (octNat [x, y])) = [x, y]
  rw [ho, putUint16_ofOctets]

theorem octets_attr_iff {w : WireAttr} (hw : w.Ok) (hh : attrKind w.type ≠ .unhandled) :
    w.attr.octets = w.octets ↔ w.Exact := by
  have hcancel : ∀ f : Bytes, [w.type, w.length] ++ f ++ w.value = w.octets ↔
      f ++ w.value = w.field ++ w.value ++ w.padding := by
    intro f
    simp [WireAttr.octets]
  have hother : attrKind w.type ≠ .auts →
      w.attr.octets = [w.type, w.length] ++ putUint16 w.attr.reserved ++ w.value := by
    intro hne
    show _ ++ (if w.type ≠ atAUTS then _ else _) ++ _ = _
    rw [if_pos fun h => hne (attrKind_auts.mpr h)]
    rfl
  -- the field is kept as a number, or not at all
  have hnum : attrKind w.type ≠ .auts → w.field.length = 2 → w.attr.reserved = w.fieldNum →
      (w.attr.octets = w.octets ↔ w.padding = []) := by
    intro hne h2 hres
    rw [hother hne, hcancel, hres, putUint16_fieldNum h2]
    simp
  have hzero : attrKind w.type ≠ .auts → w.attr.reserved = 0 → w.padding = [] →
      (w.attr.octets = w.octets ↔ w.field = [0, 0]) := by
    intro hne hres hp
    rw [hother hne, hcancel, hres, hp, List.append_nil, List.append_left_inj]
    exact eq_comm
  unfold WireAttr.Ok at hw
  unfold WireAttr.Exact
  cases hk : attrKind w.type with
  | value16 =>
    rw [hk] at hw hzero
    rw [hzero (by simp) (by simp only [WireAttr.attr, hk]) hw.2.2.2, hw.2.2.2]
    simp
  | kdfInput =>
    rw [hk] at hw hnum
    rw [hnum (by simp) hw.1 (by simp only [WireAttr.attr, hk])]
    simp
  | res =>
    rw [hk] at hw hnum
    rw [hnum (by simp) hw.1 (by simp only [WireAttr.attr, hk])]
    simp
  | code =>
    rw [hk] at hw hnum
    rw [hnum (by simp) hw.1 (by simp only [WireAttr.attr, hk])]
    simp
  | checkcode =>
    rw [hk] at hw hzero
    rw [hzero (by simp) (by simp only [WireAttr.attr, hk]) hw.2.2, hw.2.2]
    simp
  | auts =>
    rw [hk] at hw
    have hoct : w.attr.octets = [w.type, w.length] ++ [] ++ w.value := by
      show _ ++ (if w.type ≠ atAUTS then _ else _) ++ _ = _
      rw [if_neg (not_not_intro (attrKind_auts.mp hk))]
      rfl
    rw [hoct, hcancel, hw.2.1, hw.2.2.2]
    simp
  | unhandled => exact absurd hk hh

theorem flatMap_congr_iff {α : Type} {g h : α → Bytes} {l : List α}
    (hlen : ∀ a ∈ l, (g a).length = (h a).length) :
    l.flatMap g = l.flatMap h ↔ ∀ a ∈ l, g a = h a := by
  induction l with
  | nil => simp
  | cons a l ih =>
    rw [List.flatMap_cons, List.flatMap_cons]
    constructor
    · intro he
      obtain ⟨h1, h2⟩ := List.append_inj he (hlen a (List.mem_cons_self ..))
      have h3 := (ih fun b hb => hlen b (List.mem_cons_of_mem _ hb)).mp h2
      exact List.forall_mem_cons.mpr ⟨h1, h3⟩
    · intro hall
      rw [hall a (List.mem_cons_self ..),
        (ih fun b hb => hlen b (List.mem_cons_of_mem _ hb)).mpr fun b hb =>
          hall b (List.mem_cons_of_mem _ hb)]

theorem sum_length_octets {ws : List WireAttr} (hw : ∀ w ∈ ws, w.Ok)
    (hh : ∀ w ∈ ws, attrKind w.type ≠ .unhandled) :
    (ws.flatMap WireAttr.octets).length =
      ((ws.map WireAttr.attr).map fun a => a.octets.length).sum +
        (ws.map fun w => w.padding.length).sum := by
  induction ws with
  | nil => rfl
  | cons w ws ih =>
    have h1 := length_octets_attr (hw w (List.mem_cons_self ..)) (hh w (List.mem_cons_self ..))
    have h2 := ih (fun x hx => hw x (List.mem_cons_of_mem _ hx))
      (fun x hx => hh x (List.mem_cons_of_mem _ hx))
    simp only [List.flatMap_cons, List.length_append, List.map_cons, List.sum_cons]
    omega

/-- **Received attributes are encoded as they came** iff no octet stands behind them, no type occurs
twice and each of them is exact. -/
theorem reserialise_iff {ws : List WireAttr} {tail : Bytes} (hw : ∀ w ∈ ws, w.Ok)
    (hh : ∀ w ∈ ws, attrKind w.type ≠ .unhandled) :
    (putAll EapAkaPrimeAttr.attrType [] (ws.map WireAttr.attr)).flatMap EapAkaPrimeAttr.octets =
        ws.flatMap WireAttr.octets ++ tail ↔
      tail = [] ∧ (ws.map WireAttr.type).Nodup ∧ ∀ w ∈ ws, w.Exact := by
  have htypes : (ws.map WireAttr.attr).map EapAkaPrimeAttr.attrType = ws.map WireAttr.type := by
    rw [List.map_map]
    rfl
  constructor
  · intro he
    have hlen := congrArg List.length he
    rw [List.length_append, sum_length_octets hw hh, List.length_flatMap] at hlen
    have hle := sum_putAll_le EapAkaPrimeAttr.attrType (fun a => a.octets.length)
      (l := []) List.nodup_nil (ws.map WireAttr.attr)
    rw [List.map_nil, List.sum_nil] at hle
    have hnodup := nodup_of_sum_putAll EapAkaPrimeAttr.attrType (fun a => a.octets.length)
      (fun a => by simp [EapAkaPrimeAttr.octets]) (l := []) List.nodup_nil
      (ws.map WireAttr.attr) (by rw [List.map_nil, List.sum_nil]; omega)
    rw [List.nil_append] at hnodup
    have hall : putAll EapAkaPrimeAttr.attrType [] (ws.map WireAttr.attr) = ws.map WireAttr.attr :=
      putAll_of_nodup _ [] _ hnodup
    have htail : tail = [] := List.length_eq_zero_iff.mp (by omega)
    have hpad : ∀ w ∈ ws, w.padding = [] := by
      intro w hm
      have hz : (ws.map fun w => w.padding.length).sum = 0 := by omega
      have hmem := List.mem_map_of_mem (f := fun w : WireAttr => w.padding.length) hm
      have hle := List.le_sum_of_mem hmem
      exact List.length_eq_zero_iff.mp (by omega)
    have hsame : ∀ w ∈ ws, w.attr.octets = w.octets := by
      rw [hall, htail, List.append_nil, List.flatMap_map] at he
      refine (flatMap_congr_iff ?_).mp he
      intro w hm
      have h1 := length_octets_attr (hw w hm) (hh w hm)
      rw [hpad w hm] at h1
      exact h1.symm
    refine ⟨htail, by rw [← htypes]; exact hnodup, ?_⟩
    intro w hm
    exact (octets_attr_iff (hw w hm) (hh w hm)).mp (hsame w hm)
  · rintro ⟨rfl, hn, hexact⟩
    have hall : putAll EapAkaPrimeAttr.attrType [] (ws.map WireAttr.attr) = ws.map WireAttr.attr :=
      putAll_of_nodup _ [] _ (by rw [List.nil_append, htypes]; exact hn)
    rw [hall, List.append_nil, List.flatMap_map]
    refine (flatMap_congr_iff ?_).mpr ?_
    · intro w hm
      have h1 := length_octets_attr (hw w hm) (hh w hm)
      rw [(hexact w hm).1] at h1
      exact h1.symm
    · intro w hm
      exact (octets_attr_iff (hw w hm) (hh w hm)).mpr (hexact w hm)

end Ike
