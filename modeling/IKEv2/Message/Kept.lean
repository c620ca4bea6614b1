import IKEv2.Message.Payload

/-!
# Which payload bodies come back

`Returns marshal unmarshal x n`: `x` is written as `n` octets, and these octets are read as `x`
again.  For what a decoder made of a body, the lemmas `*_returns_iff` say when this is so, as a
condition on the body: the decoders accept empty bodies, counts that do not fit and attribute types
that the encoders refuse or write differently.

* `tagged_returns_iff`         IDi, IDr, CERT, CERTreq, AUTH: all but the empty body;
* `KeyExchange.returns_iff`    the same for KE;
* `Notification.returns_iff`   every body;
* `Delete.returns_iff`         the count and the size have to agree with four octets for each SPI;
* `ts_returns_iff`             at least one selector;
* `Configuration.returns_iff`  no attribute type with its top bit set.
-/

set_option linter.unusedVariables false

namespace Ike
open GoLang

/-- `x` is written as `n` octets, which are read as `x` -/
def Returns {α : Type} (marshal : α → Outcome Bytes) (unmarshal : Slice UInt8 → Outcome α) (x : α)
    (n : Nat) : Prop :=
  ∃ data sp, marshal x = .ok data ∧ data.length = n ∧ unmarshal ⟨data, sp⟩ = .ok x

section
variable {α : Type} {m : α → Outcome Bytes} {u : Slice UInt8 → Outcome α} {x : α} {n : Nat}

/-- the octets of `x` are known, and how they are read does not depend on what lies behind them -/
theorem returns_of_ok {d : Bytes} {r : Outcome α} (hm : m x = .ok d) (hu : ∀ sp, u ⟨d, sp⟩ = r) :
    Returns m u x n ↔ n = d.length ∧ r = .ok x := by
  constructor
  · intro h
    obtain ⟨d', sp, hm', hl, hu'⟩ := h
    rw [hm] at hm'
    injection hm' with hm'
    subst hm'
    exact ⟨hl.symm, by rw [← hu sp]; exact hu'⟩
  · intro h
    exact ⟨d, [], hm, h.1.symm, by rw [hu]; exact h.2⟩

theorem not_returns (h : ∀ d, m x ≠ .ok d) : ¬ Returns m u x n := by
  intro hr
  obtain ⟨d, _, hm, _⟩ := hr
  exact h d hm

end

/-! ## one octet, reserved octets, data -/

theorem tagged_returns {k : Nat} (hk : 0 < k) (t : String) (r : UInt8 × Bytes) (n : Nat) :
    Returns (fun r : UInt8 × Bytes => .ok (taggedMarshal k r.1 r.2)) (taggedUnmarshal k t (0, [])) r n ↔
      n = k + r.2.length ∧ r.2 ≠ [] := by
  have hlen : (taggedMarshal k r.1 r.2).length = k + r.2.length := by
    simp only [taggedMarshal, List.length_append, List.length_cons, List.length_replicate]
    omega
  rw [returns_of_ok (m := fun r : UInt8 × Bytes => .ok (taggedMarshal k r.1 r.2)) rfl
    (taggedUnmarshal_marshal k hk t (0, []) r.1 r.2), hlen]
  refine and_congr_right fun _ => ?_
  by_cases h0 : r.2 = []
  · rw [if_pos h0]
    exact ⟨fun h => absurd h (fail_ne_ok _ _), fun h => absurd h0 h⟩
  · rw [if_neg h0]
    exact ⟨fun _ => h0, fun _ => rfl⟩

/-- a tagged payload comes back unless it was read from nothing -/
theorem tagged_returns_iff {k : Nat} (hk : 0 < k) {t : String} {body sp : Bytes} {r : UInt8 × Bytes}
    (h : taggedUnmarshal k t (0, []) ⟨body, sp⟩ = .ok r) (n : Nat) :
    Returns (fun r : UInt8 × Bytes => .ok (taggedMarshal k r.1 r.2)) (taggedUnmarshal k t (0, [])) r n ↔
      body ≠ [] ∧ n = body.length := by
  rw [tagged_returns hk]
  cases body with
  | nil =>
    rw [taggedUnmarshal_nil] at h
    injection h with h
    subst h
    simp
  | cons tag l =>
    rw [taggedUnmarshal_cons] at h
    by_cases hl : l.length + 1 ≤ k
    · rw [if_pos hl] at h
      exact absurd h (fail_ne_ok _ _)
    · rw [if_neg hl] at h
      injection h with h
      subst h
      have hd : ((tag :: l).drop k).length = l.length + 1 - k := by
        rw [List.length_drop, List.length_cons]
      have hne : (tag :: l).drop k ≠ [] := by
        intro h0
        rw [h0, List.length_nil] at hd
        omega
      simp only [List.nil_append, hd, List.length_cons, ne_eq, hne, not_false_eq_true, and_true,
        reduceCtorEq, true_and]
      omega

theorem KeyExchange.returns_iff {body sp : Bytes} {p : KeyExchange}
    (h : KeyExchange.unmarshal ⟨0, []⟩ ⟨body, sp⟩ = .ok p) (n : Nat) :
    Returns KeyExchange.marshal (KeyExchange.unmarshal ⟨0, []⟩) p n ↔
      body ≠ [] ∧ n = body.length := by
  have hlen : (putUint16 p.diffieHellmanGroup ++ [0, 0] ++ p.keyExchangeData).length =
      4 + p.keyExchangeData.length := by
    simp only [List.length_append, length_putUint16, List.length_cons, List.length_nil]
  have hm : p.marshal =
      .ok (putUint16 p.diffieHellmanGroup ++ [0, 0] ++ p.keyExchangeData) := rfl
  rw [returns_of_ok hm (fun sp => KeyExchange.unmarshal_eq ⟨0, []⟩ _ sp), hlen,
    if_neg (fun h0 => by rw [h0, List.length_nil] at hlen; omega)]
  rw [KeyExchange.unmarshal_eq] at h
  by_cases h0 : body = []
  · rw [if_pos h0] at h
    injection h with h
    subst h
    simp [h0]
  · rw [if_neg h0] at h
    by_cases h4 : body.length ≤ 4
    · rw [if_pos h4] at h
      exact absurd h (fail_ne_ok _ _)
    · rw [if_neg h4] at h
      injection h with h
      have hd : p.keyExchangeData.length = body.length - 4 := by
        rw [← h, List.nil_append, List.length_drop]
      rw [if_neg (by omega)]
      have hsame : (⟨UInt16.ofNat (octNat ((putUint16 p.diffieHellmanGroup ++ [0, 0] ++
          p.keyExchangeData).take 2)), [] ++ (putUint16 p.diffieHellmanGroup ++ [0, 0] ++
          p.keyExchangeData).drop 4⟩ : KeyExchange) = p := by
        rw [List.drop_left' (by simp), List.append_assoc, List.take_left' (length_putUint16 _),
          putUint16, octNat_octets_of_lt (show _ < 256 ^ 2 from p.diffieHellmanGroup.toNat_lt),
          UInt16.ofNat_toNat]
        rfl
      rw [hsame]
      constructor
      · intro hn
        exact ⟨h0, by omega⟩
      · intro hn
        exact ⟨by omega, rfl⟩

/-! ## Nonce, Vendor ID, Encrypted, Notification -/

theorem Nonce.returns_iff {body sp : Bytes} {p : Nonce}
    (h : Nonce.unmarshal ⟨[]⟩ ⟨body, sp⟩ = .ok p) (n : Nat) :
    Returns Nonce.marshal (Nonce.unmarshal ⟨[]⟩) p n ↔ n = body.length := by
  rw [Nonce.unmarshal_eq] at h
  injection h with h
  have hm : p.marshal = .ok p.nonceData := rfl
  rw [returns_of_ok (r := .ok p) hm (fun sp => Nonce.unmarshal_eq ⟨[]⟩ ⟨_, sp⟩), ← h]
  exact and_iff_left rfl

theorem VendorID.returns_iff {body sp : Bytes} {p : VendorID}
    (h : VendorID.unmarshal ⟨[]⟩ ⟨body, sp⟩ = .ok p) (n : Nat) :
    Returns VendorID.marshal (VendorID.unmarshal ⟨[]⟩) p n ↔ n = body.length := by
  rw [VendorID.unmarshal_eq] at h
  injection h with h
  have hm : p.marshal = .ok p.vendorIDData := rfl
  rw [returns_of_ok (r := .ok p) hm (fun sp => VendorID.unmarshal_eq ⟨[]⟩ ⟨_, sp⟩), ← h]
  exact and_iff_left rfl

theorem Encrypted.returns_iff {next next' : UInt8} {body sp : Bytes} {p : Encrypted}
    (h : Encrypted.unmarshal ⟨next, []⟩ ⟨body, sp⟩ = .ok p) (hn : next' = next) (n : Nat) :
    Returns Encrypted.marshal (Encrypted.unmarshal ⟨next', []⟩) p n ↔
      body ≠ [] ∧ n = body.length := by
  injection h with h
  subst h hn
  by_cases h0 : body = []
  · have hm : ∀ data, Encrypted.marshal ⟨next', [] ++ body⟩ ≠ .ok data := by
      intro data
      rw [Encrypted.marshal, if_pos (by rw [h0]; rfl)]
      exact fail_ne_ok _ _
    exact ⟨fun hr => absurd hr (not_returns hm), fun hr => absurd h0 hr.1⟩
  · have hm : Encrypted.marshal ⟨next', [] ++ body⟩ = .ok body :=
      if_neg fun hl => h0 (List.length_eq_zero_iff.mp hl)
    rw [returns_of_ok (r := .ok ⟨next', [] ++ body⟩) hm (fun sp => rfl)]
    exact ⟨fun hr => ⟨h0, hr.1⟩, fun hr => ⟨hr.2, rfl⟩⟩

/-- the octets of a notification that was read are those it was read from -/
theorem Notification.returns_iff {body sp : Bytes} {p : Notification}
    (h : Notification.unmarshal ⟨0, 0, [], []⟩ ⟨body, sp⟩ = .ok p) (n : Nat) :
    Returns Notification.marshal (Notification.unmarshal ⟨0, 0, [], []⟩) p n ↔
      n = if body = [] then 4 else body.length := by
  rcases header_cases body with rfl | ⟨h0, h4⟩ | ⟨proto, size, m1, m2, l, rfl⟩
  · injection h with h
    subst h
    rw [returns_of_ok (m := Notification.marshal) (d := [0, 0, 0, 0])
      (r := .ok ⟨0, 0, [], []⟩) rfl (fun sp => by rw [Notification.unmarshal_cons]; rfl)]
    exact and_iff_left rfl
  · rw [Notification.unmarshal_short _ h0 h4] at h
    exact absurd h (fail_ne_ok _ _)
  · have hread := h
    rw [Notification.unmarshal_cons] at h
    by_cases hw : 252 ≤ size.toNat
    · rw [if_pos hw] at h
      exact absurd h (by simp)
    rw [if_neg hw] at h
    by_cases hl : l.length < size.toNat
    · rw [if_pos hl] at h
      exact absurd h (fail_ne_ok _ _)
    rw [if_neg hl] at h
    injection h with h
    have hm : p.marshal = .ok (proto :: size :: m1 :: m2 :: l) := by
      have hlen : (l.take size.toNat).length = size.toNat := by
        rw [List.length_take]
        omega
      rw [← h]
      show Notification.marshal ⟨proto, _, l.take size.toNat, l.drop size.toNat⟩ = _
      rw [Notification.marshal, if_neg (by rw [hlen]; omega)]
      simp only [hlen, putUint16_ofOctets, UInt8.ofNat_toNat, List.append_assoc,
        List.take_append_drop]
      rfl
    rw [returns_of_ok hm (fun sp' => (Notification.unmarshal_spare _ _ sp' sp).trans hread),
      if_neg (by simp)]
    exact and_iff_left rfl

/-! ## Delete -/

/-- the SPIs fill the payload, four octets each, and the header says so -/
def DeleteKept (body : Bytes) (n : Nat) : Prop :=
  (body = [] ∧ n = 4) ∨
    ∃ proto size n1 n2 l, body = proto :: size :: n1 :: n2 :: l ∧
      l.length = 4 * (n1.toNat * 256 + n2.toNat) ∧ (l = [] ∨ size.toNat = 4) ∧ n = body.length

theorem Delete.returns_cons_iff {proto size n1 n2 : UInt8} {l sp : Bytes} {p : Delete}
    (h : Delete.unmarshal ⟨0, 0, 0, []⟩ ⟨proto :: size :: n1 :: n2 :: l, sp⟩ = .ok p) (n : Nat) :
    Returns Delete.marshal (Delete.unmarshal ⟨0, 0, 0, []⟩) p n ↔
      l.length = 4 * (n1.toNat * 256 + n2.toNat) ∧ (l = [] ∨ size.toNat = 4) ∧ n = l.length + 4 := by
  have h1 : n1.toNat < 256 := n1.toNat_lt
  have h2 : n2.toNat < 256 := n2.toNat_lt
  have hnum : (UInt16.ofNat (n1.toNat * 256 + n2.toNat)).toNat = n1.toNat * 256 + n2.toNat :=
    UInt16.toNat_ofNat_of_lt' (show _ < 65536 by omega)
  have hread := h
  rw [Delete.unmarshal_cons] at h
  split at h
  · exact absurd h (fail_ne_ok _ _)
  rename_i hroom
  obtain ⟨r, hr, hp⟩ := Outcome.map_eq_ok.mp h
  constructor
  · intro hret
    obtain ⟨data, sp', hm, hlen, hu⟩ := hret
    have hsize := Delete.size_of_survives hm hu
    obtain ⟨hcount, _, hdata⟩ := Delete.marshal_eq_ok.mp hm
    have hloop := spiLoop_length _ _ _ hr
    rw [← hp] at hcount hsize hdata
    simp only [List.length_nil, Slice.len_mk, Nat.zero_add] at hloop
    simp only [hnum] at hcount hsize hdata
    have hdlen : data.length = 4 + (size.toNat - 4 + 4) * r.2.length := by
      rw [hdata, List.length_append, length_flatMap_const _ _ (size.toNat - 4 + 4)]
      · simp
      · intro v
        simp only [List.length_append, length_putUint32, List.length_replicate]
        omega
    rcases hsize with h0 | h4
    · rw [h0, List.length_nil] at hloop hcount hdlen
      have hl : l = [] := List.length_eq_zero_iff.mp (by omega)
      subst hl
      exact ⟨by simp only [List.length_nil]; omega, Or.inl rfl, by simp only [List.length_nil]; omega⟩
    · rw [h4] at hroom hdlen
      exact ⟨by omega, Or.inr h4, by omega⟩
  · intro hkept
    obtain ⟨hl, hsize, hn⟩ := hkept
    obtain ⟨vs, rfl, hvs⟩ := exists_words l _ hl
    have hvals : r.2 = vs := by
      have hw := spiLoop_words ⟨vs.flatMap putUint32, sp⟩ vs [] rfl
      rw [hr] at hw
      injection hw with hw
      rw [hw]
      rfl
    have hsize' : vs = [] ∨ size.toNat = 4 := by
      refine hsize.imp_left fun h0 => ?_
      rw [h0, List.length_nil] at hl
      exact List.length_eq_zero_iff.mp (by omega)
    have hm : p.marshal = .ok (proto :: size :: n1 :: n2 :: vs.flatMap putUint32) := by
      rw [← hp, hvals]
      refine Delete.marshal_eq_ok.mpr ⟨by rw [hnum]; exact hvs, ?_, ?_⟩
      · exact hsize'.imp_right fun h4 => le_of_eq h4.symm
      · simp only [putUint16_ofOctets]
        rcases hsize' with h0 | h4
        · rw [h0]
          rfl
        · simp [h4]
    exact ⟨_, sp, hm, by rw [hn]; rfl, hread⟩

theorem Delete.returns_iff {body sp : Bytes} {p : Delete}
    (h : Delete.unmarshal ⟨0, 0, 0, []⟩ ⟨body, sp⟩ = .ok p) (n : Nat) :
    Returns Delete.marshal (Delete.unmarshal ⟨0, 0, 0, []⟩) p n ↔ DeleteKept body n := by
  rcases header_cases body with rfl | ⟨h0, h4⟩ | ⟨proto, size, n1, n2, l, rfl⟩
  · injection h with h
    subst h
    rw [returns_of_ok (m := Delete.marshal) (d := [0, 0, 0, 0]) (r := .ok ⟨0, 0, 0, []⟩) rfl
      (fun sp => by rw [Delete.unmarshal_cons, if_neg (by simp), spiLoop_done _ _ _ (by simp)]; rfl)]
    simp [DeleteKept]
  · rw [Delete.unmarshal_short _ _ _ h0 (by omega)] at h
    exact absurd h (fail_ne_ok _ _)
  · rw [Delete.returns_cons_iff h]
    constructor
    · intro hk
      exact Or.inr ⟨proto, size, n1, n2, l, rfl, hk.1, hk.2.1, hk.2.2⟩
    · intro hk
      rcases hk with ⟨h0, _⟩ | ⟨_, _, _, _, _, he, hl, hs, hn⟩
      · exact absurd h0 (by simp)
      · simp only [List.cons.injEq] at he
        obtain ⟨rfl, rfl, rfl, rfl, rfl⟩ := he
        exact ⟨hl, hs, hn⟩

/-! ## traffic selectors -/

/-- the header announces a selector, and those it announces are there -/
def SelectorsKept (body : Bytes) (n : Nat) : Prop :=
  ∃ c r1 r2 r3 tss rest, body = c :: r1 :: r2 :: r3 :: (tss.flatMap selectorOctets ++ rest) ∧
    tss.length = c.toNat ∧ tss ≠ [] ∧ (∀ ts ∈ tss, SelectorOk ts) ∧
    n = 4 + (tss.flatMap selectorOctets).length

theorem ts_returns_iff (t : String) {body sp : Bytes} {tss : List IndividualTrafficSelector}
    (h : tsUnmarshal [] ⟨body, sp⟩ = .ok tss) (n : Nat) :
    Returns (tsMarshal t) (tsUnmarshal []) tss n ↔ SelectorsKept body n := by
  constructor
  · intro hret
    obtain ⟨data, _, hm, hlen, _⟩ := hret
    obtain ⟨⟨hne, _, _⟩, rfl⟩ := tsMarshal_iff.mp hm
    rcases tsUnmarshal_iff.mp h with ⟨_, h0⟩ | ⟨c, r1, r2, r3, tss', rest, hb, hc, hok, hr⟩
    · exact absurd h0 hne
    · rw [List.nil_append] at hr
      subst hr
      refine ⟨c, r1, r2, r3, tss, rest, hb, hc, hne, hok, ?_⟩
      rw [← hlen, List.length_append]
      rfl
  · intro hk
    obtain ⟨c, r1, r2, r3, tss', rest, hb, hc, hne, hok, hn⟩ := hk
    have hread : tsUnmarshal [] ⟨body, sp⟩ = .ok ([] ++ tss') :=
      tsUnmarshal_iff.mpr (Or.inr ⟨c, r1, r2, r3, tss', rest, hb, hc, hok, rfl⟩)
    rw [h] at hread
    injection hread with hread
    rw [List.nil_append] at hread
    subst hread
    have h255 : tss.length < 256 := by
      rw [hc]
      exact c.toNat_lt
    have hm := (tsMarshal_iff (t := t)).mpr ⟨⟨hne, by omega, hok⟩, rfl⟩
    exact ⟨_, [], hm, by rw [hn, List.length_append]; rfl, tsUnmarshal_marshal hm []⟩

/-! ## Configuration -/

/-- there is an attribute, and no attribute type uses the reserved top bit -/
def AttributesKept (body : Bytes) (n : Nat) : Prop :=
  ∃ t r1 r2 r3 as, body = t :: r1 :: r2 :: r3 :: as.flatMap attrOctets ∧ as ≠ [] ∧
    (∀ a ∈ as, AttrOk a) ∧ (∀ a ∈ as, a.type.toNat < 2 ^ 15) ∧ n = body.length

/-- the attribute as the encoder writes it -/
def clearTop (a : IndividualConfigurationAttribute) : IndividualConfigurationAttribute :=
  ⟨a.type &&& 0x7fff, a.value⟩

theorem clearTop_eq_self (a : IndividualConfigurationAttribute) :
    clearTop a = a ↔ a.type.toNat < 2 ^ 15 := by
  obtain ⟨t, v⟩ := a
  have hand : (t &&& 0x7fff).toNat = t.toNat % 2 ^ 15 := by
    rw [UInt16.toNat_and]
    exact Nat.and_two_pow_sub_one_eq_mod t.toNat 15
  rw [clearTop, IndividualConfigurationAttribute.mk.injEq, and_iff_left rfl, ← UInt16.toNat_inj,
    hand]
  exact ⟨fun h => by rw [← h]; exact Nat.mod_lt _ (by decide), Nat.mod_eq_of_lt⟩

theorem map_clearTop_eq_self (as : List IndividualConfigurationAttribute) :
    as.map clearTop = as ↔ ∀ a ∈ as, a.type.toNat < 2 ^ 15 := by
  simp only [← clearTop_eq_self]
  conv_lhs => rhs; rw [← List.map_id' as]
  exact List.map_inj_left

theorem Configuration.marshal_ok {c : Configuration}
    (h : ∀ a ∈ c.configurationAttribute, AttrOk a) :
    c.marshal = .ok ([c.configurationType, 0, 0, 0] ++
      (c.configurationAttribute.map clearTop).flatMap attrOctets) := by
  have hall : emitAll IndividualConfigurationAttribute.marshal c.configurationAttribute =
      .ok (c.configurationAttribute.flatMap fun a => attrOctets (clearTop a)) := by
    apply emitAll_ok
    intro a ha
    have hv : a.value.length < 65536 := h a ha
    exact if_neg (by omega)
  rw [Configuration.marshal, hall, List.flatMap_map]
  rfl

theorem length_clearTop (as : List IndividualConfigurationAttribute) :
    ((as.map clearTop).flatMap attrOctets).length = (as.flatMap attrOctets).length := by
  simp only [List.length_flatMap, List.map_map, Function.comp_def, length_attrOctets, clearTop]

theorem Configuration.returns_iff {body sp : Bytes} {c : Configuration}
    (h : Configuration.unmarshal ⟨0, []⟩ ⟨body, sp⟩ = .ok c) (n : Nat) :
    Returns Configuration.marshal (Configuration.unmarshal ⟨0, []⟩) c n ↔ AttributesKept body n := by
  constructor
  · intro hret
    obtain ⟨data, sp', hm, hlen, hu⟩ := hret
    rcases (Configuration.unmarshal_iff ..).mp h with ⟨_, rfl⟩ | ⟨t, r1, r2, r3, as, hb, hne, hok, hc⟩
    · injection hm with hm
      subst hm
      exact absurd hu (by simp [Configuration.unmarshal])
    · rw [List.nil_append] at hc
      subst hc
      rw [Configuration.marshal_ok hok] at hm
      injection hm with hm
      have hread := (Configuration.unmarshal_iff ⟨0, []⟩ ⟨t, as.map clearTop⟩ data sp').mpr
        (Or.inr ⟨t, 0, 0, 0, as.map clearTop, hm.symm, by simpa using hne, ?_, rfl⟩)
      · rw [hu] at hread
        injection hread with hread
        injection hread with _ hsame
        refine ⟨t, r1, r2, r3, as, hb, hne, hok, (map_clearTop_eq_self as).mp hsame.symm, ?_⟩
        rw [← hlen, ← hm, hb, List.length_append, length_clearTop]
        simp only [List.length_cons, List.length_nil]
        omega
      · intro a ha
        obtain ⟨a', ha', rfl⟩ := List.mem_map.mp ha
        exact hok a' ha'
  · intro hk
    obtain ⟨t, r1, r2, r3, as, hb, hne, hok, htop, hn⟩ := hk
    have hread := (Configuration.unmarshal_iff ⟨0, []⟩ ⟨t, as⟩ body sp).mpr
      (Or.inr ⟨t, r1, r2, r3, as, hb, hne, hok, rfl⟩)
    rw [h] at hread
    injection hread with hread
    subst hread
    have hm := Configuration.marshal_ok (c := ⟨t, as⟩) hok
    rw [(map_clearTop_eq_self as).mpr htop] at hm
    refine ⟨_, [], hm, ?_, ?_⟩
    · rw [hn, hb, List.length_append]
      simp only [List.length_cons, List.length_nil]
      omega
    · exact (Configuration.unmarshal_iff ..).mpr (Or.inr ⟨t, 0, 0, 0, as, rfl, hne, hok, rfl⟩)

end Ike
