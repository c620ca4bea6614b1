import IKEv2.Eap.AkaPrime

/-!
# EAP-AKA' attributes on the wire

`WireAttr` is an attribute as it stands in a packet: type, length, the two octets behind them, value
and padding.  `WireAttr.Ok` is what the decoder asks of it, `WireAttr.attr` what the decoder keeps.

* `readAttr_iff`              one attribute;
* `attrLoop_ok_iff`           the loop: the data are a concatenation of attributes, and at most one
                              octet behind them;
* `EapAkaPrime.unmarshal_iff` the packet.
-/

set_option linter.unusedVariables false

namespace Ike
open GoLang

structure WireAttr where
  type : UInt8
  length : UInt8
  field : Bytes
  value : Bytes
  padding : Bytes
deriving DecidableEq, Repr

namespace WireAttr

def octets (w : WireAttr) : Bytes := w.type :: w.length :: (w.field ++ w.value ++ w.padding)

/-- the two octets behind type and length, as a number -/
def fieldNum (w : WireAttr) : UInt16 := UInt16.ofNat (octNat w.field)

/-- the number of value octets that the field of AT_KDF_INPUT or AT_RES announces -/
def actualLen (w : WireAttr) : UInt16 :=
  if attrKind w.type = .res then w.fieldNum / 8 else w.fieldNum

def Padded (w : WireAttr) : Prop :=
  w.field.length = 2 ∧ w.value.length = w.actualLen.toNat ∧
    w.padding.length = (paddingLen w.length w.actualLen).toNat

/-- what the decoder accepts as one attribute -/
def Ok (w : WireAttr) : Prop :=
  match attrKind w.type with
  | .value16 => w.length = 5 ∧ w.field.length = 2 ∧ w.value.length = 16 ∧ w.padding = []
  | .kdfInput => w.Padded
  | .res => w.Padded
  | .code => w.field.length = 2 ∧ w.value = [] ∧ w.padding = []
  | .checkcode => w.field.length = 2 ∧ w.value.length = (4 * w.length - 1 - 1 - 2).toNat ∧
      w.padding = []
  | .auts => w.length = 4 ∧ w.field = [] ∧ w.value.length = 14 ∧ w.padding = []
  | .unhandled => w.field = [] ∧ w.value = [] ∧ w.padding = []

/-- what is kept of it -/
def attr (w : WireAttr) : EapAkaPrimeAttr :=
  { attrType := w.type
    length := w.length
    reserved := match attrKind w.type with
      | .kdfInput => w.fieldNum
      | .res => w.fieldNum
      | .code => w.fieldNum
      | _ => 0
    value := w.value }

/-- AT_KDF_INPUT and AT_RES -/
theorem ok_padded {w : WireAttr} (hk : attrKind w.type = .kdfInput ∨ attrKind w.type = .res) :
    w.Ok ↔ w.Padded := by
  unfold Ok
  rcases hk with hk | hk
  · rw [hk]
  · rw [hk]

theorem attr_padded (w : WireAttr) (hk : attrKind w.type = .kdfInput ∨ attrKind w.type = .res) :
    w.attr = ⟨w.type, w.length, w.fieldNum, w.value⟩ := by
  unfold attr
  rcases hk with hk | hk
  · rw [hk]
  · rw [hk]

end WireAttr

/-- the types of each kind -/
theorem attrKind_types (t : UInt8) :
    match attrKind t with
    | .value16 => t = atMAC ∨ t = atRAND ∨ t = atAUTN
    | .kdfInput => t = atKDFINPUT
    | .res => t = atRES
    | .code => t = atKDF ∨ t = atNOTIFICATION
    | .checkcode => t = atCHECKCODE
    | .auts => t = atAUTS
    | .unhandled => True := by
  unfold attrKind
  split_ifs
  all_goals first | assumption | trivial

theorem attrKind_auts {t : UInt8} : attrKind t = .auts ↔ t = atAUTS := by
  constructor
  · intro h
    have ht := attrKind_types t
    rw [h] at ht
    exact ht
  · intro h
    rw [h]
    rfl

/-! ## the pieces of an attribute -/

theorem readReserved_iff {t : UInt8} {r f r' : Bytes} :
    readReserved t r = .ok (f, r') ↔ f.length = 2 ∧ r = f ++ r' := by
  unfold readReserved
  by_cases h : 2 ≤ r.length
  · rw [if_pos h]
    constructor
    · intro he
      simp only [Outcome.ok.injEq, Prod.mk.injEq] at he
      obtain ⟨rfl, rfl⟩ := he
      exact ⟨by rw [List.length_take]; omega, (List.take_append_drop _ _).symm⟩
    · rintro ⟨hl, rfl⟩
      rw [List.take_left' hl, List.drop_left' hl]
  · rw [if_neg h]
    constructor
    · intro he; exact absurd he (fail_ne_ok _ _)
    · rintro ⟨hl, rfl⟩
      rw [List.length_append] at h
      omega

theorem readValue_iff {t : UInt8} {n : Nat} {r v r' : Bytes} :
    readValue t n r = .ok (v, r') ↔ v.length = n ∧ r = v ++ r' := by
  unfold readValue
  by_cases h : n ≤ r.length
  · rw [if_pos h]
    constructor
    · intro he
      simp only [Outcome.ok.injEq, Prod.mk.injEq] at he
      obtain ⟨rfl, rfl⟩ := he
      exact ⟨by rw [List.length_take]; omega, (List.take_append_drop _ _).symm⟩
    · rintro ⟨hl, rfl⟩
      rw [List.take_left' hl, List.drop_left' hl]
  · rw [if_neg h]
    constructor
    · intro he; exact absurd he (fail_ne_ok _ _)
    · rintro ⟨hl, rfl⟩
      rw [List.length_append] at h
      omega

theorem readPadding_iff {t : UInt8} {n : Nat} {r r' : Bytes} :
    readPadding t n r = .ok r' ↔ ∃ p, p.length = n ∧ r = p ++ r' := by
  unfold readPadding
  by_cases h0 : n > 0
  · rw [if_pos h0]
    by_cases h : n ≤ r.length
    · rw [if_pos h]
      constructor
      · intro he
        injection he with he
        subst he
        exact ⟨r.take n, by rw [List.length_take]; omega, (List.take_append_drop _ _).symm⟩
      · rintro ⟨p, hl, rfl⟩
        rw [List.drop_left' hl]
    · rw [if_neg h]
      constructor
      · intro he; exact absurd he (by simp)
      · rintro ⟨p, hl, rfl⟩
        rw [List.length_append] at h
        omega
  · rw [if_neg h0]
    constructor
    · intro he
      injection he with he
      subst he
      exact ⟨[], by rw [List.length_nil]; omega, rfl⟩
    · rintro ⟨p, hl, rfl⟩
      rw [List.length_eq_zero_iff.mp (by omega : p.length = 0)]
      rfl

theorem uint16_field {f : Bytes} (h : f.length = 2) :
    uint16 f = .ok (UInt16.ofNat (octNat f)) := by
  rw [uint16, octUint, if_pos (by omega), List.take_of_length_le (by omega)]
  rfl

theorem readPadded_iff {actual : UInt16 → UInt16} {t length : UInt8} {r r' : Bytes}
    {a : EapAkaPrimeAttr} :
    readPadded actual t length r = .ok (a, r') ↔
      ∃ f v p, r = f ++ (v ++ (p ++ r')) ∧ f.length = 2 ∧
        v.length = (actual (UInt16.ofNat (octNat f))).toNat ∧
        p.length = (paddingLen length (actual (UInt16.ofNat (octNat f)))).toNat ∧
        a = ⟨t, length, UInt16.ofNat (octNat f), v⟩ := by
  constructor
  · intro h
    obtain ⟨⟨f, r1⟩, h1, hb⟩ := Outcome.bind_eq_ok.mp h
    obtain ⟨hf, rfl⟩ := readReserved_iff.mp h1
    dsimp only at hb
    rw [uint16_field hf, Outcome.ok_bind] at hb
    obtain ⟨⟨v, r2⟩, h2, hc⟩ := Outcome.bind_eq_ok.mp hb
    obtain ⟨hv, rfl⟩ := readValue_iff.mp h2
    obtain ⟨r3, h3, hd⟩ := Outcome.bind_eq_ok.mp hc
    obtain ⟨p, hp, rfl⟩ := readPadding_iff.mp h3
    simp only [Outcome.pure_eq, Outcome.ok.injEq, Prod.mk.injEq] at hd
    obtain ⟨rfl, rfl⟩ := hd
    exact ⟨f, v, p, rfl, hf, hv, hp, rfl⟩
  · rintro ⟨f, v, p, rfl, hf, hv, hp, rfl⟩
    unfold readPadded
    rw [readReserved_iff.mpr ⟨hf, rfl⟩, Outcome.ok_bind]
    dsimp only
    rw [uint16_field hf, Outcome.ok_bind, readValue_iff.mpr ⟨hv, rfl⟩, Outcome.ok_bind]
    dsimp only
    rw [readPadding_iff.mpr ⟨p, hp, rfl⟩]
    rfl

/-- the two octets are read over, and then a value of `n` octets -/
theorem readFixed_iff {t length : UInt8} {n : Nat} {r r' : Bytes} {a : EapAkaPrimeAttr} :
    (do
      let (_, r) ← readReserved t r
      let (value, r) ← readValue t n r
      pure ({ attrType := t, length := length, reserved := 0, value := value }, r) :
        Outcome (EapAkaPrimeAttr × Bytes)) = .ok (a, r') ↔
      ∃ f v, r = f ++ (v ++ r') ∧ f.length = 2 ∧ v.length = n ∧ a = ⟨t, length, 0, v⟩ := by
  constructor
  · intro h
    obtain ⟨⟨f, r1⟩, h1, hb⟩ := Outcome.bind_eq_ok.mp h
    obtain ⟨hf, rfl⟩ := readReserved_iff.mp h1
    obtain ⟨⟨v, r2⟩, h2, hc⟩ := Outcome.bind_eq_ok.mp hb
    obtain ⟨hv, rfl⟩ := readValue_iff.mp h2
    obtain ⟨rfl, rfl⟩ := Prod.mk.inj (Outcome.ok.inj hc)
    exact ⟨f, v, rfl, hf, hv, rfl⟩
  · intro h
    obtain ⟨f, v, rfl, hf, hv, rfl⟩ := h
    rw [readReserved_iff.mpr ⟨hf, rfl⟩, Outcome.ok_bind]
    dsimp only
    rw [readValue_iff.mpr ⟨hv, rfl⟩]
    rfl

/-! ## one attribute -/

/-- a wire attribute at the front of the octets, by its pieces -/
theorem exists_wire {t length : UInt8} {r r' : Bytes} {a : EapAkaPrimeAttr} :
    (∃ w : WireAttr, w.Ok ∧ t :: length :: r = w.octets ++ r' ∧ a = w.attr) ↔
      ∃ f v p, r = f ++ (v ++ (p ++ r')) ∧ WireAttr.Ok ⟨t, length, f, v, p⟩ ∧
        a = WireAttr.attr ⟨t, length, f, v, p⟩ := by
  constructor
  · intro h
    obtain ⟨⟨t', length', f, v, p⟩, hw, ho, ha⟩ := h
    simp only [WireAttr.octets, List.cons_append, List.cons.injEq] at ho
    obtain ⟨rfl, rfl, rfl⟩ := ho
    exact ⟨f, v, p, by simp, hw, ha⟩
  · intro h
    obtain ⟨f, v, p, rfl, hw, ha⟩ := h
    exact ⟨_, hw, by simp [WireAttr.octets], ha⟩

theorem readPadded_wire {actual : UInt16 → UInt16} {t length : UInt8} {r r' : Bytes}
    {a : EapAkaPrimeAttr} (hk : attrKind t = .kdfInput ∨ attrKind t = .res)
    (hact : ∀ n, actual n = if attrKind t = .res then n / 8 else n) :
    readPadded actual t length r = .ok (a, r') ↔
      ∃ w : WireAttr, w.Ok ∧ t :: length :: r = w.octets ++ r' ∧ a = w.attr := by
  rw [readPadded_iff, exists_wire]
  refine exists_congr fun f => exists_congr fun v => exists_congr fun p => ?_
  rw [WireAttr.ok_padded hk, WireAttr.attr_padded ⟨t, length, f, v, p⟩ hk, hact]
  constructor
  · intro h
    obtain ⟨hr, hf, hv, hp, ha⟩ := h
    exact ⟨hr, ⟨hf, hv, hp⟩, ha⟩
  · intro h
    obtain ⟨hr, ⟨hf, hv, hp⟩, ha⟩ := h
    exact ⟨hr, hf, hv, hp, ha⟩

theorem readBody_iff {t length : UInt8} {r r' : Bytes} {a : EapAkaPrimeAttr} :
    readBody t length r = .ok (a, r') ↔
      ∃ w : WireAttr, w.Ok ∧ t :: length :: r = w.octets ++ r' ∧ a = w.attr := by
  unfold readBody
  cases hk : attrKind t with
  | value16 =>
    rw [exists_wire]
    simp only [WireAttr.Ok, WireAttr.attr, hk]
    by_cases h5 : length = 5
    · subst h5
      rw [if_neg (by simp)]
      refine readFixed_iff.trans ?_
      constructor
      · intro h
        obtain ⟨f, v, hr, hf, hv, ha⟩ := h
        exact ⟨f, v, [], hr, ⟨rfl, hf, hv, rfl⟩, ha⟩
      · intro h
        obtain ⟨f, v, _, hr, ⟨_, hf, hv, rfl⟩, ha⟩ := h
        exact ⟨f, v, hr, hf, hv, ha⟩
    · rw [if_pos h5]
      refine iff_of_false (fail_ne_ok _ _) fun h => ?_
      obtain ⟨_, _, _, _, hw, _⟩ := h
      exact h5 hw.1
  | kdfInput => exact readPadded_wire (.inl hk) fun n => by rw [hk, if_neg (by simp)]
  | res => exact readPadded_wire (.inr hk) fun n => by rw [hk, if_pos rfl]
  | code =>
    rw [exists_wire]
    simp only [WireAttr.Ok, WireAttr.attr, hk]
    constructor
    · intro h
      obtain ⟨⟨f, r1⟩, h1, hb⟩ := Outcome.bind_eq_ok.mp h
      obtain ⟨hf, rfl⟩ := readReserved_iff.mp h1
      dsimp only at hb
      rw [uint16_field hf, Outcome.ok_bind] at hb
      obtain ⟨rfl, rfl⟩ := Prod.mk.inj (Outcome.ok.inj hb)
      exact ⟨f, [], [], rfl, ⟨hf, rfl, rfl⟩, rfl⟩
    · intro h
      obtain ⟨f, _, _, rfl, ⟨hf, rfl, rfl⟩, rfl⟩ := h
      rw [readReserved_iff.mpr ⟨hf, rfl⟩, Outcome.ok_bind]
      dsimp only
      rw [uint16_field hf]
      rfl
  | checkcode =>
    rw [exists_wire]
    simp only [WireAttr.Ok, WireAttr.attr, hk]
    refine readFixed_iff.trans ?_
    constructor
    · intro h
      obtain ⟨f, v, hr, hf, hv, ha⟩ := h
      exact ⟨f, v, [], hr, ⟨hf, hv, rfl⟩, ha⟩
    · intro h
      obtain ⟨f, v, _, hr, ⟨hf, hv, rfl⟩, ha⟩ := h
      exact ⟨f, v, hr, hf, hv, ha⟩
  | auts =>
    rw [exists_wire]
    simp only [WireAttr.Ok, WireAttr.attr, hk]
    by_cases h4 : length = 4
    · subst h4
      rw [if_neg (by simp)]
      constructor
      · intro h
        obtain ⟨⟨v, r2⟩, h2, hb⟩ := Outcome.bind_eq_ok.mp h
        obtain ⟨hv, rfl⟩ := readValue_iff.mp h2
        obtain ⟨rfl, rfl⟩ := Prod.mk.inj (Outcome.ok.inj hb)
        exact ⟨[], v, [], rfl, ⟨rfl, rfl, hv, rfl⟩, rfl⟩
      · intro h
        obtain ⟨_, v, _, rfl, ⟨_, rfl, hv, rfl⟩, rfl⟩ := h
        have h14 : v.length = (4 * 4 - 1 - 1 : UInt8).toNat := hv
        rw [List.nil_append, List.nil_append, readValue_iff.mpr ⟨h14, rfl⟩]
        rfl
    · rw [if_pos h4]
      refine iff_of_false (fail_ne_ok _ _) fun h => ?_
      obtain ⟨_, _, _, _, hw, _⟩ := h
      exact h4 hw.1
  | unhandled =>
    rw [exists_wire]
    simp only [WireAttr.Ok, WireAttr.attr, hk]
    constructor
    · intro h
      obtain ⟨rfl, rfl⟩ := Prod.mk.inj (Outcome.ok.inj h)
      exact ⟨[], [], [], rfl, ⟨rfl, rfl, rfl⟩, rfl⟩
    · intro h
      obtain ⟨_, _, _, rfl, ⟨rfl, rfl, rfl⟩, rfl⟩ := h
      rfl

theorem readAttr_iff {r r' : Bytes} {a : EapAkaPrimeAttr} :
    readAttr r = .ok (some (a, r')) ↔
      ∃ w : WireAttr, w.Ok ∧ r = w.octets ++ r' ∧ a = w.attr := by
  rcases r with _ | ⟨t, _ | ⟨length, r⟩⟩
  · constructor
    · intro h; exact absurd h (by simp [readAttr])
    · rintro ⟨w, _, h, _⟩; exact absurd h (by simp [WireAttr.octets])
  · constructor
    · intro h; exact absurd h (by simp [readAttr])
    · rintro ⟨w, _, h, _⟩; exact absurd h (by simp [WireAttr.octets])
  · rw [← readBody_iff]
    show some <$> readBody t length r = _ ↔ _
    rw [Outcome.map_eq_ok]
    constructor
    · rintro ⟨x, hx, he⟩
      injection he with he
      rw [← he]
      exact hx
    · intro h; exact ⟨_, h, rfl⟩

theorem readAttr_none {r : Bytes} : readAttr r = .ok none ↔ r.length ≤ 1 := by
  rcases r with _ | ⟨t, _ | ⟨length, r⟩⟩
  · simp [readAttr]
  · simp [readAttr]
  · constructor
    · intro h
      obtain ⟨x, _, hx⟩ := Outcome.map_eq_ok.mp h
      exact absurd hx (by simp)
    · intro h
      simp only [List.length_cons] at h
      omega

/-! ## the loop and the packet -/

theorem attrLoop_succ (n : Nat) (r : Bytes) (e : EapAkaPrime) :
    EapAkaPrime.attrLoop (n+1) r e =
      match readAttr r with
      | .ok none => (.ok (), e)
      | .ok (some (a, r')) => EapAkaPrime.attrLoop n r' (e.store a)
      | .err x => (.err x, e)
      | .panic p => (.panic p, e) := by
  show (Proc.lift (readAttr r) >>= _) e = _
  rw [Proc.bind_apply, Proc.lift_apply]
  rcases readAttr r with (_ | ⟨a, r'⟩) | x | p <;> rfl

/-- attributes stored one after the other -/
def EapAkaPrime.storeAll (e : EapAkaPrime) (as : List EapAkaPrimeAttr) : EapAkaPrime :=
  as.foldl EapAkaPrime.store e

theorem attrLoop_ok_iff {n : Nat} {r : Bytes} {e e' : EapAkaPrime} (hn : r.length < n) :
    EapAkaPrime.attrLoop n r e = (.ok (), e') ↔
      ∃ (ws : List WireAttr) (tail : Bytes), (∀ w ∈ ws, w.Ok) ∧ tail.length ≤ 1 ∧
        r = ws.flatMap WireAttr.octets ++ tail ∧ e' = e.storeAll (ws.map WireAttr.attr) := by
  induction n generalizing r e with
  | zero => exact absurd hn (Nat.not_lt_zero _)
  | succ n ih =>
    rw [attrLoop_succ]
    constructor
    · intro h
      cases hr : readAttr r with
      | ok next =>
        rw [hr] at h
        cases next with
        | none =>
          simp only [Prod.mk.injEq, true_and] at h
          exact ⟨[], r, by simp, readAttr_none.mp hr, rfl, h.symm⟩
        | some x =>
          obtain ⟨a, r'⟩ := x
          obtain ⟨w, hw, hwr, rfl⟩ := readAttr_iff.mp hr
          have hlen : r'.length < n := by
            rw [hwr, List.length_append] at hn
            simp only [WireAttr.octets, List.length_cons] at hn
            omega
          obtain ⟨ws, tail, hws, ht, hd, he⟩ := (ih hlen).mp h
          refine ⟨w :: ws, tail, ?_, ht, ?_, he⟩
          · exact List.forall_mem_cons.mpr ⟨hw, hws⟩
          · rw [hwr, hd, List.flatMap_cons, List.append_assoc]
      | err x => rw [hr] at h; exact absurd h (by simp)
      | panic p => rw [hr] at h; exact absurd h (by simp)
    · rintro ⟨ws, tail, hws, ht, rfl, rfl⟩
      cases ws with
      | nil => rw [List.flatMap_nil, List.nil_append, readAttr_none.mpr ht]; rfl
      | cons w ws =>
        rw [List.flatMap_cons, List.append_assoc] at hn ⊢
        rw [readAttr_iff.mpr ⟨w, hws w (List.mem_cons_self ..), rfl, rfl⟩]
        have hlen : (ws.flatMap WireAttr.octets ++ tail).length < n := by
          rw [List.length_append] at hn
          simp only [WireAttr.octets, List.length_cons] at hn
          omega
        exact (ih hlen).mpr
          ⟨ws, tail, fun x hx => hws x (List.mem_cons_of_mem _ hx), ht, rfl, rfl⟩

/-- a packet without attributes -/
def EapAkaPrime.blank (subType : UInt8) (reserved : UInt16) : EapAkaPrime :=
  { subType := subType, reserved := reserved, attributes := some fun _ => none,
    attributeOrder := some [] }

theorem EapAkaPrime.unmarshal_cons (sub r1 r2 : UInt8) (rest : Bytes) (e : EapAkaPrime) :
    EapAkaPrime.unmarshal (eapTypeAkaPrime :: sub :: r1 :: r2 :: rest) e =
      EapAkaPrime.attrLoop (rest.length + 1) rest
        (EapAkaPrime.blank sub (UInt16.ofNat (r1.toNat * 256 + r2.toNat))) := by
  simp only [EapAkaPrime.unmarshal, uint16_pair, ne_eq, not_true_eq_false, if_false]
  rfl

/-- data that are refused before the loop change nothing -/
theorem EapAkaPrime.unmarshal_cases (rawData : Bytes) :
    (∃ t, EapAkaPrime.unmarshal rawData = Proc.lift (fail t)) ∨
      ∃ sub r1 r2 rest, rawData = eapTypeAkaPrime :: sub :: r1 :: r2 :: rest := by
  rcases rawData with _ | ⟨ty, _ | ⟨sub, _ | ⟨r1, _ | ⟨r2, rest⟩⟩⟩⟩
  · exact Or.inl ⟨_, rfl⟩
  · exact Or.inl ⟨_, rfl⟩
  · exact Or.inl ⟨_, rfl⟩
  · exact Or.inl ⟨_, rfl⟩
  · by_cases ht : ty = eapTypeAkaPrime
    · exact Or.inr ⟨sub, r1, r2, rest, by rw [ht]⟩
    · exact Or.inl ⟨_, if_pos ht⟩

theorem EapAkaPrime.unmarshal_type {d : Bytes} {e e' : EapAkaPrime}
    (h : EapAkaPrime.unmarshal d e = (.ok (), e')) :
    ∃ sub r1 r2 rest, d = eapTypeAkaPrime :: sub :: r1 :: r2 :: rest := by
  rcases EapAkaPrime.unmarshal_cases d with ⟨t, hfail⟩ | hheader
  · rw [hfail] at h
    exact absurd (congrArg Prod.fst h) (fail_ne_ok _ _)
  · exact hheader

theorem EapAkaPrime.unmarshal_iff {d : Bytes} {e e' : EapAkaPrime} :
    EapAkaPrime.unmarshal d e = (.ok (), e') ↔
      ∃ (sub r1 r2 : UInt8) (ws : List WireAttr) (tail : Bytes),
        d = eapTypeAkaPrime :: sub :: r1 :: r2 :: (ws.flatMap WireAttr.octets ++ tail) ∧
        (∀ w ∈ ws, w.Ok) ∧ tail.length ≤ 1 ∧
        e' = (EapAkaPrime.blank sub (UInt16.ofNat (r1.toNat * 256 + r2.toNat))).storeAll
          (ws.map WireAttr.attr) := by
  constructor
  · intro h
    obtain ⟨sub, r1, r2, rest, rfl⟩ := EapAkaPrime.unmarshal_type h
    rw [EapAkaPrime.unmarshal_cons] at h
    obtain ⟨ws, tail, hws, ht, rfl, rfl⟩ := (attrLoop_ok_iff (by omega)).mp h
    exact ⟨sub, r1, r2, ws, tail, rfl, hws, ht, rfl⟩
  · rintro ⟨sub, r1, r2, ws, tail, rfl, hws, ht, rfl⟩
    rw [EapAkaPrime.unmarshal_cons]
    exact (attrLoop_ok_iff (by omega)).mpr ⟨ws, tail, hws, ht, rfl, rfl⟩

end Ike
