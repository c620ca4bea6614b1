import IKEv2.Message.Proposals

/-!
# Transforms made by `BuildTransform` (`message/build.go`)

* `canonical_of_built`          they have one of the three shapes the encoder knows;
* `tlv_attributes_come_back`    an attribute of variable length never comes back.
-/

set_option linter.unusedVariables false

namespace Ike
open GoLang

/-- appended by a call of `BuildTransform` with an attribute type below `2^15`, if with any -/
def Transform.Built (t : Transform) : Prop :=
  ∃ transformType transformID attributeType attributeValue variableLengthAttributeValue,
    (∀ a, attributeType = some a → a.toNat < 32768) ∧
      buildTransform [] transformType transformID attributeType attributeValue
        variableLengthAttributeValue = [t]

/-- appended by a call of `BuildTransform` with an attribute of variable length -/
def Transform.BuiltTlv (t : Transform) : Prop :=
  ∃ transformType transformID, ∃ attributeType : UInt16, ∃ variableLengthAttributeValue : Bytes,
    attributeType.toNat < 32768 ∧ variableLengthAttributeValue ≠ [] ∧
      buildTransform [] transformType transformID (some attributeType) none
        variableLengthAttributeValue = [t]

theorem Transform.BuiltTlv.value_ne {t : Transform} (h : t.BuiltTlv) :
    t.variableLengthAttributeValue ≠ [] := by
  obtain ⟨ty, id, at', v, _, hv, hb⟩ := h
  have hlen : v.length ≠ 0 := fun h0 => hv (List.length_eq_zero_iff.mp h0)
  unfold buildTransform at hb
  dsimp only at hb
  rw [if_pos hlen, List.nil_append] at hb
  injection hb with hb
  rw [← hb]
  exact hv

theorem canonical_of_built {t : Transform} (h : t.Built) : t.Canonical := by
  obtain ⟨ty, id, at', va, v, hlt, hb⟩ := h
  unfold buildTransform at hb
  cases at' with
  | none =>
    dsimp only at hb
    injection hb with hb
    subst hb
    exact ⟨show (0 : UInt16).toNat < 32768 by decide, .inl ⟨rfl, rfl, rfl, rfl, rfl⟩⟩
  | some a =>
    have ha := hlt a rfl
    cases va with
    | some x =>
      dsimp only at hb
      injection hb with hb
      subst hb
      exact ⟨ha, .inr (.inl ⟨rfl, rfl, rfl⟩)⟩
    | none =>
      dsimp only at hb
      by_cases hv : v.length ≠ 0
      · rw [if_pos hv] at hb
        injection hb with hb
        subst hb
        exact ⟨ha, .inr (.inr ⟨rfl, rfl, rfl⟩)⟩
      · rw [if_neg hv] at hb
        exact absurd hb (by simp)

/-- security associations of built transforms at the other end -/
theorem SecurityAssociation.unmarshal_built {sa : SecurityAssociation} {d : Bytes}
    (hspi : ∀ p ∈ sa.proposals, p.spi.length ≤ 247)
    (hb : ∀ p ∈ sa.proposals, ∀ t ∈ p.transformList, t.Built) (h : sa.marshal = .ok d)
    (sp : Bytes) :
    SecurityAssociation.unmarshal ⟨[]⟩ ⟨d, sp⟩ = .ok ⟨sa.proposals.map Proposal.received⟩ :=
  SecurityAssociation.unmarshal_received (fun p hp => Nat.lt_succ_of_le (hspi p hp))
    (fun p hp t ht => canonical_of_built (hb p hp t ht)) h sp

/-- no decoded transform has a value of variable length -/
theorem SecurityAssociation.unmarshal_noValue {sa : SecurityAssociation} {d sp : Bytes}
    (h : SecurityAssociation.unmarshal ⟨[]⟩ ⟨d, sp⟩ = .ok sa) {p : Proposal}
    (hp : p ∈ sa.proposals) {t : Transform} (ht : t ∈ p.transformList) :
    t.variableLengthAttributeValue = [] := by
  obtain ⟨rs, ps, _, hof, hps⟩ := SecurityAssociation.unmarshal_raw h
  rw [List.nil_append] at hps
  rw [hps] at hp
  obtain ⟨r, _, hr⟩ := forall₂_partner hof hp
  obtain ⟨ts, hts, hperm⟩ := hr.kept
  obtain ⟨a, _, ha⟩ := forall₂_partner hts (hperm.mem_iff.mp ht)
  exact ha.noValue

/-- the transform `t` of proposal `i` comes back: its proposal has a transform of the same type and
number with the same attribute -/
def AttributeComesBack (d sp : Bytes) (i : Nat) (t : Transform) : Prop :=
  ∃ sa p t', SecurityAssociation.unmarshal ⟨[]⟩ ⟨d, sp⟩ = .ok sa ∧ sa.proposals[i]? = some p ∧
    t' ∈ p.transformList ∧ t'.transformType = t.transformType ∧ t'.transformID = t.transformID ∧
    t'.attributeType = t.attributeType ∧
    t'.variableLengthAttributeValue = t.variableLengthAttributeValue

/-- **Attributes of variable length do not come back**: they all do iff there is none. -/
theorem tlv_attributes_come_back {sa : SecurityAssociation} {d : Bytes} (h : sa.marshal = .ok d)
    (sp : Bytes) :
    (∀ i p t, sa.proposals[i]? = some p → t ∈ p.transformList → t.BuiltTlv →
        AttributeComesBack d sp i t) ↔
      ∀ p ∈ sa.proposals, ∀ t ∈ p.transformList, ¬ t.BuiltTlv := by
  constructor
  · intro hall p hp t ht hb
    obtain ⟨i, hi⟩ := List.mem_iff_getElem?.mp hp
    obtain ⟨sa', p', t', hu, hp', ht', _, _, _, hv⟩ := hall i p t hi ht hb
    have hnil := SecurityAssociation.unmarshal_noValue hu (List.mem_of_getElem? hp') ht'
    exact hb.value_ne (by rw [← hv, hnil])
  · intro hno i p t hi ht hb
    exact absurd hb (hno p (List.mem_of_getElem? hi) t ht)

/-- a proposal with one transform, that of an attribute of two octets -/
theorem tlv_attributes_come_back_two :
    (∀ i p t, [(⟨1, 1, [], buildTransform [] 1 12 (some 14) none [1, 0], [], [], [], []⟩ :
          Proposal)][i]? = some p → t ∈ p.transformList → t.BuiltTlv →
        AttributeComesBack [0, 0, 0, 22, 1, 1, 0, 1, 0, 0, 0, 14, 1, 0, 0, 12, 0, 14, 0, 2, 1, 0] []
          i t) ↔
      ∀ p ∈ [(⟨1, 1, [], buildTransform [] 1 12 (some 14) none [1, 0], [], [], [], []⟩ : Proposal)],
        ∀ t ∈ p.transformList, ¬ t.BuiltTlv :=
  tlv_attributes_come_back (show SecurityAssociation.marshal ⟨[_]⟩ = _ by decide +kernel) []

/-- the value is dropped, and of the type 200 seven bits are left -/
theorem tlv_attribute_lost :
    SecurityAssociation.marshal
        ⟨[⟨1, 1, [], buildTransform [] 1 12 (some 200) none [1, 0], [], [], [], []⟩]⟩ =
      .ok [0, 0, 0, 22, 1, 1, 0, 1, 0, 0, 0, 14, 1, 0, 0, 12, 0, 200, 0, 2, 1, 0] ∧
    SecurityAssociation.unmarshal ⟨[]⟩ (Slice.ofList
        [0, 0, 0, 22, 1, 1, 0, 1, 0, 0, 0, 14, 1, 0, 0, 12, 0, 200, 0, 2, 1, 0]) =
      .ok ⟨[⟨1, 1, [], [⟨1, 12, true, 0, 72, 0, []⟩], [], [], [], []⟩]⟩ := by
  decide +kernel

end Ike
