import IKEv2.Eap.SetRead

/-!
# The length octet of an attribute that was set

`Len(EapAkaPrimeAttr) = EapAkaPrimeAttr.length * 4`: the length octet counts words of four octets.
`setAttr` computes it out of the length of the value, in a way of its own for each kind of attribute:
a fixed number, a number with padding and a check, with padding and no check (AT_KDF_INPUT), and with a
check and no padding (AT_CHECKCODE).

* `lengthOctet_faithful_iff`   when the law holds for an attribute that was set.
-/

set_option linter.unusedVariables false

namespace Ike
open GoLang

theorem EapAkaPrimeAttr.length_octets (a : EapAkaPrimeAttr) :
    a.octets.length = (if a.attrType = atAUTS then 2 else 4) + a.value.length := by
  rw [EapAkaPrimeAttr.octets]
  by_cases h : a.attrType = atAUTS
  · rw [if_pos h, if_neg (not_not_intro h), List.append_nil, List.length_append]
    rfl
  · rw [if_neg h, if_pos h, List.length_append, List.length_append, length_putUint16]
    rfl

/-- the octets of an attribute are counted by its length octet, and the two octets behind it count the
bits or the octets of the value -/
structure EapAkaPrimeAttr.Faithful (a : EapAkaPrimeAttr) (value : Bytes) : Prop where
  law : a.octets.length = 4 * a.length.toNat
  res : a.attrType = atRES → a.reserved.toNat = 8 * value.length
  kdfInput : a.attrType = atKDFINPUT → a.reserved.toNat = value.length

/-- the length octet of a padded value goes up to 255 words -/
theorem paddedAttr_law {t : UInt8} (ht : t ≠ atAUTS) (reserved : UInt16) (value : Bytes) :
    (paddedAttr t reserved value).octets.length = 4 * (paddedAttr t reserved value).length.toNat ↔
      value.length ≤ 1016 := by
  have hpad := paddingBytes_spec (4 + value.length)
  rw [EapAkaPrimeAttr.length_octets, paddedAttr, if_neg ht, List.length_append, List.length_replicate,
    UInt8.toNat_ofNat']
  omega

/-- the length octet of AT_CHECKCODE is rounded down -/
theorem checkcode_law (reserved : UInt16) {value : Bytes} (h : value.length ≤ 1019) :
    (⟨atCHECKCODE, UInt8.ofNat ((4 + value.length) / 4), reserved, value⟩ :
      EapAkaPrimeAttr).octets.length = 4 * (UInt8.ofNat ((4 + value.length) / 4)).toNat ↔
      value.length % 4 = 0 := by
  rw [EapAkaPrimeAttr.length_octets, if_neg (show ¬ atCHECKCODE = atAUTS by decide),
    UInt8.toNat_ofNat']
  dsimp only
  omega

/-- an attribute whose second field is not a count -/
theorem EapAkaPrimeAttr.Faithful.of_law {a : EapAkaPrimeAttr} {value : Bytes}
    (hkind : attrKind a.attrType ≠ .res ∧ attrKind a.attrType ≠ .kdfInput)
    (h : a.octets.length = 4 * a.length.toNat) : a.Faithful value := by
  refine ⟨h, ?_, ?_⟩
  · intro ht
    rw [ht] at hkind
    exact absurd rfl hkind.1
  · intro ht
    rw [ht] at hkind
    exact absurd rfl hkind.2

/-! ## the kinds of attributes -/

theorem setAttr_kdfInput (value : Bytes) : EapAkaPrimeAttr.setAttr atKDFINPUT value =
    .ok (paddedAttr atKDFINPUT (UInt16.ofNat value.length) value) := rfl

/-- AT_CHECKCODE takes values up to 255 words -/
theorem setAttr_checkcode {value : Bytes} {a : EapAkaPrimeAttr} :
    EapAkaPrimeAttr.setAttr atCHECKCODE value = .ok a ↔ value.length ≤ 1019 ∧
      a = ⟨atCHECKCODE, UInt8.ofNat ((4 + value.length) / 4), 0, value⟩ := by
  show (if (4 + value.length) / 4 > 255 then fail "eap aka prime attr length overflow" else _) = _ ↔ _
  by_cases hlong : (4 + value.length) / 4 > 255
  · rw [if_pos hlong]
    refine iff_of_false (fail_ne_ok _ _) ?_
    intro ⟨h, _⟩
    omega
  · rw [if_neg hlong]
    constructor
    · intro h
      injection h with h
      exact ⟨by omega, h.symm⟩
    · intro ⟨_, h⟩
      rw [h]

/-- the attributes without padding have a length that is checked -/
theorem faithful_of_fixed {t : UInt8} {value : Bytes} {a : EapAkaPrimeAttr}
    (hk : attrKind t = .value16 ∨ attrKind t = .auts ∨ attrKind t = .code)
    (h : EapAkaPrimeAttr.setAttr t value = .ok a) : a.Faithful value := by
  have hok := setAttr_ok h
  have hauts := attrKind_auts (t := t)
  rcases hk with hk | hk | hk
  · rw [hk] at hok hauts
    obtain ⟨h16, rfl⟩ := hok
    refine .of_law (by rw [hk]; decide) ?_
    rw [EapAkaPrimeAttr.length_octets, if_neg (fun ht => absurd (hauts.mpr ht) (by decide)), h16]
    rfl
  · rw [hk] at hok hauts
    obtain ⟨h14, rfl⟩ := hok
    refine .of_law (by rw [hk]; decide) ?_
    rw [EapAkaPrimeAttr.length_octets, if_pos (hauts.mp rfl), h14]
    rfl
  · rw [hk] at hok hauts
    obtain ⟨x, y, rfl, rfl⟩ := hok
    refine .of_law (by rw [hk]; decide) ?_
    rw [EapAkaPrimeAttr.length_octets, if_neg (fun ht => absurd (hauts.mpr ht) (by decide))]
    rfl

theorem faithful_kdfInput_iff (value : Bytes) :
    (paddedAttr atKDFINPUT (UInt16.ofNat value.length) value).Faithful value ↔
      value.length ≤ 1016 := by
  constructor
  · intro h
    exact (paddedAttr_law (by decide) _ value).mp h.law
  · intro h
    refine ⟨(paddedAttr_law (by decide) _ value).mpr h,
      fun ht => absurd ht (show ¬ atKDFINPUT = atRES by decide), ?_⟩
    intro _
    exact UInt16.toNat_ofNat_of_lt' (show value.length < 65536 by omega)

/-- the value of AT_RES is short enough for both counts -/
theorem faithful_res {value : Bytes} (h : value.length ≤ 16) :
    (paddedAttr atRES (UInt16.ofNat (value.length * 8)) value).Faithful value := by
  refine ⟨(paddedAttr_law (by decide) _ value).mpr (by omega), ?_,
    fun ht => absurd ht (show ¬ atRES = atKDFINPUT by decide)⟩
  intro _
  rw [Nat.mul_comm 8]
  exact UInt16.toNat_ofNat_of_lt' (show value.length * 8 < 65536 by omega)

theorem faithful_checkcode_iff {value : Bytes} (h : value.length ≤ 1019) :
    (⟨atCHECKCODE, UInt8.ofNat ((4 + value.length) / 4), 0, value⟩ : EapAkaPrimeAttr).Faithful value ↔
      value.length % 4 = 0 := by
  constructor
  · intro hf
    exact (checkcode_law 0 h).mp hf.law
  · intro hwords
    exact .of_law (show attrKind atCHECKCODE ≠ .res ∧ attrKind atCHECKCODE ≠ .kdfInput by decide)
      ((checkcode_law 0 h).mpr hwords)

/-- **When an accepted value has a faithful length octet.**  AT_KDF_INPUT takes values that are too long
for it, and AT_CHECKCODE values that are no whole words. -/
theorem lengthOctet_faithful_iff (t : UInt8) (value : Bytes) :
    (∀ a, EapAkaPrimeAttr.setAttr t value = .ok a → a.Faithful value) ↔
      ¬ (t = atKDFINPUT ∧ 1016 < value.length ∨
        t = atCHECKCODE ∧ value.length % 4 ≠ 0 ∧ value.length ≤ 1019) := by
  constructor
  · intro h hbad
    rcases hbad with ⟨rfl, hlong⟩ | ⟨rfl, hodd, hshort⟩
    · have hle := (faithful_kdfInput_iff value).mp (h _ (setAttr_kdfInput value))
      omega
    · exact hodd ((faithful_checkcode_iff hshort).mp (h _ (setAttr_checkcode.mpr ⟨hshort, rfl⟩)))
  · intro hgood a ha
    have htype := attrKind_types t
    cases hk : attrKind t with
    | value16 => exact faithful_of_fixed (.inl hk) ha
    | auts => exact faithful_of_fixed (.inr (.inl hk)) ha
    | code => exact faithful_of_fixed (.inr (.inr hk)) ha
    | kdfInput =>
      rw [hk] at htype
      subst htype
      injection ha with ha
      subst ha
      refine (faithful_kdfInput_iff value).mpr (Nat.not_lt.mp ?_)
      intro hlong
      exact hgood (.inl ⟨rfl, hlong⟩)
    | res =>
      have hok := setAttr_ok ha
      rw [hk] at htype hok
      subst htype
      obtain ⟨hlen, rfl⟩ := hok
      exact faithful_res hlen.2
    | checkcode =>
      rw [hk] at htype
      subst htype
      obtain ⟨hshort, rfl⟩ := setAttr_checkcode.mp ha
      refine (faithful_checkcode_iff hshort).mpr (by_contra fun hodd => ?_)
      exact hgood (.inr ⟨rfl, hodd, hshort⟩)
    | unhandled =>
      have hok := setAttr_ok ha
      rw [hk] at hok
      exact hok.elim

/-- 1017 octets are written as 1024 with the length octet 0, and one octet of AT_CHECKCODE makes an
attribute of 5 octets with the length octet 1 -/
theorem lengthOctet_wraps :
    (∃ a, EapAkaPrimeAttr.setAttr atKDFINPUT (List.replicate 1017 1) = .ok a ∧ a.length = 0 ∧
      a.octets.length = 1024) ∧
    ∃ a, EapAkaPrimeAttr.setAttr atCHECKCODE [1] = .ok a ∧ a.length = 1 ∧ a.octets.length = 5 := by
  exact ⟨⟨_, setAttr_kdfInput _, by decide +kernel, by decide +kernel⟩, ⟨atCHECKCODE, 1, 0, [1]⟩, rfl, rfl, rfl⟩

end Ike
