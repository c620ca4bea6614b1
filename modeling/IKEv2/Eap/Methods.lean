import IKEv2.Message.Types

/-!
# EAP methods of fixed layout (`eap/eap_*.go`)

Identity, Notification and Nak are a type octet and data; MD5-Challenge has a value of 16 octets
and a name, Expanded a vendor and data.  `typedUnmarshal_cons` and the two `unmarshal_full` are the
decoders without slices.
-/

set_option linter.unusedVariables false

namespace Ike
open GoLang

def eapTypeIdentity : UInt8 := 1
def eapTypeNotification : UInt8 := 2
def eapTypeNak : UInt8 := 3
def eapTypeMD5 : UInt8 := 4
def eapTypeOTP : UInt8 := 5
def eapTypeGTC : UInt8 := 6
def eapTypeAkaPrime : UInt8 := 50
def eapTypeExpanded : UInt8 := 254

/-- `EapType.String` -/
def eapTypeString (t : UInt8) : String :=
  if t = eapTypeIdentity then "EAP-Identity"
  else if t = eapTypeNotification then "EAP-Notification"
  else if t = eapTypeNak then "EAP-Nak"
  else if t = eapTypeMD5 then "EAP-MD5-Challenge"
  else if t = eapTypeOTP then "EAP-OTP"
  else if t = eapTypeGTC then "EAP-GTC"
  else if t = eapTypeAkaPrime then "EAP-AKA'"
  else if t = eapTypeExpanded then "EAP-Expanded"
  else s!"EAP type[{t.toNat}] is not supported"

structure EapIdentity where
  identityData : Bytes
deriving DecidableEq, Repr

structure EapNotification where
  notificationData : Bytes
deriving DecidableEq, Repr

structure EapNak where
  nakData : Bytes
deriving DecidableEq, Repr

/-- the name is a Go string, that is, octets -/
structure EapMD5 where
  valueSize : UInt8
  value : Bytes
  name : Bytes
deriving DecidableEq, Repr

structure EapExpanded where
  vendorID : UInt32
  vendorType : UInt32
  vendorData : Bytes
deriving DecidableEq, Repr

/-! ## a type octet and data -/

def typedMarshal (type : UInt8) (empty : String) (data : Bytes) : Outcome Bytes :=
  if data.length = 0 then fail empty else .ok ([type] ++ data)

def typedUnmarshal (name : String) (type : UInt8) (old : Bytes) (b : Slice UInt8) :
    Outcome Bytes :=
  if b.len > 1 then do
    let typeCode ← b.index 0
    if typeCode ≠ type then fail s!"{name}: expect {type.toNat} but got {typeCode.toNat}"
    else do
      let rest ← b.sliceFrom 1
      pure (old ++ rest.data)
  else pure old

theorem typedUnmarshal_cons (name : String) (type : UInt8) (old : Bytes) (l sp : Bytes) :
    typedUnmarshal name type old ⟨type :: l, sp⟩ = .ok (old ++ l) := by
  unfold typedUnmarshal
  cases l with
  | nil => rw [if_neg (by simp), List.append_nil]; rfl
  | cons x xs =>
    rw [if_pos (by simp), Slice.index_mk_zero, Outcome.ok_bind, if_neg (by simp),
      Slice.sliceFrom_data _ (by simp)]
    rfl

def EapIdentity.marshal (e : EapIdentity) : Outcome Bytes :=
  typedMarshal eapTypeIdentity "EapIdentity: EAP identity is empty" e.identityData

def EapIdentity.unmarshal (e : EapIdentity) (b : Slice UInt8) : Outcome EapIdentity :=
  EapIdentity.mk <$> typedUnmarshal "EapIdentity" eapTypeIdentity e.identityData b

def EapNotification.marshal (e : EapNotification) : Outcome Bytes :=
  typedMarshal eapTypeNotification "EapNotification: EAP notification is empty" e.notificationData

def EapNotification.unmarshal (e : EapNotification) (b : Slice UInt8) : Outcome EapNotification :=
  EapNotification.mk <$> typedUnmarshal "EapNotification" eapTypeNotification e.notificationData b

def EapNak.marshal (e : EapNak) : Outcome Bytes :=
  typedMarshal eapTypeNak "EapNak: EAP nak is empty" e.nakData

def EapNak.unmarshal (e : EapNak) (b : Slice UInt8) : Outcome EapNak :=
  EapNak.mk <$> typedUnmarshal "EapNak" eapTypeNak e.nakData b

theorem typedMarshal_eq_ok {type : UInt8} {empty : String} {data x : Bytes} :
    typedMarshal type empty data = .ok x ↔ data ≠ [] ∧ x = type :: data := by
  unfold typedMarshal
  by_cases h0 : data = []
  · simp [h0]
  · rw [if_neg fun hl => h0 (List.length_eq_zero_iff.mp hl)]
    simp [h0, eq_comm]

/-! ## MD5-Challenge -/

def eapMD5ChallengeSize : Nat := 16

def EapMD5.marshal (e : EapMD5) : Outcome Bytes :=
  if e.valueSize.toNat ≠ eapMD5ChallengeSize then fail "EapMD5: ValueSize must be 16"
  else if e.value.length ≠ eapMD5ChallengeSize then
    fail s!"EapMD5: Value must be {eapMD5ChallengeSize} bytes, got {e.value.length}"
  else .ok ([eapTypeMD5, e.valueSize] ++ e.value ++ e.name)

def EapMD5.unmarshal (b : Slice UInt8) : Outcome EapMD5 :=
  if b.len < 3 then fail "EapMD5: not enough data"
  else do
    let actualType ← b.index 0
    if actualType ≠ eapTypeMD5 then
      fail s!"EapMD5: expect type {eapTypeString eapTypeMD5} but got {eapTypeString actualType}"
    else do
      let valueSize ← b.index 1
      if valueSize.toNat ≠ eapMD5ChallengeSize then
        fail s!"EapMD5: ValueSize must be {eapMD5ChallengeSize}, got {valueSize.toNat}"
      else if b.len < 2 + valueSize.toNat then
        fail s!"EapMD5: insufficient data, expected at least {2 + valueSize.toNat} bytes, got {b.len}"
      else do
        let value ← b.slice 2 (2 + eapMD5ChallengeSize)
        let name ← (if b.len > 2 + eapMD5ChallengeSize then
            Slice.data <$> b.sliceFrom (2 + eapMD5ChallengeSize)
          else .ok [])
        pure { valueSize := valueSize, value := value.data, name := name }

/-- a challenge of 16 octets, and the name behind it -/
theorem EapMD5.unmarshal_full {r : Bytes} (h : 16 ≤ r.length) (sp : Bytes) :
    EapMD5.unmarshal ⟨eapTypeMD5 :: 16 :: r, sp⟩ = .ok ⟨16, r.take 16, r.drop 16⟩ := by
  have hlen : (⟨eapTypeMD5 :: 16 :: r, sp⟩ : Slice UInt8).len = 2 + r.length := by
    simp only [Slice.len_mk, List.length_cons]
    omega
  have h16 : (16 : UInt8).toNat = 16 := rfl
  have hname : (if (⟨eapTypeMD5 :: 16 :: r, sp⟩ : Slice UInt8).len > 2 + eapMD5ChallengeSize
      then Slice.data <$> (⟨eapTypeMD5 :: 16 :: r, sp⟩ : Slice UInt8).sliceFrom
        (2 + eapMD5ChallengeSize)
      else Outcome.ok []) = Outcome.ok (r.drop 16) := by
    by_cases hgt : (⟨eapTypeMD5 :: 16 :: r, sp⟩ : Slice UInt8).len > 2 + eapMD5ChallengeSize
    · rw [if_pos hgt, Slice.sliceFrom_data _ (Nat.le_of_lt hgt)]
      rfl
    · rw [if_neg hgt]
      rw [hlen, eapMD5ChallengeSize] at hgt
      rw [List.drop_eq_nil_of_le (by omega)]
  unfold EapMD5.unmarshal
  rw [if_neg (by omega), Slice.index_mk_zero, Outcome.ok_bind, if_neg (by simp),
    Slice.index_mk_succ, Slice.index_mk_zero, Outcome.ok_bind, if_neg (by decide),
    if_neg (by omega), Slice.slice_data _ (by simp [eapMD5ChallengeSize])
      (by rw [hlen, eapMD5ChallengeSize]; omega), Outcome.ok_bind, hname]
  rfl

/-- the decoder accepts no other size -/
theorem EapMD5.size_of_unmarshal {l sp : Bytes} {e : EapMD5}
    (h : EapMD5.unmarshal ⟨eapTypeMD5 :: l, sp⟩ = .ok e) : ∃ r, l = 16 :: r ∧ 16 ≤ r.length := by
  unfold EapMD5.unmarshal at h
  cases l with
  | nil =>
    rw [if_pos (by simp)] at h
    exact absurd h (fail_ne_ok _ _)
  | cons size r =>
    by_cases h3 : (⟨eapTypeMD5 :: size :: r, sp⟩ : Slice UInt8).len < 3
    · rw [if_pos h3] at h
      exact absurd h (fail_ne_ok _ _)
    rw [if_neg h3, Slice.index_mk_zero, Outcome.ok_bind, if_neg (by simp), Slice.index_mk_succ,
      Slice.index_mk_zero, Outcome.ok_bind] at h
    by_cases hs : size.toNat = eapMD5ChallengeSize
    · rw [if_neg (not_not_intro hs)] at h
      by_cases hl : (⟨eapTypeMD5 :: size :: r, sp⟩ : Slice UInt8).len < 2 + size.toNat
      · rw [if_pos hl] at h
        exact absurd h (fail_ne_ok _ _)
      · have hsize : size = 16 := UInt8.toNat_inj.mp hs
        refine ⟨r, by rw [hsize], ?_⟩
        rw [hs, eapMD5ChallengeSize] at hl
        simp only [Slice.len_mk, List.length_cons] at hl
        omega
    · rw [if_pos hs] at h
      exact absurd h (fail_ne_ok _ _)

theorem EapMD5.unmarshal_iff {l sp : Bytes} {e : EapMD5} :
    EapMD5.unmarshal ⟨eapTypeMD5 :: l, sp⟩ = .ok e ↔
      e.valueSize = 16 ∧ e.value.length = 16 ∧ l = 16 :: (e.value ++ e.name) := by
  constructor
  · intro h
    obtain ⟨r, rfl, hr⟩ := EapMD5.size_of_unmarshal h
    rw [EapMD5.unmarshal_full hr] at h
    obtain rfl := Outcome.ok.inj h
    refine ⟨rfl, ?_, ?_⟩
    · show (r.take 16).length = 16
      rw [List.length_take]
      omega
    · show 16 :: r = 16 :: (r.take 16 ++ r.drop 16)
      rw [List.take_append_drop]
  · intro h
    obtain ⟨size, value, name⟩ := e
    obtain ⟨rfl, h16, rfl⟩ := h
    have h16 : value.length = 16 := h16
    rw [EapMD5.unmarshal_full (by rw [List.length_append, h16]; omega), List.take_left' h16,
      List.drop_left' h16]

theorem EapMD5.marshal_eq_ok {e : EapMD5} {x : Bytes} :
    e.marshal = .ok x ↔ e.valueSize = 16 ∧ e.value.length = 16 ∧
      x = eapTypeMD5 :: 16 :: (e.value ++ e.name) := by
  have hsize : e.valueSize.toNat = eapMD5ChallengeSize ↔ e.valueSize = 16 := by
    rw [← UInt8.toNat_inj]
    rfl
  unfold EapMD5.marshal
  by_cases h1 : e.valueSize = 16
  · rw [if_neg (not_not_intro (hsize.mpr h1))]
    by_cases h2 : e.value.length = eapMD5ChallengeSize
    · rw [if_neg (not_not_intro h2), h1]
      exact ⟨fun h => ⟨rfl, h2, (Outcome.ok.inj h).symm⟩, fun h => by rw [h.2.2]; rfl⟩
    · rw [if_pos h2]
      exact ⟨fun h => absurd h (fail_ne_ok _ _), fun h => absurd h.2.1 h2⟩
  · rw [if_pos fun h => h1 (hsize.mp h)]
    exact ⟨fun h => absurd h (fail_ne_ok _ _), fun h => absurd h.1 h1⟩

/-! ## Expanded -/

def EapExpanded.marshal (e : EapExpanded) : Outcome Bytes :=
  .ok (putUint32 ((eapTypeExpanded.toUInt32 <<< 24) ||| (e.vendorID &&& 0x00ffffff))
    ++ putUint32 e.vendorType ++ e.vendorData)

def EapExpanded.unmarshal (e : EapExpanded) (b : Slice UInt8) : Outcome EapExpanded :=
  if b.len > 0 then
    if b.len < 8 then fail "EapExpanded: No sufficient bytes to decode the EAP expanded type"
    else do
      let v ← b.slice 0 4
      let typeAndVendorID ← uint32 v.data
      let t ← b.slice 4 8
      let vendorType ← uint32 t.data
      let vendorData ← (if b.len > 8 then
          (fun r => e.vendorData ++ r.data) <$> b.sliceFrom 8
        else .ok e.vendorData)
      pure { vendorID := typeAndVendorID &&& 0x00ffffff, vendorType := vendorType,
             vendorData := vendorData }
  else pure e

/-- the type octet in front of a 24-bit vendor -/
theorem typeAndVendor_toNat {v : UInt32} (h : v.toNat < 2 ^ 24) :
    ((eapTypeExpanded.toUInt32 <<< 24) ||| (v &&& 0x00ffffff)).toNat = 254 * 2 ^ 24 + v.toNat := by
  have hm : (0x00ffffff : UInt32).toNat = 2 ^ 24 - 1 := rfl
  have hs : (eapTypeExpanded.toUInt32 <<< 24).toNat = 2 ^ 24 * 254 := rfl
  rw [UInt32.toNat_or, UInt32.toNat_and, hm, hs, Nat.and_two_pow_sub_one_eq_mod,
    Nat.mod_eq_of_lt h, ← Nat.two_pow_add_eq_or_of_lt h, Nat.mul_comm]

/-- the vendor without the type octet -/
theorem vendor_toNat {n : Nat} (h : n < 2 ^ 24) :
    (UInt32.ofNat (254 * 2 ^ 24 + n) &&& 0x00ffffff).toNat = n := by
  have hn : (UInt32.ofNat (254 * 2 ^ 24 + n)).toNat = 2 ^ 24 * 254 + n := by
    rw [UInt32.toNat_ofNat_of_lt' (show 254 * 2 ^ 24 + n < 4294967296 by omega)]
    omega
  have hm : (0x00ffffff : UInt32).toNat = 2 ^ 24 - 1 := rfl
  rw [UInt32.toNat_and, hn, hm, Nat.and_two_pow_sub_one_eq_mod, Nat.mul_add_mod, Nat.mod_eq_of_lt h]

theorem octNat_expanded {l : Bytes} (h : l.length = 3) :
    octNat (eapTypeExpanded :: l) = 254 * 2 ^ 24 + octNat l ∧ octNat l < 2 ^ 24 := by
  have ha := octNat_append [eapTypeExpanded] l
  have hlt := octNat_lt l
  rw [h] at ha hlt
  exact ⟨ha, hlt⟩

/-- seven octets behind the type, and the data of the vendor -/
theorem EapExpanded.unmarshal_full {l : Bytes} (h7 : 7 ≤ l.length) (sp : Bytes) :
    EapExpanded.unmarshal ⟨0, 0, []⟩ ⟨eapTypeExpanded :: l, sp⟩ =
      .ok ⟨UInt32.ofNat (octNat (eapTypeExpanded :: l.take 3)) &&& 0x00ffffff,
        UInt32.ofNat (octNat ((l.drop 3).take 4)), l.drop 7⟩ := by
  have hrest : (if (⟨eapTypeExpanded :: l, sp⟩ : Slice UInt8).len > 8 then
      (fun r => ([] : Bytes) ++ r.data) <$> (⟨eapTypeExpanded :: l, sp⟩ : Slice UInt8).sliceFrom 8
      else .ok []) = Outcome.ok (l.drop 7) := by
    by_cases hgt : (⟨eapTypeExpanded :: l, sp⟩ : Slice UInt8).len > 8
    · rw [if_pos hgt, Slice.sliceFrom_data _ (Nat.le_of_lt hgt)]
      rfl
    · rw [if_neg hgt, List.drop_eq_nil_of_le]
      simp only [Slice.len_mk, List.length_cons] at hgt
      omega
  have hv : uint32 (((eapTypeExpanded :: l).take 4).drop 0) =
      .ok (UInt32.ofNat (octNat (eapTypeExpanded :: l.take 3))) := by
    rw [List.drop_zero, uint32_take (by simp; omega), List.take_take]
    rfl
  have ht : uint32 (((eapTypeExpanded :: l).take 8).drop 4) =
      .ok (UInt32.ofNat (octNat ((l.drop 3).take 4))) := by
    rw [uint32_take (by simp; omega), List.drop_take, List.take_take]
    rfl
  rw [EapExpanded.unmarshal, if_pos (by simp), if_neg (by simp; omega),
    Slice.slice_data _ (by omega) (by simp; omega),
    Slice.slice_data _ (by omega) (by simp; omega), Outcome.ok_bind, hv, Outcome.ok_bind,
    Outcome.ok_bind, ht, Outcome.ok_bind, hrest]
  rfl

/-- an accepted Expanded packet is encoded as it was -/
theorem EapExpanded.marshal_unmarshal {l sp : Bytes} {e : EapExpanded}
    (h : EapExpanded.unmarshal ⟨0, 0, []⟩ ⟨eapTypeExpanded :: l, sp⟩ = .ok e) :
    e.marshal = .ok (eapTypeExpanded :: l) ∧
      ∀ sp', EapExpanded.unmarshal ⟨0, 0, []⟩ ⟨eapTypeExpanded :: l, sp'⟩ = .ok e := by
  have h8 : 7 ≤ l.length := by
    by_contra hlt
    rw [EapExpanded.unmarshal, if_pos (by simp), if_pos (by simp; omega)] at h
    exact absurd h (fail_ne_ok _ _)
  rw [EapExpanded.unmarshal_full h8] at h
  obtain rfl := Outcome.ok.inj h
  refine ⟨?_, EapExpanded.unmarshal_full h8⟩
  have h3 : (l.take 3).length = 3 := by rw [List.length_take]; omega
  have h4 : ((l.drop 3).take 4).length = 4 := by rw [List.length_take, List.length_drop]; omega
  obtain ⟨hn, hlt⟩ := octNat_expanded h3
  have hput := putUint32_ofOctets (l := eapTypeExpanded :: l.take 3) (by rw [List.length_cons, h3])
  have hvendor : (eapTypeExpanded.toUInt32 <<< 24) ||| ((UInt32.ofNat
      (254 * 2 ^ 24 + octNat (l.take 3)) &&& 0x00ffffff) &&& 0x00ffffff) =
      UInt32.ofNat (254 * 2 ^ 24 + octNat (l.take 3)) := by
    apply UInt32.toNat_inj.mp
    rw [typeAndVendor_toNat (by rw [vendor_toNat hlt]; exact hlt), vendor_toNat hlt,
      UInt32.toNat_ofNat_of_lt' (show 254 * 2 ^ 24 + octNat (l.take 3) < 4294967296 by omega)]
  rw [hn] at hput
  rw [EapExpanded.marshal, hn, hvendor, hput, putUint32_ofOctets h4]
  have hsplit : l = l.take 3 ++ ((l.drop 3).take 4 ++ l.drop 7) := by
    have h7 : l.drop 7 = (l.drop 3).drop 4 := by rw [List.drop_drop]
    rw [h7, List.take_append_drop, List.take_append_drop]
  rw [List.cons_append, List.cons_append, List.append_assoc, ← hsplit]

/-- a vendor of 24 bits is written behind the type octet -/
theorem putUint32_expanded {v : UInt32} (h : v.toNat < 2 ^ 24) :
    ∃ l : Bytes, l.length = 3 ∧
      putUint32 ((eapTypeExpanded.toUInt32 <<< 24) ||| (v &&& 0x00ffffff)) = eapTypeExpanded :: l ∧
      octNat l = v.toNat := by
  have hl : (octets 3 v.toNat).length = 3 := length_octets _ _
  have ho : octNat (octets 3 v.toNat) = v.toNat := octNat_octets_of_lt (show v.toNat < 256 ^ 3 from h)
  obtain ⟨hn, _⟩ := octNat_expanded hl
  refine ⟨octets 3 v.toNat, hl, ?_, ho⟩
  have hw : (eapTypeExpanded.toUInt32 <<< 24) ||| (v &&& 0x00ffffff) =
      UInt32.ofNat (octNat (eapTypeExpanded :: octets 3 v.toNat)) := by
    apply UInt32.toNat_inj.mp
    rw [typeAndVendor_toNat h, hn, ho,
      UInt32.toNat_ofNat_of_lt' (show 254 * 2 ^ 24 + v.toNat < 4294967296 by omega)]
  rw [hw, putUint32_ofOctets (by rw [List.length_cons, hl])]

/-- an Expanded packet with a vendor of 24 bits is read as it was written -/
theorem EapExpanded.unmarshal_marshal {e : EapExpanded} (hv : e.vendorID.toNat < 2 ^ 24) {x : Bytes}
    (h : e.marshal = .ok x) : ∃ l, x = eapTypeExpanded :: l ∧
      ∀ sp, EapExpanded.unmarshal ⟨0, 0, []⟩ ⟨x, sp⟩ = .ok e := by
  obtain ⟨v, hv3, hput, hnum⟩ := putUint32_expanded hv
  have ht4 : (putUint32 e.vendorType).length = 4 := length_putUint32 _
  rw [EapExpanded.marshal, hput] at h
  obtain rfl := Outcome.ok.inj h
  refine ⟨v ++ putUint32 e.vendorType ++ e.vendorData, rfl, fun sp => ?_⟩
  have h3 : (v ++ putUint32 e.vendorType ++ e.vendorData).take 3 = v := by
    rw [List.append_assoc, List.take_left' hv3]
  have h7 : ((v ++ putUint32 e.vendorType ++ e.vendorData).drop 3).take 4 =
      putUint32 e.vendorType := by
    rw [List.append_assoc, List.drop_left' hv3, List.take_left' ht4]
  have hd : (v ++ putUint32 e.vendorType ++ e.vendorData).drop 7 = e.vendorData :=
    List.drop_left' (by rw [List.length_append, hv3, ht4])
  have hfull := EapExpanded.unmarshal_full (l := v ++ putUint32 e.vendorType ++ e.vendorData)
    (by simp only [List.length_append, hv3, ht4]; omega) sp
  obtain ⟨hn, hlt⟩ := octNat_expanded hv3
  have hid : UInt32.ofNat (octNat (eapTypeExpanded :: v)) &&& 0x00ffffff = e.vendorID := by
    apply UInt32.toNat_inj.mp
    rw [hn, vendor_toNat hlt, hnum]
  rw [h3, h7, hd, hid, putUint32, octNat_octets_of_lt (show _ < 256 ^ 4 from e.vendorType.toNat_lt),
    UInt32.ofNat_toNat] at hfull
  exact hfull

end Ike
