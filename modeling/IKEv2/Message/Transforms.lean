import IKEv2.Message.SecurityAssociation

/-!
# The transforms of a proposal

* `readTransform_eq`            the decoder of one transform, with all its ends;
* `transformOf_readTransform`   what a record is decoded to, as far as its octets decide it;
* `readTransform_marshal`       what the decoder makes of an encoded transform;
* `foldl_add`                   the decoder sorts the transforms by type and drops the rest;
* `transformLoop_iff`           the loop over the transforms.
-/

set_option linter.unusedVariables false

namespace Ike
open GoLang

/-! ## one transform -/

/-- what a decoded transform looks like, and which octets of its record decide it -/
structure TransformOf (a : Bytes) (t : Transform) : Prop where
  type : t.transformType = a.getD 4 0
  present : t.attributePresent = decide (8 < a.length)
  noValue : t.variableLengthAttributeValue = []
  format : t.attributePresent = true → t.attributeFormat = (a.getD 8 0 &&& 0x80) >>> 7
  attrType : t.attributeType.toNat < 128
  absent : t.attributePresent = false →
    t.attributeFormat = 0 ∧ t.attributeType = 0 ∧ t.attributeValue = 0

theorem and_7f (v : UInt16) : (v &&& 0x7f).toNat = v.toNat % 128 := by
  rw [UInt16.toNat_and]
  exact Nat.and_two_pow_sub_one_eq_mod v.toNat 7

theorem and_7f_lt (v : UInt16) : (v &&& 0x7f).toNat < 128 := by
  rw [and_7f]
  exact Nat.mod_lt _ (by decide)

def wireFormat (d : Bytes) : UInt8 := (d.getD 8 0 &&& 0x80) >>> 7

/-- a transform without attribute -/
def bareTransform (d : Bytes) : Transform :=
  { transformType := d.getD 4 0, transformID := wordAt d 6, attributePresent := false,
    attributeFormat := 0, attributeType := 0, attributeValue := 0,
    variableLengthAttributeValue := [] }

def attrTransform (d : Bytes) (value : UInt16) : Transform :=
  { transformType := d.getD 4 0, transformID := wordAt d 6, attributePresent := true,
    attributeFormat := wireFormat d, attributeType := wordAt d 8 &&& 0x7f,
    attributeValue := value, variableLengthAttributeValue := [] }

/-- **The transform at the front of `d`**: twelve octets are read when its length is above 8, and a
length that `12 + attributeLength` meets after a wrap makes the slice run backwards. -/
theorem readTransform_eq {d : Bytes} {L : UInt16} (h8 : 8 ≤ d.length) (hL : L.toNat ≤ d.length)
    (sp : Bytes) :
    readTransform ⟨d, sp⟩ L =
      if L.toNat ≤ 8 then .ok (bareTransform d)
      else if d.length < 10 then
        fail s!"Transform: attribute data too short to read Type (length: {d.length})"
      else if wireFormat d = 0 then
        if d.length < 12 then
          fail s!"Transform: attribute data too short to read Length (length: {d.length})"
        else if 12 + wordAt d 10 ≠ L then
          fail s!"Illegal attribute length {(wordAt d 10).toNat} not satisfies the transform length {L.toNat}"
        else if L.toNat < 12 then .panic .sliceOutOfRange
        else .ok (attrTransform d 0)
      else if d.length < 12 then
        fail s!"Transform: attribute data too short to read Value (length: {d.length})"
      else .ok (attrTransform d (wordAt d 10)) := by
  have hgt : L > 8 ↔ ¬ L.toNat ≤ 8 := by
    show (8 : UInt16) < L ↔ _
    rw [UInt16.lt_iff_toNat_lt, Nat.not_le]
    rfl
  unfold readTransform
  rw [Slice.index_getD (show 4 < d.length by omega) 0, Outcome.ok_bind,
    slice_uint16_bind rfl h8]
  by_cases hp : L.toNat ≤ 8
  · rw [if_pos hp, if_neg (fun h => hgt.mp h hp)]
    rfl
  rw [if_neg hp, if_pos (hgt.mpr hp)]
  by_cases h10 : d.length < 10
  · rw [if_pos (show (⟨d, sp⟩ : Slice UInt8).len < 10 from h10), if_pos h10]
    rfl
  rw [if_neg (show ¬ (⟨d, sp⟩ : Slice UInt8).len < 10 from h10), if_neg h10,
    Slice.index_getD (show 8 < d.length by omega) 0, Outcome.ok_bind,
    slice_uint16_bind rfl (by omega)]
  by_cases h12 : d.length < 12
  · have h12' : (⟨d, sp⟩ : Slice UInt8).len < 12 := h12
    dsimp only
    rw [if_pos h12, if_pos h12, if_pos h12', if_pos h12']
    rfl
  have h12' : ¬ (⟨d, sp⟩ : Slice UInt8).len < 12 := h12
  dsimp only
  rw [if_neg h12, if_neg h12, if_neg h12', if_neg h12', slice_uint16_bind rfl (by omega),
    slice_uint16_bind rfl (by omega)]
  by_cases he : 12 + wordAt d 10 ≠ L
  · rw [if_pos he, if_pos he]
    rfl
  rw [if_neg he, if_neg he, not_not.mp he]
  by_cases hlt : L.toNat < 12
  · rw [if_pos hlt, Slice.slice_panic _ hlt]
    rfl
  · rw [if_neg hlt, Slice.slice_data _ (by omega) hL]
    rfl

/-- a transform is read from the octets of the proposal alone -/
theorem readTransform_spare {d : Bytes} {L : UInt16} (h8 : 8 ≤ d.length) (hL : L.toNat ≤ d.length)
    (sp sp' : Bytes) : readTransform ⟨d, sp⟩ L = readTransform ⟨d, sp'⟩ L := by
  rw [readTransform_eq h8 hL, readTransform_eq h8 hL]

/-- the length field of a record, and of the record in front of others -/
theorem lenRec_bounds {a : Bytes} (ha : LenRec 8 a) (rest : Bytes) :
    8 ≤ (a ++ rest).length ∧ (UInt16.ofNat a.length).toNat = a.length ∧
      (UInt16.ofNat a.length).toNat ≤ (a ++ rest).length := by
  have h8 : 8 ≤ a.length := ha.1
  have hlt : a.length < 65536 := by rw [← ha.2]; exact lenField_lt a
  have hL : (UInt16.ofNat a.length).toNat = a.length := UInt16.toNat_ofNat_of_lt' hlt
  rw [hL, List.length_append]
  exact ⟨by omega, rfl, by omega⟩

theorem transformOf_readTransform {a rest sp : Bytes} {t : Transform} (ha : LenRec 8 a)
    (h : readTransform ⟨a ++ rest, sp⟩ (UInt16.ofNat a.length) = .ok t) : TransformOf a t := by
  obtain ⟨h8, hL, hle⟩ := lenRec_bounds ha rest
  have ha8 : 8 ≤ a.length := ha.1
  have hget : ∀ i < a.length, (a ++ rest).getD i 0 = a.getD i 0 := fun i hi =>
    List.getD_append _ _ _ _ hi
  have hattr : 8 < a.length → ∀ v, TransformOf a (attrTransform (a ++ rest) v) := by
    intro hlt v
    refine ⟨hget 4 (by omega), by simp [attrTransform, hlt], rfl, fun _ => ?_, and_7f_lt _,
      fun hn => absurd hn (by simp [attrTransform])⟩
    show wireFormat (a ++ rest) = _
    rw [wireFormat, hget 8 hlt]
  rw [readTransform_eq h8 hle, hL] at h
  split at h
  · injection h with h
    subst h
    refine ⟨hget 4 (by omega), ?_, rfl, fun hn => absurd hn (by simp [bareTransform]),
      show (0 : UInt16).toNat < 128 by decide, fun _ => ⟨rfl, rfl, rfl⟩⟩
    have : ¬ 8 < a.length := by omega
    simp [bareTransform, this]
  have hlt : 8 < a.length := by omega
  split at h
  · exact absurd h (fail_ne_ok _ _)
  split at h
  · split at h
    · exact absurd h (fail_ne_ok _ _)
    split at h
    · exact absurd h (fail_ne_ok _ _)
    split at h
    · exact absurd h (by simp)
    · injection h with h
      subst h
      exact hattr hlt _
  · split at h
    · exact absurd h (fail_ne_ok _ _)
    · injection h with h
      subst h
      exact hattr hlt _

/-! ## what the decoder makes of an encoded transform -/

/-- without attribute, with a type and a value, or with a type and a value of variable length -/
structure Transform.Canonical (t : Transform) : Prop where
  attrType : t.attributeType.toNat < 32768
  shape : t.attributePresent = false ∧ t.attributeFormat = 0 ∧ t.attributeType = 0 ∧
      t.attributeValue = 0 ∧ t.variableLengthAttributeValue = [] ∨
    t.attributePresent = true ∧ t.attributeFormat = 1 ∧ t.variableLengthAttributeValue = [] ∨
    t.attributePresent = true ∧ t.attributeFormat = 0 ∧ t.attributeValue = 0

/-- the transform at the other end -/
def Transform.received (t : Transform) : Transform :=
  { t with attributeType := t.attributeType &&& 0x7f, variableLengthAttributeValue := [] }

theorem toNat_typeValue {v : UInt16} (h : v.toNat < 32768) :
    ((((1 : UInt8).toUInt16 &&& 0x1) <<< 15) ||| v).toNat = 32768 + v.toNat := by
  have h1 : (((1 : UInt8).toUInt16 &&& 0x1) <<< 15).toNat = 2 ^ 15 := rfl
  rw [UInt16.toNat_or, h1, ← Nat.mul_one (2 ^ 15), ← Nat.two_pow_add_eq_or_of_lt h 1]

/-- the octets of a transform with an attribute -/
theorem readTransform_attr {m l1 l2 ty i1 i2 w1 w2 x1 x2 : UInt8} {v : Bytes} {id w x : UInt16}
    (hi : putUint16 id = [i1, i2]) (hw : putUint16 w = [w1, w2]) (hx : putUint16 x = [x1, x2])
    (ha : LenRec 8 (m :: 0 :: l1 :: l2 :: ty :: 0 :: i1 :: i2 :: w1 :: w2 :: x1 :: x2 :: v))
    (hlen : w.toNat < 32768 → x.toNat = v.length) (r sp : Bytes) :
    readTransform ⟨(m :: 0 :: l1 :: l2 :: ty :: 0 :: i1 :: i2 :: w1 :: w2 :: x1 :: x2 :: v) ++ r, sp⟩
        (UInt16.ofNat (v.length + 12)) =
      .ok ⟨ty, id, true, if w.toNat < 32768 then 0 else 1, w &&& 0x7f,
        if w.toNat < 32768 then 0 else x, []⟩ := by
  have hw1 : w1.toNat < 256 := w1.toNat_lt
  have hw2 : w2.toNat < 256 := w2.toNat_lt
  obtain ⟨h8, hL, hle⟩ := lenRec_bounds ha r
  rw [List.length_cons, List.length_cons, List.length_cons, List.length_cons, List.length_cons,
    List.length_cons, List.length_cons, List.length_cons, List.length_cons, List.length_cons,
    List.length_cons, List.length_cons] at hL hle
  generalize hd : (m :: 0 :: l1 :: l2 :: ty :: 0 :: i1 :: i2 :: w1 :: w2 :: x1 :: x2 :: v) ++ r = d
    at *
  have hlen12 : 12 ≤ d.length := by rw [← hd]; simp
  have e4 : d.getD 4 0 = ty := by rw [← hd]; rfl
  have e6 : wordAt d 6 = id := by rw [← hd]; exact ofNat_of_putUint16 hi
  have e8 : wordAt d 8 = w := by rw [← hd]; exact ofNat_of_putUint16 hw
  have e10 : wordAt d 10 = x := by rw [← hd]; exact ofNat_of_putUint16 hx
  have ef : wireFormat d = if w.toNat < 32768 then 0 else 1 := by
    have hwf : wireFormat d = (w1 &&& 0x80) >>> 7 := by rw [← hd]; rfl
    have hn := toNat_of_putUint16 hw
    rw [hwf, topBit_eq]
    by_cases hs : w.toNat < 32768
    · rw [if_pos hs, if_pos (by omega)]
    · rw [if_neg hs, if_neg (by omega)]
  rw [readTransform_eq h8 hle, hL, if_neg (by omega), if_neg (by omega), ef, attrTransform,
    attrTransform, e4, e6, e8, e10, ef]
  by_cases hs : w.toNat < 32768
  · have hxl := hlen hs
    have hmax : v.length + 12 < 65536 := by rw [← hL]; exact UInt16.toNat_lt _
    have h12 : 12 + x = UInt16.ofNat (v.length + 12) := by
      apply UInt16.toNat_inj.mp
      rw [UInt16.toNat_add, hL]
      show (12 + x.toNat) % 65536 = _
      omega
    rw [if_pos hs, if_pos hs, if_pos rfl, if_neg (by omega), if_neg (not_not_intro h12),
      if_neg (by omega)]
  · rw [if_neg hs, if_neg hs, if_neg (by decide), if_neg (by omega)]

theorem Transform.marshal_eq_ok {t : Transform} {last : Bool} {o : Bytes}
    (h : t.marshal last = .ok o) :
    ∃ a l1 l2 i1 i2, t.attributeData = .ok a ∧ putUint16 t.transformID = [i1, i2] ∧
      o = (if last then 0 else 3) :: 0 :: l1 :: l2 :: t.transformType :: 0 :: i1 :: i2 :: a ∧
      LenRec 8 o := by
  obtain ⟨a, had, h⟩ := Outcome.bind_eq_ok.mp h
  dsimp only at h
  by_cases hbig : 8 + a.length > 0xFFFF
  · rw [if_pos hbig] at h
    exact absurd h (fail_ne_ok _ _)
  rw [if_neg hbig] at h
  injection h with h
  obtain ⟨l1, l2, hl, hln⟩ := exists_octets_putUint16 (UInt16.ofNat (8 + a.length))
  obtain ⟨i1, i2, hi, _⟩ := exists_octets_putUint16 t.transformID
  rw [UInt16.toNat_ofNat_of_lt' (show _ < 65536 by omega)] at hln
  rw [hl, hi] at h
  subst h
  refine ⟨a, l1, l2, i1, i2, had, hi, rfl, ?_, ?_⟩
  · simp
  · show octNat [l1, l2] = _
    simp [octNat, hln]
    omega

/-- **An encoded transform at the other end**: the type keeps seven bits, the value of an attribute
of variable length is gone. -/
theorem readTransform_marshal {t : Transform} (ht : t.Canonical) {last : Bool} {o : Bytes}
    (h : t.marshal last = .ok o) :
    LenRec 8 o ∧ ∀ r sp, readTransform ⟨o ++ r, sp⟩ (UInt16.ofNat o.length) = .ok t.received := by
  obtain ⟨a, l1, l2, i1, i2, had, hi, rfl, hrec⟩ := t.marshal_eq_ok h
  refine ⟨hrec, fun r sp => ?_⟩
  have htype := ht.attrType
  unfold Transform.attributeData at had
  unfold Transform.received
  rcases ht.shape with ⟨hp, hf, hat, hv, _⟩ | ⟨hp, hf, _⟩ | ⟨hp, hf, hv⟩
  · rw [hp, if_neg (by decide)] at had
    injection had with had
    subst had
    obtain ⟨h8, hL, hle⟩ := lenRec_bounds hrec r
    rw [readTransform_eq h8 hle, hL, if_pos (by simp), hp, hf, hat, hv, bareTransform]
    show Outcome.ok (Transform.mk t.transformType (UInt16.ofNat (i1.toNat * 256 + i2.toNat))
      false 0 0 0 []) = _
    rw [ofNat_of_putUint16 hi]
    rfl
  · rw [hp, if_pos rfl, hf, if_neg (by decide), Transform.attributeFormatAndType, hf] at had
    injection had with had
    obtain ⟨w1, w2, hw, _⟩ := exists_octets_putUint16
      ((((1 : UInt8).toUInt16 &&& 0x1) <<< 15) ||| t.attributeType)
    obtain ⟨x1, x2, hx, _⟩ := exists_octets_putUint16 t.attributeValue
    have hwn := toNat_typeValue htype
    rw [hw, hx] at had
    subst had
    refine (readTransform_attr hi hw hx hrec (fun hlt => absurd hlt (by omega)) r sp).trans ?_
    rw [if_neg (by omega), if_neg (by omega), hp, hf]
    have hand : ((((1 : UInt8).toUInt16 &&& 0x1) <<< 15) ||| t.attributeType) &&& 0x7f =
        t.attributeType &&& 0x7f := by
      apply UInt16.toNat_inj.mp
      rw [and_7f, and_7f, hwn]
      omega
    rw [hand]
  · have hzero : (((0 : UInt8).toUInt16 &&& 0x1) <<< 15) ||| t.attributeType = t.attributeType := by
      apply UInt16.toNat_inj.mp
      rw [UInt16.toNat_or]
      exact Nat.zero_or _
    rw [hp, if_pos rfl, if_pos hf, Transform.attributeFormatAndType, hf, hzero] at had
    by_cases hz : t.variableLengthAttributeValue.length = 0
    · rw [if_pos hz] at had
      exact absurd had (fail_ne_ok _ _)
    by_cases hlong : t.variableLengthAttributeValue.length > 0xFFFF
    · rw [if_neg hz, if_pos hlong] at had
      exact absurd had (fail_ne_ok _ _)
    rw [if_neg hz, if_neg hlong] at had
    injection had with had
    obtain ⟨w1, w2, hw, _⟩ := exists_octets_putUint16 t.attributeType
    obtain ⟨x1, x2, hx, _⟩ := exists_octets_putUint16
      (UInt16.ofNat t.variableLengthAttributeValue.length)
    have hxl : (UInt16.ofNat t.variableLengthAttributeValue.length).toNat =
        t.variableLengthAttributeValue.length :=
      UInt16.toNat_ofNat_of_lt' (show _ < 65536 by omega)
    rw [hw, hx] at had
    subst had
    refine (readTransform_attr hi hw hx hrec (fun _ => hxl) r sp).trans ?_
    rw [if_pos htype, if_pos htype, hp, hf, hv]

/-! ## plain transforms -/

/-- a transform without attribute, or with a type/value attribute whose type fits seven bits -/
structure Transform.Plain (t : Transform) : Prop where
  noValue : t.variableLengthAttributeValue = []
  attrType : t.attributeType.toNat < 128
  format : t.attributePresent = true → t.attributeFormat = 1
  absent : t.attributePresent = false →
    t.attributeFormat = 0 ∧ t.attributeType = 0 ∧ t.attributeValue = 0

/-- the octets of a plain transform -/
def Transform.octets (last : Bool) (t : Transform) : Bytes :=
  (if last then 0 else 3) :: 0 :: (putUint16 (if t.attributePresent then 12 else 8)
    ++ [t.transformType, 0] ++ putUint16 t.transformID
    ++ if t.attributePresent then
        [0x80, UInt8.ofNat t.attributeType.toNat] ++ putUint16 t.attributeValue
      else [])

theorem length_octets_transform (last : Bool) (t : Transform) :
    (t.octets last).length = if t.attributePresent then 12 else 8 := by
  unfold Transform.octets
  cases t.attributePresent <;> simp

theorem putUint16_typeValue (v : UInt16) (h : v.toNat < 128) :
    putUint16 ((((1 : UInt8).toUInt16 &&& 0x1) <<< 15) ||| v) = [0x80, UInt8.ofNat v.toNat] := by
  have key : ∀ n < 128, putUint16 ((((1 : UInt8).toUInt16 &&& 0x1) <<< 15) ||| UInt16.ofNat n) =
      [0x80, UInt8.ofNat n] := by decide +kernel
  have hk := key v.toNat h
  rwa [UInt16.ofNat_toNat] at hk

theorem Transform.marshal_plain {t : Transform} (ht : t.Plain) (last : Bool) :
    t.marshal last = .ok (t.octets last) := by
  unfold Transform.marshal Transform.attributeData Transform.octets
  cases hp : t.attributePresent with
  | true =>
    have hf := ht.format hp
    have hput := putUint16_typeValue t.attributeType ht.attrType
    rw [if_pos rfl, hf, if_neg (by decide), Transform.attributeFormatAndType, hf, hput]
    simp
  | false =>
    rw [if_neg (by decide)]
    simp

theorem Transform.Plain.canonical {t : Transform} (ht : t.Plain) : t.Canonical := by
  have h128 := ht.attrType
  refine ⟨by omega, ?_⟩
  cases hp : t.attributePresent with
  | true => exact .inr (.inl ⟨rfl, ht.format hp, ht.noValue⟩)
  | false =>
    obtain ⟨h1, h2, h3⟩ := ht.absent hp
    exact .inl ⟨rfl, h1, h2, h3, ht.noValue⟩

theorem Transform.Plain.received {t : Transform} (ht : t.Plain) : t.received = t := by
  have h128 := ht.attrType
  have htype : t.attributeType &&& 0x7f = t.attributeType := by
    apply UInt16.toNat_inj.mp
    rw [and_7f]
    omega
  have hval := ht.noValue
  obtain ⟨ty, id, pr, fo, at', va, le⟩ := t
  simp only at htype hval
  rw [Transform.received, htype, hval]

/-! ## the transforms of a proposal -/

/-- the transform types that the decoder keeps -/
def knownTransform (type : UInt8) : Bool :=
  type = typeEncryptionAlgorithm || type = typePseudorandomFunction ||
    type = typeIntegrityAlgorithm || type = typeDiffieHellmanGroup ||
    type = typeExtendedSequenceNumbers

/-- every transform of a proposal is in the list of its type -/
structure Proposal.Grouped (p : Proposal) : Prop where
  encr : ∀ t ∈ p.encryptionAlgorithm, t.transformType = typeEncryptionAlgorithm
  prf : ∀ t ∈ p.pseudorandomFunction, t.transformType = typePseudorandomFunction
  integ : ∀ t ∈ p.integrityAlgorithm, t.transformType = typeIntegrityAlgorithm
  dh : ∀ t ∈ p.diffieHellmanGroup, t.transformType = typeDiffieHellmanGroup
  esn : ∀ t ∈ p.extendedSequenceNumbers, t.transformType = typeExtendedSequenceNumbers

/-- the transforms of one type -/
def ofType (k : UInt8) (ts : List Transform) : List Transform :=
  ts.filter fun t => t.transformType = k

theorem ofType_append (k : UInt8) (l l' : List Transform) :
    ofType k (l ++ l') = ofType k l ++ ofType k l' := List.filter_append ..

theorem ofType_same {k : UInt8} {l : List Transform} (h : ∀ t ∈ l, t.transformType = k) :
    ofType k l = l :=
  List.filter_eq_self.mpr fun t ht => decide_eq_true (h t ht)

theorem ofType_other {k k' : UInt8} {l : List Transform} (h : ∀ t ∈ l, t.transformType = k')
    (hk : k' ≠ k) : ofType k l = [] :=
  List.filter_eq_nil_iff.mpr fun t ht => by rw [h t ht]; simpa using hk

theorem mem_ofType {k : UInt8} {l : List Transform} {t : Transform} :
    t ∈ ofType k l ↔ t ∈ l ∧ t.transformType = k := by
  simp [ofType]

/-- adding transforms one after the other sorts them by type -/
theorem foldl_add (ts : List Transform) (p : Proposal) :
    ts.foldl Proposal.add p = { p with
      encryptionAlgorithm := p.encryptionAlgorithm ++ ofType typeEncryptionAlgorithm ts,
      pseudorandomFunction := p.pseudorandomFunction ++ ofType typePseudorandomFunction ts,
      integrityAlgorithm := p.integrityAlgorithm ++ ofType typeIntegrityAlgorithm ts,
      diffieHellmanGroup := p.diffieHellmanGroup ++ ofType typeDiffieHellmanGroup ts,
      extendedSequenceNumbers :=
        p.extendedSequenceNumbers ++ ofType typeExtendedSequenceNumbers ts } := by
  induction ts generalizing p with
  | nil => simp [ofType]
  | cons t ts ih =>
    rw [List.foldl_cons, ih]
    have hcons : ∀ k, ofType k (t :: ts) =
        if t.transformType = k then t :: ofType k ts else ofType k ts := by
      intro k
      by_cases hk : t.transformType = k
      · rw [if_pos hk, ofType, List.filter_cons_of_pos (by simpa using hk)]
        rfl
      · rw [if_neg hk, ofType, List.filter_cons_of_neg (by simpa using hk)]
        rfl
    simp only [hcons]
    unfold Proposal.add
    by_cases h1 : t.transformType = typeEncryptionAlgorithm
    · simp [h1, typeEncryptionAlgorithm, typePseudorandomFunction, typeIntegrityAlgorithm,
        typeDiffieHellmanGroup, typeExtendedSequenceNumbers]
    · by_cases h2 : t.transformType = typePseudorandomFunction
      · simp [h2, typeEncryptionAlgorithm, typePseudorandomFunction, typeIntegrityAlgorithm,
          typeDiffieHellmanGroup, typeExtendedSequenceNumbers]
      · by_cases h3 : t.transformType = typeIntegrityAlgorithm
        · simp [h3, typeEncryptionAlgorithm, typePseudorandomFunction, typeIntegrityAlgorithm,
            typeDiffieHellmanGroup, typeExtendedSequenceNumbers]
        · by_cases h4 : t.transformType = typeDiffieHellmanGroup
          · simp [h4, typeEncryptionAlgorithm, typePseudorandomFunction, typeIntegrityAlgorithm,
              typeDiffieHellmanGroup, typeExtendedSequenceNumbers]
          · by_cases h5 : t.transformType = typeExtendedSequenceNumbers
            · simp [h5, typeEncryptionAlgorithm, typePseudorandomFunction, typeIntegrityAlgorithm,
                typeDiffieHellmanGroup, typeExtendedSequenceNumbers]
            · simp [h1, h2, h3, h4, h5]

theorem grouped_foldl_add (ts : List Transform) (x y : UInt8) (spi : Bytes) :
    (ts.foldl Proposal.add (emptyProposal x y spi)).Grouped := by
  rw [foldl_add]
  refine ⟨?_, ?_, ?_, ?_, ?_⟩ <;> intro t ht <;> exact (mem_ofType.mp ht).2

/-- a grouped proposal is what its own transforms add up to -/
theorem foldl_add_transformList {p : Proposal} (h : p.Grouped) :
    p.transformList.foldl Proposal.add (emptyProposal p.proposalNumber p.protocolID p.spi) = p := by
  rw [foldl_add]
  unfold Proposal.transformList emptyProposal
  simp only [ofType_append, List.nil_append]
  rw [ofType_same h.encr, ofType_same h.prf, ofType_same h.integ, ofType_same h.dh,
    ofType_same h.esn, ofType_other h.encr (by decide), ofType_other h.encr (by decide),
    ofType_other h.encr (by decide), ofType_other h.encr (by decide),
    ofType_other h.prf (by decide), ofType_other h.prf (by decide),
    ofType_other h.prf (by decide), ofType_other h.prf (by decide),
    ofType_other h.integ (by decide), ofType_other h.integ (by decide),
    ofType_other h.integ (by decide), ofType_other h.integ (by decide),
    ofType_other h.dh (by decide), ofType_other h.dh (by decide),
    ofType_other h.dh (by decide), ofType_other h.dh (by decide),
    ofType_other h.esn (by decide), ofType_other h.esn (by decide),
    ofType_other h.esn (by decide), ofType_other h.esn (by decide)]
  simp

theorem transformList_add (p : Proposal) (t : Transform) :
    (p.add t).transformList.Perm
      (p.transformList ++ if knownTransform t.transformType then [t] else []) := by
  unfold Proposal.add knownTransform Proposal.transformList
  by_cases h1 : t.transformType = typeEncryptionAlgorithm
  · rw [if_pos h1, if_pos (by simp [h1])]
    grind
  by_cases h2 : t.transformType = typePseudorandomFunction
  · rw [if_neg h1, if_pos h2, if_pos (by simp [h2])]
    grind
  by_cases h3 : t.transformType = typeIntegrityAlgorithm
  · rw [if_neg h1, if_neg h2, if_pos h3, if_pos (by simp [h3])]
    grind
  by_cases h4 : t.transformType = typeDiffieHellmanGroup
  · rw [if_neg h1, if_neg h2, if_neg h3, if_pos h4, if_pos (by simp [h4])]
    grind
  by_cases h5 : t.transformType = typeExtendedSequenceNumbers
  · rw [if_neg h1, if_neg h2, if_neg h3, if_neg h4, if_pos h5, if_pos (by simp [h5])]
    grind
  · rw [if_neg h1, if_neg h2, if_neg h3, if_neg h4, if_neg h5,
      if_neg (by simp [h1, h2, h3, h4, h5]), List.append_nil]

theorem transformList_foldl_add (ts : List Transform) (p : Proposal) :
    (ts.foldl Proposal.add p).transformList.Perm
      (p.transformList ++ ts.filter fun t => knownTransform t.transformType) := by
  induction ts generalizing p with
  | nil => rw [List.filter_nil, List.append_nil]; exact List.Perm.refl _
  | cons t ts ih =>
    rw [List.foldl_cons]
    refine (ih (p.add t)).trans ?_
    refine ((transformList_add p t).append_right _).trans ?_
    rw [List.append_assoc]
    refine List.Perm.append_left _ ?_
    by_cases hk : knownTransform t.transformType = true
    · rw [if_pos hk, List.filter_cons, if_pos hk]
      exact List.Perm.refl _
    · rw [if_neg hk, List.filter_cons, if_neg hk]
      exact List.Perm.refl _

/-! ## the loop over the transforms -/

/-- one transform added to the proposal -/
def TransformStep (p : Proposal) (a rest sp : Bytes) (p' : Proposal) : Prop :=
  LenRec 8 a ∧ p.add <$> readTransform ⟨a ++ rest, sp⟩ (UInt16.ofNat a.length) = .ok p'

theorem transformRound_reads : Reads transformRound id TransformStep :=
  lenRound_reads (by omega) _ _ _ _

theorem transformStep_ne (p : Proposal) (a rest sp : Bytes) (p' : Proposal)
    (h : TransformStep p a rest sp p') : id a ≠ [] := lenRec_ne_nil (by omega) h.1

/-- transforms in the order of the wire; each is read with those behind it in view -/
inductive ReadTransforms : List Bytes → List Transform → Prop
  | nil : ReadTransforms [] []
  | cons {a : Bytes} {as : List Bytes} {t : Transform} {ts : List Transform} (ha : LenRec 8 a)
      (h : readTransform ⟨a ++ as.flatten, []⟩ (UInt16.ofNat a.length) = .ok t)
      (tl : ReadTransforms as ts) : ReadTransforms (a :: as) (t :: ts)

theorem ReadTransforms.lenRecs {as : List Bytes} {ts : List Transform}
    (h : ReadTransforms as ts) : ∀ a ∈ as, LenRec 8 a := by
  induction h with
  | nil => intro a ha; exact absurd ha (by simp)
  | cons ha _ _ ih =>
    exact List.forall_mem_cons.mpr ⟨ha, ih⟩

theorem ReadTransforms.forall₂ {as : List Bytes} {ts : List Transform}
    (h : ReadTransforms as ts) : List.Forall₂ TransformOf as ts := by
  induction h with
  | nil => exact .nil
  | cons ha h _ ih => exact .cons (transformOf_readTransform ha h) ih

/-- the loop adds the transforms it reads; what is behind the proposal does not matter -/
theorem peel_transforms_iff {sp : Bytes} {as : List Bytes} {p p' : Proposal} :
    Peel id TransformStep sp p as p' ↔
      ∃ ts, ReadTransforms as ts ∧ p' = ts.foldl Proposal.add p := by
  have hspare : ∀ {a : Bytes} (r : Bytes), LenRec 8 a →
      readTransform ⟨a ++ r, sp⟩ (UInt16.ofNat a.length) =
        readTransform ⟨a ++ r, []⟩ (UInt16.ofNat a.length) := by
    intro a r ha
    obtain ⟨h8, _, hle⟩ := lenRec_bounds ha r
    exact readTransform_spare h8 hle sp []
  constructor
  · intro hp
    induction hp with
    | nil p => exact ⟨[], .nil, rfl⟩
    | @cons p p1 p2 a as hs _ ih =>
      obtain ⟨ts, h1, h2⟩ := ih
      obtain ⟨t, ht, rfl⟩ := Outcome.map_eq_ok.mp hs.2
      rw [hspare _ hs.1, List.flatMap_id] at ht
      exact ⟨t :: ts, .cons hs.1 ht h1, h2⟩
  · intro ⟨ts, hr, he⟩
    subst he
    induction hr generalizing p with
    | nil => exact .nil p
    | @cons a as t ts ha h _ ih =>
      refine .cons ⟨ha, ?_⟩ (ih (p := p.add t))
      rw [hspare _ ha, List.flatMap_id, h]
      rfl

/-- **The loop over the transforms** takes the data apart and adds what it reads. -/
theorem transformLoop_iff {d sp : Bytes} {p : Proposal} {r : Slice UInt8 × Proposal} :
    peelLoop transformRound (⟨d, sp⟩, p) = .ok r ↔
      ∃ as ts, d = as.flatten ∧ ReadTransforms as ts ∧
        r = (⟨[], sp⟩, ts.foldl Proposal.add p) := by
  rw [peelLoop_iff transformRound_reads transformStep_ne]
  constructor
  · intro ⟨as, p', hp, hd, hr⟩
    obtain ⟨ts, h1, h2⟩ := peel_transforms_iff.mp hp
    exact ⟨as, ts, hd.trans (List.flatMap_id ..), h1, by rw [hr, h2]⟩
  · intro ⟨as, ts, hd, h1, hr⟩
    exact ⟨as, _, peel_transforms_iff.mpr ⟨ts, h1, rfl⟩, hd.trans (List.flatMap_id ..).symm, hr⟩

theorem readTransforms_marshal {ts : List Transform} {d : Bytes} (hc : ∀ t ∈ ts, t.Canonical)
    (h : emitLast Transform.marshal ts = .ok d) :
    ∃ as, d = as.flatten ∧ ReadTransforms as (ts.map Transform.received) := by
  obtain ⟨as, hd, has⟩ := emitLast_pieces
    (fun t ht last o ho => readTransform_marshal (hc t ht) ho) h
  refine ⟨as, hd, ?_⟩
  clear hc h hd
  induction has with
  | nil => exact .nil
  | cons hr _ ih => exact .cons hr.1 (hr.2 _ _) ih

end Ike
