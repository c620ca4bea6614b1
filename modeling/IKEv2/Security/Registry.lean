import IKEv2.Message.Transforms
import IKEv2.Security.Supported

/-!
# The tables of the algorithms by name, and the transforms of the algorithms

In the source `DecodeTransform` goes from a transform to the name of an algorithm, and from the name to
the algorithm; `StrToType` is the second half, for the algorithms of a configuration.  `ToTransform` is
the way back.

* `DHType.decodeTransform_named`, ..   `DecodeTransform` is the way over the names;
* `DHType.decode_toTransform`, ..      the transform of an algorithm is decoded as that algorithm;
* `makeTransform_plain`                the transforms of all algorithms are plain.
-/

set_option linter.unusedVariables false

namespace Ike
open GoLang

/-! ## by name -/

/-- the look-up by the name that a transform stands for; the empty name is in no table -/
def decodeByName {α : Type} (name : Option String) (types : List (String × α)) : Option α :=
  match name with
  | some s => if s ≠ "" then types.lookup s else none
  | none => none

/-- a table of two numbers over a table of two names -/
theorem decodeByName_two {α : Type} {x i j : UInt16} {s s' : String} {types : List (String × α)}
    {a b : α} (hs : s ≠ "") (hs' : s' ≠ "") (ha : types.lookup s = some a)
    (hb : types.lookup s' = some b) :
    decodeByName (if x = i then some s else if x = j then some s' else none) types =
      if x = i then some a else if x = j then some b else none := by
  by_cases hi : x = i
  · rw [if_pos hi, if_pos hi]
    exact (if_pos hs).trans ha
  · rw [if_neg hi, if_neg hi]
    by_cases hj : x = j
    · rw [if_pos hj, if_pos hj]
      exact (if_pos hs').trans hb
    · rw [if_neg hj, if_neg hj]
      rfl

namespace DHType

/-- `dhTypes` -/
def types : List (String × DHType) :=
  [("DH_1024_BIT_MODP", .dh1024BitModp), ("DH_2048_BIT_MODP", .dh2048BitModp)]

def strToType (algo : String) : Option DHType := types.lookup algo

/-- `dhString` -/
def string (transform : Transform) : Option String :=
  if transform.transformID = 2 then some "DH_1024_BIT_MODP"
  else if transform.transformID = 14 then some "DH_2048_BIT_MODP"
  else none

theorem decodeTransform_named (t : Transform) : decodeTransform t = decodeByName (string t) types :=
  (decodeByName_two (by decide) (by decide) rfl rfl).symm

end DHType

namespace ENCRType

/-- `encrTypes`; `encrKTypes` has the same entries -/
def types : List (String × ENCRType) :=
  [("ENCR_AES_CBC_128", .encrAesCbc128), ("ENCR_AES_CBC_192", .encrAesCbc192),
   ("ENCR_AES_CBC_256", .encrAesCbc256)]

def strToType (algo : String) : Option ENCRType := types.lookup algo

def strToKType (algo : String) : Option ENCRType := types.lookup algo

/-- `toString_ENCR_AES_CBC` -/
def toStringAesCbc (attrType intValue : UInt16) : String :=
  if attrType = 14 then
    if intValue = 128 then "ENCR_AES_CBC_128"
    else if intValue = 192 then "ENCR_AES_CBC_192"
    else if intValue = 256 then "ENCR_AES_CBC_256"
    else ""
  else ""

/-- `encrString` -/
def string (transform : Transform) : Option String :=
  if transform.transformID = 12 then
    some (toStringAesCbc transform.attributeType transform.attributeValue)
  else none

theorem decodeTransform_named (t : Transform) : decodeTransform t = decodeByName (string t) types := by
  unfold decodeTransform string toStringAesCbc
  split
  · split
    · split
      · rfl
      split
      · rfl
      split
      · rfl
      · rfl
    · rfl
  · rfl

end ENCRType

namespace INTEGType

/-- `integTypes`; `integKTypes` has the same entries -/
def types : List (String × INTEGType) :=
  [("AUTH_HMAC_SHA1_96", .authHmacSha1_96), ("AUTH_HMAC_SHA2_256_128", .authHmacSha2_256_128)]

def strToType (algo : String) : Option INTEGType := types.lookup algo

def strToKType (algo : String) : Option INTEGType := types.lookup algo

/-- `integString` -/
def string (transform : Transform) : Option String :=
  if transform.transformID = 2 then some "AUTH_HMAC_SHA1_96"
  else if transform.transformID = 12 then some "AUTH_HMAC_SHA2_256_128"
  else none

theorem decodeTransform_named (t : Transform) : decodeTransform t = decodeByName (string t) types :=
  (decodeByName_two (by decide) (by decide) rfl rfl).symm

end INTEGType

namespace PRFType

/-- `prfTypes` -/
def types : List (String × PRFType) :=
  [("PRF_HMAC_SHA1", .prfHmacSha1), ("PRF_HMAC_SHA2_256", .prfHmacSha2_256)]

def strToType (algo : String) : Option PRFType := types.lookup algo

/-- `prfString` -/
def string (transform : Transform) : Option String :=
  if transform.transformID = 2 then some "PRF_HMAC_SHA1"
  else if transform.transformID = 5 then some "PRF_HMAC_SHA2_256"
  else none

theorem decodeTransform_named (t : Transform) : decodeTransform t = decodeByName (string t) types :=
  (decodeByName_two (by decide) (by decide) rfl rfl).symm

end PRFType

/-- `esnTypes` -/
def ESN.types : List (String × ESN) := [("ESN_ENABLE", ⟨true⟩), ("ESN_DISABLE", ⟨false⟩)]

def ESN.strToType (algo : String) : Outcome ESN :=
  match ESN.types.lookup algo with
  | some t => .ok t
  | none => fail "ESN StrToType get unsupport string"

/-- `esnString` -/
def ESN.string (transform : Transform) : Option String :=
  if transform.transformID = 1 then some "ESN_ENABLE"
  else if transform.transformID = 0 then some "ESN_DISABLE"
  else none

def ESN.decodeByName (name : Option String) : Outcome ESN :=
  match name with
  | some s =>
    if s ≠ "" then (ESN.strToType s).wrapf "ESN DecodeTransform"
    else fail "ESN DecodeTransform get unsupport string"
  | none => fail "ESN DecodeTransform get unsupport transform"

theorem ESN.decodeTransform_named (t : Transform) :
    ESN.decodeTransform t = ESN.decodeByName (ESN.string t) := by
  unfold ESN.decodeTransform ESN.string
  split
  · rfl
  split
  · rfl
  · rfl

/-! ## transforms of the algorithms -/

/-- what `getAttribute` returns -/
structure TransformAttribute where
  present : Bool
  attributeType : UInt16
  attributeValue : UInt16
  variableLengthAttributeValue : Bytes
deriving DecidableEq, Repr

/-- the only `getAttribute` of all algorithms but AES-CBC -/
def noAttribute : TransformAttribute := ⟨false, 0, 0, []⟩

/-- the text that all the `ToTransform` share; 1 is `AttributeFormatUseTV` -/
def makeTransform (transformType : UInt8) (transformID : UInt16) (attr : TransformAttribute) :
    Transform :=
  { transformType := transformType
    transformID := transformID
    attributePresent := attr.present
    attributeFormat :=
      if attr.present = true ∧ attr.variableLengthAttributeValue = [] then 1 else 0
    attributeType := attr.attributeType
    attributeValue := attr.attributeValue
    variableLengthAttributeValue := attr.variableLengthAttributeValue }

def DHType.toTransform (t : DHType) : Transform :=
  makeTransform typeDiffieHellmanGroup t.transformID noAttribute

def PRFType.toTransform (t : PRFType) : Transform :=
  makeTransform typePseudorandomFunction t.transformID noAttribute

def INTEGType.toTransform (t : INTEGType) : Transform :=
  makeTransform typeIntegrityAlgorithm t.transformID noAttribute

def INTEGType.toTransformChildSA (t : INTEGType) : Transform :=
  makeTransform typeIntegrityAlgorithm t.transformID noAttribute

def ESN.transformID (e : ESN) : UInt16 := if e.needESN then 1 else 0

def ESN.toTransform (e : ESN) : Transform :=
  makeTransform typeExtendedSequenceNumbers e.transformID noAttribute

/-- the key length in bits; 14 is `AttributeTypeKeyLength` -/
def ENCRType.getAttribute (t : ENCRType) : Outcome TransformAttribute :=
  let keyLengthBits := t.getKeyLength * 8
  if keyLengthBits > 0xFFFF then fail s!"key length exceeds uint16 maximum value: {keyLengthBits}"
  else .ok ⟨true, 14, UInt16.ofNat keyLengthBits, []⟩

def ENCRType.toTransform (t : ENCRType) : Outcome Transform := do
  let attr ← t.getAttribute.wrapf "ToTransform"
  pure (makeTransform typeEncryptionAlgorithm t.transformID attr)

def ENCRType.toTransformChildSA (t : ENCRType) : Outcome Transform := do
  let attr ← t.getAttribute.wrapf "ToTransformChildSA"
  pure (makeTransform typeEncryptionAlgorithm t.transformID attr)

/-! ## back to the algorithm -/

theorem makeTransform_plain (transformType : UInt8) (transformID : UInt16)
    {attr : TransformAttribute} (hv : attr.variableLengthAttributeValue = [])
    (ht : attr.attributeType.toNat < 128)
    (ha : attr.present = false → attr.attributeType = 0 ∧ attr.attributeValue = 0) :
    (makeTransform transformType transformID attr).Plain where
  noValue := hv
  attrType := ht
  format hp := if_pos ⟨hp, hv⟩
  absent hp := ⟨if_neg fun h => absurd h.1 (by rw [show attr.present = false from hp]; decide),
    ha hp⟩

theorem noAttribute_plain (transformType : UInt8) (transformID : UInt16) :
    (makeTransform transformType transformID noAttribute).Plain :=
  makeTransform_plain _ _ rfl (by decide) fun _ => ⟨rfl, rfl⟩

theorem DHType.decode_toTransform (t : DHType) : DHType.decodeTransform t.toTransform = some t :=
  DHType.decodeTransform_eq_some.mpr rfl

theorem PRFType.decode_toTransform (t : PRFType) : PRFType.decodeTransform t.toTransform = some t :=
  PRFType.decodeTransform_eq_some.mpr rfl

theorem INTEGType.decode_toTransform (t : INTEGType) :
    INTEGType.decodeTransform t.toTransform = some t :=
  INTEGType.decodeTransform_eq_some.mpr rfl

theorem ESN.decode_toTransform (e : ESN) : ESN.decodeTransform e.toTransform = .ok e := by
  obtain ⟨b⟩ := e
  cases b <;> rfl

/-- the transform of AES-CBC: the key length fits its field -/
theorem ENCRType.toTransform_ok (t : ENCRType) :
    ∃ x, t.toTransform = .ok x ∧ t.toTransformChildSA = .ok x ∧
      x.transformType = typeEncryptionAlgorithm ∧ x.Plain ∧ ENCRType.decodeTransform x = some t := by
  have hattr : t.getAttribute = .ok ⟨true, 14, UInt16.ofNat (t.getKeyLength * 8), []⟩ := by
    cases t <;> rfl
  refine ⟨makeTransform typeEncryptionAlgorithm t.transformID
    ⟨true, 14, UInt16.ofNat (t.getKeyLength * 8), []⟩, ?_, ?_, rfl,
    makeTransform_plain _ _ rfl (show (14 : UInt16).toNat < 128 by decide)
      (fun h => absurd h (by simp)), ?_⟩
  · rw [ENCRType.toTransform, hattr]
    rfl
  · rw [ENCRType.toTransformChildSA, hattr]
    rfl
  · refine ENCRType.decodeTransform_eq_some.mpr ⟨rfl, rfl, ?_⟩
    cases t <;> rfl

end Ike
