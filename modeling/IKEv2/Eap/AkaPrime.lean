import IKEv2.GoLang.Proc
import IKEv2.GoLang.Records
import IKEv2.Eap.Methods

/-!
# EAP-AKA' (`eap/eap_aka_prime.go`)

A packet is a subtype, two reserved octets and attributes, kept in a map together with the order in
which they arrived.  `bufio.Reader` is the list of the octets not read yet.  All length arithmetic
is that of the source: `uint8` for `4*length`, `uint16` for the padding.

`AttrKind` is the switch over the attribute types in the decoder.  An attribute without a case of
its own is read as two octets, type and length.
-/

set_option linter.unusedVariables false

namespace Ike
open GoLang

def atRAND : UInt8 := 1
def atAUTN : UInt8 := 2
def atRES : UInt8 := 3
def atAUTS : UInt8 := 4
def atMAC : UInt8 := 11
def atNOTIFICATION : UInt8 := 12
def atIDENTITY : UInt8 := 14
def atCLIENTERRORCODE : UInt8 := 22
def atKDFINPUT : UInt8 := 23
def atKDF : UInt8 := 24
def atCHECKCODE : UInt8 := 134

/-- `EapAkaPrimeAttrType.String` -/
def attrTypeString (t : UInt8) : String :=
  if t = atRAND then "AT_RAND"
  else if t = atAUTN then "AT_AUTN"
  else if t = atRES then "AT_RES"
  else if t = atAUTS then "AT_AUTS"
  else if t = atMAC then "AT_MAC"
  else if t = atNOTIFICATION then "AT_NOTIFICATION"
  else if t = atIDENTITY then "AT_IDENTITY"
  else if t = atCLIENTERRORCODE then "AT_CLIENT_ERROR_CODE"
  else if t = atKDFINPUT then "AT_KDF_INPUT"
  else if t = atKDF then "AT_KDF"
  else if t = atCHECKCODE then "AT_CHECKCODE"
  else s!"EAP-AKA' attribute type[{t.toNat}] is not supported"

structure EapAkaPrimeAttr where
  attrType : UInt8
  length : UInt8
  reserved : UInt16
  value : Bytes
deriving DecidableEq, Repr

/-- a Go map from attribute types; `none` in the two fields is `nil` -/
structure EapAkaPrime where
  subType : UInt8
  reserved : UInt16
  attributes : Option (UInt8 → Option EapAkaPrimeAttr)
  attributeOrder : Option (List UInt8)

/-- `new(EapAkaPrime)` -/
def EapAkaPrime.zero : EapAkaPrime :=
  { subType := 0, reserved := 0, attributes := none, attributeOrder := none }

def newEapAkaPrime (subType : UInt8) : EapAkaPrime :=
  { subType := subType, reserved := 0, attributes := some fun _ => none, attributeOrder := none }

/-- `attributes[t]` -/
def EapAkaPrime.lookup (e : EapAkaPrime) (t : UInt8) : Option EapAkaPrimeAttr :=
  e.attributes.bind fun m => m t

/-- the attribute goes into the map, and to the end of the order if there is one and the type is
new -/
def EapAkaPrime.store (e : EapAkaPrime) (a : EapAkaPrimeAttr) : EapAkaPrime :=
  { e with
    attributes := some fun t => if t = a.attrType then some a else e.lookup t
    attributeOrder := if (e.lookup a.attrType).isNone then
        e.attributeOrder.map fun o => o ++ [a.attrType]
      else e.attributeOrder }

/-! ## the encoder -/

def EapAkaPrimeAttr.octets (a : EapAkaPrimeAttr) : Bytes :=
  [a.attrType, a.length] ++ (if a.attrType ≠ atAUTS then putUint16 a.reserved else []) ++ a.value

/-- the order of arrival, or the keys of the map in increasing order -/
def EapAkaPrime.getAttrsKeys (e : EapAkaPrime) : List UInt8 :=
  match e.attributeOrder with
  | some o => o
  | none => ((List.range 256).map UInt8.ofNat).filter fun t => (e.lookup t).isSome

/-- the octets of `attributes[key]`; a missing key gives a nil pointer -/
def EapAkaPrime.attrOctets (e : EapAkaPrime) (key : UInt8) : Outcome Bytes :=
  match e.lookup key with
  | some a => .ok a.octets
  | none => .panic .nilDereference

def EapAkaPrime.marshal (e : EapAkaPrime) : Outcome Bytes := do
  let attributes ← emitAll e.attrOctets e.getAttrsKeys
  pure ([eapTypeAkaPrime, e.subType] ++ putUint16 e.reserved ++ attributes)

/-! ## the decoder -/

inductive AttrKind where
  | value16
  | kdfInput
  | res
  | code
  | checkcode
  | auts
  | unhandled
deriving DecidableEq, Repr

def attrKind (t : UInt8) : AttrKind :=
  if t = atMAC ∨ t = atRAND ∨ t = atAUTN then .value16
  else if t = atKDFINPUT then .kdfInput
  else if t = atRES then .res
  else if t = atKDF ∨ t = atNOTIFICATION then .code
  else if t = atCHECKCODE then .checkcode
  else if t = atAUTS then .auts
  else .unhandled

/-- the two octets behind type and length -/
def readReserved (t : UInt8) (r : Bytes) : Outcome (Bytes × Bytes) :=
  if 2 ≤ r.length then .ok (r.take 2, r.drop 2)
  else fail s!"EAP-AKA' Unmarshal(): incomplete reserved bytes for {attrTypeString t}"

def readValue (t : UInt8) (n : Nat) (r : Bytes) : Outcome (Bytes × Bytes) :=
  if n ≤ r.length then .ok (r.take n, r.drop n)
  else fail s!"EAP-AKA' Unmarshal(): {attrTypeString t} attribute value length mismatch, expect {n} bytes but got {r.length} bytes"

def readPadding (t : UInt8) (n : Nat) (r : Bytes) : Outcome Bytes :=
  if n > 0 then
    if n ≤ r.length then .ok (r.drop n)
    else .err (.wrapf s!"EAP-AKA' Unmarshal(): read {attrTypeString t} attribute/padding failed"
      (.errorf (if r.length = 0 then "EOF" else "unexpected EOF")))
  else .ok r

/-- `totalLen - valBytesLen - 1 - 1 - 2` -/
def paddingLen (length : UInt8) (valBytesLen : UInt16) : UInt16 :=
  (length * 4).toUInt16 - valBytesLen - 1 - 1 - 2

/-- AT_KDF_INPUT and AT_RES: `actual` is the number of octets that the length field stands for -/
def readPadded (actual : UInt16 → UInt16) (t length : UInt8) (r : Bytes) :
    Outcome (EapAkaPrimeAttr × Bytes) := do
  let (field, r) ← readReserved t r
  let reserved ← uint16 field
  let (value, r) ← readValue t (actual reserved).toNat r
  let r ← readPadding t (paddingLen length (actual reserved)).toNat r
  pure ({ attrType := t, length := length, reserved := reserved, value := value }, r)

/-- the switch over the attribute types -/
def readBody (t length : UInt8) (r : Bytes) : Outcome (EapAkaPrimeAttr × Bytes) :=
  match attrKind t with
  | .value16 =>
    if length ≠ 5 then
      fail s!"EAP-AKA' Unmarshal(): {attrTypeString t} attribute length must be 5"
    else do
      let (_, r) ← readReserved t r
      let valLen := 4 * length - 1 - 1 - 2
      if valLen ≠ 16 then
        fail s!"EAP-AKA' Unmarshal(): {attrTypeString t} attribute value length must be 16, but got {valLen.toNat}"
      else do
        let (value, r) ← readValue t valLen.toNat r
        pure ({ attrType := t, length := length, reserved := 0, value := value }, r)
  | .kdfInput => readPadded (fun n => n) t length r
  | .res => readPadded (fun n => n / 8) t length r
  | .code => do
    let (field, r) ← readReserved t r
    let reserved ← uint16 field
    pure ({ attrType := t, length := length, reserved := reserved, value := [] }, r)
  | .checkcode => do
    let (_, r) ← readReserved t r
    let (value, r) ← readValue t (4 * length - 1 - 1 - 2).toNat r
    pure ({ attrType := t, length := length, reserved := 0, value := value }, r)
  | .auts =>
    if length ≠ 4 then
      fail s!"EAP-AKA' Unmarshal(): {attrTypeString t} attribute length must be 4"
    else do
      let (value, r) ← readValue t (4 * length - 1 - 1).toNat r
      pure ({ attrType := t, length := length, reserved := 0, value := value }, r)
  | .unhandled => .ok ({ attrType := t, length := length, reserved := 0, value := [] }, r)

/-- the next attribute and the octets behind it; `none` is the end of the data, also in front of a
length octet -/
def readAttr : Bytes → Outcome (Option (EapAkaPrimeAttr × Bytes))
  | t :: length :: r => some <$> readBody t length r
  | _ => .ok none

/-- `for { .. }`: each round reads at least two octets, `n` is more than there are -/
def EapAkaPrime.attrLoop : Nat → Bytes → Proc EapAkaPrime Unit
  | 0, _ => Proc.lift (.panic .unterminated)
  | n+1, r => do
    let next ← Proc.lift (readAttr r)
    match next with
    | none => pure ()
    | some (a, r) => do
      Proc.modify fun e => e.store a
      EapAkaPrime.attrLoop n r

def EapAkaPrime.unmarshal (rawData : Bytes) : Proc EapAkaPrime Unit :=
  match rawData with
  | typeCode :: subType :: r1 :: r2 :: rest =>
    if typeCode ≠ eapTypeAkaPrime then
      Proc.lift (fail s!"EAP-AKA' Unmarshal(): expect EAP type is {eapTypeAkaPrime.toNat} but got {typeCode.toNat}")
    else do
      Proc.modify fun e => { e with subType := subType }
      let reserved ← Proc.lift (uint16 [r1, r2])
      Proc.modify fun e => { e with
        reserved := reserved, attributes := some fun _ => none, attributeOrder := some [] }
      EapAkaPrime.attrLoop (rest.length + 1) rest
  | _ => Proc.lift
      (fail "EAP-AKA' Unmarshal(): no sufficient bytes to decode the EAP-AKA' type")

/-! ## setting attributes -/

/-- zero octets up to a multiple of four -/
def paddingBytes (totalLen : Nat) : Nat := (4 - totalLen % 4) % 4

def EapAkaPrimeAttr.setAttr (t : UInt8) (value : Bytes) : Outcome EapAkaPrimeAttr :=
  match attrKind t with
  | .value16 =>
    if value.length ≠ 16 then
      fail s!"Set {attrTypeString t} failed: expect 16 bytes, but got {value.length} bytes"
    else if (4 + value.length) / 4 > 255 then fail "eap aka prime attr length overflow"
    else .ok { attrType := t, length := UInt8.ofNat ((4 + value.length) / 4), reserved := 0,
               value := value }
  | .auts =>
    if value.length ≠ 14 then
      fail s!"Set {attrTypeString t} failed: expect 14 bytes, but got {value.length} bytes"
    else .ok { attrType := t, length := 4, reserved := 0, value := value }
  | .kdfInput =>
    let totalLen := 4 + value.length
    .ok { attrType := t, length := UInt8.ofNat ((totalLen + paddingBytes totalLen) / 4),
          reserved := UInt16.ofNat value.length,
          value := value ++ List.replicate (paddingBytes totalLen) 0 }
  | .res =>
    let valBitsLen := value.length * 8
    let totalLen := 4 + value.length
    if valBitsLen > 128 ∨ valBitsLen < 32 then
      fail s!"{attrTypeString t} needs between 32 and 128 bits, but got {valBitsLen} bits"
    else if valBitsLen > 65535 then fail "eap aka prime attr bits length overflow"
    else if (totalLen + paddingBytes totalLen) / 4 > 255 then
      fail "eap aka prime attr length overflow (padding)"
    else .ok { attrType := t, length := UInt8.ofNat ((totalLen + paddingBytes totalLen) / 4),
               reserved := UInt16.ofNat valBitsLen,
               value := value ++ List.replicate (paddingBytes totalLen) 0 }
  | .code =>
    if value.length ≠ 2 then
      fail (if t = atKDF then
        s!"{attrTypeString t} needs exactly 2 bytes, but got {value.length} bytes"
      else
        s!"{attrTypeString t} needs exactly 2 bytes for Notification Code, but got {value.length} bytes")
    else do
      let reserved ← uint16 value
      pure { attrType := t, length := 1, reserved := reserved, value := [] }
  | .checkcode =>
    if (4 + value.length) / 4 > 255 then fail "eap aka prime attr length overflow"
    else .ok { attrType := t, length := UInt8.ofNat ((4 + value.length) / 4), reserved := 0,
               value := value }
  | .unhandled => fail s!"{attrTypeString t} is not supported"

/-- `SetAttr`; a nil map is made before anything is checked -/
def EapAkaPrime.setAttr (t : UInt8) (value : Bytes) : Proc EapAkaPrime Unit := do
  Proc.modify fun e => { e with attributes := some fun t => e.lookup t }
  let a ← Proc.lift ((EapAkaPrimeAttr.setAttr t value).wrapf "EAP-AKA' SetAttr failed")
  Proc.modify fun e => e.store a

def EapAkaPrime.initMAC : Proc EapAkaPrime Unit :=
  EapAkaPrime.setAttr atMAC (List.replicate 16 0)

/-! ## reading attributes -/

/-- the loop over the map looks at the types in the attributes, not at the keys -/
def EapAkaPrime.getAttr (e : EapAkaPrime) (attrType : UInt8) : Outcome EapAkaPrimeAttr :=
  match e.attributes with
  | none => fail "EAP-AKA' attributes map is nil"
  | some m =>
    match ((List.range 256).map UInt8.ofNat).findSome? fun key =>
      (m key).filter fun a => a.attrType = attrType with
    | some a => .ok a
    | none => fail s!"EAP-AKA' attribute[{attrTypeString attrType}] is not found"

def EapAkaPrimeAttr.getValue (a : EapAkaPrimeAttr) : Bytes :=
  if a.attrType = atKDF ∨ a.attrType = atNOTIFICATION then putUint16 a.reserved else a.value

end Ike
