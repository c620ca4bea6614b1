import IKEv2.GoLang.Records
import IKEv2.Message.Types

/-!
# The Security Association payload (`message/payload_securityassociation.go`)

Proposals that hold transforms, both with a 16-bit length field.  A transform with an attribute is
read to its twelfth octet even if its own length is 9, 10 or 11, so the value can come from the
transforms behind it; `copy` into a nil slice drops the value of a variable length attribute.

The functions are here; what they do is in `Transforms` and `Proposals`.
-/

set_option linter.unusedVariables false

namespace Ike
open GoLang

def typeEncryptionAlgorithm : UInt8 := 1
def typePseudorandomFunction : UInt8 := 2
def typeIntegrityAlgorithm : UInt8 := 3
def typeDiffieHellmanGroup : UInt8 := 4
def typeExtendedSequenceNumbers : UInt8 := 5

/-! ## the encoder -/

def Transform.attributeFormatAndType (t : Transform) : UInt16 :=
  ((t.attributeFormat.toUInt16 &&& 0x1) <<< 15) ||| t.attributeType

def Transform.attributeData (t : Transform) : Outcome Bytes :=
  if t.attributePresent then
    if t.attributeFormat = 0 then
      if t.variableLengthAttributeValue.length = 0 then
        fail "Attribute of one transform not specified"
      else if t.variableLengthAttributeValue.length > 0xFFFF then
        fail s!"VariableLengthAttributeValue length exceeds uint16 limit: {t.variableLengthAttributeValue.length}"
      else .ok (putUint16 t.attributeFormatAndType
        ++ putUint16 (UInt16.ofNat t.variableLengthAttributeValue.length)
        ++ t.variableLengthAttributeValue)
    else .ok (putUint16 t.attributeFormatAndType ++ putUint16 t.attributeValue)
  else .ok []

def Transform.marshal (last : Bool) (t : Transform) : Outcome Bytes := do
  let attributeData ← t.attributeData
  let transformDataLen := 8 + attributeData.length
  if transformDataLen > 0xFFFF then
    fail s!"Transform: transformData length exceeds uint16 limit: {transformDataLen}"
  else pure ([if last then 0 else 3, 0] ++ putUint16 (UInt16.ofNat transformDataLen)
    ++ [t.transformType, 0] ++ putUint16 t.transformID ++ attributeData)

/-- all transforms of a proposal, in the order in which they are encoded -/
def Proposal.transformList (p : Proposal) : List Transform :=
  p.encryptionAlgorithm ++ p.pseudorandomFunction ++ p.integrityAlgorithm ++ p.diffieHellmanGroup
    ++ p.extendedSequenceNumbers

def Proposal.marshal (last : Bool) (p : Proposal) : Outcome Bytes :=
  if p.spi.length > 255 then fail s!"Proposal: Too many SPI: {p.spi.length}"
  else if p.transformList.length = 0 then fail "One proposal has no any transform"
  else if p.transformList.length > 0xFF then
    fail s!"Transform: Too many transform: {p.transformList.length}"
  else do
    let proposalTransformData ← emitLast Transform.marshal p.transformList
    let proposalDataLen := 8 + p.spi.length + proposalTransformData.length
    if proposalDataLen > 0xFFFF then
      fail s!"Proposal: proposalData length exceeds uint16 limit: {proposalDataLen}"
    else pure ([if last then 0 else 2, 0] ++ putUint16 (UInt16.ofNat proposalDataLen)
      ++ [p.proposalNumber, p.protocolID, UInt8.ofNat p.spi.length,
          UInt8.ofNat p.transformList.length] ++ p.spi ++ proposalTransformData)

def SecurityAssociation.marshal (sa : SecurityAssociation) : Outcome Bytes :=
  emitLast Proposal.marshal sa.proposals

/-! ## `message/build.go` -/

def attributeFormatUseTLV : UInt8 := 0
def attributeFormatUseTV : UInt8 := 1

/-- `TransformContainer.BuildTransform`; an attribute type without any value appends nothing -/
def buildTransform (container : List Transform) (transformType : UInt8) (transformID : UInt16)
    (attributeType attributeValue : Option UInt16) (variableLengthAttributeValue : Bytes) :
    List Transform :=
  let transform : Transform :=
    { transformType := transformType, transformID := transformID, attributePresent := false,
      attributeFormat := 0, attributeType := 0, attributeValue := 0,
      variableLengthAttributeValue := [] }
  match attributeType with
  | none => container ++ [transform]
  | some attributeType =>
    let transform := { transform with attributePresent := true, attributeType := attributeType }
    match attributeValue with
    | some attributeValue =>
      container ++ [{ transform with
        attributeFormat := attributeFormatUseTV, attributeValue := attributeValue }]
    | none =>
      if variableLengthAttributeValue.length ≠ 0 then
        container ++ [{ transform with
          attributeFormat := attributeFormatUseTLV,
          variableLengthAttributeValue := variableLengthAttributeValue }]
      else container

/-! ## the decoder -/

/-- the transform at the front of `d`; `length` is its length field -/
def readTransform (d : Slice UInt8) (length : UInt16) : Outcome Transform := do
  let transformType ← d.index 4
  let i ← d.slice 6 8
  let transformID ← uint16 i.data
  if length > 8 then
    if d.len < 10 then
      fail s!"Transform: attribute data too short to read Type (length: {d.len})"
    else do
      let f ← d.index 8
      let t ← d.slice 8 10
      let t ← uint16 t.data
      let attributeFormat := (f &&& 0x80) >>> 7
      let attributeType := t &&& 0x7f
      if attributeFormat = 0 then
        if d.len < 12 then
          fail s!"Transform: attribute data too short to read Length (length: {d.len})"
        else do
          let l ← d.slice 10 12
          let attributeLength ← uint16 l.data
          if 12 + attributeLength ≠ length then
            fail s!"Illegal attribute length {attributeLength.toNat} not satisfies the transform length {length.toNat}"
          else do
            -- `copy` to a nil slice: the octets are cut out and dropped
            let _ ← d.slice 12 (12 + attributeLength).toNat
            pure { transformType := transformType, transformID := transformID,
                   attributePresent := true, attributeFormat := attributeFormat,
                   attributeType := attributeType, attributeValue := 0,
                   variableLengthAttributeValue := [] }
      else if d.len < 12 then
        fail s!"Transform: attribute data too short to read Value (length: {d.len})"
      else do
        let v ← d.slice 10 12
        let attributeValue ← uint16 v.data
        pure { transformType := transformType, transformID := transformID,
               attributePresent := true, attributeFormat := attributeFormat,
               attributeType := attributeType, attributeValue := attributeValue,
               variableLengthAttributeValue := [] }
  else pure { transformType := transformType, transformID := transformID,
              attributePresent := false, attributeFormat := 0, attributeType := 0,
              attributeValue := 0, variableLengthAttributeValue := [] }

/-- the switch on the transform type; a transform of another type is dropped -/
def Proposal.add (p : Proposal) (t : Transform) : Proposal :=
  if t.transformType = typeEncryptionAlgorithm then
    { p with encryptionAlgorithm := p.encryptionAlgorithm ++ [t] }
  else if t.transformType = typePseudorandomFunction then
    { p with pseudorandomFunction := p.pseudorandomFunction ++ [t] }
  else if t.transformType = typeIntegrityAlgorithm then
    { p with integrityAlgorithm := p.integrityAlgorithm ++ [t] }
  else if t.transformType = typeDiffieHellmanGroup then
    { p with diffieHellmanGroup := p.diffieHellmanGroup ++ [t] }
  else if t.transformType = typeExtendedSequenceNumbers then
    { p with extendedSequenceNumbers := p.extendedSequenceNumbers ++ [t] }
  else p

def transformRound : Slice UInt8 × Proposal → Outcome (Slice UInt8 × Proposal) :=
  lenRound 8 "Transform: No sufficient bytes to decode next transform"
    (fun n => s!"Transform: Illegal payload length {n} < header length 8")
    (fun _ => "Transform: The length of received message not matchs the length specified in header")
    (fun p d length => p.add <$> readTransform d length)

/-- a proposal without transforms -/
def emptyProposal (proposalNumber protocolID : UInt8) (spi : Bytes) : Proposal :=
  { proposalNumber := proposalNumber, protocolID := protocolID, spi := spi,
    encryptionAlgorithm := [], pseudorandomFunction := [], integrityAlgorithm := [],
    diffieHellmanGroup := [], extendedSequenceNumbers := [] }

/-- the proposal at the front of `b`; `8+spiSize` is a sum of `uint8` -/
def readProposal (b : Slice UInt8) (length : UInt16) : Outcome Proposal := do
  let proposalNumber ← b.index 4
  let protocolID ← b.index 5
  let spiSize ← b.index 6
  let spi ← (if spiSize > 0 then
      if b.len < (8 + spiSize).toNat then
        fail "Proposal: No sufficient bytes for unmarshalling SPI of proposal"
      else Slice.data <$> b.slice 8 (8 + spiSize).toNat
    else .ok [])
  let transformData ← b.slice (8 + spiSize).toNat length.toNat
  let s ← peelLoop transformRound (transformData, emptyProposal proposalNumber protocolID spi)
  pure s.2

def proposalRound : Slice UInt8 × List Proposal → Outcome (Slice UInt8 × List Proposal) :=
  lenRound 8 "Proposal: No sufficient bytes to decode next proposal"
    (fun n => s!"Proposal: Illegal payload length {n} < header length 8")
    (fun _ => "Proposal: The length of received message not matchs the length specified in header")
    (fun ps b length => (fun p => ps ++ [p]) <$> readProposal b length)

def SecurityAssociation.unmarshal (sa : SecurityAssociation) (b : Slice UInt8) :
    Outcome SecurityAssociation := do
  let s ← peelLoop proposalRound (b, sa.proposals)
  pure { proposals := s.2 }

end Ike
