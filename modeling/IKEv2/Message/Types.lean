import IKEv2.GoLang.BigEndian

/-!
# The payload types of an IKE message (`message/types.go` and the payload files)

The structures carry the fields of the source; a slice of the source is a list here (`nil` and
empty are the same list), a pointer to an element of such a slice is the element.
-/

set_option linter.unusedVariables false

namespace Ike
open GoLang

abbrev Bytes := List UInt8

/-! ## payload types -/

/-- the payload types the library decodes (`TypeSA` .. `TypeEAP`) -/
inductive IkePayloadType where
  | SA | KE | IDi | IDr | CERT | CERTreq | AUTH | NiNr | N | D | V | TSi | TSr | SK | CP | EAP
deriving DecidableEq, Repr

/-- the octet of a payload type -/
def IkePayloadType.code : IkePayloadType → UInt8
  | .SA => 33
  | .KE => 34
  | .IDi => 35
  | .IDr => 36
  | .CERT => 37
  | .CERTreq => 38
  | .AUTH => 39
  | .NiNr => 40
  | .N => 41
  | .D => 42
  | .V => 43
  | .TSi => 44
  | .TSr => 45
  | .SK => 46
  | .CP => 47
  | .EAP => 48

/-- `NoNext` -/
def noNext : UInt8 := 0

/-- the payload type of an octet; `none` is the `default` branch of the decoder's switch -/
def IkePayloadType.ofCode : UInt8 → Option IkePayloadType
  | 33 => some .SA
  | 34 => some .KE
  | 35 => some .IDi
  | 36 => some .IDr
  | 37 => some .CERT
  | 38 => some .CERTreq
  | 39 => some .AUTH
  | 40 => some .NiNr
  | 41 => some .N
  | 42 => some .D
  | 43 => some .V
  | 44 => some .TSi
  | 45 => some .TSr
  | 46 => some .SK
  | 47 => some .CP
  | 48 => some .EAP
  | _ => none

@[simp] theorem IkePayloadType.ofCode_code (t : IkePayloadType) : ofCode t.code = some t := by
  cases t <;> rfl

theorem IkePayloadType.code_of_ofCode {u : UInt8} {t : IkePayloadType} (h : ofCode u = some t) :
    u = t.code := by
  unfold ofCode at h
  split at h <;> first | (injection h with h; rw [← h]; rfl) | exact absurd h (by simp)

/-! ## payloads -/

structure Transform where
  transformType : UInt8
  transformID : UInt16
  attributePresent : Bool
  attributeFormat : UInt8
  attributeType : UInt16
  attributeValue : UInt16
  variableLengthAttributeValue : Bytes
deriving DecidableEq, Repr

structure Proposal where
  proposalNumber : UInt8
  protocolID : UInt8
  spi : Bytes
  encryptionAlgorithm : List Transform
  pseudorandomFunction : List Transform
  integrityAlgorithm : List Transform
  diffieHellmanGroup : List Transform
  extendedSequenceNumbers : List Transform
deriving DecidableEq, Repr

structure SecurityAssociation where
  proposals : List Proposal
deriving DecidableEq, Repr

structure KeyExchange where
  diffieHellmanGroup : UInt16
  keyExchangeData : Bytes
deriving DecidableEq, Repr

structure IdentificationInitiator where
  idType : UInt8
  idData : Bytes
deriving DecidableEq, Repr

structure IdentificationResponder where
  idType : UInt8
  idData : Bytes
deriving DecidableEq, Repr

structure Certificate where
  certificateEncoding : UInt8
  certificateData : Bytes
deriving DecidableEq, Repr

structure CertificateRequest where
  certificateEncoding : UInt8
  certificationAuthority : Bytes
deriving DecidableEq, Repr

structure Authentication where
  authenticationMethod : UInt8
  authenticationData : Bytes
deriving DecidableEq, Repr

structure Nonce where
  nonceData : Bytes
deriving DecidableEq, Repr

structure Notification where
  protocolID : UInt8
  notifyMessageType : UInt16
  spi : Bytes
  notificationData : Bytes
deriving DecidableEq, Repr

structure Delete where
  protocolID : UInt8
  spiSize : UInt8
  numberOfSPI : UInt16
  spis : List UInt32
deriving DecidableEq, Repr

structure VendorID where
  vendorIDData : Bytes
deriving DecidableEq, Repr

structure IndividualTrafficSelector where
  tsType : UInt8
  ipProtocolID : UInt8
  startPort : UInt16
  endPort : UInt16
  startAddress : Bytes
  endAddress : Bytes
deriving DecidableEq, Repr

structure TrafficSelectorInitiator where
  trafficSelectors : List IndividualTrafficSelector
deriving DecidableEq, Repr

structure TrafficSelectorResponder where
  trafficSelectors : List IndividualTrafficSelector
deriving DecidableEq, Repr

structure Encrypted where
  nextPayload : UInt8
  encryptedData : Bytes
deriving DecidableEq, Repr

structure IndividualConfigurationAttribute where
  type : UInt16
  value : Bytes
deriving DecidableEq, Repr

structure Configuration where
  configurationType : UInt8
  configurationAttribute : List IndividualConfigurationAttribute
deriving DecidableEq, Repr

/-- `Role_Initiator` and `Role_Responder` -/
inductive Role where
  | initiator
  | responder
deriving DecidableEq, Repr

/-- `!role` -/
def Role.not : Role → Role
  | .initiator => .responder
  | .responder => .initiator

@[simp] theorem Role.not_not (r : Role) : r.not.not = r := by cases r <;> rfl

end Ike
