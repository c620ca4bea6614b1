import Mathlib.Data.List.ModifyLast
import IKEv2.Message.Survival

/-!
# Messages that are put together with the builders (`message/build.go`)

Every builder appends to a container.  Some return a pointer to the new payload, and the caller fills it:
here these are assignments to the last payload.  Two builders check their arguments, and leave the
container as it was when they refuse them.

* `BuildCall.run_eq`             what a call appends;
* `buildAll_append`              what a sequence of calls appends;
* `BuildCall.fits_iff`           which arguments make payloads that the other end gets as they are;
* `built_stable_iff`             the messages that are put together and come back;
* `eap5GNAS_exact`, `qosInfo_exact`   the two builders with checks.
-/

set_option linter.unusedVariables false

namespace Ike
open GoLang

/-! ## plain builders -/

def buildNotification (container : IKEPayloadContainer) (protocolID : UInt8)
    (notifyMessageType : UInt16) (spi notificationData : Bytes) : IKEPayloadContainer :=
  container ++ [.n { protocolID := protocolID, notifyMessageType := notifyMessageType, spi := spi,
                     notificationData := notificationData }]

def buildCertificate (container : IKEPayloadContainer) (certificateEncode : UInt8)
    (certificateData : Bytes) : IKEPayloadContainer :=
  container ++ [.cert ⟨certificateEncode, certificateData⟩]

def buildEncrypted (container : IKEPayloadContainer) (nextPayload : UInt8) (encryptedData : Bytes) :
    IKEPayloadContainer :=
  container ++ [.sk ⟨nextPayload, encryptedData⟩]

def buildKeyExchange (container : IKEPayloadContainer) (diffiehellmanGroup : UInt16)
    (keyExchangeData : Bytes) : IKEPayloadContainer :=
  container ++ [.ke ⟨diffiehellmanGroup, keyExchangeData⟩]

def buildIdentificationInitiator (container : IKEPayloadContainer) (idType : UInt8) (idData : Bytes) :
    IKEPayloadContainer :=
  container ++ [.idi ⟨idType, idData⟩]

def buildIdentificationResponder (container : IKEPayloadContainer) (idType : UInt8) (idData : Bytes) :
    IKEPayloadContainer :=
  container ++ [.idr ⟨idType, idData⟩]

def buildAuthentication (container : IKEPayloadContainer) (authenticationMethod : UInt8)
    (authenticationData : Bytes) : IKEPayloadContainer :=
  container ++ [.auth ⟨authenticationMethod, authenticationData⟩]

def buildNonce (container : IKEPayloadContainer) (nonceData : Bytes) : IKEPayloadContainer :=
  container ++ [.nonce ⟨nonceData⟩]

/-! ## builders that return a pointer -/

def buildTrafficSelectorInitiator (container : IKEPayloadContainer) : IKEPayloadContainer :=
  container ++ [.tsi ⟨[]⟩]

def buildTrafficSelectorResponder (container : IKEPayloadContainer) : IKEPayloadContainer :=
  container ++ [.tsr ⟨[]⟩]

def buildIndividualTrafficSelector (container : List IndividualTrafficSelector)
    (tsType ipProtocolID : UInt8) (startPort endPort : UInt16) (startAddr endAddr : Bytes) :
    List IndividualTrafficSelector :=
  container ++ [{ tsType := tsType, ipProtocolID := ipProtocolID, startPort := startPort,
                  endPort := endPort, startAddress := startAddr, endAddress := endAddr }]

def buildSecurityAssociation (container : IKEPayloadContainer) : IKEPayloadContainer :=
  container ++ [.sa ⟨[]⟩]

/-- a proposal without transforms -/
def buildProposal (container : List Proposal) (proposalNumber protocolID : UInt8) (spi : Bytes) :
    List Proposal :=
  container ++ [{ proposalNumber := proposalNumber, protocolID := protocolID, spi := spi
                  encryptionAlgorithm := [], pseudorandomFunction := [], integrityAlgorithm := []
                  diffieHellmanGroup := [], extendedSequenceNumbers := [] }]

def buildEAP (container : IKEPayloadContainer) (code identifier : UInt8) : IKEPayloadContainer :=
  container ++ [.eap ⟨code, identifier, none⟩]

/-! ## EAP -/

def eapCodeSuccess : UInt8 := 3
def eapCodeFailure : UInt8 := 4

def buildEAPSuccess (container : IKEPayloadContainer) (identifier : UInt8) : IKEPayloadContainer :=
  container ++ [.eap ⟨eapCodeSuccess, identifier, none⟩]

def buildEAPfailure (container : IKEPayloadContainer) (identifier : UInt8) : IKEPayloadContainer :=
  container ++ [.eap ⟨eapCodeFailure, identifier, none⟩]

def buildEapExpanded (vendorID vendorType : UInt32) (vendorData : Bytes) : EapExpanded :=
  { vendorID := vendorID, vendorType := vendorType, vendorData := vendorData }

def vendorId3GPP : UInt32 := 10415
def vendorTypeEAP5G : UInt32 := 3
def eap5GType5GStart : UInt8 := 1
def eap5GType5GNAS : UInt8 := 2
def eap5GSpareValue : UInt8 := 0

/-- `eap.EapTypeData = d`, for the payload that was built last -/
def assignEapTypeData (container : IKEPayloadContainer) (d : EapTypeData) : IKEPayloadContainer :=
  container.modifyLast fun p =>
    match p with
    | .eap e => .eap { e with eapTypeData := some d }
    | p => p

def buildEAP5GStart (container : IKEPayloadContainer) (identifier : UInt8) : IKEPayloadContainer :=
  assignEapTypeData (buildEAP container eapCodeRequest identifier)
    (.expanded (buildEapExpanded vendorId3GPP vendorTypeEAP5G [eap5GType5GStart, eap5GSpareValue]))

/-- message ID, spare octet, length and NAS PDU -/
def buildEAP5GNAS (identifier : UInt8) (nasPDU : Bytes) : Proc IKEPayloadContainer Unit :=
  if nasPDU.length = 0 then Proc.lift (fail "BuildEAP5GNAS(): NASPDU is nil")
  else if nasPDU.length > 0xFFFF then
    Proc.lift (fail s!"BuildEAP5GNAS(): nasPDU length exceeds uint16 limit: {nasPDU.length}")
  else Proc.modify fun container =>
    assignEapTypeData (buildEAP container eapCodeRequest identifier)
      (.expanded (buildEapExpanded vendorId3GPP vendorTypeEAP5G
        ([eap5GType5GNAS, 0] ++ putUint16 (UInt16.ofNat nasPDU.length) ++ nasPDU)))

/-! ## notifications of 3GPP -/

def typeNone : UInt8 := 0
def vendor3GPPNotifyType5G_QOS_INFO : UInt16 := 55501
def vendor3GPPNotifyTypeNAS_IP4_ADDRESS : UInt16 := 55502
def vendor3GPPNotifyTypeUP_IP4_ADDRESS : UInt16 := 55504
def vendor3GPPNotifyTypeNAS_TCP_PORT : UInt16 := 55506

/-- `NotifyType5G_QOS_INFOBitDCSICheck` is 2, `NotifyType5G_QOS_INFOBitDSCPICheck` is 1 -/
def defaultAndDifferentiatedServiceFlags (isDefault isDSCPSpecified : Bool) : UInt8 :=
  let flags : UInt8 := if isDefault then 0 ||| 2 else 0
  if isDSCPSpecified then flags ||| 1 else flags

/-- the data behind the length octet -/
def qosInfoData (pduSessionID : UInt8) (qfiList : Bytes) (isDefault isDSCPSpecified : Bool)
    (dscp : UInt8) : Bytes :=
  [pduSessionID, UInt8.ofNat qfiList.length] ++ qfiList
    ++ [defaultAndDifferentiatedServiceFlags isDefault isDSCPSpecified]
    ++ (if isDSCPSpecified then [dscp] else [])

def buildNotify5G_QOS_INFO (pduSessionID : UInt8) (qfiList : Bytes) (isDefault isDSCPSpecified : Bool)
    (dscp : UInt8) : Proc IKEPayloadContainer Unit :=
  if qfiList.length > 0xFF then Proc.lift (fail "BuildNotify5G_QOS_INFO(): qfiList is too long")
  else
    let data := qosInfoData pduSessionID qfiList isDefault isDSCPSpecified dscp
    let notifyDataLen := 1 + data.length
    if notifyDataLen > 0xFF then
      Proc.lift (fail "BuildNotify5G_QOS_INFO(): notifyData is too long")
    else Proc.modify fun container =>
      buildNotification container typeNone vendor3GPPNotifyType5G_QOS_INFO []
        (UInt8.ofNat notifyDataLen :: data)

/-- `net.ParseIP(s).To4()`: four octets, or nil -/
def IPv4Parser : Type := String → Option (UInt8 × UInt8 × UInt8 × UInt8)

def IPv4Parser.octets (parse : IPv4Parser) (s : String) : Bytes :=
  match parse s with
  | some (a, b, c, d) => [a, b, c, d]
  | none => []

theorem IPv4Parser.length_octets (parse : IPv4Parser) (s : String) : (parse.octets s).length ≤ 255 := by
  unfold IPv4Parser.octets
  cases parse s with
  | none => decide
  | some x => exact show 4 ≤ 255 by omega

/-- the two notifications with an address: nothing for the empty string, no data for a string that is
no address -/
def buildNotifyIP4 (parse : IPv4Parser) (notifyMessageType : UInt16) (container : IKEPayloadContainer)
    (ipAddr : String) : IKEPayloadContainer :=
  if ipAddr = "" then container
  else buildNotification container typeNone notifyMessageType [] (parse.octets ipAddr)

def buildNotifyNAS_IP4_ADDRESS (parse : IPv4Parser) (container : IKEPayloadContainer)
    (nasIPAddr : String) : IKEPayloadContainer :=
  buildNotifyIP4 parse vendor3GPPNotifyTypeNAS_IP4_ADDRESS container nasIPAddr

def buildNotifyUP_IP4_ADDRESS (parse : IPv4Parser) (container : IKEPayloadContainer)
    (upIPAddr : String) : IKEPayloadContainer :=
  buildNotifyIP4 parse vendor3GPPNotifyTypeUP_IP4_ADDRESS container upIPAddr

def buildNotifyNAS_TCP_PORT (container : IKEPayloadContainer) (port : UInt16) : IKEPayloadContainer :=
  if port = 0 then container
  else buildNotification container typeNone vendor3GPPNotifyTypeNAS_TCP_PORT [] (putUint16 port)

/-! ## the builders with checks -/

/-- the vendor data of a NAS PDU: message ID, spare octet, length and PDU -/
def nasData (nasPDU : Bytes) : Bytes :=
  [eap5GType5GNAS, 0] ++ putUint16 (UInt16.ofNat nasPDU.length) ++ nasPDU

def nasPayload (identifier : UInt8) (nasPDU : Bytes) : IKEPayload :=
  .eap ⟨eapCodeRequest, identifier,
    some (.expanded ⟨vendorId3GPP, vendorTypeEAP5G, nasData nasPDU⟩)⟩

def qosInfoPayload (pduSessionID : UInt8) (qfiList : Bytes) (isDefault isDSCPSpecified : Bool)
    (dscp : UInt8) : IKEPayload :=
  .n ⟨typeNone, vendor3GPPNotifyType5G_QOS_INFO, [],
    UInt8.ofNat (1 + (qosInfoData pduSessionID qfiList isDefault isDSCPSpecified dscp).length) ::
      qosInfoData pduSessionID qfiList isDefault isDSCPSpecified dscp⟩

theorem assignEapTypeData_buildEAP (c : IKEPayloadContainer) (code identifier : UInt8)
    (d : EapTypeData) :
    assignEapTypeData (buildEAP c code identifier) d = c ++ [.eap ⟨code, identifier, some d⟩] :=
  List.modifyLast_concat _ _ _

theorem buildEAP5GNAS_refused {nasPDU : Bytes} (h : nasPDU = [] ∨ 65535 < nasPDU.length)
    (identifier : UInt8) (c : IKEPayloadContainer) :
    ∃ err, buildEAP5GNAS identifier nasPDU c = (.err err, c) := by
  unfold buildEAP5GNAS
  rcases h with rfl | h
  · exact ⟨_, rfl⟩
  · rw [if_neg (by omega), if_pos h]
    exact ⟨_, rfl⟩

theorem buildEAP5GNAS_ok {nasPDU : Bytes} (h0 : nasPDU ≠ []) (h : nasPDU.length ≤ 65535)
    (identifier : UInt8) (c : IKEPayloadContainer) :
    buildEAP5GNAS identifier nasPDU c = (.ok (), c ++ [nasPayload identifier nasPDU]) := by
  have hpos : 0 < nasPDU.length := List.length_pos_iff.mpr h0
  unfold buildEAP5GNAS
  rw [if_neg (by omega), if_neg (by omega)]
  exact Prod.ext rfl (assignEapTypeData_buildEAP c _ identifier _)

theorem length_qosInfoData (pduSessionID : UInt8) (qfiList : Bytes) (isDefault isDSCPSpecified : Bool)
    (dscp : UInt8) :
    (qosInfoData pduSessionID qfiList isDefault isDSCPSpecified dscp).length =
      3 + qfiList.length + if isDSCPSpecified then 1 else 0 := by
  cases isDSCPSpecified with
  | true =>
    simp only [qosInfoData, List.length_append, List.length_cons, List.length_nil, if_true]
    omega
  | false =>
    simp only [qosInfoData, List.length_append, List.length_cons, List.length_nil, Bool.false_eq_true,
      if_false]
    omega

section
variable {pduSessionID : UInt8} {qfiList : Bytes} {isDefault isDSCPSpecified : Bool} {dscp : UInt8}

theorem buildNotify5G_QOS_INFO_refused
    (h : 254 < (qosInfoData pduSessionID qfiList isDefault isDSCPSpecified dscp).length)
    (c : IKEPayloadContainer) :
    ∃ err, buildNotify5G_QOS_INFO pduSessionID qfiList isDefault isDSCPSpecified dscp c =
      (.err err, c) := by
  unfold buildNotify5G_QOS_INFO
  by_cases hl : qfiList.length > 0xFF
  · rw [if_pos hl]
    exact ⟨_, rfl⟩
  · rw [if_neg hl]
    exact ⟨_, congrFun (if_pos (by omega)) c⟩

theorem buildNotify5G_QOS_INFO_ok
    (h : (qosInfoData pduSessionID qfiList isDefault isDSCPSpecified dscp).length ≤ 254)
    (c : IKEPayloadContainer) :
    buildNotify5G_QOS_INFO pduSessionID qfiList isDefault isDSCPSpecified dscp c =
      (.ok (), c ++ [qosInfoPayload pduSessionID qfiList isDefault isDSCPSpecified dscp]) := by
  have hl : ¬ qfiList.length > 0xFF := by
    rw [length_qosInfoData] at h
    omega
  unfold buildNotify5G_QOS_INFO
  rw [if_neg hl]
  exact congrFun (if_neg (by omega)) c

end

/-! ## sequences of calls -/

/-- the attributes of a configuration payload, one call after the other -/
def buildAttributes (attributes : List IndividualConfigurationAttribute) :
    List IndividualConfigurationAttribute :=
  attributes.foldl (fun c a => buildConfigurationAttribute c a.type a.value) []

/-- the traffic selectors of a payload, one call after the other -/
def buildSelectors (selectors : List IndividualTrafficSelector) : List IndividualTrafficSelector :=
  selectors.foldl (fun c ts => buildIndividualTrafficSelector c ts.tsType ts.ipProtocolID ts.startPort
    ts.endPort ts.startAddress ts.endAddress) []

/-- the proposals of an SA payload, one call after the other; the caller fills the lists of transforms
of each -/
def buildProposals (proposals : List Proposal) : List Proposal :=
  proposals.foldl (fun c p =>
    (buildProposal c p.proposalNumber p.protocolID p.spi).modifyLast fun q =>
      { q with
        encryptionAlgorithm := p.encryptionAlgorithm
        pseudorandomFunction := p.pseudorandomFunction
        integrityAlgorithm := p.integrityAlgorithm
        diffieHellmanGroup := p.diffieHellmanGroup
        extendedSequenceNumbers := p.extendedSequenceNumbers }) []

/-- calls that append one element each -/
theorem foldl_appends {α : Type} {f : List α → α → List α} (hf : ∀ c x, f c x = c ++ [x])
    (xs c : List α) : xs.foldl f c = c ++ xs := by
  rw [show f = fun c x => c ++ [x] from funext₂ hf, List.foldl_append_eq_append, ← List.flatMap_def,
    List.flatMap_singleton']

theorem buildAttributes_eq (attributes : List IndividualConfigurationAttribute) :
    buildAttributes attributes = attributes := foldl_appends (fun _ _ => rfl) attributes []

theorem buildSelectors_eq (selectors : List IndividualTrafficSelector) :
    buildSelectors selectors = selectors := foldl_appends (fun _ _ => rfl) selectors []

theorem buildProposals_eq (proposals : List Proposal) : buildProposals proposals = proposals :=
  foldl_appends (fun c p => List.modifyLast_concat _ _ _) proposals []

/-- a call of a builder; where the builder returns a pointer, with what the caller puts there -/
inductive BuildCall where
  | notification (protocolID : UInt8) (notifyMessageType : UInt16) (spi notificationData : Bytes)
  | certificate (certificateEncode : UInt8) (certificateData : Bytes)
  | encrypted (nextPayload : UInt8) (encryptedData : Bytes)
  | keyExchange (diffiehellmanGroup : UInt16) (keyExchangeData : Bytes)
  | identificationInitiator (idType : UInt8) (idData : Bytes)
  | identificationResponder (idType : UInt8) (idData : Bytes)
  | authentication (authenticationMethod : UInt8) (authenticationData : Bytes)
  | configuration (configurationType : UInt8) (attributes : List IndividualConfigurationAttribute)
  | nonce (nonceData : Bytes)
  | trafficSelectorInitiator (selectors : List IndividualTrafficSelector)
  | trafficSelectorResponder (selectors : List IndividualTrafficSelector)
  | securityAssociation (proposals : List Proposal)
  | deletePayload (protocolID spiSize : UInt8) (numberOfSPI : UInt16) (spis : List UInt32)
  | eap (code identifier : UInt8) (d : Option EapTypeData)
  | eapSuccess (identifier : UInt8)
  | eapFailure (identifier : UInt8)
  | eap5GStart (identifier : UInt8)
  | eap5GNAS (identifier : UInt8) (nasPDU : Bytes)
  | qosInfo (pduSessionID : UInt8) (qfiList : Bytes) (isDefault isDSCPSpecified : Bool) (dscp : UInt8)
  | nasIP4Address (nasIPAddr : String)
  | upIP4Address (upIPAddr : String)
  | nasTCPPort (port : UInt16)

namespace BuildCall
variable (parse : IPv4Parser)

def run : BuildCall → Proc IKEPayloadContainer Unit
  | notification i t s d => Proc.modify fun c => buildNotification c i t s d
  | certificate e d => Proc.modify fun c => buildCertificate c e d
  | encrypted n d => Proc.modify fun c => buildEncrypted c n d
  | keyExchange g d => Proc.modify fun c => buildKeyExchange c g d
  | identificationInitiator t d => Proc.modify fun c => buildIdentificationInitiator c t d
  | identificationResponder t d => Proc.modify fun c => buildIdentificationResponder c t d
  | authentication a d => Proc.modify fun c => buildAuthentication c a d
  | configuration t as => Proc.modify fun c =>
      (buildConfiguration c t).modifyLast fun _ => .cp ⟨t, buildAttributes as⟩
  | nonce d => Proc.modify fun c => buildNonce c d
  | trafficSelectorInitiator tss => Proc.modify fun c =>
      (buildTrafficSelectorInitiator c).modifyLast fun _ => .tsi ⟨buildSelectors tss⟩
  | trafficSelectorResponder tss => Proc.modify fun c =>
      (buildTrafficSelectorResponder c).modifyLast fun _ => .tsr ⟨buildSelectors tss⟩
  | securityAssociation ps => Proc.modify fun c =>
      (buildSecurityAssociation c).modifyLast fun _ => .sa ⟨buildProposals ps⟩
  | deletePayload i s n spis => Proc.modify fun c => buildDeletePayload c i s n spis
  | eap code identifier none => Proc.modify fun c => buildEAP c code identifier
  | eap code identifier (some d) => Proc.modify fun c =>
      assignEapTypeData (buildEAP c code identifier) d
  | eapSuccess identifier => Proc.modify fun c => buildEAPSuccess c identifier
  | eapFailure identifier => Proc.modify fun c => buildEAPfailure c identifier
  | eap5GStart identifier => Proc.modify fun c => buildEAP5GStart c identifier
  | eap5GNAS identifier nasPDU => buildEAP5GNAS identifier nasPDU
  | qosInfo i l d s x => buildNotify5G_QOS_INFO i l d s x
  | nasIP4Address s => Proc.modify fun c => buildNotifyNAS_IP4_ADDRESS parse c s
  | upIP4Address s => Proc.modify fun c => buildNotifyUP_IP4_ADDRESS parse c s
  | nasTCPPort port => Proc.modify fun c => buildNotifyNAS_TCP_PORT c port

/-- the payloads that a call appends -/
def appended : BuildCall → IKEPayloadContainer
  | notification i t s d => [.n ⟨i, t, s, d⟩]
  | certificate e d => [.cert ⟨e, d⟩]
  | encrypted n d => [.sk ⟨n, d⟩]
  | keyExchange g d => [.ke ⟨g, d⟩]
  | identificationInitiator t d => [.idi ⟨t, d⟩]
  | identificationResponder t d => [.idr ⟨t, d⟩]
  | authentication a d => [.auth ⟨a, d⟩]
  | configuration t as => [.cp ⟨t, as⟩]
  | nonce d => [.nonce ⟨d⟩]
  | trafficSelectorInitiator tss => [.tsi ⟨tss⟩]
  | trafficSelectorResponder tss => [.tsr ⟨tss⟩]
  | securityAssociation ps => [.sa ⟨ps⟩]
  | deletePayload i s n spis => [.d ⟨i, s, n, spis⟩]
  | eap code identifier d => [.eap ⟨code, identifier, d⟩]
  | eapSuccess identifier => [.eap ⟨eapCodeSuccess, identifier, none⟩]
  | eapFailure identifier => [.eap ⟨eapCodeFailure, identifier, none⟩]
  | eap5GStart identifier => [.eap ⟨eapCodeRequest, identifier,
      some (.expanded ⟨vendorId3GPP, vendorTypeEAP5G, [eap5GType5GStart, eap5GSpareValue]⟩)⟩]
  | eap5GNAS identifier nasPDU =>
    if nasPDU = [] ∨ 65535 < nasPDU.length then [] else [nasPayload identifier nasPDU]
  | qosInfo i l d s x =>
    if 254 < (qosInfoData i l d s x).length then [] else [qosInfoPayload i l d s x]
  | nasIP4Address s =>
    if s = "" then [] else [.n ⟨typeNone, vendor3GPPNotifyTypeNAS_IP4_ADDRESS, [], parse.octets s⟩]
  | upIP4Address s =>
    if s = "" then [] else [.n ⟨typeNone, vendor3GPPNotifyTypeUP_IP4_ADDRESS, [], parse.octets s⟩]
  | nasTCPPort port =>
    if port = 0 then [] else [.n ⟨typeNone, vendor3GPPNotifyTypeNAS_TCP_PORT, [], putUint16 port⟩]

theorem buildNotifyIP4_eq (t : UInt16) (c : IKEPayloadContainer) (s : String) :
    buildNotifyIP4 parse t c s =
      c ++ if s = "" then [] else [.n ⟨typeNone, t, [], parse.octets s⟩] := by
  unfold buildNotifyIP4
  by_cases h : s = ""
  · rw [if_pos h, if_pos h, List.append_nil]
  · rw [if_neg h, if_neg h]
    rfl

/-- **What a call appends.**  An error appends nothing. -/
theorem run_eq (call : BuildCall) (c : IKEPayloadContainer) :
    (call.run parse c).2 = c ++ call.appended parse := by
  cases call with
  | configuration t as =>
    exact (List.modifyLast_concat _ _ _).trans (by rw [buildAttributes_eq]; rfl)
  | trafficSelectorInitiator tss =>
    exact (List.modifyLast_concat _ _ _).trans (by rw [buildSelectors_eq]; rfl)
  | trafficSelectorResponder tss =>
    exact (List.modifyLast_concat _ _ _).trans (by rw [buildSelectors_eq]; rfl)
  | securityAssociation ps =>
    exact (List.modifyLast_concat _ _ _).trans (by rw [buildProposals_eq]; rfl)
  | eap code identifier d =>
    cases d with
    | none => rfl
    | some d => exact assignEapTypeData_buildEAP c code identifier d
  | eap5GStart identifier => exact assignEapTypeData_buildEAP c _ identifier _
  | eap5GNAS identifier nasPDU =>
    show (buildEAP5GNAS identifier nasPDU c).2 =
      c ++ if nasPDU = [] ∨ 65535 < nasPDU.length then [] else [nasPayload identifier nasPDU]
    by_cases h : nasPDU = [] ∨ 65535 < nasPDU.length
    · obtain ⟨err, herr⟩ := buildEAP5GNAS_refused h identifier c
      rw [if_pos h, herr, List.append_nil]
    · rw [not_or] at h
      rw [if_neg (by rw [not_or]; exact h), buildEAP5GNAS_ok h.1 (by omega)]
  | qosInfo i l d s x =>
    show (buildNotify5G_QOS_INFO i l d s x c).2 =
      c ++ if 254 < (qosInfoData i l d s x).length then [] else [qosInfoPayload i l d s x]
    by_cases h : 254 < (qosInfoData i l d s x).length
    · obtain ⟨err, herr⟩ := buildNotify5G_QOS_INFO_refused h c
      rw [if_pos h, herr, List.append_nil]
    · rw [if_neg h, buildNotify5G_QOS_INFO_ok (by omega)]
  | nasIP4Address s => exact buildNotifyIP4_eq parse _ c s
  | upIP4Address s => exact buildNotifyIP4_eq parse _ c s
  | nasTCPPort port =>
    show buildNotifyNAS_TCP_PORT c port = c ++ if port = 0 then [] else
      [.n ⟨typeNone, vendor3GPPNotifyTypeNAS_TCP_PORT, [], putUint16 port⟩]
    unfold buildNotifyNAS_TCP_PORT
    by_cases h : port = 0
    · rw [if_pos h, if_pos h, List.append_nil]
    · rw [if_neg h, if_neg h]
      rfl
  | _ => rfl

/-- the arguments with which the other end gets what was built; a NAS PDU may be refused, but one that
is taken can still be too long for a payload -/
def Fits : BuildCall → Prop
  | notification _ _ s d => s.length < 252 ∧ 4 + s.length + d.length ≤ 65531
  | certificate _ d => d ≠ [] ∧ 1 + d.length ≤ 65531
  | encrypted _ d => d ≠ [] ∧ d.length ≤ 65531
  | keyExchange _ d => d ≠ [] ∧ 4 + d.length ≤ 65531
  | identificationInitiator _ d => d ≠ [] ∧ 4 + d.length ≤ 65531
  | identificationResponder _ d => d ≠ [] ∧ 4 + d.length ≤ 65531
  | authentication _ d => d ≠ [] ∧ 4 + d.length ≤ 65531
  | configuration t as => Configuration.Regular ⟨t, as⟩ ∧ 4 + (as.flatMap attrOctets).length ≤ 65531
  | nonce d => d.length ≤ 65531
  | trafficSelectorInitiator tss => SelectorsRegular tss
  | trafficSelectorResponder tss => SelectorsRegular tss
  | securityAssociation ps => (∀ p ∈ ps, p.Regular) ∧ (ps.map Proposal.size).sum ≤ 65531
  | deletePayload _ s n spis =>
    (spis.length = n.toNat ∧ (spis = [] ∨ s.toNat = 4)) ∧ 4 + 4 * spis.length ≤ 65531
  | eap code _ none => code ≠ eapCodeRequest ∧ code ≠ eapCodeResponse
  | eap _ _ (some d) => d.Regular ∧ 4 + d.size ≤ 65531
  | eap5GNAS _ nasPDU => nasPDU.length ≤ 65515 ∨ 65535 < nasPDU.length
  | _ => True

/-- a payload of its own -/
theorem forall_singleton_fits (p : IKEPayload) :
    (∀ q ∈ [p], q.Regular ∧ q.size ≤ 65531) ↔ p.Regular ∧ p.size ≤ 65531 := by
  rw [List.forall_mem_singleton]

theorem length_nasData (nasPDU : Bytes) : (nasData nasPDU).length = 4 + nasPDU.length := by
  simp only [nasData, List.length_append, List.length_cons, List.length_nil, length_putUint16]

theorem nasPayload_fits (identifier : UInt8) (nasPDU : Bytes) :
    ((nasPayload identifier nasPDU).Regular ∧ (nasPayload identifier nasPDU).size ≤ 65531) ↔
      nasPDU.length ≤ 65515 := by
  have hsize : (nasPayload identifier nasPDU).size = 4 + (8 + (nasData nasPDU).length) := rfl
  rw [hsize, length_nasData]
  constructor
  · intro h
    have := h.2
    omega
  · intro h
    refine ⟨⟨show (10415 : UInt32).toNat < 2 ^ 24 by decide, ?_⟩, by omega⟩
    show 4 + (8 + (nasData nasPDU).length) ≤ 65535
    rw [length_nasData]
    omega

theorem selectors_small {tss : List IndividualTrafficSelector} (h : SelectorsRegular tss) :
    4 + (tss.flatMap selectorOctets).length ≤ 65531 := by
  have h40 : ∀ ts ∈ tss, (selectorOctets ts).length ≤ 40 := by
    intro ts hts
    have hlen : (selectorOctets ts).length =
        8 + ts.startAddress.length + ts.endAddress.length := by
      simp only [selectorOctets, List.length_append, length_putUint16, List.length_cons,
        List.length_nil]
    rcases h.2.2 ts hts with ⟨_, h1, h2⟩ | ⟨_, h1, h2⟩
    · rw [hlen, h1, h2]
      omega
    · rw [hlen, h1, h2]
  have hsum := List.sum_le_card_nsmul (tss.map fun ts => (selectorOctets ts).length) 40 fun n hn => by
    obtain ⟨ts, hts, rfl⟩ := List.mem_map.mp hn
    exact h40 ts hts
  rw [List.length_map, nsmul_eq_mul, Nat.cast_id] at hsum
  rw [List.length_flatMap]
  have h255 := h.2.1
  omega

/-- a short notification without an SPI -/
theorem notify_fits (t : UInt16) {d : Bytes} (h : d.length ≤ 255) :
    (IKEPayload.n ⟨typeNone, t, [], d⟩).Regular ∧ (IKEPayload.n ⟨typeNone, t, [], d⟩).size ≤ 65531 := by
  refine ⟨show ([] : Bytes).length < 252 by decide, ?_⟩
  show 4 + ([] : Bytes).length + d.length ≤ 65531
  rw [List.length_nil]
  omega

/-- a builder that appends a payload under a condition on its argument -/
theorem forall_ite_fits {c : Prop} [Decidable c] {p : IKEPayload} {P : Prop}
    (h : ¬ c → (p.Regular ∧ p.size ≤ 65531 ↔ P)) (hc : c → P) :
    (∀ q ∈ if c then [] else [p], q.Regular ∧ q.size ≤ 65531) ↔ P := by
  by_cases h' : c
  · rw [if_pos h']
    exact iff_of_true (fun q hq => absurd hq (List.not_mem_nil)) (hc h')
  · rw [if_neg h', forall_singleton_fits, h h']

/-- **Which arguments fit**: those with which all that a call appends comes back. -/
theorem fits_iff (call : BuildCall) :
    (∀ p ∈ call.appended parse, p.Regular ∧ p.size ≤ 65531) ↔ call.Fits := by
  cases call with
  | nonce d => exact (forall_singleton_fits _).trans (and_iff_right trivial)
  | trafficSelectorInitiator tss =>
    exact (forall_singleton_fits _).trans (and_iff_left_of_imp selectors_small)
  | trafficSelectorResponder tss =>
    exact (forall_singleton_fits _).trans (and_iff_left_of_imp selectors_small)
  | eap code identifier d =>
    cases d with
    | none =>
      refine (forall_singleton_fits _).trans (and_iff_left ?_)
      exact show 4 ≤ 65531 by omega
    | some d =>
      refine (forall_singleton_fits _).trans ⟨fun h => ⟨h.1.1, h.2⟩, fun h => ⟨⟨h.1, ?_⟩, h.2⟩⟩
      have := h.2
      omega
  | eapSuccess identifier =>
    refine (forall_singleton_fits _).trans (iff_of_true ⟨⟨?_, ?_⟩, ?_⟩ trivial)
    · show eapCodeSuccess ≠ eapCodeRequest
      decide
    · show eapCodeSuccess ≠ eapCodeResponse
      decide
    · exact show 4 ≤ 65531 by omega
  | eapFailure identifier =>
    refine (forall_singleton_fits _).trans (iff_of_true ⟨⟨?_, ?_⟩, ?_⟩ trivial)
    · show eapCodeFailure ≠ eapCodeRequest
      decide
    · show eapCodeFailure ≠ eapCodeResponse
      decide
    · exact show 4 ≤ 65531 by omega
  | eap5GStart identifier =>
    refine (forall_singleton_fits _).trans (iff_of_true ⟨⟨?_, ?_⟩, ?_⟩ trivial)
    · show (10415 : UInt32).toNat < 2 ^ 24
      decide
    · exact show 4 + (8 + 2) ≤ 65535 by omega
    · exact show 4 + (8 + 2) ≤ 65531 by omega
  | eap5GNAS identifier nasPDU =>
    refine forall_ite_fits (fun h => ?_) (fun h => ?_)
    · rw [nasPayload_fits]
      rw [not_or] at h
      exact ⟨.inl, fun hf => hf.resolve_right h.2⟩
    · rcases h with rfl | h
      · exact .inl (Nat.zero_le _)
      · exact .inr h
  | qosInfo i l d s x =>
    refine forall_ite_fits (fun h => iff_of_true (notify_fits _ ?_) trivial) (fun _ => trivial)
    rw [List.length_cons]
    omega
  | nasIP4Address s =>
    exact forall_ite_fits (fun _ => iff_of_true (notify_fits _ (IPv4Parser.length_octets parse s))
      trivial) (fun _ => trivial)
  | upIP4Address s =>
    exact forall_ite_fits (fun _ => iff_of_true (notify_fits _ (IPv4Parser.length_octets parse s))
      trivial) (fun _ => trivial)
  | nasTCPPort port =>
    exact forall_ite_fits (fun _ => iff_of_true (notify_fits _ (by rw [length_putUint16]; omega))
      trivial) (fun _ => trivial)
  | _ => exact forall_singleton_fits _

end BuildCall

/-- the container after a sequence of calls -/
def buildAll (parse : IPv4Parser) (container : IKEPayloadContainer) (calls : List BuildCall) :
    IKEPayloadContainer :=
  calls.foldl (fun c call => (call.run parse c).2) container

theorem buildAll_append (parse : IPv4Parser) (calls : List BuildCall) (container : IKEPayloadContainer) :
    buildAll parse container calls = container ++ calls.flatMap (BuildCall.appended parse) := by
  induction calls generalizing container with
  | nil => exact (List.append_nil _).symm
  | cons call calls ih =>
    rw [List.flatMap_cons, ← List.append_assoc, ← call.run_eq parse]
    exact ih _

theorem buildAll_fits (parse : IPv4Parser) (calls : List BuildCall) :
    (∀ p ∈ buildAll parse [] calls, p.Regular ∧ p.size ≤ 65531) ↔ ∀ call ∈ calls, call.Fits := by
  rw [buildAll_append, List.nil_append]
  constructor
  · intro h call hc
    exact (call.fits_iff parse).mp fun p hp => h p (List.mem_flatMap.mpr ⟨call, hc, hp⟩)
  · intro h p hp
    obtain ⟨call, hc, hp⟩ := List.mem_flatMap.mp hp
    exact (call.fits_iff parse).mpr (h call hc) p hp

/-! ## the message -/

def IKEHeader.isResponse (h : IKEHeader) : Bool := (h.flags &&& responseBitCheck) != 0

def IKEHeader.isInitiator (h : IKEHeader) : Bool := (h.flags &&& initiatorBitCheck) != 0

section
variable (iSPI rSPI : UInt64) (exchgType : UInt8) (response initiator : Bool) (mId : UInt32)

/-- the two flags do not get into each other's way -/
theorem newHeader_flags (n : UInt8) (p : Bytes) :
    (newHeader iSPI rSPI exchgType response initiator mId n p).isResponse = response ∧
      (newHeader iSPI rSPI exchgType response initiator mId n p).isInitiator = initiator := by
  have key : ∀ r i : Bool,
      ((newHeader 0 0 0 r i 0 0 []).flags &&& responseBitCheck != 0) = r ∧
        ((newHeader 0 0 0 r i 0 0 []).flags &&& initiatorBitCheck != 0) = i := by decide
  exact key response initiator

/-- **Built, sent, read**: a message from a sequence of builder calls comes back iff every call got
arguments that fit, an SK payload announces what follows it, and the whole is not too long.  Whatever
else the other end reads, it knows who sent the message and whether it is a response. -/
theorem built_stable_iff (parse : IPv4Parser) (calls : List BuildCall) :
    ((newMessage iSPI rSPI exchgType response initiator mId (buildAll parse [] calls)).Stable ↔
      (∀ call ∈ calls, call.Fits) ∧ (buildAll parse [] calls).Linked ∧
        28 + (buildAll parse [] calls).size ≤ 4294967295) ∧
    ∀ b sp m', (IKEMessage.encode (newMessage iSPI rSPI exchgType response initiator mId
        (buildAll parse [] calls))).1 = .ok b →
      IKEMessage.decode [] ⟨b, sp⟩ = .ok m' →
      m'.header.isResponse = response ∧ m'.header.isInitiator = initiator := by
  refine ⟨⟨fun h => ?_, fun ⟨hfits, hlinked, hsize⟩ => ?_⟩, fun b sp m' hb hm' => ?_⟩
  · have hreg := h.regular
    exact ⟨(buildAll_fits parse calls).mp hreg.payloads, hreg.linked, hreg.size⟩
  · have hreg : (newMessage iSPI rSPI exchgType response initiator mId
        (buildAll parse [] calls)).Regular :=
      ⟨show (2 : UInt8) < 16 by decide, show (0 : UInt8) < 16 by decide,
        (buildAll_fits parse calls).mpr hfits, hlinked, hsize⟩
    exact hreg.stable
  · obtain ⟨p, _, hmar⟩ := encode_message_ok hb
    obtain ⟨_, _, hhead⟩ := headerOf_marshal (show (2 : UInt8) < 16 by decide)
      (show (0 : UInt8) < 16 by decide) hmar
    obtain ⟨_, _, _, hh, _⟩ := message_decode_iff.mp hm'
    rw [hh, hhead]
    exact newHeader_flags iSPI rSPI exchgType response initiator mId _ _

end

/-! ## the two builders with checks, end to end -/

/-- a payload of a container that is written -/
theorem IKEPayloadContainer.marshal_of_mem {ps : IKEPayloadContainer} {b : Bytes} {p : IKEPayload}
    (h : ps.encode = .ok b) (hp : p ∈ ps) : ∃ data, p.marshal = .ok data ∧ data.length ≤ 65531 := by
  induction ps generalizing b with
  | nil => exact absurd hp List.not_mem_nil
  | cons q qs ih =>
    obtain ⟨data, rest, hd, hlen, hrest, _⟩ := IKEPayloadContainer.encode_cons.mp h
    rcases List.mem_cons.mp hp with rfl | hp
    · exact ⟨data, hd, by omega⟩
    · exact ih hrest hp

theorem length_nasPayload {identifier : UInt8} {nasPDU data : Bytes}
    (h : (nasPayload identifier nasPDU).marshal = .ok data) : data.length = 16 + nasPDU.length := by
  obtain ⟨x, hx, _, rfl⟩ := EAP.marshal_some_iff.mp h
  have hlen : x.length = 8 + (nasData nasPDU).length := EapTypeData.length_marshal hx
  rw [BuildCall.length_nasData] at hlen
  rw [List.length_append, hlen]
  show 4 + (8 + (4 + nasPDU.length)) = 16 + nasPDU.length
  omega

/-- **NAS PDUs.**  The builder refuses an empty PDU and one of more than 65535 octets, and leaves the
container then.  It takes the others; those of up to 65515 octets reach the other end, and no container
with a longer one can be written. -/
theorem eap5GNAS_exact (identifier : UInt8) (nasPDU : Bytes) (c : IKEPayloadContainer) :
    (nasPDU = [] ∨ 65535 < nasPDU.length →
      ∃ err, buildEAP5GNAS identifier nasPDU c = (.err err, c)) ∧
    (nasPDU ≠ [] → nasPDU.length ≤ 65535 →
      buildEAP5GNAS identifier nasPDU c = (.ok (), c ++ [nasPayload identifier nasPDU])) ∧
    (nasPDU.length ≤ 65515 → (nasPayload identifier nasPDU).Survives) ∧
    (65515 < nasPDU.length → ∀ ps b, nasPayload identifier nasPDU ∈ ps →
      IKEPayloadContainer.encode ps ≠ .ok b) := by
  refine ⟨fun h => buildEAP5GNAS_refused h identifier c, fun h0 h => buildEAP5GNAS_ok h0 h identifier c,
    fun h => ?_, fun h ps b hmem hb => ?_⟩
  · exact IKEPayload.survives_iff.mpr ((BuildCall.nasPayload_fits identifier nasPDU).mpr h).1
  · obtain ⟨data, hd, hle⟩ := IKEPayloadContainer.marshal_of_mem hb hmem
    have hlen := length_nasPayload hd
    omega

/-- the flags of the QoS information tell both switches apart -/
theorem serviceFlags_inj {d d' s s' : Bool}
    (h : defaultAndDifferentiatedServiceFlags d s = defaultAndDifferentiatedServiceFlags d' s') :
    d = d' ∧ s = s' := by
  revert d d' s s'
  decide

/-- the length of the list is written in front of it, so the data has one reading -/
theorem qosInfoData_inj {i i' x x' : UInt8} {l l' : Bytes} {d d' s s' : Bool} (hl : l.length < 256)
    (hl' : l'.length < 256) (h : qosInfoData i l d s x = qosInfoData i' l' d' s' x') :
    i = i' ∧ l = l' ∧ d = d' ∧ s = s' ∧ (s = true → x = x') := by
  unfold qosInfoData at h
  simp only [List.cons_append, List.nil_append, List.append_assoc] at h
  obtain ⟨hi, h1⟩ := List.cons.inj h
  obtain ⟨hn, h2⟩ := List.cons.inj h1
  have hlen : l.length = l'.length := by
    have hn := congrArg UInt8.toNat hn
    rwa [UInt8.toNat_ofNat_of_lt' hl, UInt8.toNat_ofNat_of_lt' hl'] at hn
  obtain ⟨hll, h3⟩ := List.append_inj h2 hlen
  obtain ⟨hflags, h4⟩ := List.cons.inj h3
  obtain ⟨hd, rfl⟩ := serviceFlags_inj hflags
  refine ⟨hi, hll, hd, rfl, fun hs => ?_⟩
  rw [if_pos hs, if_pos hs] at h4
  exact (List.cons.inj h4).1

/-- **QoS information.**  The builder refuses a list with which the notification would not fit its
length octet, and leaves the container then.  What it takes, the other end gets, with the right length
octet, and the data has one reading only. -/
theorem qosInfo_exact (pduSessionID : UInt8) (qfiList : Bytes) (isDefault isDSCPSpecified : Bool)
    (dscp : UInt8) (c : IKEPayloadContainer) :
    (251 < qfiList.length + (if isDSCPSpecified then 1 else 0) →
      ∃ err, buildNotify5G_QOS_INFO pduSessionID qfiList isDefault isDSCPSpecified dscp c =
        (.err err, c)) ∧
    (qfiList.length + (if isDSCPSpecified then 1 else 0) ≤ 251 → ∃ n : UInt8,
      buildNotify5G_QOS_INFO pduSessionID qfiList isDefault isDSCPSpecified dscp c =
        (.ok (), c ++ [.n ⟨typeNone, vendor3GPPNotifyType5G_QOS_INFO, [],
          n :: qosInfoData pduSessionID qfiList isDefault isDSCPSpecified dscp⟩]) ∧
      n.toNat = 1 + (qosInfoData pduSessionID qfiList isDefault isDSCPSpecified dscp).length ∧
      (IKEPayload.n ⟨typeNone, vendor3GPPNotifyType5G_QOS_INFO, [],
        n :: qosInfoData pduSessionID qfiList isDefault isDSCPSpecified dscp⟩).Survives ∧
      ∀ i l d s x, l.length < 256 →
        qosInfoData pduSessionID qfiList isDefault isDSCPSpecified dscp = qosInfoData i l d s x →
        pduSessionID = i ∧ qfiList = l ∧ isDefault = d ∧ isDSCPSpecified = s ∧
          (isDSCPSpecified = true → dscp = x)) := by
  have hlen := length_qosInfoData pduSessionID qfiList isDefault isDSCPSpecified dscp
  constructor
  · intro h
    exact buildNotify5G_QOS_INFO_refused (by rw [hlen]; omega) c
  · intro h
    have hle : (qosInfoData pduSessionID qfiList isDefault isDSCPSpecified dscp).length ≤ 254 := by
      rw [hlen]
      omega
    refine ⟨_, buildNotify5G_QOS_INFO_ok hle c, UInt8.toNat_ofNat_of_lt' (show _ < 256 by omega), ?_, ?_⟩
    · refine IKEPayload.survives_iff.mpr (BuildCall.notify_fits _ ?_).1
      rw [List.length_cons]
      omega
    · intro i l d s x hl he
      exact qosInfoData_inj (by omega) hl he

end Ike
