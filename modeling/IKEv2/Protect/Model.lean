import IKEv2.Message.Header
import IKEv2.Security.KeySchedule

/-!
# Protected messages (`ike.go`)

`EncodeEncrypt` puts the payloads of a message into one SK payload: padded, encrypted, and followed
by a checksum over the whole message up to it.  The message is encoded twice, first with zeros in
place of the checksum.  `DecodeDecrypt` decodes a message and, if it starts with an SK payload,
verifies the checksum, decrypts the last SK payload and decodes what is inside.

The sender `r` uses the objects of its own role, the receiver those of the other one.  `ikeMsg` and
`ikesaKey` may be `nil`; the calls change the message and the hash objects of the key.
-/

set_option linter.unusedVariables false

namespace Ike
open GoLang

/-! ## checksums -/

/-- `Reset`, `Write`, `Sum(nil)[:outputLen]` -/
def checksumOf (C : Crypto) (outputLen : Nat) (originData : Bytes) : Proc Hash Bytes := fun h =>
  let h := h.reset.write originData
  (Slice.data <$> (Slice.ofList (h.sum C)).sliceTo outputLen, h)

def calculateIntegrity (C : Crypto) (role : Role) (originData : Bytes) : Proc IKESAKey Bytes :=
  fun ikesaKey =>
    match ikesaKey.integInfo, role with
    | none, _ => (.panic .nilDereference, ikesaKey)
    | some integInfo, .initiator =>
      match ikesaKey.integ_i with
      | none => (fail "CalcIKEChecksum() : IKE SA have nil Integ_r", ikesaKey)
      | some integ_i =>
        let r := checksumOf C integInfo.getOutputLength originData integ_i
        (r.1, { ikesaKey with integ_i := some r.2 })
    | some integInfo, .responder =>
      match ikesaKey.integ_r with
      | none => (fail "CalcIKEChecksum() : IKE SA have nil Integ_i", ikesaKey)
      | some integ_r =>
        let r := checksumOf C integInfo.getOutputLength originData integ_r
        (r.1, { ikesaKey with integ_r := some r.2 })

/-- the number in the text of `verifyIntegrity` -/
def IKESAKey.integID (k : IKESAKey) : Nat :=
  match k.integInfo with
  | some integInfo => integInfo.transformID.toNat
  | none => 0

def verifyIntegrity (C : Crypto) (originData checksum : Bytes) (role : Role) : Proc IKESAKey Unit := do
  let k ← Proc.this
  let expectChecksum ← (calculateIntegrity C role originData).wrapf s!"verifyIntegrity[{k.integID}]"
  Proc.lift (if checksum ≠ expectChecksum then fail "invalid checksum" else .ok ())

/-! ## encryption -/

/-- a call of a method of a `nil` object -/
def deref {α : Type} : Option α → Outcome α
  | some a => .ok a
  | none => .panic .nilDereference

def encryptPayload (C : Crypto) (rand plainText : Bytes) (ikesaKey : IKESAKey) (role : Role) :
    Outcome Bytes := do
  let encr ← deref (match role with
    | .initiator => ikesaKey.encr_i
    | .responder => ikesaKey.encr_r)
  (encr.encrypt C rand plainText).wrapf "encryptPayload()"

def decryptPayload (C : Crypto) (cipherText : Slice UInt8) (ikesaKey : IKESAKey) (role : Role) :
    Outcome (Slice UInt8) := do
  let encr ← deref (match role with
    | .initiator => ikesaKey.encr_r
    | .responder => ikesaKey.encr_i)
  (encr.decrypt C cipherText).wrapf "decryptPayload()"

/-! ## the receiver -/

/-- the loop over the payloads: the last SK payload, if there is nothing else -/
def findEncrypted : Option Encrypted → IKEPayloadContainer → Outcome (Option Encrypted)
  | encryptedPayload, [] => .ok encryptedPayload
  | _, .sk e :: ps => findEncrypted (some e) ps
  | _, p :: _ => fail
      s!"Get IKE payload (type {p.type.code.toNat}), this payload will not be decode"

def decryptMsg (C : Crypto) (msg : Slice UInt8) (ikeMsg : IKEMessage) (role : Role) :
    Proc IKESAKey IKEMessage := do
  let k ← Proc.this
  -- `nil` is the only slice without octets that gets here
  if msg.len = 0 then Proc.lift (fail "decryptMsg(): msg is nil")
  else do
    let integInfo ← Proc.lift (require "decryptMsg(): No integrity algorithm specified" k.integInfo)
    let _ ← Proc.lift (require "decryptMsg(): No encryption algorithm specified" k.encrInfo)
    let _ ← Proc.lift (require "decryptMsg(): No initiator's integrity key" k.integ_i)
    let _ ← Proc.lift (require "decryptMsg(): No initiator's encryption key" k.encr_i)
    let found ← Proc.lift (findEncrypted none ikeMsg.payloads)
    let encryptedPayload ← Proc.lift (deref found)
    let checksumLength := integInfo.getOutputLength
    let checksum ← Proc.lift
      ((Slice.ofList encryptedPayload.encryptedData).sliceLast checksumLength)
    let covered ← Proc.lift (msg.sliceInit checksumLength)
    (verifyIntegrity C covered.data checksum.data role.not).wrapf "decryptMsg(): verify integrity"
    let encryptedData ← Proc.lift
      ((Slice.ofList encryptedPayload.encryptedData).sliceInit checksumLength)
    let k ← Proc.this
    let plainText ← Proc.lift ((decryptPayload C encryptedData k role).wrapf
      "decryptMsg(): Error decrypting message")
    let decryptedPayloads ← Proc.lift
      ((IKEPayloadContainer.decode [] encryptedPayload.nextPayload plainText).wrapf
        "decryptMsg(): Decoding decrypted payload failed")
    pure { ikeMsg with payloads := decryptedPayloads }

/-- the message before decryption; a header that was parsed already is taken over -/
def decodeClear (msg : Slice UInt8) (ikeHeader : Option IKEHeader) : Outcome IKEMessage :=
  match ikeHeader with
  | none => (IKEMessage.decode [] msg).wrapf "DecodeDecrypt()"
  | some header => do
    let b ← msg.sliceFrom ikeHeaderLen
    (IKEMessage.decodePayload { header := header, payloads := [] } b).wrapf "DecodeDecrypt()"

/-- the first payload is an SK payload -/
def startsWithSK : IKEPayloadContainer → Bool
  | p :: _ => p.type = .SK
  | [] => false

def decodeDecrypt (C : Crypto) (msg : Slice UInt8) (ikeHeader : Option IKEHeader) (role : Role) :
    Proc (Option IKESAKey) IKEMessage := fun ikesaKey =>
  match decodeClear msg ikeHeader with
  | .err e => (.err e, ikesaKey)
  | .panic p => (.panic p, ikesaKey)
  | .ok ikeMsg =>
    if startsWithSK ikeMsg.payloads then
      match ikesaKey with
      | none => (fail "IKE decode decrypt: need ikesaKey to decrypt", none)
      | some k =>
        let r := decryptMsg C msg ikeMsg role k
        (r.1.wrapf "IKE decode decrypt", some r.2)
    else (.ok ikeMsg, ikesaKey)

/-! ## the sender -/

/-- `copy(dst[len(dst)-n:], src)` -/
def copyLast (n : Nat) (dst src : Bytes) : Bytes :=
  dst.take (dst.length - n) ++ (src.take n ++ (dst.drop (dst.length - n)).drop src.length)

def encryptMsg (C : Crypto) (rand : Bytes) (role : Role) : Proc (IKEMessage × IKESAKey) Unit := do
  let s ← Proc.this
  let ikePayloads := s.1.payloads
  let integInfo ← Proc.lift (require "encryptMsg(): No integrity algorithm specified" s.2.integInfo)
  let _ ← Proc.lift (require "encryptMsg(): No encryption algorithm specified" s.2.encrInfo)
  let _ ← Proc.lift (require "encryptMsg(): No responder's integrity key" s.2.integ_r)
  let _ ← Proc.lift (require "encryptMsg(): No responder's encryption key" s.2.encr_r)
  let checksumLength := integInfo.getOutputLength
  let plainTextPayload ← Proc.lift
    (ikePayloads.encode.wrapf "encryptMsg(): Encoding IKE payload failed.")
  let cipherText ← Proc.lift ((encryptPayload C rand plainTextPayload s.2 role).wrapf
    "encryptMsg(): Error encrypting message")
  let encryptedData := cipherText ++ List.replicate checksumLength 0
  Proc.modify fun s =>
    ({ s.1 with payloads := [.sk ⟨ikePayloads.firstType, encryptedData⟩] }, s.2)
  let ikeMsgData ← (Proc.onFst IKEMessage.encode).wrapf "encryptMsg(): Encoding IKE message error"
  let covered ← Proc.lift ((Slice.ofList ikeMsgData).sliceInit checksumLength)
  let checksumOfMessage ← (Proc.onSnd (calculateIntegrity C role covered.data)).wrapf
    "encryptMsg(): Error calculating checksum"
  let _ ← Proc.lift ((Slice.ofList encryptedData).sliceLast checksumLength)
  Proc.modify fun s => ({ s.1 with payloads :=
    [.sk ⟨ikePayloads.firstType, copyLast checksumLength encryptedData checksumOfMessage⟩] }, s.2)

/-- with a message and a key -/
def encodeEncryptKey (C : Crypto) (rand : Bytes) (role : Role) : Proc (IKEMessage × IKESAKey) Bytes := do
  (encryptMsg C rand role).wrapf "IKE encode encrypt"
  (Proc.onFst IKEMessage.encode).wrapf "IKE encode"

/-- the result, the message and the key object after the call -/
def encodeEncrypt (C : Crypto) (rand : Bytes) (ikeMsg : Option IKEMessage)
    (ikesaKey : Option IKESAKey) (role : Role) :
    Outcome Bytes × Option IKEMessage × Option IKESAKey :=
  match ikeMsg, ikesaKey with
  | none, none => (.panic .nilDereference, none, none)
  | none, some k =>
    (.err (.wrapf "IKE encode encrypt" (.errorf "encryptMsg(): Response IKE message is nil")),
      none, some k)
  | some m, none => ((IKEMessage.encode m).1.wrapf "IKE encode", some (IKEMessage.encode m).2, none)
  | some m, some k =>
    let r := encodeEncryptKey C rand role (m, k)
    (r.1, some r.2.1, some r.2.2)

end Ike
