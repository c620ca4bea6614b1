import IKEv2.GoLang.BigInt
import IKEv2.GoLang.Crypto
import IKEv2.Message.Types

/-!
# The registered algorithms (`security/dh`, `encr`, `integ`, `prf`, `esn`)

Each package keeps a table of the algorithms it supports.  The tables are enumerations here, with the
numbers of the tables as functions on them, and `decodeTransform` is the look-up by a transform of a
proposal.
-/

set_option linter.unusedVariables false

namespace Ike
open GoLang

/-! ## Diffie-Hellman groups -/

inductive DHType where
  | dh1024BitModp
  | dh2048BitModp
deriving DecidableEq, Repr

namespace DHType

def transformID : DHType → UInt16
  | .dh1024BitModp => 2
  | .dh2048BitModp => 14

/-- `Group2PrimeString`, `Group14PrimeString` -/
def factor : DHType → Nat
  | .dh1024BitModp =>
    0xFFFFFFFFFFFFFFFFC90FDAA22168C234C4C6628B80DC1CD129024E088A67CC74020BBEA63B139B22514A08798E3404DDEF9519B3CD3A431B302B0A6DF25F14374FE1356D6D51C245E485B576625E7EC6F44C42E9A637ED6B0BFF5CB6F406B7EDEE386BFB5A899FA5AE9F24117C4B1FE649286651ECE65381FFFFFFFFFFFFFFFF
  | .dh2048BitModp =>
    0xFFFFFFFFFFFFFFFFC90FDAA22168C234C4C6628B80DC1CD129024E088A67CC74020BBEA63B139B22514A08798E3404DDEF9519B3CD3A431B302B0A6DF25F14374FE1356D6D51C245E485B576625E7EC6F44C42E9A637ED6B0BFF5CB6F406B7EDEE386BFB5A899FA5AE9F24117C4B1FE649286651ECE45B3DC2007CB8A163BF0598DA48361C55D39A69163FA8FD24CF5F83655D23DCA3AD961C62F356208552BB9ED529077096966D670C354E4ABC9804F1746C08CA18217C32905E462E36CE3BE39E772C180E86039B2783A2EC07A28FB5C55DF06F4C52C9DE2BCBF6955817183995497CEA956AE515D2261898FA051015728E5A8AACAA68FFFFFFFFFFFFFFFF

/-- `Group2Generator`, `Group14Generator` -/
def generator : DHType → Nat
  | .dh1024BitModp => 2
  | .dh2048BitModp => 2

/-- `len(factor.Bytes())` -/
def factorBytesLength (t : DHType) : Nat := byteLen t.factor

def decodeTransform (transform : Transform) : Option DHType :=
  if transform.transformID = 2 then some .dh1024BitModp
  else if transform.transformID = 14 then some .dh2048BitModp
  else none

/-- `make([]byte, n-len(v))` in front of `v` -/
def prependZero (n : Nat) (v : Bytes) : Outcome Bytes :=
  if v.length ≤ n then .ok (List.replicate (n - v.length) 0 ++ v) else .panic .makeSliceLen

/-- the two groups have the same text -/
def getSharedKey (t : DHType) (secret peerPublicValue : Nat) : Outcome Bytes :=
  if peerPublicValue ≤ 1 ∨ t.factor - 1 ≤ peerPublicValue then fail "invalid DH public value."
  else prependZero t.factorBytesLength (bigBytes (bigExp peerPublicValue secret t.factor))

def getPublicValue (t : DHType) (secret : Nat) : Outcome Bytes :=
  prependZero t.factorBytesLength (bigBytes (bigExp t.generator secret t.factor))

end DHType

/-! ## encryption -/

/-- the entries of `encrTypes` and `encrKTypes` -/
inductive ENCRType where
  | encrAesCbc128
  | encrAesCbc192
  | encrAesCbc256
deriving DecidableEq, Repr

namespace ENCRType

def transformID (_ : ENCRType) : UInt16 := 12

def getKeyLength : ENCRType → Nat
  | .encrAesCbc128 => 16
  | .encrAesCbc192 => 24
  | .encrAesCbc256 => 32

theorem getKeyLength_pos (t : ENCRType) : 0 < t.getKeyLength := by
  cases t <;> decide

/-- `toString_ENCR_AES_CBC` and the table -/
def decodeTransform (transform : Transform) : Option ENCRType :=
  if transform.transformID = 12 then
    if transform.attributeType = 14 then
      if transform.attributeValue = 128 then some .encrAesCbc128
      else if transform.attributeValue = 192 then some .encrAesCbc192
      else if transform.attributeValue = 256 then some .encrAesCbc256
      else none
    else none
  else none

end ENCRType

/-! ## integrity -/

/-- the entries of `integTypes` and `integKTypes` -/
inductive INTEGType where
  | authHmacSha1_96
  | authHmacSha2_256_128
deriving DecidableEq, Repr

namespace INTEGType

def transformID : INTEGType → UInt16
  | .authHmacSha1_96 => 2
  | .authHmacSha2_256_128 => 12

def getKeyLength : INTEGType → Nat
  | .authHmacSha1_96 => 20
  | .authHmacSha2_256_128 => 32

def getOutputLength : INTEGType → Nat
  | .authHmacSha1_96 => 12
  | .authHmacSha2_256_128 => 16

/-- `nil` for a key of another length -/
def init : INTEGType → Bytes → Option Hash
  | .authHmacSha1_96, key => if key.length = 20 then some (Hash.new .sha1 key) else none
  | .authHmacSha2_256_128, key => if key.length = 32 then some (Hash.new .sha256 key) else none

def decodeTransform (transform : Transform) : Option INTEGType :=
  if transform.transformID = 2 then some .authHmacSha1_96
  else if transform.transformID = 12 then some .authHmacSha2_256_128
  else none

theorem getKeyLength_pos (t : INTEGType) : 0 < t.getKeyLength := by
  cases t <;> decide

/-- every checksum fits into the output of every hash function -/
theorem getOutputLength_le (t : INTEGType) (h : HashFn) : t.getOutputLength ≤ h.size := by
  cases t <;> cases h <;> decide

end INTEGType

/-! ## pseudorandom functions -/

inductive PRFType where
  | prfHmacSha1
  | prfHmacSha2_256
deriving DecidableEq, Repr

namespace PRFType

def transformID : PRFType → UInt16
  | .prfHmacSha1 => 2
  | .prfHmacSha2_256 => 5

def getKeyLength : PRFType → Nat
  | .prfHmacSha1 => 20
  | .prfHmacSha2_256 => 32

theorem getKeyLength_pos (t : PRFType) : 0 < t.getKeyLength := by
  cases t <;> decide

def init : PRFType → Bytes → Hash
  | .prfHmacSha1, key => Hash.new .sha1 key
  | .prfHmacSha2_256, key => Hash.new .sha256 key

def decodeTransform (transform : Transform) : Option PRFType :=
  if transform.transformID = 2 then some .prfHmacSha1
  else if transform.transformID = 5 then some .prfHmacSha2_256
  else none

end PRFType

/-! ## extended sequence numbers -/

structure ESN where
  needESN : Bool
deriving DecidableEq, Repr

/-- `ESN_ENABLE` is 1, `ESN_DISABLE` is 0; the table has the names of both -/
def ESN.decodeTransform (transform : Transform) : Outcome ESN :=
  if transform.transformID = 1 then .ok { needESN := true }
  else if transform.transformID = 0 then .ok { needESN := false }
  else fail "ESN DecodeTransform get unsupport transform"

end Ike
