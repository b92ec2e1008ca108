/-
  Signatures with keys in `G1` and signatures in `G2`.

  A public key is accepted only if it is in the subgroup and not infinity.  The bytes of a
  signature are accepted as any point of the curve; whether it is in the subgroup is asked when it
  is verified.  A signature holds if pairing it with the generator gives the same as pairing the
  hash of the message with the key.
-/
import Beacon.Bls.HashToCurve
import Beacon.Bls.Pairing
import Beacon.Signature.Check

namespace Beacon.Bls

/-- What bytes can fail to be. -/
inductive KeyError where
  | invalidPublicKey
  | invalidSecretKey
  | invalidSignature
deriving DecidableEq

def KeyError.message : KeyError → String
  | invalidPublicKey => "invalid public key"
  | invalidSecretKey => "invalid secret key"
  | invalidSignature => "invalid signature"

/-! ## Written forms -/

/-- A point of the subgroup that is not infinity. -/
structure PublicKey where
  point : G1
deriving DecidableEq, Inhabited

/-- A point of the curve. -/
structure Signature where
  point : G2
deriving DecidableEq, Inhabited

namespace PublicKey

/-- The key that bytes stand for. -/
def ofBytes? (bytes : KeyBytes) : Option PublicKey :=
  (G1.read? bytes.toList).bind fun point =>
    if point ≠ .infinity ∧ G1.inSubgroup point then some ⟨point⟩ else none

def toBytes (key : PublicKey) : KeyBytes := Bytes.fill 48 (G1.write key.point)

end PublicKey

namespace Signature

/-- The signature that bytes stand for. -/
def ofBytes? (bytes : SignatureBytes) : Option Signature := (G2.read? bytes.toList).map .mk

def toBytes (signature : Signature) : SignatureBytes := Bytes.fill 96 (G2.write signature.point)

end Signature

/-! ## Secret keys -/

/-- A number that keys and signatures are multiplied by. -/
structure SecretKey where
  factor : Nat
deriving DecidableEq

namespace SecretKey

/-- The first salt, as text. -/
def saltText : String := "BLS-SIG-KEYGEN-SALT-"

/-- Bytes of key material drawn from a salt. -/
def draw (salt material : List UInt8) : List UInt8 :=
  let extracted := (Sha256.hmac salt (material ++ [0])).toList
  let info := Bls.toBytes 2 48
  let first := (Sha256.hmac extracted (info ++ [1])).toList
  let second := (Sha256.hmac extracted (first ++ info ++ [2])).toList
  (first ++ second).take 48

/-- The first key that is not zero, drawn with a salt that is hashed before every try. -/
def search (material : List UInt8) : Nat → List UInt8 → Option SecretKey
  | 0, _ => none
  | tries + 1, salt =>
    let salt := (Sha256.hash salt).toList
    let factor := Bls.ofBytes (draw salt material) % groupOrder
    if factor = 0 then search material tries salt else some ⟨factor⟩

/-- How often a key is drawn at most; that even one draw gives zero is next to impossible. -/
def maxTries : Nat := 256

/-- The key for at least thirty-two bytes of secret material. -/
def generate (material : List UInt8) : Except KeyError SecretKey :=
  if material.length < 32 then .error .invalidSecretKey
  else
    match search material maxTries (saltText.toList.map fun c => UInt8.ofNat c.toNat) with
    | some key => .ok key
    | none => .error .invalidSecretKey

def publicKey (key : SecretKey) : PublicKey := ⟨G1.generator.multiply key.factor⟩

def sign (key : SecretKey) (message : List UInt8) : Signature :=
  ⟨(HashToCurve.hashToG2 message).multiply key.factor⟩

end SecretKey

/-! ## Verifying -/

namespace Signature

/-- Does the signature of a message hold for a point as the key?  Infinity is no key. -/
def holdsFor (signature : Signature) (message : List UInt8) (key : G1) : Bool :=
  key != .infinity && G2.inSubgroup signature.point &&
    Pairing.pair key (HashToCurve.hashToG2 message)
      == Pairing.pair G1.generator signature.point

def verify (signature : Signature) (message : List UInt8) (key : PublicKey) : Bool :=
  signature.holdsFor message key.point

/-- Does the signature hold as one that all keys made together?  It never does for no keys. -/
def verifyAggregate (signature : Signature) (message : List UInt8) (keys : List PublicKey) :
    Bool :=
  !keys.isEmpty && signature.holdsFor message (Affine.sum (keys.map PublicKey.point))

/-- One signature for several, if there are any. -/
def aggregate (signatures : List Signature) : Option Signature :=
  if signatures.isEmpty then none
  else some ⟨Affine.sum (signatures.map Signature.point)⟩

end Signature

/-- Does the check of a signature come out well?  Bytes that are no signature do not. -/
def isValid (check : SignatureCheck PublicKey) : Bool :=
  match Signature.ofBytes? check.signature with
  | none => false
  | some signature =>
    match check.signers with
    | .one key => signature.verify check.message.toList key
    | .all keys => signature.verifyAggregate check.message.toList keys

/-- The verifier that checks each signature on its own. -/
def verifier : Verifier PublicKey Unit := Verifier.ofPredicate isValid

end Beacon.Bls
