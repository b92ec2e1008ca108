/-
  The two groups: points over `Fp` for keys (`G1`), points over `Fp2` for signatures (`G2`).

  A point is written as its first coordinate, highest byte first, with three flags in the top
  bits: compressed (always set), infinity, and whether the second coordinate is the larger one of
  the two that fit.  Reading refuses a coordinate that is not below the prime, and one that no
  point has; it does not ask whether the point is in the subgroup of prime order.
-/
import Beacon.Bls.Curve
import Beacon.Bytes

namespace Beacon.Bls

/-- The prime order of the groups. -/
def groupOrder : Nat := 0x73eda753299d7d483339d80809a1d80553bda402fffe5bfeffffffff00000001

/-! ## Flags -/

def compressedFlag : UInt8 := 0x80
def infinityFlag : UInt8 := 0x40
def largerFlag : UInt8 := 0x20

/-- The first byte with a flag set, if the condition holds. -/
def setFlag (flag : UInt8) (condition : Bool) : List UInt8 → List UInt8
  | [] => []
  | b :: bs => (if condition then b ||| flag else b) :: bs

/-- Is a flag set in the first byte? -/
def hasFlag (flag : UInt8) : List UInt8 → Bool
  | [] => false
  | b :: _ => b &&& flag != 0

/-- The bytes with all flags cleared. -/
def clearFlags : List UInt8 → List UInt8
  | [] => []
  | b :: bs => (b &&& 0x1f) :: bs

/-- The element of the prime field with these bytes, if they are below the prime. -/
def readFp? (bytes : List UInt8) : Option Fp :=
  let n := ofBytes bytes
  if n < modulus then some (Fp.ofNat n) else none

/-- How many bytes an element of the prime field takes. -/
def fpSize : Nat := 48

def writeFp (a : Fp) : List UInt8 := toBytes fpSize a.val

/-- The point with a first coordinate, a second coordinate or its opposite being `root`. -/
def chooseRoot {F : Type} [Neg F] (isLarger : F → Bool) (larger : Bool) (x root : F) : Affine F :=
  .point x (if isLarger root == larger then root else -root)

/-! ## Points over the prime field -/

abbrev G1 := Affine Fp

namespace G1

def generator : G1 := .point
  (Fp.ofNat 0x17f1d3a73197d7942695638c4fa9ac0fc3688c4f9774b905a14e3a3f171bac586c55e83ff97a1aeffb3af00adb22c6bb)
  (Fp.ofNat 0x08b3f481e3aaa0f1a09e30ed741d8ae4fcf5e095d5d00af600db18cb2c04b3edd03cc744a2888ae40caa232946c5e7e1)

/-- The written form of a point. -/
def write : G1 → List UInt8
  | .infinity => setFlag (compressedFlag ||| infinityFlag) true (List.replicate fpSize 0)
  | .point x y => setFlag compressedFlag true (setFlag largerFlag y.isLarger (writeFp x))

/-- The point of the curve that bytes stand for.  The two points with a first coordinate of zero
    are not in the subgroup and refused. -/
def read? (bytes : List UInt8) : Option G1 :=
  if !hasFlag compressedFlag bytes then none
  else if hasFlag infinityFlag bytes then
    if bytes = write .infinity then some .infinity else none
  else do
    let x ← readFp? (clearFlags bytes)
    let root ← Fp.sqrt? (x * x * x + Fp.ofNat 4)
    if x = Fp.ofNat 0 then none
    else some (chooseRoot Fp.isLarger (hasFlag largerFlag bytes) x root)

/-- Is the point in the subgroup of prime order? -/
def inSubgroup (p : G1) : Bool := p.isTorsion groupOrder

end G1

/-! ## Points over the quadratic extension -/

abbrev G2 := Affine Fp2

namespace G2

/-- The constant of the curve. -/
def curveConstant : Fp2 := Fp2.ofNats 4 4

/-- The written form of a point: the second half of each coordinate comes first. -/
def write : G2 → List UInt8
  | .infinity => setFlag (compressedFlag ||| infinityFlag) true (List.replicate (2 * fpSize) 0)
  | .point x y =>
    setFlag compressedFlag true (setFlag largerFlag y.isLarger (writeFp x.c1)) ++ writeFp x.c0

/-- The point of the curve that bytes stand for. -/
def read? (bytes : List UInt8) : Option G2 :=
  if !hasFlag compressedFlag bytes then none
  else if hasFlag infinityFlag bytes then
    if bytes = write .infinity then some .infinity else none
  else do
    let c1 ← readFp? ((clearFlags bytes).take fpSize)
    let c0 ← readFp? (bytes.drop fpSize)
    let x : Fp2 := ⟨c0, c1⟩
    let root ← Fp2.sqrt? (x * x * x + curveConstant)
    some (chooseRoot Fp2.isLarger (hasFlag largerFlag bytes) x root)

/-- Is the point in the subgroup of prime order? -/
def inSubgroup (p : G2) : Bool := p.isTorsion groupOrder

end G2

end Beacon.Bls
