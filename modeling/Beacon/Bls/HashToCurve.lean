/-
  Hashing a message to a point of `G2`.

  The message is expanded to uniform bytes, which give two elements of `Fp2`.  Each is mapped to a
  point of an auxiliary curve `y² = x³ + a x + b` and from there, by a map of degree three, to the
  curve itself; the sum of the two points, multiplied by the cofactor, lies in the subgroup.
-/
import Beacon.Bls.Group
import Beacon.Hash.Sha256

namespace Beacon.Bls.HashToCurve

/-- The tag that keeps these hashes apart from all others. -/
def separationTag : List UInt8 :=
  "BLS_SIG_BLS12381G2_XMD:SHA-256_SSWU_RO_POP_".toList.map fun c => UInt8.ofNat c.toNat

/-! ## Uniform bytes -/

/-- The tag and its length. -/
def tagSuffix : List UInt8 := separationTag ++ [UInt8.ofNat separationTag.length]

/-- Further blocks of uniform bytes: each hashes the first digest, combined with the block before,
    and its number. -/
def expandFrom (first : List UInt8) : Nat → Nat → List UInt8 → List UInt8
  | 0, _, _ => []
  | count + 1, number, before =>
    let mixed := List.zipWith (· ^^^ ·) first before
    let block := (Sha256.hash (mixed ++ UInt8.ofNat number :: tagSuffix)).toList
    block ++ expandFrom first count (number + 1) block

/-- `32 * blocks` uniform bytes for a message. -/
def expand (blocks : Nat) (message : List UInt8) : List UInt8 :=
  let first := (Sha256.hash (List.replicate 64 0 ++ message ++
    toBytes 2 (32 * blocks) ++ 0 :: tagSuffix)).toList
  expandFrom first blocks 1 (List.replicate 32 0)

/-- The element of the prime field for sixty-four uniform bytes. -/
def uniformFp (bytes : List UInt8) : Fp := Fp.ofNat (ofBytes (bytes.take 64))

/-- Two elements of the extension for a message. -/
def hashToField (message : List UInt8) : Fp2 × Fp2 :=
  let uniform := expand 8 message
  (⟨uniformFp uniform, uniformFp (uniform.drop 64)⟩,
   ⟨uniformFp (uniform.drop 128), uniformFp (uniform.drop 192)⟩)

/-! ## The auxiliary curve -/

def auxA : Fp2 := Fp2.ofNats 0 240
def auxB : Fp2 := Fp2.ofNats 1012 1012

/-- The non-square of the map, `-(2 + u)`. -/
def nonSquare : Fp2 := -(Fp2.ofNats 2 1)

/-- The right side of the auxiliary curve's equation. -/
def auxRight (x : Fp2) : Fp2 := x * x * x + auxA * x + auxB

/-- The point of the auxiliary curve for a field element: of two candidates for the first
    coordinate the first one that fits, the second coordinate having the sign of the element. -/
def mapToAux (t : Fp2) : Fp2 × Fp2 :=
  let zt2 := nonSquare * (t * t)
  let denominator := zt2 * zt2 + zt2
  let x1 :=
    if denominator = Fp2.zero then auxB * Fp2.inverse (nonSquare * auxA)
    else -(auxB * Fp2.inverse auxA) * (Fp2.one + Fp2.inverse denominator)
  let (x, y) :=
    match Fp2.sqrt? (auxRight x1) with
    | some root => (x1, root)
    | none =>
      let x2 := zt2 * x1
      (x2, (Fp2.sqrt? (auxRight x2)).getD Fp2.zero)
  (x, if t.isOdd == y.isOdd then y else -y)

/-! ## The map of degree three -/

def xNumerator : List Fp2 :=
  [Fp2.ofNats
     0x5c759507e8e333ebb5b7a9a47d7ed8532c52d39fd3a042a88b58423c50ae15d5c2638e343d9c71c6238aaaaaaaa97d6
     0x5c759507e8e333ebb5b7a9a47d7ed8532c52d39fd3a042a88b58423c50ae15d5c2638e343d9c71c6238aaaaaaaa97d6,
   Fp2.ofNats 0
     0x11560bf17baa99bc32126fced787c88f984f87adf7ae0c7f9a208c6b4f20a4181472aaa9cb8d555526a9ffffffffc71a,
   Fp2.ofNats
     0x11560bf17baa99bc32126fced787c88f984f87adf7ae0c7f9a208c6b4f20a4181472aaa9cb8d555526a9ffffffffc71e
     0x8ab05f8bdd54cde190937e76bc3e447cc27c3d6fbd7063fcd104635a790520c0a395554e5c6aaaa9354ffffffffe38d,
   Fp2.ofNats
     0x171d6541fa38ccfaed6dea691f5fb614cb14b4e7f4e810aa22d6108f142b85757098e38d0f671c7188e2aaaaaaaa5ed1
     0]

def xDenominator : List Fp2 :=
  [Fp2.ofNats 0
     0x1a0111ea397fe69a4b1ba7b6434bacd764774b84f38512bf6730d2a0f6b0f6241eabfffeb153ffffb9feffffffffaa63,
   Fp2.ofNats 0xc
     0x1a0111ea397fe69a4b1ba7b6434bacd764774b84f38512bf6730d2a0f6b0f6241eabfffeb153ffffb9feffffffffaa9f,
   Fp2.one]

def yNumerator : List Fp2 :=
  [Fp2.ofNats
     0x1530477c7ab4113b59a4c18b076d11930f7da5d4a07f649bf54439d87d27e500fc8c25ebf8c92f6812cfc71c71c6d706
     0x1530477c7ab4113b59a4c18b076d11930f7da5d4a07f649bf54439d87d27e500fc8c25ebf8c92f6812cfc71c71c6d706,
   Fp2.ofNats 0
     0x5c759507e8e333ebb5b7a9a47d7ed8532c52d39fd3a042a88b58423c50ae15d5c2638e343d9c71c6238aaaaaaaa97be,
   Fp2.ofNats
     0x11560bf17baa99bc32126fced787c88f984f87adf7ae0c7f9a208c6b4f20a4181472aaa9cb8d555526a9ffffffffc71c
     0x8ab05f8bdd54cde190937e76bc3e447cc27c3d6fbd7063fcd104635a790520c0a395554e5c6aaaa9354ffffffffe38f,
   Fp2.ofNats
     0x124c9ad43b6cf79bfbf7043de3811ad0761b0f37a1e26286b0e977c69aa274524e79097a56dc4bd9e1b371c71c718b10
     0]

def yDenominator : List Fp2 :=
  [Fp2.ofNats
     0x1a0111ea397fe69a4b1ba7b6434bacd764774b84f38512bf6730d2a0f6b0f6241eabfffeb153ffffb9feffffffffa8fb
     0x1a0111ea397fe69a4b1ba7b6434bacd764774b84f38512bf6730d2a0f6b0f6241eabfffeb153ffffb9feffffffffa8fb,
   Fp2.ofNats 0
     0x1a0111ea397fe69a4b1ba7b6434bacd764774b84f38512bf6730d2a0f6b0f6241eabfffeb153ffffb9feffffffffa9d3,
   Fp2.ofNats 0x12
     0x1a0111ea397fe69a4b1ba7b6434bacd764774b84f38512bf6730d2a0f6b0f6241eabfffeb153ffffb9feffffffffaa99,
   Fp2.one]

/-- The value of a polynomial, its coefficients from the constant one on. -/
def evaluate (coefficients : List Fp2) (x : Fp2) : Fp2 :=
  coefficients.foldr (fun c value => value * x + c) Fp2.zero

/-- From the auxiliary curve to the curve; where a denominator vanishes the image is infinity. -/
def degreeThree (p : Fp2 × Fp2) : G2 :=
  let (x, y) := p
  let dx := evaluate xDenominator x
  let dy := evaluate yDenominator x
  if dx = Fp2.zero ∨ dy = Fp2.zero then .infinity
  else
    .point (evaluate xNumerator x * Fp2.inverse dx)
      (y * (evaluate yNumerator x * Fp2.inverse dy))

/-! ## The hash -/

/-- A multiple of the cofactor, by which every point of the curve gets into the subgroup. -/
def effectiveCofactor : Nat :=
  0xbc69f08f2ee75b3584c6a0ea91b352888e2a8e9145ad7689986ff031508ffe1329c2f178731db956d82bf015d1212b02ec0ec69d7477c1ae954cbc06689f6a359894c0adebbf6b4e8020005aaa95551

/-- The point that a message hashes to. -/
def hashToG2 (message : List UInt8) : G2 :=
  let (t0, t1) := hashToField message
  ((degreeThree (mapToAux t0)).add (degreeThree (mapToAux t1))).multiply effectiveCofactor

end Beacon.Bls.HashToCurve
