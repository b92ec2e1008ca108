/-
  The fields that coordinates of points lie in: the integers modulo a prime (`Fp`), and their
  extension by a square root of minus one (`Fp2`).

  The prime is three modulo four, so a square root in `Fp` is one power, and one in `Fp2` comes
  from roots of the norm.  Inverting zero gives zero.
-/
import Beacon.Bls.Power

namespace Beacon.Bls

/-- A field that points of a curve have their coordinates in. -/
class CoordinateField (F : Type) extends Add F, Sub F, Mul F, Neg F, BEq F where
  zero : F
  one : F
  inverse : F → F

/-! ## The prime field -/

/-- The prime. -/
def modulus : Nat :=
  0x1a0111ea397fe69a4b1ba7b6434bacd764774b84f38512bf6730d2a0f6b0f6241eabfffeb153ffffb9feffffffffaaab

theorem modulus_pos : 0 < modulus := by decide

abbrev Fp := Fin modulus

namespace Fp

def ofNat (n : Nat) : Fp := ⟨n % modulus, Nat.mod_lt n modulus_pos⟩

def powBits (a : Fp) (exponent : List Bool) : Fp := powerBits (ofNat 1) (· * ·) a exponent

def inverseExponent : List Bool := bits (modulus - 2)

def rootExponent : List Bool := bits ((modulus + 1) / 4)

def inverse (a : Fp) : Fp := powBits a inverseExponent

/-- A square root, if there is one. -/
def sqrt? (a : Fp) : Option Fp :=
  let root := powBits a rootExponent
  if root * root = a then some root else none

/-- Is this the larger one of an element and its opposite? -/
def isLarger (a : Fp) : Bool := (modulus - 1) / 2 < a.val

instance : CoordinateField Fp where
  zero := ofNat 0
  one := ofNat 1
  inverse := inverse

end Fp

/-! ## The quadratic extension -/

/-- The element `c0 + c1 u`, where `u` squares to minus one. -/
structure Fp2 where
  c0 : Fp
  c1 : Fp
deriving DecidableEq

namespace Fp2

def ofNats (c0 c1 : Nat) : Fp2 := ⟨Fp.ofNat c0, Fp.ofNat c1⟩

def zero : Fp2 := ofNats 0 0

def one : Fp2 := ofNats 1 0

def add (a b : Fp2) : Fp2 := ⟨a.c0 + b.c0, a.c1 + b.c1⟩

def sub (a b : Fp2) : Fp2 := ⟨a.c0 - b.c0, a.c1 - b.c1⟩

def neg (a : Fp2) : Fp2 := ⟨-a.c0, -a.c1⟩

/-- The product, with three multiplications of coordinates. -/
def mul (a b : Fp2) : Fp2 :=
  let low := a.c0 * b.c0
  let high := a.c1 * b.c1
  ⟨low - high, (a.c0 + a.c1) * (b.c0 + b.c1) - low - high⟩

/-- The product with an element of the prime field. -/
def scale (a : Fp2) (k : Fp) : Fp2 := ⟨a.c0 * k, a.c1 * k⟩

/-- The element times its conjugate. -/
def norm (a : Fp2) : Fp := a.c0 * a.c0 + a.c1 * a.c1

def inverse (a : Fp2) : Fp2 :=
  let k := Fp.inverse (norm a)
  ⟨a.c0 * k, -(a.c1 * k)⟩

instance : CoordinateField Fp2 where
  add := add
  sub := sub
  mul := mul
  neg := neg
  beq a b := a = b
  zero := zero
  one := one
  inverse := inverse

/-- One half. -/
def half : Fp := Fp.inverse (Fp.ofNat 2)

/-- The root whose first coordinate squares to half of the sum of `a.c0` and a root of the norm,
    the latter with either sign. -/
def sqrtFrom? (a : Fp2) (normRoot : Fp) : Option Fp2 :=
  match Fp.sqrt? ((a.c0 + normRoot) * half) with
  | some c0 => some ⟨c0, a.c1 * Fp.inverse (c0 + c0)⟩
  | none =>
    (Fp.sqrt? ((a.c0 - normRoot) * half)).map fun c0 => ⟨c0, a.c1 * Fp.inverse (c0 + c0)⟩

/-- A square root, if there is one. -/
def sqrt? (a : Fp2) : Option Fp2 :=
  if a.c1 = Fp.ofNat 0 then
    match Fp.sqrt? a.c0 with
    | some root => some ⟨root, Fp.ofNat 0⟩
    | none => (Fp.sqrt? (-a.c0)).map fun root => ⟨Fp.ofNat 0, root⟩
  else
    (Fp.sqrt? (norm a)).bind fun normRoot =>
      (sqrtFrom? a normRoot).filter fun root => mul root root = a

/-- Is this the larger one of an element and its opposite?  The second coordinate decides. -/
def isLarger (a : Fp2) : Bool :=
  if a.c1 = Fp.ofNat 0 then a.c0.isLarger else a.c1.isLarger

/-- The sign that hashing to a curve keeps: the parity of the first coordinate that is not
    zero. -/
def isOdd (a : Fp2) : Bool :=
  if a.c0 = Fp.ofNat 0 then a.c1.val % 2 == 1 else a.c0.val % 2 == 1

end Fp2

end Beacon.Bls
