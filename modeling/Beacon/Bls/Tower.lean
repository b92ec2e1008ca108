/-
  The field that pairings take their values in, as a tower: `Fp6` extends `Fp2` by a cube root `v`
  of `1 + u`, and `Fp12` extends `Fp6` by a square root `w` of `v`.
-/
import Beacon.Bls.Field

namespace Beacon.Bls

namespace Fp2

/-- The product with `1 + u`. -/
def mulTower (a : Fp2) : Fp2 := ⟨a.c0 - a.c1, a.c0 + a.c1⟩

end Fp2

/-! ## The cubic extension -/

/-- The element `c0 + c1 v + c2 v²`. -/
structure Fp6 where
  c0 : Fp2
  c1 : Fp2
  c2 : Fp2
deriving DecidableEq

namespace Fp6

def zero : Fp6 := ⟨Fp2.zero, Fp2.zero, Fp2.zero⟩

def one : Fp6 := ⟨Fp2.one, Fp2.zero, Fp2.zero⟩

instance : Add Fp6 where
  add a b := ⟨a.c0 + b.c0, a.c1 + b.c1, a.c2 + b.c2⟩

instance : Sub Fp6 where
  sub a b := ⟨a.c0 - b.c0, a.c1 - b.c1, a.c2 - b.c2⟩

instance : Neg Fp6 where
  neg a := ⟨-a.c0, -a.c1, -a.c2⟩

/-- The product, with six multiplications in `Fp2`. -/
instance : Mul Fp6 where
  mul a b :=
    let p0 := a.c0 * b.c0
    let p1 := a.c1 * b.c1
    let p2 := a.c2 * b.c2
    ⟨p0 + ((a.c1 + a.c2) * (b.c1 + b.c2) - p1 - p2).mulTower,
     (a.c0 + a.c1) * (b.c0 + b.c1) - p0 - p1 + p2.mulTower,
     (a.c0 + a.c2) * (b.c0 + b.c2) - p0 - p2 + p1⟩

/-- The product with `v`. -/
def mulTower (a : Fp6) : Fp6 := ⟨a.c2.mulTower, a.c0, a.c1⟩

def inverse (a : Fp6) : Fp6 :=
  let t0 := a.c0 * a.c0 - (a.c1 * a.c2).mulTower
  let t1 := (a.c2 * a.c2).mulTower - a.c0 * a.c1
  let t2 := a.c1 * a.c1 - a.c0 * a.c2
  let k := Fp2.inverse (a.c0 * t0 + (a.c2 * t1 + a.c1 * t2).mulTower)
  ⟨t0 * k, t1 * k, t2 * k⟩

end Fp6

/-! ## The quadratic extension on top -/

/-- The element `c0 + c1 w`. -/
structure Fp12 where
  c0 : Fp6
  c1 : Fp6
deriving DecidableEq

namespace Fp12

def one : Fp12 := ⟨Fp6.one, Fp6.zero⟩

/-- The product, with three multiplications in `Fp6`. -/
instance : Mul Fp12 where
  mul a b :=
    let p0 := a.c0 * b.c0
    let p1 := a.c1 * b.c1
    ⟨p0 + p1.mulTower, (a.c0 + a.c1) * (b.c0 + b.c1) - p0 - p1⟩

/-- The element with `w` replaced by its opposite. -/
def conjugate (a : Fp12) : Fp12 := ⟨a.c0, -a.c1⟩

def inverse (a : Fp12) : Fp12 :=
  let k := Fp6.inverse (a.c0 * a.c0 - (a.c1 * a.c1).mulTower)
  ⟨a.c0 * k, -(a.c1 * k)⟩

def powBits (a : Fp12) (exponent : List Bool) : Fp12 := powerBits one (· * ·) a exponent

end Fp12

end Beacon.Bls
