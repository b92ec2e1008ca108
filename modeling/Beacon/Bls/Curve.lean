/-
  Points of a curve `y² = x³ + b`, and their multiples.

  An affine point is a pair of coordinates or the point at infinity.  Sums are formed in Jacobian
  coordinates, where `(x, y, z)` stands for `(x / z², y / z³)` and `z = 0` for infinity, so that
  only the last step divides.  `b` occurs in no formula.
-/
import Beacon.Bls.Field

namespace Beacon.Bls

open CoordinateField

/-- A point, or infinity. -/
inductive Affine (F : Type) where
  | infinity
  | point (x y : F)
deriving DecidableEq, Inhabited

/-- A point as `x / z²` and `y / z³`. -/
structure Jacobian (F : Type) where
  x : F
  y : F
  z : F

namespace Jacobian

variable {F : Type} [CoordinateField F]

def infinity : Jacobian F := ⟨one, one, zero⟩

def ofAffine : Affine F → Jacobian F
  | .infinity => infinity
  | .point x y => ⟨x, y, one⟩

def toAffine (p : Jacobian F) : Affine F :=
  if p.z == zero then .infinity
  else
    let k := inverse p.z
    let k2 := k * k
    .point (p.x * k2) (p.y * (k2 * k))

/-- Twice a point. -/
def double (p : Jacobian F) : Jacobian F :=
  let a := p.x * p.x
  let b := p.y * p.y
  let c := b * b
  let s := p.x + b
  let d := s * s - a - c
  let d := d + d
  let e := a + a + a
  let x := e * e - (d + d)
  let c2 := c + c
  let c4 := c2 + c2
  let yz := p.y * p.z
  ⟨x, e * (d - x) - (c4 + c4), yz + yz⟩

/-- The sum of two points, equal, opposite or neither. -/
def add (p q : Jacobian F) : Jacobian F :=
  if p.z == zero then q
  else if q.z == zero then p
  else
    let pz2 := p.z * p.z
    let qz2 := q.z * q.z
    let u1 := p.x * qz2
    let u2 := q.x * pz2
    let s1 := p.y * (qz2 * q.z)
    let s2 := q.y * (pz2 * p.z)
    let h := u2 - u1
    let r := s2 - s1
    if h == zero then
      if r == zero then double p else infinity
    else
      let h2 := h * h
      let h3 := h2 * h
      let v := u1 * h2
      let x := r * r - h3 - (v + v)
      ⟨x, r * (v - x) - s1 * h3, h * (p.z * q.z)⟩

/-- The multiple of a point whose factor has these bits. -/
def multiple (factor : List Bool) (p : Jacobian F) : Jacobian F :=
  factor.foldl
    (fun sum bit =>
      let twice := double sum
      if bit then add twice p else twice)
    infinity

end Jacobian

namespace Affine

variable {F : Type} [CoordinateField F]

def add (p q : Affine F) : Affine F :=
  (Jacobian.add (Jacobian.ofAffine p) (Jacobian.ofAffine q)).toAffine

/-- The sum of several points. -/
def sum (points : List (Affine F)) : Affine F :=
  (points.foldl (fun total p => Jacobian.add total (Jacobian.ofAffine p))
    Jacobian.infinity).toAffine

/-- `k` times a point. -/
def multiply (k : Nat) (p : Affine F) : Affine F :=
  (Jacobian.multiple (bits k) (Jacobian.ofAffine p)).toAffine

/-- Is `k` times this point infinity? -/
def isTorsion (k : Nat) (p : Affine F) : Bool :=
  (Jacobian.multiple (bits k) (Jacobian.ofAffine p)).z == zero

end Affine

end Beacon.Bls
