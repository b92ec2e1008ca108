/-
  The pairing of a point of `G1` with a point of `G2`.

  Doubling and adding along the bits of the curve's parameter, each step multiplies in the line
  through the points it joins, taken at the point of `G1` (`lineAt`); vertical lines vanish in the
  last step, which raises the product to the power `(p¹² - 1) / r`.
-/
import Beacon.Bls.Group
import Beacon.Bls.Tower

namespace Beacon.Bls.Pairing

/-- The absolute value of the parameter of the curve, which is negative. -/
def parameter : Nat := 0xd201000000010000

/-- What is left of the final exponent after `p⁶ - 1`. -/
def finalExponent : List Bool :=
  let square := modulus * modulus
  bits ((square + 1) * ((square * square - square + 1) / groupOrder))

/-- The line with this slope through a point of the twisted curve, at a point of `G1`; both sides
    of the equation are multiplied by `w³`. -/
def lineAt (px py : Fp) (slope x y : Fp2) : Fp12 :=
  ⟨⟨slope * x - y, -(slope.scale px), Fp2.zero⟩, ⟨Fp2.zero, ⟨py, Fp.ofNat 0⟩, Fp2.zero⟩⟩

/-- The third point on the line with this slope through a point and one with the first coordinate
    `x'`, reflected. -/
def chord (slope x y x' : Fp2) : Fp2 × Fp2 :=
  let x3 := slope * slope - x - x'
  (x3, slope * (x - x3) - y)

/-- One bit: a tangent, and a chord to the point of `G2` if the bit is set. -/
def step (px py : Fp) (qx qy : Fp2) (state : Fp12 × Fp2 × Fp2) (bit : Bool) :
    Fp12 × Fp2 × Fp2 :=
  let (f, x, y) := state
  let xx := x * x
  let slope := (xx + xx + xx) * Fp2.inverse (y + y)
  let f := f * f * lineAt px py slope x y
  let (x, y) := chord slope x y x
  if bit then
    let slope := (y - qy) * Fp2.inverse (x - qx)
    let f := f * lineAt px py slope x y
    let (x, y) := chord slope x y qx
    (f, x, y)
  else (f, x, y)

/-- The product of all lines; the leading bit of the parameter is where the walk starts. -/
def lines : G1 → G2 → Fp12
  | .point px py, .point qx qy =>
    (((bits parameter).drop 1).foldl (step px py qx qy) (Fp12.one, qx, qy)).1.conjugate
  | _, _ => Fp12.one

/-- The power `(p¹² - 1) / r`. -/
def finalPower (f : Fp12) : Fp12 :=
  (f.conjugate * f.inverse).powBits finalExponent

/-- The pairing of two points. -/
def pair (p : G1) (q : G2) : Fp12 := finalPower (lines p q)

end Beacon.Bls.Pairing
