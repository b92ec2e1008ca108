/-
  Powers by squaring, for any associative operation, and numbers as bytes.

  The exponent is read bit by bit from the top: the power so far is squared, and multiplied by the
  base where the bit is set.
-/

namespace Beacon.Bls

/-! ## Bits of an exponent -/

/-- The bits of `n`, the highest first, in front of `low`. -/
def bitsOnto (low : List Bool) (n : Nat) : List Bool :=
  if n = 0 then low else bitsOnto ((n % 2 == 1) :: low) (n / 2)
termination_by n
decreasing_by omega

/-- The bits of a number, the highest first. -/
def bits (n : Nat) : List Bool := bitsOnto [] n

/-- The power of `base` whose exponent has these bits. -/
def powerBits {α : Type} (one : α) (multiply : α → α → α) (base : α) (bits : List Bool) : α :=
  bits.foldl
    (fun power bit =>
      let square := multiply power power
      if bit then multiply square base else square)
    one

/-! ## Numbers as bytes -/

/-- The number that bytes stand for, the highest byte first. -/
def ofBytes (bytes : List UInt8) : Nat := bytes.foldl (fun n b => 256 * n + b.toNat) 0

/-- The lowest `count` bytes of a number, the highest first. -/
def toBytes (count n : Nat) : List UInt8 :=
  (List.range count).reverse.map fun place => UInt8.ofNat (n >>> (8 * place))

end Beacon.Bls
