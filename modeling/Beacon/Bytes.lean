/-
  Byte strings of a fixed length, and their text in hexadecimal.

  `Bytes n` is `n` bytes.  The written form is `0x` and two lower case digits a byte (`toHex`).  The
  reader (`ofHex?`) takes two characters a byte, with or without the `0x` before them: digits of
  either case, and blanks where digits are missing.
  `ofHex?_toHex` : reading undoes writing.
-/
import Beacon.Hex

namespace Beacon

/-- A byte string of length `n`. -/
abbrev Bytes (n : Nat) := Vector UInt8 n

namespace Bytes

/-- `n` zero bytes. -/
def zero (n : Nat) : Bytes n := Vector.replicate n 0

/-- The first `n` bytes of a list, zeros where it is shorter. -/
def fill (n : Nat) (bytes : List UInt8) : Bytes n := Vector.ofFn fun i => bytes.getD i.val 0

theorem fill_toList {n : Nat} (b : Bytes n) : fill n b.toList = b := by
  ext i hi
  simp [fill]

/-! ## The written form -/

/-- The text without a leading `0x`. -/
def stripMark : List Char → List Char
  | '0' :: 'x' :: rest => rest
  | cs => cs

/-- `0x` and the digits. -/
def toHex {n : Nat} (b : Bytes n) : String :=
  String.ofList ('0' :: 'x' :: Hex.writeBytes b.toList)

/-- The byte string of length `n` that a text stands for: two characters a byte after the mark, and
    each a digit or a blank.  The digits fill the bytes from the left, in pairs; bytes for which
    none are left are zero. -/
def ofHex? (n : Nat) (text : String) : Option (Bytes n) :=
  let spelled := stripMark text.toList
  if spelled.length = 2 * n then (Hex.readSpaced? spelled).map (fill n) else none

theorem ofHex?_toHex {n : Nat} (b : Bytes n) : ofHex? n b.toHex = some b := by
  have h : stripMark b.toHex.toList = Hex.writeBytes b.toList := by
    rw [toHex, String.toList_ofList, stripMark]
  simp only [ofHex?, h]
  rw [if_pos (by rw [Hex.length_writeBytes, Vector.length_toList]), Hex.readSpaced?_writeBytes,
    Option.map_some, fill_toList]

end Bytes

/-! ## Lengths that have a name -/

/-- A hash or a hash tree root. -/
abbrev Root := Bytes 32

/-- A fork version, or the kind of message a signature is for. -/
abbrev Version := Bytes 4

/-- The compressed form of a public key. -/
abbrev KeyBytes := Bytes 48

/-- The compressed form of a signature. -/
abbrev SignatureBytes := Bytes 96

/-- The compressed form of the point at infinity, which stands for a missing signature. -/
def SignatureBytes.empty : SignatureBytes := (Bytes.zero 96).set 0 0xc0

end Beacon
