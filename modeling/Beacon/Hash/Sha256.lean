/-
  SHA-256 of a list of bytes, and the keyed hash HMAC built on it.

  The message is padded to whole blocks of sixty-four bytes; each block is a window of sixteen
  words that slides over the schedule, one word a round, so no round reads outside its window.
-/
import Beacon.Bytes

namespace Beacon.Sha256

/-! ## Words -/

/-- Rotation to the right. -/
def rotate (x : UInt32) (n : UInt32) : UInt32 := (x >>> n) ||| (x <<< (32 - n))

def sigma0 (x : UInt32) : UInt32 := rotate x 7 ^^^ rotate x 18 ^^^ (x >>> 3)
def sigma1 (x : UInt32) : UInt32 := rotate x 17 ^^^ rotate x 19 ^^^ (x >>> 10)
def sum0 (x : UInt32) : UInt32 := rotate x 2 ^^^ rotate x 13 ^^^ rotate x 22
def sum1 (x : UInt32) : UInt32 := rotate x 6 ^^^ rotate x 11 ^^^ rotate x 25

/-- The word of four bytes, most significant first. -/
def word (b0 b1 b2 b3 : UInt8) : UInt32 :=
  (b0.toUInt32 <<< 24) ||| (b1.toUInt32 <<< 16) ||| (b2.toUInt32 <<< 8) ||| b3.toUInt32

/-- The four bytes of a word, most significant first. -/
def wordBytes (w : UInt32) : Bytes 4 :=
  #v[(w >>> 24).toUInt8, (w >>> 16).toUInt8, (w >>> 8).toUInt8, w.toUInt8]

/-! ## The chaining state -/

/-- The eight words carried from block to block. -/
structure State where
  a : UInt32
  b : UInt32
  c : UInt32
  d : UInt32
  e : UInt32
  f : UInt32
  g : UInt32
  h : UInt32

/-- The state before the first block. -/
def initial : State :=
  ⟨0x6a09e667, 0xbb67ae85, 0x3c6ef372, 0xa54ff53a,
   0x510e527f, 0x9b05688c, 0x1f83d9ab, 0x5be0cd19⟩

/-- One constant a round. -/
def roundConstants : List UInt32 :=
  [0x428a2f98, 0x71374491, 0xb5c0fbcf, 0xe9b5dba5,
   0x3956c25b, 0x59f111f1, 0x923f82a4, 0xab1c5ed5,
   0xd807aa98, 0x12835b01, 0x243185be, 0x550c7dc3,
   0x72be5d74, 0x80deb1fe, 0x9bdc06a7, 0xc19bf174,
   0xe49b69c1, 0xefbe4786, 0x0fc19dc6, 0x240ca1cc,
   0x2de92c6f, 0x4a7484aa, 0x5cb0a9dc, 0x76f988da,
   0x983e5152, 0xa831c66d, 0xb00327c8, 0xbf597fc7,
   0xc6e00bf3, 0xd5a79147, 0x06ca6351, 0x14292967,
   0x27b70a85, 0x2e1b2138, 0x4d2c6dfc, 0x53380d13,
   0x650a7354, 0x766a0abb, 0x81c2c92e, 0x92722c85,
   0xa2bfe8a1, 0xa81a664b, 0xc24b8b70, 0xc76c51a3,
   0xd192e819, 0xd6990624, 0xf40e3585, 0x106aa070,
   0x19a4c116, 0x1e376c08, 0x2748774c, 0x34b0bcb5,
   0x391c0cb3, 0x4ed8aa4a, 0x5b9cca4f, 0x682e6ff3,
   0x748f82ee, 0x78a5636f, 0x84c87814, 0x8cc70208,
   0x90befffa, 0xa4506ceb, 0xbef9a3f7, 0xc67178f2]

/-- The wordwise sum of two states. -/
def State.add (s t : State) : State :=
  ⟨s.a + t.a, s.b + t.b, s.c + t.c, s.d + t.d, s.e + t.e, s.f + t.f, s.g + t.g, s.h + t.h⟩

/-- The digest a state stands for. -/
def State.digest (s : State) : Root :=
  wordBytes s.a ++ wordBytes s.b ++ wordBytes s.c ++ wordBytes s.d ++
    wordBytes s.e ++ wordBytes s.f ++ wordBytes s.g ++ wordBytes s.h

/-! ## Blocks -/

/-- Sixteen consecutive words of the message schedule. -/
abbrev Window := Vector UInt32 16

/-- The window one word further on: the new word depends on the four at distances 16, 15, 7, 2. -/
def Window.slide (w : Window) : Window :=
  let next := sigma1 w[14] + w[9] + sigma0 w[1] + w[0]
  Vector.ofFn fun i => if h : i.val + 1 < 16 then w[i.val + 1] else next

/-- One round, with its constant and its schedule word. -/
def round (s : State) (constant scheduled : UInt32) : State :=
  let choice := (s.e &&& s.f) ^^^ (~~~s.e &&& s.g)
  let majority := (s.a &&& s.b) ^^^ (s.a &&& s.c) ^^^ (s.b &&& s.c)
  let t1 := s.h + sum1 s.e + choice + constant + scheduled
  let t2 := sum0 s.a + majority
  ⟨t1 + t2, s.a, s.b, s.c, s.d + t1, s.e, s.f, s.g⟩

/-- The rounds that the constants left stand for. -/
def rounds : List UInt32 → Window → State → State
  | [], _, s => s
  | k :: ks, w, s => rounds ks w.slide (round s k w[0])

/-- The window that a block of sixty-four bytes starts with; missing bytes count as zero. -/
def window (block : List UInt8) : Window :=
  let byte (i : Nat) : UInt8 := block.getD i 0
  Vector.ofFn fun i =>
    word (byte (4 * i)) (byte (4 * i + 1)) (byte (4 * i + 2)) (byte (4 * i + 3))

/-- The state after one block. -/
def compress (s : State) (block : List UInt8) : State :=
  s.add (rounds roundConstants (window block) s)

/-- The state after all blocks of a padded message. -/
def absorb (s : State) (message : List UInt8) : State :=
  if message.length < 64 then s
  else absorb (compress s (message.take 64)) (message.drop 64)
termination_by message.length
decreasing_by simp only [List.length_drop]; omega

/-! ## Padding -/

/-- A length in bits as eight bytes, most significant first. -/
def lengthBytes (bits : Nat) : List UInt8 :=
  [56, 48, 40, 32, 24, 16, 8, 0].map fun shift => UInt8.ofNat (bits >>> shift)

/-- The fewest zeros that complete a block between the mark and the length. -/
def paddingZeros (size : Nat) : Nat := (119 - size % 64) % 64

/-- The message, a mark, zeros, and the length. -/
def pad (message : List UInt8) : List UInt8 :=
  message ++ 0x80 :: List.replicate (paddingZeros message.length) 0 ++
    lengthBytes (8 * message.length)

/-! ## The hash functions -/

/-- The SHA-256 digest of a message. -/
def hash (message : List UInt8) : Root := (absorb initial (pad message)).digest

/-- The digest of two roots, one after the other. -/
def hashPair (left right : Root) : Root := hash (left.toList ++ right.toList)

/-- A key as a whole block: keys longer than a block are hashed first. -/
def blockKey (key : List UInt8) : List UInt8 :=
  let short := if key.length ≤ 64 then key else (hash key).toList
  short ++ List.replicate (64 - short.length) 0

/-- The keyed hash of a message. -/
def hmac (key message : List UInt8) : Root :=
  let block := blockKey key
  hash (block.map (· ^^^ 0x5c) ++ (hash (block.map (· ^^^ 0x36) ++ message)).toList)

end Beacon.Sha256
