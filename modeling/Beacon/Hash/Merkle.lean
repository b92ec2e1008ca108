/-
  Roots of lists of chunks, with the hash of a pair as a parameter.

  `merkleRoot H` halves the list round by round: neighbours are hashed together, and a last chunk
  without a neighbour is hashed with the root of an all-zero subtree of its height.  A record has
  a root through the chunks of its fields (`Chunked`, `treeRoot`).
-/
import Beacon.Bytes

namespace Beacon

/-- A hash of two chunks to one. -/
abbrev PairHash := Root → Root → Root

namespace Merkle

/-! ## Chunks -/

/-- The chunk of zeros. -/
def zeroChunk : Root := Bytes.zero 32

/-- The eight bytes of a word, least significant first. -/
def wordBytes (w : UInt64) : List UInt8 :=
  ([0, 8, 16, 24, 32, 40, 48, 56] : List UInt64).map fun shift => (w >>> shift).toUInt8

/-- The chunk of a word. -/
def chunkOfWord (w : UInt64) : Root := Bytes.fill 32 (wordBytes w)

/-- The chunk of at most thirty-two bytes; more have none. -/
def chunkOfBytes? (bytes : List UInt8) : Option Root :=
  if bytes.length ≤ 32 then some (Bytes.fill 32 bytes) else none

/-- The chunk of a fork version. -/
def chunkOfVersion (v : Version) : Root := Bytes.fill 32 v.toList

/-! ## Rounds -/

/-- One round: neighbours hashed together, a last one alone hashed with `padding`. -/
def pairUp (H : PairHash) (padding : Root) : List Root → List Root
  | [] => []
  | [x] => [H x padding]
  | x :: y :: rest => H x y :: pairUp H padding rest

theorem length_pairUp (H : PairHash) (padding : Root) (xs : List Root) :
    (pairUp H padding xs).length = (xs.length + 1) / 2 := by
  fun_induction pairUp H padding xs with
  | case1 => rfl
  | case2 => simp
  | case3 x y rest ih => simp only [List.length_cons, ih]; omega

/-- The root of a layer of equally high subtrees, `padding` being the all-zero one. -/
def rootOfLayer (H : PairHash) (padding : Root) : List Root → Root
  | [] => padding
  | [x] => x
  | x :: y :: rest => rootOfLayer H (H padding padding) (pairUp H padding (x :: y :: rest))
termination_by xs => xs.length
decreasing_by simp only [length_pairUp, List.length_cons]; omega

end Merkle

/-- The root of a list of chunks; that of the empty list is the chunk of zeros. -/
def merkleRoot (H : PairHash) (chunks : List Root) : Root :=
  Merkle.rootOfLayer H Merkle.zeroChunk chunks

/-! ## Records -/

/-- Records that have a root: each field contributes one chunk, a record within it its root. -/
class Chunked (α : Type) where
  chunks : PairHash → α → List Root

/-- The root of a record. -/
def treeRoot {α : Type} [Chunked α] (H : PairHash) (record : α) : Root :=
  merkleRoot H (Chunked.chunks H record)

end Beacon
