/-
  A cache of decompressed public keys, by validator index.

  A key is decompressed when an index is first asked for and kept from then on; the bytes given
  for an index that is already cached are not looked at.  Decompression is a parameter: any
  partial function from bytes to a type `κ` of keys.
-/
import Std.Data.HashMap
import Beacon.State.Access

namespace Beacon

/-- Decompressed keys by validator index. -/
structure KeyCache (κ : Type) where
  keys : Std.HashMap Nat κ

namespace KeyCache

variable {κ : Type}

def empty : KeyCache κ := ⟨∅⟩

instance : Inhabited (KeyCache κ) := ⟨empty⟩

/-- The key of an index, if it is cached. -/
def get? (cache : KeyCache κ) (index : Nat) : Option κ := cache.keys[index]?

/-- The number of cached keys. -/
def size (cache : KeyCache κ) : Nat := cache.keys.size

/-- The cache with a key under an index. -/
def insert (cache : KeyCache κ) (index : Nat) (key : κ) : KeyCache κ :=
  ⟨cache.keys.insert index key⟩

/-- The key of an index, which a rule relies on being cached. -/
def require (cache : KeyCache κ) (index : Nat) : Except Failure κ :=
  orFail (.violated (.keyNotCached index)) (cache.get? index)

/-! ## Filling the cache -/

/-- The key of an index, decompressed from these bytes and kept if it is not cached yet. -/
def obtain (decompress : KeyBytes → Option κ) (index : Nat) (bytes : KeyBytes) :
    Action (KeyCache κ) κ :=
  Action.ofRun fun cache =>
    match cache.get? index with
    | some key => (.ok key, cache)
    | none =>
      match decompress bytes with
      | some key => (.ok key, cache.insert index key)
      | none => (.error (.access (.invalidPublicKey index)), cache)

/-- Decompresses the keys of validators from `index` on that are not cached yet.  A validator
    that is cached is passed over even if it cannot be read. -/
def loadFrom (decompress : KeyBytes → Option κ) :
    Nat → List (Except AccessError Validator) → Action (KeyCache κ) Unit
  | _, [] => pure ()
  | index, validator :: validators => do
    let cached ← Action.view fun cache => (cache.get? index).isSome
    if cached then loadFrom decompress (index + 1) validators
    else
      let validator ← Action.ofExcept (validator.mapError Failure.access)
      let _ ← obtain decompress index validator.pubkey
      loadFrom decompress (index + 1) validators

/-- Decompresses the keys of a whole registry. -/
def loadAll (decompress : KeyBytes → Option κ)
    (validators : List (Except AccessError Validator)) : Action (KeyCache κ) Unit :=
  loadFrom decompress 0 validators

end KeyCache

end Beacon
