/-
  Signature checks as requests to a verifier.

  The rules do not check signatures themselves.  They hand each check to a `Verifier`, which may
  keep a state of its own and either accepts the check or ends the operation.  What counts as a
  key is left open: `κ` is the type of decompressed keys.
-/
import Beacon.Action

namespace Beacon

/-- The key or keys that a signature has to be made with. -/
inductive Signers (κ : Type) where
  | one (key : κ)
  /-- All of them, each having signed the same message. -/
  | all (keys : List κ)
deriving DecidableEq

/-- A check asked of a verifier. -/
structure SignatureCheck (κ : Type) where
  kind : SignatureKind
  message : Root
  signature : SignatureBytes
  signers : Signers κ
deriving DecidableEq

/-- Something that accepts or refuses checks, with a state `ω`. -/
structure Verifier (κ ω : Type) where
  check : SignatureCheck κ → Action ω Unit

namespace Verifier

variable {κ : Type}

/-- The failure of a check that is refused as a bad signature. -/
def refusal (check : SignatureCheck κ) : Failure := .rejected (.signatureInvalid check.kind)

/-- Accepts everything. -/
def null : Verifier κ Unit where
  check _ := pure ()

/-- Decides each check on its own. -/
def ofPredicate (isValid : SignatureCheck κ → Bool) : Verifier κ Unit where
  check c := Action.ofExcept (ensure (isValid c) (refusal c))

/-- Notes every check and accepts it, except for the one with this number, counted from one. -/
def recording (reject : Option Nat) : Verifier κ (List (SignatureCheck κ)) where
  check c := Action.ofRun fun seen =>
    let seen := seen ++ [c]
    (ensure (reject != some seen.length) (refusal c), seen)

end Verifier

end Beacon
