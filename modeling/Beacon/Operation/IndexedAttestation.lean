/-
  Accepting an indexed attestation: its index set, the registry, and the aggregate signature.

  Two votes are SLASHABLE together when they differ but have the same target epoch, or when the
  first surrounds the second.
-/
import Beacon.Hash.Sha256
import Beacon.KeyCache
import Beacon.Operation.IndexSet
import Beacon.Signature.Check
import Beacon.Signature.Domain

namespace Beacon

/-- Do these two votes contradict each other?  Of a surround vote the first has to be the
    surrounding one. -/
def isSlashablePair (data1 data2 : AttestationData) : Bool :=
  let doubleVote := data1 != data2 && data1.target.epoch == data2.target.epoch
  let surroundVote :=
    data1.source.epoch < data2.source.epoch && data2.target.epoch < data1.target.epoch
  doubleVote || surroundVote

namespace IndexedAttestation

variable {σ κ ω : Type} [StateAccess σ]

/-- Accepts index sets whose members are in the registry.  The last index is the largest. -/
def checkIndices (config : Config) (s : σ) (attestation : IndexedAttestation) :
    Except Failure Unit := do
  IndexSet.check config attestation.attestingIndices
  match attestation.attestingIndices.getLast? with
  | none => return ()
  | some index =>
    ensure (index.toNat < StateAccess.validatorCount s)
      (.rejected (.outsideRegistry index.toNat (StateAccess.validatorCount s)))

/-- Asks the verifier for the aggregate signature of all attesters. -/
def checkSignature (config : Config) (s : σ) (cache : KeyCache κ) (verifier : Verifier κ ω)
    (attestation : IndexedAttestation) : Action ω Unit := do
  let keys ← Action.ofExcept
    (attestation.attestingIndices.mapM fun index => cache.require index.toNat)
  Action.ofExcept (ensure (!keys.isEmpty) (.rejected .noAttestingIndices))
  verifier.check {
    kind := Signable.kind AttestationData
    message := signingRoot Sha256.hashPair config s attestation.data
    signature := attestation.signature
    signers := .all keys }

/-- Accepts an attestation whose indices and signature are in order. -/
def check (config : Config) (s : σ) (cache : KeyCache κ) (verifier : Verifier κ ω)
    (attestation : IndexedAttestation) : Action ω Unit := do
  Action.ofExcept (attestation.checkIndices config s)
  attestation.checkSignature config s cache verifier

end IndexedAttestation

end Beacon
