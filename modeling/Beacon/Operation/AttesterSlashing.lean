/-
  Attester slashings: two votes that contradict each other.

  Everyone who cast both votes and can still be slashed is slashed, in the order of the indices;
  evidence against nobody is refused.
-/
import Beacon.Operation.IndexedAttestation
import Beacon.Registry.Slash

namespace Beacon

namespace AttesterSlashing

variable {σ κ ω : Type} [StateAccess σ]

/-- The validators who cast both votes. -/
def accused (slashing : AttesterSlashing) : List UInt64 :=
  IndexSet.inter slashing.attestation1.attestingIndices slashing.attestation2.attestingIndices

/-- Those of the given validators who can be slashed. -/
def slashableAmong (config : Config) (s : σ) (indices : List Nat) : Except Failure (List Nat) :=
  indices.filterM fun index => do
    let validator ← (StateAccess.validator s index).mapError Failure.access
    return validator.isSlashable (currentEpoch config s)

/-- All rules for an attester slashing; gives those it slashes. -/
def check (config : Config) (s : σ) (cache : KeyCache κ) (verifier : Verifier κ ω)
    (slashing : AttesterSlashing) : Action ω (List Nat) := do
  let data1 := slashing.attestation1.data
  let data2 := slashing.attestation2.data
  Action.ofExcept (ensure (isSlashablePair data1 data2) (.rejected (.dataNotSlashable data1 data2)))
  slashing.attestation1.check config s cache verifier
  slashing.attestation2.check config s cache verifier
  let slashable ← Action.ofExcept
    (slashableAmong config s (slashing.accused.map UInt64.toNat))
  Action.ofExcept (ensure (!slashable.isEmpty) (.rejected .noAttestersSlashed))
  return slashable

/-- Slashes several validators, one after the other. -/
def slashAll (config : Config) (proposer : Nat) : List Nat → Action σ Unit
  | [] => pure ()
  | index :: indices => do
    slash config index proposer none
    slashAll config proposer indices

/-- Checks an attester slashing in a block of `proposer` and slashes those it accuses. -/
def enact (config : Config) (cache : KeyCache κ) (verifier : Verifier κ ω)
    (slashing : AttesterSlashing) (proposer : Nat) : Action (σ × ω) Unit := do
  let slashable ← Action.onSecond fun s => slashing.check config s cache verifier
  Action.onFirst (slashAll config proposer slashable)

end AttesterSlashing

end Beacon
