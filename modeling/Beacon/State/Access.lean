/-
  What the rules ask of a chain state: single fields to read, and single writes.

  A write is a value (`Write`), so that what an operation does to a state can be told write by
  write.  Any read or write may fail, and a failed write may still leave its trace in the storage;
  that is why `StateAccess.write` gives a state in either case.
-/
import Beacon.Action

namespace Beacon

/-- The two epochs whose votes a state keeps. -/
inductive RecentEpoch where
  | previous
  | current
deriving DecidableEq, Inhabited

/-- One change of a state. -/
inductive Write where
  | activationEligibilityEpoch (index : Nat) (epoch : Epoch)
  | activationEpoch (index : Nat) (epoch : Epoch)
  | exitEpoch (index : Nat) (epoch : Epoch)
  | withdrawableEpoch (index : Nat) (epoch : Epoch)
  | slashed (index : Nat) (value : Bool)
  | balance (index : Nat) (amount : Gwei)
  /-- An amount added to the ring of slashed amounts. -/
  | slashing (epoch : Epoch) (amount : Gwei)
deriving DecidableEq

/-- Reading and writing a chain state of type `σ`. -/
class StateAccess (σ : Type) where
  slot : σ → Slot
  fork : σ → Fork
  genesisValidatorsRoot : σ → Root
  finalizedCheckpoint : σ → Checkpoint
  validatorCount : σ → Nat
  validator : σ → Nat → Except AccessError Validator
  /-- All validators in the order of their indices. -/
  validators : σ → List (Except AccessError Validator)
  balance : σ → Nat → Except AccessError Gwei
  /-- The entry of the ring of block roots for a slot, whichever block it is of. -/
  blockRootEntry : σ → Slot → Except AccessError Root
  slashingsTotal : σ → Except AccessError Gwei
  attestations : σ → RecentEpoch → List (Except AccessError PendingAttestation)
  write : Write → σ → Except AccessError Unit × σ

namespace Action

variable {σ α : Type}

/-- A reading of the state, as an action. -/
def read (reading : σ → Except AccessError α) : Action σ α :=
  query fun s => (reading s).mapError Failure.access

/-- A write, as an action. -/
def write [StateAccess σ] (w : Write) : Action σ Unit :=
  ofRun fun s => let (result, s') := StateAccess.write w s; (result.mapError Failure.access, s')

@[simp]
theorem runOn_read (reading : σ → Except AccessError α) (s : σ) :
    (read reading).runOn s = ((reading s).mapError Failure.access, s) := rfl

end Action

end Beacon
