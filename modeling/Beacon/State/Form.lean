/-
  The JSON form of a chain state held in memory.

  Waiting votes have no JSON form; the written form exists for states without any, and every
  state that is read has none.
-/
import Beacon.Record.Form
import Beacon.State.Memory

namespace Beacon.State

def fieldNames : List String :=
  ["slot", "genesis_validators_root", "fork", "block_roots", "validators", "balances",
    "slashings", "previous_epoch_attestations", "current_epoch_attestations",
    "finalized_checkpoint"]

/-- The written form, unless votes are waiting. -/
def toJson? (s : State) : Option Json :=
  if s.previousAttestations = [] ∧ s.currentAttestations = [] then
    some (Json.ofMembers (fieldNames.zip
      [toJson s.slot, toJson s.genesisValidatorsRoot, toJson s.fork, toJson s.blockRoots,
        toJson s.validators, toJson s.balances, toJson s.slashings, Json.array [],
        Json.array [], toJson s.finalizedCheckpoint]))
  else none

/-- Is this the form of an empty list? -/
def isEmptyArray : Json → Bool
  | .array [] => true
  | _ => false

/-- The state that a JSON value is the form of. -/
def ofJson? (value : Json) : Option State := do
  match ← value.fields? fieldNames with
  | [slot, genesisValidatorsRoot, fork, blockRoots, validators, balances, slashings,
      previousAttestations, currentAttestations, finalizedCheckpoint] =>
    if isEmptyArray previousAttestations && isEmptyArray currentAttestations then
      some {
        slot := ← slot.read? Slot
        genesisValidatorsRoot := ← genesisValidatorsRoot.read? Root
        fork := ← fork.read? Fork
        blockRoots := ← blockRoots.read? (Array Root)
        validators := ← validators.read? (Array Validator)
        balances := ← balances.read? (Array Gwei)
        slashings := ← slashings.read? (Array Gwei)
        previousAttestations := []
        currentAttestations := []
        finalizedCheckpoint := ← finalizedCheckpoint.read? Checkpoint }
    else none
  | _ => none

end Beacon.State
