/-
  The JSON forms of the records.

  Each record lists the names of its fields once; it is written as an object with these members
  and read through `Json.fields?`, so fields may come in any order or as an array.
-/
import Beacon.Json.Form
import Beacon.Validator

namespace Beacon

/-! ## Votes -/

namespace Checkpoint

def fieldNames : List String := ["epoch", "root"]

instance : JsonForm Checkpoint where
  toJson c := Json.ofMembers (fieldNames.zip [toJson c.epoch, toJson c.root])
  ofJson? value := do
    match ← value.fields? fieldNames with
    | [epoch, root] =>
      some { epoch := ← epoch.read? Epoch, root := ← root.read? Root }
    | _ => none

end Checkpoint

namespace AttestationData

def fieldNames : List String := ["slot", "index", "beacon_block_root", "source", "target"]

instance : JsonForm AttestationData where
  toJson d := Json.ofMembers (fieldNames.zip
    [toJson d.slot, toJson d.index, toJson d.beaconBlockRoot, toJson d.source, toJson d.target])
  ofJson? value := do
    match ← value.fields? fieldNames with
    | [slot, index, beaconBlockRoot, source, target] =>
      some {
        slot := ← slot.read? Slot
        index := ← index.read? UInt64
        beaconBlockRoot := ← beaconBlockRoot.read? Root
        source := ← source.read? Checkpoint
        target := ← target.read? Checkpoint }
    | _ => none

end AttestationData

namespace IndexedAttestation

def fieldNames : List String := ["attesting_indices", "data", "signature"]

instance : JsonForm IndexedAttestation where
  toJson a := Json.ofMembers (fieldNames.zip
    [toJson a.attestingIndices, toJson a.data, toJson a.signature])
  ofJson? value := do
    match ← value.fields? fieldNames with
    | [attestingIndices, data, signature] =>
      some {
        attestingIndices := ← attestingIndices.read? (List UInt64)
        data := ← data.read? AttestationData
        signature := ← signature.read? SignatureBytes }
    | _ => none

end IndexedAttestation

/-! ## Blocks -/

namespace BlockHeader

def fieldNames : List String :=
  ["slot", "proposer_index", "parent_root", "state_root", "body_root"]

instance : JsonForm BlockHeader where
  toJson h := Json.ofMembers (fieldNames.zip
    [toJson h.slot, toJson h.proposerIndex, toJson h.parentRoot, toJson h.stateRoot,
      toJson h.bodyRoot])
  ofJson? value := do
    match ← value.fields? fieldNames with
    | [slot, proposerIndex, parentRoot, stateRoot, bodyRoot] =>
      some {
        slot := ← slot.read? Slot
        proposerIndex := ← proposerIndex.read? UInt64
        parentRoot := ← parentRoot.read? Root
        stateRoot := ← stateRoot.read? Root
        bodyRoot := ← bodyRoot.read? Root }
    | _ => none

end BlockHeader

/-- Signed messages are written alike: the message, then the signature. -/
def signedFieldNames : List String := ["message", "signature"]

instance : JsonForm SignedBlockHeader where
  toJson s := Json.ofMembers (signedFieldNames.zip [toJson s.message, toJson s.signature])
  ofJson? value := do
    match ← value.fields? signedFieldNames with
    | [message, signature] =>
      some {
        message := ← message.read? BlockHeader
        signature := ← signature.read? SignatureBytes }
    | _ => none

/-! ## Operations -/

namespace AttesterSlashing

def fieldNames : List String := ["attestation_1", "attestation_2"]

instance : JsonForm AttesterSlashing where
  toJson s := Json.ofMembers (fieldNames.zip [toJson s.attestation1, toJson s.attestation2])
  ofJson? value := do
    match ← value.fields? fieldNames with
    | [attestation1, attestation2] =>
      some {
        attestation1 := ← attestation1.read? IndexedAttestation
        attestation2 := ← attestation2.read? IndexedAttestation }
    | _ => none

end AttesterSlashing

namespace ProposerSlashing

def fieldNames : List String := ["signed_header_1", "signed_header_2"]

instance : JsonForm ProposerSlashing where
  toJson s := Json.ofMembers (fieldNames.zip [toJson s.signedHeader1, toJson s.signedHeader2])
  ofJson? value := do
    match ← value.fields? fieldNames with
    | [signedHeader1, signedHeader2] =>
      some {
        signedHeader1 := ← signedHeader1.read? SignedBlockHeader
        signedHeader2 := ← signedHeader2.read? SignedBlockHeader }
    | _ => none

end ProposerSlashing

namespace VoluntaryExit

def fieldNames : List String := ["epoch", "validator_index"]

instance : JsonForm VoluntaryExit where
  toJson e := Json.ofMembers (fieldNames.zip [toJson e.epoch, toJson e.validatorIndex])
  ofJson? value := do
    match ← value.fields? fieldNames with
    | [epoch, validatorIndex] =>
      some { epoch := ← epoch.read? Epoch, validatorIndex := ← validatorIndex.read? UInt64 }
    | _ => none

end VoluntaryExit

instance : JsonForm SignedVoluntaryExit where
  toJson s := Json.ofMembers (signedFieldNames.zip [toJson s.message, toJson s.signature])
  ofJson? value := do
    match ← value.fields? signedFieldNames with
    | [message, signature] =>
      some {
        message := ← message.read? VoluntaryExit
        signature := ← signature.read? SignatureBytes }
    | _ => none

/-! ## Forks and signing -/

namespace Fork

def fieldNames : List String := ["previous_version", "current_version", "epoch"]

instance : JsonForm Fork where
  toJson f := Json.ofMembers (fieldNames.zip
    [toJson f.previousVersion, toJson f.currentVersion, toJson f.epoch])
  ofJson? value := do
    match ← value.fields? fieldNames with
    | [previousVersion, currentVersion, epoch] =>
      some {
        previousVersion := ← previousVersion.read? Version
        currentVersion := ← currentVersion.read? Version
        epoch := ← epoch.read? Epoch }
    | _ => none

end Fork

namespace ForkData

def fieldNames : List String := ["current_version", "genesis_validators_root"]

instance : JsonForm ForkData where
  toJson f := Json.ofMembers (fieldNames.zip
    [toJson f.currentVersion, toJson f.genesisValidatorsRoot])
  ofJson? value := do
    match ← value.fields? fieldNames with
    | [currentVersion, genesisValidatorsRoot] =>
      some {
        currentVersion := ← currentVersion.read? Version
        genesisValidatorsRoot := ← genesisValidatorsRoot.read? Root }
    | _ => none

end ForkData

namespace SigningData

def fieldNames : List String := ["object_root", "domain"]

instance : JsonForm SigningData where
  toJson s := Json.ofMembers (fieldNames.zip [toJson s.objectRoot, toJson s.domain])
  ofJson? value := do
    match ← value.fields? fieldNames with
    | [objectRoot, domain] =>
      some { objectRoot := ← objectRoot.read? Root, domain := ← domain.read? Root }
    | _ => none

end SigningData

/-! ## Validators -/

namespace Validator

def fieldNames : List String :=
  ["pubkey", "withdrawal_credentials", "effective_balance", "slashed",
    "activation_eligibility_epoch", "activation_epoch", "exit_epoch", "withdrawable_epoch"]

instance : JsonForm Validator where
  toJson v := Json.ofMembers (fieldNames.zip
    [toJson v.pubkey, toJson v.withdrawalCredentials, toJson v.effectiveBalance,
      toJson v.slashed, toJson v.activationEligibilityEpoch, toJson v.activationEpoch,
      toJson v.exitEpoch, toJson v.withdrawableEpoch])
  ofJson? value := do
    match ← value.fields? fieldNames with
    | [pubkey, withdrawalCredentials, effectiveBalance, slashed, activationEligibilityEpoch,
        activationEpoch, exitEpoch, withdrawableEpoch] =>
      some {
        pubkey := ← pubkey.read? KeyBytes
        withdrawalCredentials := ← withdrawalCredentials.read? Root
        effectiveBalance := ← effectiveBalance.read? Gwei
        slashed := ← slashed.read? Bool
        activationEligibilityEpoch := ← activationEligibilityEpoch.read? Epoch
        activationEpoch := ← activationEpoch.read? Epoch
        exitEpoch := ← exitEpoch.read? Epoch
        withdrawableEpoch := ← withdrawableEpoch.read? Epoch }
    | _ => none

end Validator

end Beacon
