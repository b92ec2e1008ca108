/-
  Records as they appear in the texts of errors: the record's name and its fields in braces.
-/
import Beacon.Decimal
import Beacon.Validator

namespace Beacon

/-- Types whose values appear in texts of errors. -/
class Described (α : Type) where
  describe : α → String

export Described (describe)

instance : Described UInt64 := ⟨fun w => Decimal.text w.toNat⟩

instance : Described Bool := ⟨fun b => if b then "true" else "false"⟩

instance {n : Nat} : Described (Bytes n) := ⟨Bytes.toHex⟩

/-- A record with these fields. -/
def describeRecord (name : String) (fields : List (String × String)) : String :=
  name ++ " \x7b " ++
    ", ".intercalate (fields.map fun (field, value) => field ++ ": " ++ value) ++ " \x7d"

instance : Described Checkpoint where
  describe c := describeRecord "Checkpoint" [("epoch", describe c.epoch), ("root", describe c.root)]

instance : Described AttestationData where
  describe d := describeRecord "AttestationData"
    [("slot", describe d.slot), ("index", describe d.index),
      ("beacon_block_root", describe d.beaconBlockRoot), ("source", describe d.source),
      ("target", describe d.target)]

instance : Described BlockHeader where
  describe h := describeRecord "BeaconBlockHeader"
    [("slot", describe h.slot), ("proposer_index", describe h.proposerIndex),
      ("parent_root", describe h.parentRoot), ("state_root", describe h.stateRoot),
      ("body_root", describe h.bodyRoot)]

instance : Described Validator where
  describe v := describeRecord "Validator"
    [("pubkey", describe v.pubkey), ("withdrawal_credentials", describe v.withdrawalCredentials),
      ("effective_balance", describe v.effectiveBalance), ("slashed", describe v.slashed),
      ("activation_eligibility_epoch", describe v.activationEligibilityEpoch),
      ("activation_epoch", describe v.activationEpoch), ("exit_epoch", describe v.exitEpoch),
      ("withdrawable_epoch", describe v.withdrawableEpoch)]

end Beacon
