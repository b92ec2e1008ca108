/-
  The constants of a network, as one record that every rule takes as a parameter.

  Divisors and period lengths are `Divisor`s, so no rule has to ask whether one is zero.
  Constraints between several fields are not built into the type: `Config.problem?` names the
  first one that fails.
-/
import Beacon.Decimal
import Beacon.Record

namespace Beacon

/-- The constants of a network.  The values written here are the defaults. -/
structure Config where
  /-- Lower case letters, digits and hyphens. -/
  configName : String := "default"
  genesisForkVersion : Version := #v[0, 0, 0, 0]
  slotsPerEpoch : Divisor := ⟨32, by decide⟩
  /-- How far back block roots are kept. -/
  slotsPerHistoricalRoot : Divisor := ⟨8192, by decide⟩
  /-- Epochs between the decision on an activation or exit and the first epoch it can change. -/
  maxSeedLookahead : UInt64 := 4
  minEpochsToInactivityPenalty : UInt64 := 4
  /-- Epochs between an exit and the withdrawal. -/
  minValidatorWithdrawabilityDelay : UInt64 := 256
  /-- Epochs a validator has to serve before it may ask to leave. -/
  shardCommitteePeriod : UInt64 := 256
  /-- Length of the ring of slashed amounts. -/
  epochsPerSlashingsVector : Divisor := ⟨8192, by decide⟩
  maxValidatorsPerCommittee : Divisor := ⟨2048, by decide⟩
  effectiveBalanceIncrement : Divisor := ⟨1000000000, by decide⟩
  /-- Validators with no more than this leave the registry. -/
  ejectionBalance : Gwei := 16000000000
  maxEffectiveBalance : Gwei := 32000000000
  baseRewardFactor : UInt64 := 64
  inactivityPenaltyQuotient : Divisor := ⟨67108864, by decide⟩
  minSlashingPenaltyQuotient : Divisor := ⟨128, by decide⟩
  proportionalSlashingMultiplier : UInt64 := 1
  proposerRewardQuotient : Divisor := ⟨8, by decide⟩
  whistleblowerRewardQuotient : Divisor := ⟨512, by decide⟩
  churnLimitQuotient : Divisor := ⟨65536, by decide⟩
  minPerEpochChurnLimit : UInt64 := 4
deriving DecidableEq

namespace Config

/-! ## Presets -/

/-- The network that a record with no field given describes. -/
def default : Config where

instance : Inhabited Config := ⟨default⟩

def mainnet : Config := { default with configName := "mainnet" }

/-- Short epochs and small committees. -/
def minimal : Config :=
  { default with
    configName := "minimal"
    genesisForkVersion := #v[0, 0, 0, 1]
    slotsPerEpoch := ⟨8, by decide⟩
    slotsPerHistoricalRoot := ⟨64, by decide⟩
    shardCommitteePeriod := 64
    epochsPerSlashingsVector := ⟨64, by decide⟩
    inactivityPenaltyQuotient := ⟨33554432, by decide⟩
    minSlashingPenaltyQuotient := ⟨64, by decide⟩
    proportionalSlashingMultiplier := 2
    churnLimitQuotient := ⟨32, by decide⟩
    minPerEpochChurnLimit := 2 }

/-- Epochs between a slashing's proportional penalty and the withdrawal: half of the ring. -/
def penaltyOffset (config : Config) : Epoch := config.epochsPerSlashingsVector.val / 2

/-! ## Constraints between fields -/

/-- What can be wrong with a configuration. -/
inductive Problem where
  | nameEmpty
  | nameContainsIllegalCharacters
  | slashingsVectorLengthOdd (length : Divisor)
  | maxEffectiveBalanceNotMultipleOfIncrement (maximum : Gwei) (increment : Divisor)
  | ejectionBalanceAboveMaximum (ejection maximum : Gwei)
deriving DecidableEq

/-- May this character stand in the name of a network? -/
def isNameCharacter (c : Char) : Bool :=
  ('a' ≤ c && c ≤ 'z') || ('0' ≤ c && c ≤ '9') || c == '-'

/-- The first constraint that fails, if one does. -/
def problem? (config : Config) : Option Problem :=
  if config.configName.toList = [] then some .nameEmpty
  else if ¬ config.configName.toList.all isNameCharacter then some .nameContainsIllegalCharacters
  else if config.epochsPerSlashingsVector.val % 2 ≠ 0 then
    some (.slashingsVectorLengthOdd config.epochsPerSlashingsVector)
  else if config.maxEffectiveBalance % config.effectiveBalanceIncrement.val ≠ 0 then
    some (.maxEffectiveBalanceNotMultipleOfIncrement
      config.maxEffectiveBalance config.effectiveBalanceIncrement)
  else if config.maxEffectiveBalance < config.ejectionBalance then
    some (.ejectionBalanceAboveMaximum config.ejectionBalance config.maxEffectiveBalance)
  else none

/-- The text of a problem. -/
def Problem.message : Problem → String
  | nameEmpty => "CONFIG_NAME is empty"
  | nameContainsIllegalCharacters =>
    "CONFIG_NAME contains characters other than a-z, 0-9, and hyphens"
  | slashingsVectorLengthOdd length =>
    "EPOCHS_PER_SLASHINGS_VECTOR (" ++ Decimal.text length.val.toNat ++ ") is odd"
  | maxEffectiveBalanceNotMultipleOfIncrement maximum increment =>
    "MAX_EFFECTIVE_BALANCE (" ++ Decimal.text maximum.toNat ++
      ") is not a multiple of EFFECTIVE_BALANCE_INCREMENT (" ++
      Decimal.text increment.val.toNat ++ ")"
  | ejectionBalanceAboveMaximum ejection maximum =>
    "EJECTION_BALANCE (" ++ Decimal.text ejection.toNat ++ ") exceeds MAX_EFFECTIVE_BALANCE (" ++
      Decimal.text maximum.toNat ++ ")"

end Config

end Beacon
