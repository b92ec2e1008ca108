/-
  The JSON form of a configuration.

  Every field has one entry in the table `Config.fields`: its key, how its value is written, and
  how a value is put into a configuration.  Writing and reading both walk the table, so a key is
  spelt in one place.  Reading starts from the default configuration and replaces the fields that
  are given; keys that are not in the table are passed over.  `Config.overlay?` starts from any
  other configuration, for which it puts what is written for it below the members that are given.
-/
import Beacon.Config
import Beacon.Json.Form

namespace Beacon

namespace Config

/-- One field of the written form. -/
structure Field where
  key : String
  /-- The field's value, written. -/
  write : Config → Json
  /-- The configuration with the field replaced by a written value. -/
  replace : Config → Json → Option Config

/-- The entry of a field of any type that has a JSON form. -/
def field {α : Type} [JsonForm α] (key : String) (get : Config → α) (set : Config → α → Config) :
    Field where
  key := key
  write config := toJson (get config)
  replace config value := (value.read? α).map (set config)

/-- All fields, in order. -/
def fields : List Field :=
  [field "CONFIG_NAME" configName fun c v => { c with configName := v },
   field "GENESIS_FORK_VERSION" genesisForkVersion fun c v => { c with genesisForkVersion := v },
   field "SLOTS_PER_EPOCH" slotsPerEpoch fun c v => { c with slotsPerEpoch := v },
   field "SLOTS_PER_HISTORICAL_ROOT" slotsPerHistoricalRoot
     fun c v => { c with slotsPerHistoricalRoot := v },
   field "MAX_SEED_LOOKAHEAD" maxSeedLookahead fun c v => { c with maxSeedLookahead := v },
   field "MIN_EPOCHS_TO_INACTIVITY_PENALTY" minEpochsToInactivityPenalty
     fun c v => { c with minEpochsToInactivityPenalty := v },
   field "MIN_VALIDATOR_WITHDRAWABILITY_DELAY" minValidatorWithdrawabilityDelay
     fun c v => { c with minValidatorWithdrawabilityDelay := v },
   field "SHARD_COMMITTEE_PERIOD" shardCommitteePeriod
     fun c v => { c with shardCommitteePeriod := v },
   field "EPOCHS_PER_SLASHINGS_VECTOR" epochsPerSlashingsVector
     fun c v => { c with epochsPerSlashingsVector := v },
   field "MAX_VALIDATORS_PER_COMMITTEE" maxValidatorsPerCommittee
     fun c v => { c with maxValidatorsPerCommittee := v },
   field "EFFECTIVE_BALANCE_INCREMENT" effectiveBalanceIncrement
     fun c v => { c with effectiveBalanceIncrement := v },
   field "EJECTION_BALANCE" ejectionBalance fun c v => { c with ejectionBalance := v },
   field "MAX_EFFECTIVE_BALANCE" maxEffectiveBalance
     fun c v => { c with maxEffectiveBalance := v },
   field "BASE_REWARD_FACTOR" baseRewardFactor fun c v => { c with baseRewardFactor := v },
   field "INACTIVITY_PENALTY_QUOTIENT" inactivityPenaltyQuotient
     fun c v => { c with inactivityPenaltyQuotient := v },
   field "MIN_SLASHING_PENALTY_QUOTIENT" minSlashingPenaltyQuotient
     fun c v => { c with minSlashingPenaltyQuotient := v },
   field "PROPORTIONAL_SLASHING_MULTIPLIER" proportionalSlashingMultiplier
     fun c v => { c with proportionalSlashingMultiplier := v },
   field "PROPOSER_REWARD_QUOTIENT" proposerRewardQuotient
     fun c v => { c with proposerRewardQuotient := v },
   field "WHISTLEBLOWER_REWARD_QUOTIENT" whistleblowerRewardQuotient
     fun c v => { c with whistleblowerRewardQuotient := v },
   field "CHURN_LIMIT_QUOTIENT" churnLimitQuotient fun c v => { c with churnLimitQuotient := v },
   field "MIN_PER_EPOCH_CHURN_LIMIT" minPerEpochChurnLimit
     fun c v => { c with minPerEpochChurnLimit := v }]

/-- The configuration with the given ones of these fields replaced. -/
def replaceFields : Config → List (Field × Option Json) → Option Config
  | config, [] => some config
  | config, (_, none) :: rest => replaceFields config rest
  | config, (field, some value) :: rest =>
    (field.replace config value).bind fun config => replaceFields config rest

end Config

instance : JsonForm Config where
  toJson config := Json.ofMembers (Config.fields.map fun field => (field.key, field.write config))
  ofJson? value := do
    let values ← value.optionalFields? (Config.fields.map Config.Field.key)
    Config.replaceFields Config.default (Config.fields.zip values)

/-- The JSON form of a configuration with some members replaced or added, read again. -/
def Config.overlay? (config : Config) (members : List (Option String × Json)) : Option Config :=
  match toJson config with
  | .object base =>
    let kept := base.filter fun member => !members.any fun new => new.1 == member.1
    (Json.object (kept ++ members)).read? Config
  | _ => none

end Beacon
