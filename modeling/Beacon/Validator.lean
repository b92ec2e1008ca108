/-
  The record of a validator, and what it says about an epoch.

  A validator passes through its epochs in order: eligible for activation, active, exited,
  withdrawable.  It is ACTIVE from its activation epoch up to its exit epoch, and SLASHABLE, unless
  slashed already, from its activation epoch up to its withdrawable epoch.
-/
import Beacon.Config

namespace Beacon

structure Validator where
  pubkey : KeyBytes
  withdrawalCredentials : Root
  /-- The stake that counts, a multiple of the increment. -/
  effectiveBalance : Gwei
  slashed : Bool
  activationEligibilityEpoch : Epoch
  activationEpoch : Epoch
  exitEpoch : Epoch
  withdrawableEpoch : Epoch
deriving DecidableEq, Inhabited

namespace Validator

/-- Does the validator take part in this epoch? -/
def isActive (v : Validator) (epoch : Epoch) : Bool :=
  v.activationEpoch ≤ epoch && epoch < v.exitEpoch

/-- Should the validator join the queue for activation? -/
def entersQueue (config : Config) (v : Validator) : Bool :=
  v.activationEligibilityEpoch == farFutureEpoch &&
    v.effectiveBalance == config.maxEffectiveBalance

/-- Is the validator paid or charged for the epoch before the current one?  A slashed validator
    is, until it can withdraw. -/
def isAccountable (v : Validator) (previous : Epoch) : Bool :=
  v.isActive previous || (v.slashed && Word.addSaturating previous 1 < v.withdrawableEpoch)

/-- Can the validator still be slashed? -/
def isSlashable (v : Validator) (epoch : Epoch) : Bool :=
  !v.slashed && v.activationEpoch ≤ epoch && epoch < v.withdrawableEpoch

/-- Has the validator no exit epoch yet? -/
def isStaying (v : Validator) : Bool := v.exitEpoch == farFutureEpoch

end Validator

end Beacon
