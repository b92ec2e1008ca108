/-
  How many validators may come or go in one epoch.
-/
import Beacon.Time

namespace Beacon

/-- The churn limit of a registry with this many active validators. -/
def churnLimit (config : Config) (active : Nat) : Nat :=
  max (active / config.churnLimitQuotient.val.toNat) config.minPerEpochChurnLimit.toNat

/-- All validators of a state, or the first failure to read one. -/
def readValidators {σ : Type} [StateAccess σ] (s : σ) : Except Failure (List Validator) :=
  (StateAccess.validators s).mapM fun validator => validator.mapError Failure.access

/-- The churn limit of the validators active in the current epoch. -/
def registryChurnLimit {σ : Type} [StateAccess σ] (config : Config) (s : σ) :
    Except Failure Nat := do
  let validators ← readValidators s
  return churnLimit config (validators.countP fun v => v.isActive (currentEpoch config s))

end Beacon
