/-
  What is known about an epoch when it ends: a status for every validator, the stakes that voted
  alike, and the queues of validators whose records are about to change.

  Statuses hold the validators as they were when the epoch was summed up; later changes of the
  registry do not reach them.
-/
import Beacon.Registry.ExitQueue

namespace Beacon

/-- Which parts of a vote agreed with the chain.  A head counts only together with its target. -/
structure Votes where
  source : Bool
  target : Bool
  head : Bool
deriving DecidableEq, Inhabited

/-- No vote. -/
def Votes.none : Votes := ⟨false, false, false⟩

/-- How a vote came into the chain: after how many slots, and through whom. -/
structure Inclusion where
  delay : Divisor
  proposerIndex : Nat
deriving DecidableEq, Inhabited

/-- What a validator did in the epoch. -/
structure AttesterStatus where
  validator : Validator
  unslashed : Bool
  /-- Is the validator paid or charged for the previous epoch? -/
  eligible : Bool
  previous : Votes
  current : Votes
  active : Bool
  /-- The fastest inclusion of a vote for the previous epoch; of equally fast ones the first. -/
  inclusion : Option Inclusion
deriving DecidableEq, Inhabited

/-- Stakes of unslashed validators by what they voted for in the previous epoch. -/
structure PreviousStakes where
  source : Divisor
  target : Divisor
  head : Divisor
deriving DecidableEq, Inhabited

/-- All that closing an epoch needs, gathered in one pass over the state.  No stake is below one
    increment. -/
structure EpochSummary where
  previousEpoch : Epoch
  currentEpoch : Epoch
  statuses : Array AttesterStatus
  totalActiveStake : Divisor
  previousStakes : PreviousStakes
  currentTargetStake : Divisor
  activeValidators : Nat
  /-- Validators whose proportional slashing penalty is due. -/
  toSlash : List Nat
  toSetEligibility : List Nat
  /-- By eligibility epoch and then by index; not yet limited by the churn. -/
  toMaybeActivate : List Nat
  toEject : List Nat
  exitQueue : ExitQueue
  churnLimit : Nat
deriving DecidableEq, Inhabited

namespace EpochSummary

/-- The status of a validator. -/
def status (summary : EpochSummary) (index : Nat) : Except Failure AttesterStatus :=
  orFail (.violated (.notInRegistry index summary.statuses.size)) summary.statuses[index]?

end EpochSummary

end Beacon
