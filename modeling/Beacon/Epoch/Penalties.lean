/-
  Proportional penalties of slashed validators.

  Half way round the ring of slashed amounts, a slashed validator pays in proportion to all that
  was slashed in that time, a multiple of the increment and at most its whole stake.
-/
import Beacon.Epoch.Summary
import Beacon.Registry.Slash

namespace Beacon

/-- Penalties by validator, in the order of the indices. -/
abbrev PenaltyTable := List (Nat × Gwei)

namespace PenaltyTable

/-- The table with a penalty under an index, in place of any it had. -/
def insert (index : Nat) (penalty : Gwei) : PenaltyTable → PenaltyTable
  | [] => [(index, penalty)]
  | (i, p) :: rest =>
    if index < i then (index, penalty) :: (i, p) :: rest
    else if index = i then (index, penalty) :: rest
    else (i, p) :: insert index penalty rest

end PenaltyTable

/-- What a validator with this stake pays when `slashed` of the stake `total` was slashed. -/
def proportionalPenalty (config : Config) (stake slashed : Gwei) (total : Divisor) :
    Except Failure Gwei := do
  let increment := config.effectiveBalanceIncrement
  let increments ← orFail (.violated .balanceOverflow)
    (Word.mulDivChecked (Word.div stake increment) slashed total)
  orFail .overflow (Word.mulChecked increments increment.val)

section

variable {σ : Type} [StateAccess σ]

/-- What counts as slashed: the ring's sum times the multiplier, at most the active stake. -/
def adjustedSlashings (config : Config) (total : Divisor) (s : σ) : Except Failure Gwei := do
  let sum ← (StateAccess.slashingsTotal s).mapError Failure.access
  let product ← orFail (.violated .balanceOverflow)
    (Word.mulChecked sum config.proportionalSlashingMultiplier)
  return min product total.val

/-- Charges validators in order and notes what each was charged. -/
def chargeAll (config : Config) (summary : EpochSummary) (slashed : Gwei) :
    PenaltyTable → List Nat → Action σ PenaltyTable
  | table, [] => pure table
  | table, index :: indices => do
    let status ← Action.ofExcept (summary.status index)
    let penalty ← Action.ofExcept
      (proportionalPenalty config status.validator.effectiveBalance slashed
        summary.totalActiveStake)
    debit index penalty
    chargeAll config summary slashed (table.insert index penalty) indices

/-- Charges all validators whose penalty is due. -/
def chargeSlashed (config : Config) (summary : EpochSummary) : Action σ PenaltyTable :=
  if summary.toSlash = [] then pure []
  else do
    let slashed ← Action.query fun s : σ =>
      adjustedSlashings config summary.totalActiveStake s
    chargeAll config summary slashed [] summary.toSlash

end

end Beacon
