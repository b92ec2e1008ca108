/-
  Balances, and the slashing of a validator.

  A slashed validator leaves through the exit queue, cannot withdraw until its slashing has gone
  round the ring, pays a penalty at once, and its stake is noted in the ring.  The proposer who
  included the evidence and the whistleblower share a reward; without a whistleblower the proposer
  gets all of it.
-/
import Beacon.Registry.ExitQueue

namespace Beacon

section

variable {σ : Type} [StateAccess σ]

/-! ## Balances -/

/-- Adds to a balance. -/
def credit (index : Nat) (amount : Gwei) : Action σ Unit := do
  let balance ← Action.read fun s => StateAccess.balance s index
  let balance ← Action.ofExcept (orFail (.violated .balanceOverflow)
    (Word.addChecked balance amount))
  Action.write (.balance index balance)

/-- Takes from a balance, at most all of it. -/
def debit (index : Nat) (amount : Gwei) : Action σ Unit := do
  let balance ← Action.read fun s => StateAccess.balance s index
  Action.write (.balance index (Word.subSaturating balance amount))

/-! ## Slashing -/

/-- What a slashed validator pays at once. -/
def slashingPenalty (config : Config) (effectiveBalance : Gwei) : Gwei :=
  Word.div effectiveBalance config.minSlashingPenaltyQuotient

/-- What bringing in the evidence is worth. -/
def whistleblowerReward (config : Config) (effectiveBalance : Gwei) : Gwei :=
  Word.div effectiveBalance config.whistleblowerRewardQuotient

/-- The proposer's part of that. -/
def slashingProposerReward (config : Config) (effectiveBalance : Gwei) : Gwei :=
  Word.div (whistleblowerReward config effectiveBalance) config.proposerRewardQuotient

/-- Slashes a validator and pays the rewards. -/
def slash (config : Config) (slashed proposer : Nat) (whistleblower : Option Nat) :
    Action σ Unit := do
  initiateExit config slashed
  let epoch ← Action.view fun s : σ => currentEpoch config s
  let validator ← Action.read fun s => StateAccess.validator s slashed
  let ringEnd ← Action.ofExcept (orFail (.violated .epochOverflow)
    (Word.addChecked epoch config.epochsPerSlashingsVector.val))
  let stake := validator.effectiveBalance
  Action.write (.slashed slashed true)
  Action.write (.withdrawableEpoch slashed (max ringEnd validator.withdrawableEpoch))
  Action.write (.slashing epoch stake)
  debit slashed (slashingPenalty config stake)
  let rest ← Action.ofExcept (orFail .overflow
    (Word.subChecked (whistleblowerReward config stake) (slashingProposerReward config stake)))
  credit proposer (slashingProposerReward config stake)
  credit (whistleblower.getD proposer) rest

end

end Beacon
