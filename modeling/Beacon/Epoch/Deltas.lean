/-
  Rewards and penalties for the votes of the previous epoch.

  There are five families of them, each a list of rewards and a list of penalties by validator.
  A validator's BASE REWARD is what one correctly voted part is worth; the proposer who included
  the vote gets a fraction of it (`proposerReward`).  In an inactivity leak a correct part earns
  the whole base reward and a penalty takes it all back, so that only proposers gain.
-/
import Beacon.Epoch.Summary

namespace Beacon

/-- Rewards and penalties of one family, by validator. -/
structure FamilyDeltas where
  rewards : Array Gwei
  penalties : Array Gwei
deriving DecidableEq, Inhabited

/-- All five families. -/
structure Deltas where
  source : FamilyDeltas
  target : FamilyDeltas
  head : FamilyDeltas
  inclusionDelay : FamilyDeltas
  inactivity : FamilyDeltas
deriving DecidableEq, Inhabited

/-! ## Adding to a family -/

/-- Adds to the entry of a validator. -/
def addAt (deltas : Array Gwei) (index : Nat) (amount : Gwei) :
    Except Failure (Array Gwei) :=
  match deltas[index]? with
  | none => .error (.violated (.notInRegistry index deltas.size))
  | some old =>
    match Word.addChecked old amount with
    | none => .error (.violated .balanceOverflow)
    | some new => .ok (deltas.modify index fun _ => new)

namespace FamilyDeltas

/-- Nothing for anybody. -/
def zero (count : Nat) : FamilyDeltas :=
  ⟨Array.replicate count 0, Array.replicate count 0⟩

def reward (deltas : FamilyDeltas) (index : Nat) (amount : Gwei) :
    Except Failure FamilyDeltas := do
  let rewards ← addAt deltas.rewards index amount
  return { deltas with rewards := rewards }

def penalize (deltas : FamilyDeltas) (index : Nat) (amount : Gwei) :
    Except Failure FamilyDeltas := do
  let penalties ← addAt deltas.penalties index amount
  return { deltas with penalties := penalties }

end FamilyDeltas

namespace Deltas

/-- Nothing for anybody. -/
def zero (count : Nat) : Deltas :=
  let none := FamilyDeltas.zero count
  ⟨none, none, none, none, none⟩

def families (deltas : Deltas) : List FamilyDeltas :=
  [deltas.source, deltas.target, deltas.head, deltas.inclusionDelay, deltas.inactivity]

/-! ## Sums over the families -/

/-- A validator's rewards and penalties in several families, added to what is given. -/
def sumAt (index : Nat) : Gwei × Gwei → List FamilyDeltas → Option (Gwei × Gwei)
  | sums, [] => some sums
  | (reward, penalty), family :: families => do
    let reward ← Word.addChecked reward (← family.rewards[index]?)
    let penalty ← Word.addChecked penalty (← family.penalties[index]?)
    sumAt index (reward, penalty) families

/-- Each validator's rewards and penalties over all families. -/
def totals (deltas : Deltas) : Except Failure (List (Gwei × Gwei)) :=
  (List.range deltas.source.rewards.size).mapM fun index =>
    orFail (.violated .balanceOverflow) (sumAt index (0, 0) deltas.families)

end Deltas

/-! ## The amounts -/

/-- What the amounts of one epoch depend on besides the validator. -/
structure RewardTerms where
  config : Config
  finalityDelay : UInt64
  inLeak : Bool
  stakeRoot : Divisor
  totalIncrements : Divisor

namespace RewardTerms

/-- The parts of a vote that earn a base reward each. -/
def baseRewardsPerEpoch : Divisor := ⟨4, by decide⟩

/-- The terms of an epoch. -/
def ofSummary {σ : Type} [StateAccess σ] (config : Config) (s : σ) (summary : EpochSummary) :
    RewardTerms where
  config := config
  finalityDelay := Beacon.finalityDelay config s
  inLeak := isLeaking config s
  stakeRoot := Word.sqrt summary.totalActiveStake
  totalIncrements :=
    Word.raiseTo (Word.div summary.totalActiveStake.val config.effectiveBalanceIncrement)
      Divisor.one

/-- What one correctly voted part is worth to a validator with this stake. -/
def baseReward (terms : RewardTerms) (stake : Gwei) : Except Failure Gwei := do
  let product ← orFail (.violated .balanceOverflow)
    (Word.mulChecked stake terms.config.baseRewardFactor)
  return Word.div (Word.div product terms.stakeRoot) baseRewardsPerEpoch

/-- What the proposer who included a vote gets out of its base reward. -/
def proposerReward (terms : RewardTerms) (base : Gwei) : Gwei :=
  Word.div base terms.config.proposerRewardQuotient

/-- The reward for a part that stake `attesting` in all voted correctly. -/
def componentReward (terms : RewardTerms) (base : Gwei) (attesting : Divisor) :
    Except Failure Gwei :=
  if terms.inLeak then .ok base
  else
    orFail (.violated .balanceOverflow)
      (Word.mulDivChecked base
        (Word.div attesting.val terms.config.effectiveBalanceIncrement) terms.totalIncrements)

/-- The penalty that takes back all rewards of a perfect vote in a leak. -/
def cancelingPenalty (terms : RewardTerms) (base : Gwei) : Except Failure Gwei := do
  let all ← orFail (.violated .balanceOverflow) (Word.mulChecked base baseRewardsPerEpoch.val)
  orFail .overflow (Word.subChecked all (terms.proposerReward base))

/-- The further penalty in a leak for not having voted for the target. -/
def inactivityPenalty (terms : RewardTerms) (stake : Gwei) : Except Failure Gwei :=
  orFail (.violated .balanceOverflow)
    (Word.mulDivChecked stake terms.finalityDelay terms.config.inactivityPenaltyQuotient)

/-! ## What each validator gets -/

/-- A reward for a part that was voted correctly, a penalty of the base reward otherwise. -/
def settlePart (terms : RewardTerms) (index : Nat) (base : Gwei) (correct : Bool)
    (attesting : Divisor) (deltas : FamilyDeltas) : Except Failure FamilyDeltas :=
  if correct then do
    deltas.reward index (← terms.componentReward base attesting)
  else deltas.penalize index base

/-- The penalties of a leak. -/
def settleInactivity (terms : RewardTerms) (index : Nat) (base : Gwei) (status : AttesterStatus)
    (deltas : FamilyDeltas) : Except Failure FamilyDeltas := do
  let deltas ← deltas.penalize index (← terms.cancelingPenalty base)
  if status.previous.target && status.unslashed then return deltas
  else
    deltas.penalize index (← terms.inactivityPenalty status.validator.effectiveBalance)

/-- The rewards for a vote that was included: the proposer's, and the attester's share by the
    delay. -/
def settleInclusion (terms : RewardTerms) (index : Nat) (base : Gwei) (inclusion : Inclusion)
    (deltas : FamilyDeltas) : Except Failure FamilyDeltas := do
  let share ← orFail .overflow (Word.subChecked base (terms.proposerReward base))
  let deltas ← deltas.reward inclusion.proposerIndex (terms.proposerReward base)
  deltas.reward index (Word.div share inclusion.delay)

/-- The families with what one validator's status calls for. -/
def settle (terms : RewardTerms) (stakes : PreviousStakes) (deltas : Deltas) (index : Nat)
    (status : AttesterStatus) : Except Failure Deltas := do
  let base ← terms.baseReward status.validator.effectiveBalance
  let deltas ←
    if status.eligible then do
      let voted := status.previous
      let source ← terms.settlePart index base (voted.source && status.unslashed) stakes.source
        deltas.source
      let target ← terms.settlePart index base (voted.target && status.unslashed) stakes.target
        deltas.target
      let head ← terms.settlePart index base (voted.head && status.unslashed) stakes.head
        deltas.head
      let inactivity ←
        if terms.inLeak then terms.settleInactivity index base status deltas.inactivity
        else pure deltas.inactivity
      pure { deltas with
        source := source, target := target, head := head, inactivity := inactivity }
    else pure deltas
  if status.previous.source && status.unslashed then
    match status.inclusion with
    | some inclusion =>
      let inclusionDelay ← terms.settleInclusion index base inclusion deltas.inclusionDelay
      return { deltas with inclusionDelay := inclusionDelay }
    | none => return deltas
  else return deltas

/-- The families with what the statuses from a position on call for. -/
def settleFrom (terms : RewardTerms) (stakes : PreviousStakes) :
    Nat → Deltas → List AttesterStatus → Except Failure Deltas
  | _, deltas, [] => .ok deltas
  | index, deltas, status :: statuses => do
    let deltas ← terms.settle stakes deltas index status
    settleFrom terms stakes (index + 1) deltas statuses

end RewardTerms

/-- Rewards and penalties for an epoch that was summed up. -/
def EpochSummary.deltas {σ : Type} [StateAccess σ] (config : Config) (s : σ) (summary : EpochSummary) :
    Except Failure Deltas :=
  (RewardTerms.ofSummary config s summary).settleFrom summary.previousStakes 0
    (Deltas.zero summary.statuses.size) summary.statuses.toList

end Beacon
