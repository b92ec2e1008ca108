/-
  Summing up an epoch.

  Three passes over the state: the registry, the votes for the previous epoch, the votes for the
  current one.  The registry is read validator by validator with the active stake added up on the
  way; everything else about it follows from the list of validators.  A vote marks every
  participant of its committee.  Each pass polls the cancellation signal at fixed distances.
-/
import Beacon.Epoch.Progress
import Beacon.Epoch.Summary
import Beacon.State.Memory

namespace Beacon.Collect

/-- Validators between two polls. -/
def validatorsPerPoll : Nat := 1024

/-- Votes between two polls. -/
def votesPerPoll : Nat := 32

/-! ## The registry -/

/-- Reads validators from a position on; gives them and the active stake added to `total`. -/
def readRegistry (signal : StopSignal) (current : Epoch) :
    Nat → Gwei → List (Except AccessError Validator) → Action Progress (List Validator × Gwei)
  | _, total, [] => pure ([], total)
  | position, total, item :: items => do
    Progress.noteValidator
    signal.pollEvery validatorsPerPoll position
    let validator ← Action.ofExcept (item.mapError Failure.access)
    let total ←
      if validator.isActive current then
        Action.ofExcept (orFail (.violated .balanceOverflow)
          (Word.addChecked total validator.effectiveBalance))
      else pure total
    let (validators, total) ← readRegistry signal current (position + 1) total items
    return (validator :: validators, total)

/-- The status of a validator before any vote is counted. -/
def initialStatus (previous current : Epoch) (v : Validator) : AttesterStatus where
  validator := v
  unslashed := !v.slashed
  eligible := v.isAccountable previous
  previous := Votes.none
  current := Votes.none
  active := v.isActive current
  inclusion := none

/-- The indices of validators with a property, in order. -/
def indicesWhere (p : Validator → Bool) (validators : List Validator) : List Nat :=
  (validators.zipIdx.filter fun (v, _) => p v).map Prod.snd

/-- Is the validator's proportional slashing penalty due? -/
def isDueForPenalty (penaltyEpoch : Epoch) (v : Validator) : Bool :=
  v.slashed && v.withdrawableEpoch == penaltyEpoch

/-- Is the validator waiting for its activation? -/
def isActivationCandidate (current : Epoch) (v : Validator) : Bool :=
  v.activationEpoch == farFutureEpoch && v.activationEligibilityEpoch ≤ current

/-- Has the validator too little stake to stay? -/
def isEjectable (config : Config) (current : Epoch) (v : Validator) : Bool :=
  v.isActive current && v.effectiveBalance ≤ config.ejectionBalance && v.isStaying

/-- Does the first of two candidates for activation come first? -/
def precedes (a b : Epoch × Nat) : Bool := a.1 < b.1 || (a.1 == b.1 && a.2 ≤ b.2)

/-- The candidates for activation by eligibility epoch and then by index. -/
def activationQueue (current : Epoch) (validators : List Validator) : List Nat :=
  let candidates := validators.zipIdx.filter fun (v, _) => isActivationCandidate current v
  ((candidates.map fun (v, index) => (v.activationEligibilityEpoch, index)).mergeSort
    precedes).map Prod.snd

/-- Where ejections begin: the first epoch an exit can take effect, or the one after it if as many
    as the limit leave then already. -/
def firstFreeExit (config : Config) (current : Epoch) (limit : Nat) (validators : List Validator) :
    Except Failure ExitQueue := do
  let earliest ← activationExitEpoch config current
  let leaving := validators.countP fun v => v.exitEpoch == earliest
  if limit ≤ leaving then
    let next ← orFail (.violated .epochOverflow) (Word.addChecked earliest 1)
    return ⟨next, 0⟩
  else return ⟨earliest, leaving⟩

/-! ## Votes -/

/-- What a vote in a block amounts to for each of its participants. -/
structure CountedVote where
  epoch : RecentEpoch
  matchesTarget : Bool
  matchesHead : Bool
  /-- Only votes for the previous epoch are paid for their inclusion. -/
  inclusion : Option Inclusion

/-- The faster of an inclusion known before and another one; of equally fast ones the first. -/
def fasterInclusion (known new : Option Inclusion) : Option Inclusion :=
  match known, new with
  | known, none => known
  | none, some new => some new
  | some known, some new => if new.delay.val < known.delay.val then some new else some known

/-- Marks with one more vote. -/
def markVotes (votes : Votes) (vote : CountedVote) : Votes where
  source := true
  target := votes.target || vote.matchesTarget
  head := votes.head || (vote.matchesTarget && vote.matchesHead)

/-- A status with one more vote. -/
def markStatus (vote : CountedVote) (status : AttesterStatus) : AttesterStatus :=
  match vote.epoch with
  | .previous =>
    { status with
      previous := markVotes status.previous vote
      inclusion := fasterInclusion status.inclusion vote.inclusion }
  | .current => { status with current := markVotes status.current vote }

/-- Statuses with a vote of these participants. -/
def markAll (vote : CountedVote) (statuses : Array AttesterStatus) :
    List Nat → Except Failure (Array AttesterStatus)
  | [] => .ok statuses
  | index :: indices =>
    if index < statuses.size then
      markAll vote (statuses.modify index (markStatus vote)) indices
    else .error (.violated (.notInRegistry index statuses.size))

/-- The members of a committee whose bits are set. -/
def participants (committee : List Nat) (bits : List Bool) : List Nat :=
  ((committee.zip bits).filter Prod.snd).map Prod.fst

/-- The inclusion of a vote; one for the previous epoch needs a delay. -/
def inclusionOf (epoch : RecentEpoch) (vote : PendingAttestation) :
    Except Failure (Option Inclusion) :=
  match epoch with
  | .current => .ok none
  | .previous =>
    match Divisor.ofWord? vote.inclusionDelay with
    | some delay => .ok (some ⟨delay, vote.proposerIndex.toNat⟩)
    | none => .error (.violated (.inclusionDelayZero vote.data.slot))

section

variable {σ : Type} [StateAccess σ]

/-- Counts votes from a position on. -/
def countVotes (config : Config) (s : σ) (committees : Committees) (signal : StopSignal)
    (epoch : RecentEpoch) (boundaryRoot : Root) :
    Nat → Array AttesterStatus → List (Except AccessError PendingAttestation) →
      Action Progress (Array AttesterStatus)
  | _, statuses, [] => pure statuses
  | position, statuses, item :: items => do
    signal.pollEvery votesPerPoll position
    let vote ← Action.ofExcept (item.mapError Failure.access)
    let headRoot ← Action.ofExcept (blockRootAtSlot config s vote.data.slot)
    let committee ← Progress.committee committees vote.data.slot vote.data.index
    Action.ofExcept (ensure (vote.aggregationBits.length == committee.length)
      (.violated (.committeeLengthMismatch vote.aggregationBits.length committee.length)))
    let inclusion ← Action.ofExcept (inclusionOf epoch vote)
    let counted : CountedVote := {
      epoch := epoch
      matchesTarget := vote.data.target.root == boundaryRoot
      matchesHead := vote.data.beaconBlockRoot == headRoot
      inclusion := inclusion }
    let statuses ← Action.ofExcept
      (markAll counted statuses (participants committee vote.aggregationBits))
    countVotes config s committees signal epoch boundaryRoot (position + 1) statuses items

/-- Counts all votes for an epoch. -/
def countEpoch (config : Config) (s : σ) (committees : Committees) (signal : StopSignal)
    (statuses : Array AttesterStatus) (epoch : RecentEpoch) :
    Action Progress (Array AttesterStatus) := do
  let boundaryRoot ← Action.ofExcept (blockRoot config s epoch)
  countVotes config s committees signal epoch boundaryRoot 0 statuses
    (StateAccess.attestations s epoch)

/-! ## Stakes -/

/-- The stake of the unslashed among those with a property, at least one increment. -/
def stakeWhere (config : Config) (statuses : Array AttesterStatus)
    (p : AttesterStatus → Bool) : Except Failure Divisor :=
  let stakes := (statuses.toList.filter fun status => status.unslashed && p status).map
    fun status => status.validator.effectiveBalance
  orFail (.violated .balanceOverflow)
    ((State.sumChecked 0 stakes).map (Word.raiseTo · config.effectiveBalanceIncrement))

/-! ## All of it -/

/-- Sums up the epoch a state is in. -/
def summarize (config : Config) (s : σ) (committees : Committees) (signal : StopSignal) :
    Action Progress EpochSummary := do
  let previous := previousEpoch config s
  let current := currentEpoch config s
  let penaltyEpoch ← Action.ofExcept (orFail (.violated .epochOverflow)
    (Word.addChecked current config.penaltyOffset))
  let (validators, activeStake) ←
    readRegistry signal current 0 0 (StateAccess.validators s)
  let active := validators.countP fun v => v.isActive current
  let limit := churnLimit config active
  let exitQueue ← Action.ofExcept (firstFreeExit config current limit validators)
  let statuses := (validators.map (initialStatus previous current)).toArray
  let statuses ← countEpoch config s committees signal statuses .previous
  let statuses ← countEpoch config s committees signal statuses .current
  let source ← Action.ofExcept (stakeWhere config statuses fun st => st.previous.source)
  let target ← Action.ofExcept (stakeWhere config statuses
    fun st => st.previous.source && st.previous.target)
  let head ← Action.ofExcept (stakeWhere config statuses
    fun st => st.previous.source && st.previous.target && st.previous.head)
  let currentTarget ← Action.ofExcept
    (stakeWhere config statuses fun st => st.current.target)
  return {
    previousEpoch := previous
    currentEpoch := current
    statuses := statuses
    totalActiveStake := Word.raiseTo activeStake config.effectiveBalanceIncrement
    previousStakes := ⟨source, target, head⟩
    currentTargetStake := currentTarget
    activeValidators := active
    toSlash := indicesWhere (isDueForPenalty penaltyEpoch) validators
    toSetEligibility := indicesWhere (Validator.entersQueue config) validators
    toMaybeActivate := activationQueue current validators
    toEject := indicesWhere (isEjectable config current) validators
    exitQueue := exitQueue
    churnLimit := limit }

end

end Beacon.Collect
