/-
  The queue of exits.

  There is no list of those who leave: the queue is what the exit epochs in the registry say.  Its
  END is the latest of them, or the first epoch an exit decided now could take effect if that is
  later; its CHURN is how many leave at the end.  A validator who leaves is put at the end, or
  into the epoch after it when the end is full (`ExitQueue.nextEpoch`).
-/
import Beacon.Registry.Churn

namespace Beacon

/-- The last epoch of the queue and how many leave in it. -/
structure ExitQueue where
  last : Epoch
  churn : Nat
deriving DecidableEq, Inhabited

namespace ExitQueue

/-- The queue after one more exit epoch has been seen. -/
def observe (queue : ExitQueue) (exitEpoch : Epoch) : ExitQueue :=
  if exitEpoch < queue.last then queue
  else if exitEpoch = queue.last then { queue with churn := queue.churn + 1 }
  else ⟨exitEpoch, 1⟩

/-- The queue that the exit epochs of a registry make up, if exits decided now take effect from
    `earliest` on.  Exit epochs that are not set do not count. -/
def ofValidators (earliest : Epoch) (validators : List Validator) : ExitQueue :=
  ((validators.map Validator.exitEpoch).filter (· != farFutureEpoch)).foldl observe ⟨earliest, 0⟩

/-- The exit epoch of the next validator who leaves. -/
def nextEpoch (queue : ExitQueue) (limit : Nat) : Except Failure Epoch :=
  if limit ≤ queue.churn then orFail (.violated .epochOverflow) (Word.addChecked queue.last 1)
  else .ok queue.last

end ExitQueue

/-- The withdrawable epoch that goes with an exit epoch. -/
def withdrawableAfter (config : Config) (exitEpoch : Epoch) : Except Failure Epoch :=
  orFail (.violated .epochOverflow)
    (Word.addChecked exitEpoch config.minValidatorWithdrawabilityDelay)

section

variable {σ : Type} [StateAccess σ]

/-- The exit epoch that a validator who leaves now would get.  The registry is read twice, for the
    queue and for the churn limit. -/
def nextExitEpoch (config : Config) (s : σ) : Except Failure Epoch := do
  let earliest ← activationExitEpoch config (currentEpoch config s)
  let validators ← readValidators s
  let limit ← registryChurnLimit config s
  (ExitQueue.ofValidators earliest validators).nextEpoch limit

/-- Puts a validator into the queue, unless it has an exit epoch already. -/
def initiateExit (config : Config) (index : Nat) : Action σ Unit := do
  let validator ← Action.read fun s => StateAccess.validator s index
  if validator.isStaying then
    let exitEpoch ← Action.query fun s : σ => nextExitEpoch config s
    let withdrawableEpoch ← Action.ofExcept (withdrawableAfter config exitEpoch)
    Action.write (.exitEpoch index exitEpoch)
    Action.write (.withdrawableEpoch index withdrawableEpoch)

end

end Beacon
