/-
  The changes of the registry at the end of an epoch: ejections, then eligibility, then
  activations.

  Ejections fill the exit queue from where the summary found it free, as many an epoch as the
  churn limit allows.  Activations take the front of the queue of candidates, up to the limit and
  up to the first candidate that is not yet final.
-/
import Beacon.Epoch.Progress
import Beacon.Epoch.Summary

namespace Beacon

/-! ## Ejections -/

/-- The queue after one more has left at its end; a full end is passed on at once. -/
def ExitQueue.advance (queue : ExitQueue) (limit : Nat) : Except Failure ExitQueue :=
  if wordRange ≤ queue.churn + 1 then .error .overflow
  else if limit ≤ queue.churn + 1 then do
    let next ← orFail (.violated .epochOverflow) (Word.addChecked queue.last 1)
    return ⟨next, 0⟩
  else return { queue with churn := queue.churn + 1 }

section

variable {σ : Type} [StateAccess σ]

/-- Ejects validators in order; those who are leaving already are passed over. -/
def ejectAll (config : Config) (limit : Nat) : ExitQueue → List Nat → Action σ Unit
  | _, [] => pure ()
  | queue, index :: indices => do
    let validator ← Action.read fun s => StateAccess.validator s index
    if validator.isStaying then
      let withdrawableEpoch ← Action.ofExcept (withdrawableAfter config queue.last)
      Action.write (.exitEpoch index queue.last)
      Action.write (.withdrawableEpoch index withdrawableEpoch)
      let queue ← Action.ofExcept (queue.advance limit)
      ejectAll config limit queue indices
    else ejectAll config limit queue indices

/-! ## Eligibility and activation -/

/-- Makes validators eligible for activation from an epoch on. -/
def setEligibility (epoch : Epoch) : List Nat → Action σ Unit
  | [] => pure ()
  | index :: indices => do
    Action.write (.activationEligibilityEpoch index epoch)
    setEligibility epoch indices

/-- Activates candidates in order, up to the first whose eligibility is not final. -/
def activateAll (summary : EpochSummary) (finalized activation : Epoch) :
    List Nat → Action σ Unit
  | [] => pure ()
  | index :: indices => do
    let status ← Action.ofExcept (summary.status index)
    if finalized < status.validator.activationEligibilityEpoch then pure ()
    else
      Action.write (.activationEpoch index activation)
      activateAll summary finalized activation indices

/-! ## All of them -/

/-- Applies the queues of a summary. -/
def applyQueues (config : Config) (summary : EpochSummary) : Action σ Unit := do
  ejectAll config summary.churnLimit summary.exitQueue summary.toEject
  let next ← Action.ofExcept (orFail (.violated .epochOverflow)
    (Word.addChecked summary.currentEpoch 1))
  setEligibility next summary.toSetEligibility
  let finalized ← Action.view fun s : σ => (StateAccess.finalizedCheckpoint s).epoch
  let activation ← Action.ofExcept (activationExitEpoch config summary.currentEpoch)
  activateAll summary finalized activation (summary.toMaybeActivate.take summary.churnLimit)

/-- Applies the queues of a summary, after a last poll. -/
def updateRegistry (config : Config) (summary : EpochSummary) (signal : StopSignal) :
    Action (σ × Progress) Unit := do
  Action.onSecond fun _ => signal.poll
  Action.onFirst (applyQueues config summary)

end

end Beacon
