/-
  The end of an epoch as a whole: sum up, update the registry, charge the slashed.

  Rewards and penalties for votes are computed from the summary and left to the caller to apply.
-/
import Beacon.Epoch.Collect
import Beacon.Epoch.Deltas
import Beacon.Epoch.Penalties
import Beacon.Epoch.RegistryUpdates

namespace Beacon

/-- All that the end of an epoch computes. -/
structure EpochAccount where
  summary : EpochSummary
  deltas : Deltas
  penalties : PenaltyTable
deriving DecidableEq, Inhabited

section

variable {σ : Type} [StateAccess σ]

/-- Ends the epoch; gives the summary and the penalties that were charged. -/
def closeEpoch (config : Config) (committees : Committees) (signal : StopSignal) :
    Action (σ × Progress) (EpochSummary × PenaltyTable) := do
  let summary ← Action.onSecond fun s => Collect.summarize config s committees signal
  updateRegistry config summary signal
  let penalties ← Action.onFirst (chargeSlashed config summary)
  return (summary, penalties)

/-- Ends the epoch and gives its summary. -/
def endEpoch (config : Config) (committees : Committees) (signal : StopSignal) :
    Action (σ × Progress) EpochSummary := do
  let (summary, _) ← closeEpoch config committees signal
  return summary

/-- Ends the epoch and gives all that was computed. -/
def accountForEpoch (config : Config) (committees : Committees) (signal : StopSignal) :
    Action (σ × Progress) EpochAccount := do
  let (summary, penalties) ← closeEpoch config committees signal
  let deltas ← Action.onFirst (Action.query fun s : σ => summary.deltas config s)
  return ⟨summary, deltas, penalties⟩

end

end Beacon
