/-
  Slots, epochs, and where a state stands in them.

  An epoch is a fixed number of slots.  A decision taken in an epoch takes effect only after the
  look-ahead (`activationExitEpoch`), so the validators active in the epochs just ahead are known.
-/
import Beacon.State.Access

namespace Beacon

/-! ## Slots and epochs -/

/-- The epoch a slot lies in. -/
def epochAtSlot (config : Config) (slot : Slot) : Epoch := Word.div slot config.slotsPerEpoch

/-- The first slot of an epoch, or the last slot there is. -/
def startSlot (config : Config) (epoch : Epoch) : Slot :=
  Word.mulSaturating epoch config.slotsPerEpoch.val

/-- The epoch in which an activation or exit decided in `epoch` takes effect. -/
def activationExitEpoch (config : Config) (epoch : Epoch) : Except Failure Epoch :=
  orFail (.violated .epochOverflow)
    ((Word.addChecked epoch 1).bind fun next => Word.addChecked next config.maxSeedLookahead)

/-! ## The time of a state -/

section

variable {σ : Type} [StateAccess σ]

/-- The epoch a state is in. -/
def currentEpoch (config : Config) (s : σ) : Epoch := epochAtSlot config (StateAccess.slot s)

/-- The epoch before it; the first epoch counts as its own predecessor. -/
def previousEpoch (config : Config) (s : σ) : Epoch :=
  Word.subSaturating (currentEpoch config s) 1

/-- The previous or the current epoch of a state. -/
def recentEpoch (config : Config) (s : σ) : RecentEpoch → Epoch
  | .previous => previousEpoch config s
  | .current => currentEpoch config s

/-- Epochs that the finalized checkpoint is behind the previous epoch. -/
def finalityDelay (config : Config) (s : σ) : UInt64 :=
  Word.subSaturating (previousEpoch config s) (StateAccess.finalizedCheckpoint s).epoch

/-- Has finality been missing for too long? -/
def isLeaking (config : Config) (s : σ) : Bool :=
  config.minEpochsToInactivityPenalty < finalityDelay config s

/-! ## Roots of past blocks -/

/-- The root of the block at a slot, if the slot is past and still covered by the ring. -/
def blockRootAtSlot (config : Config) (s : σ) (slot : Slot) : Except Failure Root :=
  let now := StateAccess.slot s
  if slot < now ∧ now ≤ Word.addSaturating slot config.slotsPerHistoricalRoot.val then
    (StateAccess.blockRootEntry s slot).mapError Failure.access
  else .error (.access (.slotOutOfRange slot))

/-- The root of the block at the start of the previous or current epoch. -/
def blockRoot (config : Config) (s : σ) (epoch : RecentEpoch) : Except Failure Root :=
  blockRootAtSlot config s (startSlot config (recentEpoch config s epoch))

end

end Beacon
