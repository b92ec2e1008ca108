/-
  Voluntary exits: a validator asks to leave.

  The rules are asked in a fixed order, and the signature last; a validator who may leave is put
  into the exit queue.
-/
import Beacon.Hash.Sha256
import Beacon.KeyCache
import Beacon.Registry.ExitQueue
import Beacon.Signature.Check
import Beacon.Signature.Domain

namespace Beacon

section

variable {σ κ ω : Type} [StateAccess σ]

/-- The rules for an exit that need no signature: the validator is known and active, has not left,
    the exit is valid by now, and the validator has served long enough. -/
def VoluntaryExit.checkRules (config : Config) (s : σ) (exit : VoluntaryExit) :
    Except Failure Unit := do
  let index := exit.validatorIndex.toNat
  let count := StateAccess.validatorCount s
  let current := currentEpoch config s
  ensure (index < count) (.rejected (.outsideRegistry index count))
  let validator ← (StateAccess.validator s index).mapError Failure.access
  ensure (validator.isActive current) (.rejected (.notActive index validator current))
  ensure validator.isStaying (.rejected (.alreadyExited index validator.exitEpoch))
  ensure (exit.epoch ≤ current) (.rejected (.exitNotYetValid current exit.epoch))
  let served ← orFail (.violated .epochOverflow)
    (Word.addChecked validator.activationEpoch config.shardCommitteePeriod)
  ensure (served ≤ current)
    (.rejected (.notActiveLongEnough index validator.activationEpoch current))

/-- All rules for a signed exit. -/
def SignedVoluntaryExit.check (config : Config) (s : σ) (cache : KeyCache κ)
    (verifier : Verifier κ ω) (signed : SignedVoluntaryExit) : Action ω Unit := do
  Action.ofExcept (signed.message.checkRules config s)
  let key ← Action.ofExcept (cache.require signed.message.validatorIndex.toNat)
  verifier.check {
    kind := Signable.kind VoluntaryExit
    message := signingRoot Sha256.hashPair config s signed.message
    signature := signed.signature
    signers := .one key }

/-- Checks a signed exit and puts its validator into the exit queue. -/
def SignedVoluntaryExit.enact (config : Config) (cache : KeyCache κ) (verifier : Verifier κ ω)
    (signed : SignedVoluntaryExit) : Action (σ × ω) Unit := do
  Action.onSecond fun s => signed.check config s cache verifier
  Action.onFirst (initiateExit config signed.message.validatorIndex.toNat)

end

end Beacon
