/-
  Proposer slashings: two different headers that one proposer signed for one slot.
-/
import Beacon.Hash.Sha256
import Beacon.KeyCache
import Beacon.Registry.Slash
import Beacon.Signature.Check
import Beacon.Signature.Domain

namespace Beacon

/-- The check of a proposer's signature on a header. -/
def SignedBlockHeader.signatureCheck {σ κ : Type} [StateAccess σ] (config : Config) (s : σ)
    (key : κ) (signed : SignedBlockHeader) : SignatureCheck κ where
  kind := Signable.kind BlockHeader
  message := signingRoot Sha256.hashPair config s signed.message
  signature := signed.signature
  signers := .one key

namespace ProposerSlashing

variable {σ κ ω : Type} [StateAccess σ]

/-- The validator that the evidence is about. -/
def accused (slashing : ProposerSlashing) : Nat :=
  slashing.signedHeader1.message.proposerIndex.toNat

/-- The rules for the evidence that need no signature: one slot, one proposer, two headers, and a
    proposer who is known and can be slashed. -/
def checkHeaders (config : Config) (s : σ) (slashing : ProposerSlashing) :
    Except Failure Unit := do
  let header1 := slashing.signedHeader1.message
  let header2 := slashing.signedHeader2.message
  let index := slashing.accused
  let count := StateAccess.validatorCount s
  ensure (header1.slot == header2.slot) (.rejected (.slotsDiffer header1.slot header2.slot))
  ensure (header1.proposerIndex == header2.proposerIndex)
    (.rejected (.proposersDiffer header1.proposerIndex header2.proposerIndex))
  ensure (header1 != header2) (.rejected (.headersIdentical header1))
  ensure (index < count) (.rejected (.outsideRegistry index count))
  let proposer ← (StateAccess.validator s index).mapError Failure.access
  ensure (proposer.isSlashable (currentEpoch config s))
    (.rejected (.proposerNotSlashable index proposer))

/-- All rules for a proposer slashing; the first header's signature is checked first. -/
def check (config : Config) (s : σ) (cache : KeyCache κ) (verifier : Verifier κ ω)
    (slashing : ProposerSlashing) : Action ω Unit := do
  Action.ofExcept (slashing.checkHeaders config s)
  let key ← Action.ofExcept (cache.require slashing.accused)
  verifier.check (slashing.signedHeader1.signatureCheck config s key)
  verifier.check (slashing.signedHeader2.signatureCheck config s key)

/-- Checks a proposer slashing in a block of `proposer` and slashes the one it accuses. -/
def enact (config : Config) (cache : KeyCache κ) (verifier : Verifier κ ω)
    (slashing : ProposerSlashing) (proposer : Nat) : Action (σ × ω) Unit := do
  Action.onSecond fun s => slashing.check config s cache verifier
  Action.onFirst (slash config slashing.accused proposer none)

end ProposerSlashing

end Beacon
