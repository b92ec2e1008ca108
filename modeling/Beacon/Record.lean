/-
  The records that blocks carry and the registry keeps.

  Epochs, slots, balances and indices are words.  An epoch that is not yet set is
  `farFutureEpoch`, the largest one, so that "not yet" compares as later than every real epoch.
-/
import Beacon.Word
import Beacon.Hash.Merkle

namespace Beacon

abbrev Epoch := UInt64
abbrev Slot := UInt64
abbrev Gwei := UInt64

/-- The epoch that stands for "not set". -/
def farFutureEpoch : Epoch := Word.largest

/-! ## Votes -/

/-- An epoch and the block at its start. -/
structure Checkpoint where
  epoch : Epoch
  root : Root
deriving DecidableEq, Inhabited

/-- What an attester votes for. -/
structure AttestationData where
  slot : Slot
  /-- The committee's place among those of its slot. -/
  index : UInt64
  beaconBlockRoot : Root
  source : Checkpoint
  target : Checkpoint
deriving DecidableEq, Inhabited

/-- A vote with the validators who cast it and their aggregate signature. -/
structure IndexedAttestation where
  attestingIndices : List UInt64
  data : AttestationData
  signature : SignatureBytes
deriving DecidableEq, Inhabited

/-- A vote seen in a block, waiting for the end of the epoch. -/
structure PendingAttestation where
  /-- One mark for each place in the committee. -/
  aggregationBits : List Bool
  data : AttestationData
  /-- Slots from the vote to the block that included it. -/
  inclusionDelay : UInt64
  /-- The proposer of that block. -/
  proposerIndex : UInt64
deriving DecidableEq, Inhabited

/-! ## Blocks -/

/-- The header of a block. -/
structure BlockHeader where
  slot : Slot
  proposerIndex : UInt64
  parentRoot : Root
  stateRoot : Root
  bodyRoot : Root
deriving DecidableEq, Inhabited

structure SignedBlockHeader where
  message : BlockHeader
  signature : SignatureBytes
deriving DecidableEq, Inhabited

/-! ## Operations -/

/-- Two votes that contradict each other. -/
structure AttesterSlashing where
  attestation1 : IndexedAttestation
  attestation2 : IndexedAttestation
deriving DecidableEq, Inhabited

/-- Two headers that one proposer signed for one slot. -/
structure ProposerSlashing where
  signedHeader1 : SignedBlockHeader
  signedHeader2 : SignedBlockHeader
deriving DecidableEq, Inhabited

/-- The wish of a validator to leave, valid from `epoch` on. -/
structure VoluntaryExit where
  epoch : Epoch
  validatorIndex : UInt64
deriving DecidableEq, Inhabited

structure SignedVoluntaryExit where
  message : VoluntaryExit
  signature : SignatureBytes
deriving DecidableEq, Inhabited

/-! ## Forks and signing -/

/-- The version before and since the last fork, and the epoch of that fork. -/
structure Fork where
  previousVersion : Version
  currentVersion : Version
  epoch : Epoch
deriving DecidableEq, Inhabited

/-- What tells one chain from another. -/
structure ForkData where
  currentVersion : Version
  genesisValidatorsRoot : Root
deriving DecidableEq, Inhabited

/-- The root of a message, bound to what it is for. -/
structure SigningData where
  objectRoot : Root
  domain : Root
deriving DecidableEq, Inhabited

/-! ## Roots -/

instance : Chunked Checkpoint where
  chunks _ c := [Merkle.chunkOfWord c.epoch, c.root]

instance : Chunked AttestationData where
  chunks H d := [Merkle.chunkOfWord d.slot, Merkle.chunkOfWord d.index, d.beaconBlockRoot,
    treeRoot H d.source, treeRoot H d.target]

instance : Chunked BlockHeader where
  chunks _ h := [Merkle.chunkOfWord h.slot, Merkle.chunkOfWord h.proposerIndex, h.parentRoot,
    h.stateRoot, h.bodyRoot]

instance : Chunked VoluntaryExit where
  chunks _ e := [Merkle.chunkOfWord e.epoch, Merkle.chunkOfWord e.validatorIndex]

instance : Chunked ForkData where
  chunks _ f := [Merkle.chunkOfVersion f.currentVersion, f.genesisValidatorsRoot]

instance : Chunked SigningData where
  chunks _ s := [s.objectRoot, s.domain]

end Beacon
