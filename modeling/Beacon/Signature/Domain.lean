/-
  What a signature is made on.

  A signing root binds a message to what it is for and to the chain it is meant for: the message's
  root is hashed together with a DOMAIN, four bytes for the kind of message followed by the front
  of the root of the fork version and the genesis root.  All of it takes the hash of a pair as a
  parameter.
-/
import Beacon.Time

namespace Beacon

/-! ## Domains -/

/-- The root that tells one fork of one chain from another. -/
def forkDataRoot (H : PairHash) (version : Version) (genesisValidatorsRoot : Root) : Root :=
  treeRoot H (ForkData.mk version genesisValidatorsRoot)

/-- The domain of a kind of message: its four bytes, then twenty-eight bytes of the fork's root.
    The version is the configured genesis version and the genesis root zero unless given. -/
def domainFor (H : PairHash) (config : Config) (domainType : Version)
    (version : Option Version) (genesisValidatorsRoot : Option Root) : Root :=
  let root := forkDataRoot H (version.getD config.genesisForkVersion)
    (genesisValidatorsRoot.getD Merkle.zeroChunk)
  (domainType ++ root.take 28 : Vector UInt8 (4 + min 28 32))

/-- The domain of a kind of message in an epoch, the current one unless given: the fork decides
    whether the version before or since it holds. -/
def domainAt {σ : Type} [StateAccess σ] (H : PairHash) (config : Config) (s : σ)
    (domainType : Version) (epoch : Option Epoch) : Root :=
  let fork := StateAccess.fork s
  let version :=
    if epoch.getD (currentEpoch config s) < fork.epoch then fork.previousVersion
    else fork.currentVersion
  domainFor H config domainType (some version) (some (StateAccess.genesisValidatorsRoot s))

/-- The root of a message within a domain. -/
def rootInDomain {α : Type} [Chunked α] (H : PairHash) (message : α) (domain : Root) :
    Root :=
  treeRoot H (SigningData.mk (treeRoot H message) domain)

/-! ## Messages that are signed -/

/-- Messages signed under a domain that depends on the epoch they belong to. -/
class Signable (α : Type) extends Chunked α where
  domainType : Version
  kind : SignatureKind
  epoch : Config → α → Epoch

instance : Signable AttestationData where
  domainType := #v[1, 0, 0, 0]
  kind := .attestation
  epoch _ data := data.target.epoch

instance : Signable BlockHeader where
  domainType := Bytes.zero 4
  kind := .block
  epoch config header := epochAtSlot config header.slot

instance : Signable VoluntaryExit where
  domainType := #v[4, 0, 0, 0]
  kind := .voluntaryExit
  epoch _ exit := exit.epoch

/-- What a signature of a message is made on, in a chain at a state. -/
def signingRoot {α σ : Type} [Signable α] [StateAccess σ] (H : PairHash) (config : Config)
    (s : σ) (message : α) : Root :=
  rootInDomain H message
    (domainAt H config s (Signable.domainType α) (some (Signable.epoch config message)))

end Beacon
