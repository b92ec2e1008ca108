/-
  What a signing root binds.

  Whoever finds one signature good for two messages has two messages with one signing root.  They
  then have a collision of the hash, among the pairs that are hashed on the way to the two roots
  (`signingPairs`), and nothing is supposed of the hash for this.

  The pairs come in three parts: those of the fork data, of the message, and of the two roots
  put together.  Without a collision the last part gives the root of the message and the domain.
  The root gives the message.  The domain gives the kind of the message: its first four bytes are
  those of the domain type, before what is left of the fork's root.
-/
import Beacon.Proofs.Hash.Collisions
import Beacon.Signature.Domain
import Beacon.State.Memory

namespace Beacon

/-! ## Domains -/

/-- What the domain of an epoch is made from: the version of the fork that holds then, and the
    genesis root. -/
def forkDataAt {σ : Type} [StateAccess σ] (s : σ) (epoch : Epoch) : ForkData :=
  let fork := StateAccess.fork s
  ⟨if epoch < fork.epoch then fork.previousVersion else fork.currentVersion,
    StateAccess.genesisValidatorsRoot s⟩

section

variable {σ τ : Type} [StateAccess σ] [StateAccess τ] {H : PairHash} {config config' : Config}
  {s : σ} {t : τ}

theorem domainAt_eq (domainType : Version) (epoch : Epoch) :
    domainAt H config s domainType (some epoch) =
      (domainType ++ (treeRoot H (forkDataAt s epoch)).take 28 : Vector UInt8 (4 + min 28 32)) :=
  rfl

/-- A domain tells what type it is of. -/
theorem domainType_inj {domainType domainType' : Version} {epoch epoch' : Epoch}
    (h : domainAt H config s domainType (some epoch) =
      domainAt H config' t domainType' (some epoch')) : domainType = domainType' := by
  rw [domainAt_eq, domainAt_eq] at h
  exact (Vector.append_inj h).1

/-- The root of a fork is all that a domain takes from the hash. -/
theorem domainAt_congr {H' : PairHash} (domainType : Version) (epoch : Epoch)
    (h : ∀ p ∈ treePairs H (forkDataAt s epoch), H' p.1 p.2 = H p.1 p.2) :
    domainAt H' config s domainType (some epoch) = domainAt H config s domainType (some epoch) := by
  rw [domainAt_eq, domainAt_eq, treeRoot_congr _ h]

end

/-! ## Messages of one type -/

section

variable {α β σ τ : Type} [Signable α] [Signable β] [StateAccess σ] [StateAccess τ]
  {H : PairHash} {config config' : Config} {s : σ} {t : τ}

/-- The root of a message and its domain. -/
def signingDataOf (H : PairHash) (config : Config) (s : σ) (message : α) : SigningData :=
  ⟨treeRoot H message,
    domainAt H config s (Signable.domainType α) (some (Signable.epoch config message))⟩

theorem signingRoot_eq (message : α) :
    signingRoot H config s message = treeRoot H (signingDataOf H config s message) := rfl

/-- Two chunks make one round: the root of the message and the domain are hashed together. -/
theorem signingRoot_eq_hash (message : α) :
    signingRoot H config s message =
      H (signingDataOf H config s message).objectRoot (signingDataOf H config s message).domain := by
  rw [signingRoot_eq, treeRoot, merkleRoot]
  simp only [Chunked.chunks, Merkle.rootOfLayer, Merkle.pairUp]

variable [Committing α] [Committing β]

/-- The pairs hashed on the way to a signing root. -/
def signingPairs (H : PairHash) (config : Config) (s : σ) (message : α) : List (Root × Root) :=
  treePairs H (forkDataAt s (Signable.epoch config message)) ++ treePairs H message ++
    treePairs H (signingDataOf H config s message)

/-- A signing root depends on the hashes of the listed pairs only. -/
theorem signingRoot_congr {H' : PairHash} (message : α)
    (h : ∀ p ∈ signingPairs H config s message, H' p.1 p.2 = H p.1 p.2) :
    signingRoot H' config s message = signingRoot H config s message := by
  have hdomain : domainAt H' config s (Signable.domainType α) (some (Signable.epoch config message))
      = domainAt H config s (Signable.domainType α) (some (Signable.epoch config message)) :=
    domainAt_congr _ _ fun p hp => h p (List.mem_append_left _ (List.mem_append_left _ hp))
  have hmessage : treeRoot H' message = treeRoot H message :=
    treeRoot_congr message fun p hp => h p (List.mem_append_left _ (List.mem_append_right _ hp))
  have hdata : signingDataOf H' config s message = signingDataOf H config s message := by
    unfold signingDataOf
    rw [hdomain, hmessage]
  rw [signingRoot_eq, signingRoot_eq, hdata]
  exact treeRoot_congr _ fun p hp => h p (List.mem_append_right _ hp)

/-- Equal signing roots are of messages with equal roots in equal domains, or two of the pairs
    hashed collide. -/
theorem signingData_or_collides {a : α} {b : β}
    (h : signingRoot H config s a = signingRoot H config' t b) :
    signingDataOf H config s a = signingDataOf H config' t b ∨
      Collides H (signingPairs H config s a ++ signingPairs H config' t b) := by
  rw [signingRoot_eq, signingRoot_eq] at h
  rcases eq_or_collides_of_treeRoot h with hdata | hcollides
  · exact Or.inl hdata
  · refine Or.inr (hcollides.widen ?_ ?_)
    · exact List.subset_append_right _ _
    · exact List.subset_append_right _ _

/-- Messages of one type with equal signing roots are equal, or two of the pairs hashed collide. -/
theorem eq_or_collides_of_signingRoot {a b : α}
    (h : signingRoot H config s a = signingRoot H config' t b) :
    a = b ∨ Collides H (signingPairs H config s a ++ signingPairs H config' t b) := by
  rcases signingData_or_collides h with hdata | hcollides
  · have hroot : treeRoot H a = treeRoot H b := congrArg SigningData.objectRoot hdata
    rcases eq_or_collides_of_treeRoot hroot with heq | hcollides
    · exact Or.inl heq
    · refine Or.inr (hcollides.widen ?_ ?_)
      · exact List.subset_append_of_subset_left _ (List.subset_append_right _ _)
      · exact List.subset_append_of_subset_left _ (List.subset_append_right _ _)
  · exact Or.inr hcollides

/-- Messages whose types have different domains: equal signing roots are a collision. -/
theorem collides_of_domainType_ne {a : α} {b : β}
    (htypes : Signable.domainType α ≠ Signable.domainType β)
    (h : signingRoot H config s a = signingRoot H config' t b) :
    Collides H (signingPairs H config s a ++ signingPairs H config' t b) := by
  rcases signingData_or_collides h with hdata | hcollides
  · exact absurd (domainType_inj (congrArg SigningData.domain hdata)) htypes
  · exact hcollides

end

/-! ## Messages of all types -/

/-- A message of one of the types that are signed. -/
inductive Message where
  | attestation (data : AttestationData)
  | block (header : BlockHeader)
  | voluntaryExit (exit : VoluntaryExit)
deriving DecidableEq

namespace Message

variable {σ τ : Type} [StateAccess σ] [StateAccess τ]

/-- What a signature of the message is made on. -/
def signingRoot (H : PairHash) (config : Config) (s : σ) : Message → Root
  | attestation data => Beacon.signingRoot H config s data
  | block header => Beacon.signingRoot H config s header
  | voluntaryExit exit => Beacon.signingRoot H config s exit

/-- The pairs hashed for it. -/
def signingPairs (H : PairHash) (config : Config) (s : σ) : Message → List (Root × Root)
  | attestation data => Beacon.signingPairs H config s data
  | block header => Beacon.signingPairs H config s header
  | voluntaryExit exit => Beacon.signingPairs H config s exit

theorem signingRoot_congr {H H' : PairHash} {config : Config} {s : σ} (m : Message)
    (h : ∀ p ∈ m.signingPairs H config s, H' p.1 p.2 = H p.1 p.2) :
    m.signingRoot H' config s = m.signingRoot H config s := by
  cases m with
  | attestation data => exact Beacon.signingRoot_congr data h
  | block header => exact Beacon.signingRoot_congr header h
  | voluntaryExit exit => exact Beacon.signingRoot_congr exit h

theorem eq_or_collides {H : PairHash} {config config' : Config} {s : σ} {t : τ} {m m' : Message}
    (h : m.signingRoot H config s = m'.signingRoot H config' t) :
    m = m' ∨ Collides H (m.signingPairs H config s ++ m'.signingPairs H config' t) := by
  cases m with
  | attestation data =>
    cases m' with
    | attestation data' => exact (eq_or_collides_of_signingRoot h).imp_left (congrArg attestation)
    | block header => exact Or.inr (collides_of_domainType_ne (by decide) h)
    | voluntaryExit exit => exact Or.inr (collides_of_domainType_ne (by decide) h)
  | block header =>
    cases m' with
    | attestation data => exact Or.inr (collides_of_domainType_ne (by decide) h)
    | block header' => exact (eq_or_collides_of_signingRoot h).imp_left (congrArg block)
    | voluntaryExit exit => exact Or.inr (collides_of_domainType_ne (by decide) h)
  | voluntaryExit exit =>
    cases m' with
    | attestation data => exact Or.inr (collides_of_domainType_ne (by decide) h)
    | block header => exact Or.inr (collides_of_domainType_ne (by decide) h)
    | voluntaryExit exit' => exact (eq_or_collides_of_signingRoot h).imp_left (congrArg voluntaryExit)

end Message

/-! ## Binding -/

/-- Different records of a type have different roots, unless two of the pairs hashed collide. -/
def RootBinds (α : Type) [Chunked α] [Committing α] : Prop :=
  ∀ (H : PairHash) (a b : α), a ≠ b → treeRoot H a = treeRoot H b →
    Collides H (treePairs H a ++ treePairs H b)

theorem rootBinds (α : Type) [Chunked α] [Committing α] : RootBinds α :=
  fun _ _ _ hne h => (eq_or_collides_of_treeRoot h).resolve_left hne

/-- Different messages, of one kind or of two, have different signing roots in whatever states and
    configurations, unless two of the pairs hashed collide; and so it is with the roots of all
    types of records that have one. -/
theorem signing_roots_bind :
    (∀ {σ τ : Type} [StateAccess σ] [StateAccess τ] (H : PairHash) (config config' : Config)
      (s : σ) (t : τ) (m m' : Message), m ≠ m' →
        m.signingRoot H config s = m'.signingRoot H config' t →
        Collides H (m.signingPairs H config s ++ m'.signingPairs H config' t)) ∧
    RootBinds AttestationData ∧ RootBinds BlockHeader ∧ RootBinds Checkpoint ∧
    RootBinds ForkData ∧ RootBinds SigningData ∧ RootBinds VoluntaryExit := by
  refine ⟨?_, rootBinds _, rootBinds _, rootBinds _, rootBinds _, rootBinds _, rootBinds _⟩
  intro σ τ _ _ H config config' s t m m' hne h
  exact (Message.eq_or_collides h).resolve_left hne

/-- A hash that forgets what it is of collides for two wishes to leave, and for one of them and a
    block, in chains that have nothing in common. -/
theorem signing_roots_bind_forgetful :
    let H : PairHash := fun _ _ => Merkle.zeroChunk
    let s : State := default
    let t : State := { s with genesisValidatorsRoot := Vector.replicate 32 1 }
    let leave : Message := .voluntaryExit ⟨1, 2⟩
    let other : Message := .voluntaryExit ⟨1, 3⟩
    let header : Message := .block default
    leave ≠ other ∧ leave ≠ header ∧
      leave.signingRoot H Config.minimal s = other.signingRoot H Config.minimal s ∧
      leave.signingRoot H Config.minimal s = header.signingRoot H Config.mainnet t ∧
      Collides H (leave.signingPairs H Config.minimal s ++ other.signingPairs H Config.minimal s) ∧
      Collides H (leave.signingPairs H Config.minimal s ++
        header.signingPairs H Config.mainnet t) := by
  intro H s t leave other header
  have hother : leave ≠ other := by decide
  have hheader : leave ≠ header := by decide
  -- whatever is hashed last is hashed to zeros
  have hzero : ∀ (config : Config) (s : State) (m : Message),
      m.signingRoot H config s = Merkle.zeroChunk := by
    intro config s m
    cases m <;> exact signingRoot_eq_hash _
  have hsame : leave.signingRoot H Config.minimal s = other.signingRoot H Config.minimal s := by
    rw [hzero, hzero]
  have hmixed : leave.signingRoot H Config.minimal s = header.signingRoot H Config.mainnet t := by
    rw [hzero, hzero]
  exact ⟨hother, hheader, hsame, hmixed,
    signing_roots_bind.1 H Config.minimal Config.minimal s s leave other hother hsame,
    signing_roots_bind.1 H Config.minimal Config.mainnet s t leave header hheader hmixed⟩

end Beacon
