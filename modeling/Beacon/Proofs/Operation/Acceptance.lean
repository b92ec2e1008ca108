/-
  Which attester slashings are accepted.

  Each check of an attester slashing has a condition that it is passed under, both ways: the two
  votes (`isSlashablePair_iff`), an index set (`IndexSet.check_eq_ok_iff`), the registry
  (`checkIndices_eq_ok_iff`), the keys (`KeyCache.mapM_require_eq_ok_iff`) and an attestation as a
  whole (`IndexedAttestation.check_eq_ok_iff`).  The slashing is accepted under all of them together
  (`check_eq_ok_iff`), and what it gives can be read off the two votes by membership alone.
-/
import Beacon.Proofs.Operation.Gate
import Beacon.Proofs.Operation.Verdict

namespace Beacon

open Beacon.Action

/-! ## Two votes -/

/-- Two different votes for one target epoch. -/
def AttestationData.DoubleVote (first second : AttestationData) : Prop :=
  first ≠ second ∧ first.target.epoch = second.target.epoch

/-- The first vote begins before and ends after the second. -/
def AttestationData.Surrounds (first second : AttestationData) : Prop :=
  first.source.epoch < second.source.epoch ∧ second.target.epoch < first.target.epoch

instance (first second : AttestationData) : Decidable (first.DoubleVote second) :=
  inferInstanceAs (Decidable (_ ∧ _))

instance (first second : AttestationData) : Decidable (first.Surrounds second) :=
  inferInstanceAs (Decidable (_ ∧ _))

theorem isSlashablePair_iff {first second : AttestationData} :
    isSlashablePair first second = true ↔ first.DoubleVote second ∨ first.Surrounds second := by
  unfold isSlashablePair AttestationData.DoubleVote AttestationData.Surrounds
  simp

/-! ## Attestations -/

/-- The cached keys of these validators. -/
def KeyCache.keysOf {κ : Type} (cache : KeyCache κ) (indices : List UInt64) : List κ :=
  indices.filterMap fun index => cache.get? index.toNat

theorem KeyCache.keysOf_cons {κ : Type} {cache : KeyCache κ} {index : UInt64} {key : κ}
    (h : cache.get? index.toNat = some key) (indices : List UInt64) :
    cache.keysOf (index :: indices) = key :: cache.keysOf indices := by
  unfold keysOf
  rw [List.filterMap_cons, h]

/-- The keys that are required are all cached, and these are they. -/
theorem KeyCache.mapM_require_eq_ok_iff {κ : Type} {cache : KeyCache κ} {indices : List UInt64}
    {keys : List κ} : (indices.mapM fun index => cache.require index.toNat) = .ok keys ↔
      (∀ index ∈ indices, (cache.get? index.toNat).isSome = true) ∧ keys = cache.keysOf indices := by
  induction indices generalizing keys with
  | nil =>
    constructor
    · intro h
      cases h
      exact ⟨fun _ hi => absurd hi List.not_mem_nil, rfl⟩
    · rintro ⟨-, rfl⟩
      rfl
  | cons index indices ih =>
    rw [List.mapM_cons]
    constructor
    · intro h
      obtain ⟨key, hkey, h⟩ := bind_eq_ok_iff.mp h
      obtain ⟨rest, hrest, h⟩ := bind_eq_ok_iff.mp h
      cases h
      obtain ⟨hcached, rfl⟩ := ih.mp hrest
      have hget : cache.get? index.toNat = some key := orFail_eq_ok_iff.mp hkey
      constructor
      · intro i hi
        rcases List.mem_cons.mp hi with rfl | hi
        · rw [hget]
          rfl
        · exact hcached i hi
      · rw [keysOf_cons hget]
    · rintro ⟨hcached, rfl⟩
      obtain ⟨key, hget⟩ := Option.isSome_iff_exists.mp (hcached index List.mem_cons_self)
      have hkey : cache.require index.toNat = .ok key := orFail_eq_ok_iff.mpr hget
      have hrest := ih.mpr ⟨fun i hi => hcached i (List.mem_cons_of_mem index hi), rfl⟩
      rw [hkey, hrest, keysOf_cons hget]
      rfl

namespace IndexedAttestation

variable {κ ω : Type} {config : Config} {s : State} {cache : KeyCache κ} {verifier : Verifier κ ω}
  {attestation : IndexedAttestation} {w w' : ω}

/-- The attesters are an index set of the size of a committee, in the registry, and all their keys
    are cached. -/
structure WellFormed (config : Config) (s : State) (cache : KeyCache κ)
    (attestation : IndexedAttestation) : Prop where
  nonempty : attestation.attestingIndices ≠ []
  increasing : attestation.attestingIndices.Pairwise (· < ·)
  length_le : attestation.attestingIndices.length ≤ config.maxValidatorsPerCommittee.val.toNat
  registered : ∀ index ∈ attestation.attestingIndices, index.toNat < s.validators.size
  cached : ∀ index ∈ attestation.attestingIndices, (cache.get? index.toNat).isSome = true

/-- What the verifier is asked: has everyone signed the vote, for the epoch of its target? -/
def aggregate (config : Config) (s : State) (cache : KeyCache κ)
    (attestation : IndexedAttestation) : SignatureCheck κ where
  kind := .attestation
  message := rootForEpoch config s attestation.data.target.epoch attestation.data
  signature := attestation.signature
  signers := .all (cache.keysOf attestation.attestingIndices)

/-- An attestation is accepted if it is well formed and the verifier accepts its aggregate. -/
theorem check_eq_ok_iff : (attestation.check config s cache verifier).runOn w = (.ok (), w') ↔
    attestation.WellFormed config s cache ∧
      (verifier.check (attestation.aggregate config s cache)).runOn w = (.ok (), w') := by
  constructor
  · intro h
    obtain ⟨_, _, hfirst, hsecond⟩ := runOn_bind_eq_ok_iff.mp h
    obtain ⟨hindices, rfl⟩ := runOn_ofExcept_eq_ok_iff.mp hfirst
    obtain ⟨hset, hregistered⟩ := checkIndices_eq_ok_iff.mp hindices
    obtain ⟨hlength, hnonempty, hincreasing⟩ := IndexSet.check_eq_ok_iff.mp hset
    obtain ⟨keys, _, hlookup, hrest⟩ := runOn_bind_eq_ok_iff.mp hsecond
    obtain ⟨hkeys, rfl⟩ := runOn_ofExcept_eq_ok_iff.mp hlookup
    obtain ⟨hcached, rfl⟩ := KeyCache.mapM_require_eq_ok_iff.mp hkeys
    obtain ⟨_, _, hsome, hverified⟩ := runOn_bind_eq_ok_iff.mp hrest
    obtain ⟨-, rfl⟩ := runOn_ofExcept_eq_ok_iff.mp hsome
    exact ⟨⟨hnonempty, hincreasing, hlength, hregistered, hcached⟩, hverified⟩
  · rintro ⟨hformed, hverified⟩
    have hset := IndexSet.check_eq_ok_iff.mpr
      ⟨hformed.length_le, hformed.nonempty, hformed.increasing⟩
    have hindices : attestation.checkIndices config s = .ok () :=
      checkIndices_eq_ok_iff.mpr ⟨hset, hformed.registered⟩
    have hkeys := KeyCache.mapM_require_eq_ok_iff.mpr ⟨hformed.cached, rfl⟩
    have hsome : (cache.keysOf attestation.attestingIndices).isEmpty = false := by
      rcases hlist : attestation.attestingIndices with _ | ⟨index, indices⟩
      · exact absurd hlist hformed.nonempty
      · have hmem : index ∈ attestation.attestingIndices := by
          rw [hlist]
          exact List.mem_cons_self
        obtain ⟨key, hkey⟩ := Option.isSome_iff_exists.mp (hformed.cached index hmem)
        rw [KeyCache.keysOf_cons hkey]
        rfl
    refine runOn_bind_eq_ok_iff.mpr ⟨(), w, runOn_ofExcept_eq_ok_iff.mpr ⟨hindices, rfl⟩, ?_⟩
    refine runOn_bind_eq_ok_iff.mpr ⟨_, w, runOn_ofExcept_eq_ok_iff.mpr ⟨hkeys, rfl⟩, ?_⟩
    refine runOn_bind_eq_ok_iff.mpr ⟨(), w, runOn_ofExcept_eq_ok_iff.mpr ⟨?_, rfl⟩, hverified⟩
    rw [hsome]
    rfl

end IndexedAttestation

/-! ## Attester slashings -/

/-- Two checks asked one after the other are both accepted. -/
theorem Verifier.runOn_askAll_pair_eq_ok_iff {κ ω : Type} {verifier : Verifier κ ω}
    {first second : SignatureCheck κ} {w w' : ω} :
    (verifier.askAll [first, second]).runOn w = (.ok (), w') ↔
      ∃ u, (verifier.check first).runOn w = (.ok (), u) ∧
        (verifier.check second).runOn u = (.ok (), w') := by
  constructor
  · intro h
    obtain ⟨_, u, hfirst, hrest⟩ := runOn_bind_eq_ok_iff.mp h
    obtain ⟨_, w'', hsecond, hnone⟩ := runOn_bind_eq_ok_iff.mp hrest
    obtain ⟨-, rfl⟩ := runOn_pure_eq_ok_iff.mp hnone
    exact ⟨u, hfirst, hsecond⟩
  · rintro ⟨u, hfirst, hsecond⟩
    refine runOn_bind_eq_ok_iff.mpr ⟨(), u, hfirst, ?_⟩
    exact runOn_bind_eq_ok_iff.mpr ⟨(), w', hsecond, runOn_pure_eq_ok_iff.mpr ⟨rfl, rfl⟩⟩

instance (slashing : AttesterSlashing) (index : UInt64) : Decidable (slashing.Accuses index) :=
  inferInstanceAs (Decidable (_ ∧ _))

namespace AttesterSlashing

variable {κ ω : Type} {config : Config} {s : State} {cache : KeyCache κ} {verifier : Verifier κ ω}
  {slashing : AttesterSlashing} {struck : List Nat} {w w' : ω}

/-- Among validators in the registry, those who can be slashed are found. -/
theorem slashableAmong_of_lt {indices : List Nat} (h : ∀ i ∈ indices, i < s.validators.size) :
    slashableAmong config s indices = .ok (indices.filter (slashableAt config s)) := by
  have hread : FailsAs (fun _ => False) (slashableAmong config s indices) :=
    FailsAs.filterM _ fun i hi => (State.read_failsAs (h i hi)).bind fun _ _ => FailsAs.ok _
  rcases hfound : slashableAmong config s indices with failure | found
  · exact (hread failure hfound).elim
  · rw [slashableAmong_eq_ok hfound]

/-- The accused who can be slashed, in order. -/
def slashable (config : Config) (s : State) (slashing : AttesterSlashing) : List Nat :=
  (slashing.accused.map UInt64.toNat).filter (slashableAt config s)

/-- What is required of the two votes, apart from whom they accuse. -/
structure Evidence (config : Config) (s : State) (cache : KeyCache κ) (slashing : AttesterSlashing) :
    Prop where
  contradict : slashing.attestation1.data.DoubleVote slashing.attestation2.data ∨
    slashing.attestation1.data.Surrounds slashing.attestation2.data
  first : slashing.attestation1.WellFormed config s cache
  second : slashing.attestation2.WellFormed config s cache

/-- The aggregates of both votes, in the order in which the verifier is asked for them. -/
def aggregates (config : Config) (s : State) (cache : KeyCache κ) (slashing : AttesterSlashing) :
    List (SignatureCheck κ) :=
  [slashing.attestation1.aggregate config s cache, slashing.attestation2.aggregate config s cache]

/-- An attester slashing is accepted if it is evidence, the verifier accepts both aggregates, and
    there is somebody to slash. -/
theorem check_eq_ok_iff : (slashing.check config s cache verifier).runOn w = (.ok struck, w') ↔
    slashing.Evidence config s cache ∧
      (verifier.askAll (slashing.aggregates config s cache)).runOn w = (.ok (), w') ∧
      struck = slashing.slashable config s ∧ struck ≠ [] := by
  constructor
  · intro h
    obtain ⟨-, -, hstruck, hnonempty⟩ := of_check h
    obtain ⟨_, _, hrule, h⟩ := runOn_bind_eq_ok_iff.mp h
    obtain ⟨hpair, rfl⟩ := runOn_ofExcept_eq_ok_iff.mp hrule
    obtain ⟨_, w1, hcheck, h⟩ := runOn_bind_eq_ok_iff.mp h
    obtain ⟨_, w2, hcheck', h⟩ := runOn_bind_eq_ok_iff.mp h
    obtain ⟨found, _, hfound, h⟩ := runOn_bind_eq_ok_iff.mp h
    obtain ⟨-, rfl⟩ := runOn_ofExcept_eq_ok_iff.mp hfound
    obtain ⟨_, _, hsome, h⟩ := runOn_bind_eq_ok_iff.mp h
    obtain ⟨-, rfl⟩ := runOn_ofExcept_eq_ok_iff.mp hsome
    obtain ⟨-, rfl⟩ := runOn_pure_eq_ok_iff.mp h
    obtain ⟨hfirst, hasked⟩ := IndexedAttestation.check_eq_ok_iff.mp hcheck
    obtain ⟨hsecond, hasked'⟩ := IndexedAttestation.check_eq_ok_iff.mp hcheck'
    refine ⟨⟨isSlashablePair_iff.mp (ensure_eq_ok_iff.mp hpair), hfirst, hsecond⟩, ?_, hstruck,
      hnonempty⟩
    exact Verifier.runOn_askAll_pair_eq_ok_iff.mpr ⟨w1, hasked, hasked'⟩
  · rintro ⟨hevidence, hasked, rfl, hnonempty⟩
    obtain ⟨u, hfirst, hsecond⟩ := Verifier.runOn_askAll_pair_eq_ok_iff.mp hasked
    have hpair := isSlashablePair_iff.mpr hevidence.contradict
    -- the accused are attesters of the first vote, and so in the registry
    have hknown : ∀ i ∈ slashing.accused.map UInt64.toNat, i < s.validators.size := by
      intro i hi
      obtain ⟨index, hindex, rfl⟩ := List.mem_map.mp hi
      exact hevidence.first.registered index ((IndexSet.inter_sublist _ _).subset hindex)
    have hfound : slashableAmong config s (slashing.accused.map UInt64.toNat) =
        .ok (slashing.slashable config s) := slashableAmong_of_lt hknown
    have hsome : (slashing.slashable config s).isEmpty = false := by
      simpa using hnonempty
    refine runOn_bind_eq_ok_iff.mpr
      ⟨(), w, runOn_ofExcept_eq_ok_iff.mpr ⟨ensure_eq_ok_iff.mpr hpair, rfl⟩, ?_⟩
    refine runOn_bind_eq_ok_iff.mpr
      ⟨(), u, IndexedAttestation.check_eq_ok_iff.mpr ⟨hevidence.first, hfirst⟩, ?_⟩
    refine runOn_bind_eq_ok_iff.mpr
      ⟨(), w', IndexedAttestation.check_eq_ok_iff.mpr ⟨hevidence.second, hsecond⟩, ?_⟩
    refine runOn_bind_eq_ok_iff.mpr ⟨_, w', runOn_ofExcept_eq_ok_iff.mpr ⟨hfound, rfl⟩, ?_⟩
    refine runOn_bind_eq_ok_iff.mpr ⟨(), w', runOn_ofExcept_eq_ok_iff.mpr ⟨?_, rfl⟩,
      runOn_pure_eq_ok_iff.mpr ⟨rfl, rfl⟩⟩
    exact ensure_eq_ok_iff.mpr (Bool.not_eq_true' _ |>.mpr hsome)

/-- The list found by merging and filtering, by membership: those who cast both votes and can be
    slashed. -/
theorem Evidence.mem_slashable_iff (h : slashing.Evidence config s cache) {i : Nat} :
    i ∈ slashing.slashable config s ↔
      (∃ index, slashing.Accuses index ∧ index.toNat = i) ∧ slashableAt config s i = true := by
  unfold slashable
  rw [List.mem_filter, List.mem_map]
  refine and_congr_left fun _ => exists_congr fun index => and_congr_left fun _ => ?_
  exact IndexSet.mem_inter_iff h.first.increasing h.second.increasing

/-- **Which attester slashings are accepted, and whom they strike.**  The check succeeds if and only
    if the votes contradict each other, both have the form they should have, the verifier accepts
    both aggregates, and somebody who cast both votes can be slashed; and what it gives then is the
    strictly increasing list of just these. -/
theorem check_selects_slashable (config : Config) (s : State) (cache : KeyCache κ)
    (verifier : Verifier κ ω) (slashing : AttesterSlashing) (w : ω) :
    ((∃ struck w', (slashing.check config s cache verifier).runOn w = (.ok struck, w')) ↔
      (slashing.attestation1.data.DoubleVote slashing.attestation2.data ∨
        slashing.attestation1.data.Surrounds slashing.attestation2.data) ∧
      slashing.attestation1.WellFormed config s cache ∧
      slashing.attestation2.WellFormed config s cache ∧
      (∃ w', (verifier.askAll [slashing.attestation1.aggregate config s cache,
        slashing.attestation2.aggregate config s cache]).runOn w = (.ok (), w')) ∧
      ∃ index, slashing.Accuses index ∧ slashableAt config s index.toNat = true) ∧
    ∀ struck w', (slashing.check config s cache verifier).runOn w = (.ok struck, w') →
      struck.Pairwise (· < ·) ∧ ∀ i, i ∈ struck ↔
        (∃ index, slashing.Accuses index ∧ index.toNat = i) ∧ slashableAt config s i = true := by
  constructor
  · constructor
    · rintro ⟨struck, w', h⟩
      obtain ⟨hevidence, hasked, rfl, hnonempty⟩ := check_eq_ok_iff.mp h
      obtain ⟨i, hi⟩ := List.exists_mem_of_ne_nil _ hnonempty
      obtain ⟨⟨index, haccused, rfl⟩, hslashable⟩ := hevidence.mem_slashable_iff.mp hi
      exact ⟨hevidence.contradict, hevidence.first, hevidence.second, ⟨w', hasked⟩, index, haccused,
        hslashable⟩
    · rintro ⟨hcontradict, hfirst, hsecond, ⟨w', hasked⟩, index, haccused, hslashable⟩
      have hevidence : slashing.Evidence config s cache := ⟨hcontradict, hfirst, hsecond⟩
      have hmem : index.toNat ∈ slashing.slashable config s :=
        hevidence.mem_slashable_iff.mpr ⟨⟨index, haccused, rfl⟩, hslashable⟩
      exact ⟨_, w', check_eq_ok_iff.mpr ⟨hevidence, hasked, rfl, List.ne_nil_of_mem hmem⟩⟩
  · intro struck w' h
    obtain ⟨hevidence, -, hstruck, -⟩ := check_eq_ok_iff.mp h
    constructor
    · exact check_increasing h
    · intro i
      rw [hstruck]
      exact hevidence.mem_slashable_iff

end AttesterSlashing

/-- Two votes of three validators for one target. -/
def jointDoubleVote : AttesterSlashing where
  attestation1 := { doubleVote.attestation1 with attestingIndices := [0, 1, 2] }
  attestation2 := { doubleVote.attestation2 with attestingIndices := [0, 1, 2] }

/-- The keys of these validators. -/
def jointKeys : KeyCache Nat := ((KeyCache.empty.insert 0 5).insert 1 6).insert 2 7

/-- A hash map does not compute, so that its laws have to tell what is cached. -/
theorem jointKeys_isSome : ∀ index ∈ ([0, 1, 2] : List UInt64),
    (jointKeys.get? index.toNat).isSome = true := by
  intro index hindex
  unfold jointKeys KeyCache.get? KeyCache.insert
  simp only [List.mem_cons, List.not_mem_nil, or_false] at hindex
  rcases hindex with rfl | rfl | rfl
  · simp
  · simp
  · simp

/-- It is evidence in any registry of three. -/
theorem jointDoubleVote_evidence {s : State} (hsize : s.validators.size = 3) :
    jointDoubleVote.Evidence Config.minimal s jointKeys := by
  have hformed : ∀ attestation : IndexedAttestation, attestation.attestingIndices = [0, 1, 2] →
      attestation.WellFormed Config.minimal s jointKeys := by
    intro attestation hindices
    constructor
    · rw [hindices]
      decide
    · rw [hindices]
      decide
    · rw [hindices]
      decide
    · intro index hindex
      rw [hindices] at hindex
      simp only [List.mem_cons, List.not_mem_nil, or_false] at hindex
      rw [hsize]
      rcases hindex with rfl | rfl | rfl
      · decide
      · decide
      · decide
    · intro index hindex
      rw [hindices] at hindex
      exact jointKeys_isSome index hindex
  exact ⟨.inl (by decide), hformed _ rfl, hformed _ rfl⟩

/-- The verifier accepts it, and it strikes those of the three who can be slashed. -/
theorem check_jointDoubleVote {s : State} {struck : List Nat} (hsize : s.validators.size = 3)
    (hstruck : struck = jointDoubleVote.slashable Config.minimal s) (hsome : struck ≠ []) :
    ∃ w', (jointDoubleVote.check Config.minimal s jointKeys (.recording none)).runOn [] =
      (.ok struck, w') :=
  ⟨_, AttesterSlashing.check_eq_ok_iff.mpr
    ⟨jointDoubleVote_evidence hsize, rfl, hstruck, hsome⟩⟩

theorem enact_jointDoubleVote (s : State) (struck : List Nat) (proposer : Nat)
    (hsize : s.validators.size = 3) (hstruck : struck = jointDoubleVote.slashable Config.minimal s)
    (hsome : struck ≠ [])
    (hok : ((AttesterSlashing.slashAll Config.minimal proposer struck).runOn s).1.isOk = true) :
    ∃ w', ((BlockOperation.attesterSlashing jointDoubleVote proposer).enact Config.minimal jointKeys
      (.recording none)).runOn (s, []) =
        (.ok (), ((AttesterSlashing.slashAll Config.minimal proposer struck).runOn s).2, w') := by
  obtain ⟨w', hcheck⟩ := check_jointDoubleVote hsize hstruck hsome
  have hoperation : ((BlockOperation.attesterSlashing jointDoubleVote proposer).check Config.minimal
      s jointKeys (.recording none)).runOn [] = (.ok struck, w') := hcheck
  refine ⟨w', (BlockOperation.runOn_enact_of_check_ok hoperation).trans ?_⟩
  show (((AttesterSlashing.slashAll Config.minimal proposer struck).runOn s).1, _) = _
  rw [congrArg Prod.fst (eq_of_isOk hok)]
  rfl

/-- Of the three, the last has been slashed before, and the first two are struck. -/
theorem AttesterSlashing.check_selects_slashable_joint : ∃ struck w',
    (jointDoubleVote.check Config.minimal Collect.overlapping jointKeys (.recording none)).runOn [] =
      (.ok struck, w') ∧
    struck.Pairwise (· < ·) ∧ 0 ∈ struck ∧ 1 ∈ struck ∧ 2 ∉ struck := by
  have hselects := check_selects_slashable Config.minimal Collect.overlapping jointKeys
    (.recording none) jointDoubleVote []
  have hevidence := jointDoubleVote_evidence (s := Collect.overlapping) rfl
  obtain ⟨struck, w', hcheck⟩ := hselects.1.mpr ⟨hevidence.contradict, hevidence.first,
    hevidence.second, ⟨_, rfl⟩, 0, by decide, by decide +kernel⟩
  obtain ⟨hincreasing, hmem⟩ := hselects.2 struck w' hcheck
  refine ⟨struck, w', hcheck, hincreasing, ?_, ?_, ?_⟩
  · exact (hmem 0).mpr ⟨⟨0, by decide, rfl⟩, by decide +kernel⟩
  · exact (hmem 1).mpr ⟨⟨1, by decide, rfl⟩, by decide +kernel⟩
  · intro htwo
    have hslashable : slashableAt Config.minimal Collect.overlapping 2 = true :=
      ((hmem 2).mp htwo).2
    have hslashed : slashableAt Config.minimal Collect.overlapping 2 = false := by decide +kernel
    rw [hslashed] at hslashable
    nomatch hslashable

end Beacon
