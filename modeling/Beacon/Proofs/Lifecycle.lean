/-
  The life of a validator over whole runs.

  A run is any sequence of steps, with whatever outcome, and of pauses in which time goes by
  (`Run`).  Two things hold along it:
    * ORDER: a record whose epochs come in order keeps them in order (`Validator.InOrder`);
    * NO WAY BACK: an epoch that has been set stays as it is, the time of withdrawal is only put
      off, and a slashed validator stays slashed (`Validator.Settles`).

  Both are shown of the four changes of a record.  Everything else is transitivity: from a change to
  a step, and from a step to a run.
-/
import Beacon.Proofs.Steps

namespace Beacon

open Beacon.State

/-! ## Records in order -/

/-- The epochs of a record come in order, and a validator that has no exit epoch cannot
    withdraw. -/
structure Validator.InOrder (v : Validator) : Prop where
  eligible_le : v.activationEligibilityEpoch ≤ v.activationEpoch
  activation_le : v.activationEpoch ≤ v.exitEpoch
  exit_le : v.exitEpoch ≤ v.withdrawableEpoch
  staying : v.exitEpoch = farFutureEpoch → v.withdrawableEpoch = farFutureEpoch

theorem eq_farFutureEpoch_of_le {e : Epoch} (h : farFutureEpoch ≤ e) : e = farFutureEpoch := by
  have hge := UInt64.le_iff_toNat_le.mp h
  have hle := toNat_le_farFutureEpoch e
  exact UInt64.toNat_inj.mp (Nat.le_antisymm hle hge)

theorem le_farFutureEpoch (e : Epoch) : e ≤ farFutureEpoch :=
  UInt64.le_iff_toNat_le.mpr (toNat_le_farFutureEpoch e)

/-- Each of the four changes has a guard that keeps the order: who leaves or is slashed has been
    activated by now, and who is activated was eligible by now. -/
theorem Validator.Change.inOrder {config : Config} {current : Epoch} {v w : Validator}
    (h : Validator.Change config current v w) (hv : v.InOrder) : w.InOrder := by
  cases h with
  | leave exit withdrawable hjoined hstay hexit hwithdrawable =>
    rw [UInt64.le_iff_toNat_le] at hjoined
    refine ⟨hv.eligible_le, ?_, ?_, ?_⟩
    · rw [UInt64.le_iff_toNat_le]
      show v.activationEpoch.toNat ≤ exit.toNat
      omega
    · rw [UInt64.le_iff_toNat_le]
      show exit.toNat ≤ withdrawable.toNat
      omega
    · -- put at the last epoch there is, the validator still counts as staying
      intro hfar
      obtain rfl : exit = farFutureEpoch := hfar
      apply eq_farFutureEpoch_of_le
      rw [UInt64.le_iff_toNat_le]
      show farFutureEpoch.toNat ≤ withdrawable.toNat
      omega
  | slash withdrawable hjoined hunslashed hlater hring =>
    refine ⟨hv.eligible_le, hv.activation_le, UInt64.le_trans hv.exit_le hlater, ?_⟩
    intro hfar
    apply eq_farFutureEpoch_of_le
    rw [← hv.staying hfar]
    exact hlater
  | becomeEligible next hunset hnext =>
    refine ⟨?_, hv.activation_le, hv.exit_le, hv.staying⟩
    -- who was not eligible was not activated
    have hactivation : v.activationEpoch = farFutureEpoch := by
      apply eq_farFutureEpoch_of_le
      rw [← hunset]
      exact hv.eligible_le
    show next ≤ v.activationEpoch
    rw [hactivation]
    exact le_farFutureEpoch next
  | activate activation hunset heligible hactivation =>
    -- who was not activated has not left
    have hexit : v.exitEpoch = farFutureEpoch := by
      apply eq_farFutureEpoch_of_le
      rw [← hunset]
      exact hv.activation_le
    refine ⟨?_, ?_, hv.exit_le, hv.staying⟩
    · rw [UInt64.le_iff_toNat_le] at heligible ⊢
      show v.activationEligibilityEpoch.toNat ≤ activation.toNat
      omega
    · show activation ≤ v.exitEpoch
      rw [hexit]
      exact le_farFutureEpoch activation

/-! ## No way back -/

/-- What is settled in a record stays settled in a later one.  With the exit the time of withdrawal
    is settled, apart from being put off. -/
structure Validator.Settles (v w : Validator) : Prop where
  eligibility : v.activationEligibilityEpoch ≠ farFutureEpoch →
    w.activationEligibilityEpoch = v.activationEligibilityEpoch
  activation : v.activationEpoch ≠ farFutureEpoch → w.activationEpoch = v.activationEpoch
  exit : v.exitEpoch ≠ farFutureEpoch → w.exitEpoch = v.exitEpoch
  withdrawable : v.exitEpoch ≠ farFutureEpoch → v.withdrawableEpoch ≤ w.withdrawableEpoch
  slashed : v.slashed = true → w.slashed = true

namespace Validator.Settles

theorem refl (v : Validator) : v.Settles v where
  eligibility _ := rfl
  activation _ := rfl
  exit _ := rfl
  withdrawable _ := UInt64.le_refl _
  slashed h := h

theorem trans {u v w : Validator} (h : u.Settles v) (h' : v.Settles w) : u.Settles w where
  eligibility hset := by
    have hv := h.eligibility hset
    rw [h'.eligibility (hv ▸ hset), hv]
  activation hset := by
    have hv := h.activation hset
    rw [h'.activation (hv ▸ hset), hv]
  exit hset := by
    have hv := h.exit hset
    rw [h'.exit (hv ▸ hset), hv]
  withdrawable hset := by
    have hv := h.exit hset
    exact UInt64.le_trans (h.withdrawable hset) (h'.withdrawable (hv ▸ hset))
  slashed hset := h'.slashed (h.slashed hset)

/-- In a record in order, a time of withdrawal that is set goes with an exit that is set. -/
theorem withdrawable_le {v w : Validator} (h : v.Settles w) (hv : v.InOrder)
    (hset : v.withdrawableEpoch ≠ farFutureEpoch) :
    v.withdrawableEpoch ≤ w.withdrawableEpoch := by
  apply h.withdrawable
  intro hstay
  exact hset (hv.staying hstay)

end Validator.Settles

/-- An epoch is written only where none has been set, and a mark is never taken away. -/
theorem Validator.Change.settles {config : Config} {current : Epoch} {v w : Validator}
    (h : Validator.Change config current v w) : v.Settles w := by
  have hv := Validator.Settles.refl v
  cases h with
  | leave exit withdrawable hjoined hstay hexit hwithdrawable =>
    have hunset := Validator.isStaying_iff.mp hstay
    exact { hv with
      exit := fun hset => absurd hunset hset
      withdrawable := fun hset => absurd hunset hset }
  | slash withdrawable hjoined hunslashed hlater hring =>
    exact { hv with
      withdrawable := fun _ => hlater
      slashed := fun _ => rfl }
  | becomeEligible next hunset hnext =>
    exact { hv with eligibility := fun hset => absurd hunset hset }
  | activate activation hunset heligible hactivation =>
    exact { hv with activation := fun hset => absurd hunset hset }

/-- The same of any number of changes. -/
theorem Validator.Changes.inOrder_and_settles {config : Config} {current : Epoch}
    {v w : Validator} (h : Validator.Changes config current v w) :
    (v.InOrder → w.InOrder) ∧ v.Settles w := by
  induction h with
  | refl => exact ⟨id, .refl v⟩
  | tail _ hchange ih =>
    obtain ⟨horder, hsettles⟩ := ih
    exact ⟨fun hv => hchange.inOrder (horder hv), hsettles.trans hchange.settles⟩

/-! ## Whole registries -/

namespace State

/-- From `s` to `t` every validator has kept its order and all that was settled. -/
structure Matures (s t : State) : Prop where
  size : t.validators.size = s.validators.size
  record : ∀ (i : Nat) v, s.validators[i]? = some v → ∃ w, t.validators[i]? = some w ∧
    (v.InOrder → w.InOrder) ∧ v.Settles w

namespace Matures

theorem refl (s : State) : Matures s s where
  size := rfl
  record _ v hv := ⟨v, hv, id, .refl v⟩

theorem trans {s t u : State} (h : Matures s t) (h' : Matures t u) : Matures s u where
  size := h'.size.trans h.size
  record i v hv := by
    obtain ⟨w, hw, horder, hsettles⟩ := h.record i v hv
    obtain ⟨x, hx, horder', hsettles'⟩ := h'.record i w hw
    exact ⟨x, hx, fun h => horder' (horder h), hsettles.trans hsettles'⟩

/-- Validators are neither added nor taken away, so that a registry in order stays in order. -/
theorem inOrder {s t : State} (h : Matures s t)
    (hs : ∀ (i : Nat) v, s.validators[i]? = some v → v.InOrder) {i : Nat} {w : Validator}
    (hw : t.validators[i]? = some w) : w.InOrder := by
  have hlt : i < s.validators.size := by
    rw [← h.size]
    exact (Array.getElem?_eq_some_iff.mp hw).1
  have hv := Array.getElem?_eq_getElem hlt
  obtain ⟨w', hw', horder, -⟩ := h.record i _ hv
  rw [hw] at hw'
  cases hw'
  exact horder (hs i _ hv)

end Matures

/-- Whatever evolves within one epoch matures. -/
theorem Evolves.matures {config : Config} {touched : Nat → Prop} {s t : State}
    (h : Evolves config touched s t) : Matures s t where
  size := h.size
  record i v hv := by
    obtain ⟨w, hw, hchanges⟩ := h.record i v hv
    exact ⟨w, hw, hchanges.inOrder_and_settles⟩

end State

/-! ## Runs -/

/-- One move of a run: a step, or a pause.  In a pause the slot does not go back, and the rest of
    the state may become anything but for the records. -/
inductive Move (config : Config) : State → State → Prop where
  | step {s t : State} (h : Step config s t) : Move config s t
  | pause {s t : State} (hslot : s.slot ≤ t.slot) (hrecords : t.validators = s.validators) :
      Move config s t

/-- Any number of moves. -/
abbrev Run (config : Config) : State → State → Prop := Relation.ReflTransGen (Move config)

theorem Move.matures {config : Config} {s t : State} (h : Move config s t) : Matures s t := by
  cases h with
  | step h => exact h.evolves.matures
  | pause hslot hrecords =>
    refine ⟨by rw [hrecords], ?_⟩
    intro i v hv
    rw [hrecords]
    exact ⟨v, hv, id, .refl v⟩

theorem matures_of_run {config : Config} {s t : State} (h : Run config s t) : Matures s t := by
  induction h with
  | refl => exact .refl s
  | tail _ hmove ih => exact ih.trans hmove.matures

/-- Every state `t` of a run that begins in order is in order, and whatever is settled in it is
    settled in every later state `u`. -/
theorem lifecycle_of_run {config : Config} {s t u : State} (hrun : Run config s t)
    (hlater : Run config t u)
    (hs : ∀ (i : Nat) v, s.validators[i]? = some v → v.InOrder) :
    (∀ (i : Nat) v, t.validators[i]? = some v → v.InOrder) ∧
    ∀ (i : Nat) v, t.validators[i]? = some v → ∃ w, u.validators[i]? = some w ∧
      (v.activationEligibilityEpoch ≠ farFutureEpoch →
        w.activationEligibilityEpoch = v.activationEligibilityEpoch) ∧
      (v.activationEpoch ≠ farFutureEpoch → w.activationEpoch = v.activationEpoch) ∧
      (v.exitEpoch ≠ farFutureEpoch → w.exitEpoch = v.exitEpoch) ∧
      (v.withdrawableEpoch ≠ farFutureEpoch → v.withdrawableEpoch ≤ w.withdrawableEpoch) ∧
      (v.slashed = true → w.slashed = true) := by
  have ht : ∀ (i : Nat) v, t.validators[i]? = some v → v.InOrder := fun i v hv =>
    (matures_of_run hrun).inOrder hs hv
  refine ⟨ht, ?_⟩
  intro i v hv
  obtain ⟨w, hw, -, hsettles⟩ := (matures_of_run hlater).record i v hv
  exact ⟨w, hw, hsettles.eligibility, hsettles.activation, hsettles.exit,
    hsettles.withdrawable_le (ht i v hv), hsettles.slashed⟩

/-- Nobody has to serve before leaving, and the ring of slashed amounts is longer than the time
    from exit to withdrawal. -/
def longRing : Config :=
  { Config.minimal with
    shardCommitteePeriod := 0
    epochsPerSlashingsVector := Config.mainnet.epochsPerSlashingsVector }

/-- A registry in the third short epoch with a validator in every stage: one who serves, one who is
    not eligible yet, one who waits for its activation, and one with too little stake. -/
def stages : State where
  slot := 17
  genesisValidatorsRoot := default
  fork := default
  blockRoots := #[default]
  validators := #[Collect.steady,
    { Collect.steady with
      activationEligibilityEpoch := farFutureEpoch, activationEpoch := farFutureEpoch },
    { Collect.steady with activationEligibilityEpoch := 1, activationEpoch := farFutureEpoch },
    { Collect.steady with effectiveBalance := 16000000000 }]
  balances := #[32000000000, 32000000000, 32000000000, 16000000000]
  slashings := #[0]
  previousAttestations := []
  currentAttestations := []
  finalizedCheckpoint := ⟨1, default⟩

/-- The first validator leaves. -/
def stagesLeft : State :=
  ((SignedVoluntaryExit.enact longRing (KeyCache.empty.insert 0 ()) .null
    ⟨⟨0, 0⟩, default⟩).runOn (stages, ())).2.1

/-- A slot later. -/
def stagesLater : State := { stagesLeft with slot := 18 }

/-- It is slashed for two headers. -/
def stagesSlashed : State :=
  ((ProposerSlashing.enact longRing (KeyCache.empty.insert 0 ()) .null
    ⟨default, ⟨{ (default : BlockHeader) with parentRoot := Vector.replicate 32 1 }, default⟩⟩
    3).runOn (stagesLater, ())).2.1

/-- Then the epoch ends. -/
def stagesEnded : State :=
  ((endEpoch longRing noCommittees .never).runOn (stagesSlashed, .start)).2.1

/-- What is settled when the first validator has left is settled at the end of the epoch, in which
    something happens to each of the four. -/
theorem lifecycle_of_run_stages :
    Run longRing stages stagesLeft ∧ Run longRing stagesLeft stagesEnded ∧
    (∀ (i : Nat) v, stages.validators[i]? = some v → v.InOrder) ∧
    stagesEnded.validators.toList.map (fun v => (v.slashed, v.activationEligibilityEpoch,
      v.activationEpoch, v.exitEpoch, v.withdrawableEpoch)) =
      [(true, 0, 0, 7, 8194), (false, 3, farFutureEpoch, farFutureEpoch, farFutureEpoch),
        (false, 1, 7, farFutureEpoch, farFutureEpoch), (false, 0, 0, 7, 263)] ∧
    (∀ (i : Nat) v, stagesLeft.validators[i]? = some v → v.InOrder) ∧
    ∀ (i : Nat) v, stagesLeft.validators[i]? = some v →
      ∃ w, stagesEnded.validators[i]? = some w ∧
        (v.activationEligibilityEpoch ≠ farFutureEpoch →
          w.activationEligibilityEpoch = v.activationEligibilityEpoch) ∧
        (v.activationEpoch ≠ farFutureEpoch → w.activationEpoch = v.activationEpoch) ∧
        (v.exitEpoch ≠ farFutureEpoch → w.exitEpoch = v.exitEpoch) ∧
        (v.withdrawableEpoch ≠ farFutureEpoch → v.withdrawableEpoch ≤ w.withdrawableEpoch) ∧
        (v.slashed = true → w.slashed = true) := by
  have hleave : Run longRing stages stagesLeft := .single (.step (.voluntaryExit _ _ _ _ _))
  have hslot : stagesLeft.slot ≤ stagesLater.slot := by decide +kernel
  have hpause : Move longRing stagesLeft stagesLater := .pause hslot rfl
  have hslash : Move longRing stagesLater stagesSlashed :=
    .step (.proposerSlashing _ _ _ _ _ _)
  have hend : Move longRing stagesSlashed stagesEnded := .step (.endEpoch _ _ _ _)
  have hrest : Run longRing stagesLeft stagesEnded :=
    .tail (.tail (.single hpause) hslash) hend
  have horder : ∀ (i : Nat) v, stages.validators[i]? = some v → v.InOrder := by
    intro i v hv
    have hmem : v ∈ stages.validators.toList := by
      rw [← Array.getElem?_toList] at hv
      exact List.mem_of_getElem? hv
    have hall : ∀ v ∈ stages.validators.toList,
        v.activationEligibilityEpoch ≤ v.activationEpoch ∧ v.activationEpoch ≤ v.exitEpoch ∧
        v.exitEpoch ≤ v.withdrawableEpoch ∧
        (v.exitEpoch = farFutureEpoch → v.withdrawableEpoch = farFutureEpoch) := by
      decide +kernel
    obtain ⟨h1, h2, h3, h4⟩ := hall v hmem
    exact ⟨h1, h2, h3, h4⟩
  have hended : stagesEnded.validators.toList.map (fun v => (v.slashed,
      v.activationEligibilityEpoch, v.activationEpoch, v.exitEpoch, v.withdrawableEpoch)) =
      [(true, 0, 0, 7, 8194), (false, 3, farFutureEpoch, farFutureEpoch, farFutureEpoch),
        (false, 1, 7, farFutureEpoch, farFutureEpoch), (false, 0, 0, 7, 263)] := by
    decide +kernel
  exact ⟨hleave, hrest, horder, hended, lifecycle_of_run hleave hrest horder⟩

end Beacon
