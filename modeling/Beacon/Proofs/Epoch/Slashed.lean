/-
  A slashed validator pays until it can withdraw.

  A slashing puts the withdrawal off by a whole turn of the ring at least, which is two epochs or more
  under any configuration without a problem.  Up to there the validator is ELIGIBLE for rewards and
  penalties, and as it is marked it gets none of the rewards: the stakes are summed up without it, each
  part of a vote costs it the base reward whatever it voted, and a leak costs it all that a leak can.
  What is left to earn is the pay for including the votes of others.

  The first epoch is the reason why the turn of the ring counts.  It is its own predecessor, so that
  eligibility looks one epoch too far ahead in it (`eligible_of_slashed`).
-/
import Beacon.Proofs.Epoch.Stakes
import Beacon.Proofs.Registry.Slashing

namespace Beacon

open Beacon.Action

/-! ## Eligibility -/

/-- A ring that has a half has two entries. -/
theorem Config.two_le_epochsPerSlashingsVector {config : Config} (h : config.problem? = none) :
    2 ≤ config.epochsPerSlashingsVector.val.toNat := by
  have heven : config.epochsPerSlashingsVector.val % 2 = 0 := by
    unfold problem? at h
    split at h
    · nomatch h
    split at h
    · nomatch h
    split at h
    · nomatch h
    next heven =>
    exact Decidable.not_not.mp heven
  have hhalf : config.epochsPerSlashingsVector.val.toNat % 2 = 0 := by
    rw [← UInt64.toNat_inj, UInt64.toNat_mod] at heven
    exact heven
  have hpos := config.epochsPerSlashingsVector.toNat_pos
  omega

/-- Up to its withdrawable epoch a slashed validator is eligible.  The first epoch of all has no
    epoch before it and is looked beyond; so the second must not be the withdrawable one. -/
theorem eligible_of_slashed {config : Config} {s : State} {committees : Committees}
    {seen : RecentEpoch → List PendingAttestation} {i : Nat} {v : Validator}
    {status : AttesterStatus} (ht : Collect.Tallied config s committees seen i v status)
    (hslashed : v.slashed = true) (hring : 2 ≤ v.withdrawableEpoch.toNat)
    (hearly : currentEpoch config s < v.withdrawableEpoch) : status.eligible = true := by
  have hprevious : (previousEpoch config s).toNat = (currentEpoch config s).toNat - 1 :=
    Word.toNat_subSaturating _ _
  rw [UInt64.lt_iff_toNat_lt] at hearly
  rw [ht.eligible]
  right
  constructor
  · exact hslashed
  · omega

/-! ## Stakes -/

/-- Whoever is passed over by a filter may as well be left out before. -/
theorem filter_eraseIdx {α : Type} {q : α → Bool} (list : List α) :
    ∀ {i : Nat} {a : α}, list[i]? = some a → q a = false →
      (list.eraseIdx i).filter q = list.filter q := by
  induction list with
  | nil => exact fun _ _ => rfl
  | cons b list ih =>
    intro i a ha hq
    cases i with
    | zero =>
      cases ha
      rw [List.eraseIdx_cons_zero, List.filter_cons, if_neg (by simp [hq])]
    | succ i =>
      rw [List.eraseIdx_cons_succ, List.filter_cons, List.filter_cons, ih ha hq]

/-- The statuses of everyone else. -/
def EpochSummary.others (summary : EpochSummary) (i : Nat) : List AttesterStatus :=
  summary.statuses.toList.eraseIdx i

/-- All stakes were summed up without this validator. -/
structure EpochSummary.StakesWithout (config : Config) (summary : EpochSummary) (i : Nat) :
    Prop where
  source : summary.previousStakes.source.val.toNat =
    max (unslashedStake (summary.others i) fun st => st.previous.source)
      config.effectiveBalanceIncrement.val.toNat
  target : summary.previousStakes.target.val.toNat =
    max (unslashedStake (summary.others i) fun st => st.previous.source && st.previous.target)
      config.effectiveBalanceIncrement.val.toNat
  head : summary.previousStakes.head.val.toNat =
    max (unslashedStake (summary.others i) fun st =>
      st.previous.source && st.previous.target && st.previous.head)
      config.effectiveBalanceIncrement.val.toNat
  currentTarget : summary.currentTargetStake.val.toNat =
    max (unslashedStake (summary.others i) fun st => st.current.target)
      config.effectiveBalanceIncrement.val.toNat

section

variable {σ : Type} [StateAccess σ] {config : Config} {s : σ} {committees : Committees}
  {vs : List Validator} {votes : RecentEpoch → List PendingAttestation} {summary : EpochSummary}
  {i : Nat} {status : AttesterStatus}

theorem EpochSummary.unslashedStake_others (hi : summary.statuses[i]? = some status)
    (hslashed : status.unslashed = false) (p : AttesterStatus → Bool) :
    unslashedStake (summary.others i) p = unslashedStake summary.statuses.toList p := by
  unfold unslashedStake others
  rw [← Array.getElem?_toList] at hi
  rw [filter_eraseIdx _ hi (by rw [hslashed, Bool.false_and])]

theorem Collect.Collected.stakesWithout (hc : Collect.Collected config s committees vs votes summary)
    (hi : summary.statuses[i]? = some status) (hslashed : status.unslashed = false) :
    summary.StakesWithout config i := by
  have hwithout := EpochSummary.unslashedStake_others hi hslashed
  constructor
  · rw [hwithout]
    exact Collect.toNat_stakeWhere hc.sourceStake
  · rw [hwithout]
    exact Collect.toNat_stakeWhere hc.targetStake
  · rw [hwithout]
    exact Collect.toNat_stakeWhere hc.headStake
  · rw [hwithout]
    exact Collect.toNat_stakeWhere hc.currentTargetStake

end

/-! ## Rewards and penalties -/

/-- The validator is charged for all parts of its vote, and paid for nothing but the votes of others
    that it included. -/
structure Deltas.ChargedInFull {σ : Type} [StateAccess σ] (config : Config) (s : σ)
    (summary : EpochSummary) (deltas : Deltas) (i : Nat) (status : AttesterStatus) : Prop where
  part_penalty : ∀ part, amountAt (deltas.family (.vote part)).penalties i =
    Reference.base config summary status
  part_reward : ∀ part, amountAt (deltas.family (.vote part)).rewards i = 0
  inclusion_penalty : amountAt deltas.inclusionDelay.penalties i = 0
  inclusion_reward : amountAt deltas.inclusionDelay.rewards i =
    (((summary.others i).filter (Reference.includedBy i)).map
      (Reference.proposerShare config summary)).sum
  inactivity_reward : amountAt deltas.inactivity.rewards i = 0
  /-- In a leak, all that a perfect vote could earn, and a part of the stake in proportion to the
      delay. -/
  inactivity_penalty : amountAt deltas.inactivity.penalties i =
    if isLeaking config s then
      4 * Reference.base config summary status - Reference.proposerShare config summary status +
        status.validator.effectiveBalance.toNat * (finalityDelay config s).toNat /
          config.inactivityPenaltyQuotient.val.toNat
    else 0

open Reference in
/-- Who is eligible and slashed is charged in full, whatever it voted. -/
theorem EpochSummary.chargedInFull {σ : Type} [StateAccess σ] {config : Config} {s : σ}
    {summary : EpochSummary} {deltas : Deltas} {i : Nat} {status : AttesterStatus}
    (hdeltas : summary.deltas config s = .ok deltas) (hi : summary.statuses[i]? = some status)
    (heligible : status.eligible = true) (hslashed : status.unslashed = false) :
    deltas.ChargedInFull config s summary i status := by
  have hdue : ∀ family side, amountAt ((deltas.family family).list side) i =
      due config s summary family side i status :=
    fun family side => (amountAt_deltas hdeltas family side).2 i status hi
  have hearns : ∀ part, earns part status = false := by
    intro part
    unfold earns
    rw [hslashed, Bool.and_false]
  constructor
  case part_penalty =>
    intro part
    refine (hdue (.vote part) .penalties).trans ?_
    show partPenalty config summary part status + 0 = _
    unfold partPenalty
    rw [heligible, hearns]
    rfl
  case part_reward =>
    intro part
    refine (hdue (.vote part) .rewards).trans ?_
    show partReward config s summary part status + 0 = 0
    unfold partReward
    rw [hearns, Bool.and_false]
    rfl
  case inclusion_penalty => exact hdue .inclusionDelay .penalties
  case inclusion_reward =>
    refine (hdue .inclusionDelay .rewards).trans ?_
    show attesterShare config summary status + proposerRewards config summary i = _
    -- its own vote is not to be paid for, not even to itself as the proposer
    have hown : includedBy i status = false := by
      unfold includedBy
      rw [hearns, Bool.false_and]
    unfold attesterShare proposerRewards others
    rw [hearns, filter_eraseIdx _ (by rw [Array.getElem?_toList, hi]) hown]
    exact Nat.zero_add _
  case inactivity_reward => exact hdue .inactivity .rewards
  case inactivity_penalty =>
    refine (hdue .inactivity .penalties).trans ?_
    show leakPenalty config s summary status + 0 = _
    unfold leakPenalty finalityDelay
    rw [heligible, hearns, Word.toNat_subSaturating, Bool.true_and]
    rfl

/-! ## After a slashing -/

/-- After a successful slashing, in every state that still has the record and in every epoch before
    the withdrawable one, the validator is eligible and marked, adds to no stake and is charged in
    full.  The votes may be any, and so may be what has happened in between; whether the validator
    could be slashed does not matter once it was. -/
theorem chargedInFull_until_withdrawable {config : Config} {s s' t : State} {i proposer : Nat}
    {whistleblower : Option Nat} {v : Validator} {committees : Committees} {signal : StopSignal}
    {p p' : Progress} {summary : EpochSummary} (hconfig : config.problem? = none)
    (hslash : (slash config i proposer whistleblower).runOn s = (.ok (), s'))
    (hv : s'.validators[i]? = some v) (hlater : t.validators[i]? = some v)
    (hearly : currentEpoch config t < v.withdrawableEpoch)
    (hsummary : (Collect.summarize config t committees signal).runOn p = (.ok summary, p')) :
    ∃ status, summary.statuses[i]? = some status ∧ status.validator = v ∧
      status.eligible = true ∧ status.unslashed = false ∧ summary.StakesWithout config i ∧
      ∀ deltas, summary.deltas config t = .ok deltas →
        deltas.ChargedInFull config t summary i status := by
  obtain ⟨left, u, withdrawable, -, -, hwithdrawable, hrecord⟩ := (slashEffect_of_slash hslash).record
  rw [hv, Option.some.injEq] at hrecord
  have hslashed : v.slashed = true := by rw [hrecord]
  have hring : 2 ≤ v.withdrawableEpoch.toNat := by
    have htwo := Config.two_le_epochsPerSlashingsVector hconfig
    rw [hrecord]
    show 2 ≤ withdrawable.toNat
    omega
  obtain ⟨vs, votes, hc⟩ := Collect.collected_of_summarize hsummary
  obtain ⟨rfl, rfl⟩ := hc.of_state
  have hmember : t.validators.toList[i]? = some v := by
    rw [Array.getElem?_toList]
    exact hlater
  obtain ⟨status, hi, ht⟩ := hc.statuses.tallied i v hmember
  have heligible := eligible_of_slashed ht hslashed hring hearly
  have hmarked : status.unslashed = false := by
    rw [← Bool.not_eq_true, ht.unslashed, hslashed]
    exact nofun
  exact ⟨status, hi, ht.validator, heligible, hmarked, hc.stakesWithout hi hmarked,
    fun deltas hdeltas => EpochSummary.chargedInFull hdeltas hi heligible hmarked⟩

/-- The first of three validators is slashed, with the evidence brought in by the second. -/
def evidenceRun : Except Failure Unit × State :=
  (slash Config.minimal 0 1 none).runOn Collect.overlapping

/-- Five epochs later nothing but the slot has changed. -/
def slashedLater : State := { evidenceRun.2 with slot := 63 }

/-- The record of the first validator after that. -/
def slashedRecord : Validator :=
  { Collect.steady with slashed := true, exitEpoch := 7, withdrawableEpoch := 263 }

/-- In the leak of that epoch it is charged in full, although it has voted. -/
theorem chargedInFull_until_withdrawable_leaking : ∃ summary p' status deltas,
    (Collect.summarize Config.minimal slashedLater Collect.overlappingCommittees .never).runOn
      .start = (.ok summary, p') ∧
    summary.deltas Config.minimal slashedLater = .ok deltas ∧
    summary.statuses[0]? = some status ∧ status.previous.source = true ∧
    isLeaking Config.minimal slashedLater = true ∧ summary.StakesWithout Config.minimal 0 ∧
    deltas.ChargedInFull Config.minimal slashedLater summary 0 status := by
  have hslash : evidenceRun = (.ok (), evidenceRun.2) := eq_of_isOk (by decide +kernel)
  have hv : evidenceRun.2.validators[0]? = some slashedRecord := by decide +kernel
  have hlater : slashedLater.validators[0]? = some slashedRecord := by decide +kernel
  have hearly : currentEpoch Config.minimal slashedLater < slashedRecord.withdrawableEpoch := by
    decide +kernel
  have hok : ((Collect.summarize Config.minimal slashedLater Collect.overlappingCommittees .never
      >>= fun summary => Action.ofExcept (summary.deltas Config.minimal slashedLater)).runOn
        .start).1.isOk = true := by decide +kernel
  have hvoted : (((Collect.summarize Config.minimal slashedLater Collect.overlappingCommittees
      .never).runOn .start).1.toOption.bind fun summary =>
        summary.statuses[0]?.map fun status => status.previous.source) = some true := by
    decide +kernel
  obtain ⟨deltas, q, hrun⟩ := exists_of_isOk hok
  obtain ⟨summary, p', hsummary, h⟩ := runOn_bind_eq_ok_iff.mp hrun
  have hdeltas := (runOn_ofExcept_eq_ok_iff.mp h).1
  obtain ⟨status, hi, -, -, -, hstakes, hcharged⟩ :=
    chargedInFull_until_withdrawable (by decide +kernel) hslash hv hlater hearly hsummary
  rw [hsummary] at hvoted
  change summary.statuses[0]?.map (fun status => status.previous.source) = some true at hvoted
  rw [hi, Option.map_some, Option.some.injEq] at hvoted
  exact ⟨summary, p', status, deltas, hsummary, hdeltas, hi, hvoted, by decide +kernel, hstakes,
    hcharged deltas hdeltas⟩

end Beacon
