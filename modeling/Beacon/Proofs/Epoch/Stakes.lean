/-
  The stakes of an epoch, as sums over the registry.

  The summary adds up effective balances as it goes through the statuses, each sum in its own filter
  of them, and the sums for target and head only count who has the parts before as well.  The
  specification is without statuses: `State.attestingStake` is the sum over the validators of the
  registry, each of them once, who are not slashed and got the part right in SOME vote
  (`Collect.GotRight`), however many votes they took part in.

  The two agree because a vote with the right head has the right target, and any vote at all has the
  right source (`GotRight.target`, `GotRight.source`): to have the parts before adds nothing.
-/
import Mathlib.Algebra.BigOperators.Fin
import Mathlib.Algebra.Order.BigOperators.Group.Finset
import Beacon.Proofs.Epoch.Rewards
import Beacon.Proofs.Registry.Exits

namespace Beacon

open Beacon.Action

/-! ## Parts of votes -/

namespace Collect

section

variable {σ : Type} [StateAccess σ] {config : Config} {s : σ} {committees : Committees}
  {epoch : RecentEpoch} {votes : List PendingAttestation} {i : Nat}

/-- Some vote in the list that the validator took part in got this part right.  The head counts only
    in a vote that agrees on the target too. -/
def GotRight (config : Config) (s : σ) (committees : Committees) (epoch : RecentEpoch)
    (votes : List PendingAttestation) (i : Nat) : Part → Prop
  | .source => ∃ vote ∈ votes, TookPart committees vote i
  | .target => ∃ vote ∈ votes, TookPart committees vote i ∧ AgreesOnTarget config s epoch vote
  | .head => ∃ vote ∈ votes, TookPart committees vote i ∧ AgreesOnTarget config s epoch vote ∧
      AgreesOnHead config s vote

theorem GotRight.target (h : GotRight config s committees epoch votes i .head) :
    GotRight config s committees epoch votes i .target := by
  obtain ⟨vote, hvote, hpart, htarget, -⟩ := h
  exact ⟨vote, hvote, hpart, htarget⟩

theorem GotRight.source (h : GotRight config s committees epoch votes i .target) :
    GotRight config s committees epoch votes i .source := by
  obtain ⟨vote, hvote, hpart, -⟩ := h
  exact ⟨vote, hvote, hpart⟩

/-- The marks of a validator are the parts it got right. -/
theorem Marks.got_iff {marks : Votes} (h : Marks config s committees epoch votes i marks)
    (part : Part) : marks.got part = true ↔ GotRight config s committees epoch votes i part := by
  cases part with
  | source => exact h.source
  | target => exact h.target
  | head => exact h.head

end

end Collect

/-! ## Sums over the registry -/

namespace State

open Classical in
/-- The stake of all validators with this property, each of them counted once. -/
noncomputable def stakeOf (s : State) (p : Nat → Validator → Prop) : Nat :=
  ∑ i : Fin s.validators.size,
    if p i s.validators[i] then s.validators[i].effectiveBalance.toNat else 0

/-- The stake of the unslashed validators that got this part right in some vote for the epoch. -/
noncomputable def attestingStake (config : Config) (s : State) (committees : Committees)
    (epoch : RecentEpoch) (part : Part) : Nat :=
  s.stakeOf fun i v => v.slashed = false ∧
    Collect.GotRight config s committees epoch (s.attestations epoch) i part

theorem stakeOf_mono {s : State} {p q : Nat → Validator → Prop} (h : ∀ i v, p i v → q i v) :
    s.stakeOf p ≤ s.stakeOf q := by
  refine Finset.sum_le_sum fun i _ => ?_
  split
  · next hp => rw [if_pos (h _ _ hp)]
  · exact Nat.zero_le _

/-- A sum over those in a list that pass a test, if the list has an entry for each validator. -/
theorem sum_filter_eq_stakeOf {α : Type} {s : State} {p : Nat → Validator → Prop}
    {list : List α} {test : α → Bool} {stake : α → Nat} (hsize : list.length = s.validators.size)
    (hentry : ∀ i a v, list[i]? = some a → s.validators[i]? = some v →
      (test a = true ↔ p i v) ∧ stake a = v.effectiveBalance.toNat) :
    ((list.filter test).map stake).sum = s.stakeOf p := by
  classical
  have hfilter : ((list.filter test).map stake).sum =
      (list.map fun a => if test a = true then stake a else 0).sum := by
    rw [List.sum_map_ite]
    simp
  unfold stakeOf
  rw [hfilter, ← Fin.sum_univ_fun_getElem list fun a => if test a = true then stake a else 0]
  refine Fintype.sum_equiv (finCongr hsize) _ _ fun i => ?_
  obtain ⟨htest, hstake⟩ := hentry i _ _ (List.getElem?_eq_getElem i.isLt)
    (Array.getElem?_eq_getElem (hsize ▸ i.isLt))
  exact if_congr htest hstake rfl

/-- A sum of words that succeeds is their sum. -/
theorem toNat_sumChecked (amounts : List Gwei) :
    ∀ {total sum : Gwei}, sumChecked total amounts = some sum →
      sum.toNat = total.toNat + (amounts.map UInt64.toNat).sum := by
  induction amounts with
  | nil =>
    intro total sum h
    cases h
    rfl
  | cons amount amounts ih =>
    intro total sum h
    obtain ⟨next, hnext, h⟩ := Option.bind_eq_some_iff.mp h
    rw [Word.addChecked_eq_some_iff] at hnext
    rw [ih h, hnext, List.map_cons, List.sum_cons, Nat.add_assoc]

end State

/-! ## Sums over the statuses -/

/-- The stake of the unslashed among those with a property. -/
def unslashedStake (statuses : List AttesterStatus) (p : AttesterStatus → Bool) : Nat :=
  ((statuses.filter fun status => status.unslashed && p status).map
    fun status => status.validator.effectiveBalance.toNat).sum

namespace Collect

theorem toNat_stakeWhere {config : Config} {statuses : Array AttesterStatus}
    {p : AttesterStatus → Bool} {stake : Divisor} (h : stakeWhere config statuses p = .ok stake) :
    stake.val.toNat =
      max (unslashedStake statuses.toList p) config.effectiveBalanceIncrement.val.toNat := by
  unfold stakeWhere at h
  rw [orFail_eq_ok_iff] at h
  obtain ⟨sum, hsum, rfl⟩ := Option.map_eq_some_iff.mp h
  have hzero : (0 : Gwei).toNat = 0 := rfl
  rw [Word.toNat_raiseTo, State.toNat_sumChecked _ hsum, hzero, Nat.zero_add, List.map_map]
  rfl

section

variable {config : Config} {s : State} {committees : Committees} {signal : StopSignal}
  {seen : RecentEpoch → List PendingAttestation} {statuses : Array AttesterStatus}
  {summary : EpochSummary} {i : Nat} {v : Validator} {status : AttesterStatus}

theorem Tallied.previous_got_iff (h : Tallied config s committees seen i v status) (part : Part) :
    status.previous.got part = true ↔
      GotRight config s committees .previous (seen .previous) i part :=
  h.previous.got_iff part

theorem Tallied.current_got_iff (h : Tallied config s committees seen i v status) (part : Part) :
    status.current.got part = true ↔
      GotRight config s committees .current (seen .current) i part :=
  h.current.got_iff part

/-- A sum over the statuses that test for a part of a vote is one over the registry. -/
theorem AllTallied.unslashedStake_eq
    (h : AllTallied config s committees seen s.validators.toList statuses)
    {test : AttesterStatus → Bool} {p : Nat → Prop}
    (htest : ∀ i v status, Tallied config s committees seen i v status →
      (test status = true ↔ p i)) :
    unslashedStake statuses.toList test = s.stakeOf fun i v => v.slashed = false ∧ p i := by
  refine State.sum_filter_eq_stakeOf (h.size.trans Array.length_toList) fun i status v hi hv => ?_
  rw [Array.getElem?_toList] at hi
  obtain ⟨u, hu, ht⟩ := h.exists_tallied hi
  rw [Array.getElem?_toList, hv] at hu
  cases hu
  rw [Bool.and_eq_true, ht.unslashed, htest i v status ht, ht.validator]
  exact ⟨Iff.rfl, rfl⟩

/-- Each sum for the previous epoch is the stake that got the part right: who has a part has those
    before it too. -/
theorem Collected.attestingStake_previous
    (hc : Collected config s committees s.validators.toList s.attestations summary) (part : Part) :
    (summary.previousStakes.of part).val.toNat =
      max (s.attestingStake config committees .previous part)
        config.effectiveBalanceIncrement.val.toNat := by
  have hsum : ∀ {test : AttesterStatus → Bool} {stake : Divisor},
      stakeWhere config summary.statuses test = .ok stake →
      (∀ i v status, Tallied config s committees s.attestations i v status →
        (test status = true ↔
          GotRight config s committees .previous s.previousAttestations i part)) →
      stake.val.toNat = max (s.attestingStake config committees .previous part)
        config.effectiveBalanceIncrement.val.toNat := by
    intro test stake hstake htest
    rw [toNat_stakeWhere hstake, hc.statuses.unslashedStake_eq htest]
    rfl
  cases part with
  | source => exact hsum hc.sourceStake fun i v status ht => ht.previous_got_iff .source
  | target =>
    refine hsum hc.targetStake fun i v status ht => ?_
    have hsource := ht.previous_got_iff .source
    have htarget := ht.previous_got_iff .target
    unfold Votes.got at hsource htarget
    rw [Bool.and_eq_true, hsource, htarget]
    exact and_iff_right_of_imp GotRight.source
  | head =>
    refine hsum hc.headStake fun i v status ht => ?_
    have hsource := ht.previous_got_iff .source
    have htarget := ht.previous_got_iff .target
    have hhead := ht.previous_got_iff .head
    unfold Votes.got at hsource htarget hhead
    rw [Bool.and_eq_true, Bool.and_eq_true, hsource, htarget, hhead]
    exact and_iff_right_of_imp fun h => ⟨h.target.source, h.target⟩

theorem Collected.attestingStake_current
    (hc : Collected config s committees s.validators.toList s.attestations summary) :
    summary.currentTargetStake.val.toNat =
      max (s.attestingStake config committees .current .target)
        config.effectiveBalanceIncrement.val.toNat := by
  have hsum := hc.statuses.unslashedStake_eq fun i v status ht => ht.current_got_iff .target
  rw [toNat_stakeWhere hc.currentTargetStake]
  exact congrArg (max · config.effectiveBalanceIncrement.val.toNat) hsum

theorem activeStake_eq (s : State) (epoch : Epoch) :
    activeStake epoch s.validators.toList = s.stakeOf fun _ v => v.isActive epoch = true := by
  refine State.sum_filter_eq_stakeOf Array.length_toList fun i v w hi hw => ?_
  rw [Array.getElem?_toList, hw, Option.some.injEq] at hi
  rw [hi]
  exact ⟨Iff.rfl, rfl⟩

end

end Collect

/-! ## All of it -/

/-- Every total of the summary is the stake of the validators it is for, each of them counted once,
    and at least an increment: of the active ones, and of the unslashed ones that got a part of the
    vote right.  Getting a part right is what the flags of the statuses say.  So the stakes decrease
    from source to target to head.  The churn limit is the one read off the registry. -/
theorem totals_eq_stakes {config : Config} {s : State} {committees : Committees}
    {signal : StopSignal} {summary : EpochSummary} {p p' : Progress}
    (h : (Collect.summarize config s committees signal).runOn p = (.ok summary, p')) :
    (summary.totalActiveStake.val.toNat =
      max (s.stakeOf fun _ v => v.isActive (currentEpoch config s) = true)
        config.effectiveBalanceIncrement.val.toNat) ∧
    (∀ part, (summary.previousStakes.of part).val.toNat =
      max (s.attestingStake config committees .previous part)
        config.effectiveBalanceIncrement.val.toNat) ∧
    (summary.currentTargetStake.val.toNat =
      max (s.attestingStake config committees .current .target)
        config.effectiveBalanceIncrement.val.toNat) ∧
    (∀ i v, s.validators[i]? = some v → ∃ status, summary.statuses[i]? = some status ∧
      (status.unslashed = true ↔ v.slashed = false) ∧
      ∀ part, (status.previous.got part = true ↔
          Collect.GotRight config s committees .previous s.previousAttestations i part) ∧
        (status.current.got part = true ↔
          Collect.GotRight config s committees .current s.currentAttestations i part)) ∧
    summary.previousStakes.target.val ≤ summary.previousStakes.source.val ∧
    summary.previousStakes.head.val ≤ summary.previousStakes.target.val ∧
    config.effectiveBalanceIncrement.val ≤ summary.previousStakes.head.val ∧
    (summary.activeValidators =
      s.validators.toList.countP fun v => v.isActive (currentEpoch config s)) ∧
    registryChurnLimit config s = .ok summary.churnLimit := by
  obtain ⟨vs, votes, hc⟩ := Collect.collected_of_summarize h
  obtain ⟨rfl, rfl⟩ := hc.of_state
  have hprevious := hc.attestingStake_previous
  have hsource : summary.previousStakes.source.val.toNat = _ := hprevious .source
  have htarget : summary.previousStakes.target.val.toNat = _ := hprevious .target
  have hhead : summary.previousStakes.head.val.toNat = _ := hprevious .head
  have htarget_le : s.attestingStake config committees .previous .target ≤
      s.attestingStake config committees .previous .source :=
    State.stakeOf_mono fun i v h => ⟨h.1, h.2.source⟩
  have hhead_le : s.attestingStake config committees .previous .head ≤
      s.attestingStake config committees .previous .target :=
    State.stakeOf_mono fun i v h => ⟨h.1, h.2.target⟩
  refine ⟨?_, hprevious, hc.attestingStake_current, fun i v hv => ?_, ?_, ?_, ?_,
    hc.activeValidators, ?_⟩
  · rw [hc.totalActiveStake, Collect.activeStake_eq]
  · rw [← Array.getElem?_toList] at hv
    obtain ⟨status, hstatus, ht⟩ := hc.statuses.tallied i v hv
    exact ⟨status, hstatus, ht.unslashed,
      fun part => ⟨ht.previous_got_iff part, ht.current_got_iff part⟩⟩
  · rw [UInt64.le_iff_toNat_le]
    omega
  · rw [UInt64.le_iff_toNat_le]
    omega
  · rw [UInt64.le_iff_toNat_le]
    omega
  · rw [State.registryChurnLimit_eq, hc.churnLimit, hc.activeValidators]
    rfl

/-- The same three validators.  The first stands in a committee twice, and its vote was included
    twice; the second voted for another target, and so did the third, who is slashed. -/
def halfRight : State :=
  let vote : PendingAttestation :=
    { aggregationBits := [true, false, true],
      data := { (default : AttestationData) with slot := 9 }, inclusionDelay := 2,
      proposerIndex := 1 }
  { Collect.overlapping with
    previousAttestations := vote :: vote :: Collect.overlapping.previousAttestations.drop 1 }

/-- All three are active, two of them count for the source, and the first counts once for the
    target. -/
theorem totals_eq_stakes_halfRight : ∃ summary p',
    (Collect.summarize Config.minimal halfRight Collect.overlappingCommittees .never).runOn .start =
      (.ok summary, p') ∧
    max (halfRight.stakeOf fun _ v => v.isActive 2 = true) 1000000000 = 96000000000 ∧
    max (halfRight.attestingStake Config.minimal Collect.overlappingCommittees .previous .source)
      1000000000 = 64000000000 ∧
    max (halfRight.attestingStake Config.minimal Collect.overlappingCommittees .previous .target)
      1000000000 = 32000000000 ∧
    summary.previousStakes.head.val ≤ summary.previousStakes.target.val ∧
    registryChurnLimit Config.minimal halfRight = .ok summary.churnLimit := by
  have hok : ((Collect.summarize Config.minimal halfRight Collect.overlappingCommittees
      .never).runOn .start).1.isOk = true := by decide +kernel
  have htotals : (((Collect.summarize Config.minimal halfRight Collect.overlappingCommittees
      .never).runOn .start).1.toOption.map fun summary => (summary.totalActiveStake.val.toNat,
        summary.previousStakes.source.val.toNat, summary.previousStakes.target.val.toNat)) =
      some (96000000000, 64000000000, 32000000000) := by decide +kernel
  obtain ⟨summary, p', h⟩ := exists_of_isOk hok
  rw [h] at htotals
  have htotals' := Option.some.inj htotals
  rw [Prod.mk.injEq, Prod.mk.injEq] at htotals'
  obtain ⟨hactive, hprevious, -, -, -, hhead, -, -, hlimit⟩ := totals_eq_stakes h
  exact ⟨summary, p', h, hactive.symm.trans htotals'.1, (hprevious .source).symm.trans htotals'.2.1,
    (hprevious .target).symm.trans htotals'.2.2, hhead, hlimit⟩

end Beacon
