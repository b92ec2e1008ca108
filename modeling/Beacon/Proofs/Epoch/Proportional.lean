/-
  What the slashed pay.

  The penalty rounds twice, around a multiplication: the stake is taken in whole increments first, the
  fraction of them that is due is rounded down, and that many increments are paid.  In exact
  arithmetic this is `Reference.penalty`, and its laws are read off there: it is a number of
  increments (`dvd_penalty`), at most all of the stake (`penalty_le`) and all of it if as much was
  slashed as is active (`penalty_eq_of_le`), and it grows with what was slashed (`penalty_mono`).

  What was slashed is capped at the active stake before the multiplication, and that is what keeps the
  words from overflowing: a penalty that is computed at all is the exact one
  (`toNat_proportionalPenalty`).
-/
import Beacon.Proofs.Epoch.Stakes
import Beacon.Proofs.Ledger

namespace Beacon

open Beacon.Action Beacon.State

/-! ## The penalty in exact arithmetic -/

namespace Reference

/-- What a validator with this stake pays when so much was slashed, of a total. -/
def penalty (increment stake slashed total : Nat) : Nat :=
  increment * (stake / increment * min slashed total / total)

variable {increment stake slashed slashed' total : Nat}

theorem dvd_penalty : increment ∣ penalty increment stake slashed total := Nat.dvd_mul_right _ _

theorem penalty_le : penalty increment stake slashed total ≤ increment * (stake / increment) := by
  have hcap : stake / increment * min slashed total ≤ total * (stake / increment) := by
    rw [Nat.mul_comm total]
    exact Nat.mul_le_mul_left _ (Nat.min_le_right slashed total)
  exact Nat.mul_le_mul_left increment (Nat.div_le_of_le_mul hcap)

theorem penalty_eq_of_le (htotal : 0 < total) (h : total ≤ slashed) :
    penalty increment stake slashed total = increment * (stake / increment) := by
  unfold penalty
  rw [Nat.min_eq_right h, Nat.mul_div_cancel _ htotal]

theorem penalty_mono (h : slashed ≤ slashed') :
    penalty increment stake slashed total ≤ penalty increment stake slashed' total := by
  have hcap : min slashed total ≤ min slashed' total := min_le_min_right total h
  refine Nat.mul_le_mul_left increment (Nat.div_le_div_right ?_)
  exact Nat.mul_le_mul_left _ hcap

end Reference

/-! ## The penalty in words -/

section

variable {config : Config} {s : State}

theorem State.toNat_slashingsTotal {sum : Gwei} (h : s.slashingsTotal = .ok sum) :
    sum.toNat = s.ringTotal := by
  unfold slashingsTotal at h
  split at h
  · next total htotal =>
    cases h
    have hzero : (0 : Gwei).toNat = 0 := rfl
    rw [toNat_sumChecked _ htotal, hzero, Nat.zero_add]
    rfl
  · nomatch h

/-- What counts as slashed is the multiple of the ring's sum, in full, up to the total. -/
theorem toNat_adjustedSlashings {total : Divisor} {slashed : Gwei}
    (h : adjustedSlashings config total s = .ok slashed) :
    slashed.toNat =
      min (s.ringTotal * config.proportionalSlashingMultiplier.toNat) total.val.toNat := by
  obtain ⟨sum, hsum, h⟩ := bind_eq_ok_iff.mp h
  obtain ⟨product, hproduct, h⟩ := bind_eq_ok_iff.mp h
  rw [mapError_eq_ok_iff] at hsum
  rw [orFail_eq_ok_iff, Word.mulChecked_eq_some_iff, State.toNat_slashingsTotal hsum] at hproduct
  cases h
  show (if product ≤ total.val then product else total.val).toNat = _
  rw [← hproduct]
  split
  · next hle => exact (Nat.min_eq_left (UInt64.le_iff_toNat_le.mp hle)).symm
  · next hgt =>
    have hle : total.val.toNat ≤ product.toNat := by
      rw [UInt64.le_iff_toNat_le] at hgt
      omega
    exact (Nat.min_eq_right hle).symm

/-- A penalty that is computed is the exact one. -/
theorem toNat_proportionalPenalty {stake slashed penalty : Gwei} {total : Divisor} {amount : Nat}
    (hslashed : slashed.toNat = min amount total.val.toNat)
    (h : proportionalPenalty config stake slashed total = .ok penalty) :
    penalty.toNat = Reference.penalty config.effectiveBalanceIncrement.val.toNat stake.toNat amount
      total.val.toNat := by
  obtain ⟨increments, hincrements, h⟩ := bind_eq_ok_iff.mp h
  rw [orFail_eq_ok_iff, Word.mulDivChecked_eq_some_iff, Word.toNat_div] at hincrements
  rw [orFail_eq_ok_iff, Word.mulChecked_eq_some_iff] at h
  rw [h, hincrements.2, hslashed, Nat.mul_comm]
  rfl

/-- What everyone pays whose penalty is due. -/
theorem toNat_of_mem_penalties {summary : EpochSummary} {s t : State} {table : PenaltyTable}
    {i : Nat} {status : AttesterStatus} {penalty : Gwei}
    (hincreasing : summary.toSlash.Pairwise (· < ·))
    (hcharge : (chargeSlashed config summary).runOn s = (.ok table, t))
    (hstatus : summary.statuses[i]? = some status) (hentry : (i, penalty) ∈ table) :
    penalty.toNat = Reference.penalty config.effectiveBalanceIncrement.val.toNat
      status.validator.effectiveBalance.toNat
      (s.ringTotal * config.proportionalSlashingMultiplier.toNat)
      summary.totalActiveStake.val.toNat := by
  obtain ⟨-, -, hproportional⟩ := charged_of_chargeSlashed hcharge hincreasing
  obtain ⟨slashed, hslashed, status', hstatus', hpenalty⟩ := hproportional _ hentry
  unfold EpochSummary.status at hstatus'
  rw [orFail_eq_ok_iff, hstatus] at hstatus'
  cases hstatus'
  exact toNat_proportionalPenalty (toNat_adjustedSlashings hslashed) hpenalty

end

/-! ## Everyone who is due -/

/-- From `s` to `t` the validator with this record pays this penalty, given the total active stake.
    `whole` and `capped` say what the rounding comes to: it is in increments, and if as much was
    slashed as is active, it is all increments of the stake. -/
structure PaysInProportion (config : Config) (total : Nat) (s t : State) (i : Nat) (v : Validator)
    (penalty : Gwei) : Prop where
  due : penalty.toNat = Reference.penalty config.effectiveBalanceIncrement.val.toNat
    v.effectiveBalance.toNat (s.ringTotal * config.proportionalSlashingMultiplier.toNat) total
  whole : config.effectiveBalanceIncrement.val.toNat ∣ penalty.toNat
  atMost : penalty.toNat ≤ config.effectiveBalanceIncrement.val.toNat *
    (v.effectiveBalance.toNat / config.effectiveBalanceIncrement.val.toNat)
  capped : total ≤ s.ringTotal * config.proportionalSlashingMultiplier.toNat →
    penalty.toNat = config.effectiveBalanceIncrement.val.toNat *
      (v.effectiveBalance.toNat / config.effectiveBalanceIncrement.val.toNat)
  paid : ∃ old new : Gwei, s.balances[i]? = some old ∧ t.balances[i]? = some new ∧
    new.toNat = old.toNat - penalty.toNat

/-- Everyone whose penalty is due pays once, in proportion to what was slashed and at most what is
    there; nothing else changes, and after more slashings nobody would pay less. -/
theorem charged_in_proportion {config : Config} {s s₀ t : State} {committees : Committees}
    {signal : StopSignal} {summary : EpochSummary} {p p' : Progress} {table : PenaltyTable}
    (hsummary : (Collect.summarize config s₀ committees signal).runOn p = (.ok summary, p'))
    (hcharge : (chargeSlashed config summary).runOn s = (.ok table, t)) :
    table.map Prod.fst = summary.toSlash ∧ summary.toSlash.Nodup ∧
    (∀ i ∈ summary.toSlash, ∃ v penalty, s₀.validators[i]? = some v ∧ (i, penalty) ∈ table ∧
      PaysInProportion config summary.totalActiveStake.val.toNat s t i v penalty) ∧
    (∀ i, i ∉ summary.toSlash → t.balances[i]? = s.balances[i]?) ∧
    t = { s with balances := t.balances } ∧
    ∀ (s' t' : State) (table' : PenaltyTable), s.ringTotal ≤ s'.ringTotal →
      (chargeSlashed config summary).runOn s' = (.ok table', t') →
      ∀ i penalty penalty', (i, penalty) ∈ table → (i, penalty') ∈ table' → penalty ≤ penalty' := by
  obtain ⟨vs, votes, hc⟩ := Collect.collected_of_summarize hsummary
  obtain ⟨rfl, -⟩ := hc.of_state
  obtain ⟨due, -, htoSlash⟩ := hc.toSlash
  have hincreasing := hc.toSlash_pairwise
  obtain ⟨hkeys, hcharged, -⟩ := charged_of_chargeSlashed hcharge hincreasing
  -- whose penalty is due is in the registry, and has a status with the record found there
  have hknown : ∀ i ∈ summary.toSlash, ∃ v status, s₀.validators[i]? = some v ∧
      summary.statuses[i]? = some status ∧ status.validator = v := by
    intro i hi
    rw [htoSlash] at hi
    obtain ⟨v, hv, -⟩ := Collect.mem_indicesWhere_iff.mp hi
    obtain ⟨status, hstatus, ht⟩ := hc.statuses.tallied i v hv
    rw [Array.getElem?_toList] at hv
    exact ⟨v, status, hv, hstatus, ht.validator⟩
  refine ⟨hkeys, hincreasing.imp Nat.ne_of_lt, fun i hi => ?_, fun i hi => ?_,
    (chargeSlashed_onlyBalances s).of_runOn hcharge, ?_⟩
  · obtain ⟨v, status, hv, hstatus, rfl⟩ := hknown i hi
    rw [← hkeys] at hi
    obtain ⟨⟨_, penalty⟩, hentry, rfl⟩ := List.mem_map.mp hi
    have hpenalty := toNat_of_mem_penalties hincreasing hcharge hstatus hentry
    refine ⟨status.validator, penalty, hv, hentry, {
      due := hpenalty
      whole := by
        rw [hpenalty]
        exact Reference.dvd_penalty
      atMost := by
        rw [hpenalty]
        exact Reference.penalty_le
      capped := fun hcap => by
        rw [hpenalty]
        exact Reference.penalty_eq_of_le summary.totalActiveStake.toNat_pos hcap
      paid := hcharged.paid _ penalty hentry }⟩
  · rw [← hkeys] at hi
    exact hcharged.others i hi
  · intro s' t' table' hmore hcharge' i penalty penalty' hentry hentry'
    have hi : i ∈ summary.toSlash := by
      rw [← hkeys]
      exact List.mem_map_of_mem hentry
    obtain ⟨v, status, -, hstatus, -⟩ := hknown i hi
    rw [UInt64.le_iff_toNat_le, toNat_of_mem_penalties hincreasing hcharge hstatus hentry,
      toNat_of_mem_penalties hincreasing hcharge' hstatus hentry']
    exact Reference.penalty_mono (Nat.mul_le_mul_right _ hmore)

/-- A third of the active stake was slashed, and the multiplier makes two of it. -/
theorem charged_in_proportion_overlapping : ∃ summary p' t,
    (Collect.summarize Config.minimal Collect.overlapping Collect.overlappingCommittees
      .never).runOn .start = (.ok summary, p') ∧
    (chargeSlashed Config.minimal summary).runOn Collect.overlapping =
      (.ok [(2, 21000000000)], t) ∧
    PaysInProportion Config.minimal summary.totalActiveStake.val.toNat Collect.overlapping t 2
      { Collect.steady with slashed := true, withdrawableEpoch := 34 } 21000000000 := by
  have hrun : ((Collect.summarize Config.minimal Collect.overlapping Collect.overlappingCommittees
      .never).runOn .start).1.map (fun summary => (summary.toSlash,
        ((chargeSlashed Config.minimal summary).runOn Collect.overlapping).1)) =
      .ok ([2], .ok [(2, 21000000000)]) := rfl
  obtain ⟨summary, hok, hfound⟩ := map_eq_ok_iff.mp hrun
  rw [Prod.mk.injEq] at hfound
  have hsummary : (Collect.summarize Config.minimal Collect.overlapping
      Collect.overlappingCommittees .never).runOn .start = (.ok summary, _) := Prod.ext hok rfl
  have hcharge : (chargeSlashed Config.minimal summary).runOn Collect.overlapping =
      (.ok [(2, 21000000000)], _) := Prod.ext hfound.2 rfl
  obtain ⟨-, -, hall, -⟩ := charged_in_proportion hsummary hcharge
  have hdue : 2 ∈ summary.toSlash := by
    rw [hfound.1]
    exact List.mem_singleton.mpr rfl
  obtain ⟨v, penalty, hv, hentry, hpays⟩ := hall 2 hdue
  cases hv
  cases List.mem_singleton.mp hentry
  exact ⟨summary, _, _, hsummary, hcharge, hpays⟩

end Beacon
