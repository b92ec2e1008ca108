/-
  Within the bounds of the protocol no amount of an epoch leaves the range of words.

  The bounds are on a state: on the effective balances, one by one and together, on the epochs that
  finality is behind, and on the ring of slashed amounts (`State.WithinBounds`).  They carry over to
  every summary of the state (`EpochSummary.WithinBounds`), and from there everything is read off the
  exact amounts of the reference:
    * the total is at least an increment, so that its root is at least 31622; this makes a base reward
      less than 2 ^ 24 (`base_lt`) and no more than the effective balance (`base_le`);
    * what a validator's own status calls for is less than 2 ^ 59 (`own_lt`), because the part of the
      stake that a leak costs is small;
    * what proposers get is no more than the stakes it is computed from, so that a proposer who
      included all the votes gets less than 2 ^ 59 too (`sum_paid_lt`).
  So all that is due in one list is less than 2 ^ 60 (`sum_added_lt`).  All partial sums are below
  it, and there are only five families to add up.

  No part of an epoch touches the bounds (`serves`), so that they hold from its start to its end.
-/
import Beacon.Proofs.Epoch.Failures
import Beacon.Proofs.Epoch.Proportional

namespace Beacon

open Beacon.Action Beacon.State

/-! ## The bounds -/

/-- Constants that keep the amounts of an epoch small. -/
structure Config.Moderate (config : Config) : Prop where
  increment : config.effectiveBalanceIncrement.val.toNat = 10 ^ 9
  maximum : config.maxEffectiveBalance.toNat = 32 * 10 ^ 9
  factor : config.baseRewardFactor.toNat = 64
  multiplier : config.proportionalSlashingMultiplier.toNat ≤ 2
  quotient : 2 ^ 25 ≤ config.inactivityPenaltyQuotient.val.toNat

theorem Config.moderate_of_preset {config : Config}
    (h : config = Config.mainnet ∨ config = Config.minimal) : config.Moderate := by
  rcases h with rfl | rfl
  · exact ⟨by decide, by decide, by decide, by decide, by decide⟩
  · exact ⟨by decide, by decide, by decide, by decide, by decide⟩

/-- A state within the bounds of the protocol. -/
structure State.WithinBounds (config : Config) (s : State) : Prop where
  stake_le : ∀ v ∈ s.validators.toList, v.effectiveBalance ≤ config.maxEffectiveBalance
  stakes_lt : stakeSum s.validators.toList < 2 ^ 59
  delay_lt : (finalityDelay config s).toNat < 2 ^ 29
  ring_lt : s.ringTotal < 2 ^ 63

/-- What the amounts of an epoch depend on, within bounds. -/
structure EpochSummary.WithinBounds (summary : EpochSummary) : Prop where
  stake_le : ∀ status ∈ summary.statuses.toList,
    status.validator.effectiveBalance.toNat ≤ 32 * 10 ^ 9
  stakes_lt : stakeSum (summary.statuses.toList.map AttesterStatus.validator) < 2 ^ 59
  total_ge : 10 ^ 9 ≤ summary.totalActiveStake.val.toNat
  total_lt : summary.totalActiveStake.val.toNat < 2 ^ 59
  attesting_lt : ∀ part, (summary.previousStakes.of part).val.toNat < 2 ^ 59

theorem Collect.Collected.withinBounds {config : Config} {s : State} {committees : Committees}
    {votes : RecentEpoch → List PendingAttestation} {summary : EpochSummary}
    (hconfig : config.Moderate) (hs : s.WithinBounds config)
    (hc : Collected config s committees s.validators.toList votes summary) :
    summary.WithinBounds := by
  have hvalidators := hc.statuses.map_validator
  have hincrement := hconfig.increment
  have hstakes := hs.stakes_lt
  have hstake : ∀ {test : AttesterStatus → Bool} {stake : Divisor},
      stakeWhere config summary.statuses test = .ok stake → stake.val.toNat < 2 ^ 59 := by
    intro test stake h
    have hpart : unslashedStake summary.statuses.toList test ≤ stakeSum s.validators.toList :=
      hc.statuses.stakes_le fun status => status.unslashed && test status
    rw [toNat_stakeWhere h]
    omega
  constructor
  case stake_le =>
    intro status hstatus
    have hmem : status.validator ∈ s.validators.toList := by
      rw [← hvalidators]
      exact List.mem_map_of_mem hstatus
    have hle := UInt64.le_iff_toNat_le.mp (hs.stake_le _ hmem)
    rwa [hconfig.maximum] at hle
  case stakes_lt =>
    rw [hvalidators]
    exact hstakes
  case total_ge =>
    rw [hc.totalActiveStake, hincrement]
    exact Nat.le_max_right _ _
  case total_lt =>
    have hactive : activeStake (Beacon.currentEpoch config s) s.validators.toList ≤
        stakeSum s.validators.toList :=
      sum_map_filter_le (fun v : Validator => v.effectiveBalance.toNat) _ _
    rw [hc.totalActiveStake]
    omega
  case attesting_lt =>
    intro part
    cases part with
    | source => exact hstake hc.sourceStake
    | target => exact hstake hc.targetStake
    | head => exact hstake hc.headStake

/-- Summing up a state within bounds gives a summary within bounds, whatever the votes. -/
theorem Collect.withinBounds_of_summarize {config : Config} {s : State} {committees : Committees}
    {signal : StopSignal} {summary : EpochSummary} {p p' : Progress} (hconfig : config.Moderate)
    (hs : s.WithinBounds config)
    (h : (summarize config s committees signal).runOn p = (.ok summary, p')) :
    summary.WithinBounds := by
  obtain ⟨vs, votes, hc⟩ := collected_of_summarize h
  obtain ⟨rfl, -⟩ := hc.of_state
  exact hc.withinBounds hconfig hs

/-! ## What is due -/

namespace Reference

variable {config : Config} {s : State} {summary : EpochSummary} {status : AttesterStatus}

/-- The root of the total is at least that of an increment. -/
theorem le_root (h : summary.WithinBounds) :
    31622 ≤ Nat.sqrt summary.totalActiveStake.val.toNat := by
  have hge := h.total_ge
  exact Nat.le_sqrt.mpr (by omega)

theorem base_le_div (hconfig : config.Moderate) (h : summary.WithinBounds)
    (status : AttesterStatus) :
    base config summary status ≤ status.validator.effectiveBalance.toNat * 64 / 31622 / 4 := by
  unfold base
  rw [hconfig.factor]
  exact Nat.div_le_div_right (Nat.div_le_div_left (le_root h) (by decide))

theorem base_le (hconfig : config.Moderate) (h : summary.WithinBounds) (status : AttesterStatus) :
    base config summary status ≤ status.validator.effectiveBalance.toNat := by
  have hle := base_le_div hconfig h status
  omega

theorem base_lt (hconfig : config.Moderate) (h : summary.WithinBounds)
    (hstatus : status ∈ summary.statuses.toList) : base config summary status < 2 ^ 24 := by
  have hle := base_le_div hconfig h status
  have hstake := h.stake_le status hstatus
  omega

theorem proposerShare_le (config : Config) (summary : EpochSummary) (status : AttesterStatus) :
    proposerShare config summary status ≤ base config summary status :=
  Nat.div_le_self _ _

/-- The product that a part's value is taken from. -/
theorem value_lt (hconfig : config.Moderate) (h : summary.WithinBounds)
    (hstatus : status ∈ summary.statuses.toList) (part : Part) :
    base config summary status * ((summary.previousStakes.of part).val.toNat /
      config.effectiveBalanceIncrement.val.toNat) < 2 ^ 54 := by
  have hbase := base_lt hconfig h hstatus
  have hattesting := h.attesting_lt part
  have hincrements : (summary.previousStakes.of part).val.toNat /
      config.effectiveBalanceIncrement.val.toNat < 2 ^ 30 := by
    rw [hconfig.increment]
    omega
  calc _ < 2 ^ 24 * 2 ^ 30 := Nat.mul_lt_mul'' hbase hincrements
    _ = 2 ^ 54 := rfl

theorem partValue_lt (hconfig : config.Moderate) (h : summary.WithinBounds)
    (hstatus : status ∈ summary.statuses.toList) (part : Part) :
    partValue config s summary part status < 2 ^ 54 := by
  have hbase := base_lt hconfig h hstatus
  unfold partValue
  split
  · omega
  · exact Nat.lt_of_le_of_lt (Nat.div_le_self _ _) (value_lt hconfig h hstatus part)

/-- The product that the further penalty of a leak is taken from. -/
theorem absent_lt (h : summary.WithinBounds) (hstatus : status ∈ summary.statuses.toList)
    (hs : s.WithinBounds config) :
    status.validator.effectiveBalance.toNat * (finalityDelay config s).toNat <
      32 * 10 ^ 9 * 2 ^ 29 := by
  have hstake := h.stake_le status hstatus
  have hdelay := hs.delay_lt
  calc status.validator.effectiveBalance.toNat * (finalityDelay config s).toNat
      ≤ 32 * 10 ^ 9 * (finalityDelay config s).toNat := Nat.mul_le_mul_right _ hstake
    _ < 32 * 10 ^ 9 * 2 ^ 29 := by omega

theorem leakPenalty_lt (hconfig : config.Moderate) (h : summary.WithinBounds)
    (hstatus : status ∈ summary.statuses.toList) (hs : s.WithinBounds config) :
    leakPenalty config s summary status < 2 ^ 40 := by
  have hbase := base_lt hconfig h hstatus
  have hproduct := absent_lt h hstatus hs
  have hquotient : status.validator.effectiveBalance.toNat * (finalityDelay config s).toNat /
      config.inactivityPenaltyQuotient.val.toNat ≤
        status.validator.effectiveBalance.toNat * (finalityDelay config s).toNat / 2 ^ 25 :=
    Nat.div_le_div_left hconfig.quotient (by decide)
  have hdelay : (finalityDelay config s).toNat =
      (previousEpoch config s).toNat - (StateAccess.finalizedCheckpoint s).epoch.toNat :=
    Word.toNat_subSaturating _ _
  rw [hdelay] at hproduct hquotient
  unfold leakPenalty
  split
  · split
    · omega
    · omega
  · decide

/-- What a validator's own status calls for. -/
theorem own_lt (hconfig : config.Moderate) (h : summary.WithinBounds)
    (hstatus : status ∈ summary.statuses.toList) (hs : s.WithinBounds config) (family : Family)
    (side : Side) : own config s summary family side status < 2 ^ 59 := by
  have hbase := base_lt hconfig h hstatus
  cases family with
  | vote part =>
    cases side with
    | rewards =>
      have hvalue := partValue_lt (s := s) hconfig h hstatus part
      show partReward config s summary part status < 2 ^ 59
      unfold partReward
      split <;> omega
    | penalties =>
      show partPenalty config summary part status < 2 ^ 59
      unfold partPenalty
      split <;> omega
  | inclusionDelay =>
    cases side with
    | rewards =>
      show attesterShare config summary status < 2 ^ 59
      unfold attesterShare
      split
      · split
        · next inclusion _ =>
          have hshare := Nat.div_le_self
            (base config summary status - proposerShare config summary status)
            inclusion.delay.val.toNat
          omega
        · decide
      · decide
    | penalties => exact Nat.two_pow_pos 59
  | inactivity =>
    cases side with
    | rewards => exact Nat.two_pow_pos 59
    | penalties =>
      have hpenalty := leakPenalty_lt hconfig h hstatus hs
      show leakPenalty config s summary status < 2 ^ 59
      omega

/-- All shares of a proposer together are part of the stakes they are computed from. -/
theorem sum_paid_lt (hconfig : config.Moderate) (h : summary.WithinBounds) (family : Family)
    (side : Side) (i : Nat) :
    (summary.statuses.toList.map fun status =>
      paid config summary family side status i).sum < 2 ^ 59 := by
  have hone : ∀ status, paid config summary family side status i ≤
      status.validator.effectiveBalance.toNat := by
    intro status
    have hbase := base_le hconfig h status
    have hshare := proposerShare_le config summary status
    unfold paid
    split
    · split <;> omega
    · exact Nat.zero_le _
  have hstakes := h.stakes_lt
  unfold stakeSum at hstakes
  rw [List.map_map] at hstakes
  exact Nat.lt_of_le_of_lt (List.sum_le_sum fun status _ => hone status) hstakes

/-- All that is due in one list. -/
theorem sum_added_lt (hconfig : config.Moderate) (h : summary.WithinBounds)
    (hs : s.WithinBounds config) (family : Family) (side : Side) (i : Nat) :
    ((summary.statuses.toList.zipIdx 0).map fun (status, index) =>
      added config s summary family side index status i).sum < 2 ^ 60 := by
  have hsum := sum_zipIdx (own config s summary family side)
    (fun status => paid config summary family side status i) i summary.statuses.toList 0
  rw [if_pos (Nat.zero_le i), Nat.sub_zero] at hsum
  have hpaid := sum_paid_lt hconfig h family side i
  have hown : (summary.statuses.toList[i]?.map (own config s summary family side)).getD 0 <
      2 ^ 59 := by
    rcases hi : summary.statuses.toList[i]? with _ | status
    · exact Nat.two_pow_pos 59
    · exact own_lt hconfig h (List.mem_of_getElem? hi) hs family side
  refine Nat.lt_of_le_of_lt (Nat.le_of_eq hsum) ?_
  omega

end Reference

/-! ## What has room -/

namespace Deltas

theorem exists_family {deltas : Deltas} {family : FamilyDeltas} (h : family ∈ deltas.families) :
    ∃ name, family = deltas.family name := by
  unfold families at h
  simp only [List.mem_cons, List.not_mem_nil, or_false] at h
  rcases h with rfl | rfl | rfl | rfl | rfl
  · exact ⟨.vote .source, rfl⟩
  · exact ⟨.vote .target, rfl⟩
  · exact ⟨.vote .head, rfl⟩
  · exact ⟨.inclusionDelay, rfl⟩
  · exact ⟨.inactivity, rfl⟩

/-- Where all families have an entry, small entries can be added up. -/
theorem sumAt_ne_none {index bound : Nat} (families : List FamilyDeltas) :
    (∀ family ∈ families, ∀ side,
      index < (family.list side).size ∧ amountAt (family.list side) index ≤ bound) →
    ∀ {reward penalty : Gwei}, reward.toNat + families.length * bound < wordRange →
      penalty.toNat + families.length * bound < wordRange →
      sumAt index (reward, penalty) families ≠ none := by
  induction families with
  | nil => exact fun _ _ _ _ _ hnone => nomatch hnone
  | cons family families ih =>
    intro hentry reward penalty hreward hpenalty hnone
    rw [List.length_cons, Nat.succ_mul] at hreward hpenalty
    have hone : ∀ side, ∃ amount : Gwei,
        (family.list side)[index]? = some amount ∧ amount.toNat ≤ bound := by
      intro side
      obtain ⟨hlt, hle⟩ := hentry family List.mem_cons_self side
      unfold amountAt at hle
      rw [Array.getElem?_eq_getElem hlt] at hle
      exact ⟨_, Array.getElem?_eq_getElem hlt, hle⟩
    obtain ⟨more, hmore, hmore'⟩ := hone .rewards
    obtain ⟨less, hless, hless'⟩ := hone .penalties
    change family.rewards[index]? = some more at hmore
    change family.penalties[index]? = some less at hless
    obtain ⟨reward', hadd⟩ : ∃ sum, Word.addChecked reward more = some sum :=
      Option.ne_none_iff_exists'.mp (Word.addChecked_ne_none (by omega))
    obtain ⟨penalty', hadd'⟩ : ∃ sum, Word.addChecked penalty less = some sum :=
      Option.ne_none_iff_exists'.mp (Word.addChecked_ne_none (by omega))
    unfold sumAt at hnone
    rw [hmore, hless] at hnone
    dsimp only [bind, Option.bind] at hnone
    rw [hadd, hadd'] at hnone
    rw [Word.addChecked_eq_some_iff] at hadd hadd'
    exact ih (fun family hfamily => hentry family (List.mem_cons_of_mem _ hfamily)) (by omega)
      (by omega) hnone

/-- Five times the largest entry is a word. -/
theorem exists_totals {deltas : Deltas} {bound : Nat} (hbound : 5 * bound < wordRange)
    (hentry : ∀ index < deltas.source.rewards.size, ∀ family side,
      index < ((deltas.family family).list side).size ∧
        amountAt ((deltas.family family).list side) index ≤ bound) :
    ∃ sums, deltas.totals = .ok sums := by
  have hroom : (0 : Gwei).toNat + deltas.families.length * bound < wordRange := by
    rwa [UInt64.toNat_zero, Nat.zero_add]
  have hnever : FailsAs (fun _ => False) deltas.totals := by
    refine .mapM _ fun index hindex => .orFail_of_ne_none ?_
    rw [List.mem_range] at hindex
    refine sumAt_ne_none deltas.families (fun family hfamily side => ?_) hroom hroom
    obtain ⟨name, rfl⟩ := exists_family hfamily
    exact hentry index hindex name side
  rcases h : deltas.totals with failure | sums
  · exact (hnever failure h).elim
  · exact ⟨sums, rfl⟩

end Deltas

namespace EpochSummary.WithinBounds

open Reference

variable {config : Config} {s : State} {summary : EpochSummary}

theorem deltasFit (hconfig : config.Moderate) (h : summary.WithinBounds)
    (hs : s.WithinBounds config) : summary.DeltasFit config s where
  amounts status hstatus := by
    have hstake := h.stake_le status hstatus
    have hbase := base_lt hconfig h hstatus
    constructor
    case worth =>
      rw [hconfig.factor]
      unfold wordRange
      omega
    case value => exact fun part => (value_lt hconfig h hstatus part).trans (by decide)
    case canceling =>
      unfold wordRange
      omega
    case absence => exact (absent_lt h hstatus hs).trans (by decide)
  sums family side i := (sum_added_lt hconfig h hs family side i).trans (by decide)

/-- A stake is at most 32 increments, and 32 times the total is a word. -/
theorem chargesFit (hconfig : config.Moderate) (h : summary.WithinBounds) :
    summary.ChargesFit config := by
  intro i status hi
  rw [← Array.getElem?_toList] at hi
  have hstake := h.stake_le status (List.mem_of_getElem? hi)
  have htotal := h.total_lt
  have hincrements : status.validator.effectiveBalance.toNat /
      config.effectiveBalanceIncrement.val.toNat ≤ 32 := by
    rw [hconfig.increment]
    omega
  calc _ ≤ 32 * summary.totalActiveStake.val.toNat := Nat.mul_le_mul_right _ hincrements
    _ < wordRange := by
      unfold wordRange
      omega

/-- The sums over the families are words, and every list has an entry to add. -/
theorem exists_totals (hconfig : config.Moderate) (h : summary.WithinBounds)
    (hs : s.WithinBounds config) {deltas : Deltas} (hdeltas : summary.deltas config s = .ok deltas) :
    ∃ sums, deltas.totals = .ok sums := by
  have hbound : 5 * 2 ^ 60 < wordRange := by decide
  refine Deltas.exists_totals hbound fun i hi family side => ?_
  have hsource : deltas.source.rewards.size = summary.statuses.size :=
    (amountAt_deltas hdeltas (.vote .source) .rewards).1
  obtain ⟨hsize, hamount⟩ := amountAt_deltas hdeltas family side
  have hstatus := Array.getElem?_eq_getElem (hsource ▸ hi)
  have hsum := sum_added_lt hconfig h hs family side i
  rw [sum_added family side hstatus, ← hamount i _ hstatus] at hsum
  exact ⟨by omega, Nat.le_of_lt hsum⟩

end EpochSummary.WithinBounds

/-! ## Steps within bounds -/

namespace State.WithinBounds

variable {config : Config} {s t : State}

theorem stakesFit (h : s.WithinBounds config) : StakesFit 0 (StateAccess.validators s) := by
  have hlt := h.stakes_lt
  refine ⟨s.validators.toList, rfl, ?_⟩
  unfold wordRange
  omega

theorem slashingsFit (hconfig : config.Moderate) (h : s.WithinBounds config) :
    SlashingsFit config s := by
  intro sum hsum
  have hring := h.ring_lt
  rw [State.toNat_slashingsTotal hsum]
  calc s.ringTotal * config.proportionalSlashingMultiplier.toNat
      ≤ s.ringTotal * 2 := Nat.mul_le_mul_left _ hconfig.multiplier
    _ < wordRange := by
      unfold wordRange
      omega

/-- The bounds are on the stakes, the time and the ring only. -/
theorem of_keeps (h : s.WithinBounds config) (hstake : Keeps Validator.effectiveBalance s t)
    (hdelay : finalityDelay config t = finalityDelay config s) (hring : t.ringTotal = s.ringTotal) :
    t.WithinBounds config where
  stake_le v hv := by
    have hmem := List.mem_map_of_mem (f := Validator.effectiveBalance) hv
    rw [hstake.map_toList] at hmem
    obtain ⟨u, hu, hsame⟩ := List.mem_map.mp hmem
    exact hsame ▸ h.stake_le u hu
  stakes_lt := by
    have hsame : stakeSum t.validators.toList = stakeSum s.validators.toList :=
      congrArg List.sum (hstake.of_aspect (g := UInt64.toNat)).map_toList
    rw [hsame]
    exact h.stakes_lt
  delay_lt := hdelay ▸ h.delay_lt
  ring_lt := hring ▸ h.ring_lt

theorem write_record (h : s.WithinBounds config) {w : Write} {index : Nat}
    {change : Validator → Validator} (hw : w.record? = some (index, change))
    (hchange : ∀ v, (change v).effectiveBalance = v.effectiveBalance) :
    (StateAccess.write w s).2.WithinBounds config := by
  rw [State.write_record hw]
  split
  · exact h.of_keeps (Keeps.editRecord s index hchange) rfl rfl
  · exact h

/-- Only the ring itself can be driven out of bounds by a write. -/
theorem serves {P : Failure → Prop} (haccess : ∀ cause, P (.access cause)) :
    Serves P (State.WithinBounds config) fun _ => True where
  validator _ _ := .access haccess _
  balance _ _ := .access haccess _
  write := by
    intro s index w h hw _
    refine ⟨.write haccess w s, ?_⟩
    cases w with
    | balance index amount =>
      show ((Action.write (.balance index amount)).runOn s).2.WithinBounds config
      rw [State.runOn_write_balance]
      split
      · exact h.of_keeps (Keeps.refl s) rfl rfl
      · exact h
    | slashing epoch amount => nomatch hw
    | _ => exact h.write_record rfl fun _ => rfl

end State.WithinBounds

section

variable {P : Failure → Prop} (hP : Failure.CoversFatal P) {config : Config} {s : State}
  {summary : EpochSummary}

include hP

theorem EpochSummary.status_failsAs (summary : EpochSummary) (i : Nat) :
    FailsAs P (summary.status i) := by
  refine .orFail ?_ _
  exact hP.violated (by simp)

theorem State.WithinBounds.summarize_stopsAs (hs : s.WithinBounds config)
    (committees : Committees) (signal : StopSignal) (p : Progress) :
    StopsAs P (Collect.summarize config s committees signal) p :=
  Collect.summarize_stopsAs_of_room config s committees signal hP (.inr hs.stakesFit) p

theorem EpochSummary.WithinBounds.deltas_failsAs (hconfig : config.Moderate)
    (h : summary.WithinBounds) (hs : s.WithinBounds config) :
    FailsAs P (summary.deltas config s) :=
  summary.deltas_failsAs_of_room config s (.inr (h.deltasFit hconfig hs))
    fun _ _ _ _ _ => hP.violated (by simp)

theorem EpochSummary.WithinBounds.chargeSlashed_runsAs (hconfig : config.Moderate)
    (h : summary.WithinBounds) (hs : s.WithinBounds config) :
    RunsAs P (State.WithinBounds config) (chargeSlashed config summary) s :=
  Beacon.chargeSlashed_runsAs (State.WithinBounds.serves hP.access)
    (.inr ⟨hs.slashingsFit hconfig, h.chargesFit hconfig⟩) (fun _ _ => trivial)
    (fun i _ => summary.status_failsAs hP i) hs (.access hP.access _)

/-- A registry that is updated stays within bounds. -/
theorem State.WithinBounds.applyQueues_runsAs (hoverflow : P .overflow)
    (hs : s.WithinBounds config) (summary : EpochSummary) :
    RunsAs P (State.WithinBounds config) (applyQueues config summary) s :=
  Beacon.applyQueues_runsAs (serves hP.access) (hP.violated (by simp)) (.inl hoverflow)
    (fun _ _ => trivial) (fun i _ => summary.status_failsAs hP i) hs

end

/-! ## All of it -/

/-- On a state within bounds no balance leaves the range of words, for any votes, committees and
    proposers: not in summing up, not in the rewards and penalties, whose sums over the families are
    always there, and not in what the slashed are charged.  The amounts may be those of a later state
    than the one that was summed up, as after an update of the registry. -/
theorem balances_stay_words {config : Config}
    (hconfig : config = Config.mainnet ∨ config = Config.minimal) {s t : State}
    (hs : s.WithinBounds config) (ht : t.WithinBounds config) (committees : Committees)
    (signal : StopSignal) (p : Progress) :
    StopsAs (· ≠ .violated .balanceOverflow) (Collect.summarize config s committees signal) p ∧
    ∀ summary p', (Collect.summarize config s committees signal).runOn p = (.ok summary, p') →
      FailsAs (· ≠ .violated .balanceOverflow) (summary.deltas config t) ∧
      (∀ deltas, summary.deltas config t = .ok deltas → ∃ sums, deltas.totals = .ok sums) ∧
      StopsAs (· ≠ .violated .balanceOverflow) (chargeSlashed config summary) t := by
  have hconfig := Config.moderate_of_preset hconfig
  have hcovers : Failure.CoversFatal (· ≠ .violated .balanceOverflow) := fun _ _ h => h
  refine ⟨hs.summarize_stopsAs hcovers committees signal p, fun summary p' hsummary => ?_⟩
  have hbounds := Collect.withinBounds_of_summarize hconfig hs hsummary
  refine ⟨hbounds.deltas_failsAs hcovers hconfig ht, fun deltas hdeltas => ?_, ?_⟩
  · exact hbounds.exists_totals hconfig ht hdeltas
  · exact (hbounds.chargeSlashed_runsAs hcovers hconfig ht).stops

/-- The three validators are summed up, there are rewards and penalties for them, and the slashed one
    is charged. -/
theorem balances_stay_words_overlapping : Collect.overlapping.WithinBounds Config.minimal ∧
    ∃ summary p' deltas sums,
      (Collect.summarize Config.minimal Collect.overlapping Collect.overlappingCommittees .never).runOn
        .start = (.ok summary, p') ∧
      summary.deltas Config.minimal Collect.overlapping = .ok deltas ∧ deltas.totals = .ok sums ∧
      summary.toSlash = [2] ∧
      StopsAs (· ≠ .violated .balanceOverflow) (chargeSlashed Config.minimal summary)
        Collect.overlapping := by
  have hbounds : Collect.overlapping.WithinBounds Config.minimal :=
    ⟨by decide +kernel, by decide +kernel, by decide +kernel, by decide +kernel⟩
  have hok : ((Collect.summarize Config.minimal Collect.overlapping Collect.overlappingCommittees
      .never >>= fun summary =>
        Action.ofExcept (summary.deltas Config.minimal Collect.overlapping)).runOn
        .start).1.isOk = true := by decide +kernel
  have hslash : ((Collect.summarize Config.minimal Collect.overlapping Collect.overlappingCommittees
      .never).runOn .start).1.toOption.map EpochSummary.toSlash = some [2] := by decide +kernel
  obtain ⟨deltas, p', hrun⟩ := Action.exists_of_isOk hok
  obtain ⟨summary, p1, hsummary, h⟩ := Action.runOn_bind_eq_ok_iff.mp hrun
  have hdeltas := (Action.runOn_ofExcept_eq_ok_iff.mp h).1
  rw [hsummary] at hslash
  obtain ⟨-, hrest⟩ := balances_stay_words (.inr rfl) hbounds hbounds
    Collect.overlappingCommittees .never .start
  obtain ⟨-, htotals, hcharge⟩ := hrest summary p1 hsummary
  obtain ⟨sums, hsums⟩ := htotals deltas hdeltas
  exact ⟨hbounds, summary, p1, deltas, sums, hsummary, hdeltas, hsums, Option.some.inj hslash,
    hcharge⟩

/-! ## A whole epoch -/

section

variable {P : Failure → Prop} (hP : Failure.CoversFatal P) {config : Config} {s : State}
  (committees : Committees) (signal : StopSignal)

include hP

/-- However closing an epoch ends, what it leaves behind is within bounds. -/
theorem State.WithinBounds.closeEpoch_runsAs (hoverflow : P .overflow) (hconfig : config.Moderate)
    (hs : s.WithinBounds config) (p : Progress) :
    RunsAs P (fun q => q.1.WithinBounds config) (closeEpoch config committees signal) (s, p) := by
  refine .bind (.onSecond (hs.summarize_stopsAs hP committees signal p) hs)
    fun summary ⟨t, p1⟩ hrun ht => ?_
  obtain ⟨hsummary, rfl⟩ := runOn_onSecond_eq_ok_iff.mp hrun
  have hbounds := Collect.withinBounds_of_summarize hconfig hs hsummary
  have hpoll : StopsAs P signal.poll p1 := FailsAs.ensure hP.cancelled _
  refine .bind (.bind (.onSecond hpoll hs) fun _ ⟨t, p2⟩ _ ht => ?_) fun _ ⟨t, p3⟩ _ ht => ?_
  · exact .onFirst (ht.applyQueues_runsAs hP hoverflow summary) p2
  · refine .bind (.onFirst (hbounds.chargeSlashed_runsAs hP hconfig ht) p3) fun _ q _ hq => ?_
    exact .pure _ hq

end

/-- A whole epoch that starts within bounds ends within bounds.  It does not fail on a balance, and
    the rewards and penalties it gives can be added up. -/
theorem accountForEpoch_stays_words {config : Config}
    (hconfig : config = Config.mainnet ∨ config = Config.minimal) {s : State}
    (hs : s.WithinBounds config) (committees : Committees) (signal : StopSignal) (p : Progress) :
    StopsAs (· ≠ .violated .balanceOverflow) (accountForEpoch config committees signal) (s, p) ∧
    ∀ account t p', (accountForEpoch config committees signal).runOn (s, p) =
      (.ok account, t, p') → t.WithinBounds config ∧ ∃ sums, account.deltas.totals = .ok sums := by
  have hconfig := Config.moderate_of_preset hconfig
  have hcovers : Failure.CoversFatal (· ≠ .violated .balanceOverflow) := fun _ _ h => h
  have hclose := hs.closeEpoch_runsAs hcovers committees signal (by simp) hconfig p
  have hbounds : ∀ {summary table t p1},
      (closeEpoch config committees signal).runOn (s, p) = (.ok (summary, table), t, p1) →
        summary.WithinBounds ∧ t.WithinBounds config := by
    intro summary table t p1 hrun
    obtain ⟨_, _, hsummary, -⟩ := closeEpoch_eq_ok hrun
    exact ⟨Collect.withinBounds_of_summarize hconfig hs hsummary, hclose.of_runOn hrun⟩
  constructor
  · refine hclose.stops.bind fun ⟨summary, table⟩ ⟨t, p1⟩ hrun => ?_
    obtain ⟨hsummary, ht⟩ := hbounds hrun
    have hdeltas := hsummary.deltas_failsAs hcovers hconfig ht
    exact .bind (.onFirst (.query hdeltas) p1) fun _ q _ => .pure _ q
  · intro account t p' hrun
    obtain ⟨⟨summary, table⟩, ⟨t1, p1⟩, hrun, h⟩ := runOn_bind_eq_ok_iff.mp hrun
    obtain ⟨hsummary, ht⟩ := hbounds hrun
    obtain ⟨deltas, ⟨t2, p2⟩, hquery, h⟩ := runOn_bind_eq_ok_iff.mp h
    obtain ⟨haccount, hstate⟩ := runOn_pure_eq_ok_iff.mp h
    cases haccount
    cases hstate
    have hdeltas := (runOn_onFirst_eq_ok_iff.mp hquery).1
    rw [runOn_query, Prod.mk.injEq] at hdeltas
    obtain ⟨hdeltas, rfl⟩ := hdeltas
    exact ⟨ht, hsummary.exists_totals hconfig ht hdeltas⟩

end Beacon
