/-
  How the computation of rewards and penalties may fail.

  It fails for a proposer that is not in the registry, or for a balance that is no word; both are left
  open.  The second is excluded if all that is computed from a status has room (`AmountsFit`), and so
  has what the statuses add to each list (`DeltasFit`).  As the walk goes on, a list that has grown by
  what one status adds has room for what the others add (`RoomFor.tail`).

  Two differences are taken without a guard: the proposer's share is a quotient of the base reward, so
  that it can be taken from the base reward and from four of them.
-/
import Beacon.Proofs.Epoch.Rewards
import Beacon.Proofs.Registry.Failures

namespace Beacon

/-! ## Differences and sums -/

theorem Deltas.totals_failsAs (deltas : Deltas) : FailsAs Failure.IsFatal deltas.totals :=
  .mapM _ fun _ _ => .orFail (.violated _) _

namespace RewardTerms

variable {P : Failure → Prop} (terms : RewardTerms)

/-- The proposer's share of a base reward is no larger than the base reward. -/
theorem proposerReward_le (base : Gwei) : (terms.proposerReward base).toNat ≤ base.toNat :=
  Word.toNat_div_le _ _

/-- Four base rewards are at least the one that the share is taken of. -/
theorem cancelingPenalty_failsAs_of_room {base : Gwei}
    (hroom : P (.violated .balanceOverflow) ∨ base.toNat * 4 < wordRange) :
    FailsAs P (terms.cancelingPenalty base) := by
  have hproduct : FailsAs P (orFail (.violated .balanceOverflow)
      (Word.mulChecked base baseRewardsPerEpoch.val)) :=
    .orFail_balance hroom fun hlt => Word.mulChecked_ne_none hlt
  refine hproduct.bind fun all hall => ?_
  refine .orFail_of_ne_none (Word.subChecked_ne_none ?_)
  rw [orFail_eq_ok_iff, Word.mulChecked_eq_some_iff] at hall
  calc (terms.proposerReward base).toNat
      ≤ base.toNat := terms.proposerReward_le base
    _ ≤ base.toNat * baseRewardsPerEpoch.val.toNat :=
      Nat.le_mul_of_pos_right _ baseRewardsPerEpoch.toNat_pos
    _ = all.toNat := hall.symm

theorem cancelingPenalty_failsAs (hbalance : P (.violated .balanceOverflow)) (base : Gwei) :
    FailsAs P (terms.cancelingPenalty base) :=
  terms.cancelingPenalty_failsAs_of_room (.inl hbalance)

end RewardTerms

/-! ## Adding to a list -/

/-- Both lists have so many entries. -/
def FamilyDeltas.Sized (n : Nat) (deltas : FamilyDeltas) : Prop :=
  ∀ side, (deltas.list side).size = n

section

variable {P : Failure → Prop} {n index : Nat}

/-- An entry that is not there is reported, and so is a sum that is no word. -/
theorem addAt_failsAs {deltas : Array Gwei} {amount : Gwei}
    (hroom : P (.violated .balanceOverflow) ∨ amountAt deltas index + amount.toNat < wordRange)
    (hindex : deltas.size ≤ index → P (.violated (.notInRegistry index deltas.size))) :
    FailsAs P (addAt deltas index amount) := by
  unfold addAt
  split
  · next hnone => exact .error (hindex (Array.getElem?_eq_none_iff.mp hnone))
  · next old hold =>
    split
    · next hnone =>
      refine .error (hroom.resolve_right fun hlt => Word.addChecked_ne_none ?_ hnone)
      unfold amountAt at hlt
      rw [hold] at hlt
      exact hlt
    · exact .ok _

namespace FamilyDeltas

variable {deltas : FamilyDeltas} {amount : Gwei}

theorem Sized.of_grown {deltas' : FamilyDeltas} {more : Side → Nat → Nat} (h : deltas.Sized n)
    (hgrown : deltas.Grown deltas' more) : deltas'.Sized n :=
  fun side => (hgrown side).size.trans (h side)

theorem reward_failsAs (hroom : P (.violated .balanceOverflow) ∨
      amountAt (deltas.list .rewards) index + amount.toNat < wordRange) (hsized : deltas.Sized n)
    (hindex : n ≤ index → P (.violated (.notInRegistry index n))) :
    FailsAs P (deltas.reward index amount) := by
  rw [← hsized .rewards] at hindex
  exact (addAt_failsAs hroom hindex).bind fun _ _ => .ok _

theorem penalize_failsAs (hroom : P (.violated .balanceOverflow) ∨
      amountAt (deltas.list .penalties) index + amount.toNat < wordRange) (hsized : deltas.Sized n)
    (hindex : n ≤ index → P (.violated (.notInRegistry index n))) :
    FailsAs P (deltas.penalize index amount) := by
  rw [← hsized .penalties] at hindex
  exact (addAt_failsAs hroom hindex).bind fun _ _ => .ok _

end FamilyDeltas

/-! ## One status -/

/-- A vote to be paid for was included by this proposer. -/
def AttesterStatus.Pays (status : AttesterStatus) (proposer : Nat) : Prop :=
  status.unslashed = true ∧ status.previous.source = true ∧
    ∃ inclusion, status.inclusion = some inclusion ∧ inclusion.proposerIndex = proposer

theorem only_self (index amount : Nat) : only index amount index = amount := if_pos rfl

section

open Reference

variable {σ : Type} [StateAccess σ] {config : Config} {s : σ} {summary : EpochSummary}
  {status : AttesterStatus}

/-- The products that the amounts for a status are computed from are words. -/
structure AmountsFit (config : Config) (s : σ) (summary : EpochSummary) (status : AttesterStatus) :
    Prop where
  worth : status.validator.effectiveBalance.toNat * config.baseRewardFactor.toNat < wordRange
  value : ∀ part, base config summary status * ((summary.previousStakes.of part).val.toNat /
    config.effectiveBalanceIncrement.val.toNat) < wordRange
  canceling : base config summary status * 4 < wordRange
  absence : status.validator.effectiveBalance.toNat * (finalityDelay config s).toNat < wordRange

namespace RewardTerms

variable {worth : Gwei} {deltas : FamilyDeltas}

theorem baseReward_failsAs
    (hroom : P (.violated .balanceOverflow) ∨ AmountsFit config s summary status) :
    FailsAs P ((ofSummary config s summary).baseReward status.validator.effectiveBalance) := by
  have hproduct : FailsAs P (orFail (.violated .balanceOverflow)
      (Word.mulChecked status.validator.effectiveBalance config.baseRewardFactor)) :=
    .orFail_balance hroom fun hfits => Word.mulChecked_ne_none hfits.worth
  exact hproduct.bind fun _ _ => .ok _

theorem componentReward_failsAs
    (hroom : P (.violated .balanceOverflow) ∨ AmountsFit config s summary status)
    (hworth : worth.toNat = base config summary status) (part : Part) :
    FailsAs P ((ofSummary config s summary).componentReward worth
      (summary.previousStakes.of part)) := by
  unfold componentReward
  split
  · exact .ok worth
  · refine .orFail_balance hroom fun hfits => Word.mulDivChecked_ne_none ?_
    rw [Word.toNat_div, hworth]
    exact hfits.value part

/-- The amount that a part adds has room in its list. -/
theorem settlePart_failsAs {part : Part} (hroom : P (.violated .balanceOverflow) ∨
      AmountsFit config s summary status ∧ ∀ side i, amountAt (deltas.list side) i +
        added config s summary (.vote part) side index status i < wordRange)
    (hsized : deltas.Sized n) (hindex : index < n)
    (hworth : worth.toNat = base config summary status) (heligible : status.eligible = true) :
    FailsAs P ((ofSummary config s summary).settlePart index worth
      (status.previous.got part && status.unslashed) (summary.previousStakes.of part) deltas) := by
  have hown : n ≤ index → P (.violated (.notInRegistry index n)) := fun h => by omega
  unfold settlePart
  split
  · next hgot =>
    have hreward := componentReward_failsAs (hroom.imp_right And.left) hworth part
    refine hreward.bind fun amount hamount => FamilyDeltas.reward_failsAs ?_ hsized hown
    refine hroom.imp_right fun ⟨_, hfits⟩ => ?_
    have hlt := hfits .rewards index
    rwa [added_rewards heligible hgot, only_self, ← toNat_componentReward hworth hamount] at hlt
  · next hgot =>
    refine FamilyDeltas.penalize_failsAs ?_ hsized hown
    refine hroom.imp_right fun ⟨_, hfits⟩ => ?_
    have hlt := hfits .penalties index
    rwa [added_penalties heligible (Bool.not_eq_true _ ▸ hgot), only_self, ← hworth] at hlt

/-- Both penalties of a leak have room together, and so each of them has. -/
theorem settleInactivity_failsAs (hroom : P (.violated .balanceOverflow) ∨
      AmountsFit config s summary status ∧ ∀ side i, amountAt (deltas.list side) i +
        added config s summary .inactivity side index status i < wordRange)
    (hsized : deltas.Sized n) (hindex : index < n)
    (hworth : worth.toNat = base config summary status) (heligible : status.eligible = true)
    (hleak : isLeaking config s = true) :
    FailsAs P ((ofSummary config s summary).settleInactivity index worth status deltas) := by
  have hown : n ≤ index → P (.violated (.notInRegistry index n)) := fun h => by omega
  have htotal : P (.violated .balanceOverflow) ∨ amountAt (deltas.list .penalties) index +
      (4 * base config summary status - proposerShare config summary status +
        Reference.absence config s status) < wordRange := by
    refine hroom.imp_right fun ⟨_, hfits⟩ => ?_
    have hlt := hfits .penalties index
    rwa [added_inactivity heligible hleak, only_self, only_self] at hlt
  have hcanceling : FailsAs P ((ofSummary config s summary).cancelingPenalty worth) :=
    cancelingPenalty_failsAs_of_room _ (hroom.imp_right fun ⟨hfits, _⟩ => hworth ▸ hfits.canceling)
  refine hcanceling.bind fun canceling hamount => ?_
  have hamount := toNat_cancelingPenalty hworth hamount
  refine FailsAs.bind (FamilyDeltas.penalize_failsAs ?_ hsized hown) fun mid hmid => ?_
  · exact htotal.imp_right fun hlt => by omega
  have hmid' := FamilyDeltas.penalize_grown hmid
  split
  · exact .ok mid
  · next habsent =>
    have hpenalty : FailsAs P ((ofSummary config s summary).inactivityPenalty
        status.validator.effectiveBalance) :=
      .orFail_balance hroom fun ⟨hfits, _⟩ => Word.mulDivChecked_ne_none hfits.absence
    refine hpenalty.bind fun penalty hpenalty =>
      FamilyDeltas.penalize_failsAs ?_ (hsized.of_grown hmid') hown
    refine htotal.imp_right fun hlt => ?_
    have hbefore := (hmid' .penalties).amount index
    have hpenalty' : penalty.toNat = Reference.absence config s status := by
      rw [toNat_inactivityPenalty hpenalty]
      exact (if_neg habsent).symm
    change amountAt (mid.list .penalties) index =
      amountAt (deltas.list .penalties) index + only index canceling.toNat index at hbefore
    rw [only_self] at hbefore
    omega

/-- Of all indices only the proposer's comes from elsewhere. -/
theorem settleInclusion_failsAs {inclusion : Inclusion} (hroom : P (.violated .balanceOverflow) ∨
      ∀ side i, amountAt (deltas.list side) i +
        added config s summary .inclusionDelay side index status i < wordRange)
    (hsized : deltas.Sized n) (hindex : index < n)
    (hworth : worth.toNat = base config summary status) (hearns : earns .source status = true)
    (hinclusion : status.inclusion = some inclusion)
    (hproposer : n ≤ inclusion.proposerIndex →
      P (.violated (.notInRegistry inclusion.proposerIndex n))) :
    FailsAs P ((ofSummary config s summary).settleInclusion index worth inclusion deltas) := by
  have hshare := Word.subChecked_ne_none ((ofSummary config s summary).proposerReward_le worth)
  refine (FailsAs.orFail_of_ne_none hshare).bind fun share hshare => ?_
  rw [orFail_eq_ok_iff, Word.subChecked_eq_some_iff, toNat_proposerReward hworth, hworth] at hshare
  have hpart : ((ofSummary config s summary).proposerReward worth).toNat =
      proposerShare config summary status := toNat_proposerReward hworth
  refine FailsAs.bind (FamilyDeltas.reward_failsAs ?_ hsized hproposer) fun mid hmid => ?_
  · refine hroom.imp_right fun hfits => ?_
    have hlt := hfits .rewards inclusion.proposerIndex
    rw [added_inclusion hearns hinclusion, only_self] at hlt
    omega
  · have hmid' := FamilyDeltas.reward_grown hmid
    refine FamilyDeltas.reward_failsAs ?_ (hsized.of_grown hmid') fun h => by omega
    refine hroom.imp_right fun hfits => ?_
    have hlt := hfits .rewards index
    have hbefore := (hmid' .rewards).amount index
    change amountAt (mid.list .rewards) index = amountAt (deltas.list .rewards) index +
      only inclusion.proposerIndex _ index at hbefore
    rw [added_inclusion hearns hinclusion, only_self] at hlt
    rw [hpart] at hbefore
    rw [Word.toNat_div, hshare.2]
    omega

/-- Only the list for inclusion is asked for room if a vote is to be paid for. -/
theorem settleVotePaid_failsAs {deltas : Deltas} (hroom : P (.violated .balanceOverflow) ∨
      ∀ side i, amountAt (deltas.inclusionDelay.list side) i +
        added config s summary .inclusionDelay side index status i < wordRange)
    (hsized : deltas.inclusionDelay.Sized n) (hindex : index < n)
    (hworth : worth.toNat = base config summary status)
    (hproposer : ∀ proposer, status.Pays proposer → n ≤ proposer →
      P (.violated (.notInRegistry proposer n)))
    (mid : Deltas) (hmid : mid.inclusionDelay = deltas.inclusionDelay) : FailsAs P
      (if (status.previous.source && status.unslashed) = true then
        match status.inclusion with
        | some inclusion => do
          let inclusionDelay ← (ofSummary config s summary).settleInclusion index worth inclusion
            mid.inclusionDelay
          return { mid with inclusionDelay := inclusionDelay }
        | none => return mid
      else return mid) := by
  split
  · next hpaid =>
    split
    · next inclusion hsome =>
      have hboth := Bool.and_eq_true_iff.mp hpaid
      have hpays : status.Pays inclusion.proposerIndex :=
        ⟨hboth.2, hboth.1, inclusion, hsome, rfl⟩
      have hinclusion := settleInclusion_failsAs hroom hsized hindex hworth hpaid hsome
        (hproposer _ hpays)
      rw [hmid]
      exact hinclusion.bind fun _ _ => .ok _
    · exact .ok _
  · exact .ok _

/-- What a status adds has room in all the lists. -/
theorem settle_failsAs {deltas : Deltas} (hroom : P (.violated .balanceOverflow) ∨
      AmountsFit config s summary status ∧ ∀ family side i,
        amountAt ((deltas.family family).list side) i +
          added config s summary family side index status i < wordRange)
    (hsized : ∀ family, (deltas.family family).Sized n) (hindex : index < n)
    (hproposer : ∀ proposer, status.Pays proposer → n ≤ proposer →
      P (.violated (.notInRegistry proposer n))) :
    FailsAs P ((ofSummary config s summary).settle summary.previousStakes deltas index status) := by
  refine (baseReward_failsAs (hroom.imp_right And.left)).bind fun worth hworth => ?_
  have hworth := toNat_baseReward hworth
  have hpart : status.eligible = true → ∀ part, FailsAs P
      ((ofSummary config s summary).settlePart index worth
        (status.previous.got part && status.unslashed) (summary.previousStakes.of part)
        (deltas.family (.vote part))) := fun heligible part =>
    settlePart_failsAs (hroom.imp_right fun ⟨hfits, hlt⟩ => ⟨hfits, hlt (.vote part)⟩)
      (hsized (.vote part)) hindex hworth heligible
  have hinactivity : status.eligible = true → isLeaking config s = true → FailsAs P
      ((ofSummary config s summary).settleInactivity index worth status
        (deltas.family .inactivity)) :=
    settleInactivity_failsAs (hroom.imp_right fun ⟨hfits, hlt⟩ => ⟨hfits, hlt .inactivity⟩)
      (hsized .inactivity) hindex hworth
  have hlast := settleVotePaid_failsAs (hroom.imp_right fun ⟨_, hlt⟩ => hlt .inclusionDelay)
    (hsized .inclusionDelay) hindex hworth hproposer
  dsimp only
  split
  · next heligible =>
    refine (hpart heligible .source).bind fun source _ => ?_
    refine (hpart heligible .target).bind fun target _ => ?_
    refine (hpart heligible .head).bind fun head _ => ?_
    split
    · next hleak => exact (hinactivity heligible hleak).bind fun _ _ => hlast _ rfl
    · exact hlast _ rfl
  · exact hlast _ rfl

/-! ## All statuses -/

/-- There is room in the lists for what these statuses add, the first of them at this index. -/
structure RoomFor (config : Config) (s : σ) (summary : EpochSummary) (index : Nat) (deltas : Deltas)
    (statuses : List AttesterStatus) : Prop where
  amounts : ∀ status ∈ statuses, AmountsFit config s summary status
  sums : ∀ family side i, amountAt ((deltas.family family).list side) i +
    ((statuses.zipIdx index).map fun (status, index) =>
      added config s summary family side index status i).sum < wordRange

namespace RoomFor

variable {deltas mid : Deltas} {statuses : List AttesterStatus}

theorem sums_cons (h : RoomFor config s summary index deltas (status :: statuses)) (family : Family)
    (side : Side) (i : Nat) : amountAt ((deltas.family family).list side) i +
      (added config s summary family side index status i +
        ((statuses.zipIdx (index + 1)).map fun (status, index) =>
          added config s summary family side index status i).sum) < wordRange := by
  have hlt := h.sums family side i
  rwa [List.zipIdx_cons, List.map_cons, List.sum_cons] at hlt

/-- There is room for what the first of them adds, -/
theorem head (h : RoomFor config s summary index deltas (status :: statuses)) :
    AmountsFit config s summary status ∧ ∀ family side i,
      amountAt ((deltas.family family).list side) i +
        added config s summary family side index status i < wordRange := by
  refine ⟨h.amounts status List.mem_cons_self, fun family side i => ?_⟩
  have hlt := h.sums_cons family side i
  omega

/-- and when it has been added, for what the others add. -/
theorem tail (h : RoomFor config s summary index deltas (status :: statuses))
    (hgrown : deltas.Grown mid fun family side => added config s summary family side index status) :
    RoomFor config s summary (index + 1) mid statuses where
  amounts other hother := h.amounts other (List.mem_cons_of_mem _ hother)
  sums family side i := by
    rw [(hgrown family side).amount, Nat.add_assoc]
    exact h.sums_cons family side i

end RoomFor

/-- As the walk through the statuses goes on, what is left to add has room. -/
theorem settleFrom_failsAs (statuses : List AttesterStatus)
    (hproposer : ∀ status ∈ statuses, ∀ proposer, status.Pays proposer → n ≤ proposer →
      P (.violated (.notInRegistry proposer n))) :
    ∀ {index : Nat} {deltas : Deltas},
      (P (.violated .balanceOverflow) ∨ RoomFor config s summary index deltas statuses) →
      index + statuses.length ≤ n → (∀ family, (deltas.family family).Sized n) →
      FailsAs P ((ofSummary config s summary).settleFrom summary.previousStakes index deltas
        statuses) := by
  induction statuses with
  | nil => exact fun _ _ _ => .ok _
  | cons status statuses ih =>
    intro index deltas hroom hindex hsized
    rw [List.length_cons] at hindex
    have hsettle : FailsAs P ((ofSummary config s summary).settle summary.previousStakes deltas
        index status) :=
      settle_failsAs (hroom.imp_right RoomFor.head) hsized (by omega)
        (hproposer status List.mem_cons_self)
    refine hsettle.bind fun mid hmid => ih (fun status hstatus => ?_) ?_ (by omega) fun family => ?_
    · exact hproposer status (List.mem_cons_of_mem _ hstatus)
    · exact hroom.imp_right fun h => h.tail (settle_grown hmid)
    · exact (hsized family).of_grown (settle_grown hmid family)

end RewardTerms

/-- All that the statuses add has room in lists that were empty. -/
structure EpochSummary.DeltasFit (config : Config) (s : σ) (summary : EpochSummary) : Prop where
  amounts : ∀ status ∈ summary.statuses.toList, AmountsFit config s summary status
  sums : ∀ family side i, ((summary.statuses.toList.zipIdx 0).map fun (status, index) =>
    added config s summary family side index status i).sum < wordRange

/-- A proposer who is not in the registry may be reported, and otherwise no more than sums that are
    no words. -/
theorem EpochSummary.deltas_failsAs_of_room (config : Config) (s : σ) (summary : EpochSummary)
    (hroom : P (.violated .balanceOverflow) ∨ summary.DeltasFit config s)
    (hproposer : ∀ status ∈ summary.statuses.toList, ∀ proposer, status.Pays proposer →
      summary.statuses.size ≤ proposer →
        P (.violated (.notInRegistry proposer summary.statuses.size))) :
    FailsAs P (summary.deltas config s) := by
  refine RewardTerms.settleFrom_failsAs _ hproposer ?_ ?_ fun family side => ?_
  · refine hroom.imp_right fun hfits => ⟨hfits.amounts, fun family side i => ?_⟩
    rw [list_zero, amountAt_replicate, Nat.zero_add]
    exact hfits.sums family side i
  · rw [Nat.zero_add, Array.length_toList]
  · rw [list_zero, Array.size_replicate]

theorem EpochSummary.deltas_failsAs (hbalance : P (.violated .balanceOverflow)) (config : Config)
    (s : σ) (summary : EpochSummary)
    (hproposer : ∀ status ∈ summary.statuses.toList, ∀ proposer, status.Pays proposer →
      summary.statuses.size ≤ proposer →
        P (.violated (.notInRegistry proposer summary.statuses.size))) :
    FailsAs P (summary.deltas config s) :=
  summary.deltas_failsAs_of_room config s (.inl hbalance) hproposer

end

end

end Beacon
