/-
  Rewards and penalties, family by family.

  The computation walks through the statuses once and adds to five families as it goes; the rewards
  of a proposer come in at every validator it included.  The reference is without that walk: for
  each family and each validator it says in exact arithmetic what is due (`due`), with a proposer's
  rewards as one sum over all statuses (`proposerRewards`).

  What one status adds (`added`) is proved once (`settle_grown`), and the walk adds up what the
  statuses add (`settleFrom_grown`).  Adding up by validator gives the reference (`sum_added`).
-/
import Mathlib.Data.Nat.Sqrt
import Beacon.Epoch.Deltas
import Beacon.Proofs.Epoch.Collected

namespace Beacon

/-! ## Families -/

/-- The three parts of a vote. -/
inductive Part where
  | source
  | target
  | head

/-- The five families of rewards and penalties. -/
inductive Family where
  | vote (part : Part)
  | inclusionDelay
  | inactivity

/-- The two lists of a family. -/
inductive Side where
  | rewards
  | penalties

/-- Did the vote get this part right? -/
def Votes.got (votes : Votes) : Part → Bool
  | .source => votes.source
  | .target => votes.target
  | .head => votes.head

/-- The stake that got this part right. -/
def PreviousStakes.of (stakes : PreviousStakes) : Part → Divisor
  | .source => stakes.source
  | .target => stakes.target
  | .head => stakes.head

/-- One of the lists. -/
def FamilyDeltas.list (deltas : FamilyDeltas) : Side → Array Gwei
  | .rewards => deltas.rewards
  | .penalties => deltas.penalties

/-- One of the families. -/
def Deltas.family (deltas : Deltas) : Family → FamilyDeltas
  | .vote .source => deltas.source
  | .vote .target => deltas.target
  | .vote .head => deltas.head
  | .inclusionDelay => deltas.inclusionDelay
  | .inactivity => deltas.inactivity

/-! ## The reference -/

namespace Reference

section

variable {σ : Type} [StateAccess σ] (config : Config) (s : σ) (summary : EpochSummary)

/-- What one part of a vote is worth. -/
def base (status : AttesterStatus) : Nat :=
  status.validator.effectiveBalance.toNat * config.baseRewardFactor.toNat /
    Nat.sqrt summary.totalActiveStake.val.toNat / 4

/-- The proposer's share of it. -/
def proposerShare (status : AttesterStatus) : Nat :=
  base config summary status / config.proposerRewardQuotient.val.toNat

/-- Did the validator get this part right, and was not slashed? -/
def earns (part : Part) (status : AttesterStatus) : Bool :=
  status.previous.got part && status.unslashed

/-- What a part earns: all of its worth in a leak, else in proportion to the stake that got it
    right. -/
def partValue (part : Part) (status : AttesterStatus) : Nat :=
  if isLeaking config s then base config summary status
  else
    base config summary status *
        ((summary.previousStakes.of part).val.toNat /
          config.effectiveBalanceIncrement.val.toNat) /
      max 1 (summary.totalActiveStake.val.toNat / config.effectiveBalanceIncrement.val.toNat)

/-- The reward for a part. -/
def partReward (part : Part) (status : AttesterStatus) : Nat :=
  if status.eligible && earns part status then partValue config s summary part status else 0

/-- The penalty for a part. -/
def partPenalty (part : Part) (status : AttesterStatus) : Nat :=
  if status.eligible && !earns part status then base config summary status else 0

/-- The attester's share of the reward for being included. -/
def attesterShare (status : AttesterStatus) : Nat :=
  if earns .source status then
    match status.inclusion with
    | some inclusion =>
      (base config summary status - proposerShare config summary status) /
        inclusion.delay.val.toNat
    | none => 0
  else 0

/-- Was the validator's vote included by this proposer, to be paid for? -/
def includedBy (proposer : Nat) (status : AttesterStatus) : Bool :=
  earns .source status && status.inclusion.any fun inclusion => inclusion.proposerIndex == proposer

/-- What a proposer gets for all the votes it included. -/
def proposerRewards (proposer : Nat) : Nat :=
  ((summary.statuses.toList.filter (includedBy proposer)).map (proposerShare config summary)).sum

/-- The penalty in a leak: all that a perfect vote could earn, and a part of the stake if the vote
    was not for the target. -/
def leakPenalty (status : AttesterStatus) : Nat :=
  if status.eligible && isLeaking config s then
    4 * base config summary status - proposerShare config summary status +
      if earns .target status then 0
      else
        status.validator.effectiveBalance.toNat *
            ((previousEpoch config s).toNat - (StateAccess.finalizedCheckpoint s).epoch.toNat) /
          config.inactivityPenaltyQuotient.val.toNat
  else 0

/-- What a validator's own status calls for. -/
def own (family : Family) (side : Side) (status : AttesterStatus) : Nat :=
  match family, side with
  | .vote part, .rewards => partReward config s summary part status
  | .vote part, .penalties => partPenalty config summary part status
  | .inclusionDelay, .rewards => attesterShare config summary status
  | .inclusionDelay, .penalties => 0
  | .inactivity, .rewards => 0
  | .inactivity, .penalties => leakPenalty config s summary status

/-- What a status calls for to be paid to a proposer. -/
def paid (family : Family) (side : Side) (status : AttesterStatus) (proposer : Nat) : Nat :=
  match family, side with
  | .inclusionDelay, .rewards =>
    if includedBy proposer status then proposerShare config summary status else 0
  | _, _ => 0

/-- What the status of the validator with this index adds to the amount of validator `i`. -/
def added (family : Family) (side : Side) (index : Nat) (status : AttesterStatus) (i : Nat) : Nat :=
  (if i = index then own config s summary family side status else 0) +
    paid config summary family side status i

/-- All that is due to a validator with this index and this status. -/
def due (family : Family) (side : Side) (i : Nat) (status : AttesterStatus) : Nat :=
  own config s summary family side status +
    match family, side with
    | .inclusionDelay, .rewards => proposerRewards config summary i
    | _, _ => 0

end

end Reference

/-! ## Lists that grow -/

/-- The amount of a validator in a list. -/
def amountAt (list : Array Gwei) (i : Nat) : Nat := ((list[i]?).getD 0).toNat

/-- The list with these amounts added, exactly. -/
structure Grown (list list' : Array Gwei) (more : Nat → Nat) : Prop where
  size : list'.size = list.size
  amount : ∀ i, amountAt list' i = amountAt list i + more i

/-- An amount for one validator only. -/
def only (index amount : Nat) : Nat → Nat := fun i => if i = index then amount else 0

namespace Grown

theorem same (list : Array Gwei) : Grown list list fun _ => 0 := ⟨rfl, fun _ => rfl⟩

theorem trans {a b c : Array Gwei} {f g : Nat → Nat} (hab : Grown a b f) (hbc : Grown b c g) :
    Grown a c fun i => f i + g i where
  size := hbc.size.trans hab.size
  amount i := by rw [hbc.amount, hab.amount, Nat.add_assoc]

theorem congr {a b : Array Gwei} {f g : Nat → Nat} (h : Grown a b f) (heq : ∀ i, f i = g i) :
    Grown a b g where
  size := h.size
  amount i := by rw [h.amount, heq]

end Grown

/-- Adding to an entry that is there, without leaving the range of words. -/
theorem addAt_grown {list list' : Array Gwei} {index : Nat} {amount : Gwei}
    (h : addAt list index amount = .ok list') : Grown list list' (only index amount.toNat) := by
  unfold addAt at h
  rcases hold : list[index]? with _ | old
  · rw [hold] at h
    nomatch h
  rw [hold] at h
  dsimp only at h
  rcases hnew : Word.addChecked old amount with _ | new
  · rw [hnew] at h
    nomatch h
  rw [hnew] at h
  cases h
  rw [Word.addChecked_eq_some_iff] at hnew
  refine ⟨Array.size_modify, fun i => ?_⟩
  unfold amountAt only
  rw [Array.getElem?_modify]
  by_cases hi : index = i
  · subst hi
    rw [if_pos rfl, if_pos rfl, hold]
    exact hnew
  · rw [if_neg hi, if_neg (Ne.symm hi), Nat.add_zero]

/-- A family in which both lists have grown. -/
def FamilyDeltas.Grown (deltas deltas' : FamilyDeltas) (more : Side → Nat → Nat) : Prop :=
  ∀ side, Beacon.Grown (deltas.list side) (deltas'.list side) (more side)

/-- Families that have all grown. -/
def Deltas.Grown (deltas deltas' : Deltas) (more : Family → Side → Nat → Nat) : Prop :=
  ∀ family, (deltas.family family).Grown (deltas'.family family) (more family)

namespace FamilyDeltas

theorem same_grown (deltas : FamilyDeltas) : deltas.Grown deltas fun _ _ => 0 :=
  fun side => .same (deltas.list side)

theorem reward_grown {deltas deltas' : FamilyDeltas} {index : Nat} {amount : Gwei}
    (h : deltas.reward index amount = .ok deltas') :
    deltas.Grown deltas' fun
      | .rewards => only index amount.toNat
      | .penalties => fun _ => 0 := by
  obtain ⟨rewards, hadd, h⟩ := bind_eq_ok_iff.mp h
  cases h
  intro side
  cases side with
  | rewards => exact addAt_grown hadd
  | penalties => exact .same deltas.penalties

theorem penalize_grown {deltas deltas' : FamilyDeltas} {index : Nat} {amount : Gwei}
    (h : deltas.penalize index amount = .ok deltas') :
    deltas.Grown deltas' fun
      | .rewards => fun _ => 0
      | .penalties => only index amount.toNat := by
  obtain ⟨penalties, hadd, h⟩ := bind_eq_ok_iff.mp h
  cases h
  intro side
  cases side with
  | rewards => exact .same deltas.rewards
  | penalties => exact addAt_grown hadd

end FamilyDeltas

theorem Deltas.Grown.trans {a b c : Deltas} {f g : Family → Side → Nat → Nat} (hab : a.Grown b f)
    (hbc : b.Grown c g) : a.Grown c fun family side i => f family side i + g family side i :=
  fun family side => (hab family side).trans (hbc family side)

/-! ## The amounts -/

theorem natSqrt_eq_sqrt {n : Nat} (h : n < wordRange) : Word.natSqrt n = Nat.sqrt n :=
  Nat.eq_sqrt.mpr (Word.natSqrt_spec n h)

section

open Reference

variable {σ : Type} [StateAccess σ] {config : Config} {s : σ} {summary : EpochSummary}
  {status : AttesterStatus} {index : Nat} {worth : Gwei}

theorem toNat_baseReward
    (h : (RewardTerms.ofSummary config s summary).baseReward status.validator.effectiveBalance =
      .ok worth) : worth.toNat = base config summary status := by
  obtain ⟨product, hproduct, h⟩ := bind_eq_ok_iff.mp h
  cases h
  rw [orFail_eq_ok_iff, Word.mulChecked_eq_some_iff] at hproduct
  rw [Word.toNat_div, Word.toNat_div, hproduct]
  show _ / (Word.sqrt summary.totalActiveStake).val.toNat / 4 = _
  rw [Word.toNat_sqrt, natSqrt_eq_sqrt summary.totalActiveStake.val.toNat_lt]
  rfl

theorem toNat_proposerReward (hworth : worth.toNat = base config summary status) :
    ((RewardTerms.ofSummary config s summary).proposerReward worth).toNat =
      proposerShare config summary status := by
  unfold RewardTerms.proposerReward proposerShare
  rw [Word.toNat_div, hworth]
  rfl

theorem toNat_componentReward {part : Part} {amount : Gwei}
    (hworth : worth.toNat = base config summary status)
    (h : (RewardTerms.ofSummary config s summary).componentReward worth
      (summary.previousStakes.of part) = .ok amount) :
    amount.toNat = partValue config s summary part status := by
  unfold RewardTerms.componentReward at h
  unfold partValue
  split at h
  · next hleak =>
    have hleak' : isLeaking config s = true := hleak
    cases h
    rw [if_pos hleak', hworth]
  · next hleak =>
    have hleak' : ¬ isLeaking config s = true := hleak
    rw [orFail_eq_ok_iff, Word.mulDivChecked_eq_some_iff, hworth, Word.toNat_div] at h
    rw [if_neg hleak', h.2]
    congr 1
    show (Word.raiseTo _ Divisor.one).val.toNat = _
    rw [Word.toNat_raiseTo, Word.toNat_div]
    exact Nat.max_comm _ _

theorem toNat_cancelingPenalty {amount : Gwei} (hworth : worth.toNat = base config summary status)
    (h : (RewardTerms.ofSummary config s summary).cancelingPenalty worth = .ok amount) :
    amount.toNat = 4 * base config summary status - proposerShare config summary status := by
  obtain ⟨all, hall, h⟩ := bind_eq_ok_iff.mp h
  rw [orFail_eq_ok_iff, Word.mulChecked_eq_some_iff, hworth] at hall
  rw [orFail_eq_ok_iff, Word.subChecked_eq_some_iff, toNat_proposerReward hworth, hall] at h
  rw [h.2, Nat.mul_comm]
  rfl

theorem toNat_inactivityPenalty {amount : Gwei}
    (h : (RewardTerms.ofSummary config s summary).inactivityPenalty
      status.validator.effectiveBalance = .ok amount) :
    amount.toNat = status.validator.effectiveBalance.toNat *
        ((previousEpoch config s).toNat - (StateAccess.finalizedCheckpoint s).epoch.toNat) /
      config.inactivityPenaltyQuotient.val.toNat := by
  unfold RewardTerms.inactivityPenalty at h
  rw [orFail_eq_ok_iff, Word.mulDivChecked_eq_some_iff] at h
  rw [h.2, ← Word.toNat_subSaturating]
  rfl

/-! ## What one status adds -/

/-- A part that earns adds its value to the rewards, -/
theorem added_rewards {part : Part} (heligible : status.eligible = true)
    (hearns : earns part status = true) (i : Nat) :
    added config s summary (.vote part) .rewards index status i =
      only index (partValue config s summary part status) i := by
  show (if i = index then partReward config s summary part status else 0) + 0 = _
  unfold partReward only
  rw [heligible, hearns]
  rfl

/-- and any other part its worth to the penalties. -/
theorem added_penalties {part : Part} (heligible : status.eligible = true)
    (hearns : earns part status = false) (i : Nat) :
    added config s summary (.vote part) .penalties index status i =
      only index (base config summary status) i := by
  show (if i = index then partPenalty config summary part status else 0) + 0 = _
  unfold partPenalty only
  rw [heligible, hearns]
  rfl

/-- The other lists get nothing. -/
theorem added_rewards_eq_zero {part : Part} (hearns : earns part status = false) (i : Nat) :
    added config s summary (.vote part) .rewards index status i = 0 := by
  show (if i = index then partReward config s summary part status else 0) + 0 = _
  unfold partReward
  rw [hearns, Bool.and_false]
  exact ite_self 0

theorem added_penalties_eq_zero {part : Part} (hearns : earns part status = true) (i : Nat) :
    added config s summary (.vote part) .penalties index status i = 0 := by
  show (if i = index then partPenalty config summary part status else 0) + 0 = _
  unfold partPenalty
  rw [hearns, Bool.not_true, Bool.and_false]
  exact ite_self 0

/-- The further penalty in a leak, which a vote for the target averts. -/
def Reference.absence (config : Config) (s : σ) (status : AttesterStatus) : Nat :=
  if earns .target status then 0
  else
    status.validator.effectiveBalance.toNat *
        ((previousEpoch config s).toNat - (StateAccess.finalizedCheckpoint s).epoch.toNat) /
      config.inactivityPenaltyQuotient.val.toNat

/-- A leak adds its two penalties. -/
theorem added_inactivity (heligible : status.eligible = true) (hleak : isLeaking config s = true)
    (i : Nat) : added config s summary .inactivity .penalties index status i =
      only index (4 * base config summary status - proposerShare config summary status) i +
        only index (absence config s status) i := by
  show (if i = index then leakPenalty config s summary status else 0) + 0 = _
  unfold leakPenalty absence only
  rw [heligible, hleak]
  split <;> rfl

/-- An inclusion adds the shares of the proposer and of the attester. -/
theorem added_inclusion {inclusion : Inclusion} (hearns : earns .source status = true)
    (hinclusion : status.inclusion = some inclusion) (i : Nat) :
    added config s summary .inclusionDelay .rewards index status i =
      only inclusion.proposerIndex (proposerShare config summary status) i +
        only index ((base config summary status - proposerShare config summary status) /
          inclusion.delay.val.toNat) i := by
  show (if i = index then attesterShare config summary status else 0) +
    (if includedBy i status then proposerShare config summary status else 0) = _
  have hincluded : includedBy i status = (inclusion.proposerIndex == i) := by
    unfold includedBy
    rw [hearns, hinclusion]
    rfl
  unfold attesterShare only
  rw [hincluded, hearns, hinclusion, Nat.add_comm]
  congr 1
  by_cases hi : i = inclusion.proposerIndex
  · rw [if_pos hi, if_pos (beq_iff_eq.mpr hi.symm)]
  · rw [if_neg hi, if_neg fun c => hi (beq_iff_eq.mp c).symm]

theorem settlePart_grown {part : Part} {deltas deltas' : FamilyDeltas}
    (hworth : worth.toNat = base config summary status) (heligible : status.eligible = true)
    (h : (RewardTerms.ofSummary config s summary).settlePart index worth
      (status.previous.got part && status.unslashed) (summary.previousStakes.of part) deltas =
        .ok deltas') :
    deltas.Grown deltas' fun side => added config s summary (.vote part) side index status := by
  unfold RewardTerms.settlePart at h
  split at h
  · next hgot =>
    have hearns : earns part status = true := hgot
    obtain ⟨amount, hamount, h⟩ := bind_eq_ok_iff.mp h
    have hvalue := toNat_componentReward hworth hamount
    intro side
    refine (FamilyDeltas.reward_grown h side).congr fun i => ?_
    cases side with
    | rewards =>
      show only index amount.toNat i = added config s summary (.vote part) .rewards index status i
      rw [added_rewards heligible hearns, hvalue]
    | penalties => exact (added_penalties_eq_zero hearns i).symm
  · next hgot =>
    have hearns : earns part status = false := Bool.not_eq_true _ ▸ hgot
    intro side
    refine (FamilyDeltas.penalize_grown h side).congr fun i => ?_
    cases side with
    | rewards => exact (added_rewards_eq_zero hearns i).symm
    | penalties =>
      show only index worth.toNat i = added config s summary (.vote part) .penalties index status i
      rw [added_penalties heligible hearns, hworth]

theorem settleInactivity_grown {deltas deltas' : FamilyDeltas}
    (hworth : worth.toNat = base config summary status) (heligible : status.eligible = true)
    (hleak : isLeaking config s = true)
    (h : (RewardTerms.ofSummary config s summary).settleInactivity index worth status deltas =
      .ok deltas') :
    deltas.Grown deltas' fun side => added config s summary .inactivity side index status := by
  obtain ⟨canceling, hcanceling, h⟩ := bind_eq_ok_iff.mp h
  obtain ⟨mid, hmid, h⟩ := bind_eq_ok_iff.mp h
  have hfirst := FamilyDeltas.penalize_grown hmid
  rw [toNat_cancelingPenalty hworth hcanceling] at hfirst
  intro side
  cases side with
  | rewards =>
    -- nothing is ever paid in this family
    have hzero : ∀ i, 0 = added config s summary .inactivity .rewards index status i := fun i =>
      (ite_self 0).symm
    split at h
    · cases h
      exact (hfirst .rewards).congr hzero
    · obtain ⟨amount, hamount, h⟩ := bind_eq_ok_iff.mp h
      exact ((hfirst .rewards).trans (FamilyDeltas.penalize_grown h .rewards)).congr hzero
  | penalties =>
    split at h
    · next hearns =>
      cases h
      refine (hfirst .penalties).congr fun i => ?_
      have hpresent : absence config s status = 0 := if_pos hearns
      show only index _ i = added config s summary .inactivity .penalties index status i
      rw [added_inactivity heligible hleak, hpresent]
      exact (congrArg (_ + ·) (ite_self 0)).symm
    · next hearns =>
      obtain ⟨amount, hamount, h⟩ := bind_eq_ok_iff.mp h
      refine ((hfirst .penalties).trans (FamilyDeltas.penalize_grown h .penalties)).congr
        fun i => ?_
      have habsent : absence config s status = amount.toNat := by
        rw [toNat_inactivityPenalty hamount]
        exact if_neg hearns
      show only index _ i + only index _ i =
        added config s summary .inactivity .penalties index status i
      rw [added_inactivity heligible hleak, habsent]

theorem settleInclusion_grown {inclusion : Inclusion} {deltas deltas' : FamilyDeltas}
    (hworth : worth.toNat = base config summary status) (hearns : earns .source status = true)
    (hinclusion : status.inclusion = some inclusion)
    (h : (RewardTerms.ofSummary config s summary).settleInclusion index worth inclusion deltas =
      .ok deltas') :
    deltas.Grown deltas' fun side => added config s summary .inclusionDelay side index status := by
  obtain ⟨share, hshare, h⟩ := bind_eq_ok_iff.mp h
  obtain ⟨mid, hmid, h⟩ := bind_eq_ok_iff.mp h
  rw [orFail_eq_ok_iff, Word.subChecked_eq_some_iff, toNat_proposerReward hworth, hworth] at hshare
  have hproposer := FamilyDeltas.reward_grown hmid
  rw [toNat_proposerReward hworth] at hproposer
  have hattester := FamilyDeltas.reward_grown h
  rw [Word.toNat_div, hshare.2] at hattester
  intro side
  refine ((hproposer side).trans (hattester side)).congr fun i => ?_
  cases side with
  | penalties => exact (ite_self 0).symm
  | rewards => exact (added_inclusion hearns hinclusion i).symm

theorem added_eq_zero {family : Family} {side : Side} {i : Nat}
    (hown : own config s summary family side status = 0)
    (hpaid : paid config summary family side status i = 0) :
    added config s summary family side index status i = 0 := by
  unfold added
  rw [hown, hpaid, ite_self]

/-- A status that is neither paid nor charged adds nothing for the parts of its vote. -/
theorem added_vote_eq_zero (h : status.eligible = false) (part : Part) (side : Side) (i : Nat) :
    added config s summary (.vote part) side index status i = 0 := by
  cases side with
  | rewards =>
    refine added_eq_zero ?_ rfl
    show partReward config s summary part status = 0
    unfold partReward
    rw [h]
    rfl
  | penalties =>
    refine added_eq_zero ?_ rfl
    show partPenalty config summary part status = 0
    unfold partPenalty
    rw [h]
    rfl

theorem added_inactivity_eq_zero (h : status.eligible = false ∨ isLeaking config s = false)
    (side : Side) (i : Nat) : added config s summary .inactivity side index status i = 0 := by
  cases side with
  | rewards => exact added_eq_zero rfl rfl
  | penalties =>
    refine added_eq_zero ?_ rfl
    show leakPenalty config s summary status = 0
    unfold leakPenalty
    rcases h with h | h
    · rw [h]
      rfl
    · rw [h, Bool.and_false]
      rfl

/-- A status without a vote to be paid for adds nothing for inclusion. -/
theorem added_inclusionDelay_eq_zero (h : earns .source status = false ∨ status.inclusion = none)
    (side : Side) (i : Nat) : added config s summary .inclusionDelay side index status i = 0 := by
  cases side with
  | penalties => exact added_eq_zero rfl rfl
  | rewards =>
    refine added_eq_zero ?_ ?_
    · show attesterShare config summary status = 0
      unfold attesterShare
      rcases h with h | h
      · rw [h]
        rfl
      · rw [h]
        exact ite_self 0
    · have hincluded : includedBy i status = false := by
        unfold includedBy
        rcases h with h | h
        · rw [h]
          rfl
        · rw [h]
          exact Bool.and_false _
      show (if includedBy i status then proposerShare config summary status else 0) = 0
      rw [hincluded]
      rfl

/-- Unless there is a vote to be paid for, the families stay as they are; if there is one, only the
    rewards for inclusion grow. -/
theorem settleVotePaid_grown {mid deltas' : Deltas}
    (hworth : worth.toNat = base config summary status)
    (h : (if (status.previous.source && status.unslashed) = true then
        match status.inclusion with
        | some inclusion => do
          let inclusionDelay ← (RewardTerms.ofSummary config s summary).settleInclusion index worth
            inclusion mid.inclusionDelay
          pure { mid with inclusionDelay := inclusionDelay }
        | none => pure mid
      else pure mid) = Except.ok (ε := Failure) deltas') :
    mid.Grown deltas' fun
      | .inclusionDelay => fun side => added config s summary .inclusionDelay side index status
      | _ => fun _ _ => 0 := by
  have hearns : earns .source status = (status.previous.source && status.unslashed) := rfl
  -- without a vote to be paid for nothing changes
  have hidle : earns .source status = false ∨ status.inclusion = none → mid = deltas' →
      mid.Grown deltas' fun
        | .inclusionDelay => fun side => added config s summary .inclusionDelay side index status
        | _ => fun _ _ => 0 := by
    rintro hnone rfl family side
    cases family with
    | inclusionDelay =>
      exact (Grown.same _).congr fun i => (added_inclusionDelay_eq_zero hnone side i).symm
    | _ => exact Grown.same _
  split at h
  · next hpaid =>
    rcases hinclusion : status.inclusion with _ | inclusion
    · rw [hinclusion] at h
      cases h
      exact hidle (Or.inr hinclusion) rfl
    · rw [hinclusion] at h
      obtain ⟨inclusionDelay, hsettle, h⟩ := bind_eq_ok_iff.mp h
      cases h
      intro family
      cases family with
      | inclusionDelay => exact settleInclusion_grown hworth (hearns.trans hpaid) hinclusion hsettle
      | vote part => cases part <;> exact FamilyDeltas.same_grown _
      | inactivity => exact FamilyDeltas.same_grown _
  · next hunpaid =>
    cases h
    exact hidle (Or.inl (hearns.trans (Bool.not_eq_true _ ▸ hunpaid))) rfl

/-- What one status adds to the families. -/
theorem settle_grown {deltas deltas' : Deltas}
    (h : (RewardTerms.ofSummary config s summary).settle summary.previousStakes deltas index
      status = .ok deltas') :
    deltas.Grown deltas' fun family side => added config s summary family side index status := by
  obtain ⟨worth, hworth, h⟩ := bind_eq_ok_iff.mp h
  have hworth' := toNat_baseReward hworth
  suffices hmid : ∃ mid, (deltas.Grown mid fun
        | .inclusionDelay => fun _ _ => 0
        | family => fun side => added config s summary family side index status) ∧
      (mid.Grown deltas' fun
        | .inclusionDelay => fun side => added config s summary .inclusionDelay side index status
        | _ => fun _ _ => 0) by
    obtain ⟨mid, hfirst, hsecond⟩ := hmid
    intro family side
    refine ((hfirst family side).trans (hsecond family side)).congr fun i => ?_
    cases family with
    | inclusionDelay => exact Nat.zero_add _
    | _ => exact Nat.add_zero _
  dsimp only at h
  split at h
  · next heligible =>
    obtain ⟨source, hsource, h⟩ := bind_eq_ok_iff.mp h
    obtain ⟨target, htarget, h⟩ := bind_eq_ok_iff.mp h
    obtain ⟨head, hhead, h⟩ := bind_eq_ok_iff.mp h
    have hvotes : ∀ (inactivity : FamilyDeltas) (part : Part) (side : Side),
        Grown ((deltas.family (.vote part)).list side)
          (((Deltas.mk source target head deltas.inclusionDelay inactivity).family
            (.vote part)).list side)
          (added config s summary (.vote part) side index status) := by
      intro inactivity part
      cases part with
      | source => exact settlePart_grown hworth' heligible hsource
      | target => exact settlePart_grown hworth' heligible htarget
      | head => exact settlePart_grown hworth' heligible hhead
    split at h
    · next hleak =>
      obtain ⟨inactivity, hinactivity, h⟩ := bind_eq_ok_iff.mp h
      refine ⟨⟨source, target, head, deltas.inclusionDelay, inactivity⟩, fun family => ?_,
        settleVotePaid_grown hworth' h⟩
      cases family with
      | vote part => exact hvotes inactivity part
      | inclusionDelay => exact FamilyDeltas.same_grown _
      | inactivity => exact settleInactivity_grown hworth' heligible hleak hinactivity
    · next hleak =>
      have hcalm : isLeaking config s = false := Bool.not_eq_true _ ▸ hleak
      refine ⟨⟨source, target, head, deltas.inclusionDelay, deltas.inactivity⟩, fun family => ?_,
        settleVotePaid_grown hworth' h⟩
      cases family with
      | vote part => exact hvotes deltas.inactivity part
      | inclusionDelay => exact FamilyDeltas.same_grown _
      | inactivity =>
        exact fun side => (Grown.same _).congr fun i =>
          (added_inactivity_eq_zero (Or.inr hcalm) side i).symm
  · next heligible =>
    have hpassive : status.eligible = false := Bool.not_eq_true _ ▸ heligible
    refine ⟨deltas, fun family => ?_, settleVotePaid_grown hworth' h⟩
    cases family with
    | vote part =>
      exact fun side => (Grown.same _).congr fun i => (added_vote_eq_zero hpassive part side i).symm
    | inclusionDelay => exact FamilyDeltas.same_grown _
    | inactivity =>
      exact fun side => (Grown.same _).congr fun i =>
        (added_inactivity_eq_zero (Or.inl hpassive) side i).symm

/-! ## What all statuses add -/

/-- The walk through the statuses adds up what each of them adds. -/
theorem settleFrom_grown (statuses : List AttesterStatus) :
    ∀ {index : Nat} {deltas deltas' : Deltas},
      (RewardTerms.ofSummary config s summary).settleFrom summary.previousStakes index deltas
        statuses = .ok deltas' →
      deltas.Grown deltas' fun family side i =>
        ((statuses.zipIdx index).map fun (status, index) =>
          added config s summary family side index status i).sum := by
  induction statuses with
  | nil =>
    intro index deltas deltas' h
    cases h
    exact fun family side => .same _
  | cons status statuses ih =>
    intro index deltas deltas' h
    obtain ⟨mid, hmid, h⟩ := bind_eq_ok_iff.mp h
    intro family side
    refine ((settle_grown hmid).trans (ih h) family side).congr fun i => ?_
    dsimp only
    rw [List.zipIdx_cons, List.map_cons, List.sum_cons]

/-- A sum over a list in which one amount depends on the place and another does not. -/
theorem sum_zipIdx {α : Type} (here everywhere : α → Nat) (i : Nat) (list : List α) :
    ∀ n, ((list.zipIdx n).map fun (a, index) =>
        (if i = index then here a else 0) + everywhere a).sum =
      (if n ≤ i then (list[i - n]?.map here).getD 0 else 0) + (list.map everywhere).sum := by
  induction list with
  | nil =>
    intro n
    show 0 = (if n ≤ i then 0 else 0) + 0
    rw [ite_self, Nat.add_zero]
  | cons a list ih =>
    intro n
    rw [List.zipIdx_cons, List.map_cons, List.sum_cons, ih, List.map_cons, List.sum_cons]
    dsimp only
    rcases Nat.lt_trichotomy i n with hlt | rfl | hgt
    · rw [if_neg (by omega), if_neg (by omega), if_neg (by omega)]
      omega
    · rw [if_pos rfl, if_neg (by omega), if_pos (Nat.le_refl i), Nat.sub_self,
        List.getElem?_cons_zero]
      show here a + everywhere a + _ = here a + _
      omega
    · have hsub : i - n = i - (n + 1) + 1 := by omega
      rw [if_neg (by omega), if_pos (by omega), if_pos (by omega), hsub, List.getElem?_cons_succ]
      omega

theorem sum_paid (i : Nat) (statuses : List AttesterStatus) :
    (statuses.map fun status => paid config summary .inclusionDelay .rewards status i).sum =
      ((statuses.filter (includedBy i)).map (proposerShare config summary)).sum := by
  induction statuses with
  | nil => rfl
  | cons status statuses ih =>
    rw [List.map_cons, List.sum_cons, ih, List.filter_cons]
    show (if includedBy i status then proposerShare config summary status else 0) + _ = _
    split
    · rw [List.map_cons, List.sum_cons]
    · exact Nat.zero_add _

/-- Adding up by validator gives the reference. -/
theorem sum_added (family : Family) (side : Side) {i : Nat}
    (hi : summary.statuses[i]? = some status) :
    ((summary.statuses.toList.zipIdx 0).map fun (status, index) =>
      added config s summary family side index status i).sum =
        due config s summary family side i status := by
  have hsum := sum_zipIdx (own config s summary family side)
    (fun status => paid config summary family side status i) i summary.statuses.toList 0
  rw [if_pos (Nat.zero_le i), Nat.sub_zero, Array.getElem?_toList, hi] at hsum
  refine hsum.trans ?_
  show own config s summary family side status + _ = _
  unfold due
  congr 1
  have hzero : ∀ l : List AttesterStatus, (l.map fun _ => 0).sum = 0 := fun l => by
    rw [List.map_const', List.sum_replicate_nat, Nat.mul_zero]
  cases family with
  | inclusionDelay =>
    cases side with
    | rewards => exact sum_paid i summary.statuses.toList
    | penalties => exact hzero _
  | _ => exact hzero _

/-- At first no list has anything in it. -/
theorem list_zero (count : Nat) (family : Family) (side : Side) :
    ((Deltas.zero count).family family).list side = Array.replicate count 0 := by
  cases side <;> rcases family with (_ | _ | _) | _ | _ <;> rfl

theorem amountAt_replicate (count i : Nat) : amountAt (Array.replicate count 0) i = 0 := by
  unfold amountAt
  rw [Array.getElem?_replicate]
  split <;> rfl

/-- Every list has an entry for each status, and in it all that is due to the validator. -/
theorem amountAt_deltas {deltas : Deltas} (h : summary.deltas config s = .ok deltas)
    (family : Family) (side : Side) :
    ((deltas.family family).list side).size = summary.statuses.size ∧
    ∀ i status, summary.statuses[i]? = some status →
      amountAt ((deltas.family family).list side) i =
        due config s summary family side i status := by
  have hgrown := settleFrom_grown _ h family side
  rw [list_zero] at hgrown
  refine ⟨hgrown.size.trans Array.size_replicate, fun i status hi => ?_⟩
  rw [hgrown.amount, amountAt_replicate, Nat.zero_add]
  exact sum_added family side hi

end

/-- For a summary of any state, all ten lists have one entry for each validator, and the entry is
    exactly what is due.  Just those with the mark for the source have an inclusion. -/
theorem deltas_due {σ τ : Type} [StateAccess σ] [StateAccess τ] {config : Config} {s : σ} {s' : τ}
    {committees : Committees} {signal : StopSignal} {summary : EpochSummary} {p p' : Progress}
    {deltas : Deltas}
    (hsummary : (Collect.summarize config s committees signal).runOn p = (.ok summary, p'))
    (h : summary.deltas config s' = .ok deltas) :
    (∀ family side, ((deltas.family family).list side).size = (StateAccess.validators s).length) ∧
    summary.statuses.size = (StateAccess.validators s).length ∧
    ∀ i status, summary.statuses[i]? = some status →
      (status.inclusion = none ↔ status.previous.source = false) ∧
      ∀ family side, amountAt ((deltas.family family).list side) i =
        Reference.due config s' summary family side i status := by
  obtain ⟨vs, votes, hc⟩ := Collect.collected_of_summarize hsummary
  have hsize : summary.statuses.size = (StateAccess.validators s).length := by
    rw [hc.statuses.size, hc.validators, List.length_map]
  refine ⟨fun family side => (amountAt_deltas h family side).1.trans hsize, hsize,
    fun i status hi => ⟨?_, fun family side => (amountAt_deltas h family side).2 i status hi⟩⟩
  obtain ⟨v, -, ht⟩ := hc.statuses.exists_tallied hi
  exact ht.inclusion_eq_none_iff config s committees

/-- The three validators in a leak: the last finalized epoch is six epochs back. -/
def overlappingLeak : State := { Collect.overlapping with slot := 63 }

theorem deltas_due_overlappingLeak : ∃ summary p' deltas,
    (Collect.summarize Config.minimal overlappingLeak Collect.overlappingCommittees .never).runOn
      .start = (.ok summary, p') ∧
    summary.deltas Config.minimal overlappingLeak = .ok deltas ∧
    isLeaking Config.minimal overlappingLeak = true ∧
    (∀ family side, ((deltas.family family).list side).size = 3) ∧
    ∀ i status, summary.statuses[i]? = some status →
      (status.inclusion = none ↔ status.previous.source = false) ∧
      ∀ family side, amountAt ((deltas.family family).list side) i =
        Reference.due Config.minimal overlappingLeak summary family side i status := by
  have hok : ((Collect.summarize Config.minimal overlappingLeak Collect.overlappingCommittees .never
      >>= fun summary => Action.ofExcept (summary.deltas Config.minimal overlappingLeak)).runOn
        .start).1.isOk = true := by decide +kernel
  obtain ⟨deltas, p', hrun⟩ := Action.exists_of_isOk hok
  obtain ⟨summary, p1, hsummary, h⟩ := Action.runOn_bind_eq_ok_iff.mp hrun
  have hdeltas := (Action.runOn_ofExcept_eq_ok_iff.mp h).1
  obtain ⟨hsizes, -, hdue⟩ := deltas_due hsummary hdeltas
  exact ⟨summary, p1, deltas, hsummary, hdeltas, rfl, hsizes, hdue⟩

end Beacon
