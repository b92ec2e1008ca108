/-
  How closing an epoch may fail.

  With which errors a part fails depends on what the storage answers for the validators in the queues
  and on whether they have a status; this is left open (`Serves`), so that one account of each part is
  good for every storage.  For all of them every part fails with fatal errors only, whatever the state
  and the summary hold.

  A balance that is no word is a fatal error like the others, but it is left open whether it may
  happen at all: either it is allowed, or what is calculated has room (`StakesFit`, `ChargesFit`,
  `SlashingsFit`).

  Two places calculate without a guard, and each is safe for a reason of its own:
    * PENALTIES: what counts as slashed is at most the total stake, so that a validator's penalty
      is at most its own stake;
    * EJECTIONS: the place a summary finds in the exit queue is not full (`EpochSummary.HasRoom`)
      and an ejection passes a full epoch on, so that the count stays below the churn limit.
-/
import Beacon.Proofs.Epoch.Ejections
import Beacon.Proofs.Epoch.Settlement

namespace Beacon

open Beacon.Action

/-! ## Summing up -/

/-- The sum of the effective balances. -/
def stakeSum (validators : List Validator) : Nat :=
  (validators.map fun v => v.effectiveBalance.toNat).sum

/-- All these validators can be read, and their stakes added to what is there are a word. -/
def StakesFit (total : Nat) (items : List (Except AccessError Validator)) : Prop :=
  ∃ vs : List Validator, items = vs.map .ok ∧ total + stakeSum vs < wordRange

theorem StakesFit.lt {total : Nat} {items : List (Except AccessError Validator)}
    (h : StakesFit total items) : total < wordRange := by
  obtain ⟨vs, -, hlt⟩ := h
  omega

theorem StakesFit.mono {total total' : Nat} {items : List (Except AccessError Validator)}
    (h : StakesFit total' items) (hle : total ≤ total') : StakesFit total items := by
  obtain ⟨vs, hvs, hlt⟩ := h
  exact ⟨vs, hvs, by omega⟩

/-- What is left to add after the first of them. -/
theorem StakesFit.tail {total : Nat} {items : List (Except AccessError Validator)} {v : Validator}
    (h : StakesFit total (.ok v :: items)) : StakesFit (total + v.effectiveBalance.toNat) items := by
  obtain ⟨_ | ⟨u, vs⟩, hvs, hlt⟩ := h
  · nomatch hvs
  · rw [List.map_cons, List.cons.injEq, Except.ok.injEq] at hvs
    obtain ⟨rfl, hvs⟩ := hvs
    have hsum : stakeSum (v :: vs) = v.effectiveBalance.toNat + stakeSum vs := List.sum_cons
    exact ⟨vs, hvs, by omega⟩

namespace Collect

section

variable {P : Failure → Prop} (hP : Failure.CoversFatal P)

include hP

theorem pollEvery_stopsAs (signal : StopSignal) (period position : Nat) (progress : Progress) :
    StopsAs P (signal.pollEvery period position) progress := by
  unfold StopSignal.pollEvery
  split
  · exact FailsAs.ensure hP.cancelled _
  · exact .pure () progress

theorem readRegistry_stopsAs (signal : StopSignal) (current : Epoch)
    (items : List (Except AccessError Validator)) :
    ∀ (position : Nat) (total : Gwei) (progress : Progress),
      P (.violated .balanceOverflow) ∨ StakesFit total.toNat items →
      StopsAs P (readRegistry signal current position total items) progress := by
  induction items with
  | nil => exact fun _ total progress _ => .pure ([], total) progress
  | cons item items ih =>
    intro position total progress hroom
    refine .bind (FailsAs.ok ()) fun _ p _ => ?_
    refine .bind (pollEvery_stopsAs hP signal _ position p) fun _ p _ => ?_
    refine .bind (.ofExcept (.access hP.access item) p) fun validator p hread => ?_
    obtain rfl : item = .ok validator :=
      mapError_eq_ok_iff.mp (runOn_ofExcept_eq_ok_iff.mp hread).1
    have hrest := hroom.imp_right StakesFit.tail
    dsimp only
    split
    · have hadd : FailsAs P (orFail (.violated .balanceOverflow)
          (Word.addChecked total validator.effectiveBalance)) :=
        .orFail_balance hrest fun hfits => Word.addChecked_ne_none hfits.lt
      refine .bind (.ofExcept hadd p) fun sum p hsum => ?_
      have hsum' := (runOn_ofExcept_eq_ok_iff.mp hsum).1
      rw [orFail_eq_ok_iff, Word.addChecked_eq_some_iff] at hsum'
      rw [← hsum'] at hrest
      exact .bind (ih (position + 1) sum p hrest) fun _ p _ => .pure _ p
    · -- who is not active is passed over
      refine .bind (.pure total p) fun sum p hsum => ?_
      obtain ⟨rfl, -⟩ := runOn_pure_eq_ok_iff.mp hsum
      have hsame := hrest.imp_right fun hfits => hfits.mono (Nat.le_add_right total.toNat _)
      exact .bind (ih (position + 1) total p hsame) fun _ p _ => .pure _ p

theorem firstFreeExit_failsAs (config : Config) (current : Epoch) (limit : Nat)
    (vs : List Validator) : FailsAs P (firstFreeExit config current limit vs) := by
  have hepoch : P (.violated .epochOverflow) := hP.violated (by simp)
  refine (activationExitEpoch_failsAs hepoch current).bind fun earliest _ => ?_
  dsimp only
  split
  · exact (FailsAs.orFail hepoch _).bind fun _ _ => .ok _
  · exact .ok _

theorem markAll_failsAs (vote : CountedVote) (indices : List Nat) :
    ∀ statuses, FailsAs P (markAll vote statuses indices) := by
  induction indices with
  | nil => exact fun statuses => .ok statuses
  | cons index indices ih =>
    intro statuses
    unfold markAll
    split
    · exact ih _
    · exact .error (hP.violated (by simp))

theorem inclusionOf_failsAs (epoch : RecentEpoch) (vote : PendingAttestation) :
    FailsAs P (inclusionOf epoch vote) := by
  unfold inclusionOf
  cases epoch with
  | current => exact .ok none
  | previous =>
    cases Divisor.ofWord? vote.inclusionDelay with
    | some delay => exact .ok _
    | none => exact .error (hP.violated (by simp))

variable {σ : Type} [StateAccess σ] (config : Config) (s : σ) (committees : Committees)
  (signal : StopSignal)

theorem blockRootAtSlot_failsAs (slot : Slot) : FailsAs P (blockRootAtSlot config s slot) := by
  unfold blockRootAtSlot
  dsimp only
  split
  · exact .access hP.access _
  · exact .error (hP.access _)

theorem countVotes_stopsAs (epoch : RecentEpoch) (boundaryRoot : Root)
    (items : List (Except AccessError PendingAttestation)) :
    ∀ (position : Nat) (statuses : Array AttesterStatus) (progress : Progress),
      StopsAs P
        (countVotes config s committees signal epoch boundaryRoot position statuses items)
        progress := by
  induction items with
  | nil => exact fun _ statuses => .pure statuses
  | cons item items ih =>
    intro position statuses progress
    refine .bind (pollEvery_stopsAs hP signal _ position progress) fun _ p _ => ?_
    refine .bind (.ofExcept (.access hP.access item) p) fun vote p _ => ?_
    refine .bind (.ofExcept (blockRootAtSlot_failsAs hP config s _) p) fun headRoot p _ => ?_
    have hcommittee : StopsAs P
        (Progress.committee committees vote.data.slot vote.data.index) p :=
      FailsAs.access hP.access _
    refine .bind hcommittee fun committee p _ => ?_
    have hlength : P (.violated
        (.committeeLengthMismatch vote.aggregationBits.length committee.length)) :=
      hP.violated (by simp)
    refine .bind (.ofExcept (.ensure hlength _) p) fun _ p _ => ?_
    refine .bind (.ofExcept (inclusionOf_failsAs hP epoch vote) p) fun inclusion p _ => ?_
    refine .bind (.ofExcept (markAll_failsAs hP _ _ statuses) p) fun statuses p _ => ?_
    exact ih (position + 1) statuses p

theorem countEpoch_stopsAs (statuses : Array AttesterStatus) (epoch : RecentEpoch)
    (progress : Progress) :
    StopsAs P (countEpoch config s committees signal statuses epoch) progress := by
  refine .bind (.ofExcept (blockRootAtSlot_failsAs hP config s _) progress) fun root p _ => ?_
  exact countVotes_stopsAs hP config s committees signal epoch root _ 0 statuses p

end

/-! ### Stakes -/

/-- A sum of words that is a word can be taken. -/
theorem sumChecked_ne_none (amounts : List Gwei) :
    ∀ {total : Gwei}, total.toNat + (amounts.map UInt64.toNat).sum < wordRange →
      State.sumChecked total amounts ≠ none := by
  induction amounts with
  | nil => exact fun _ hnone => nomatch hnone
  | cons amount amounts ih =>
    intro total h hnone
    rw [List.map_cons, List.sum_cons] at h
    rcases hnext : Word.addChecked total amount with _ | next
    · exact Word.addChecked_ne_none (by omega) hnext
    · unfold State.sumChecked at hnone
      rw [hnext] at hnone
      rw [Word.addChecked_eq_some_iff] at hnext
      exact ih (by omega) hnone

/-- Part of a sum is no more than all of it. -/
theorem sum_map_filter_le {α : Type} (amount : α → Nat) (test : α → Bool) (list : List α) :
    ((list.filter test).map amount).sum ≤ (list.map amount).sum := by
  induction list with
  | nil => exact Nat.le_refl 0
  | cons a list ih =>
    rw [List.filter_cons, List.map_cons, List.sum_cons]
    split
    · rw [List.map_cons, List.sum_cons]
      omega
    · omega

section

variable {σ : Type} [StateAccess σ] {config : Config} {s : σ} {committees : Committees}

/-- Votes do not touch the validators in the statuses. -/
theorem AllTallied.map_validator {seen : RecentEpoch → List PendingAttestation}
    {vs : List Validator} {statuses : Array AttesterStatus}
    (h : AllTallied config s committees seen vs statuses) :
    statuses.toList.map AttesterStatus.validator = vs := by
  apply List.ext_getElem?
  intro i
  rw [List.getElem?_map, Array.getElem?_toList]
  rcases hstatus : statuses[i]? with _ | status
  · have hge := Array.getElem?_eq_none_iff.mp hstatus
    rw [h.size] at hge
    rw [List.getElem?_eq_none hge]
    rfl
  · obtain ⟨v, hv, ht⟩ := h.exists_tallied hstatus
    rw [hv, Option.map_some, ht.validator]

/-- The stake of any of the statuses is part of the whole. -/
theorem AllTallied.stakes_le {seen : RecentEpoch → List PendingAttestation}
    {vs : List Validator} {statuses : Array AttesterStatus}
    (h : AllTallied config s committees seen vs statuses) (test : AttesterStatus → Bool) :
    ((statuses.toList.filter test).map fun status => status.validator.effectiveBalance.toNat).sum ≤
      stakeSum vs := by
  have hall := sum_map_filter_le
    (fun status : AttesterStatus => status.validator.effectiveBalance.toNat) test statuses.toList
  have hsum : stakeSum vs =
      (statuses.toList.map fun status => status.validator.effectiveBalance.toNat).sum := by
    rw [← h.map_validator]
    unfold stakeSum
    rw [List.map_map]
    rfl
  omega

theorem stakeWhere_failsAs {P : Failure → Prop} {seen : RecentEpoch → List PendingAttestation}
    {vs : List Validator} {statuses : Array AttesterStatus}
    (h : AllTallied config s committees seen vs statuses)
    (hroom : P (.violated .balanceOverflow) ∨ stakeSum vs < wordRange)
    (test : AttesterStatus → Bool) : FailsAs P (stakeWhere config statuses test) := by
  refine .orFail_balance hroom fun hlt => ?_
  rw [ne_eq, Option.map_eq_none_iff]
  refine sumChecked_ne_none _ ?_
  have hle := h.stakes_le fun status => status.unslashed && test status
  have hzero : (0 : Gwei).toNat = 0 := rfl
  rw [List.map_map, hzero]
  show 0 + ((statuses.toList.filter fun status => status.unslashed && test status).map fun status =>
    status.validator.effectiveBalance.toNat).sum < wordRange
  omega

end

section

variable {σ : Type} [StateAccess σ] (config : Config) (s : σ) (committees : Committees)
  (signal : StopSignal)

/-- Only the stakes add up to something that may be no word. -/
theorem summarize_stopsAs_of_room {P : Failure → Prop} (hP : Failure.CoversFatal P)
    (hroom : P (.violated .balanceOverflow) ∨ StakesFit 0 (StateAccess.validators s))
    (progress : Progress) : StopsAs P (summarize config s committees signal) progress := by
  have hepoch : P (.violated .epochOverflow) := hP.violated (by simp)
  refine .bind (.ofExcept (.orFail hepoch _) progress) fun due p _ => ?_
  refine .bind (readRegistry_stopsAs hP signal _ _ 0 0 p hroom) fun ⟨vs, stake⟩ p hread => ?_
  refine .bind (.ofExcept (firstFreeExit_failsAs hP config _ _ vs) p) fun queue p _ => ?_
  refine .bind (countEpoch_stopsAs hP config s committees signal _ .previous p)
    fun counted p hprevious => ?_
  refine .bind (countEpoch_stopsAs hP config s committees signal counted .current p)
    fun statuses p hcurrent => ?_
  -- the statuses are those of the validators that were read
  obtain ⟨_, -, htallied⟩ :=
    countEpoch_eq_ok hprevious (allTallied_initialStatus config s committees vs)
  obtain ⟨_, -, htallied⟩ := countEpoch_eq_ok hcurrent htallied
  have hstakes : P (.violated .balanceOverflow) ∨ stakeSum vs < wordRange := by
    refine hroom.imp_right ?_
    rintro ⟨us, hus, hlt⟩
    have hvs := (readRegistry_eq_ok _ hread).1
    rw [hus] at hvs
    rw [(List.map_inj_right fun _ _ => Except.ok.inj).mp hvs] at hlt
    omega
  have hstake : ∀ test, FailsAs P (stakeWhere config statuses test) :=
    stakeWhere_failsAs htallied hstakes
  refine .bind (.ofExcept (hstake _) p) fun source p _ => ?_
  refine .bind (.ofExcept (hstake _) p) fun target p _ => ?_
  refine .bind (.ofExcept (hstake _) p) fun head p _ => ?_
  refine .bind (.ofExcept (hstake _) p) fun currentTarget p _ => ?_
  exact .pure _ p

theorem summarize_stopsAs (progress : Progress) :
    StopsAs Failure.IsFatal (summarize config s committees signal) progress :=
  summarize_stopsAs_of_room config s committees signal .of_isFatal (.inl (.violated _)) progress

end

end Collect

/-! ## The registry -/

/-- The place found for ejections is not full, and the churn limit is a word. -/
structure EpochSummary.HasRoom (summary : EpochSummary) : Prop where
  churn_lt : summary.exitQueue.churn < Cursor.room summary.churnLimit
  limit_lt : summary.churnLimit < wordRange

theorem churnLimit_lt {config : Config} {active : Nat} (h : active < wordRange) :
    churnLimit config active < wordRange := by
  have hminimum : config.minPerEpochChurnLimit.toNat < wordRange :=
    config.minPerEpochChurnLimit.toNat_lt
  have hshare := Nat.div_le_self active config.churnLimitQuotient.val.toNat
  unfold churnLimit
  omega

/-- A registry whose size is a word has no more active validators than that. -/
theorem Collect.Collected.activeValidators_lt {σ : Type} [StateAccess σ] {config : Config} {s : σ}
    {committees : Committees} {vs : List Validator}
    {votes : RecentEpoch → List PendingAttestation} {summary : EpochSummary}
    (h : Collect.Collected config s committees vs votes summary)
    (hsize : (StateAccess.validators s).length < wordRange) :
    summary.activeValidators < wordRange := by
  rw [h.validators, List.length_map] at hsize
  rw [h.activeValidators]
  exact Nat.lt_of_le_of_lt List.countP_le_length hsize

theorem Collect.Collected.hasRoom {σ : Type} [StateAccess σ] {config : Config} {s : σ}
    {committees : Committees} {vs : List Validator}
    {votes : RecentEpoch → List PendingAttestation} {summary : EpochSummary}
    (h : Collect.Collected config s committees vs votes summary)
    (hsize : (StateAccess.validators s).length < wordRange) : summary.HasRoom where
  churn_lt := by
    obtain ⟨earliest, -, hplace⟩ := Collect.place_of_firstFreeExit h.exitQueue
    show summary.exitQueue.place.taken < _
    rw [hplace]
    exact ExitQueue.taken_cursor_lt _ _
  limit_lt := by
    rw [h.churnLimit]
    exact churnLimit_lt (h.activeValidators_lt hsize)

/-- Where the end of a queue is not full, one more is still a word. -/
theorem ExitQueue.advance_failsAs {P : Failure → Prop} (hepoch : P (.violated .epochOverflow))
    {queue : ExitQueue} {limit : Nat}
    (hroom : P .overflow ∨ queue.churn < Cursor.room limit ∧ limit < wordRange) :
    FailsAs P (queue.advance limit) := by
  unfold ExitQueue.advance
  split
  · next hword =>
    rcases hroom with hoverflow | ⟨hchurn, hlimit⟩
    · exact .error hoverflow
    · unfold Cursor.room at hchurn
      unfold wordRange at hword hlimit
      omega
  · split
    · exact (FailsAs.orFail hepoch _).bind fun _ _ => .ok _
    · exact .ok _

/-- The validator is in one of the queues. -/
def EpochSummary.Queues (summary : EpochSummary) (i : Nat) : Prop :=
  i ∈ summary.toSlash ∨ i ∈ summary.toSetEligibility ∨ i ∈ summary.toMaybeActivate ∨
    i ∈ summary.toEject

section

variable {σ : Type} [StateAccess σ] {config : Config} {P : Failure → Prop} {Inv : σ → Prop}
  {known : Nat → Prop}

/-- The end of the queue is not full before an ejection, and so it is not after it. -/
theorem ejectAll_runsAs (hstore : Serves P Inv known) (hepoch : P (.violated .epochOverflow))
    {limit : Nat} (indices : List Nat) :
    ∀ {queue : ExitQueue},
      (P .overflow ∨ queue.churn < Cursor.room limit ∧ limit < wordRange) →
      (∀ i ∈ indices, known i) → ∀ {s : σ}, Inv s →
        RunsAs P Inv (ejectAll config limit queue indices) s := by
  induction indices with
  | nil => exact fun _ _ _ h => .pure () h
  | cons index indices ih =>
    intro queue hroom hknown s h
    have hindex : known index := hknown index List.mem_cons_self
    have hrest : ∀ i ∈ indices, known i := fun i hi => hknown i (List.mem_cons_of_mem index hi)
    have hread : RunsAs P Inv (Action.read fun s : σ => StateAccess.validator s index) s :=
      ⟨hstore.validator h hindex, h⟩
    refine hread.bind fun validator t _ h => ?_
    split
    · refine .bind (.ofExcept (withdrawableAfter_failsAs hepoch queue.last) h) fun w t _ h => ?_
      refine .bind (hstore.write _ h rfl hindex) fun _ t _ h => ?_
      refine .bind (hstore.write _ h rfl hindex) fun _ t _ h => ?_
      refine .bind (.ofExcept (ExitQueue.advance_failsAs hepoch hroom) h) fun next t hnext h => ?_
      refine ih (hroom.imp_right fun ⟨_, hlimit⟩ => ⟨?_, hlimit⟩) hrest h
      -- a full end has been passed on
      have hplace := ExitQueue.place_of_advance_eq_ok (runOn_ofExcept_eq_ok_iff.mp hnext).1
      show next.place.taken < Cursor.room limit
      rw [hplace]
      exact Cursor.taken_advance_lt queue.place limit
    · exact ih hroom hrest h

theorem setEligibility_runsAs (hstore : Serves P Inv known) (epoch : Epoch) (indices : List Nat)
    (hknown : ∀ i ∈ indices, known i) :
    ∀ {s : σ}, Inv s → RunsAs P Inv (setEligibility epoch indices) s := by
  induction indices with
  | nil => exact fun h => .pure () h
  | cons index indices ih =>
    intro s h
    have hindex : known index := hknown index List.mem_cons_self
    refine .bind (hstore.write _ h rfl hindex) fun _ t _ h => ?_
    exact ih (fun i hi => hknown i (List.mem_cons_of_mem index hi)) h

theorem activateAll_runsAs (hstore : Serves P Inv known) {summary : EpochSummary}
    (hstatus : ∀ i, known i → FailsAs P (summary.status i)) (finalized activation : Epoch)
    (indices : List Nat) (hknown : ∀ i ∈ indices, known i) :
    ∀ {s : σ}, Inv s → RunsAs P Inv (activateAll summary finalized activation indices) s := by
  induction indices with
  | nil => exact fun h => .pure () h
  | cons index indices ih =>
    intro s h
    have hindex : known index := hknown index List.mem_cons_self
    refine .bind (.ofExcept (hstatus index hindex) h) fun status t _ h => ?_
    split
    · exact .pure () h
    · refine .bind (hstore.write _ h rfl hindex) fun _ t _ h => ?_
      exact ih (fun i hi => hknown i (List.mem_cons_of_mem index hi)) h

/-- On storage that serves for the queues an epoch may leave the range of words, and nothing else
    goes wrong. -/
theorem applyQueues_runsAs (hstore : Serves P Inv known) (hepoch : P (.violated .epochOverflow))
    {summary : EpochSummary} (hroom : P .overflow ∨ summary.HasRoom)
    (hknown : ∀ i, summary.Queues i → known i)
    (hstatus : ∀ i, known i → FailsAs P (summary.status i)) {s : σ} (h : Inv s) :
    RunsAs P Inv (applyQueues config summary) s := by
  have heject : RunsAs P Inv
      (ejectAll config summary.churnLimit summary.exitQueue summary.toEject) s :=
    ejectAll_runsAs hstore hepoch _ (hroom.imp_right fun h => ⟨h.churn_lt, h.limit_lt⟩)
      (fun i hi => hknown i (.inr (.inr (.inr hi)))) h
  refine heject.bind fun _ t _ h => ?_
  refine .bind (.ofExcept (.orFail hepoch _) h) fun next t _ h => ?_
  refine .bind (setEligibility_runsAs hstore next _ (fun i hi => ?_) h) fun _ t _ h => ?_
  · exact hknown i (.inr (.inl hi))
  refine .bind (.view _ h) fun finalized t _ h => ?_
  refine .bind (.ofExcept (activationExitEpoch_failsAs hepoch _) h) fun activation t _ h => ?_
  refine activateAll_runsAs hstore hstatus finalized activation _ (fun i hi => ?_) h
  exact hknown i (.inr (.inr (.inl (List.mem_of_mem_take hi))))

theorem updateRegistry_stopsAs (hstore : Serves P Inv known) (hcancelled : P .cancelled)
    (hepoch : P (.violated .epochOverflow)) {summary : EpochSummary}
    (hroom : P .overflow ∨ summary.HasRoom) (hknown : ∀ i, summary.Queues i → known i)
    (hstatus : ∀ i, known i → FailsAs P (summary.status i)) (signal : StopSignal) {s : σ}
    (h : Inv s) (progress : Progress) :
    StopsAs P (updateRegistry config summary signal) (s, progress) := by
  refine .bind (.onSecond (FailsAs.ensure hcancelled _)) fun _ ⟨t, p⟩ hpoll => ?_
  obtain ⟨-, rfl⟩ := runOn_onSecond_eq_ok_iff.mp hpoll
  exact .onFirst (applyQueues_runsAs hstore hepoch hroom hknown hstatus h).stops p

/-! ## Penalties -/

/-- If no more than the total was slashed, nobody pays more than the own stake. -/
theorem proportionalPenalty_failsAs_of_room {stake slashed : Gwei} {total : Divisor}
    (hroom : P (.violated .balanceOverflow) ∨
      stake.toNat / config.effectiveBalanceIncrement.val.toNat * total.val.toNat < wordRange)
    (h : slashed.toNat ≤ total.val.toNat) :
    FailsAs P (proportionalPenalty config stake slashed total) := by
  have hproduct : stake.toNat / config.effectiveBalanceIncrement.val.toNat * slashed.toNat ≤
      stake.toNat / config.effectiveBalanceIncrement.val.toNat * total.val.toNat :=
    Nat.mul_le_mul_left _ h
  have hfirst : FailsAs P (orFail (.violated .balanceOverflow) (Word.mulDivChecked
      (Word.div stake config.effectiveBalanceIncrement) slashed total)) := by
    refine .orFail_balance hroom fun hlt => Word.mulDivChecked_ne_none ?_
    rw [Word.toNat_div]
    omega
  refine hfirst.bind fun increments hincrements => ?_
  refine .orFail_of_ne_none (Word.mulChecked_ne_none ?_)
  rw [orFail_eq_ok_iff, Word.mulDivChecked_eq_some_iff, Word.toNat_div] at hincrements
  -- in increments the penalty is no more than the stake, and so it is in full
  have hfraction : increments.toNat ≤ stake.toNat / config.effectiveBalanceIncrement.val.toNat := by
    rw [hincrements.2]
    calc _ ≤ stake.toNat / config.effectiveBalanceIncrement.val.toNat * total.val.toNat /
          total.val.toNat := Nat.div_le_div_right hproduct
      _ = _ := Nat.mul_div_cancel _ total.toNat_pos
  calc increments.toNat * config.effectiveBalanceIncrement.val.toNat
      ≤ stake.toNat / config.effectiveBalanceIncrement.val.toNat *
          config.effectiveBalanceIncrement.val.toNat := Nat.mul_le_mul_right _ hfraction
    _ ≤ stake.toNat := Nat.div_mul_le_self _ _
    _ < wordRange := stake.toNat_lt

theorem proportionalPenalty_failsAs (hbalance : P (.violated .balanceOverflow)) (stake : Gwei)
    {slashed : Gwei} {total : Divisor} (h : slashed.toNat ≤ total.val.toNat) :
    FailsAs P (proportionalPenalty config stake slashed total) :=
  proportionalPenalty_failsAs_of_room (.inl hbalance) h

theorem adjustedSlashings_le {total : Divisor} {s : σ} {slashed : Gwei}
    (h : adjustedSlashings config total s = .ok slashed) : slashed.toNat ≤ total.val.toNat := by
  obtain ⟨sum, -, h⟩ := bind_eq_ok_iff.mp h
  obtain ⟨product, -, h⟩ := bind_eq_ok_iff.mp h
  cases h
  show (if product ≤ total.val then product else total.val).toNat ≤ _
  split
  · next hle => exact UInt64.le_iff_toNat_le.mp hle
  · exact Nat.le_refl _

/-- All the stakes in increments, times the total, are words. -/
def EpochSummary.ChargesFit (config : Config) (summary : EpochSummary) : Prop :=
  ∀ (i : Nat) status, summary.statuses[i]? = some status →
    status.validator.effectiveBalance.toNat / config.effectiveBalanceIncrement.val.toNat *
      summary.totalActiveStake.val.toNat < wordRange

theorem chargeAll_runsAs (hstore : Serves P Inv known) {summary : EpochSummary}
    (hroom : P (.violated .balanceOverflow) ∨ summary.ChargesFit config)
    (hstatus : ∀ i, known i → FailsAs P (summary.status i))
    {slashed : Gwei} (hslashed : slashed.toNat ≤ summary.totalActiveStake.val.toNat)
    (indices : List Nat) (hknown : ∀ i ∈ indices, known i) :
    ∀ (table : PenaltyTable) {s : σ}, Inv s →
      RunsAs P Inv (chargeAll config summary slashed table indices) s := by
  induction indices with
  | nil => exact fun table _ h => .pure table h
  | cons index indices ih =>
    intro table s h
    have hindex : known index := hknown index List.mem_cons_self
    refine .bind (.ofExcept (hstatus index hindex) h) fun status t hread h => ?_
    have hsome : summary.statuses[index]? = some status :=
      orFail_eq_ok_iff.mp (runOn_ofExcept_eq_ok_iff.mp hread).1
    have hpenalty := proportionalPenalty_failsAs_of_room
      (hroom.imp_right fun hfits => hfits index status hsome) hslashed
    refine .bind (.ofExcept hpenalty h) fun penalty t _ h => ?_
    refine .bind (debit_runsAs hstore hindex penalty h) fun _ t _ h => ?_
    exact ih (fun i hi => hknown i (List.mem_cons_of_mem index hi)) _ h

/-- The ring's sum times the multiplier is a word, if there is a sum. -/
def SlashingsFit (config : Config) (s : σ) : Prop :=
  ∀ sum, StateAccess.slashingsTotal s = .ok sum →
    sum.toNat * config.proportionalSlashingMultiplier.toNat < wordRange

theorem chargeSlashed_runsAs (hstore : Serves P Inv known) {summary : EpochSummary} {s : σ}
    (hroom : P (.violated .balanceOverflow) ∨ SlashingsFit config s ∧ summary.ChargesFit config)
    (hknown : ∀ i, summary.Queues i → known i)
    (hstatus : ∀ i, known i → FailsAs P (summary.status i)) (h : Inv s)
    (htotal : FailsAs P ((StateAccess.slashingsTotal s).mapError Failure.access)) :
    RunsAs P Inv (chargeSlashed config summary) s := by
  have hadjusted : FailsAs P (adjustedSlashings config summary.totalActiveStake s) := by
    refine htotal.bind fun sum hsum => ?_
    have hproduct : FailsAs P (orFail (.violated .balanceOverflow)
        (Word.mulChecked sum config.proportionalSlashingMultiplier)) :=
      .orFail_balance hroom fun hfits =>
        Word.mulChecked_ne_none (hfits.1 sum (mapError_eq_ok_iff.mp hsum))
    exact hproduct.bind fun _ _ => .ok _
  unfold chargeSlashed
  split
  · exact .pure [] h
  · refine .bind (.query hadjusted h) fun slashed t hslashed h => ?_
    rw [runOn_query, Prod.mk.injEq] at hslashed
    obtain ⟨hslashed, rfl⟩ := hslashed
    exact chargeAll_runsAs hstore (hroom.imp_right And.right) hstatus
      (adjustedSlashings_le hslashed) _ (fun i hi => hknown i (.inl hi)) [] h

theorem chargeSlashed_stopsAs (hstore : Serves P Inv known)
    (hbalance : P (.violated .balanceOverflow)) {summary : EpochSummary}
    (hknown : ∀ i, summary.Queues i → known i)
    (hstatus : ∀ i, known i → FailsAs P (summary.status i)) {s : σ} (h : Inv s)
    (htotal : FailsAs P ((StateAccess.slashingsTotal s).mapError Failure.access)) :
    StopsAs P (chargeSlashed config summary) s :=
  (chargeSlashed_runsAs hstore (.inl hbalance) hknown hstatus h htotal).stops

end

/-! ## The whole of it -/

section

variable {σ : Type} [StateAccess σ] (config : Config)

theorem updateRegistry_isFatal {summary : EpochSummary} (hroom : summary.HasRoom)
    (signal : StopSignal) (s : σ) (progress : Progress) :
    StopsAs Failure.IsFatal (updateRegistry config summary signal) (s, progress) :=
  updateRegistry_stopsAs (.of_access .access) .cancelled (.violated _) (.inr hroom)
    (fun _ _ => trivial) (fun _ _ => .orFail (.violated _) _) signal trivial progress

theorem chargeSlashed_isFatal (summary : EpochSummary) (s : σ) :
    StopsAs Failure.IsFatal (chargeSlashed config summary) s :=
  chargeSlashed_stopsAs (.of_access .access) (.violated _) (fun _ _ => trivial)
    (fun _ _ => .orFail (.violated _) _) trivial (.access .access _)

theorem EpochSummary.deltas_isFatal (s : σ) (summary : EpochSummary) :
    FailsAs Failure.IsFatal (summary.deltas config s) :=
  summary.deltas_failsAs (.violated _) config s fun _ _ _ _ _ => .violated _

theorem closeEpoch_stopsAs (committees : Committees) (signal : StopSignal) {s : σ}
    (hsize : (StateAccess.validators s).length < wordRange) (progress : Progress) :
    StopsAs Failure.IsFatal (closeEpoch config committees signal) (s, progress) := by
  refine .bind (.onSecond (Collect.summarize_stopsAs config s committees signal progress))
    fun summary ⟨t, p⟩ hrun => ?_
  obtain ⟨hsummary, rfl⟩ := runOn_onSecond_eq_ok_iff.mp hrun
  obtain ⟨vs, votes, hc⟩ := Collect.collected_of_summarize hsummary
  refine .bind (updateRegistry_isFatal config (hc.hasRoom hsize) signal s p)
    fun _ ⟨t, p⟩ _ => ?_
  refine .bind (.onFirst (chargeSlashed_isFatal config summary t) p) fun penalties q _ => ?_
  exact .pure _ q

theorem endEpoch_stopsAs (committees : Committees) (signal : StopSignal) {s : σ}
    (hsize : (StateAccess.validators s).length < wordRange) (progress : Progress) :
    StopsAs Failure.IsFatal (endEpoch config committees signal) (s, progress) :=
  .bind (closeEpoch_stopsAs config committees signal hsize progress) fun _ q _ => .pure _ q

theorem accountForEpoch_stopsAs (committees : Committees) (signal : StopSignal) {s : σ}
    (hsize : (StateAccess.validators s).length < wordRange) (progress : Progress) :
    StopsAs Failure.IsFatal (accountForEpoch config committees signal) (s, progress) := by
  refine .bind (closeEpoch_stopsAs config committees signal hsize progress)
    fun ⟨summary, penalties⟩ ⟨t, p⟩ _ => ?_
  refine .bind (.onFirst (.query (summary.deltas_isFatal config t)) p) fun deltas q _ => ?_
  exact .pure _ q

end

end Beacon
