/-
  What a successful summing up has found.

  `Collected` says it field by field, over the validators and the votes that were read: the
  statuses as the votes declare them (`Tallied`), the stakes as sums, the queues as filters of the
  registry, the exit queue's free place.  `collected_of_summarize` derives it from success alone,
  for every storage, every source of committees and every cancellation signal; the later parts of
  closing an epoch are reasoned about from `Collected` and never from the passes themselves.

  The passes are loops.  Their lemmas are by induction on the items still to be read, with what
  has been accumulated so far as a parameter; the one for votes carries `Tallied` for every
  validator (`AllTallied`) as its invariant.
-/
import Mathlib.Algebra.GroupWithZero.Nat
import Beacon.Proofs.Epoch.Votes

namespace Beacon

open Beacon.Action

namespace Collect

/-! ## The registry pass -/

/-- The stake of the active validators in a list. -/
def activeStake (current : Epoch) (validators : List Validator) : Nat :=
  ((validators.filter fun v => v.isActive current).map fun v => v.effectiveBalance.toNat).sum

theorem activeStake_cons (current : Epoch) (v : Validator) (vs : List Validator) :
    activeStake current (v :: vs) =
      (if v.isActive current then v.effectiveBalance.toNat else 0) + activeStake current vs := by
  unfold activeStake
  rw [List.filter_cons]
  split
  · rw [List.map_cons, List.sum_cons]
  · rw [Nat.zero_add]

/-- All validators are read, and the active stake is added to what was there before. -/
theorem readRegistry_eq_ok {signal : StopSignal} {current : Epoch}
    (items : List (Except AccessError Validator)) :
    ∀ {position : Nat} {total total' : Gwei} {p p' : Progress} {vs : List Validator},
      (readRegistry signal current position total items).runOn p = (.ok (vs, total'), p') →
      items = vs.map .ok ∧ total'.toNat = total.toNat + activeStake current vs := by
  induction items with
  | nil =>
    intro position total total' p p' vs h
    obtain ⟨hvs, -⟩ := runOn_pure_eq_ok_iff.mp h
    cases hvs
    exact ⟨rfl, rfl⟩
  | cons item items ih =>
    intro position total total' p p' vs h
    obtain ⟨_, p1, -, h⟩ := runOn_bind_eq_ok_iff.mp h
    obtain ⟨_, p2, -, h⟩ := runOn_bind_eq_ok_iff.mp h
    obtain ⟨v, p3, hv, h⟩ := runOn_bind_eq_ok_iff.mp h
    obtain ⟨hitem, -⟩ := runOn_ofExcept_eq_ok_iff.mp hv
    rw [mapError_eq_ok_iff] at hitem
    -- an active validator's stake is added before the rest is read
    obtain ⟨sum, p4, hsum, h⟩ : ∃ sum p4, sum.toNat =
          total.toNat + (if v.isActive current then v.effectiveBalance.toNat else 0) ∧
        (readRegistry signal current (position + 1) sum items >>= fun rest =>
          pure (v :: rest.1, rest.2)).runOn p4 = (.ok (vs, total'), p') := by
      dsimp only at h
      split at h
      · next hact =>
        obtain ⟨sum, p4, hadd, h⟩ := runOn_bind_eq_ok_iff.mp h
        have hadd' := (runOn_ofExcept_eq_ok_iff.mp hadd).1
        rw [orFail_eq_ok_iff, Word.addChecked_eq_some_iff] at hadd'
        exact ⟨sum, p4, by rw [if_pos hact, hadd'], h⟩
      · next hact => exact ⟨total, p3, by rw [if_neg hact, Nat.add_zero], h⟩
    obtain ⟨⟨rest, total''⟩, p5, hrest, h⟩ := runOn_bind_eq_ok_iff.mp h
    obtain ⟨hret, -⟩ := runOn_pure_eq_ok_iff.mp h
    cases hret
    obtain ⟨hitems, htotal⟩ := ih hrest
    refine ⟨?_, ?_⟩
    · rw [hitem, hitems]
      rfl
    · rw [htotal, hsum, activeStake_cons, Nat.add_assoc]

/-! ## The passes over votes -/

theorem markVotes_markVotes (votes : Votes) (vote : CountedVote) :
    markVotes (markVotes votes vote) vote = markVotes votes vote := by
  unfold markVotes
  simp only [Bool.or_assoc, Bool.or_self]

theorem fasterInclusion_self (known new : Option Inclusion) :
    fasterInclusion (fasterInclusion known new) new = fasterInclusion known new := by
  rcases new with _ | new
  · rcases known with _ | known <;> rfl
  · have hself : fasterInclusion (some new) (some new) = some new := by
      show (if new.delay.val < new.delay.val then some new else some new) = _
      exact ite_self _
    rcases known with _ | known
    · exact hself
    · unfold fasterInclusion
      by_cases h : new.delay.val < known.delay.val
      · simp only [if_pos h, ite_self]
      · simp only [if_neg h]

/-- Who stands in a committee twice is marked twice, which is as good as once. -/
theorem markStatus_markStatus (vote : CountedVote) (status : AttesterStatus) :
    markStatus vote (markStatus vote status) = markStatus vote status := by
  unfold markStatus
  cases vote.epoch with
  | previous => simp only [markVotes_markVotes, fasterInclusion_self]
  | current => simp only [markVotes_markVotes]

/-- Just the statuses of the participants are marked, and all participants have one. -/
theorem markAll_eq_ok {vote : CountedVote} (indices : List Nat) :
    ∀ {statuses statuses' : Array AttesterStatus}, markAll vote statuses indices = .ok statuses' →
      statuses'.size = statuses.size ∧ (∀ i ∈ indices, i < statuses.size) ∧
      ∀ i, statuses'[i]? =
        if i ∈ indices then statuses[i]?.map (markStatus vote) else statuses[i]? := by
  induction indices with
  | nil =>
    intro statuses statuses' h
    cases h
    exact ⟨rfl, fun i hi => absurd hi List.not_mem_nil, fun i => (if_neg List.not_mem_nil).symm⟩
  | cons index indices ih =>
    intro statuses statuses' h
    unfold markAll at h
    split at h
    · next hlt =>
      obtain ⟨hsize, hin, hget⟩ := ih h
      rw [Array.size_modify] at hsize hin
      refine ⟨hsize, fun i hi => ?_, fun i => ?_⟩
      · rcases List.mem_cons.mp hi with rfl | hi
        · exact hlt
        · exact hin i hi
      · rw [hget i, Array.getElem?_modify]
        by_cases hhead : index = i
        · subst hhead
          rw [if_pos rfl, if_pos List.mem_cons_self]
          split
          · rw [Option.map_map]
            congr 1
            funext status
            exact markStatus_markStatus vote status
          · rfl
        · rw [if_neg hhead]
          have hiff : i ∈ index :: indices ↔ i ∈ indices := by
            rw [List.mem_cons]
            exact or_iff_right (Ne.symm hhead)
          simp only [hiff]
    · nomatch h

section

variable {σ : Type} [StateAccess σ] {config : Config} {s : σ} {committees : Committees}
  {signal : StopSignal}

/-- Every validator has the status that the votes seen so far declare. -/
structure AllTallied (config : Config) (s : σ) (committees : Committees)
    (seen : RecentEpoch → List PendingAttestation) (vs : List Validator)
    (statuses : Array AttesterStatus) : Prop where
  size : statuses.size = vs.length
  tallied : ∀ i v, vs[i]? = some v →
    ∃ status, statuses[i]? = some status ∧ Tallied config s committees seen i v status

/-- Every status is that of a validator. -/
theorem AllTallied.exists_tallied {seen : RecentEpoch → List PendingAttestation}
    {vs : List Validator} {statuses : Array AttesterStatus} {i : Nat} {status : AttesterStatus}
    (h : AllTallied config s committees seen vs statuses) (hi : statuses[i]? = some status) :
    ∃ v, vs[i]? = some v ∧ Tallied config s committees seen i v status := by
  have hlt : i < vs.length := by
    rw [← h.size]
    exact (Array.getElem?_eq_some_iff.mp hi).1
  obtain ⟨status', hstatus', ht⟩ := h.tallied i _ (List.getElem?_eq_getElem hlt)
  obtain rfl : status = status' := Option.some.inj (hi.symm.trans hstatus')
  exact ⟨_, List.getElem?_eq_getElem hlt, ht⟩

/-- Before the passes nothing is tallied. -/
theorem allTallied_initialStatus (config : Config) (s : σ) (committees : Committees)
    (vs : List Validator) :
    AllTallied config s committees (fun _ => []) vs
      (vs.map (initialStatus (previousEpoch config s) (currentEpoch config s))).toArray where
  size := by rw [List.size_toArray, List.length_map]
  tallied i v hv := by
    refine ⟨_, ?_, tallied_initialStatus config s committees i v⟩
    rw [List.getElem?_toArray, List.getElem?_map, hv, Option.map_some]

/-- One vote: its participants are marked and all others are passed over. -/
theorem AllTallied.vote {seen : RecentEpoch → List PendingAttestation} {vs : List Validator}
    {statuses statuses' : Array AttesterStatus} {epoch : RecentEpoch} {vote : PendingAttestation}
    {counted : CountedVote} {committee : List Nat}
    (h : AllTallied config s committees seen vs statuses)
    (hcounts : CountsAs config s epoch vote counted)
    (hcommittee : committees vote.data.slot vote.data.index = .ok committee)
    (hmark : markAll counted statuses (participants committee vote.aggregationBits) =
      .ok statuses') :
    AllTallied config s committees (more seen epoch [vote]) vs statuses' := by
  obtain ⟨hsize, -, hget⟩ := markAll_eq_ok _ hmark
  refine ⟨hsize.trans h.size, fun i v hv => ?_⟩
  obtain ⟨status, hstatus, ht⟩ := h.tallied i v hv
  rw [hget i, hstatus]
  by_cases hi : TookPart committees vote i
  · rw [if_pos ((mem_participants_iff hcommittee).mpr hi)]
    exact ⟨_, rfl, ht.mark hcounts hi⟩
  · rw [if_neg fun c => hi ((mem_participants_iff hcommittee).mp c)]
    exact ⟨_, rfl, ht.skip hi⟩

/-- The inclusion a vote is counted with. -/
theorem inclusionOf_eq_ok {epoch : RecentEpoch} {vote : PendingAttestation}
    {inclusion : Option Inclusion} (h : inclusionOf epoch vote = .ok inclusion)
    (hprev : epoch = .previous) : ∃ new, inclusion = some new ∧
      new.delay.val = vote.inclusionDelay ∧ new.proposerIndex = vote.proposerIndex.toNat := by
  subst hprev
  unfold inclusionOf at h
  rcases hd : Divisor.ofWord? vote.inclusionDelay with _ | delay
  · rw [hd] at h
    nomatch h
  · rw [hd] at h
    cases h
    exact ⟨_, rfl, Divisor.ofWord?_eq_some_iff.mp hd, rfl⟩

/-- What a vote is counted as, compared with the roots that were found. -/
theorem countsAs {epoch : RecentEpoch} {vote : PendingAttestation} {boundaryRoot headRoot : Root}
    {inclusion : Option Inclusion} (hroot : blockRoot config s epoch = .ok boundaryRoot)
    (hhead : blockRootAtSlot config s vote.data.slot = .ok headRoot)
    (hinclusion : inclusionOf epoch vote = .ok inclusion) :
    CountsAs config s epoch vote {
      epoch := epoch
      matchesTarget := vote.data.target.root == boundaryRoot
      matchesHead := vote.data.beaconBlockRoot == headRoot
      inclusion := inclusion } where
  epoch_eq := rfl
  target := by
    unfold AgreesOnTarget
    rw [hroot, Except.ok.injEq, beq_iff_eq]
    exact eq_comm
  head := by
    unfold AgreesOnHead
    rw [hhead, Except.ok.injEq, beq_iff_eq]
    exact eq_comm
  inclusion := inclusionOf_eq_ok hinclusion

theorem countVotes_eq_ok {epoch : RecentEpoch} {boundaryRoot : Root}
    (hroot : blockRoot config s epoch = .ok boundaryRoot) {vs : List Validator}
    (items : List (Except AccessError PendingAttestation)) :
    ∀ {position : Nat} {seen : RecentEpoch → List PendingAttestation}
      {statuses statuses' : Array AttesterStatus} {p p' : Progress},
      (countVotes config s committees signal epoch boundaryRoot position statuses items).runOn p =
        (.ok statuses', p') →
      AllTallied config s committees seen vs statuses →
      ∃ votes, items = votes.map .ok ∧
        AllTallied config s committees (more seen epoch votes) vs statuses' := by
  induction items with
  | nil =>
    intro position seen statuses statuses' p p' h htallied
    obtain ⟨rfl, -⟩ := runOn_pure_eq_ok_iff.mp h
    refine ⟨[], rfl, ?_⟩
    rw [more_nil]
    exact htallied
  | cons item items ih =>
    intro position seen statuses statuses' p p' h htallied
    obtain ⟨_, p1, -, h⟩ := runOn_bind_eq_ok_iff.mp h
    obtain ⟨vote, p2, hvote, h⟩ := runOn_bind_eq_ok_iff.mp h
    obtain ⟨headRoot, p3, hhead, h⟩ := runOn_bind_eq_ok_iff.mp h
    obtain ⟨committee, p4, hcommittee, h⟩ := runOn_bind_eq_ok_iff.mp h
    obtain ⟨_, p5, -, h⟩ := runOn_bind_eq_ok_iff.mp h
    obtain ⟨inclusion, p6, hinclusion, h⟩ := runOn_bind_eq_ok_iff.mp h
    obtain ⟨marked, p7, hmarked, h⟩ := runOn_bind_eq_ok_iff.mp h
    have hitem := mapError_eq_ok_iff.mp (runOn_ofExcept_eq_ok_iff.mp hvote).1
    have hhead' := (runOn_ofExcept_eq_ok_iff.mp hhead).1
    have hcommittee' : committees vote.data.slot vote.data.index = .ok committee :=
      mapError_eq_ok_iff.mp (congrArg Prod.fst hcommittee)
    have hinclusion' := (runOn_ofExcept_eq_ok_iff.mp hinclusion).1
    have hmarked' := (runOn_ofExcept_eq_ok_iff.mp hmarked).1
    have hcounts := countsAs hroot hhead' hinclusion'
    obtain ⟨votes, hitems, hall⟩ := ih h (htallied.vote hcounts hcommittee' hmarked')
    refine ⟨vote :: votes, ?_, ?_⟩
    · rw [hitem, hitems]
      rfl
    · rw [← more_cons]
      exact hall

theorem countEpoch_eq_ok {epoch : RecentEpoch} {vs : List Validator}
    {seen : RecentEpoch → List PendingAttestation} {statuses statuses' : Array AttesterStatus}
    {p p' : Progress}
    (h : (countEpoch config s committees signal statuses epoch).runOn p = (.ok statuses', p'))
    (htallied : AllTallied config s committees seen vs statuses) :
    ∃ votes, StateAccess.attestations s epoch = votes.map .ok ∧
      AllTallied config s committees (more seen epoch votes) vs statuses' := by
  obtain ⟨root, p1, hroot, h⟩ := runOn_bind_eq_ok_iff.mp h
  exact countVotes_eq_ok (runOn_ofExcept_eq_ok_iff.mp hroot).1 _ h htallied

/-! ## The queues of indices -/

theorem mem_indicesWhere_iff {p : Validator → Bool} {vs : List Validator} {i : Nat} :
    i ∈ indicesWhere p vs ↔ ∃ v, vs[i]? = some v ∧ p v = true := by
  unfold indicesWhere
  constructor
  · intro hi
    obtain ⟨⟨v, j⟩, hmem, rfl⟩ := List.mem_map.mp hi
    obtain ⟨hzip, hp⟩ := List.mem_filter.mp hmem
    exact ⟨v, List.mem_zipIdx_iff_getElem?.mp hzip, hp⟩
  · rintro ⟨v, hv, hp⟩
    have hzip : (v, i) ∈ vs.zipIdx := List.mem_zipIdx_iff_getElem?.mpr hv
    exact List.mem_map.mpr ⟨(v, i), List.mem_filter.mpr ⟨hzip, hp⟩, rfl⟩

/-- The indices are in order, each of them once. -/
theorem indicesWhere_pairwise (p : Validator → Bool) (vs : List Validator) :
    (indicesWhere p vs).Pairwise (· < ·) := by
  have hall : (vs.zipIdx.map Prod.snd).Pairwise (· < ·) := by
    rw [List.zipIdx_map_snd]
    exact List.pairwise_lt_range'
  exact hall.sublist (List.filter_sublist.map Prod.snd)

theorem nodup_indicesWhere (p : Validator → Bool) (vs : List Validator) :
    (indicesWhere p vs).Nodup :=
  (indicesWhere_pairwise p vs).imp Nat.ne_of_lt

/-- The queue for activation holds the candidates, each of them once. -/
theorem activationQueue_perm (current : Epoch) (vs : List Validator) :
    (activationQueue current vs).Perm (indicesWhere (isActivationCandidate current) vs) := by
  unfold activationQueue indicesWhere
  refine ((List.mergeSort_perm _ _).map Prod.snd).trans ?_
  rw [List.map_map]
  exact List.Perm.refl _

/-! ## Everything that was found -/

/-- What a summary holds, in terms of the validators and the votes that were read. -/
structure Collected (config : Config) (s : σ) (committees : Committees) (vs : List Validator)
    (votes : RecentEpoch → List PendingAttestation) (summary : EpochSummary) : Prop where
  validators : StateAccess.validators s = vs.map .ok
  attestations : ∀ epoch, StateAccess.attestations s epoch = (votes epoch).map .ok
  previousEpoch : summary.previousEpoch = previousEpoch config s
  currentEpoch : summary.currentEpoch = currentEpoch config s
  statuses : AllTallied config s committees votes vs summary.statuses
  totalActiveStake : summary.totalActiveStake.val.toNat =
    max (activeStake (Beacon.currentEpoch config s) vs) config.effectiveBalanceIncrement.val.toNat
  sourceStake : stakeWhere config summary.statuses (fun st => st.previous.source) =
    .ok summary.previousStakes.source
  targetStake : stakeWhere config summary.statuses
    (fun st => st.previous.source && st.previous.target) = .ok summary.previousStakes.target
  headStake : stakeWhere config summary.statuses
    (fun st => st.previous.source && st.previous.target && st.previous.head) =
      .ok summary.previousStakes.head
  currentTargetStake : stakeWhere config summary.statuses (fun st => st.current.target) =
    .ok summary.currentTargetStake
  activeValidators : summary.activeValidators =
    vs.countP fun v => v.isActive (Beacon.currentEpoch config s)
  toSlash : ∃ due : Epoch,
    due.toNat = (Beacon.currentEpoch config s).toNat + config.penaltyOffset.toNat ∧
    summary.toSlash = indicesWhere (isDueForPenalty due) vs
  toSetEligibility : summary.toSetEligibility = indicesWhere (Validator.entersQueue config) vs
  toMaybeActivate : summary.toMaybeActivate =
    activationQueue (Beacon.currentEpoch config s) vs
  toEject : summary.toEject =
    indicesWhere (isEjectable config (Beacon.currentEpoch config s)) vs
  exitQueue : firstFreeExit config (Beacon.currentEpoch config s) summary.churnLimit vs =
    .ok summary.exitQueue
  churnLimit : summary.churnLimit = churnLimit config summary.activeValidators

theorem collected_of_summarize {summary : EpochSummary} {p p' : Progress}
    (h : (summarize config s committees signal).runOn p = (.ok summary, p')) :
    ∃ vs votes, Collected config s committees vs votes summary := by
  obtain ⟨due, p1, hdue, h⟩ := runOn_bind_eq_ok_iff.mp h
  obtain ⟨⟨vs, stake⟩, p2, hregistry, h⟩ := runOn_bind_eq_ok_iff.mp h
  obtain ⟨queue, p3, hqueue, h⟩ := runOn_bind_eq_ok_iff.mp h
  obtain ⟨counted, p4, hprevious, h⟩ := runOn_bind_eq_ok_iff.mp h
  obtain ⟨statuses, p5, hcurrent, h⟩ := runOn_bind_eq_ok_iff.mp h
  obtain ⟨source, p6, hsource, h⟩ := runOn_bind_eq_ok_iff.mp h
  obtain ⟨target, p7, htarget, h⟩ := runOn_bind_eq_ok_iff.mp h
  obtain ⟨head, p8, hhead, h⟩ := runOn_bind_eq_ok_iff.mp h
  obtain ⟨currentTarget, p9, hcurrentTarget, h⟩ := runOn_bind_eq_ok_iff.mp h
  obtain ⟨hsummary, -⟩ := runOn_pure_eq_ok_iff.mp h
  subst hsummary
  obtain ⟨hvs, hstake⟩ := readRegistry_eq_ok _ hregistry
  have hdue' := (runOn_ofExcept_eq_ok_iff.mp hdue).1
  rw [orFail_eq_ok_iff, Word.addChecked_eq_some_iff] at hdue'
  obtain ⟨previous, hpv, htallied⟩ :=
    countEpoch_eq_ok hprevious (allTallied_initialStatus config s committees vs)
  obtain ⟨current, hcv, htallied⟩ := countEpoch_eq_ok hcurrent htallied
  refine ⟨vs, more (more (fun _ => []) .previous previous) .current current, ?_⟩
  exact {
    validators := hvs
    attestations := fun epoch => by
      cases epoch with
      | previous => exact hpv
      | current => exact hcv
    previousEpoch := rfl
    currentEpoch := rfl
    statuses := htallied
    totalActiveStake := by
      have hzero : (0 : Gwei).toNat = 0 := rfl
      rw [hzero, Nat.zero_add] at hstake
      show (Word.raiseTo stake config.effectiveBalanceIncrement).val.toNat = _
      rw [Word.toNat_raiseTo, hstake]
    sourceStake := (runOn_ofExcept_eq_ok_iff.mp hsource).1
    targetStake := (runOn_ofExcept_eq_ok_iff.mp htarget).1
    headStake := (runOn_ofExcept_eq_ok_iff.mp hhead).1
    currentTargetStake := (runOn_ofExcept_eq_ok_iff.mp hcurrentTarget).1
    activeValidators := rfl
    toSlash := ⟨due, hdue', rfl⟩
    toSetEligibility := rfl
    toMaybeActivate := rfl
    toEject := rfl
    exitQueue := (runOn_ofExcept_eq_ok_iff.mp hqueue).1
    churnLimit := rfl }

/-! ## Who is in the queues -/

section

variable {vs : List Validator} {votes : RecentEpoch → List PendingAttestation}
  {summary : EpochSummary} {i : Nat} {v : Validator}

theorem eq_true_of_mem_indicesWhere {p : Validator → Bool} (hi : i ∈ indicesWhere p vs)
    (hv : vs[i]? = some v) : p v = true := by
  obtain ⟨u, hu, hp⟩ := mem_indicesWhere_iff.mp hi
  rw [hv] at hu
  cases hu
  exact hp

theorem Collected.of_mem_toEject (h : Collected config s committees vs votes summary)
    (hi : i ∈ summary.toEject) (hv : vs[i]? = some v) :
    v.isActive (Beacon.currentEpoch config s) = true ∧ v.isStaying = true := by
  rw [h.toEject] at hi
  have hp := eq_true_of_mem_indicesWhere hi hv
  unfold isEjectable at hp
  rw [Bool.and_eq_true, Bool.and_eq_true] at hp
  exact ⟨hp.1.1, hp.2⟩

theorem Collected.of_mem_toSetEligibility (h : Collected config s committees vs votes summary)
    (hi : i ∈ summary.toSetEligibility) (hv : vs[i]? = some v) :
    v.activationEligibilityEpoch = farFutureEpoch := by
  rw [h.toSetEligibility] at hi
  have hp := eq_true_of_mem_indicesWhere hi hv
  unfold Validator.entersQueue at hp
  exact beq_iff_eq.mp (Bool.and_eq_true_iff.mp hp).1

theorem Collected.of_mem_toMaybeActivate (h : Collected config s committees vs votes summary)
    (hi : i ∈ summary.toMaybeActivate) (hv : vs[i]? = some v) :
    v.activationEpoch = farFutureEpoch ∧
      v.activationEligibilityEpoch ≤ Beacon.currentEpoch config s := by
  rw [h.toMaybeActivate, (activationQueue_perm _ _).mem_iff] at hi
  have hp := eq_true_of_mem_indicesWhere hi hv
  unfold isActivationCandidate at hp
  rw [Bool.and_eq_true, beq_iff_eq, decide_eq_true_eq] at hp
  exact hp

theorem Collected.toSlash_pairwise (h : Collected config s committees vs votes summary) :
    summary.toSlash.Pairwise (· < ·) := by
  obtain ⟨due, -, htoSlash⟩ := h.toSlash
  rw [htoSlash]
  exact indicesWhere_pairwise _ vs

theorem Collected.nodup_toEject (h : Collected config s committees vs votes summary) :
    summary.toEject.Nodup := by
  rw [h.toEject]
  exact nodup_indicesWhere _ vs

theorem Collected.nodup_toSetEligibility (h : Collected config s committees vs votes summary) :
    summary.toSetEligibility.Nodup := by
  rw [h.toSetEligibility]
  exact nodup_indicesWhere _ vs

theorem Collected.nodup_toMaybeActivate (h : Collected config s committees vs votes summary) :
    summary.toMaybeActivate.Nodup := by
  rw [h.toMaybeActivate]
  exact (activationQueue_perm _ vs).nodup_iff.mpr (nodup_indicesWhere _ vs)

end

/-- In a state held in memory everything can be read. -/
theorem Collected.of_state {s : State} {vs : List Validator}
    {votes : RecentEpoch → List PendingAttestation} {summary : EpochSummary}
    (h : Collected config s committees vs votes summary) :
    vs = s.validators.toList ∧ votes = s.attestations := by
  have hinj : ∀ {α : Type} {as bs : List α},
      as.map (Except.ok (ε := AccessError)) = bs.map .ok → bs = as := fun hmap =>
    (List.map_inj_right fun _ _ => Except.ok.inj).mp hmap.symm
  exact ⟨hinj h.validators, funext fun epoch => hinj (h.attestations epoch)⟩

/-! ## The statuses -/

/-- Every validator of the registry has the status that the votes of the state declare, in the
    order of the indices. -/
theorem statuses_tallied {s : State} {summary : EpochSummary} {p p' : Progress}
    (h : (summarize config s committees signal).runOn p = (.ok summary, p')) :
    summary.statuses.size = s.validators.size ∧
    ∀ i v, s.validators[i]? = some v → ∃ status, summary.statuses[i]? = some status ∧
      Tallied config s committees s.attestations i v status ∧
      (status.inclusion = none ↔ status.previous.source = false) := by
  obtain ⟨vs, votes, hc⟩ := collected_of_summarize h
  obtain ⟨rfl, rfl⟩ := hc.of_state
  refine ⟨hc.statuses.size.trans Array.length_toList, fun i v hv => ?_⟩
  have hv' : s.validators.toList[i]? = some v := by
    rw [Array.getElem?_toList]
    exact hv
  obtain ⟨status, hstatus, ht⟩ := hc.statuses.tallied i v hv'
  exact ⟨status, hstatus, ht, ht.inclusion_eq_none_iff config s committees⟩

end

/-- A validator of full stake who is active from the start and stays. -/
def steady : Validator where
  pubkey := default
  withdrawalCredentials := default
  effectiveBalance := 32000000000
  slashed := false
  activationEligibilityEpoch := 0
  activationEpoch := 0
  exitEpoch := farFutureEpoch
  withdrawableEpoch := farFutureEpoch

/-- Three validators near the end of the third short epoch, the last of them slashed.  Two votes
    were included equally fast; the second is for another target. -/
def overlapping : State where
  slot := 23
  genesisValidatorsRoot := default
  fork := default
  blockRoots := #[default]
  validators := #[steady, steady, { steady with slashed := true, withdrawableEpoch := 34 }]
  balances := #[32000000000, 32000000000, 32000000000]
  slashings := #[32000000000]
  previousAttestations := [
    { aggregationBits := [true, true, true], data := { (default : AttestationData) with slot := 9 },
      inclusionDelay := 2, proposerIndex := 1 },
    { aggregationBits := [true, true, false],
      data := { (default : AttestationData) with
        slot := 10, target := ⟨1, Vector.replicate 32 1⟩ },
      inclusionDelay := 2, proposerIndex := 0 }]
  currentAttestations := []
  finalizedCheckpoint := default

/-- Committees that share a validator, one of them with a validator twice. -/
def overlappingCommittees : Committees := fun slot _ =>
  if slot = 9 then .ok [0, 1, 0]
  else if slot = 10 then .ok [2, 1, 0]
  else .error (.foreign "no committee")

theorem statuses_tallied_overlapping : ∃ summary p',
    (summarize Config.minimal overlapping overlappingCommittees .never).runOn .start =
      (.ok summary, p') ∧
    summary.statuses.size = 3 ∧
    ∀ i v, overlapping.validators[i]? = some v → ∃ status, summary.statuses[i]? = some status ∧
      Tallied Config.minimal overlapping overlappingCommittees overlapping.attestations i v
        status ∧
      (status.inclusion = none ↔ status.previous.source = false) := by
  have hok : ((summarize Config.minimal overlapping overlappingCommittees .never).runOn
      .start).1.isOk = true := rfl
  obtain ⟨summary, p', h⟩ := exists_of_isOk hok
  exact ⟨summary, p', h, statuses_tallied h⟩

end Collect

end Beacon
