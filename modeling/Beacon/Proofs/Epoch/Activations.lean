/-
  Who becomes eligible and who is activated when an epoch is closed.

  The summary collects candidates by a weak test (eligible by the current epoch), sorts them, and
  leaves the rest to the pass: it takes as many from the front as the churn limit allows and stops
  at the first whose eligibility is not final.  The declarative answer tests finality first:
  `IsActivationOrder` lists the validators whose eligibility is final, in the order in which they
  became eligible, and the pass activates the front of that list.  The two agree because candidates
  are sorted by the very epoch that is tested, so those who pass the test stand in front of those
  who do not.

  A pass that writes to one record after the other is described by the records that are not as
  before (`State.Edited`).
-/
import Beacon.Proofs.BlockRoots
import Beacon.Proofs.Epoch.Charges

namespace Beacon

open Beacon.Action Beacon.State

/-! ## Records changed alike -/

/-- From `s` to `t` the records of these validators are changed, all in one way, and no others. -/
def State.Edited (change : Validator → Validator) (indices : List Nat) (s t : State) : Prop :=
  ∀ i : Nat, t.validators[i]? =
    if i ∈ indices then s.validators[i]?.map change else s.validators[i]?

namespace State.Edited

variable {change : Validator → Validator} {s t : State}

theorem nil (change : Validator → Validator) (s : State) : Edited change [] s s :=
  fun _ => (if_neg List.not_mem_nil).symm

/-- One record is changed before the others. -/
theorem cons {index : Nat} {indices : List Nat} (hnew : index ∉ indices)
    (h : Edited change indices (s.editRecord index change) t) :
    Edited change (index :: indices) s t := by
  intro i
  rw [h i, getElem?_editRecord]
  by_cases hi : index = i
  · subst hi
    rw [if_neg hnew, if_pos rfl, if_pos List.mem_cons_self]
  · simp only [if_neg hi, List.mem_cons, Ne.symm hi, false_or]

theorem getElem? {indices : List Nat} (h : Edited change indices s t) {i : Nat} {v : Validator}
    (hv : s.validators[i]? = some v) :
    t.validators[i]? = some (if i ∈ indices then change v else v) := by
  rw [h i, hv, Option.map_some]
  split <;> rfl

theorem size_eq {indices : List Nat} (h : Edited change indices s t) :
    t.validators.size = s.validators.size := by
  have hkeeps : Keeps (fun _ => ()) s t := by
    intro i
    rw [h i]
    split
    · exact Option.map_map ..
    · rfl
  exact hkeeps.size_eq

end State.Edited

/-- A write to a record that succeeds has changed it. -/
theorem eq_of_write_record {w : Write} {index : Nat} {change : Validator → Validator}
    (hw : w.record? = some (index, change)) {s t : State}
    (h : (Action.write w).runOn s = (.ok (), t)) : t = s.editRecord index change := by
  rcases hv : s.validators[index]? with _ | v
  · rw [runOn_write_record_outside hw hv] at h
    nomatch h
  · rw [runOn_write_record hw hv] at h
    cases h
    rfl

theorem edited_of_setEligibility {epoch : Epoch} (indices : List Nat) :
    ∀ {s t : State}, (setEligibility epoch indices).runOn s = (.ok (), t) → indices.Nodup →
      Edited (fun v => { v with activationEligibilityEpoch := epoch }) indices s t := by
  induction indices with
  | nil =>
    intro s t h _
    obtain ⟨-, rfl⟩ := runOn_pure_eq_ok_iff.mp h
    exact Edited.nil _ s
  | cons index indices ih =>
    intro s t h hnodup
    obtain ⟨hnew, hnodup'⟩ := List.nodup_cons.mp hnodup
    obtain ⟨_, u, hwrite, hrest⟩ := runOn_bind_eq_ok_iff.mp h
    obtain rfl := eq_of_write_record rfl hwrite
    exact Edited.cons hnew (ih hrest hnodup')

/-! ## The front of the queue -/

/-- Was the eligibility of this validator final when its status was taken? -/
def EpochSummary.isFinal (summary : EpochSummary) (finalized : Epoch) (index : Nat) : Bool :=
  (summary.statuses[index]?).any fun status =>
    status.validator.activationEligibilityEpoch ≤ finalized

/-- Activation goes on up to the first candidate that is not final. -/
theorem edited_of_activateAll {summary : EpochSummary} {finalized activation : Epoch}
    (indices : List Nat) :
    ∀ {s t : State}, (activateAll summary finalized activation indices).runOn s = (.ok (), t) →
      indices.Nodup →
      Edited (fun v => { v with activationEpoch := activation })
        (indices.takeWhile (summary.isFinal finalized)) s t := by
  induction indices with
  | nil =>
    intro s t h _
    obtain ⟨-, rfl⟩ := runOn_pure_eq_ok_iff.mp h
    exact Edited.nil _ s
  | cons index indices ih =>
    intro s t h hnodup
    obtain ⟨hnew, hnodup'⟩ := List.nodup_cons.mp hnodup
    obtain ⟨status, _, hstatus, h⟩ := runOn_bind_eq_ok_iff.mp h
    obtain ⟨hread, rfl⟩ := runOn_ofExcept_eq_ok_iff.mp hstatus
    have hget : summary.statuses[index]? = some status := orFail_eq_ok_iff.mp hread
    have hfinal : summary.isFinal finalized index =
        decide (status.validator.activationEligibilityEpoch ≤ finalized) := by
      unfold EpochSummary.isFinal
      rw [hget, Option.any_some]
    by_cases hlate : finalized < status.validator.activationEligibilityEpoch
    · -- nobody is activated from here on
      rw [if_pos hlate] at h
      obtain ⟨-, rfl⟩ := runOn_pure_eq_ok_iff.mp h
      have hstop : ¬ summary.isFinal finalized index = true := by
        rw [hfinal, decide_eq_true_eq, UInt64.not_le]
        exact hlate
      rw [List.takeWhile_cons_of_neg hstop]
      exact Edited.nil _ s
    · rw [if_neg hlate] at h
      obtain ⟨_, u, hwrite, hrest⟩ := runOn_bind_eq_ok_iff.mp h
      obtain rfl := eq_of_write_record rfl hwrite
      have hgo : summary.isFinal finalized index = true := by
        rw [hfinal, decide_eq_true_eq]
        exact UInt64.not_lt.mp hlate
      rw [List.takeWhile_cons_of_pos hgo]
      have hnew' : index ∉ indices.takeWhile (summary.isFinal finalized) := fun c =>
        hnew ((List.takeWhile_sublist _).mem c)
      exact Edited.cons hnew' (ih hrest hnodup')

/-- The front of a list up to the first element that fails a test, cut to a length, is the cut
    front of all that pass it, if whatever stands before an element that passes does so, too. -/
theorem takeWhile_take_eq_take_filter {α : Type} {p : α → Bool} (l : List α) :
    (l.Pairwise fun a b => p b = true → p a = true) → ∀ n,
      (l.take n).takeWhile p = (l.filter p).take n := by
  induction l with
  | nil =>
    intro _ n
    rw [List.take_nil, List.takeWhile_nil, List.filter_nil, List.take_nil]
  | cons a l ih =>
    intro hmono n
    obtain ⟨hfirst, hmono'⟩ := List.pairwise_cons.mp hmono
    cases n with
    | zero => rw [List.take_zero, List.takeWhile_nil, List.take_zero]
    | succ n =>
      rw [List.take_succ_cons]
      by_cases ha : p a = true
      · rw [List.takeWhile_cons_of_pos ha, List.filter_cons_of_pos ha, List.take_succ_cons,
          ih hmono' n]
      · have hnone : l.filter p = [] := List.filter_eq_nil_iff.mpr fun b hb hp => ha (hfirst b hb hp)
        rw [List.takeWhile_cons_of_neg ha, List.filter_cons_of_neg ha, hnone, List.take_nil]

/-! ## The order of activation -/

/-- Of two validators the first became eligible earlier, or in the same epoch with a smaller
    index. -/
def WaitsBefore (vs : List Validator) (i j : Nat) : Prop :=
  ∃ v w, vs[i]? = some v ∧ vs[j]? = some w ∧
    (v.activationEligibilityEpoch < w.activationEligibilityEpoch ∨
      v.activationEligibilityEpoch = w.activationEligibilityEpoch ∧ i < j)

/-- The validators without an activation epoch whose eligibility is final, in the order in which
    they became eligible. -/
structure IsActivationOrder (vs : List Validator) (finalized : Epoch) (queue : List Nat) :
    Prop where
  mem_iff : ∀ i, i ∈ queue ↔ ∃ v, vs[i]? = some v ∧
    v.activationEpoch = farFutureEpoch ∧ v.activationEligibilityEpoch ≤ finalized
  ordered : queue.Pairwise (WaitsBefore vs)

namespace Collect

theorem precedes_iff {a b : Epoch × Nat} :
    precedes a b = true ↔ a.1 < b.1 ∨ a.1 = b.1 ∧ a.2 ≤ b.2 := by
  unfold precedes
  rw [Bool.or_eq_true, Bool.and_eq_true, decide_eq_true_eq, decide_eq_true_eq, beq_iff_eq]

theorem precedes_trans (a b c : Epoch × Nat) (hab : precedes a b = true)
    (hbc : precedes b c = true) : precedes a c = true := by
  rw [precedes_iff, UInt64.lt_iff_toNat_lt, ← UInt64.toNat_inj] at *
  omega

theorem precedes_total (a b : Epoch × Nat) : (precedes a b || precedes b a) = true := by
  rw [Bool.or_eq_true, precedes_iff, precedes_iff, UInt64.lt_iff_toNat_lt, UInt64.lt_iff_toNat_lt,
    ← UInt64.toNat_inj, ← UInt64.toNat_inj]
  omega

theorem activationQueue_pairwise (current : Epoch) (vs : List Validator) :
    (activationQueue current vs).Pairwise (WaitsBefore vs) := by
  have hdistinct : (activationQueue current vs).Nodup :=
    (activationQueue_perm current vs).nodup_iff.mpr (nodup_indicesWhere _ vs)
  unfold activationQueue at hdistinct ⊢
  rw [List.Nodup, List.pairwise_map] at hdistinct
  rw [List.pairwise_map]
  have hsorted := List.pairwise_mergeSort precedes_trans precedes_total
    ((vs.zipIdx.filter fun entry => isActivationCandidate current entry.1).map
      fun entry => (entry.1.activationEligibilityEpoch, entry.2))
  refine (hsorted.and hdistinct).imp_of_mem fun {a b} ha hb hab => ?_
  -- an entry tells when its validator became eligible
  have hentry : ∀ {entry : Epoch × Nat}, entry ∈ ((vs.zipIdx.filter
      fun entry => isActivationCandidate current entry.1).map
        fun entry => (entry.1.activationEligibilityEpoch, entry.2)).mergeSort precedes →
      ∃ v, vs[entry.2]? = some v ∧ v.activationEligibilityEpoch = entry.1 := by
    intro entry hmem
    obtain ⟨⟨v, i⟩, hv, rfl⟩ := List.mem_map.mp (List.mem_mergeSort.mp hmem)
    exact ⟨v, List.mem_zipIdx_iff_getElem?.mp (List.mem_filter.mp hv).1, rfl⟩
  obtain ⟨v, hv, hva⟩ := hentry ha
  obtain ⟨w, hw, hwb⟩ := hentry hb
  refine ⟨v, w, hv, hw, ?_⟩
  rw [hva, hwb]
  rcases precedes_iff.mp hab.1 with hlt | ⟨heq, hle⟩
  · exact Or.inl hlt
  · exact Or.inr ⟨heq, Nat.lt_of_le_of_ne hle hab.2⟩

section

variable {σ : Type} [StateAccess σ] {config : Config} {s : σ} {committees : Committees}
  {vs : List Validator} {votes : RecentEpoch → List PendingAttestation} {summary : EpochSummary}

theorem Collected.isFinal_eq (h : Collected config s committees vs votes summary) {i : Nat}
    {v : Validator} (hv : vs[i]? = some v) (finalized : Epoch) :
    summary.isFinal finalized i = decide (v.activationEligibilityEpoch ≤ finalized) := by
  obtain ⟨status, hstatus, htallied⟩ := h.statuses.tallied i v hv
  unfold EpochSummary.isFinal
  rw [hstatus, Option.any_some, htallied.validator]

/-- The final ones among the candidates are those whose eligibility is final, in order. -/
theorem Collected.isActivationOrder (h : Collected config s committees vs votes summary)
    {finalized : Epoch} (hfinalized : finalized ≤ Beacon.currentEpoch config s) :
    IsActivationOrder vs finalized
      (summary.toMaybeActivate.filter (summary.isFinal finalized)) where
  mem_iff i := by
    rw [List.mem_filter]
    constructor
    · rintro ⟨hi, hfinal⟩
      have hi' := hi
      rw [h.toMaybeActivate, (activationQueue_perm _ _).mem_iff, mem_indicesWhere_iff] at hi'
      obtain ⟨v, hv, -⟩ := hi'
      rw [h.isFinal_eq hv, decide_eq_true_eq] at hfinal
      exact ⟨v, hv, (h.of_mem_toMaybeActivate hi hv).1, hfinal⟩
    · rintro ⟨v, hv, hunset, hfinal⟩
      rw [h.isFinal_eq hv, decide_eq_true_eq]
      refine ⟨?_, hfinal⟩
      rw [h.toMaybeActivate, (activationQueue_perm _ _).mem_iff, mem_indicesWhere_iff]
      refine ⟨v, hv, ?_⟩
      unfold isActivationCandidate
      rw [Bool.and_eq_true, beq_iff_eq, decide_eq_true_eq]
      exact ⟨hunset, UInt64.le_trans hfinal hfinalized⟩
  ordered := by
    rw [h.toMaybeActivate]
    exact (activationQueue_pairwise _ vs).filter _

/-- Whoever stands before a final candidate is final. -/
theorem Collected.isFinal_mono (h : Collected config s committees vs votes summary)
    (finalized : Epoch) : summary.toMaybeActivate.Pairwise fun i j =>
      summary.isFinal finalized j = true → summary.isFinal finalized i = true := by
  rw [h.toMaybeActivate]
  refine (activationQueue_pairwise _ vs).imp fun {i j} hij hfinal => ?_
  obtain ⟨v, w, hv, hw, horder⟩ := hij
  rw [h.isFinal_eq hw, decide_eq_true_eq] at hfinal
  rw [h.isFinal_eq hv, decide_eq_true_eq]
  rcases horder with hlt | ⟨heq, -⟩
  · exact UInt64.le_trans (UInt64.le_of_lt hlt) hfinal
  · rw [heq]
    exact hfinal

end

end Collect

/-! ## How late an epoch can be closed -/

/-- An epoch that can be summed up has begun before the slot of the state, so it is longer than a
    slot, and the epoch after it is not the last one there is. -/
theorem Collect.currentEpoch_lt_of_summarize {σ : Type} [StateAccess σ] {config : Config} {s : σ}
    {committees : Committees} {signal : StopSignal} {summary : EpochSummary} {p p' : Progress}
    (h : (Collect.summarize config s committees signal).runOn p = (.ok summary, p')) :
    (currentEpoch config s).toNat + 1 < farFutureEpoch.toNat := by
  obtain ⟨_, _, -, h⟩ := runOn_bind_eq_ok_iff.mp h
  obtain ⟨_, _, -, h⟩ := runOn_bind_eq_ok_iff.mp h
  obtain ⟨_, _, -, h⟩ := runOn_bind_eq_ok_iff.mp h
  obtain ⟨_, _, -, h⟩ := runOn_bind_eq_ok_iff.mp h
  obtain ⟨_, _, hcurrent, -⟩ := runOn_bind_eq_ok_iff.mp h
  obtain ⟨root, _, hroot, -⟩ := runOn_bind_eq_ok_iff.mp hcurrent
  have hstart := (covered_of_blockRootAtSlot (runOn_ofExcept_eq_ok_iff.mp hroot).1).1
  rw [toNat_startSlot_recentEpoch] at hstart
  change (StateAccess.slot s).toNat / _ * _ < _ at hstart
  show (Word.div (StateAccess.slot s) config.slotsPerEpoch).toNat + 1 < _
  rw [Word.toNat_div, toNat_farFutureEpoch]
  have hslot := (StateAccess.slot s).toNat_lt
  have hpos := config.slotsPerEpoch.toNat_pos
  -- one slot an epoch would make every slot the first of its epoch
  have hlong : 2 ≤ config.slotsPerEpoch.val.toNat := by
    apply Nat.succ_le_of_lt
    apply Nat.lt_of_le_of_ne hpos
    intro hone
    rw [← hone, Nat.div_one, Nat.mul_one] at hstart
    omega
  have hhalf : (StateAccess.slot s).toNat / config.slotsPerEpoch.val.toNat ≤
      (StateAccess.slot s).toNat / 2 := Nat.div_le_div_left hlong (by decide)
  omega

/-! ## The registry update -/

/-- What a registry update that succeeds has done to eligibility and activation: the ejections
    nothing, the second pass made validators eligible, the third activated the front of its
    queue. -/
theorem edited_of_updateRegistry {config : Config} {summary : EpochSummary} {signal : StopSignal}
    {s t : State} {p p' : Progress} (hset : summary.toSetEligibility.Nodup)
    (hqueue : summary.toMaybeActivate.Nodup)
    (h : (updateRegistry config summary signal).runOn (s, p) = (.ok (), (t, p'))) :
    ∃ u v next activation,
      next.toNat = summary.currentEpoch.toNat + 1 ∧
      activation.toNat = summary.currentEpoch.toNat + 1 + config.maxSeedLookahead.toNat ∧
      Keeps (fun v => (v.activationEligibilityEpoch, v.activationEpoch)) s u ∧
      Edited (fun v => { v with activationEligibilityEpoch := next }) summary.toSetEligibility
        u v ∧
      Edited (fun v => { v with activationEpoch := activation })
        ((summary.toMaybeActivate.take summary.churnLimit).takeWhile
          (summary.isFinal s.finalizedCheckpoint.epoch)) v t := by
  obtain ⟨_, ⟨s1, p1⟩, hpoll, h⟩ := runOn_bind_eq_ok_iff.mp h
  obtain ⟨-, rfl⟩ := runOn_onSecond_eq_ok_iff.mp hpoll
  obtain ⟨hqueues, -⟩ := runOn_onFirst_eq_ok_iff.mp h
  obtain ⟨u, v, next, activation, heject, hnext, heligible, hactivation, hrest⟩ :=
    runOn_applyQueues_eq_ok_iff.mp hqueues
  -- the finalized checkpoint is in no record
  have hsame : OnlyRecords s v := ((ejectAll_onlyRecords _ _ _ s).of_runOn heject).trans
    ((setEligibility_onlyRecords _ _ _).of_runOn heligible)
  have hfinalized : v.finalizedCheckpoint = s.finalizedCheckpoint := by
    have hcheckpoint := congrArg State.finalizedCheckpoint hsame
    exact hcheckpoint
  rw [Word.addChecked_eq_some_iff] at hnext
  refine ⟨u, v, next, activation, hnext, activationExitEpoch_eq_ok_iff.mp hactivation,
    (ejectAll_keeps (fun _ _ _ => rfl) config _ _ _ s).of_runOn heject,
    edited_of_setEligibility _ heligible hset, ?_⟩
  rw [← hfinalized]
  exact edited_of_activateAll _ hrest (hqueue.sublist (List.take_sublist _ _))

/-- Closing an epoch activates the front of the list of all validators that wait for activation and
    whose eligibility is final, as many as the churn limit allows, and makes eligible just the
    validators of full stake that were not. -/
theorem activations_in_order {config : Config} {s t : State} {committees : Committees}
    {signal signal' : StopSignal} {summary : EpochSummary} {p p' q q' : Progress}
    (hfinalized : s.finalizedCheckpoint.epoch ≤ currentEpoch config s)
    (hsummary : (Collect.summarize config s committees signal).runOn p = (.ok summary, p'))
    (hupdate : (updateRegistry config summary signal').runOn (s, q) = (.ok (), (t, q'))) :
    ∃ queue next activation,
      IsActivationOrder s.validators.toList s.finalizedCheckpoint.epoch queue ∧
      next.toNat = (currentEpoch config s).toNat + 1 ∧
      activation.toNat = (currentEpoch config s).toNat + 1 + config.maxSeedLookahead.toNat ∧
      t.validators.size = s.validators.size ∧
      ∀ i v, s.validators[i]? = some v → ∃ v', t.validators[i]? = some v' ∧
        v'.activationEpoch =
          (if i ∈ queue.take summary.churnLimit then activation else v.activationEpoch) ∧
        (v'.activationEligibilityEpoch ≠ v.activationEligibilityEpoch ↔
          v.activationEligibilityEpoch = farFutureEpoch ∧
            v.effectiveBalance = config.maxEffectiveBalance) ∧
        (v'.activationEligibilityEpoch ≠ v.activationEligibilityEpoch →
          v'.activationEligibilityEpoch = next) := by
  have hlate := Collect.currentEpoch_lt_of_summarize hsummary
  obtain ⟨vs, votes, hc⟩ := Collect.collected_of_summarize hsummary
  obtain ⟨rfl, rfl⟩ := hc.of_state
  obtain ⟨u, w, next, activation, hnext, hactivation, hejected, heligible, hactivated⟩ :=
    edited_of_updateRegistry hc.nodup_toSetEligibility hc.nodup_toMaybeActivate hupdate
  rw [hc.currentEpoch] at hnext hactivation
  rw [takeWhile_take_eq_take_filter _ (hc.isFinal_mono _)] at hactivated
  refine ⟨_, next, activation, hc.isActivationOrder hfinalized, hnext, hactivation, ?_, ?_⟩
  · rw [hactivated.size_eq, heligible.size_eq, hejected.size_eq]
  · intro i v hv
    -- the record after each pass in turn
    obtain ⟨v1, hv1, hsame⟩ : ∃ v1, u.validators[i]? = some v1 ∧
        (v1.activationEligibilityEpoch, v1.activationEpoch) =
          (v.activationEligibilityEpoch, v.activationEpoch) := by
      have hkept := hejected i
      rw [hv, Option.map_some] at hkept
      exact Option.map_eq_some_iff.mp hkept
    rw [Prod.mk.injEq] at hsame
    have hget : s.validators.toList[i]? = some v := by
      rw [Array.getElem?_toList]
      exact hv
    have hmem : i ∈ summary.toSetEligibility ↔ v.activationEligibilityEpoch = farFutureEpoch ∧
        v.effectiveBalance = config.maxEffectiveBalance := by
      rw [hc.toSetEligibility, Collect.mem_indicesWhere_iff, hget]
      unfold Validator.entersQueue
      simp only [Option.some.injEq, exists_eq_left', Bool.and_eq_true, beq_iff_eq]
    refine ⟨_, hactivated.getElem? (heligible.getElem? hv1), ?_, ?_⟩
    · simp only [apply_ite Validator.activationEpoch, ite_self, hsame.2]
    · simp only [apply_ite Validator.activationEligibilityEpoch, ite_self, hsame.1, ← hmem]
      by_cases hi : i ∈ summary.toSetEligibility
      · have hne : next ≠ v.activationEligibilityEpoch := by
          rw [(hmem.mp hi).1]
          rintro rfl
          omega
        rw [if_pos hi]
        exact ⟨iff_of_true hne hi, fun _ => rfl⟩
      · rw [if_neg hi]
        exact ⟨iff_of_false (fun hne => hne rfl) hi, fun hne => absurd rfl hne⟩

/-- The third short epoch, in which two may be activated.  Three validators wait with an eligibility
    that is final, two of them since the same epoch; one has become eligible too late, and one is
    not eligible yet. -/
def waiting : State where
  slot := 23
  genesisValidatorsRoot := default
  fork := default
  blockRoots := #[default]
  validators := #[Collect.steady,
    { Collect.steady with activationEligibilityEpoch := 1, activationEpoch := farFutureEpoch },
    { Collect.steady with activationEligibilityEpoch := 0, activationEpoch := farFutureEpoch },
    { Collect.steady with activationEligibilityEpoch := 1, activationEpoch := farFutureEpoch },
    { Collect.steady with activationEligibilityEpoch := 2, activationEpoch := farFutureEpoch },
    { Collect.steady with
      activationEligibilityEpoch := farFutureEpoch, activationEpoch := farFutureEpoch }]
  balances := #[]
  slashings := #[0]
  previousAttestations := []
  currentAttestations := []
  finalizedCheckpoint := ⟨1, default⟩

/-- The epoch of this state, summed up. -/
def waitingSummary : EpochSummary :=
  match ((Collect.summarize Config.minimal waiting noCommittees .never).runOn .start).1 with
  | .ok summary => summary
  | .error _ => default

/-- The earliest of the three is activated and, of the other two, the one with the smaller index. -/
theorem activations_in_order_waiting : ∃ p' t q' queue next activation,
    waiting.finalizedCheckpoint.epoch ≤ currentEpoch Config.minimal waiting ∧
    (Collect.summarize Config.minimal waiting noCommittees .never).runOn .start =
      (.ok waitingSummary, p') ∧
    (updateRegistry Config.minimal waitingSummary .never).runOn (waiting, .start) =
      (.ok (), (t, q')) ∧
    waitingSummary.churnLimit = 2 ∧
    IsActivationOrder waiting.validators.toList 1 queue ∧
    next.toNat = 3 ∧ activation.toNat = 7 ∧ t.validators.size = 6 ∧
    (∀ i v, waiting.validators[i]? = some v → ∃ v', t.validators[i]? = some v' ∧
      v'.activationEpoch = (if i ∈ queue.take 2 then activation else v.activationEpoch) ∧
      (v'.activationEligibilityEpoch ≠ v.activationEligibilityEpoch ↔
        v.activationEligibilityEpoch = farFutureEpoch ∧ v.effectiveBalance = 32000000000) ∧
      (v'.activationEligibilityEpoch ≠ v.activationEligibilityEpoch →
        v'.activationEligibilityEpoch = next)) ∧
    t.validators.toList.map Validator.activationEpoch =
      [0, 7, 7, farFutureEpoch, farFutureEpoch, farFutureEpoch] ∧
    t.validators.toList.map Validator.activationEligibilityEpoch = [0, 1, 0, 1, 2, 3] := by
  obtain ⟨p', hsummary⟩ : ∃ p',
      (Collect.summarize Config.minimal waiting noCommittees .never).runOn .start =
        (.ok waitingSummary, p') := ⟨_, rfl⟩
  have hqueue : waitingSummary.toMaybeActivate = [2, 1, 3, 4] := by
    show Collect.activationQueue 2 waiting.validators.toList = [2, 1, 3, 4]
    simp [Collect.activationQueue, waiting, Collect.isActivationCandidate, Collect.steady,
      List.zipIdx, List.mergeSort, Collect.precedes, farFutureEpoch, Word.largest]
  -- the sorted list is put in by hand, so that what is left to compute needs no sorting
  have hsame : { waitingSummary with toMaybeActivate := [2, 1, 3, 4] } = waitingSummary := by
    rw [← hqueue]
  have hrun : ((updateRegistry Config.minimal
        { waitingSummary with toMaybeActivate := [2, 1, 3, 4] } .never).runOn
          (waiting, .start)).1.isOk = true ∧
      ((updateRegistry Config.minimal
        { waitingSummary with toMaybeActivate := [2, 1, 3, 4] } .never).runOn
          (waiting, .start)).2.1.validators.toList.map
            (fun v => (v.activationEpoch, v.activationEligibilityEpoch)) =
        [(0, 0), (7, 1), (7, 0), (farFutureEpoch, 1), (farFutureEpoch, 2), (farFutureEpoch, 3)] := by
    decide +kernel
  rw [hsame] at hrun
  obtain ⟨hok, hepochs⟩ := hrun
  obtain ⟨_, ⟨t, q'⟩, hupdate⟩ := exists_of_isOk hok
  rw [hupdate] at hepochs
  have hactivated : t.validators.toList.map Validator.activationEpoch =
      [0, 7, 7, farFutureEpoch, farFutureEpoch, farFutureEpoch] := by
    simpa [Function.comp_def] using congrArg (List.map Prod.fst) hepochs
  have heligible : t.validators.toList.map Validator.activationEligibilityEpoch =
      [0, 1, 0, 1, 2, 3] := by
    simpa [Function.comp_def] using congrArg (List.map Prod.snd) hepochs
  have hfinalized : waiting.finalizedCheckpoint.epoch ≤ currentEpoch Config.minimal waiting := by
    decide
  have hlimit : waitingSummary.churnLimit = 2 := by decide +kernel
  obtain ⟨queue, next, activation, horder, hnext, hactivation, hsize, hrecords⟩ :=
    activations_in_order hfinalized hsummary hupdate
  rw [hlimit] at hrecords
  exact ⟨p', t, q', queue, next, activation, hfinalized, hsummary, hupdate, hlimit, horder, hnext,
    hactivation, hsize, hrecords, hactivated, heligible⟩

end Beacon
