/-
  What can still go wrong once an epoch has been summed up.

  The queues of a summary are made in one pass over the registry, and sorting or cutting them short
  brings in nobody new: every index in them has a record, a status and, where there are as many
  balances as validators, a balance (`Collected.lt_of_queues`).  A state held in memory answers for
  all of these without fail (`State.serves`), and the writes keep it so.  No lookup of the rest of the
  epoch goes wrong, then, and the registry is not left half updated because of one.

  What remains is arithmetic: epochs beyond the last one, and sums that are no words.  And there is
  one index that does not come from the registry, the proposer's of an included vote.  It is looked up
  among the rewards, and only if the vote is to be paid for (`AttesterStatus.Pays`).
-/
import Beacon.Proofs.Epoch.Failures
import Beacon.Proofs.Operation.Rejection
import Beacon.Proofs.Registry.Slashing

namespace Beacon

open Beacon.Action

/-! ## States that serve -/

namespace State

/-- The state has at least so many validators, and as many balances. -/
structure HoldsFor (n : Nat) (s : State) : Prop where
  validators : n ≤ s.validators.size
  balances : n ≤ s.balances.size

variable {P : Failure → Prop} {n i : Nat} {s : State}

theorem HoldsFor.runsAs_write_record (h : s.HoldsFor n) {w : Write}
    {change : Validator → Validator} (hw : w.record? = some (i, change)) (hi : i < n) :
    RunsAs P (HoldsFor n) (Action.write w) s := by
  have hlt : i < s.validators.size := Nat.lt_of_lt_of_le hi h.validators
  have hrun := runOn_write_record hw (Array.getElem?_eq_getElem hlt)
  constructor
  · show FailsAs P ((Action.write w).runOn s).1
    rw [hrun]
    exact .ok ()
  · rw [hrun]
    constructor
    · rw [size_editRecord]
      exact h.validators
    · exact h.balances

theorem HoldsFor.runsAs_write_balance (h : s.HoldsFor n) (amount : Gwei) (hi : i < n) :
    RunsAs P (HoldsFor n) (Action.write (.balance i amount)) s := by
  have hrun := runOn_write_balance i amount s
  rw [if_pos (Nat.lt_of_lt_of_le hi h.balances)] at hrun
  constructor
  · show FailsAs P ((Action.write (.balance i amount)).runOn s).1
    rw [hrun]
    exact .ok ()
  · rw [hrun]
    constructor
    · exact h.validators
    · show n ≤ (s.balances.modify i fun _ => amount).size
      rw [Array.size_modify]
      exact h.balances

/-- Where there is a record and a balance, nothing fails at all. -/
theorem serves (P : Failure → Prop) (n : Nat) : Serves P (HoldsFor n) (· < n) where
  validator h hi := read_failsAs (Nat.lt_of_lt_of_le hi h.validators)
  balance := by
    intro s i h hi
    show FailsAs P ((element s.balances i).mapError Failure.access)
    unfold element
    rw [Array.getElem?_eq_getElem (Nat.lt_of_lt_of_le hi h.balances)]
    exact .ok _
  write := by
    intro s i w h hw hi
    cases w with
    | balance index amount =>
      cases hw
      exact h.runsAs_write_balance amount hi
    | slashing epoch amount => nomatch hw
    | _ =>
      cases hw
      exact h.runsAs_write_record rfl hi

end State

/-! ## The queues -/

section

variable {σ : Type} [StateAccess σ] {config : Config} {s : σ} {committees : Committees}
  {vs : List Validator} {votes : RecentEpoch → List PendingAttestation} {summary : EpochSummary}

/-- Whoever is in a queue is in the registry. -/
theorem Collect.Collected.lt_of_queues
    (h : Collect.Collected config s committees vs votes summary) {i : Nat}
    (hi : summary.Queues i) : i < vs.length := by
  have hwhere : ∀ p, i ∈ Collect.indicesWhere p vs → i < vs.length := by
    intro p hp
    obtain ⟨v, hv, -⟩ := Collect.mem_indicesWhere_iff.mp hp
    exact (List.getElem?_eq_some_iff.mp hv).1
  obtain ⟨due, -, hslash⟩ := h.toSlash
  rcases hi with hi | hi | hi | hi
  · rw [hslash] at hi
    exact hwhere _ hi
  · rw [h.toSetEligibility] at hi
    exact hwhere _ hi
  · rw [h.toMaybeActivate, (Collect.activationQueue_perm _ _).mem_iff] at hi
    exact hwhere _ hi
  · rw [h.toEject] at hi
    exact hwhere _ hi

end

/-! ## What remains -/

/-- With what the rest of an epoch can still fail on the state that was summed up. -/
structure EpochSummary.FailsLittle (config : Config) (s : State) (summary : EpochSummary) :
    Prop where
  updateRegistry : ∀ signal progress,
    StopsAs (fun failure => failure = .cancelled ∨ failure = .violated .epochOverflow)
      (Beacon.updateRegistry config summary signal) (s, progress)
  chargeSlashed :
    StopsAs (fun failure => failure = .violated .balanceOverflow ∨
      failure = .access .slashingsOverflow) (Beacon.chargeSlashed config summary) s
  /-- A foreign proposer is reported only where one is to be paid. -/
  deltas :
    FailsAs (fun failure => failure = .violated .balanceOverflow ∨
      ∃ proposer, failure = .violated (.notInRegistry proposer s.validators.size) ∧
        s.validators.size ≤ proposer ∧ ∃ (i : Nat) (status : AttesterStatus),
          summary.statuses[i]? = some status ∧ status.Pays proposer) (summary.deltas config s)
  lt_of_queues : ∀ i, summary.Queues i → i < s.validators.size
  toSlash : summary.toSlash.Pairwise (· < ·)
  toSetEligibility : summary.toSetEligibility.Pairwise (· < ·)
  toEject : summary.toEject.Pairwise (· < ·)

/-- Once summing up has succeeded, no lookup of the rest fails except for a proposer's.  The size of
    the registry is a word, as that of any list in memory. -/
theorem failsLittle_of_summarize {config : Config} {s : State} {committees : Committees}
    {signal : StopSignal} {p p' : Progress} {summary : EpochSummary}
    (hsize : s.validators.size < wordRange) (hbalances : s.validators.size ≤ s.balances.size)
    (h : (Collect.summarize config s committees signal).runOn p = (.ok summary, p')) :
    summary.FailsLittle config s := by
  obtain ⟨vs, votes, hc⟩ := Collect.collected_of_summarize h
  obtain ⟨rfl, -⟩ := hc.of_state
  have hstatuses : summary.statuses.size = s.validators.size :=
    hc.statuses.size.trans Array.length_toList
  have hholds : s.HoldsFor s.validators.size := ⟨Nat.le_refl _, hbalances⟩
  have hqueues : ∀ i, summary.Queues i → i < s.validators.size := by
    intro i hi
    rw [← Array.length_toList]
    exact hc.lt_of_queues hi
  have hstatus : ∀ (P : Failure → Prop) (i : Nat), i < s.validators.size →
      FailsAs P (summary.status i) := by
    intro P i hi
    rw [← hstatuses] at hi
    refine .orFail_of_ne_none fun hnone => ?_
    rw [Array.getElem?_eq_getElem hi] at hnone
    nomatch hnone
  constructor
  case updateRegistry =>
    intro signal progress
    have hroom : summary.HasRoom := by
      refine hc.hasRoom ?_
      rw [hc.validators, List.length_map, Array.length_toList]
      exact hsize
    exact updateRegistry_stopsAs (State.serves _ _) (.inl rfl) (.inr rfl) (.inr hroom) hqueues
      (hstatus _) signal hholds progress
  case chargeSlashed =>
    refine chargeSlashed_stopsAs (State.serves _ _) (.inl rfl) hqueues (hstatus _) hholds ?_
    show FailsAs _ (s.slashingsTotal.mapError Failure.access)
    unfold State.slashingsTotal
    split
    · exact .ok _
    · exact .error (.inr rfl)
  case deltas =>
    refine summary.deltas_failsAs (.inl rfl) config s fun status hmem proposer hpays hforeign => ?_
    rw [hstatuses] at hforeign ⊢
    obtain ⟨i, hi⟩ := List.mem_iff_getElem?.mp hmem
    rw [Array.getElem?_toList] at hi
    exact .inr ⟨proposer, rfl, hforeign, i, status, hi, hpays⟩
  case lt_of_queues => exact hqueues
  case toSlash =>
    obtain ⟨due, -, hslash⟩ := hc.toSlash
    rw [hslash]
    exact Collect.indicesWhere_pairwise _ _
  case toSetEligibility =>
    rw [hc.toSetEligibility]
    exact Collect.indicesWhere_pairwise _ _
  case toEject =>
    rw [hc.toEject]
    exact Collect.indicesWhere_pairwise _ _

/-- Three validators, one of them slashed, whose votes are said to be included by a fourth. -/
def foreignProposer : State :=
  { Collect.overlapping with
    previousAttestations := Collect.overlapping.previousAttestations.map fun vote =>
      { vote with proposerIndex := 9 } }

/-- The epoch of that state, summed up. -/
def foreignSummary : EpochSummary :=
  let run := (Collect.summarize Config.minimal foreignProposer Collect.overlappingCommittees
    .never).runOn .start
  match run.1 with
  | .ok summary => summary
  | .error _ => default

/-- The fourth is missed among the rewards.  The penalty of the slashed one is charged all the
    same. -/
theorem failsLittle_of_summarize_foreignProposer : ∃ p',
    (Collect.summarize Config.minimal foreignProposer Collect.overlappingCommittees .never).runOn
      .start = (.ok foreignSummary, p') ∧
    foreignSummary.toSlash = [2] ∧
    ((chargeSlashed Config.minimal foreignSummary).runOn foreignProposer).1.isOk = true ∧
    failure? (foreignSummary.deltas Config.minimal foreignProposer) =
      some (.violated (.notInRegistry 9 3)) ∧
    foreignSummary.FailsLittle Config.minimal foreignProposer := by
  obtain ⟨p', hsummary⟩ : ∃ p', (Collect.summarize Config.minimal foreignProposer
      Collect.overlappingCommittees .never).runOn .start = (.ok foreignSummary, p') := ⟨_, rfl⟩
  have hsize : foreignProposer.validators.size < wordRange := by decide +kernel
  have hbalances : foreignProposer.validators.size ≤ foreignProposer.balances.size := by
    decide +kernel
  exact ⟨p', hsummary, rfl, by decide +kernel, by decide +kernel,
    failsLittle_of_summarize hsize hbalances hsummary⟩

end Beacon
