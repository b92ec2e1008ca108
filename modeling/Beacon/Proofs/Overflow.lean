/-
  No arithmetic without a guard leaves the range of words.

  A result is GUARDED if it is a value or an error.  Lists are only read by lookups that answer with
  an error outside the list, so that all that could go wrong beyond an error is arithmetic.  For a
  registry whose size is a word, as that of any list in memory, every operation is guarded
  (`State.staysInRange`), for any lists of any length besides.

  Most of it is that the failures are fatal errors.  Checks of messages are left: their own failures
  are errors, and so are those of the verifier by assumption.  The counts that no operation guards
  are bounded by the size of the registry.
-/
import Beacon.Proofs.Epoch.Failures
import Beacon.Proofs.Operation.Verdict

namespace Beacon

open Beacon.Action

/-! ## Guarded results -/

/-- The result is a value or an error. -/
def Guarded {α : Type} (result : Except Failure α) : Prop := FailsAs (· ≠ .overflow) result

theorem FailsAs.guarded {α : Type} {result : Except Failure α}
    (h : FailsAs Failure.IsFatal result) : Guarded result :=
  h.mono fun _ => Failure.IsFatal.ne_overflow

/-- A verifier that accepts checks or refuses them with an error. -/
def Verifier.Answers {κ ω : Type} (verifier : Verifier κ ω) : Prop :=
  ∀ c w, Guarded ((verifier.check c).runOn w).1

/-! ## Checks of messages -/

/-- A verdict is an error if the verifier answers with one. -/
theorem IsExitVerdict.ne_overflow {κ ω : Type} {config : Config} {s : State} {cache : KeyCache κ}
    {verifier : Verifier κ ω} {failure : Failure}
    (h : IsExitVerdict config s cache verifier failure) (hverifier : verifier.Answers) :
    failure ≠ .overflow := by
  cases h with
  | epochOverflow hbeyond => exact nofun
  | verdict h =>
    cases h with
    | rejected cause => exact nofun
    | keyNotCached hknown hmissing => exact nofun
    | ofVerifier c w w' hrun =>
      have hanswer : StopsAs (· ≠ .overflow) (verifier.check c) w := hverifier c w
      exact hanswer.of_runOn hrun

theorem BlockOperation.enact_guarded {κ ω : Type} {cache : KeyCache κ} {verifier : Verifier κ ω}
    (config : Config) (s : State) (hverifier : verifier.Answers) (op : BlockOperation) (w : ω) :
    Guarded ((op.enact config cache verifier).runOn (s, w)).1 := by
  have hcheck : StopsAs (IsExitVerdict config s cache verifier)
      (op.check config s cache verifier) w := op.check_verdict w
  rw [op.runOn_enact]
  rcases hrun : (op.check config s cache verifier).runOn w with ⟨failure | struck, w'⟩
  · exact FailsAs.error ((hcheck.of_runOn hrun).ne_overflow hverifier)
  · exact (op.apply_stopsAs struck s).guarded

/-! ## All operations -/

/-- Some state in memory sums up to this, under some configuration. -/
def EpochSummary.IsOfState (summary : EpochSummary) : Prop :=
  ∃ (config : Config) (s : State) (committees : Committees) (signal : StopSignal) (p p' : Progress),
    s.validators.size < wordRange ∧
    (Collect.summarize config s committees signal).runOn p = (.ok summary, p')

theorem State.length_validators (s : State) :
    (StateAccess.validators s).length = s.validators.size := by
  show (s.validators.toList.map Except.ok).length = _
  rw [List.length_map]
  rfl

theorem EpochSummary.IsOfState.activeValidators_lt {summary : EpochSummary}
    (h : summary.IsOfState) : summary.activeValidators < wordRange := by
  obtain ⟨config, s, committees, signal, p, p', hsize, hrun⟩ := h
  obtain ⟨vs, votes, hc⟩ := Collect.collected_of_summarize hrun
  exact hc.activeValidators_lt (s.length_validators ▸ hsize)

theorem EpochSummary.IsOfState.hasRoom {summary : EpochSummary} (h : summary.IsOfState) :
    summary.HasRoom := by
  obtain ⟨config, s, committees, signal, p, p', hsize, hrun⟩ := h
  obtain ⟨vs, votes, hc⟩ := Collect.collected_of_summarize hrun
  exact hc.hasRoom (s.length_validators ▸ hsize)

/-- Whatever is done to a state ends with a value or an error, and no count leaves the range of
    words. -/
structure State.StaysInRange (config : Config) (s : State) : Prop where
  summarize : ∀ committees signal p,
    Guarded ((Collect.summarize config s committees signal).runOn p).1
  updateRegistry : ∀ summary : EpochSummary, summary.IsOfState → ∀ signal p,
    Guarded ((Beacon.updateRegistry config summary signal).runOn (s, p)).1
  chargeSlashed : ∀ summary : EpochSummary, Guarded ((Beacon.chargeSlashed config summary).runOn s).1
  deltas : ∀ summary : EpochSummary, Guarded (summary.deltas config s)
  totals : ∀ deltas : Deltas, Guarded deltas.totals
  endEpoch : ∀ committees signal p,
    Guarded ((Beacon.endEpoch config committees signal).runOn (s, p)).1
  accountForEpoch : ∀ committees signal p,
    Guarded ((Beacon.accountForEpoch config committees signal).runOn (s, p)).1
  enact : ∀ {κ ω : Type} (cache : KeyCache κ) (verifier : Verifier κ ω), verifier.Answers →
    ∀ (op : BlockOperation) w, Guarded ((op.enact config cache verifier).runOn (s, w)).1
  /-- The proposer's parts are no larger than what they are taken of. -/
  shares : ∀ stake (terms : RewardTerms) base,
    Word.subChecked (whistleblowerReward config stake) (slashingProposerReward config stake) ≠
      none ∧
    Word.subChecked base (terms.proposerReward base) ≠ none ∧ Guarded (terms.cancelingPenalty base)
  /-- A penalty for what is at most the total is a word. -/
  penalty : ∀ stake total slashed, adjustedSlashings config total s = .ok slashed →
    Guarded (proportionalPenalty config stake slashed total)
  /-- What a summary counts is a word. -/
  counts : ∀ summary : EpochSummary, summary.IsOfState →
    summary.activeValidators < wordRange ∧ summary.churnLimit < wordRange ∧
      summary.exitQueue.churn < wordRange
  /-- So is what has been counted of the exit queue at any point of a pass over the registry. -/
  queue : ∀ earliest n,
    (ExitQueue.ofValidators earliest (s.validators.toList.take n)).churn < wordRange

/-- The size of the registry is a word, as that of every list in memory.  All else may be of any
    shape: the other lists, the fields of the records, the configuration. -/
theorem State.staysInRange (config : Config) (s : State) (hsize : s.validators.size < wordRange) :
    s.StaysInRange config := by
  have hlength : (StateAccess.validators s).length < wordRange := by
    rw [s.length_validators]
    exact hsize
  exact {
    summarize := fun committees signal p =>
      (Collect.summarize_stopsAs config s committees signal p).guarded
    updateRegistry := fun summary hsummary signal p =>
      (updateRegistry_isFatal config hsummary.hasRoom signal s p).guarded
    chargeSlashed := fun summary => (chargeSlashed_isFatal config summary s).guarded
    deltas := fun summary => (summary.deltas_isFatal config s).guarded
    totals := fun deltas => deltas.totals_failsAs.guarded
    endEpoch := fun committees signal p =>
      (endEpoch_stopsAs config committees signal hlength p).guarded
    accountForEpoch := fun committees signal p =>
      (accountForEpoch_stopsAs config committees signal hlength p).guarded
    enact := fun cache verifier hverifier op w => op.enact_guarded config s hverifier w
    shares := fun stake terms base =>
      ⟨Word.subChecked_ne_none (Word.toNat_div_le _ _),
        Word.subChecked_ne_none (terms.proposerReward_le base),
        (terms.cancelingPenalty_failsAs (.violated _) base).guarded⟩
    penalty := fun stake total slashed hslashed =>
      (proportionalPenalty_failsAs (.violated _) stake (adjustedSlashings_le hslashed)).guarded
    counts := by
      intro summary hsummary
      obtain ⟨hchurn, hlimit⟩ := hsummary.hasRoom
      refine ⟨hsummary.activeValidators_lt, hlimit, ?_⟩
      unfold Cursor.room at hchurn
      unfold wordRange at hlimit ⊢
      omega
    queue := by
      intro earliest n
      calc (ExitQueue.ofValidators earliest (s.validators.toList.take n)).churn
          ≤ (s.validators.toList.take n).length := ExitQueue.churn_ofValidators_le _ _
        _ ≤ s.validators.toList.length := List.length_take_le' n _
        _ < wordRange := hsize }

/-- The summary that decides on the ejection of the last of four is of a state in memory. -/
theorem State.staysInRange_scheduled :
    (scheduled [7, 7, 8]).validators.size < wordRange ∧
    (scheduledSummary [7, 7, 8]).IsOfState ∧
    (scheduledSummary [7, 7, 8]).toEject = [3] ∧
    (scheduled [7, 7, 8]).StaysInRange Config.minimal := by
  have hsize : (scheduled [7, 7, 8]).validators.size < wordRange := by decide +kernel
  have hok : ((Collect.summarize Config.minimal (scheduled [7, 7, 8]) noCommittees .never).runOn
      .start).1.isOk = true := by decide +kernel
  obtain ⟨summary, p', hrun⟩ := exists_of_isOk hok
  have hsummary : scheduledSummary [7, 7, 8] = summary := by
    unfold scheduledSummary
    rw [hrun]
  refine ⟨hsize, ?_, by decide +kernel, State.staysInRange Config.minimal _ hsize⟩
  rw [hsummary]
  exact ⟨_, _, _, _, _, _, hsize, hrun⟩

end Beacon
