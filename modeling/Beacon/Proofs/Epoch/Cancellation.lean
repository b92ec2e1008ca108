/-
  Cancelling the work on an epoch.

  The AGENDA of a state lists the work: all validators, the votes for the previous epoch and those for
  the current one, each vote with the lookup of its committee, and the updates of the registry.  Summing
  up and the last poll follow it (`survey_follows`), by induction on what is left to be read.  All that
  is written comes after that poll and cannot be cancelled any more (`Staged`).

  So a run that is cancelled has changed nothing, and one in which no poll finds the signal raised is
  the run that is never cancelled, whatever else the signal may be: any sequence of answers, if they
  are counted by the polls (`StopSignal.ofAnswers`).
-/
import Beacon.Proofs.Epoch.Failures
import Beacon.Proofs.Epoch.Polls

namespace Beacon

open Beacon.Action

/-! ## The agenda -/

/-- The work on votes at these positions. -/
def voteWork (epoch : RecentEpoch) (positions : List Nat) : List WorkItem :=
  positions.flatMap fun position => [.vote epoch position, .lookup epoch position]

section

variable {σ : Type} [StateAccess σ]

/-- All the work before anything is written. -/
def agenda (s : σ) : List WorkItem :=
  (List.range (StateAccess.validators s).length).map .validator ++
    (voteWork .previous (List.range (StateAccess.attestations s .previous).length) ++
      (voteWork .current (List.range (StateAccess.attestations s .current).length) ++
        [.registryUpdates]))

/-- The work that comes before the first write. -/
def survey (config : Config) (s : σ) (committees : Committees) (signal : StopSignal) :
    Action Progress EpochSummary := do
  let summary ← Collect.summarize config s committees signal
  signal.poll
  return summary

end

/-! ## Single items -/

section

variable (p : Progress)

/-- Every item at a multiple of the period is polled, and no other. -/
theorem runOn_pollEvery (signal : StopSignal) (period position : Nat) :
    (signal.pollEvery period position).runOn p =
      if decide (position % period = 0) then (ensure (!signal p) .cancelled, p.polled)
      else (.ok (), p) := by
  unfold StopSignal.pollEvery
  by_cases h : position % period = 0
  · rw [if_pos h, if_pos (decide_eq_true h)]
    rfl
  · rw [if_neg h, if_neg fun c => h (of_decide_eq_true c)]
    rfl

theorem follows_validator (position : Nat) :
    Follows (fun signal => Progress.noteValidator >>= fun _ =>
      signal.pollEvery Collect.validatorsPerPoll position) p [.validator position] :=
  .item fun signal => runOn_pollEvery (p.noting (.validator position)) signal 1024 position

theorem follows_vote (epoch : RecentEpoch) (position : Nat) :
    Follows (fun signal => signal.pollEvery Collect.votesPerPoll position) p
      [.vote epoch position] :=
  .item fun signal => runOn_pollEvery p signal 32 position

theorem follows_registryUpdates : Follows (fun signal => signal.poll) p [.registryUpdates] :=
  .item fun _ => rfl

/-- A lookup counts even if nobody knows the committee. -/
theorem follows_lookup (committees : Committees) (slot : Slot) (index : UInt64)
    (epoch : RecentEpoch) (position : Nat) :
    Follows (fun _ => Progress.committee committees slot index) p [.lookup epoch position] :=
  ⟨[.lookup epoch position], List.prefix_rfl, ⟨fun _ => rfl, rfl⟩, fun _ _ _ => rfl⟩

end

/-! ## The passes -/

theorem readRegistry_follows (current : Epoch) (items : List (Except AccessError Validator)) :
    ∀ (position : Nat) (total : Gwei) (p : Progress),
      Follows (fun signal => Collect.readRegistry signal current position total items) p
        ((List.range' position items.length).map .validator) := by
  induction items with
  | nil => exact fun _ total p => .pure ([], total) p
  | cons item items ih =>
    intro position total p
    have hitems : (List.range' position (item :: items).length).map WorkItem.validator =
        [.validator position] ++ (List.range' (position + 1) items.length).map .validator := by
      rw [List.length_cons, List.range'_succ]
      rfl
    rw [hitems]
    refine .bind_bind (follows_validator p position) fun _ p => ?_
    refine .ofExcept_bind fun v _ => ?_
    have hrest : ∀ total, Follows (fun signal =>
        Collect.readRegistry signal current (position + 1) total items >>= fun rest =>
          pure (v :: rest.1, rest.2)) p
        ((List.range' (position + 1) items.length).map .validator) :=
      fun total => (ih (position + 1) total p).bind_pure fun rest => (v :: rest.1, rest.2)
    exact .ite (.ofExcept_bind fun total _ => hrest total) (hrest total)

section

variable {σ : Type} [StateAccess σ] (config : Config) (s : σ) (committees : Committees)

theorem countVotes_follows (epoch : RecentEpoch) (boundaryRoot : Root)
    (items : List (Except AccessError PendingAttestation)) :
    ∀ (position : Nat) (statuses : Array AttesterStatus) (p : Progress),
      Follows (fun signal => Collect.countVotes config s committees signal epoch boundaryRoot
        position statuses items) p (voteWork epoch (List.range' position items.length)) := by
  induction items with
  | nil => exact fun _ statuses p => .pure statuses p
  | cons item items ih =>
    intro position statuses p
    have hitems : voteWork epoch (List.range' position (item :: items).length) =
        [.vote epoch position] ++ ([.lookup epoch position] ++
          voteWork epoch (List.range' (position + 1) items.length)) := by
      rw [List.length_cons, List.range'_succ]
      rfl
    rw [hitems]
    refine (follows_vote p epoch position).bind fun _ p _ => ?_
    refine .ofExcept_bind fun vote _ => .ofExcept_bind fun headRoot _ => ?_
    refine (follows_lookup p committees _ _ epoch position).bind fun committee p _ => ?_
    refine .ofExcept_bind fun _ _ => .ofExcept_bind fun inclusion _ => ?_
    refine .ofExcept_bind fun statuses _ => ?_
    exact ih (position + 1) statuses p

theorem countEpoch_follows (statuses : Array AttesterStatus) (epoch : RecentEpoch)
    (p : Progress) :
    Follows (fun signal => Collect.countEpoch config s committees signal statuses epoch) p
      (voteWork epoch (List.range (StateAccess.attestations s epoch).length)) := by
  rw [List.range_eq_range']
  refine .ofExcept_bind fun root _ => ?_
  exact countVotes_follows config s committees epoch root _ 0 statuses p

theorem summarize_follows (p : Progress) :
    Follows (fun signal => Collect.summarize config s committees signal) p
      ((List.range (StateAccess.validators s).length).map .validator ++
        (voteWork .previous (List.range (StateAccess.attestations s .previous).length) ++
          (voteWork .current (List.range (StateAccess.attestations s .current).length) ++ []))) := by
  rw [List.range_eq_range' (n := (StateAccess.validators s).length)]
  refine .ofExcept_bind fun due _ => ?_
  refine (readRegistry_follows _ _ 0 0 p).bind fun read p _ => ?_
  refine .ofExcept_bind fun queue _ => ?_
  refine (countEpoch_follows config s committees _ .previous p).bind fun counted p _ => ?_
  refine (countEpoch_follows config s committees counted .current p).bind fun statuses p _ => ?_
  refine .ofExcept_bind fun source _ => .ofExcept_bind fun target _ => ?_
  refine .ofExcept_bind fun head _ => .ofExcept_bind fun currentTarget _ => ?_
  exact .pure _ p

/-- Up to the first write the agenda is followed. -/
theorem survey_follows (p : Progress) :
    Follows (fun signal => survey config s committees signal) p (agenda s) := by
  have hpoll : ∀ summary : EpochSummary, ∀ q, Follows (fun signal =>
      signal.poll >>= fun _ => pure summary) q [.registryUpdates] :=
    fun summary q => (follows_registryUpdates q).bind_pure fun _ => summary
  have hsurvey := (summarize_follows config s committees p).bind fun summary q _ => hpoll summary q
  unfold agenda
  rw [List.append_nil, List.append_assoc, List.append_assoc] at hsurvey
  exact hsurvey

end

/-! ## The distance of polls on the agenda -/

theorem spaced_validators {rest : List WorkItem} (h : Spaced 32 rest) (indices : List Nat) :
    Spaced 32 (indices.map .validator ++ rest) := by
  induction indices with
  | nil => exact h
  | cons index indices ih =>
    constructor
    · exact Nat.le_refl 32
    · refine ih.mono _ ?_
      split
      · exact Nat.zero_le 32
      · exact Nat.le_refl 32

/-- At a position that is not polled, the polled one before it is as far away as the position is from
    a multiple of 32. -/
theorem spaced_voteWork {rest : List WorkItem} (h : Spaced 32 rest) (epoch : RecentEpoch)
    (count : Nat) :
    ∀ {position passed : Nat}, passed ≤ 32 → (position % 32 ≠ 0 → passed ≤ position % 32) →
      Spaced passed (voteWork epoch (List.range' position count) ++ rest) := by
  induction count with
  | zero => exact fun hpassed _ => h.mono _ hpassed
  | succ count ih =>
    intro position passed hpassed hposition
    have hitems : voteWork epoch (List.range' position (count + 1)) ++ rest =
        .vote epoch position :: .lookup epoch position ::
          (voteWork epoch (List.range' (position + 1) count) ++ rest) := by
      rw [List.range'_succ]
      rfl
    rw [hitems]
    have hlookup : ∀ before, before < 32 → ((position + 1) % 32 ≠ 0 →
        before + 1 ≤ (position + 1) % 32) → Spaced before (.lookup epoch position ::
          (voteWork epoch (List.range' (position + 1) count) ++ rest)) :=
      fun before hbefore hnext => ⟨hbefore, ih hbefore hnext⟩
    refine ⟨hpassed, ?_⟩
    show Spaced (if decide (position % 32 = 0) = true then 0 else passed) _
    split
    · next hpolled =>
      have hpolled := of_decide_eq_true hpolled
      exact hlookup 0 (by omega) (by omega)
    · next hpolled =>
      have hunpolled : position % 32 ≠ 0 := fun c => hpolled (decide_eq_true c)
      have hle := hposition hunpolled
      exact hlookup passed (by omega) (by omega)

theorem spaced_agenda {σ : Type} [StateAccess σ] (s : σ) : Spaced 32 (agenda s) := by
  unfold agenda
  rw [List.range_eq_range' (n := (StateAccess.attestations s .previous).length),
    List.range_eq_range' (n := (StateAccess.attestations s .current).length)]
  have hstart : (0 : Nat) % 32 ≠ 0 → 32 ≤ 0 % 32 := fun h => absurd rfl h
  have hlast : Spaced 32 [WorkItem.registryUpdates] := ⟨Nat.le_refl 32, trivial⟩
  have hcurrent := spaced_voteWork hlast .current (StateAccess.attestations s .current).length
    (Nat.le_refl 32) hstart
  have hprevious := spaced_voteWork hcurrent .previous (StateAccess.attestations s .previous).length
    (Nat.le_refl 32) hstart
  exact spaced_validators hprevious _

/-! ## After the survey -/

section

variable {σ β : Type} [StateAccess σ] {config : Config} {s : σ} {committees : Committees}

/-- The operation is a survey of the state, and after it the rest on the state alone. -/
def Staged (config : Config) (s : σ) (committees : Committees)
    (operation : StopSignal → Action (σ × Progress) β) (rest : EpochSummary → Action σ β) : Prop :=
  ∀ signal p, (operation signal).runOn (s, p) =
    match (survey config s committees signal).runOn p with
    | (.ok summary, q) => (((rest summary).runOn s).1, ((rest summary).runOn s).2, q)
    | (.error failure, q) => (.error failure, s, q)

/-- What closing an epoch does after the last poll. -/
def settleEpoch (config : Config) (summary : EpochSummary) :
    Action σ (EpochSummary × PenaltyTable) := do
  applyQueues config summary
  let penalties ← chargeSlashed config summary
  return (summary, penalties)

theorem closeEpoch_staged :
    Staged config s committees (closeEpoch config committees) (settleEpoch config) := by
  intro signal p
  unfold closeEpoch survey updateRegistry settleEpoch
  rw [runOn_bind, runOn_bind, runOn_onSecond]
  rcases (Collect.summarize config s committees signal).runOn p with ⟨failure | summary, q⟩
  · rfl
  dsimp only
  rw [runOn_bind, runOn_bind, runOn_bind, runOn_onSecond]
  rcases signal.poll.runOn q with ⟨failure | _, q⟩
  · rfl
  dsimp only
  rw [runOn_onFirst, runOn_pure]
  dsimp only
  rw [runOn_bind]
  rcases (applyQueues config summary).runOn s with ⟨failure | _, t⟩
  · rfl
  dsimp only
  rw [runOn_bind, runOn_onFirst, runOn_bind]
  rcases (chargeSlashed config summary).runOn t with ⟨failure | penalties, u⟩
  · rfl
  · rfl

/-- What follows on the state alone belongs to the rest. -/
theorem Staged.bind {γ : Type} {operation : StopSignal → Action (σ × Progress) β}
    {rest : EpochSummary → Action σ β} {next : β → Action (σ × Progress) γ}
    {next' : β → Action σ γ} (h : Staged config s committees operation rest)
    (hnext : ∀ b t q, (next b).runOn (t, q) =
      (((next' b).runOn t).1, ((next' b).runOn t).2, q)) :
    Staged config s committees (fun signal => operation signal >>= next)
      fun summary => rest summary >>= next' := by
  intro signal p
  rw [runOn_bind, h signal p]
  rcases (survey config s committees signal).runOn p with ⟨failure | summary, q⟩
  · rfl
  dsimp only
  rw [runOn_bind]
  rcases (rest summary).runOn s with ⟨failure | b, t⟩
  · rfl
  · exact hnext b t q

theorem Staged.progress_eq {operation : StopSignal → Action (σ × Progress) β}
    {rest : EpochSummary → Action σ β} (h : Staged config s committees operation rest)
    (signal : StopSignal) (p : Progress) :
    ((operation signal).runOn (s, p)).2.2 = ((survey config s committees signal).runOn p).2 := by
  rw [h signal p]
  rcases (survey config s committees signal).runOn p with ⟨failure | summary, q⟩ <;> rfl

/-- A survey that fails has changed nothing. -/
theorem Staged.runOn_of_error {operation : StopSignal → Action (σ × Progress) β}
    {rest : EpochSummary → Action σ β} (h : Staged config s committees operation rest)
    {signal : StopSignal} {p q : Progress} {failure : Failure}
    (hsurvey : (survey config s committees signal).runOn p = (.error failure, q)) :
    (operation signal).runOn (s, p) = (.error failure, s, q) := by
  rw [h signal p, hsurvey]

/-- Nothing is cancelled any more when the queues are applied and the slashed are charged. -/
theorem settleEpoch_stopsAs (summary : EpochSummary) (s : σ) :
    StopsAs (· ≠ .cancelled) (settleEpoch config summary) s := by
  have hstatus : ∀ i, True → FailsAs (· ≠ .cancelled) (summary.status i) :=
    fun _ _ => .orFail nofun _
  have happly : RunsAs (· ≠ .cancelled) (fun _ => True) (applyQueues config summary) s :=
    applyQueues_runsAs (.of_access fun _ => nofun) nofun (.inl nofun) (fun _ _ => trivial) hstatus
      trivial
  refine happly.stops.bind fun _ t _ => ?_
  have hcharge : StopsAs (· ≠ .cancelled) (chargeSlashed config summary) t :=
    chargeSlashed_stopsAs (.of_access fun _ => nofun) nofun (fun _ _ => trivial) hstatus trivial
      (.access (fun _ => nofun) _)
  exact hcharge.bind fun penalties u _ => .pure _ u

end

/-! ## Cancelling -/

/-- How an operation on a state reacts to a signal if these items are begun when it is never
    raised. -/
structure CancelsCleanly {σ β : Type} (operation : StopSignal → Action (σ × Progress) β) (s : σ)
    (begun : List WorkItem) : Prop where
  /-- If no poll sees the signal raised, it might as well never be. -/
  calm : ∀ signal, (∀ q ∈ pollPoints .start begun, signal q = false) →
    (operation signal).runOn (s, .start) = (operation .never).runOn (s, .start)
  /-- The first poll that does see it ends the run, and the state is as it was. -/
  raised : ∀ signal before q after, pollPoints .start begun = before ++ q :: after →
    (∀ r ∈ before, signal r = false) → signal q = true →
    (operation signal).runOn (s, .start) = (.error .cancelled, s, q.polled)
  unchanged : ∀ signal, ((operation signal).runOn (s, .start)).1 = .error .cancelled →
    ((operation signal).runOn (s, .start)).2.1 = s
  /-- A run that is never cancelled has polled where it says. -/
  progress : ((operation .never).runOn (s, .start)).2.2 = progressAfter .start begun
  /-- From the lookup in which the signal is raised there are at most 31 more. -/
  lookups_le : ∀ (signal : StopSignal) n,
    (∀ q ∈ pollPoints .start begun, n ≤ q.lookups → signal q = true) →
    ((operation signal).runOn (s, .start)).2.2.lookups ≤ n + 31

section

variable {σ β : Type} [StateAccess σ] {config : Config} {s : σ} {committees : Committees}

/-- What is staged can be cancelled as long as the survey goes on. -/
theorem Staged.cancelsCleanly {operation : StopSignal → Action (σ × Progress) β}
    {rest : EpochSummary → Action σ β} (h : Staged config s committees operation rest)
    (hrest : ∀ summary, StopsAs (· ≠ .cancelled) (rest summary) s) {begun : List WorkItem}
    (hfront : begun <+: agenda s)
    (hpolled : Polled (fun signal => survey config s committees signal) .start begun) :
    CancelsCleanly operation s begun := by
  have hcut := hpolled.run
  constructor
  case calm =>
    intro signal hcalm
    rw [h signal, h .never, hcut signal, cutShort_calm hcalm]
  case raised =>
    intro signal before q after hpoints hbefore hq
    have hcancelled := hcut signal
    rw [hpoints, cutShort_raised hbefore hq] at hcancelled
    exact h.runOn_of_error hcancelled
  case unchanged =>
    intro signal hcancelled
    rcases hsurvey : (survey config s committees signal).runOn .start with ⟨failure | summary, q⟩
    · rw [h.runOn_of_error hsurvey]
    · rw [h signal, hsurvey] at hcancelled
      exact absurd rfl (hrest summary _ hcancelled)
  case progress => exact (h.progress_eq .never .start).trans hpolled.progress
  case lookups_le =>
    intro signal n hraised
    rw [h.progress_eq, hcut signal]
    have hspaced : Spaced 32 begun := Spaced.of_begun hfront (spaced_agenda s)
    have hstart : Progress.start.lookups + (32 - 32) ≤ n + 31 := Nat.zero_le _
    exact lookups_cutShort_le begun hspaced (Nat.le_refl 32) hstart hraised hpolled.progress

/-- Ending an epoch works off the agenda, up to where it fails for another reason.  It can be cancelled
    at the polls of the items that it begins; these come before anything is written and are never more
    than 32 lookups apart. -/
theorem endOfEpoch_cancelsCleanly (config : Config) (s : σ) (committees : Committees) :
    ∃ begun, begun <+: agenda s ∧
      (∀ summary p', (Collect.summarize config s committees .never).runOn .start =
        (.ok summary, p') → begun = agenda s) ∧
      CancelsCleanly (endEpoch config committees) s begun ∧
      CancelsCleanly (accountForEpoch config committees) s begun := by
  obtain ⟨begun, hfront, hpolled, hall⟩ := survey_follows config s committees .start
  have hclose : Staged config s committees (closeEpoch config committees) (settleEpoch config) :=
    closeEpoch_staged
  refine ⟨begun, hfront, ?_, ?_, ?_⟩
  · intro summary p' hsummary
    refine hall summary p'.polled ?_
    show (Collect.summarize config s committees .never >>= fun summary =>
      StopSignal.never.poll >>= fun _ => pure summary).runOn .start = _
    rw [runOn_bind, hsummary]
    rfl
  · have hstaged : Staged config s committees (endEpoch config committees)
        fun summary => settleEpoch config summary >>= fun closed => pure closed.1 :=
      hclose.bind fun closed t q => rfl
    refine hstaged.cancelsCleanly (fun summary => ?_) hfront hpolled
    exact (settleEpoch_stopsAs summary s).bind fun _ t _ => .pure _ t
  · have hstaged : Staged config s committees (accountForEpoch config committees)
        fun summary => settleEpoch config summary >>= fun closed =>
          Action.query (fun t : σ => closed.1.deltas config t) >>= fun deltas =>
            pure (EpochAccount.mk closed.1 deltas closed.2) := by
      refine hclose.bind fun closed t q => ?_
      rw [runOn_bind, runOn_bind, runOn_onFirst, runOn_query]
      rcases closed.1.deltas config t with failure | deltas
      · rfl
      · rfl
    refine hstaged.cancelsCleanly (fun summary => ?_) hfront hpolled
    refine (settleEpoch_stopsAs summary s).bind fun closed t _ => ?_
    have hdeltas : FailsAs (· ≠ .cancelled) (closed.1.deltas config t) :=
      closed.1.deltas_failsAs nofun config t fun _ _ _ _ _ => nofun
    exact .bind (.query hdeltas) fun deltas u _ => .pure _ u

/-- Three validators and two votes fit between polls: one poll is at the first validator, one at the
    first vote, and one before the registry is updated. -/
example : pollPoints .start (agenda Collect.overlapping) = [⟨1, 0, 0⟩, ⟨3, 0, 1⟩, ⟨3, 2, 2⟩] := by
  decide +kernel

end

end Beacon
