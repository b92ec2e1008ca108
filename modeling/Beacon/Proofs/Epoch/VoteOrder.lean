/-
  The order of votes.

  Counting votes changes statuses in place, one vote after the other, and stops at the first that
  cannot be counted.  What the order has to do with the outcome is little:
    * a vote can be counted or not by itself (`IsCountable`), so a list can be counted just if every
      vote in it can, in whatever order (`exists_countVotes`);
    * of two statuses that tally the same votes (`Tallied`), all is the same but the proposer, of
      whom the order decides if several votes were included equally fast
      (`Tallied.withoutProposer_eq`);
    * a vote that has been counted before adds nothing (`Tallied.markStatus_eq`), and a copy at the
      end of the list comes after all that could go wrong (`countVotes_again`).

  None of this is by exchanging neighbours: marks exist or do not exist, and the fastest inclusion is a
  minimum, so that only the membership of a list counts.
-/
import Beacon.Proofs.Epoch.Collected

namespace Beacon

open Beacon.Action

/-! ## Without proposers -/

/-- The status with nothing said about who included the vote. -/
def AttesterStatus.withoutProposer (status : AttesterStatus) : AttesterStatus :=
  { status with
    inclusion := status.inclusion.map fun inclusion => { inclusion with proposerIndex := 0 } }

/-- The summary with nothing said about who included the votes. -/
def EpochSummary.withoutProposers (summary : EpochSummary) : EpochSummary :=
  { summary with statuses := summary.statuses.map AttesterStatus.withoutProposer }

/-- The state with other votes. -/
def State.withVotes (s : State) (previous current : List PendingAttestation) : State :=
  { s with previousAttestations := previous, currentAttestations := current }

namespace Collect

/-! ## Votes by themselves -/

section

variable {config : Config} {s : State} {committees : Committees} {signal : StopSignal}
  {epoch : RecentEpoch} {boundaryRoot : Root} {vote : PendingAttestation}
  {statuses statuses' : Array AttesterStatus} {p p' : Progress}

/-- The vote can be counted in a registry of this size. -/
structure IsCountable (config : Config) (s : State) (committees : Committees) (epoch : RecentEpoch)
    (count : Nat) (vote : PendingAttestation) : Prop where
  covered : ∃ root, blockRootAtSlot config s vote.data.slot = .ok root
  known : ∃ committee, committees vote.data.slot vote.data.index = .ok committee ∧
    vote.aggregationBits.length = committee.length ∧
    ∀ i ∈ participants committee vote.aggregationBits, i < count
  delayed : ∃ inclusion, inclusionOf epoch vote = .ok inclusion

/-- Counts one vote. -/
def countVote (config : Config) (s : State) (committees : Committees) (epoch : RecentEpoch)
    (boundaryRoot : Root) (statuses : Array AttesterStatus) (vote : PendingAttestation) :
    Action Progress (Array AttesterStatus) := do
  let headRoot ← Action.ofExcept (blockRootAtSlot config s vote.data.slot)
  let committee ← Progress.committee committees vote.data.slot vote.data.index
  Action.ofExcept (ensure (vote.aggregationBits.length == committee.length)
    (.violated (.committeeLengthMismatch vote.aggregationBits.length committee.length)))
  let inclusion ← Action.ofExcept (inclusionOf epoch vote)
  let counted : CountedVote := {
    epoch := epoch
    matchesTarget := vote.data.target.root == boundaryRoot
    matchesHead := vote.data.beaconBlockRoot == headRoot
    inclusion := inclusion }
  Action.ofExcept (markAll counted statuses (participants committee vote.aggregationBits))

theorem countVotes_cons (position : Nat) (statuses : Array AttesterStatus)
    (vote : PendingAttestation) (items : List (Except AccessError PendingAttestation)) :
    countVotes config s committees signal epoch boundaryRoot position statuses (.ok vote :: items) =
      (do
        signal.pollEvery votesPerPoll position
        let statuses ← countVote config s committees epoch boundaryRoot statuses vote
        countVotes config s committees signal epoch boundaryRoot (position + 1) statuses items) := by
  unfold countVote
  simp only [bind_assoc]
  rfl

theorem countVotes_append (items items' : List (Except AccessError PendingAttestation)) :
    ∀ (position : Nat) (statuses : Array AttesterStatus),
      countVotes config s committees signal epoch boundaryRoot position statuses (items ++ items') =
        (do
          let statuses ← countVotes config s committees signal epoch boundaryRoot position statuses
            items
          countVotes config s committees signal epoch boundaryRoot (position + items.length)
            statuses items') := by
  induction items with
  | nil =>
    intro position statuses
    rfl
  | cons item items ih =>
    intro position statuses
    rw [List.cons_append, countVotes, countVotes]
    simp only [bind_assoc, ih, List.length_cons, Nat.add_right_comm _ 1, ← Nat.add_assoc]

theorem markAll_of_lt (counted : CountedVote) (indices : List Nat) :
    ∀ {statuses : Array AttesterStatus}, (∀ i ∈ indices, i < statuses.size) →
      ∃ statuses', markAll counted statuses indices = .ok statuses' := by
  induction indices with
  | nil => exact fun {statuses} _ => ⟨statuses, rfl⟩
  | cons index indices ih =>
    intro statuses h
    unfold markAll
    rw [if_pos (h index List.mem_cons_self)]
    refine ih fun i hi => ?_
    rw [Array.size_modify]
    exact h i (List.mem_cons_of_mem index hi)

/-- What counting a vote takes, and what it gives. -/
theorem countVote_eq_ok_iff :
    (countVote config s committees epoch boundaryRoot statuses vote).runOn p =
        (.ok statuses', p') ↔
      (∃ headRoot committee inclusion, blockRootAtSlot config s vote.data.slot = .ok headRoot ∧
        committees vote.data.slot vote.data.index = .ok committee ∧
        vote.aggregationBits.length = committee.length ∧
        inclusionOf epoch vote = .ok inclusion ∧
        markAll {
          epoch := epoch
          matchesTarget := vote.data.target.root == boundaryRoot
          matchesHead := vote.data.beaconBlockRoot == headRoot
          inclusion := inclusion } statuses (participants committee vote.aggregationBits) =
            .ok statuses') ∧
      { p with lookups := p.lookups + 1 } = p' := by
  have hlookup : ∀ {committee : List Nat} {q : Progress},
      (Progress.committee committees vote.data.slot vote.data.index).runOn p = (.ok committee, q) ↔
        committees vote.data.slot vote.data.index = .ok committee ∧
          { p with lookups := p.lookups + 1 } = q := by
    intro committee q
    unfold Progress.committee
    rw [runOn_ofRun, Prod.mk.injEq, mapError_eq_ok_iff]
  unfold countVote
  constructor
  · intro h
    obtain ⟨headRoot, _, hstep, h⟩ := runOn_bind_eq_ok_iff.mp h
    obtain ⟨hhead, rfl⟩ := runOn_ofExcept_eq_ok_iff.mp hstep
    obtain ⟨committee, _, hstep, h⟩ := runOn_bind_eq_ok_iff.mp h
    obtain ⟨hcommittee, rfl⟩ := hlookup.mp hstep
    obtain ⟨_, _, hstep, h⟩ := runOn_bind_eq_ok_iff.mp h
    obtain ⟨hlength, rfl⟩ := runOn_ofExcept_eq_ok_iff.mp hstep
    obtain ⟨inclusion, _, hstep, h⟩ := runOn_bind_eq_ok_iff.mp h
    obtain ⟨hinclusion, rfl⟩ := runOn_ofExcept_eq_ok_iff.mp hstep
    obtain ⟨hmark, hp⟩ := runOn_ofExcept_eq_ok_iff.mp h
    rw [ensure_eq_ok_iff, beq_iff_eq] at hlength
    exact ⟨⟨headRoot, committee, inclusion, hhead, hcommittee, hlength, hinclusion, hmark⟩, hp⟩
  · rintro ⟨⟨headRoot, committee, inclusion, hhead, hcommittee, hlength, hinclusion, hmark⟩, hp⟩
    refine runOn_bind_eq_ok_iff.mpr ⟨headRoot, _, runOn_ofExcept_eq_ok_iff.mpr ⟨hhead, rfl⟩, ?_⟩
    refine runOn_bind_eq_ok_iff.mpr ⟨committee, _, hlookup.mpr ⟨hcommittee, rfl⟩, ?_⟩
    refine runOn_bind_eq_ok_iff.mpr ⟨(), _, runOn_ofExcept_eq_ok_iff.mpr
      ⟨ensure_eq_ok_iff.mpr (beq_iff_eq.mpr hlength), rfl⟩, ?_⟩
    refine runOn_bind_eq_ok_iff.mpr ⟨inclusion, _,
      runOn_ofExcept_eq_ok_iff.mpr ⟨hinclusion, rfl⟩, ?_⟩
    exact runOn_ofExcept_eq_ok_iff.mpr ⟨hmark, hp⟩

theorem size_countVote
    (h : (countVote config s committees epoch boundaryRoot statuses vote).runOn p =
      (.ok statuses', p')) : statuses'.size = statuses.size := by
  obtain ⟨⟨_, _, _, -, -, -, -, hmark⟩, -⟩ := countVote_eq_ok_iff.mp h
  exact (markAll_eq_ok _ hmark).1

/-- A vote is counted just if it can be, whatever has been counted before. -/
theorem exists_countVote_iff :
    (∃ statuses', (countVote config s committees epoch boundaryRoot statuses vote).runOn p =
        (.ok statuses', p')) ↔
      IsCountable config s committees epoch statuses.size vote ∧
        { p with lookups := p.lookups + 1 } = p' := by
  constructor
  · rintro ⟨statuses', h⟩
    obtain ⟨⟨headRoot, committee, inclusion, hhead, hcommittee, hlength, hinclusion, hmark⟩, hp⟩ :=
      countVote_eq_ok_iff.mp h
    obtain ⟨-, hin, -⟩ := markAll_eq_ok _ hmark
    exact ⟨⟨⟨headRoot, hhead⟩, ⟨committee, hcommittee, hlength, hin⟩, ⟨inclusion, hinclusion⟩⟩, hp⟩
  · rintro ⟨⟨⟨headRoot, hhead⟩, ⟨committee, hcommittee, hlength, hin⟩, ⟨inclusion, hinclusion⟩⟩, hp⟩
    obtain ⟨statuses', hmark⟩ := markAll_of_lt {
      epoch := epoch
      matchesTarget := vote.data.target.root == boundaryRoot
      matchesHead := vote.data.beaconBlockRoot == headRoot
      inclusion := inclusion } _ hin
    exact ⟨statuses', countVote_eq_ok_iff.mpr
      ⟨⟨headRoot, committee, inclusion, hhead, hcommittee, hlength, hinclusion, hmark⟩, hp⟩⟩

/-- All votes of a list that was counted can be counted. -/
theorem countable_of_countVotes (votes : List PendingAttestation) :
    ∀ {position : Nat} {statuses statuses' : Array AttesterStatus} {p p' : Progress},
      (countVotes config s committees signal epoch boundaryRoot position statuses
        (votes.map .ok)).runOn p = (.ok statuses', p') →
      ∀ vote ∈ votes, IsCountable config s committees epoch statuses.size vote := by
  induction votes with
  | nil => exact fun _ vote hvote => absurd hvote List.not_mem_nil
  | cons first votes ih =>
    intro position statuses statuses' p p' h vote hvote
    rw [List.map_cons, countVotes_cons] at h
    obtain ⟨_, q, -, h⟩ := runOn_bind_eq_ok_iff.mp h
    obtain ⟨counted, r, hcount, h⟩ := runOn_bind_eq_ok_iff.mp h
    rcases List.mem_cons.mp hvote with rfl | hvote
    · exact (exists_countVote_iff.mp ⟨counted, hcount⟩).1
    · rw [← size_countVote hcount]
      exact ih h vote hvote

/-- Where one list of votes was counted, any list of as many votes is, if each of them can be; and
    the polls see the same progress. -/
theorem exists_countVotes (votes : List PendingAttestation) :
    ∀ {position : Nat} {statuses statuses' others : Array AttesterStatus} {p p' : Progress}
      {votes' : List PendingAttestation},
      (countVotes config s committees signal epoch boundaryRoot position statuses
        (votes.map .ok)).runOn p = (.ok statuses', p') →
      votes'.length = votes.length →
      (∀ vote ∈ votes', IsCountable config s committees epoch others.size vote) →
      ∃ others', (countVotes config s committees signal epoch boundaryRoot position others
        (votes'.map .ok)).runOn p = (.ok others', p') := by
  induction votes with
  | nil =>
    intro position statuses statuses' others p p' votes' h hlength hcountable
    obtain ⟨-, rfl⟩ := runOn_pure_eq_ok_iff.mp h
    obtain rfl := List.length_eq_zero_iff.mp hlength
    exact ⟨others, rfl⟩
  | cons first votes ih =>
    intro position statuses statuses' others p p' votes' h hlength hcountable
    obtain ⟨first', votes', rfl⟩ := List.exists_cons_of_length_eq_add_one hlength
    rw [List.map_cons, countVotes_cons] at h
    obtain ⟨u, q, hpoll, h⟩ := runOn_bind_eq_ok_iff.mp h
    obtain ⟨counted, r, hcount, h⟩ := runOn_bind_eq_ok_iff.mp h
    -- a lookup leaves the same progress, whichever vote it is for
    obtain ⟨-, hlookup⟩ := exists_countVote_iff.mp ⟨counted, hcount⟩
    obtain ⟨counted', hcount'⟩ := exists_countVote_iff.mpr
      ⟨hcountable first' List.mem_cons_self, hlookup⟩
    have hlength' : votes'.length = votes.length := Nat.succ.inj hlength
    have hcountable' : ∀ vote ∈ votes',
        IsCountable config s committees epoch counted'.size vote := by
      intro vote hvote
      rw [size_countVote hcount']
      exact hcountable vote (List.mem_cons_of_mem first' hvote)
    obtain ⟨others', hrest⟩ := ih h hlength' hcountable'
    refine ⟨others', ?_⟩
    rw [List.map_cons, countVotes_cons]
    exact runOn_bind_eq_ok_iff.mpr ⟨u, q, hpoll,
      runOn_bind_eq_ok_iff.mpr ⟨counted', r, hcount', hrest⟩⟩

end

/-! ## Statuses that tally the same votes -/

/-- The inclusion of a vote that the validator took part in, of which no other vote in the list with
    it was included faster. -/
def IsFastest (committees : Committees) (votes : List PendingAttestation) (i : Nat)
    (inclusion : Inclusion) : Prop :=
  ∃ vote ∈ votes, TookPart committees vote i ∧ inclusion.delay.val = vote.inclusionDelay ∧
    inclusion.proposerIndex = vote.proposerIndex.toNat ∧
    ∀ other ∈ votes, TookPart committees other i → vote.inclusionDelay ≤ other.inclusionDelay

/-- All inclusions that the statuses name are fastest. -/
def AllFastest (committees : Committees) (votes : List PendingAttestation)
    (statuses : Array AttesterStatus) : Prop :=
  ∀ i status, statuses[i]? = some status → ∀ inclusion, status.inclusion = some inclusion →
    IsFastest committees votes i inclusion

section

variable {committees : Committees} {votes votes' : List PendingAttestation} {i : Nat}
  {inclusion inclusion' : Inclusion}

theorem IsFastest.congr (h : IsFastest committees votes i inclusion)
    (hsame : ∀ vote, vote ∈ votes' ↔ vote ∈ votes) : IsFastest committees votes' i inclusion := by
  obtain ⟨vote, hvote, hpart, hdelay, hproposer, hleast⟩ := h
  exact ⟨vote, (hsame vote).mpr hvote, hpart, hdelay, hproposer,
    fun other hother => hleast other ((hsame other).mp hother)⟩

/-- Fastest inclusions may differ in the proposer only. -/
theorem IsFastest.delay_eq (h : IsFastest committees votes i inclusion)
    (h' : IsFastest committees votes i inclusion') : inclusion'.delay = inclusion.delay := by
  obtain ⟨vote, hvote, hpart, hdelay, -, hleast⟩ := h
  obtain ⟨vote', hvote', hpart', hdelay', -, hleast'⟩ := h'
  have heq : inclusion'.delay.val = inclusion.delay.val := by
    rw [hdelay, hdelay']
    exact UInt64.le_antisymm (hleast' vote hvote hpart) (hleast vote' hvote' hpart')
  rcases inclusion with ⟨⟨delay, hne⟩, proposer⟩
  rcases inclusion' with ⟨⟨delay', hne'⟩, proposer'⟩
  cases heq
  rfl

theorem FastestInclusion.isFastest
    (h : FastestInclusion committees votes i (some inclusion)) :
    IsFastest committees votes i inclusion := by
  obtain ⟨before, vote, after, rfl, hpart, hdelay, hproposer, hbefore, hafter⟩ := h
  refine ⟨vote, List.mem_append_right before List.mem_cons_self, hpart, hdelay, hproposer, ?_⟩
  intro other hother hpart'
  rw [UInt64.le_iff_toNat_le]
  rcases List.mem_append.mp hother with hother | hother
  · exact Nat.le_of_lt (hbefore other hother hpart')
  · rcases List.mem_cons.mp hother with rfl | hother
    · exact Nat.le_refl _
    · exact hafter other hother hpart'

end

section

variable {config : Config} {s : State} {committees : Committees} {epoch : RecentEpoch} {i : Nat}
  {v : Validator} {seen seen' : RecentEpoch → List PendingAttestation}

theorem Marks.eq {list list' : List PendingAttestation} {votes votes' : Votes}
    (h : Marks config s committees epoch list i votes)
    (h' : Marks config s committees epoch list' i votes')
    (hsame : ∀ vote, vote ∈ list' ↔ vote ∈ list) : votes' = votes := by
  have hsource : votes'.source = votes.source := by
    rw [Bool.eq_iff_iff, h'.source, h.source]
    simp only [hsame]
  have htarget : votes'.target = votes.target := by
    rw [Bool.eq_iff_iff, h'.target, h.target]
    simp only [hsame]
  have hhead : votes'.head = votes.head := by
    rw [Bool.eq_iff_iff, h'.head, h.head]
    simp only [hsame]
  cases votes
  cases votes'
  cases hsource
  cases htarget
  cases hhead
  rfl

/-- Of statuses that tally the same votes all is the same but the proposer. -/
theorem Tallied.withoutProposer_eq {status status' : AttesterStatus}
    (h : Tallied config s committees seen i v status)
    (h' : Tallied config s committees seen' i v status')
    (hsame : ∀ epoch vote, vote ∈ seen' epoch ↔ vote ∈ seen epoch) :
    status'.withoutProposer = status.withoutProposer := by
  have hunslashed : status'.unslashed = status.unslashed := by
    rw [Bool.eq_iff_iff, h'.unslashed, h.unslashed]
  have heligible : status'.eligible = status.eligible := by
    rw [Bool.eq_iff_iff, h'.eligible, h.eligible]
  have hactive : status'.active = status.active := by
    rw [Bool.eq_iff_iff, h'.active, h.active]
  have hprevious := h.previous.eq h'.previous (hsame .previous)
  have hcurrent := h.current.eq h'.current (hsame .current)
  have hnone : status'.inclusion = none ↔ status.inclusion = none := by
    rw [h.inclusion_eq_none_iff, h'.inclusion_eq_none_iff, hprevious]
  have hinclusion :
      status'.inclusion.map (fun inclusion => { inclusion with proposerIndex := 0 }) =
        status.inclusion.map fun inclusion => { inclusion with proposerIndex := 0 } := by
    have hknown := h.inclusion
    have hknown' := h'.inclusion
    rcases hi : status.inclusion with _ | inclusion
    · rw [hnone.mpr hi]
    · rcases hi' : status'.inclusion with _ | inclusion'
      · rw [hnone.mp hi'] at hi
        nomatch hi
      · rw [hi] at hknown
        rw [hi'] at hknown'
        have hfastest := hknown'.isFastest.congr fun vote => (hsame .previous vote).symm
        rw [Option.map_some, Option.map_some, hknown.isFastest.delay_eq hfastest]
  unfold AttesterStatus.withoutProposer
  rw [hinclusion, hunslashed, heligible, hactive, hprevious, hcurrent, h.validator, h'.validator]

theorem Marks.markVotes_eq {list : List PendingAttestation} {votes : Votes}
    {vote : PendingAttestation} {counted : CountedVote}
    (h : Marks config s committees epoch list i votes) (hc : CountsAs config s epoch vote counted)
    (hi : TookPart committees vote i) (hseen : vote ∈ list) : markVotes votes counted = votes := by
  have hsource : votes.source = true := h.source.mpr ⟨vote, hseen, hi⟩
  have htarget : (votes.target || counted.matchesTarget) = votes.target :=
    Bool.or_eq_left_iff_imp.mpr fun ht => h.target.mpr ⟨vote, hseen, hi, hc.target.mp ht⟩
  have hhead : (votes.head || (counted.matchesTarget && counted.matchesHead)) = votes.head := by
    refine Bool.or_eq_left_iff_imp.mpr fun hboth => ?_
    obtain ⟨ht, hh⟩ := Bool.and_eq_true_iff.mp hboth
    exact h.head.mpr ⟨vote, hseen, hi, hc.target.mp ht, hc.head.mp hh⟩
  unfold markVotes
  rw [htarget, hhead, ← hsource]

theorem FastestInclusion.fasterInclusion_eq {list : List PendingAttestation}
    {known : Option Inclusion} {vote : PendingAttestation} {new : Inclusion}
    (h : FastestInclusion committees list i known) (hi : TookPart committees vote i)
    (hseen : vote ∈ list) (hdelay : new.delay.val = vote.inclusionDelay) :
    fasterInclusion known (some new) = known := by
  cases known with
  | none => exact absurd hi (h vote hseen)
  | some inclusion =>
    obtain ⟨fastest, -, -, hfastest, -, hleast⟩ := h.isFastest
    have hle : inclusion.delay.val ≤ new.delay.val := by
      rw [hfastest, hdelay]
      exact hleast vote hseen hi
    exact if_neg (UInt64.not_lt.mpr hle)

/-- A vote that has been counted before adds nothing. -/
theorem Tallied.markStatus_eq {status : AttesterStatus} {vote : PendingAttestation}
    {counted : CountedVote} (h : Tallied config s committees seen i v status)
    (hc : CountsAs config s epoch vote counted) (hi : TookPart committees vote i)
    (hseen : vote ∈ seen epoch) : markStatus counted status = status := by
  unfold markStatus
  rw [hc.epoch_eq]
  cases epoch with
  | previous =>
    obtain ⟨new, hnew, hdelay, -⟩ := hc.inclusion rfl
    dsimp only
    rw [h.previous.markVotes_eq hc hi hseen, hnew,
      h.inclusion.fasterInclusion_eq hi hseen hdelay]
  | current =>
    dsimp only
    rw [h.current.markVotes_eq hc hi hseen]

theorem AllTallied.allFastest {vs : List Validator} {statuses : Array AttesterStatus}
    (h : AllTallied config s committees seen vs statuses) :
    AllFastest committees (seen .previous) statuses := by
  intro i status hi inclusion hknown
  obtain ⟨v, -, ht⟩ := h.exists_tallied hi
  have hfastest := ht.inclusion
  rw [hknown] at hfastest
  exact hfastest.isFastest

/-- Statuses that tally the same votes all are the same but for the proposers. -/
theorem AllTallied.withoutProposer_eq {vs : List Validator} {statuses statuses' : Array AttesterStatus}
    (h : AllTallied config s committees seen vs statuses)
    (h' : AllTallied config s committees seen' vs statuses')
    (hsame : ∀ epoch vote, vote ∈ seen' epoch ↔ vote ∈ seen epoch) :
    statuses'.map AttesterStatus.withoutProposer = statuses.map AttesterStatus.withoutProposer := by
  apply Array.ext_getElem?
  intro i
  rw [Array.getElem?_map, Array.getElem?_map]
  rcases hv : vs[i]? with _ | v
  · have hle := List.getElem?_eq_none_iff.mp hv
    rw [Array.getElem?_eq_none (h'.size ▸ hle), Array.getElem?_eq_none (h.size ▸ hle)]
  · obtain ⟨status, hstatus, ht⟩ := h.tallied i v hv
    obtain ⟨status', hstatus', ht'⟩ := h'.tallied i v hv
    rw [hstatus, hstatus', Option.map_some, Option.map_some, ht.withoutProposer_eq ht' hsame]

end

/-- A stake does not depend on who included the votes. -/
theorem stakeWhere_congr {config : Config} {statuses statuses' : Array AttesterStatus}
    {test : AttesterStatus → Bool} (htest : ∀ status, test status.withoutProposer = test status)
    (hsame : statuses'.map AttesterStatus.withoutProposer =
      statuses.map AttesterStatus.withoutProposer) :
    stakeWhere config statuses' test = stakeWhere config statuses test := by
  have hforget : ∀ statuses : Array AttesterStatus,
      stakeWhere config (statuses.map AttesterStatus.withoutProposer) test =
        stakeWhere config statuses test := by
    intro statuses
    unfold stakeWhere
    rw [Array.toList_map, List.filter_map, List.map_map]
    have hfilter : ((fun status : AttesterStatus => status.unslashed && test status) ∘
        AttesterStatus.withoutProposer) = fun status => status.unslashed && test status := by
      funext status
      exact congrArg (status.unslashed && ·) (htest status)
    rw [hfilter]
    rfl
  rw [← hforget statuses', hsame, hforget]

/-! ## Lists in another order -/

section

variable {config : Config} {s : State} {committees : Committees} {signal : StopSignal}
  {previous current : List PendingAttestation} {p p' : Progress}

/-- Only the votes to be counted are looked at, not those of the state. -/
theorem countVotes_withVotes (epoch : RecentEpoch) (boundaryRoot : Root)
    (items : List (Except AccessError PendingAttestation)) :
    ∀ (position : Nat) (statuses : Array AttesterStatus),
      countVotes config (s.withVotes previous current) committees signal epoch boundaryRoot position
          statuses items =
        countVotes config s committees signal epoch boundaryRoot position statuses items := by
  induction items with
  | nil => exact fun _ _ => rfl
  | cons item items ih =>
    intro position statuses
    rw [countVotes, countVotes]
    simp only [ih]
    rfl

theorem countEpoch_withVotes (statuses : Array AttesterStatus) (epoch : RecentEpoch) :
    countEpoch config (s.withVotes previous current) committees signal statuses epoch = (do
      let boundaryRoot ← Action.ofExcept (blockRoot config s epoch)
      countVotes config s committees signal epoch boundaryRoot 0 statuses
        (((s.withVotes previous current).attestations epoch).map .ok)) := by
  unfold countEpoch
  simp only [countVotes_withVotes]
  rfl

/-- Counting a list of votes tallies them. -/
theorem AllTallied.of_countVotes {epoch : RecentEpoch} {boundaryRoot : Root}
    {seen : RecentEpoch → List PendingAttestation} {vs : List Validator}
    {statuses statuses' : Array AttesterStatus} {votes : List PendingAttestation} {position : Nat}
    (h : AllTallied config s committees seen vs statuses)
    (hroot : blockRoot config s epoch = .ok boundaryRoot)
    (hcount : (countVotes config s committees signal epoch boundaryRoot position statuses
      (votes.map .ok)).runOn p = (.ok statuses', p')) :
    AllTallied config s committees (more seen epoch votes) vs statuses' := by
  obtain ⟨read, hread, hall⟩ := countVotes_eq_ok hroot _ hcount h
  rwa [(List.map_inj_right fun _ _ => Except.ok.inj).mp hread]

/-- A pass over votes succeeds in any order, on any statuses of the same validators. -/
theorem countEpoch_reordered {epoch : RecentEpoch}
    {seen seen' : RecentEpoch → List PendingAttestation} {vs : List Validator}
    {statuses statuses' others : Array AttesterStatus}
    (hperm : ((s.withVotes previous current).attestations epoch).Perm (s.attestations epoch))
    (h : (countEpoch config s committees signal statuses epoch).runOn p = (.ok statuses', p'))
    (htallied : AllTallied config s committees seen vs statuses)
    (hothers : AllTallied config s committees seen' vs others) :
    AllTallied config s committees (more seen epoch (s.attestations epoch)) vs statuses' ∧
    ∃ others', (countEpoch config (s.withVotes previous current) committees signal others
        epoch).runOn p = (.ok others', p') ∧
      AllTallied config s committees
        (more seen' epoch ((s.withVotes previous current).attestations epoch)) vs others' := by
  obtain ⟨boundaryRoot, _, hstep, hcount⟩ := runOn_bind_eq_ok_iff.mp h
  obtain ⟨hroot, rfl⟩ := runOn_ofExcept_eq_ok_iff.mp hstep
  have hcountable : ∀ vote ∈ (s.withVotes previous current).attestations epoch,
      IsCountable config s committees epoch others.size vote := by
    intro vote hvote
    rw [hothers.size, ← htallied.size]
    exact countable_of_countVotes _ hcount vote (hperm.mem_iff.mp hvote)
  obtain ⟨others', hcount'⟩ := exists_countVotes _ hcount hperm.length_eq hcountable
  refine ⟨htallied.of_countVotes hroot hcount, others', ?_, hothers.of_countVotes hroot hcount'⟩
  rw [countEpoch_withVotes]
  exact runOn_bind_eq_ok_iff.mpr ⟨boundaryRoot, _, hstep, hcount'⟩

/-- Both passes tally the votes of the state. -/
theorem more_attestations (s : State) :
    more (more (fun _ => []) .previous (s.attestations .previous)) .current
      (s.attestations .current) = s.attestations := by
  funext epoch
  cases epoch <;> rfl

/-- A summary of the votes in one order gives one of the votes in any other, in which only proposers
    may be different. -/
theorem summarize_reordered {summary : EpochSummary}
    (hperm : ∀ epoch, ((s.withVotes previous current).attestations epoch).Perm
      (s.attestations epoch))
    (h : (summarize config s committees signal).runOn p = (.ok summary, p')) :
    ∃ summary', (summarize config (s.withVotes previous current) committees signal).runOn p =
        (.ok summary', p') ∧
      summary'.withoutProposers = summary.withoutProposers ∧
      AllFastest committees s.previousAttestations summary.statuses ∧
      AllFastest committees s.previousAttestations summary'.statuses := by
  obtain ⟨due, p1, hdue, h⟩ := runOn_bind_eq_ok_iff.mp h
  obtain ⟨⟨vs, stake⟩, p2, hregistry, h⟩ := runOn_bind_eq_ok_iff.mp h
  obtain ⟨queue, p3, hqueue, h⟩ := runOn_bind_eq_ok_iff.mp h
  obtain ⟨counted, p4, hprevious, h⟩ := runOn_bind_eq_ok_iff.mp h
  obtain ⟨statuses, p5, hcurrent, h⟩ := runOn_bind_eq_ok_iff.mp h
  obtain ⟨source, p6, hsource, h⟩ := runOn_bind_eq_ok_iff.mp h
  obtain ⟨target, p7, htarget, h⟩ := runOn_bind_eq_ok_iff.mp h
  obtain ⟨head, p8, hhead, h⟩ := runOn_bind_eq_ok_iff.mp h
  obtain ⟨currentTarget, p9, hcurrentTarget, h⟩ := runOn_bind_eq_ok_iff.mp h
  obtain ⟨rfl, hp⟩ := runOn_pure_eq_ok_iff.mp h
  have hinitial := allTallied_initialStatus config s committees vs
  obtain ⟨htallied, counted', hprevious', htallied'⟩ :=
    countEpoch_reordered (hperm .previous) hprevious hinitial hinitial
  obtain ⟨hall, statuses', hcurrent', hall'⟩ :=
    countEpoch_reordered (hperm .current) hcurrent htallied htallied'
  rw [more_attestations] at hall hall'
  have hsame := hall.withoutProposer_eq hall' fun epoch vote => (hperm epoch).mem_iff
  have hstake : ∀ {test : AttesterStatus → Bool} {stake : Divisor} {q q' : Progress},
      (∀ status, test status.withoutProposer = test status) →
      (Action.ofExcept (stakeWhere config statuses test)).runOn q = (.ok stake, q') →
      (Action.ofExcept (stakeWhere config statuses' test)).runOn q = (.ok stake, q') := by
    intro test stake q q' htest hrun
    rw [stakeWhere_congr htest hsame]
    exact hrun
  have hrun : (summarize config (s.withVotes previous current) committees signal).runOn p =
      (.ok _, p') :=
    runOn_bind_eq_ok_iff.mpr ⟨due, p1, hdue,
    runOn_bind_eq_ok_iff.mpr ⟨(vs, stake), p2, hregistry,
    runOn_bind_eq_ok_iff.mpr ⟨queue, p3, hqueue,
    runOn_bind_eq_ok_iff.mpr ⟨counted', p4, hprevious',
    runOn_bind_eq_ok_iff.mpr ⟨statuses', p5, hcurrent',
    runOn_bind_eq_ok_iff.mpr ⟨source, p6, hstake (fun _ => rfl) hsource,
    runOn_bind_eq_ok_iff.mpr ⟨target, p7, hstake (fun _ => rfl) htarget,
    runOn_bind_eq_ok_iff.mpr ⟨head, p8, hstake (fun _ => rfl) hhead,
    runOn_bind_eq_ok_iff.mpr ⟨currentTarget, p9, hstake (fun _ => rfl) hcurrentTarget,
    runOn_pure_eq_ok_iff.mpr ⟨rfl, hp⟩⟩⟩⟩⟩⟩⟩⟩⟩⟩
  refine ⟨_, hrun, ?_, hall.allFastest, fun i status hi inclusion hinclusion => ?_⟩
  · unfold EpochSummary.withoutProposers
    dsimp only
    rw [hsame]
    rfl
  · have hfastest := hall'.allFastest i status hi inclusion hinclusion
    exact hfastest.congr fun vote => (hperm .previous).mem_iff.symm

theorem isOk_summarize_reordered
    (hperm : ∀ epoch, ((s.withVotes previous current).attestations epoch).Perm
      (s.attestations epoch))
    (hok : ((summarize config s committees signal).runOn p).1.isOk = true) :
    ((summarize config (s.withVotes previous current) committees signal).runOn p).1.isOk = true := by
  obtain ⟨summary, p', h⟩ := exists_of_isOk hok
  obtain ⟨summary', h', -⟩ := summarize_reordered hperm h
  rw [h']
  rfl

end

end Collect

/-! ## A vote counted twice -/

/-- The actions give the same result, whatever progress they begin with. -/
def GivesSame {α : Type} (act act' : Action Progress α) : Prop :=
  ∀ p q : Progress, (act.runOn p).1 = (act'.runOn q).1

namespace GivesSame

variable {α β : Type}

theorem ofExcept (result : Except Failure α) :
    GivesSame (Action.ofExcept result) (Action.ofExcept result) := fun _ _ => rfl

theorem pure (a : α) : GivesSame (Pure.pure a) (Pure.pure a) := fun _ _ => rfl

theorem bind {first first' : Action Progress α} {next next' : α → Action Progress β}
    (hfirst : GivesSame first first')
    (hnext : ∀ a p t, first.runOn p = (.ok a, t) → GivesSame (next a) (next' a)) :
    GivesSame (first >>= next) (first' >>= next') := fun p q =>
  fst_bind_congr (hfirst p q) fun a t t' hrun _ => hnext a p t hrun t t'

end GivesSame

/-- A calculation that nobody stops goes on. -/
theorem fst_pollEvery_never (period position : Nat) (p : Progress) :
    ((StopSignal.never.pollEvery period position).runOn p).1 = .ok () := by
  unfold StopSignal.pollEvery
  split
  · rfl
  · rfl

namespace Collect

section

variable {config : Config} {s : State} {committees : Committees} {epoch : RecentEpoch}
  {boundaryRoot : Root} {seen : RecentEpoch → List PendingAttestation} {vs : List Validator}
  {statuses : Array AttesterStatus} {vote : PendingAttestation}
  {previous current : List PendingAttestation}

theorem countVote_givesSame (statuses : Array AttesterStatus) (vote : PendingAttestation) :
    GivesSame (countVote config s committees epoch boundaryRoot statuses vote)
      (countVote config s committees epoch boundaryRoot statuses vote) := by
  have hlookup : GivesSame (Progress.committee committees vote.data.slot vote.data.index)
      (Progress.committee committees vote.data.slot vote.data.index) := fun _ _ => rfl
  refine .bind (.ofExcept _) fun headRoot _ _ _ => .bind hlookup fun committee _ _ _ => ?_
  refine .bind (.ofExcept _) fun _ _ _ _ => .bind (.ofExcept _) fun inclusion _ _ _ => ?_
  exact .ofExcept _

/-- Without cancellation the progress has no influence on what is counted. -/
theorem countVotes_givesSame (votes : List PendingAttestation) :
    ∀ (position : Nat) (statuses : Array AttesterStatus),
      GivesSame (countVotes config s committees .never epoch boundaryRoot position statuses
          (votes.map .ok))
        (countVotes config s committees .never epoch boundaryRoot position statuses
          (votes.map .ok)) := by
  induction votes with
  | nil => exact fun _ statuses => .pure statuses
  | cons vote votes ih =>
    intro position statuses
    rw [List.map_cons, countVotes_cons]
    refine .bind (fun p q => ?_) fun _ _ _ _ => .bind (countVote_givesSame _ _) ?_
    · rw [fst_pollEvery_never, fst_pollEvery_never]
    · exact fun counted _ _ _ => ih (position + 1) counted

/-- A vote that has been counted before can be counted again, and changes nothing. -/
theorem countVote_again (h : AllTallied config s committees seen vs statuses)
    (hroot : blockRoot config s epoch = .ok boundaryRoot) (hseen : vote ∈ seen epoch)
    (hcountable : IsCountable config s committees epoch statuses.size vote) (p : Progress) :
    ((countVote config s committees epoch boundaryRoot statuses vote).runOn p).1 =
      .ok statuses := by
  obtain ⟨statuses', hcount⟩ := exists_countVote_iff.mpr ⟨hcountable, rfl⟩
  obtain ⟨⟨headRoot, committee, inclusion, hhead, hcommittee, -, hinclusion, hmark⟩, -⟩ :=
    countVote_eq_ok_iff.mp hcount
  have hcounts := countsAs hroot hhead hinclusion
  obtain ⟨-, -, hget⟩ := markAll_eq_ok _ hmark
  have hsame : statuses' = statuses := by
    apply Array.ext_getElem?
    intro i
    rw [hget i]
    split
    · next hi =>
      rcases hstatus : statuses[i]? with _ | status
      · rfl
      · obtain ⟨v, -, ht⟩ := h.exists_tallied hstatus
        rw [Option.map_some,
          ht.markStatus_eq hcounts ((mem_participants_iff hcommittee).mp hi) hseen]
    · rfl
  rw [hcount, hsame]

/-- A copy at the end of a list comes after all that could go wrong, and finds its marks made. -/
theorem countVotes_again {votes : List PendingAttestation} (position : Nat)
    (h : AllTallied config s committees seen vs statuses)
    (hroot : blockRoot config s epoch = .ok boundaryRoot) (hvote : vote ∈ votes) :
    GivesSame
      (countVotes config s committees .never epoch boundaryRoot position statuses (votes.map .ok))
      (countVotes config s committees .never epoch boundaryRoot position statuses
        ((votes ++ [vote]).map .ok)) := by
  rw [List.map_append, countVotes_append, List.length_map]
  suffices hend : GivesSame
      (countVotes config s committees .never epoch boundaryRoot position statuses
        (votes.map .ok) >>= pure)
      (countVotes config s committees .never epoch boundaryRoot position statuses
        (votes.map .ok) >>= fun counted =>
          countVotes config s committees .never epoch boundaryRoot
            (position + votes.length) counted ([vote].map .ok)) by
    rwa [bind_pure] at hend
  refine (countVotes_givesSame votes position statuses).bind ?_
  intro counted p t hrun q r
  have htallied := h.of_countVotes hroot hrun
  have hseen : vote ∈ more seen epoch votes epoch := by
    unfold more
    rw [if_pos rfl]
    exact List.mem_append_right _ hvote
  have hcountable : IsCountable config s committees epoch counted.size vote := by
    rw [htallied.size, ← h.size]
    exact countable_of_countVotes _ hrun vote hvote
  rw [List.map_cons, countVotes_cons]
  refine (fst_bind_eq_ok (fst_pollEvery_never _ _ r) fun r => ?_).symm
  exact fst_bind_eq_ok (countVote_again htallied hroot hseen hcountable r) fun _ => rfl

/-- The second list is the first, or has a copy of one of its votes at the end. -/
def AddsCopy (votes votes' : List PendingAttestation) : Prop :=
  votes' = votes ∨ ∃ vote ∈ votes, votes' = votes ++ [vote]

/-- A copy of a vote changes nothing in the pass it is in. -/
theorem countEpoch_again (h : AllTallied config s committees seen vs statuses)
    (hcopy : AddsCopy (s.attestations epoch) ((s.withVotes previous current).attestations epoch)) :
    GivesSame (countEpoch config s committees .never statuses epoch)
      (countEpoch config (s.withVotes previous current) committees .never statuses epoch) := by
  rw [countEpoch_withVotes]
  refine .bind (.ofExcept _) fun boundaryRoot p t hrun => ?_
  obtain ⟨hroot, -⟩ := runOn_ofExcept_eq_ok_iff.mp hrun
  rcases hcopy with heq | ⟨vote, hvote, heq⟩
  · rw [heq]
    exact countVotes_givesSame _ 0 statuses
  · rw [heq]
    exact countVotes_again 0 h hroot hvote

/-- Copies change nothing at all, neither in what is found nor in what goes wrong. -/
theorem summarize_again (p : Progress)
    (hcopy : ∀ epoch, AddsCopy (s.attestations epoch)
      ((s.withVotes previous current).attestations epoch)) :
    ((summarize config (s.withVotes previous current) committees .never).runOn p).1 =
      ((summarize config s committees .never).runOn p).1 := by
  symm
  -- up to the votes both do the same
  refine fst_bind_congr_rest fun due _ _ => fst_bind_congr_rest fun registry q _ =>
    fst_bind_congr_rest fun queue r _ => ?_
  have hinitial := allTallied_initialStatus config s committees registry.1
  refine GivesSame.bind (countEpoch_again hinitial (hcopy .previous)) ?_ r r
  intro counted p t hrun
  obtain ⟨votes, -, htallied⟩ := countEpoch_eq_ok hrun hinitial
  refine .bind (countEpoch_again htallied (hcopy .current)) fun statuses _ _ _ => ?_
  refine .bind (.ofExcept _) fun source _ _ _ => .bind (.ofExcept _) fun target _ _ _ => ?_
  exact .bind (.ofExcept _) fun head _ _ _ => .bind (.ofExcept _) fun _ _ _ _ => .pure _

end

end Collect

open Collect in
/-- The order of votes decides nothing but whom a validator owes the inclusion to that was included
    equally fast by several, and voting twice is as good as once. -/
theorem votes_in_any_order (config : Config) (s : State) (committees : Committees)
    (signal : StopSignal) (p : Progress) {previous current : List PendingAttestation}
    (hprevious : previous.Perm s.previousAttestations)
    (hcurrent : current.Perm s.currentAttestations) :
    ((summarize config (s.withVotes previous current) committees signal).runOn p).1.isOk =
        ((summarize config s committees signal).runOn p).1.isOk ∧
    (∀ summary summary',
      ((summarize config s committees signal).runOn p).1 = .ok summary →
      ((summarize config (s.withVotes previous current) committees signal).runOn p).1 =
        .ok summary' →
      summary'.withoutProposers = summary.withoutProposers ∧
        AllFastest committees s.previousAttestations summary.statuses ∧
        AllFastest committees s.previousAttestations summary'.statuses) ∧
    (∀ vote ∈ s.previousAttestations,
      ((summarize config (s.withVotes (s.previousAttestations ++ [vote]) s.currentAttestations)
          committees .never).runOn p).1 = ((summarize config s committees .never).runOn p).1) ∧
    (∀ vote ∈ s.currentAttestations,
      ((summarize config (s.withVotes s.previousAttestations (s.currentAttestations ++ [vote]))
          committees .never).runOn p).1 = ((summarize config s committees .never).runOn p).1) := by
  have hperm : ∀ epoch, ((s.withVotes previous current).attestations epoch).Perm
      (s.attestations epoch) := by
    intro epoch
    cases epoch with
    | previous => exact hprevious
    | current => exact hcurrent
  refine ⟨?_, fun summary summary' h h' => ?_, fun vote hvote => ?_, fun vote hvote => ?_⟩
  · -- putting the votes back into their places gives the state again
    have hback : ∀ epoch, (((s.withVotes previous current).withVotes s.previousAttestations
        s.currentAttestations).attestations epoch).Perm
        ((s.withVotes previous current).attestations epoch) :=
      fun epoch => (hperm epoch).symm
    exact Bool.eq_iff_iff.mpr ⟨isOk_summarize_reordered hback, isOk_summarize_reordered hperm⟩
  · obtain ⟨found, hfound, hboth⟩ := summarize_reordered hperm (Prod.ext h rfl)
    rw [hfound] at h'
    cases h'
    exact hboth
  · refine summarize_again p fun epoch => ?_
    cases epoch with
    | previous => exact .inr ⟨vote, hvote, rfl⟩
    | current => exact .inl rfl
  · refine summarize_again p fun epoch => ?_
    cases epoch with
    | previous => exact .inl rfl
    | current => exact .inr ⟨vote, hvote, rfl⟩

open Collect in
/-- The two votes were included equally fast: the other way around they name the other proposer. -/
theorem votes_in_any_order_overlapping : ∃ summary summary' : EpochSummary,
    ((summarize Config.minimal overlapping overlappingCommittees .never).runOn .start).1 =
      .ok summary ∧
    ((summarize Config.minimal (overlapping.withVotes overlapping.previousAttestations.reverse [])
      overlappingCommittees .never).runOn .start).1 = .ok summary' ∧
    summary'.withoutProposers = summary.withoutProposers ∧
    AllFastest overlappingCommittees overlapping.previousAttestations summary.statuses ∧
    AllFastest overlappingCommittees overlapping.previousAttestations summary'.statuses ∧
    summary.statuses.toList.map (·.inclusion.map (·.proposerIndex)) = [some 1, some 1, some 0] ∧
    summary'.statuses.toList.map (·.inclusion.map (·.proposerIndex)) = [some 1, some 0, some 0] := by
  have hproposers : ((summarize Config.minimal overlapping overlappingCommittees .never).runOn
      .start).1.map (fun summary => summary.statuses.toList.map (·.inclusion.map (·.proposerIndex))) =
        .ok [some 1, some 1, some 0] := rfl
  obtain ⟨summary, h, hnamed⟩ := map_eq_ok_iff.mp hproposers
  have hproposers' : ((summarize Config.minimal (overlapping.withVotes
      overlapping.previousAttestations.reverse []) overlappingCommittees .never).runOn
        .start).1.map (fun summary => summary.statuses.toList.map (·.inclusion.map (·.proposerIndex))) =
          .ok [some 1, some 0, some 0] := rfl
  obtain ⟨summary', h', hnamed'⟩ := map_eq_ok_iff.mp hproposers'
  obtain ⟨-, hboth, -⟩ := votes_in_any_order Config.minimal overlapping overlappingCommittees
    .never .start (List.reverse_perm _) (List.Perm.refl _)
  obtain ⟨hsame, hfastest, hfastest'⟩ := hboth summary summary' h h'
  exact ⟨summary, summary', h, h', hsame, hfastest, hfastest', hnamed, hnamed'⟩

end Beacon
