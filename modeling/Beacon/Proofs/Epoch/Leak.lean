/-
  Rewards and penalties in a leak.

  In a leak each part of a vote either earns its worth or costs as much, and on top of that comes a
  penalty of four parts less a proposer's share.  So three parts that were right and an inclusion
  without delay earn back the whole of it, and everything else earns less.  The reference has all this
  in exact arithmetic; the roundings are the same on both sides, since all amounts are made of the same
  two, the worth of a part (`base`) and the proposer's share of it.

  What a validator gets for votes that it included as a proposer is apart from this.
-/
import Beacon.Proofs.Epoch.Rewards

namespace Beacon

open Beacon.Action

/-! ## What is due in a leak -/

namespace Reference

section

variable {σ : Type} [StateAccess σ] {config : Config} {s : σ} {summary : EpochSummary}
  {status : AttesterStatus}

theorem proposerShare_le_base :
    proposerShare config summary status ≤ base config summary status := Nat.div_le_self _ _

/-- A part of a vote earns its worth or costs it. -/
theorem partReward_add_partPenalty (hleak : isLeaking config s = true)
    (heligible : status.eligible = true) (part : Part) :
    partReward config s summary part status + partPenalty config summary part status =
      base config summary status := by
  unfold partReward partPenalty partValue
  rw [heligible, if_pos hleak]
  cases earns part status with
  | false => exact Nat.zero_add _
  | true => rfl

theorem partPenalty_of_earns {part : Part} (hearns : earns part status = true) :
    partPenalty config summary part status = 0 := by
  unfold partPenalty
  rw [hearns, Bool.not_true, Bool.and_false]
  rfl

theorem partReward_of_not_eligible (heligible : status.eligible = false) (part : Part) :
    partReward config s summary part status = 0 := by
  unfold partReward
  rw [heligible]
  rfl

/-- Who was in no vote has no share either. -/
theorem attesterShare_of_no_source (hsource : status.previous.source = false) :
    attesterShare config summary status = 0 := by
  unfold attesterShare earns Votes.got
  rw [hsource]
  rfl

theorem attesterShare_le : attesterShare config summary status ≤
    base config summary status - proposerShare config summary status := by
  unfold attesterShare
  split
  · split
    · exact Nat.div_le_self _ _
    · exact Nat.zero_le _
  · exact Nat.zero_le _

theorem le_leakPenalty (hleak : isLeaking config s = true) (heligible : status.eligible = true) :
    4 * base config summary status - proposerShare config summary status ≤
      leakPenalty config s summary status := by
  unfold leakPenalty
  rw [heligible, hleak]
  exact Nat.le_add_right _ _

theorem leakPenalty_of_earns (hleak : isLeaking config s = true)
    (heligible : status.eligible = true) (hearns : earns .target status = true) :
    leakPenalty config s summary status =
      4 * base config summary status - proposerShare config summary status := by
  unfold leakPenalty
  rw [heligible, hleak, hearns]
  rfl

end

end Reference

/-- All parts of the vote are right and it was included without delay. -/
structure AttesterStatus.IsPerfect (status : AttesterStatus) : Prop where
  unslashed : status.unslashed = true
  got : ∀ part, status.previous.got part = true
  included : ∃ inclusion, status.inclusion = some inclusion ∧ inclusion.delay.val = 1

section

variable {status : AttesterStatus}

theorem AttesterStatus.IsPerfect.earns (h : status.IsPerfect) (part : Part) :
    Reference.earns part status = true := by
  unfold Reference.earns
  rw [h.got part, h.unslashed]
  rfl

theorem AttesterStatus.IsPerfect.attesterShare_eq {config : Config} {summary : EpochSummary}
    (h : status.IsPerfect) : Reference.attesterShare config summary status =
      Reference.base config summary status - Reference.proposerShare config summary status := by
  obtain ⟨inclusion, hinclusion, hdelay⟩ := h.included
  unfold Reference.attesterShare
  rw [h.earns .source, if_pos rfl, hinclusion]
  show _ / inclusion.delay.val.toNat = _
  rw [hdelay]
  exact Nat.div_one _

end

/-! ## What is paid in a leak -/

namespace Deltas

/-- What a validator gets for the parts of its vote. -/
def partRewards (deltas : Deltas) (i : Nat) : Nat :=
  amountAt deltas.source.rewards i + amountAt deltas.target.rewards i +
    amountAt deltas.head.rewards i

/-- All that a validator gets, or all that it loses. -/
def total (deltas : Deltas) (side : Side) (i : Nat) : Nat :=
  amountAt (deltas.source.list side) i + amountAt (deltas.target.list side) i +
    amountAt (deltas.head.list side) i + amountAt (deltas.inclusionDelay.list side) i +
    amountAt (deltas.inactivity.list side) i

end Deltas

open Reference

section

variable {σ : Type} [StateAccess σ] {config : Config} {s : σ} {summary : EpochSummary}
  {deltas : Deltas} {i : Nat} {status : AttesterStatus}

theorem partRewards_eq (h : summary.deltas config s = .ok deltas)
    (hi : summary.statuses[i]? = some status) :
    deltas.partRewards i = partReward config s summary .source status +
      partReward config s summary .target status + partReward config s summary .head status := by
  have hdue : ∀ part, amountAt (deltas.family (.vote part)).rewards i =
      partReward config s summary part status :=
    fun part => (amountAt_deltas h (.vote part) .rewards).2 i status hi
  unfold Deltas.partRewards
  rw [← hdue, ← hdue, ← hdue]
  rfl

theorem inclusionReward_eq (h : summary.deltas config s = .ok deltas)
    (hi : summary.statuses[i]? = some status) :
    amountAt deltas.inclusionDelay.rewards i =
      attesterShare config summary status + proposerRewards config summary i :=
  (amountAt_deltas h .inclusionDelay .rewards).2 i status hi

theorem totalRewards_eq (h : summary.deltas config s = .ok deltas)
    (hi : summary.statuses[i]? = some status) :
    deltas.total .rewards i = deltas.partRewards i + attesterShare config summary status +
      proposerRewards config summary i := by
  have hinactivity : amountAt deltas.inactivity.rewards i = 0 :=
    (amountAt_deltas h .inactivity .rewards).2 i status hi
  show deltas.partRewards i + amountAt deltas.inclusionDelay.rewards i +
    amountAt deltas.inactivity.rewards i = _
  rw [hinactivity, inclusionReward_eq h hi]
  omega

theorem totalPenalties_eq (h : summary.deltas config s = .ok deltas)
    (hi : summary.statuses[i]? = some status) :
    deltas.total .penalties i = partPenalty config summary .source status +
      partPenalty config summary .target status + partPenalty config summary .head status +
      leakPenalty config s summary status := by
  have hdue : ∀ part, amountAt (deltas.family (.vote part)).penalties i =
      partPenalty config summary part status :=
    fun part => (amountAt_deltas h (.vote part) .penalties).2 i status hi
  have hinclusion : amountAt deltas.inclusionDelay.penalties i = 0 :=
    (amountAt_deltas h .inclusionDelay .penalties).2 i status hi
  have hinactivity : amountAt deltas.inactivity.penalties i = leakPenalty config s summary status :=
    (amountAt_deltas h .inactivity .penalties).2 i status hi
  show amountAt (deltas.family (.vote .source)).penalties i +
    amountAt (deltas.family (.vote .target)).penalties i +
    amountAt (deltas.family (.vote .head)).penalties i +
    amountAt deltas.inclusionDelay.penalties i + amountAt deltas.inactivity.penalties i = _
  rw [hdue, hdue, hdue, hinclusion, hinactivity, Nat.add_zero]

/-- Whatever the vote, it earns no more than is taken. -/
theorem partRewards_le_totalPenalties (h : summary.deltas config s = .ok deltas)
    (hleak : isLeaking config s = true) (hi : summary.statuses[i]? = some status)
    (heligible : status.eligible = true) :
    deltas.partRewards i + attesterShare config summary status ≤ deltas.total .penalties i := by
  rw [partRewards_eq h hi, totalPenalties_eq h hi]
  have hpart : ∀ part, partReward config s summary part status +
      partPenalty config summary part status = base config summary status :=
    partReward_add_partPenalty hleak heligible
  have hsource := hpart .source
  have htarget := hpart .target
  have hhead := hpart .head
  have hproposer : proposerShare config summary status ≤ base config summary status :=
    proposerShare_le_base
  have hattester : attesterShare config summary status ≤
    base config summary status - proposerShare config summary status := attesterShare_le
  have hleakPenalty : 4 * base config summary status - proposerShare config summary status ≤
    leakPenalty config s summary status := le_leakPenalty hleak heligible
  omega

/-- A perfect vote earns just what is taken. -/
theorem partRewards_eq_totalPenalties (h : summary.deltas config s = .ok deltas)
    (hleak : isLeaking config s = true) (hi : summary.statuses[i]? = some status)
    (heligible : status.eligible = true) (hperfect : status.IsPerfect) :
    deltas.partRewards i + attesterShare config summary status = deltas.total .penalties i := by
  have hreward : ∀ part, partReward config s summary part status = base config summary status := by
    intro part
    have hpart : partReward config s summary part status +
        partPenalty config summary part status = base config summary status :=
      partReward_add_partPenalty hleak heligible part
    rwa [partPenalty_of_earns (hperfect.earns part), Nat.add_zero] at hpart
  rw [partRewards_eq h hi, totalPenalties_eq h hi, hreward, hreward, hreward,
    partPenalty_of_earns (hperfect.earns .source), partPenalty_of_earns (hperfect.earns .target),
    partPenalty_of_earns (hperfect.earns .head), hperfect.attesterShare_eq,
    leakPenalty_of_earns hleak heligible (hperfect.earns .target)]
  have hproposer : proposerShare config summary status ≤ base config summary status :=
    proposerShare_le_base
  omega

end

/-- In a leak nobody gains but by including votes, and a perfect vote costs nothing.  The reward for
    inclusions has two shares, of which that of the attester is set against the penalties. -/
theorem rewards_cancel_in_leak {σ τ : Type} [StateAccess σ] [StateAccess τ] {config : Config} {s : σ}
    {s' : τ} {committees : Committees} {signal : StopSignal} {summary : EpochSummary}
    {p p' : Progress} {deltas : Deltas}
    (hsummary : (Collect.summarize config s committees signal).runOn p = (.ok summary, p'))
    (hdeltas : summary.deltas config s' = .ok deltas) (hleak : isLeaking config s' = true) :
    ∀ i < (StateAccess.validators s).length, ∃ status, summary.statuses[i]? = some status ∧
      amountAt deltas.inclusionDelay.rewards i =
        attesterShare config summary status + proposerRewards config summary i ∧
      (status.eligible = true →
        deltas.partRewards i + attesterShare config summary status ≤ deltas.total .penalties i) ∧
      (status.eligible = true → status.IsPerfect →
        deltas.partRewards i + attesterShare config summary status = deltas.total .penalties i) ∧
      (status.eligible = true ∨ status.previous.source = false →
        deltas.total .rewards i ≤
          deltas.total .penalties i + proposerRewards config summary i) := by
  obtain ⟨vs, votes, hc⟩ := Collect.collected_of_summarize hsummary
  intro i hlt
  have hlt' : i < summary.statuses.size := by
    rwa [hc.validators, List.length_map, ← hc.statuses.size] at hlt
  obtain ⟨status, hi⟩ : ∃ status, summary.statuses[i]? = some status :=
    ⟨_, Array.getElem?_eq_getElem hlt'⟩
  have hle := partRewards_le_totalPenalties hdeltas hleak hi
  refine ⟨status, hi, inclusionReward_eq hdeltas hi, hle,
    partRewards_eq_totalPenalties hdeltas hleak hi, fun hvoter => ?_⟩
  rw [totalRewards_eq hdeltas hi]
  by_cases heligible : status.eligible = true
  · exact Nat.add_le_add_right (hle heligible) _
  · have hsource := hvoter.resolve_left heligible
    have hnot := Bool.eq_false_iff.mpr heligible
    rw [partRewards_eq hdeltas hi, partReward_of_not_eligible hnot, partReward_of_not_eligible hnot,
      partReward_of_not_eligible hnot, attesterShare_of_no_source hsource]
    omega

/-- In the leak two of the three validators voted at once, and for the right target and head.  The
    second of them included the vote. -/
def promptLeak : State :=
  { overlappingLeak with
    previousAttestations := [
      { aggregationBits := [true, true, true],
        data := { (default : AttestationData) with slot := 9 },
        inclusionDelay := 1, proposerIndex := 1 }] }

/-- The second validator gets back what it loses. -/
theorem rewards_cancel_in_leak_prompt : ∃ summary p' deltas status,
    (Collect.summarize Config.minimal promptLeak Collect.overlappingCommittees .never).runOn .start =
      (.ok summary, p') ∧
    summary.deltas Config.minimal promptLeak = .ok deltas ∧
    isLeaking Config.minimal promptLeak = true ∧
    summary.statuses[1]? = some status ∧ status.eligible = true ∧ status.IsPerfect ∧
    deltas.partRewards 1 + attesterShare Config.minimal summary status =
      deltas.total .penalties 1 := by
  have hok : ((Collect.summarize Config.minimal promptLeak Collect.overlappingCommittees .never
      >>= fun summary => Action.ofExcept (summary.deltas Config.minimal promptLeak)).runOn
        .start).1.isOk = true := by decide +kernel
  have hvote : ((Collect.summarize Config.minimal promptLeak Collect.overlappingCommittees
      .never).runOn .start).1.map (fun summary => summary.statuses[1]?.map fun status =>
        (status.eligible, status.unslashed, status.previous, status.inclusion)) =
      .ok (some (true, true, ⟨true, true, true⟩, some ⟨Divisor.one, 1⟩)) := rfl
  obtain ⟨deltas, p', hrun⟩ := exists_of_isOk hok
  obtain ⟨summary, p1, hsummary, h⟩ := runOn_bind_eq_ok_iff.mp hrun
  obtain ⟨hdeltas, -⟩ := runOn_ofExcept_eq_ok_iff.mp h
  obtain ⟨status, hi, -, -, hequal, -⟩ := rewards_cancel_in_leak hsummary hdeltas rfl 1 (by decide)
  rw [hsummary, map_eq_ok_iff] at hvote
  obtain ⟨_, hsame, hvote⟩ := hvote
  cases hsame
  rw [hi, Option.map_some, Option.some.injEq, Prod.mk.injEq, Prod.mk.injEq, Prod.mk.injEq] at hvote
  obtain ⟨heligible, hunslashed, hprevious, hinclusion⟩ := hvote
  have hperfect : status.IsPerfect := {
    unslashed := hunslashed
    got := fun part => by
      rw [hprevious]
      cases part <;> rfl
    included := ⟨_, hinclusion, rfl⟩ }
  exact ⟨summary, p1, deltas, status, hsummary, hdeltas, rfl, hi, heligible, hperfect,
    hequal heligible hperfect⟩

end Beacon
