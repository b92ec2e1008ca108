/-
  The account of an epoch against its end.

  `accountForEpoch` computes the rewards and penalties for votes after the registry and the
  balances have changed, and yet they are those of the state before.  For besides the summary they
  depend on two things only: the slot and the finalized checkpoint (`EpochSummary.deltas_congr`).
  Nothing that happens at the end of an epoch touches either; that is the frame of
  `State.Evolves`.
-/
import Beacon.Proofs.Epoch.Charges

namespace Beacon

open Beacon.Action Beacon.State

section

variable {config : Config} {committees : Committees} {signal : StopSignal}

/-- The account runs the same parts as the end of an epoch, and then computes the deltas. -/
theorem runOn_accountForEpoch (p : State × Progress) :
    (accountForEpoch config committees signal).runOn p =
      (((closeEpoch config committees signal).runOn p).1 >>= fun (summary, penalties) =>
          (summary.deltas config ((closeEpoch config committees signal).runOn p).2.1).map
            fun deltas => ⟨summary, deltas, penalties⟩,
        ((closeEpoch config committees signal).runOn p).2) := by
  unfold accountForEpoch
  rw [runOn_bind]
  rcases (closeEpoch config committees signal).runOn p with ⟨_ | ⟨summary, _⟩, t, q⟩
  · rfl
  · dsimp only
    rw [runOn_bind, runOn_onFirst, runOn_query]
    rcases hdeltas : summary.deltas config t with _ | deltas
    · show _ = ((summary.deltas config t).map _, t, q)
      rw [hdeltas]
      rfl
    · show _ = ((summary.deltas config t).map _, t, q)
      rw [hdeltas]
      rfl

/-- Rewards and penalties for votes do not see what becomes of records and balances. -/
theorem EpochSummary.deltas_congr (summary : EpochSummary) {touched : Nat → Prop} {s t : State}
    (h : Evolves config touched s t) : summary.deltas config t = summary.deltas config s := by
  rw [h.frame]
  rfl

/-- The account and the end of an epoch leave the same behind.  The account fails just if the end
    does or the deltas cannot be computed.  It has the summary of the end, the deltas of that
    summary for the state before as well as after, and under just the indices that were due the
    penalties that were taken. -/
theorem accountForEpoch_agrees {ended : Except Failure EpochSummary}
    {accounted : Except Failure EpochAccount} {s t u : State} {progress p q : Progress}
    (hended : (endEpoch config committees signal).runOn (s, progress) = (ended, t, p))
    (haccounted : (accountForEpoch config committees signal).runOn (s, progress) =
      (accounted, u, q)) :
    u = t ∧ q = p ∧
    (∀ summary : EpochSummary, summary.deltas config t = summary.deltas config s) ∧
    (∀ failure, accounted = .error failure ↔ ended = .error failure ∨
      ∃ summary, ended = .ok summary ∧ summary.deltas config s = .error failure) ∧
    ∀ account, accounted = .ok account →
      ended = .ok account.summary ∧
      account.summary.deltas config s = .ok account.deltas ∧
      account.summary.deltas config t = .ok account.deltas ∧
      account.penalties.map Prod.fst = account.summary.toSlash ∧
      account.summary.toSlash.Nodup ∧
      Charged account.penalties s.balances t.balances := by
  have hevolves : EvolvesWith config (s, progress)
      ((closeEpoch config committees signal).runOn (s, progress)).2 :=
    closeEpoch_evolves committees signal s progress
  rw [runOn_endEpoch] at hended
  rw [runOn_accountForEpoch] at haccounted
  rcases hclose : (closeEpoch config committees signal).runOn (s, progress) with
    ⟨closed, t', p'⟩
  rw [hclose] at hended haccounted hevolves
  obtain ⟨rfl, hstate⟩ := Prod.mk.inj hended
  obtain ⟨rfl, hstate'⟩ := Prod.mk.inj haccounted
  cases hstate
  cases hstate'
  have hsame : ∀ summary : EpochSummary, summary.deltas config t = summary.deltas config s :=
    fun summary => summary.deltas_congr hevolves
  refine ⟨rfl, rfl, hsame, fun failure => ?_, fun account haccount => ?_⟩
  · dsimp only
    simp only [hsame]
    rw [bind_eq_error_iff, map_eq_error_iff]
    constructor
    · rintro (h | ⟨⟨summary, penalties⟩, h, hdeltas⟩)
      · exact Or.inl h
      · exact Or.inr ⟨summary, map_eq_ok_iff.mpr ⟨_, h, rfl⟩, map_eq_error_iff.mp hdeltas⟩
    · rintro (h | ⟨summary, h, hdeltas⟩)
      · exact Or.inl h
      · obtain ⟨⟨_, penalties⟩, hclosed, rfl⟩ := map_eq_ok_iff.mp h
        exact Or.inr ⟨_, hclosed, map_eq_error_iff.mpr hdeltas⟩
  · obtain ⟨⟨summary, penalties⟩, hclosed, hrest⟩ := bind_eq_ok_iff.mp haccount
    obtain ⟨deltas, hdeltas, rfl⟩ := map_eq_ok_iff.mp hrest
    obtain rfl : closed = .ok (summary, penalties) := hclosed
    obtain ⟨hincreasing, hkeys, hcharged, -⟩ := charged_of_closeEpoch hclose
    exact ⟨rfl, (hsame summary).symm.trans hdeltas, hdeltas, hkeys,
      hincreasing.imp Nat.ne_of_lt, hcharged⟩

end

/-- The votes with overlapping committees, and a fourth validator who has too little stake. -/
def ejecting : State :=
  { Collect.overlapping with
    validators := Collect.overlapping.validators.push
      { Collect.steady with effectiveBalance := 16000000000 }
    balances := Collect.overlapping.balances.push 16000000000 }

/-- The third validator pays, the fourth is ejected, and the deltas are those of before. -/
theorem accountForEpoch_agrees_ejecting : ∃ account t p,
    (endEpoch Config.minimal Collect.overlappingCommittees .never).runOn (ejecting, .start) =
      (.ok account.summary, t, p) ∧
    (accountForEpoch Config.minimal Collect.overlappingCommittees .never).runOn
      (ejecting, .start) = (.ok account, t, p) ∧
    account.summary.toSlash = [2] ∧ account.summary.toEject = [3] ∧
    account.summary.deltas Config.minimal ejecting = .ok account.deltas ∧
    account.summary.deltas Config.minimal t = .ok account.deltas ∧
    account.penalties.map Prod.fst = account.summary.toSlash ∧
    Charged account.penalties ejecting.balances t.balances := by
  have hok : ((accountForEpoch Config.minimal Collect.overlappingCommittees .never).runOn
      (ejecting, .start)).1.isOk = true := by decide +kernel
  have hqueues : (((accountForEpoch Config.minimal Collect.overlappingCommittees .never).runOn
      (ejecting, .start)).1.toOption.map fun account =>
        (account.summary.toSlash, account.summary.toEject)) = some ([2], [3]) := by
    decide +kernel
  obtain ⟨account, ⟨u, q⟩, haccount⟩ := exists_of_isOk hok
  rw [haccount] at hqueues
  obtain ⟨rfl, rfl, -, -, hall⟩ := accountForEpoch_agrees rfl haccount
  obtain ⟨hended, hbefore, hafter, hkeys, -, hcharged⟩ := hall account rfl
  have hqueues' := Option.some.inj hqueues
  rw [Prod.mk.injEq] at hqueues'
  exact ⟨account, _, _, Prod.ext hended rfl, haccount, hqueues'.1, hqueues'.2, hbefore, hafter,
    hkeys, hcharged⟩

end Beacon
