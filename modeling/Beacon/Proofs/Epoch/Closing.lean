/-
  Closing an epoch evolves the registry.

  The three queues of a summary are applied one after the other.  Whoever is ejected has been
  activated, whoever becomes eligible was not, whoever is activated has been eligible but was not
  activated; and none of the three passes disturbs what the next one relies on.  A pass whose
  loop writes to each record once needs that no index is in its queue twice.
-/
import Beacon.Epoch.Transition
import Beacon.Proofs.Epoch.Ejections
import Beacon.Proofs.Registry.Evolution

namespace Beacon

open Beacon.Action Beacon.State

section

variable {config : Config}

/-! ## The three passes -/

/-- Ejections of validators that have been activated, from a place behind the look-ahead on. -/
theorem ejectAll_evolves {limit : Nat} (indices : List Nat) :
    ∀ {queue : ExitQueue} {s : State},
      (∀ i ∈ indices, ∀ v, s.validators[i]? = some v →
        v.activationEpoch ≤ currentEpoch config s) →
      (currentEpoch config s).toNat + 1 + config.maxSeedLookahead.toNat ≤ queue.last.toNat →
      StaysIn (Evolves config (· ∈ indices)) (ejectAll config limit queue indices) s := by
  induction indices with
  | nil => exact fun _ _ => Evolves.refl _
  | cons index indices ih =>
    intro queue s hjoined hqueue
    have hmore : ∀ i, i ∈ indices → i ∈ index :: indices := fun i => List.mem_cons_of_mem index
    unfold StaysIn
    rw [runOn_ejectAll_cons]
    rcases hv : s.validators[index]? with _ | v
    · exact Evolves.refl s
    by_cases hstay : v.isStaying = true
    · simp only [hstay, if_true]
      rcases hw : withdrawableAfter config queue.last with _ | w
      · exact Evolves.refl s
      have hleave : Evolves config (· ∈ index :: indices) s (s.withExit index queue.last w) :=
        Evolves.editRecord hv (.leave _ _ (hjoined index List.mem_cons_self v hv) hstay hqueue
          (withdrawableAfter_eq_ok_iff.mp hw)) List.mem_cons_self
      rcases hnext : queue.advance limit with _ | next
      · exact hleave
      refine hleave.trans ((ih ?_ ?_).mono hmore)
      · intro i hi v' hv'
        have hkeeps : Keeps Validator.activationEpoch s (s.withExit index queue.last w) :=
          Keeps.editRecord s index fun _ => rfl
        obtain ⟨u, hu, hsame⟩ := hkeeps.getElem? hv'
        rw [hsame]
        exact hjoined i (hmore i hi) u hu
      · -- the place only moves on
        have hplace : next.last.toNat = (queue.place.advance limit).epoch :=
          congrArg Cursor.epoch (ExitQueue.place_of_advance_eq_ok hnext)
        have hle := Cursor.epoch_le_advance queue.place limit
        have hlast : queue.place.epoch = queue.last.toNat := rfl
        rw [currentEpoch_withExit]
        omega
    · simp only [hstay]
      exact (ih (fun i hi => hjoined i (hmore i hi)) hqueue).mono hmore

/-- Eligibility for validators that have none. -/
theorem setEligibility_evolves {next : Epoch} (indices : List Nat) :
    ∀ {s : State}, indices.Nodup →
      (∀ i ∈ indices, ∀ v, s.validators[i]? = some v →
        v.activationEligibilityEpoch = farFutureEpoch) →
      next.toNat = (currentEpoch config s).toNat + 1 →
      StaysIn (Evolves config (· ∈ indices)) (setEligibility next indices) s := by
  induction indices with
  | nil => exact fun _ _ _ => Evolves.refl _
  | cons index indices ih =>
    intro s hnodup hunset hnext
    obtain ⟨hnew, hnodup'⟩ := List.nodup_cons.mp hnodup
    have hfirst : StaysIn (Evolves config (· = index))
        (Action.write (.activationEligibilityEpoch index next)) s :=
      Evolves.write_record rfl fun v hv =>
        .becomeEligible next (hunset index List.mem_cons_self v hv) hnext
    refine Evolves.bind_cons hnew hfirst fun _ t hepoch hothers => ?_
    refine ih hnodup' (fun i hi v hv => ?_) (by rw [hepoch, hnext])
    rw [hothers i hi] at hv
    exact hunset i (List.mem_cons_of_mem index hi) v hv

/-- Activation of validators that have been eligible but were not activated. -/
theorem activateAll_evolves {summary : EpochSummary} {finalized activation : Epoch}
    (indices : List Nat) :
    ∀ {s : State}, indices.Nodup →
      (∀ i ∈ indices, ∀ v, s.validators[i]? = some v → v.activationEpoch = farFutureEpoch ∧
        v.activationEligibilityEpoch ≤ currentEpoch config s) →
      activation.toNat = (currentEpoch config s).toNat + 1 + config.maxSeedLookahead.toNat →
      StaysIn (Evolves config (· ∈ indices)) (activateAll summary finalized activation indices)
        s := by
  induction indices with
  | nil => exact fun _ _ _ => Evolves.refl _
  | cons index indices ih =>
    intro s hnodup hcandidate hactivation
    obtain ⟨hnew, hnodup'⟩ := List.nodup_cons.mp hnodup
    refine Evolves.bind_still rfl fun status _ => ?_
    split
    · exact Evolves.refl s
    have hfirst : StaysIn (Evolves config (· = index))
        (Action.write (.activationEpoch index activation)) s :=
      Evolves.write_record rfl fun v hv =>
        have hv' := hcandidate index List.mem_cons_self v hv
        .activate activation hv'.1 hv'.2 hactivation
    refine Evolves.bind_cons hnew hfirst fun _ t hepoch hothers => ?_
    refine ih hnodup' (fun i hi v hv => ?_) (by rw [hepoch, hactivation])
    rw [hothers i hi] at hv
    rw [hepoch]
    exact hcandidate i (List.mem_cons_of_mem index hi) v hv

/-! ## All of them -/

/-- Applying the queues of a summary of the same state. -/
theorem applyQueues_evolves {s : State} {committees : Committees}
    {votes : RecentEpoch → List PendingAttestation} {summary : EpochSummary}
    (hc : Collect.Collected config s committees s.validators.toList votes summary) :
    StaysIn (Evolves config fun _ => True) (applyQueues config summary) s := by
  have hget : ∀ {i v}, s.validators[i]? = some v → s.validators.toList[i]? = some v := fun h => by
    rw [Array.getElem?_toList, h]
  -- ejections: whoever is active has been activated
  have heject : StaysIn (Evolves config (· ∈ summary.toEject))
      (ejectAll config summary.churnLimit summary.exitQueue summary.toEject) s := by
    refine ejectAll_evolves _ (fun i hi v hv => ?_) hc.exitQueue_later
    have hactive := (hc.of_mem_toEject hi (hget hv)).1
    exact of_decide_eq_true (Bool.and_eq_true_iff.mp hactive).1
  refine Evolves.bind (heject.mono fun _ _ => trivial) fun _ s1 hrun1 => ?_
  have hs1 := heject.of_runOn hrun1
  have hkeeps : Keeps (fun v => (v.activationEligibilityEpoch, v.activationEpoch)) s s1 :=
    (ejectAll_keeps (fun _ _ _ => rfl) config _ _ _ s).of_runOn hrun1
  -- eligibility: the ejections did not touch it
  refine Evolves.bind_still rfl fun next hnext => ?_
  have hnext' := (runOn_ofExcept_eq_ok_iff.mp hnext).1
  rw [orFail_eq_ok_iff, Word.addChecked_eq_some_iff, hc.currentEpoch, ← hs1.currentEpoch_eq]
    at hnext'
  have hset : StaysIn (Evolves config (· ∈ summary.toSetEligibility))
      (setEligibility next summary.toSetEligibility) s1 := by
    refine setEligibility_evolves _ hc.nodup_toSetEligibility (fun i hi v hv => ?_) hnext'
    obtain ⟨u, hu, hsame⟩ := hkeeps.getElem? hv
    exact (congrArg Prod.fst hsame).trans (hc.of_mem_toSetEligibility hi (hget hu))
  refine Evolves.bind (hset.mono fun _ _ => trivial) fun _ s2 hrun2 => ?_
  have hs2 := hset.of_runOn hrun2
  have hepoch := hs2.currentEpoch_eq.trans hs1.currentEpoch_eq
  -- activation: nobody who becomes eligible now is a candidate already
  refine Evolves.bind_still rfl fun finalized _ => ?_
  refine Evolves.bind_still rfl fun activation hactivation => ?_
  have hactivation' := activationExitEpoch_eq_ok_iff.mp (runOn_ofExcept_eq_ok_iff.mp hactivation).1
  rw [hc.currentEpoch, ← hepoch] at hactivation'
  have hactivate : StaysIn (Evolves config
      (· ∈ summary.toMaybeActivate.take summary.churnLimit))
      (activateAll summary finalized activation
        (summary.toMaybeActivate.take summary.churnLimit)) s2 := by
    refine activateAll_evolves _ (hc.nodup_toMaybeActivate.sublist (List.take_sublist _ _))
      (fun i hi v hv => ?_) hactivation'
    have hi' := List.mem_of_mem_take hi
    have hother : i ∉ summary.toSetEligibility := by
      intro hset
      obtain ⟨u, hu, -⟩ := Collect.mem_indicesWhere_iff.mp (hc.toSetEligibility ▸ hset)
      have hfar := hc.of_mem_toSetEligibility hset hu
      have hle := UInt64.le_iff_toNat_le.mp (hc.of_mem_toMaybeActivate hi' hu).2
      have hlater := hc.exitQueue_later
      have hlast := toNat_le_farFutureEpoch summary.exitQueue.last
      rw [hfar] at hle
      omega
    rw [hs2.others i hother] at hv
    obtain ⟨u, hu, hsame⟩ := hkeeps.getElem? hv
    rw [Prod.mk.injEq] at hsame
    rw [hsame.1, hsame.2, hepoch]
    exact hc.of_mem_toMaybeActivate hi' (hget hu)
  exact hactivate.mono fun _ _ => trivial

/-! ## The whole of it -/

/-- Penalties are taken from balances only. -/
theorem chargeSlashed_evolves (summary : EpochSummary) (s : State) :
    StaysIn (Evolves config fun _ => True) (chargeSlashed config summary) s := by
  have hall : ∀ (slashed : Gwei) (indices : List Nat) (table : PenaltyTable) (s : State),
      StaysIn (Evolves config fun _ => True) (chargeAll config summary slashed table indices)
        s := by
    intro slashed indices
    induction indices with
    | nil => exact fun _ => Evolves.refl
    | cons index indices ih =>
      intro table s
      refine Evolves.bind_still rfl fun status _ => ?_
      refine Evolves.bind_still rfl fun penalty _ => ?_
      exact Evolves.bind (debit_evolves index penalty s) fun _ t _ => ih _ t
  unfold chargeSlashed
  split
  · exact Evolves.refl s
  · exact Evolves.bind_still rfl fun slashed _ => hall slashed _ [] s

/-- The state half of a pair evolves. -/
def EvolvesWith (config : Config) {τ : Type} (p q : State × τ) : Prop :=
  Evolves config (fun _ => True) p.1 q.1

theorem EvolvesWith.bind {τ α β : Type} {first : Action (State × τ) α}
    {next : α → Action (State × τ) β} {p : State × τ}
    (hfirst : StaysIn (EvolvesWith config) first p)
    (hnext : ∀ a q, first.runOn p = (.ok a, q) → StaysIn (EvolvesWith config) (next a) q) :
    StaysIn (EvolvesWith config) (first >>= next) p :=
  StaysIn.bind (R := EvolvesWith config) (fun _ _ _ => Evolves.trans) hfirst hnext

theorem EvolvesWith.onFirst {τ α : Type} {action : Action State α} {s : State} {t : τ}
    (h : StaysIn (Evolves config fun _ => True) action s) :
    StaysIn (EvolvesWith config) (Action.onFirst action) (s, t) :=
  StaysIn.snd_onFirst h

/-- What is done to the other half does not matter. -/
theorem EvolvesWith.onSecond {τ α : Type} (action : State → Action τ α) (s : State) (t : τ) :
    StaysIn (EvolvesWith config) (Action.onSecond action) (s, t) :=
  Evolves.refl s

theorem closeEpoch_evolves (committees : Committees) (signal : StopSignal) (s : State)
    (progress : Progress) :
    StaysIn (EvolvesWith config) (closeEpoch config committees signal) (s, progress) := by
  refine EvolvesWith.bind (EvolvesWith.onSecond _ s progress) fun summary ⟨t, p⟩ hrun => ?_
  obtain ⟨hsummary, rfl⟩ := runOn_onSecond_eq_ok_iff.mp hrun
  obtain ⟨vs, votes, hc⟩ := Collect.collected_of_summarize hsummary
  obtain ⟨rfl, -⟩ := hc.of_state
  have hupdate : StaysIn (EvolvesWith config) (updateRegistry config summary signal) (s, p) := by
    refine EvolvesWith.bind (EvolvesWith.onSecond _ s p) fun _ ⟨t, p'⟩ hpoll => ?_
    obtain ⟨-, rfl⟩ := runOn_onSecond_eq_ok_iff.mp hpoll
    exact EvolvesWith.onFirst (applyQueues_evolves hc)
  refine EvolvesWith.bind hupdate fun _ ⟨t, p'⟩ _ => ?_
  refine EvolvesWith.bind (EvolvesWith.onFirst (chargeSlashed_evolves summary t)) fun _ q _ => ?_
  exact Evolves.refl q.1

end

end Beacon
