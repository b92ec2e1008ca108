/-
  Applying the queues of a summary again.

  Each of the three passes finds nothing left to do where it has succeeded before (`Rests`):
    * whoever was to be ejected has an exit epoch by then, and is passed over.  This is where the
      delay until withdrawal matters: an exit epoch with a withdrawable epoch behind it is not the
      one that stands for "not set";
    * eligibility and activation are written once more, but as they stand.
  No pass undoes what an earlier one left behind, so this is true of all of them together.

  The second pass over the ejections starts from the same place in the queue as the first, which
  would pull validators forward if they were not passed over.  Passing over whoever is leaving
  already is also why no exit is ever assigned twice, wherever a pass fails (`KeepsLeaving`).
-/
import Beacon.Proofs.Epoch.Activations
import Beacon.Proofs.Epoch.Polls

namespace Beacon

open Beacon.Action Beacon.State

/-! ## Nothing left to do -/

/-- The action succeeds and leaves the value as it is. -/
def Action.Rests {σ : Type} (action : Action σ Unit) (s : σ) : Prop :=
  action.runOn s = (.ok (), s)

theorem Action.Rests.bind {σ : Type} {first : Action σ Unit} {next : Unit → Action σ Unit} {s : σ}
    (hfirst : Rests first s) (hnext : Rests (next ()) s) : Rests (first >>= next) s :=
  runOn_bind_eq_ok_iff.mpr ⟨(), s, hfirst, hnext⟩

theorem Action.Rests.ofExcept_bind {σ α : Type} {result : Except Failure α} {a : α}
    {next : α → Action σ Unit} {s : σ} (h : result = .ok a) (hnext : Rests (next a) s) :
    Rests (Action.ofExcept result >>= next) s :=
  runOn_bind_eq_ok_iff.mpr ⟨a, s, runOn_ofExcept_eq_ok_iff.mpr ⟨h, rfl⟩, hnext⟩

/-- There is a record under this index, and this aspect of it is `a`. -/
def State.HasAspect {α : Type} (f : Validator → α) (a : α) (s : State) (i : Nat) : Prop :=
  (s.validators[i]?).map f = some a

/-- Where this aspect of a record is `a`, it stays so. -/
def State.Preserves {α : Type} (f : Validator → α) (a : α) (s t : State) : Prop :=
  ∀ i : Nat, HasAspect f a s i → HasAspect f a t i

namespace State.Preserves

variable {α : Type} {f : Validator → α} {a : α}

theorem refl (s : State) : Preserves f a s s := fun _ h => h

theorem trans {s t u : State} (h : Preserves f a s t) (h' : Preserves f a t u) :
    Preserves f a s u := fun i hi => h' i (h i hi)

theorem of_keeps {s t : State} (h : Keeps f s t) : Preserves f a s t :=
  fun i hi => (h i).trans hi

/-- A write that makes the aspect what it should be does no harm. -/
theorem write {w : Write} {index : Nat} {change : Validator → Validator}
    {s : State} (hw : w.record? = some (index, change)) (hchange : ∀ v, f (change v) = a) :
    StaysIn (Preserves f a) (Action.write w) s := by
  show Preserves f a s (StateAccess.write w s).2
  rw [write_record hw]
  split
  · intro i hi
    obtain ⟨v, hv, -⟩ := Option.map_eq_some_iff.mp hi
    unfold HasAspect at hi ⊢
    rw [getElem?_editRecord]
    split
    · rw [hv, Option.map_some, Option.map_some, hchange]
    · exact hi
  · exact refl s

theorem bind {β γ : Type} {first : Action State β} {next : β → Action State γ} {s : State}
    (hfirst : StaysIn (Preserves f a) first s)
    (hnext : ∀ b t, first.runOn s = (.ok b, t) → StaysIn (Preserves f a) (next b) t) :
    StaysIn (Preserves f a) (first >>= next) s :=
  StaysIn.bind (R := Preserves f a) (fun _ _ _ => trans) hfirst hnext

theorem bind_still {β γ : Type} {first : Action State β} {next : β → Action State γ} {s : State}
    (hstill : (first.runOn s).2 = s)
    (hnext : ∀ b, first.runOn s = (.ok b, s) → StaysIn (Preserves f a) (next b) s) :
    StaysIn (Preserves f a) (first >>= next) s :=
  StaysIn.bind_still (R := Preserves f a) refl hstill hnext

end State.Preserves

theorem State.editRecord_eq_self {s : State} {index : Nat} {v : Validator}
    {change : Validator → Validator} (hv : s.validators[index]? = some v) (hsame : change v = v) :
    s.editRecord index change = s := by
  have hrecords : s.validators.modify index change = s.validators := by
    apply Array.ext_getElem?
    intro i
    rw [Array.getElem?_modify]
    split
    · next hi => rw [← hi, hv, Option.map_some, hsame]
    · rfl
  unfold editRecord
  rw [hrecords]

/-- Writing what stands there changes nothing. -/
theorem State.rests_write {w : Write} {index : Nat} {change : Validator → Validator}
    (hw : w.record? = some (index, change)) {s : State} {v : Validator}
    (hv : s.validators[index]? = some v) (hsame : change v = v) : Rests (Action.write w) s := by
  unfold Rests
  rw [runOn_write_record hw hv, editRecord_eq_self hv hsame]

/-- A write that succeeds leaves the record as it makes it. -/
theorem State.hasAspect_of_write {α : Type} {f : Validator → α} {a : α} {w : Write} {index : Nat}
    {change : Validator → Validator} {s t : State} (h : (Action.write w).runOn s = (.ok (), t))
    (hw : w.record? = some (index, change)) (hchange : ∀ v, f (change v) = a) :
    HasAspect f a t index := by
  rcases hv : s.validators[index]? with _ | v
  · rw [runOn_write_record_outside hw hv] at h
    nomatch h
  · rw [runOn_write_record hw hv] at h
    cases h
    unfold HasAspect
    rw [getElem?_editRecord_self hv, Option.map_some, hchange]

/-! ## Who is leaving already -/

/-- Whoever has an exit epoch keeps it, and the withdrawable epoch with it. -/
def State.KeepsLeaving (s t : State) : Prop :=
  ∀ (i : Nat) v, s.validators[i]? = some v → v.exitEpoch ≠ farFutureEpoch →
    t.exitTimes i = some (v.exitEpoch, v.withdrawableEpoch)

namespace State.KeepsLeaving

theorem of_sameExits {s t : State} (h : SameExits s t) : KeepsLeaving s t := by
  intro i v hv _
  have hsame := h i
  rw [hv] at hsame
  exact hsame

theorem refl (s : State) : KeepsLeaving s s := of_sameExits (Keeps.refl s)

theorem trans {s t u : State} (h : KeepsLeaving s t) (h' : KeepsLeaving t u) :
    KeepsLeaving s u := by
  intro i v hv hleaving
  obtain ⟨w, hw, htimes⟩ := Option.map_eq_some_iff.mp (h i v hv hleaving)
  rw [Prod.mk.injEq] at htimes
  rw [← htimes.1, ← htimes.2]
  exact h' i w hw (htimes.1 ▸ hleaving)

/-- One who stays is put into the queue; the others are as before. -/
theorem withExit {s : State} {index : Nat} {v : Validator} (hv : s.validators[index]? = some v)
    (hstay : v.isStaying = true) (exit w : Epoch) : KeepsLeaving s (s.withExit index exit w) := by
  intro i u hu hleaving
  have hne : index ≠ i := fun hi => by
    rw [← hi, hv] at hu
    cases hu
    exact hleaving (Validator.isStaying_iff.mp hstay)
  rw [exitTimes_withExit_ne hne]
  exact congrArg (Option.map _) hu

theorem preserves {s t : State} (h : KeepsLeaving s t) :
    Preserves Validator.isStaying false s t := by
  intro i hi
  obtain ⟨v, hv, hleaving⟩ := Option.map_eq_some_iff.mp hi
  have htimes := h i v hv (Validator.isStaying_eq_false_iff.mp hleaving)
  obtain ⟨w, hw, hsame⟩ := Option.map_eq_some_iff.mp htimes
  have hexit : w.exitEpoch = v.exitEpoch := congrArg Prod.fst hsame
  unfold HasAspect
  rw [hw, Option.map_some, ← hleaving]
  exact congrArg some (congrArg (· == farFutureEpoch) hexit)

theorem bind {α β : Type} {first : Action State α} {next : α → Action State β} {s : State}
    (hfirst : StaysIn KeepsLeaving first s)
    (hnext : ∀ a t, first.runOn s = (.ok a, t) → StaysIn KeepsLeaving (next a) t) :
    StaysIn KeepsLeaving (first >>= next) s :=
  StaysIn.bind (R := KeepsLeaving) (fun _ _ _ => trans) hfirst hnext

theorem bind_still {α β : Type} {first : Action State α} {next : α → Action State β} {s : State}
    (hstill : (first.runOn s).2 = s)
    (hnext : ∀ a, first.runOn s = (.ok a, s) → StaysIn KeepsLeaving (next a) s) :
    StaysIn KeepsLeaving (first >>= next) s :=
  StaysIn.bind_still (R := KeepsLeaving) refl hstill hnext

end State.KeepsLeaving

/-! ## The three passes -/

section

variable {config : Config}

theorem ejectAll_keepsLeaving (limit : Nat) (indices : List Nat) :
    ∀ (queue : ExitQueue) (s : State),
      StaysIn KeepsLeaving (ejectAll config limit queue indices) s := by
  induction indices with
  | nil => exact fun _ => KeepsLeaving.refl
  | cons index indices ih =>
    intro queue s
    unfold StaysIn
    rw [runOn_ejectAll_cons]
    rcases hv : s.validators[index]? with _ | v
    · exact KeepsLeaving.refl s
    by_cases hstay : v.isStaying = true
    · simp only [hstay, if_true]
      rcases withdrawableAfter config queue.last with _ | w
      · exact KeepsLeaving.refl s
      have hexit := KeepsLeaving.withExit hv hstay queue.last w
      rcases queue.advance limit with _ | next
      · exact hexit
      · exact hexit.trans (ih next _)
    · simp only [hstay]
      exact ih queue s

/-- An epoch that can be put off is not the last one there is. -/
theorem ne_farFutureEpoch_of_withdrawableAfter {exit w : Epoch}
    (hdelay : 0 < config.minValidatorWithdrawabilityDelay)
    (h : withdrawableAfter config exit = .ok w) : exit ≠ farFutureEpoch := by
  rintro rfl
  have hsum := withdrawableAfter_eq_ok_iff.mp h
  have hle := toNat_le_farFutureEpoch w
  rw [UInt64.lt_iff_toNat_lt] at hdelay
  change 0 < config.minValidatorWithdrawabilityDelay.toNat at hdelay
  omega

/-- After ejections that succeed, all who were to be ejected are leaving. -/
theorem leaving_of_ejectAll (hdelay : 0 < config.minValidatorWithdrawabilityDelay) {limit : Nat}
    (indices : List Nat) :
    ∀ {queue : ExitQueue} {s t : State},
      (ejectAll config limit queue indices).runOn s = (.ok (), t) →
      ∀ i ∈ indices, HasAspect Validator.isStaying false t i := by
  induction indices with
  | nil => exact fun _ i hi => absurd hi List.not_mem_nil
  | cons index indices ih =>
    intro queue s t h i hi
    rw [runOn_ejectAll_cons] at h
    rcases hv : s.validators[index]? with _ | v
    · rw [hv] at h
      nomatch h
    rw [hv] at h
    -- the first is leaving before the others are looked at, and goes on to leave
    suffices hsplit : ∃ (next : ExitQueue) (u : State),
        HasAspect Validator.isStaying false u index ∧
          (ejectAll config limit next indices).runOn u = (.ok (), t) by
      obtain ⟨next, u, hleaving, hrest⟩ := hsplit
      rcases List.mem_cons.mp hi with rfl | hi
      · exact ((ejectAll_keepsLeaving limit indices next u).of_runOn hrest).preserves _ hleaving
      · exact ih hrest i hi
    by_cases hstay : v.isStaying = true
    · simp only [hstay, if_true] at h
      rcases hw : withdrawableAfter config queue.last with _ | w
      · rw [hw] at h
        nomatch h
      rcases hnext : queue.advance limit with _ | next
      · rw [hw, hnext] at h
        nomatch h
      rw [hw, hnext] at h
      refine ⟨next, _, ?_, h⟩
      unfold HasAspect withExit
      rw [getElem?_editRecord_self hv, Option.map_some]
      exact congrArg some (Validator.isStaying_eq_false_iff.mpr
        (ne_farFutureEpoch_of_withdrawableAfter hdelay hw))
    · simp only [hstay] at h
      refine ⟨queue, s, ?_, h⟩
      unfold HasAspect
      rw [hv, Option.map_some, Bool.eq_false_iff.mpr hstay]

/-- Where all are leaving, nobody is ejected. -/
theorem ejectAll_rests (limit : Nat) (indices : List Nat) (queue : ExitQueue) {s : State}
    (h : ∀ i ∈ indices, HasAspect Validator.isStaying false s i) :
    Rests (ejectAll config limit queue indices) s := by
  induction indices with
  | nil => rfl
  | cons index indices ih =>
    obtain ⟨v, hv, hstay⟩ := Option.map_eq_some_iff.mp (h index List.mem_cons_self)
    unfold Rests
    rw [runOn_ejectAll_cons, hv]
    simp only [hstay]
    exact ih fun i hi => h i (List.mem_cons_of_mem index hi)

theorem setEligibility_preserves (epoch : Epoch) (indices : List Nat) :
    ∀ s : State, StaysIn (Preserves Validator.activationEligibilityEpoch epoch)
      (setEligibility epoch indices) s := by
  induction indices with
  | nil => exact Preserves.refl
  | cons index indices ih =>
    intro s
    have hwrite : StaysIn (Preserves Validator.activationEligibilityEpoch epoch)
        (Action.write (.activationEligibilityEpoch index epoch)) s :=
      Preserves.write rfl fun _ => rfl
    exact Preserves.bind hwrite fun _ t _ => ih t

/-- After eligibility has been set, all who were to be eligible are, from that epoch on. -/
theorem eligible_of_setEligibility {epoch : Epoch} (indices : List Nat) :
    ∀ {s t : State}, (setEligibility epoch indices).runOn s = (.ok (), t) →
      ∀ i ∈ indices, HasAspect Validator.activationEligibilityEpoch epoch t i := by
  induction indices with
  | nil => exact fun _ i hi => absurd hi List.not_mem_nil
  | cons index indices ih =>
    intro s t h i hi
    obtain ⟨_, u, hwrite, hrest⟩ := runOn_bind_eq_ok_iff.mp h
    rcases List.mem_cons.mp hi with rfl | hi
    · have hset : HasAspect Validator.activationEligibilityEpoch epoch u i :=
        hasAspect_of_write hwrite rfl fun _ => rfl
      exact (setEligibility_preserves epoch indices u).of_runOn hrest _ hset
    · exact ih hrest i hi

/-- Where all have this eligibility, it is set to what it is. -/
theorem setEligibility_rests {epoch : Epoch} (indices : List Nat) {s : State}
    (h : ∀ i ∈ indices, HasAspect Validator.activationEligibilityEpoch epoch s i) :
    Rests (setEligibility epoch indices) s := by
  induction indices with
  | nil => rfl
  | cons index indices ih =>
    obtain ⟨v, hv, rfl⟩ := Option.map_eq_some_iff.mp (h index List.mem_cons_self)
    have hwrite := rests_write (w := .activationEligibilityEpoch index v.activationEligibilityEpoch)
      rfl hv rfl
    exact hwrite.bind (ih fun i hi => h i (List.mem_cons_of_mem index hi))

theorem activateAll_preserves (summary : EpochSummary) (finalized activation : Epoch)
    (indices : List Nat) :
    ∀ s : State, StaysIn (Preserves Validator.activationEpoch activation)
      (activateAll summary finalized activation indices) s := by
  induction indices with
  | nil => exact Preserves.refl
  | cons index indices ih =>
    intro s
    refine Preserves.bind_still rfl fun status _ => ?_
    split
    · exact Preserves.refl s
    · have hwrite : StaysIn (Preserves Validator.activationEpoch activation)
          (Action.write (.activationEpoch index activation)) s :=
        Preserves.write rfl fun _ => rfl
      exact Preserves.bind hwrite fun _ t _ => ih t

/-- Where activations have succeeded, they are what they are made again.  The statuses tell how far
    to go, and they do not change. -/
theorem rests_of_activateAll {summary : EpochSummary} {finalized activation : Epoch}
    (indices : List Nat) :
    ∀ {s t : State}, (activateAll summary finalized activation indices).runOn s = (.ok (), t) →
      Rests (activateAll summary finalized activation indices) t := by
  induction indices with
  | nil => exact fun _ => rfl
  | cons index indices ih =>
    intro s t h
    obtain ⟨status, _, hstatus, h⟩ := runOn_bind_eq_ok_iff.mp h
    obtain ⟨hread, rfl⟩ := runOn_ofExcept_eq_ok_iff.mp hstatus
    refine Rests.ofExcept_bind hread ?_
    by_cases hlate : finalized < status.validator.activationEligibilityEpoch
    · rw [if_pos hlate]
      rfl
    · rw [if_neg hlate] at h ⊢
      obtain ⟨_, u, hwrite, hrest⟩ := runOn_bind_eq_ok_iff.mp h
      have hset : HasAspect Validator.activationEpoch activation u index :=
        hasAspect_of_write hwrite rfl fun _ => rfl
      obtain ⟨v, hv, rfl⟩ := Option.map_eq_some_iff.mp
        ((activateAll_preserves summary finalized activation indices u).of_runOn hrest _ hset)
      exact (rests_write (w := .activationEpoch index v.activationEpoch) rfl hv rfl).bind (ih hrest)

end

/-! ## All of them -/

theorem applyQueues_keepsLeaving (config : Config) (summary : EpochSummary) (s : State) :
    StaysIn KeepsLeaving (applyQueues config summary) s := by
  refine KeepsLeaving.bind (ejectAll_keepsLeaving _ _ _ s) fun _ t _ => ?_
  refine KeepsLeaving.bind_still rfl fun next _ => ?_
  have heligible : StaysIn SameExits (setEligibility next summary.toSetEligibility) t :=
    setEligibility_keeps (fun _ _ => rfl) next _ t
  refine KeepsLeaving.bind (KeepsLeaving.of_sameExits heligible) fun _ u _ => ?_
  refine KeepsLeaving.bind_still rfl fun finalized _ => ?_
  refine KeepsLeaving.bind_still rfl fun activation _ => ?_
  have hactivated : StaysIn SameExits (activateAll summary finalized activation
      (summary.toMaybeActivate.take summary.churnLimit)) u :=
    activateAll_keeps (fun _ _ => rfl) summary finalized activation _ u
  exact KeepsLeaving.of_sameExits hactivated

/-- Where the queues have been applied with success, they find nothing left to do. -/
theorem rests_of_applyQueues {config : Config} {summary : EpochSummary} {s t : State}
    (hdelay : 0 < config.minValidatorWithdrawabilityDelay)
    (h : (applyQueues config summary).runOn s = (.ok (), t)) :
    Rests (applyQueues config summary) t := by
  obtain ⟨u, w, next, activation, heject, hnext, heligible, hactivation, hactivate⟩ :=
    runOn_applyQueues_eq_ok_iff.mp h
  have hfinalized : t.finalizedCheckpoint = w.finalizedCheckpoint := by
    have honly : OnlyRecords w t := (activateAll_onlyRecords _ _ _ _ w).of_runOn hactivate
    rw [honly]
  refine runOn_applyQueues_eq_ok_iff.mpr ⟨t, t, next, activation, ?_, hnext, ?_, hactivation, ?_⟩
  · -- the later passes leave the exits as they are
    have hlater : Preserves Validator.isStaying false u t :=
      (Preserves.of_keeps ((setEligibility_keeps (fun _ _ => rfl) _ _ u).of_runOn heligible)).trans
        (Preserves.of_keeps ((activateAll_keeps (fun _ _ => rfl) _ _ _ _ w).of_runOn hactivate))
    exact ejectAll_rests _ _ _ fun i hi => hlater i (leaving_of_ejectAll hdelay _ heject i hi)
  · have hlater : Preserves Validator.activationEligibilityEpoch next w t :=
      Preserves.of_keeps ((activateAll_keeps (fun _ _ => rfl) _ _ _ _ w).of_runOn hactivate)
    exact setEligibility_rests _ fun i hi => hlater i (eligible_of_setEligibility _ heligible i hi)
  · rw [hfinalized]
    exact rests_of_activateAll _ hactivate

/-- An update of the registry polls once, before anything else. -/
theorem runOn_updateRegistry (config : Config) (summary : EpochSummary) (signal : StopSignal)
    (s : State) (p : Progress) :
    (updateRegistry config summary signal).runOn (s, p) =
      if signal p then (.error .cancelled, (s, p.polled))
      else (((applyQueues config summary).runOn s).1,
        (((applyQueues config summary).runOn s).2, p.polled)) := by
  have hpoll : signal.poll.runOn p = (ensure (!signal p) .cancelled, p.polled) := rfl
  unfold updateRegistry
  rw [runOn_bind, runOn_onSecond, hpoll]
  rcases signal p with _ | _
  · rfl
  · rfl

/-- Whatever the summary says and whoever has left since it was made, an update of the registry
    never touches the exit of a validator who is leaving already, wherever it may fail.  And once it
    has succeeded, every further one with the same summary changes nothing, and succeeds unless it is
    cancelled. -/
theorem exits_assigned_once {config : Config}
    (hdelay : 0 < config.minValidatorWithdrawabilityDelay) (summary : EpochSummary)
    (signal : StopSignal) (s : State) (p : Progress) :
    KeepsLeaving s ((updateRegistry config summary signal).runOn (s, p)).2.1 ∧
    ∀ t p', (updateRegistry config summary signal).runOn (s, p) = (.ok (), (t, p')) →
      ∀ signal' q, (updateRegistry config summary signal').runOn (t, q) =
        (if signal' q then .error .cancelled else .ok (), (t, q.polled)) := by
  refine ⟨?_, fun t p' h signal' q => ?_⟩
  · rw [runOn_updateRegistry]
    split
    · exact KeepsLeaving.refl s
    · exact applyQueues_keepsLeaving config summary s
  · rw [runOn_updateRegistry] at h ⊢
    split at h
    · nomatch h
    have hfirst : (applyQueues config summary).runOn s = (.ok (), t) := by
      obtain ⟨hok, ht⟩ := Prod.mk.inj h
      rw [← hok, ← (Prod.mk.inj ht).1]
    have hagain : (applyQueues config summary).runOn t = (.ok (), t) :=
      rests_of_applyQueues hdelay hfirst
    rw [hagain]
    split
    · rfl
    · rfl

/-- The third short epoch.  Two validators have too little stake to stay, one waits to be activated,
    and one is new. -/
def mixed : State :=
  { waiting with validators := #[
      { Collect.steady with effectiveBalance := 16000000000 },
      { Collect.steady with effectiveBalance := 16000000000 },
      { Collect.steady with activationEligibilityEpoch := 1, activationEpoch := farFutureEpoch },
      { Collect.steady with
        activationEligibilityEpoch := farFutureEpoch, activationEpoch := farFutureEpoch }] }

/-- The epoch of this state, summed up. -/
def mixedSummary : EpochSummary :=
  match ((Collect.summarize Config.minimal mixed noCommittees .never).runOn .start).1 with
  | .ok summary => summary
  | .error _ => default

/-- The state when the first of them has left by itself since. -/
def mixedLater : State := mixed.withExit 0 20 276

/-- Who has left meanwhile keeps the exit, the other one is ejected, and doing all of it again leaves
    everything as it is. -/
theorem exits_assigned_once_mixed : ∃ p' t q' q'',
    0 < Config.minimal.minValidatorWithdrawabilityDelay ∧
    (Collect.summarize Config.minimal mixed noCommittees .never).runOn .start =
      (.ok mixedSummary, p') ∧
    mixedSummary.toEject = [0, 1] ∧
    (updateRegistry Config.minimal mixedSummary .never).runOn (mixedLater, .start) =
      (.ok (), (t, q')) ∧
    t.exitTimes 0 = some (20, 276) ∧ t.exitTimes 1 = some (7, 263) ∧
    (t.validators[2]?).map Validator.activationEpoch = some 7 ∧
    (t.validators[3]?).map Validator.activationEligibilityEpoch = some 3 ∧
    (updateRegistry Config.minimal mixedSummary .never).runOn (t, q') = (.ok (), (t, q'')) := by
  have hdelay : 0 < Config.minimal.minValidatorWithdrawabilityDelay := by decide
  have hok : ((updateRegistry Config.minimal mixedSummary .never).runOn
      (mixedLater, .start)).1.isOk = true := by decide +kernel
  have hrecords : ∀ t, t = ((updateRegistry Config.minimal mixedSummary .never).runOn
      (mixedLater, .start)).2.1 → t.exitTimes 1 = some (7, 263) ∧
        (t.validators[2]?).map Validator.activationEpoch = some 7 ∧
        (t.validators[3]?).map Validator.activationEligibilityEpoch = some 3 := by
    rintro _ rfl
    decide +kernel
  obtain ⟨_, ⟨t, q'⟩, hupdate⟩ := exists_of_isOk hok
  rw [hupdate] at hrecords
  obtain ⟨hexit, hactivated, heligible⟩ := hrecords t rfl
  obtain ⟨hkept, hagain⟩ := exits_assigned_once hdelay mixedSummary .never mixedLater .start
  rw [hupdate] at hkept
  exact ⟨_, t, q', _, hdelay, rfl, rfl, hupdate, hkept 0 _ rfl (by decide), hexit,
    hactivated, heligible, hagain t q' hupdate .never q'⟩

end Beacon
