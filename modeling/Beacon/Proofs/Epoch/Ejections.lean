/-
  The ejections at the end of an epoch, against exits one at a time.

  Both put validators into the exit queue in order.  An exit by itself looks through the registry
  for the end of the queue every time.  The ejection pass carries its place along, and the summary
  found that place by counting the exits in the earliest possible epoch only.  So the two agree
  just while the place found is where the queue ends.  `EjectionsFit` is the exact condition, and a
  state in which exits have been scheduled further ahead shows that it may fail.

  Each pass has a closed form (`ejectAll_assigned`, `exitAll_assigned`): the `k`-th validator goes
  where a cursor stands after `k` exits.  What is left is when two cursors agree
  (`Cursor.agree_iff`).
-/
import Beacon.Epoch.Transition
import Beacon.Proofs.Epoch.Collected
import Beacon.Proofs.Registry.Exits

namespace Beacon

open Beacon.Action

/-! ## The ejection pass -/

/-- All that one ejection can do, and where the pass goes on. -/
theorem State.runOn_ejectAll_cons (config : Config) (limit : Nat) (queue : ExitQueue) (index : Nat)
    (indices : List Nat) (s : State) :
    (ejectAll config limit queue (index :: indices)).runOn s =
      match s.validators[index]? with
      | none => (.error (.access (.outsideList index s.validators.size)), s)
      | some v =>
        if v.isStaying then
          match withdrawableAfter config queue.last with
          | .error failure => (.error failure, s)
          | .ok w =>
            match queue.advance limit with
            | .error failure => (.error failure, s.withExit index queue.last w)
            | .ok next =>
              (ejectAll config limit next indices).runOn (s.withExit index queue.last w)
        else (ejectAll config limit queue indices).runOn s := by
  conv => lhs; unfold ejectAll
  rw [runOn_bind, runOn_read_validator]
  rcases hv : s.validators[index]? with _ | v
  · rfl
  · by_cases hstay : v.isStaying = true
    · simp only [hstay, if_true]
      rw [runOn_bind, runOn_ofExcept]
      rcases withdrawableAfter config queue.last with failure | w
      · rfl
      show (Action.write (.exitEpoch index queue.last) >>= fun _ => _).runOn s = _
      rw [runOn_bind, runOn_write_record rfl hv]
      show (Action.write (.withdrawableEpoch index w) >>= fun _ => _).runOn
        (s.editRecord index _) = _
      rw [runOn_bind, runOn_write_record rfl (getElem?_editRecord_self hv _),
        editRecord_editRecord]
      show (Action.ofExcept (queue.advance limit) >>= fun _ => _).runOn
        (s.withExit index queue.last w) = _
      rw [runOn_bind, runOn_ofExcept]
      rcases queue.advance limit with failure | next <;> rfl
    · simp only [hstay]
      rfl

/-- Ejections change two epochs of records and nothing else. -/
theorem ejectAll_keeps {α : Type} {f : Validator → α}
    (hf : ∀ v exit w, f { v with exitEpoch := exit, withdrawableEpoch := w } = f v)
    (config : Config) (limit : Nat) (indices : List Nat) :
    ∀ (queue : ExitQueue) (s : State),
      StaysIn (State.Keeps f) (ejectAll config limit queue indices) s := by
  induction indices with
  | nil => exact fun _ => State.Keeps.refl
  | cons index indices ih =>
    intro queue s
    unfold StaysIn
    rw [State.runOn_ejectAll_cons]
    split
    · exact State.Keeps.refl s
    split
    · split
      · exact State.Keeps.refl s
      · next w _ =>
        have hedit := State.Keeps.editRecord s index fun v => hf v queue.last w
        split
        · exact hedit
        · next next _ => exact hedit.trans (ih next _)
    · exact ih queue s

/-- The pass puts the `k`-th of those who stay where its cursor stands after `k` exits, and never
    beyond the last epoch there is.  Those who are leaving already are passed over. -/
theorem ejectAll_assigned {config : Config} {limit : Nat} (indices : List Nat) :
    ∀ {s t : State} {queue : ExitQueue},
      (ejectAll config limit queue indices).runOn s = (.ok (), t) → indices.Nodup →
      queue.place.taken < Cursor.room limit →
      Assigned config.minValidatorWithdrawabilityDelay.toNat s t (indices.filter s.staysAt)
        (queue.place.epochOf limit) ∧
      queue.place.epochOf limit (indices.filter s.staysAt).length ≤ farFutureEpoch.toNat := by
  induction indices with
  | nil =>
    intro s t queue hrun _ htaken
    obtain ⟨-, rfl⟩ := runOn_pure_eq_ok_iff.mp hrun
    refine ⟨Assigned.nil _ s _, ?_⟩
    show queue.place.epochOf limit 0 ≤ _
    rw [Cursor.epochOf_zero htaken]
    exact toNat_le_farFutureEpoch queue.last
  | cons index indices ih =>
    intro s t queue hrun hnodup htaken
    obtain ⟨hnew, hnodup'⟩ := List.nodup_cons.mp hnodup
    rw [State.runOn_ejectAll_cons] at hrun
    rcases hv : s.validators[index]? with _ | v
    · rw [hv] at hrun
      nomatch hrun
    rw [hv] at hrun
    by_cases hvstay : v.isStaying = true
    · simp only [hvstay, if_true] at hrun
      rcases hw : withdrawableAfter config queue.last with _ | w
      · rw [hw] at hrun
        nomatch hrun
      rcases hnext : queue.advance limit with _ | next
      · rw [hw, hnext] at hrun
        nomatch hrun
      rw [hw, hnext] at hrun
      have hplace := ExitQueue.place_of_advance_eq_ok hnext
      have htaken' : next.place.taken < Cursor.room limit := by
        rw [hplace]
        exact Cursor.taken_advance_lt queue.place limit
      obtain ⟨hrest, hbound⟩ := ih hrun hnodup' htaken'
      -- the ejection does not change who stays among the others
      have hothers : indices.filter (s.withExit index queue.last w).staysAt =
          indices.filter s.staysAt := by
        apply List.filter_congr
        intro i hi
        exact State.staysAt_withExit_ne (fun c : index = i => hnew (c ▸ hi)) s _ _
      rw [hothers] at hrest hbound
      have hsucc : ∀ k, queue.place.epochOf limit (k + 1) = next.place.epochOf limit k :=
        fun k => by rw [Cursor.epochOf_succ htaken, hplace]
      have hzero : queue.place.epochOf limit 0 = queue.last.toNat := Cursor.epochOf_zero htaken
      rw [List.filter_cons_of_pos (State.staysAt_iff.mpr ⟨v, hv, hvstay⟩)]
      refine ⟨Assigned.cons (w := w) hv (fun c => hnew (List.mem_filter.mp c).1) hzero.symm ?_ ?_,
        ?_⟩
      · rw [hzero]
        exact withdrawableAfter_eq_ok_iff.mp hw
      · simpa only [hsucc] using hrest
      · rw [List.length_cons, hsucc]
        exact hbound
    · simp only [hvstay] at hrun
      have hleaving : ¬ s.staysAt index = true := fun c => by
        obtain ⟨v', hv', hstay'⟩ := State.staysAt_iff.mp c
        rw [hv] at hv'
        cases hv'
        exact hvstay hstay'
      rw [List.filter_cons_of_neg hleaving]
      exact ih hrun hnodup' htaken

/-! ## What comes after the ejections -/

section

variable {α : Type} {f : Validator → α}

theorem setEligibility_keeps
    (hf : ∀ v epoch, f { v with activationEligibilityEpoch := epoch } = f v)
    (epoch : Epoch) (indices : List Nat) :
    ∀ s : State, StaysIn (State.Keeps f) (setEligibility epoch indices) s := by
  induction indices with
  | nil => exact State.Keeps.refl
  | cons index indices ih =>
    intro s
    exact State.Keeps.bind (State.Keeps.write rfl (fun v => hf v epoch) s) fun _ t _ => ih t

theorem activateAll_keeps (hf : ∀ v epoch, f { v with activationEpoch := epoch } = f v)
    (summary : EpochSummary) (finalized activation : Epoch) (indices : List Nat) :
    ∀ s : State,
      StaysIn (State.Keeps f) (activateAll summary finalized activation indices) s := by
  induction indices with
  | nil => exact State.Keeps.refl
  | cons index indices ih =>
    intro s
    refine State.Keeps.bind_still rfl fun status _ => ?_
    split
    · exact State.Keeps.refl s
    · exact State.Keeps.bind (State.Keeps.write rfl (fun v => hf v activation) s) fun _ t _ => ih t

end

/-- The exit epochs of all validators are the same. -/
def SameExits : State → State → Prop := State.Keeps fun v => (v.exitEpoch, v.withdrawableEpoch)

/-- The queues are applied with success just if the three passes succeed in turn, and the two epochs
    they write are in range. -/
theorem runOn_applyQueues_eq_ok_iff {config : Config} {summary : EpochSummary} {s t : State} :
    (applyQueues config summary).runOn s = (.ok (), t) ↔ ∃ u w next activation,
      (ejectAll config summary.churnLimit summary.exitQueue summary.toEject).runOn s =
        (.ok (), u) ∧
      Word.addChecked summary.currentEpoch 1 = some next ∧
      (setEligibility next summary.toSetEligibility).runOn u = (.ok (), w) ∧
      activationExitEpoch config summary.currentEpoch = .ok activation ∧
      (activateAll summary w.finalizedCheckpoint.epoch activation
        (summary.toMaybeActivate.take summary.churnLimit)).runOn w = (.ok (), t) := by
  constructor
  · intro h
    obtain ⟨_, u, heject, h⟩ := runOn_bind_eq_ok_iff.mp h
    obtain ⟨next, _, hadd, h⟩ := runOn_bind_eq_ok_iff.mp h
    obtain ⟨hnext, rfl⟩ := runOn_ofExcept_eq_ok_iff.mp hadd
    obtain ⟨_, w, heligible, h⟩ := runOn_bind_eq_ok_iff.mp h
    obtain ⟨finalized, _, hview, h⟩ := runOn_bind_eq_ok_iff.mp h
    rw [runOn_view] at hview
    cases hview
    obtain ⟨activation, _, hplan, h⟩ := runOn_bind_eq_ok_iff.mp h
    obtain ⟨hactivation, rfl⟩ := runOn_ofExcept_eq_ok_iff.mp hplan
    exact ⟨_, w, next, activation, heject, orFail_eq_ok_iff.mp hnext, heligible, hactivation, h⟩
  · rintro ⟨u, w, next, activation, heject, hnext, heligible, hactivation, h⟩
    refine runOn_bind_eq_ok_iff.mpr ⟨(), u, heject, ?_⟩
    refine runOn_bind_eq_ok_iff.mpr ⟨next, u, ?_, ?_⟩
    · exact runOn_ofExcept_eq_ok_iff.mpr ⟨orFail_eq_ok_iff.mpr hnext, rfl⟩
    refine runOn_bind_eq_ok_iff.mpr ⟨(), w, heligible, ?_⟩
    refine runOn_bind_eq_ok_iff.mpr ⟨w.finalizedCheckpoint.epoch, w, rfl, ?_⟩
    exact runOn_bind_eq_ok_iff.mpr
      ⟨activation, w, runOn_ofExcept_eq_ok_iff.mpr ⟨hactivation, rfl⟩, h⟩

/-- In a registry update that succeeds, the ejection pass succeeds and leaves the exits as they are
    at the end. -/
theorem ejectAll_of_updateRegistry {config : Config} {summary : EpochSummary} {signal : StopSignal}
    {s t : State} {p p' : Progress}
    (h : (updateRegistry config summary signal).runOn (s, p) = (.ok (), (t, p'))) :
    ∃ u, (ejectAll config summary.churnLimit summary.exitQueue summary.toEject).runOn s =
      (.ok (), u) ∧ SameExits u t := by
  obtain ⟨_, ⟨s1, p1⟩, hpoll, happly⟩ := runOn_bind_eq_ok_iff.mp h
  obtain ⟨-, rfl⟩ := runOn_onSecond_eq_ok_iff.mp hpoll
  obtain ⟨happly, -⟩ := runOn_onFirst_eq_ok_iff.mp happly
  obtain ⟨u, w, next, activation, heject, -, heligible, -, hactivate⟩ :=
    runOn_applyQueues_eq_ok_iff.mp happly
  have hset : SameExits u w := (setEligibility_keeps (fun _ _ => rfl) next _ u).of_runOn heligible
  have hactivated : SameExits w t :=
    (activateAll_keeps (fun _ _ => rfl) summary _ activation _ w).of_runOn hactivate
  exact ⟨u, heject, hset.trans hactivated⟩

/-! ## Where the summary found the queue -/

/-- The place found is where a queue would go on that has only the exits in the earliest epoch. -/
theorem Collect.place_of_firstFreeExit {config : Config} {current : Epoch} {limit : Nat}
    {vs : List Validator} {found : ExitQueue}
    (h : Collect.firstFreeExit config current limit vs = .ok found) :
    ∃ earliest, activationExitEpoch config current = .ok earliest ∧
      found.place = ExitQueue.cursor
        ⟨earliest, vs.countP fun v => v.exitEpoch == earliest⟩ limit := by
  obtain ⟨earliest, hearliest, h⟩ := bind_eq_ok_iff.mp h
  refine ⟨earliest, hearliest, ?_⟩
  dsimp only at h
  split at h
  · next hfull =>
    obtain ⟨next, hnext, h⟩ := bind_eq_ok_iff.mp h
    rw [orFail_eq_ok_iff, Word.addChecked_eq_some_iff] at hnext
    cases h
    rw [ExitQueue.cursor_of_full hfull]
    show Cursor.mk next.toNat 0 = _
    rw [hnext]
    rfl
  · next hroom =>
    cases h
    exact (ExitQueue.cursor_of_room hroom).symm

/-- The place found is behind the look-ahead. -/
theorem Collect.Collected.exitQueue_later {σ : Type} [StateAccess σ] {config : Config} {s : σ}
    {committees : Committees} {vs : List Validator}
    {votes : RecentEpoch → List PendingAttestation} {summary : EpochSummary}
    (h : Collect.Collected config s committees vs votes summary) :
    (Beacon.currentEpoch config s).toNat + 1 + config.maxSeedLookahead.toNat ≤
      summary.exitQueue.last.toNat := by
  obtain ⟨earliest, hearliest, hplace⟩ := Collect.place_of_firstFreeExit h.exitQueue
  have hlast : summary.exitQueue.last.toNat = _ := congrArg Cursor.epoch hplace
  rw [← activationExitEpoch_eq_ok_iff.mp hearliest, hlast]
  exact ExitQueue.last_le_cursor ⟨earliest, _⟩ summary.churnLimit

/-- No exit is scheduled beyond the place that was found for ejections, and either the exits in
    that epoch have all been counted or the epoch has room for all ejections besides them. -/
structure EjectionsFit (exits : List Epoch) (found : ExitQueue) (limit ejections : Nat) : Prop where
  behind : ∀ e ∈ exits, e.toNat ≤ found.last.toNat
  fits : exits.count found.last = found.churn ∨ exits.count found.last + ejections ≤ limit

section

variable {exits : List Epoch} {earliest : Epoch} {leaving limit ejections : Nat}
  {found queue : ExitQueue}

/-- The case of a full earliest epoch: the place is the start of the next one, and no exit there has
    been counted. -/
theorem agree_of_full (hfull : limit ≤ leaving)
    (hleaving : earliest ≠ farFutureEpoch → leaving = exits.count earliest)
    (hfound : found.place = ExitQueue.cursor ⟨earliest, leaving⟩ limit)
    (hqueue : queue.Describes earliest exits) (hsome : 0 < ejections)
    (hbehind : ∀ e ∈ exits, e.toNat ≤ found.last.toNat) :
    Cursor.Agree limit ejections found.place (queue.cursor limit) ↔
      (exits.count found.last = found.churn ∨ exits.count found.last + ejections ≤ limit) := by
  rw [ExitQueue.cursor_of_full hfull] at hfound
  have hplace : found.last.toNat = earliest.toNat + 1 := congrArg Cursor.epoch hfound
  have hchurn : found.churn = 0 := congrArg Cursor.taken hfound
  by_cases hmem : found.last ∈ exits
  · -- the queue ends there
    have hqlast : queue.last = found.last := by
      have hle := hqueue.exit_le _ hmem
      rcases hqueue.attained with h | h
      · rw [h] at hle
        omega
      · exact UInt64.toNat_inj.mp (Nat.le_antisymm (hbehind _ h) hle)
    have hpos : 0 < exits.count found.last := List.count_pos_iff.mpr hmem
    have hqchurn : queue.churn = exits.count found.last := by rw [hqueue.churn_eq, hqlast]
    by_cases hroom : limit ≤ queue.churn
    · rw [ExitQueue.cursor_of_full hroom, hqlast]
      show found.last.toNat = found.last.toNat + 1 ∧ _ ↔ _
      omega
    · rw [ExitQueue.cursor_of_room hroom]
      show found.last.toNat = queue.last.toNat ∧
        (found.churn = queue.churn ∨
          max found.churn queue.churn + ejections ≤ max limit 1) ↔ _
      rw [hqlast]
      omega
  · -- the queue ends in the earliest epoch and goes on where the place is
    have hqlast : queue.last = earliest := by
      rcases hqueue.attained with h | h
      · exact h
      · have hne : queue.last.toNat ≠ found.last.toNat := fun c =>
          hmem (UInt64.toNat_inj.mp c ▸ h)
        have hle := hbehind _ h
        have hge := hqueue.earliest_le
        exact UInt64.toNat_inj.mp (by omega)
    have hnotfar : earliest ≠ farFutureEpoch := fun c => by
      have hle := toNat_le_farFutureEpoch found.last
      rw [c] at hplace
      omega
    have hqfull : limit ≤ queue.churn := by
      rw [hqueue.churn_eq, hqlast, ← hleaving hnotfar]
      exact hfull
    have hnone : exits.count found.last = 0 := List.count_eq_zero.mpr hmem
    have hagree : Cursor.Agree limit ejections found.place (queue.cursor limit) := by
      rw [hfound, ExitQueue.cursor_of_full hqfull, hqlast]
      exact ⟨rfl, Or.inl rfl⟩
    exact iff_of_true hagree (Or.inl (hnone.trans hchurn.symm))

/-- The case of an earliest epoch that is not full: the place is there, and so is the end of the
    queue. -/
theorem agree_of_room (hroom : ¬ limit ≤ leaving) (hfar : farFutureEpoch ∉ exits)
    (hleaving : earliest ≠ farFutureEpoch → leaving = exits.count earliest)
    (hfound : found.place = ExitQueue.cursor ⟨earliest, leaving⟩ limit)
    (hqueue : queue.Describes earliest exits)
    (hbound : found.place.epochOf limit ejections ≤ farFutureEpoch.toNat)
    (hbehind : ∀ e ∈ exits, e.toNat ≤ found.last.toNat) :
    Cursor.Agree limit ejections found.place (queue.cursor limit) ∧
      (exits.count found.last = found.churn ∨ exits.count found.last + ejections ≤ limit) := by
  rw [ExitQueue.cursor_of_room hroom] at hfound
  have hplace : found.last = earliest := UInt64.toNat_inj.mp (congrArg Cursor.epoch hfound)
  have hchurn : found.churn = leaving := congrArg Cursor.taken hfound
  have hqlast : queue.last = found.last := by
    have hge := hqueue.earliest_le
    rcases hqueue.attained with h | h
    · rw [h, hplace]
    · rw [← hplace] at hge
      exact UInt64.toNat_inj.mp (Nat.le_antisymm (hbehind _ h) hge)
  have hqchurn : queue.churn = exits.count found.last := by rw [hqueue.churn_eq, hqlast]
  have hqepoch : found.last.toNat = queue.last.toNat := congrArg UInt64.toNat hqlast.symm
  by_cases hedge : earliest = farFutureEpoch
  · -- the last epoch there is: whoever stays has been counted as leaving then
    have hnone : exits.count found.last = 0 :=
      List.count_eq_zero.mpr (by rw [hplace, hedge]; exact hfar)
    have hfit : found.churn + ejections < Cursor.room limit := by
      have hepoch : found.place.epoch = farFutureEpoch.toNat := by
        rw [← hedge, ← hplace]
        rfl
      unfold Cursor.epochOf at hbound
      rw [hepoch] at hbound
      have hzero := Nat.le_zero.mp (Nat.le_of_add_le_add_left hbound)
      exact (Nat.div_eq_zero_iff_lt (Cursor.room_pos limit)).mp hzero
    have hqroom : ¬ limit ≤ queue.churn := by omega
    have hmost : max found.churn queue.churn + ejections ≤ Cursor.room limit := by omega
    have hless : exits.count found.last + ejections ≤ limit := by
      unfold Cursor.room at hfit
      omega
    rw [ExitQueue.cursor_of_room hqroom]
    exact ⟨⟨hqepoch, Or.inr hmost⟩, Or.inr hless⟩
  · have hall : exits.count found.last = found.churn := by
      rw [hchurn, hleaving hedge, hplace]
    have hqroom : ¬ limit ≤ queue.churn := by omega
    rw [ExitQueue.cursor_of_room hqroom]
    exact ⟨⟨hqepoch, Or.inl (hall.symm.trans hqchurn.symm)⟩, Or.inl hall⟩

/-- The cursor of the place found and the cursor of the queue agree if and only if the ejections
    fit. -/
theorem ejectionsFit_iff (hfar : farFutureEpoch ∉ exits)
    (hleaving : earliest ≠ farFutureEpoch → leaving = exits.count earliest)
    (hfound : found.place = ExitQueue.cursor ⟨earliest, leaving⟩ limit)
    (hqueue : queue.Describes earliest exits) (hsome : 0 < ejections)
    (hbound : found.place.epochOf limit ejections ≤ farFutureEpoch.toNat) :
    EjectionsFit exits found limit ejections ↔
      Cursor.Agree limit ejections found.place (queue.cursor limit) := by
  by_cases hbehind : ∀ e ∈ exits, e.toNat ≤ found.last.toNat
  · have hcore : Cursor.Agree limit ejections found.place (queue.cursor limit) ↔
        (exits.count found.last = found.churn ∨
          exits.count found.last + ejections ≤ limit) := by
      by_cases hfull : limit ≤ leaving
      · exact agree_of_full hfull hleaving hfound hqueue hsome hbehind
      · obtain ⟨hagree, hfits⟩ := agree_of_room hfull hfar hleaving hfound hqueue hbound hbehind
        exact iff_of_true hagree hfits
    exact ⟨fun h => hcore.mpr h.fits, fun h => ⟨hbehind, hcore.mp h⟩⟩
  · -- the queue ends with an exit that is beyond the place
    refine ⟨fun h => absurd h.behind hbehind, fun h => absurd (fun e he => ?_) hbehind⟩
    have hplace : found.last.toNat = (queue.cursor limit).epoch := h.1
    rw [hplace]
    exact Nat.le_trans (hqueue.exit_le e he) (queue.last_le_cursor limit)

end

/-! ## The two paths -/

/-- Ejections that fit go where no exit is later and the epoch is not full. -/
theorem EjectionsFit.behind_and_room {delay limit : Nat} {s t : State} {found : ExitQueue}
    {indices : List Nat} (h : EjectionsFit s.exits found limit indices.length)
    (htaken : found.place.taken < Cursor.room limit)
    (hassigned : Assigned delay s t indices (found.place.epochOf limit)) :
    ∀ i ∈ indices, ∃ v, t.validators[i]? = some v ∧
      (∀ e ∈ s.exits, e ≤ v.exitEpoch) ∧ s.exits.count v.exitEpoch < max limit 1 := by
  intro i hi
  obtain ⟨k, hk, rfl⟩ := List.mem_iff_getElem.mp hi
  obtain ⟨exit, w, htimes, hexit, -⟩ := hassigned.times k _ (List.getElem?_eq_getElem hk)
  obtain ⟨v, hv, hvtimes⟩ := Option.map_eq_some_iff.mp htimes
  cases hvtimes
  have hle : found.last.toNat ≤ v.exitEpoch.toNat := by
    rw [hexit]
    exact Nat.le_add_right _ _
  refine ⟨v, hv, fun e he => ?_, ?_⟩
  · exact UInt64.le_iff_toNat_le.mpr (Nat.le_trans (h.behind e he) hle)
  · by_cases hlast : v.exitEpoch = found.last
    · rw [hlast]
      rcases h.fits with hall | hroom
      · rw [hall]
        exact htaken
      · omega
    · have hnone : v.exitEpoch ∉ s.exits := fun c => by
        have hne : v.exitEpoch.toNat ≠ found.last.toNat := fun c' => hlast (UInt64.toNat_inj.mp c')
        have hle' := h.behind _ c
        omega
      rw [List.count_eq_zero.mpr hnone]
      omega

/-- Where anybody could leave at all, the queue's cursor stands at an epoch there is. -/
theorem exitAll_cursor_le {config : Config} {earliest : Epoch} {queue : ExitQueue} {s t : State}
    {indices : List Nat} (hsome : 0 < indices.length) (hstay : ∀ i ∈ indices, s.staysAt i = true)
    (hearliest : activationExitEpoch config (currentEpoch config s) = .ok earliest)
    (hqueue : queue.Describes earliest s.exits)
    (h : (exitAll config indices).runOn s = (.ok (), t)) :
    (queue.cursor (s.churnLimit config)).epoch ≤ farFutureEpoch.toNat := by
  obtain ⟨index, indices, rfl⟩ := List.exists_cons_of_length_pos hsome
  obtain ⟨v, hv, hvstay⟩ := State.staysAt_iff.mp (hstay index List.mem_cons_self)
  obtain ⟨exit, w, hplan, -⟩ := exitAll_cons_eq_ok hv hvstay h
  rw [← (State.plannedExit_eq_ok hearliest hqueue hplan).1]
  exact toNat_le_farFutureEpoch exit

/-- Whoever is to be ejected has no exit epoch yet. -/
theorem Collect.Collected.staysAt_of_mem_toEject {config : Config} {s : State}
    {committees : Committees} {votes : RecentEpoch → List PendingAttestation}
    {summary : EpochSummary}
    (h : Collect.Collected config s committees s.validators.toList votes summary) {i : Nat}
    (hi : i ∈ summary.toEject) : s.staysAt i = true := by
  have hin := hi
  rw [h.toEject, Collect.mem_indicesWhere_iff] at hin
  obtain ⟨v, hv, -⟩ := hin
  refine State.staysAt_iff.mpr ⟨v, ?_, (h.of_mem_toEject hi hv).2⟩
  rw [← Array.getElem?_toList]
  exact hv

/-- Closing an epoch gives everyone the exits that leaving one by one would give, if and only if
    nobody is ejected or the ejections fit; and ejections that fit are never put before the end of
    the queue or into a full epoch. -/
theorem exitTimes_eq_iff {config : Config} {s t u : State} {committees : Committees}
    {signal signal' : StopSignal} {summary : EpochSummary} {p p' q q' : Progress}
    (hsummary : (Collect.summarize config s committees signal).runOn p = (.ok summary, p'))
    (hupdate : (updateRegistry config summary signal').runOn (s, q) = (.ok (), (t, q')))
    (hexits : (exitAll config summary.toEject).runOn s = (.ok (), u)) :
    ((∀ i, t.exitTimes i = u.exitTimes i) ↔ summary.toEject = [] ∨
      EjectionsFit s.exits summary.exitQueue summary.churnLimit summary.toEject.length) ∧
    (EjectionsFit s.exits summary.exitQueue summary.churnLimit summary.toEject.length →
      ∀ i ∈ summary.toEject, ∃ v, t.validators[i]? = some v ∧
        (∀ e ∈ s.exits, e ≤ v.exitEpoch) ∧
        s.exits.count v.exitEpoch < max summary.churnLimit 1) := by
  obtain ⟨vs, votes, hc⟩ := Collect.collected_of_summarize hsummary
  obtain ⟨rfl, rfl⟩ := hc.of_state
  have hlimit : s.churnLimit config = summary.churnLimit := by
    rw [hc.churnLimit, hc.activeValidators]
    rfl
  obtain ⟨earliest, hearliest, hplace⟩ := Collect.place_of_firstFreeExit hc.exitQueue
  have hqueue := ExitQueue.describes_scan earliest s.validators.toList
  have hnodup := hc.nodup_toEject
  have hstay : ∀ i ∈ summary.toEject, s.staysAt i = true := fun i => hc.staysAt_of_mem_toEject
  have htaken : summary.exitQueue.place.taken < Cursor.room summary.churnLimit := by
    rw [hplace]
    exact ExitQueue.taken_cursor_lt _ _
  -- both paths in closed form
  obtain ⟨w, heject, hsame⟩ := ejectAll_of_updateRegistry hupdate
  obtain ⟨hejected, hbound⟩ := ejectAll_assigned _ heject hnodup htaken
  rw [List.filter_eq_self.mpr hstay] at hejected hbound
  have hclosed := hejected.trans_same hsame
  have hleft := exitAll_assigned _ hexits hnodup hstay hearliest hlimit hqueue
  refine ⟨?_, fun hfit => hfit.behind_and_room htaken hclosed⟩
  rw [hclosed.same_iff hleft]
  have hcursor : 0 < summary.toEject.length →
      ((ExitQueue.ofValidators earliest s.validators.toList).cursor summary.churnLimit).epoch ≤
        farFutureEpoch.toNat := fun hsome => by
    rw [← hlimit]
    exact exitAll_cursor_le hsome hstay hearliest hqueue hexits
  rw [Cursor.agree_iff htaken (ExitQueue.taken_cursor_lt _ _) hbound hcursor
    (hqueue.taken_cursor_eq_zero s.farFutureEpoch_notMem_exits), List.length_eq_zero_iff]
  by_cases hsome : summary.toEject = []
  · exact iff_of_true (Or.inl hsome) (Or.inl hsome)
  rw [or_iff_right hsome, or_iff_right hsome]
  have hleaving : earliest ≠ farFutureEpoch →
      (s.validators.toList.countP fun v => v.exitEpoch == earliest) = s.exits.count earliest :=
    fun h => (s.count_exits_of_ne h).symm
  exact (ejectionsFit_iff s.farFutureEpoch_notMem_exits hleaving hplace hqueue
    (List.length_pos_iff.mpr hsome) hbound).symm

/-- A state in the third short epoch.  Validators have been scheduled to leave in these epochs, and
    one more has too little stake to stay. -/
def scheduled (exits : List Epoch) : State where
  slot := 17
  genesisValidatorsRoot := default
  fork := default
  blockRoots := #[default]
  validators := (exits.map (fun e => { Collect.steady with
      exitEpoch := e, withdrawableEpoch := e + 256 }) ++
    [{ Collect.steady with effectiveBalance := 16000000000 }]).toArray
  balances := (exits.map (fun _ => (32000000000 : Gwei)) ++ [16000000000]).toArray
  slashings := #[0]
  previousAttestations := []
  currentAttestations := []
  finalizedCheckpoint := default

/-- Nobody knows any committee. -/
def noCommittees : Committees := fun _ _ => .error (.foreign "no committee")

/-- The epoch of such a state, summed up. -/
def scheduledSummary (exits : List Epoch) : EpochSummary :=
  let run := (Collect.summarize Config.minimal (scheduled exits) noCommittees .never).runOn .start
  match run.1 with
  | .ok summary => summary
  | .error _ => default

/-- The update of its registry. -/
def scheduledUpdate (exits : List Epoch) : Except Failure Unit × State × Progress :=
  (updateRegistry Config.minimal (scheduledSummary exits) .never).runOn (scheduled exits, .start)

/-- The same validators leaving one by one. -/
def scheduledLeaving (exits : List Epoch) : Except Failure Unit × State :=
  (exitAll Config.minimal (scheduledSummary exits).toEject).runOn (scheduled exits)

/-- With three exits scheduled for two places an epoch, the ejection fits into the second epoch. -/
theorem exitTimes_eq_scheduled : ∃ p' t q' u,
    (Collect.summarize Config.minimal (scheduled [7, 7, 8]) noCommittees .never).runOn .start =
      (.ok (scheduledSummary [7, 7, 8]), p') ∧
    scheduledUpdate [7, 7, 8] = (.ok (), (t, q')) ∧
    scheduledLeaving [7, 7, 8] = (.ok (), u) ∧
    (scheduledSummary [7, 7, 8]).toEject = [3] ∧
    EjectionsFit (scheduled [7, 7, 8]).exits (scheduledSummary [7, 7, 8]).exitQueue
      (scheduledSummary [7, 7, 8]).churnLimit 1 ∧
    ∀ i, t.exitTimes i = u.exitTimes i := by
  obtain ⟨p', hsummary⟩ : ∃ p',
      (Collect.summarize Config.minimal (scheduled [7, 7, 8]) noCommittees .never).runOn .start =
        (.ok (scheduledSummary [7, 7, 8]), p') := ⟨_, rfl⟩
  have hokUpdate : (scheduledUpdate [7, 7, 8]).1.isOk = true := by decide +kernel
  have hokLeaving : (scheduledLeaving [7, 7, 8]).1.isOk = true := by decide +kernel
  obtain ⟨_, ⟨t, q'⟩, hupdate⟩ := exists_of_isOk hokUpdate
  obtain ⟨_, u, hleaving⟩ := exists_of_isOk hokLeaving
  have hbehind : ((scheduled [7, 7, 8]).exits.all fun e =>
      decide (e.toNat ≤ (scheduledSummary [7, 7, 8]).exitQueue.last.toNat)) = true := by
    decide +kernel
  have hfit : EjectionsFit (scheduled [7, 7, 8]).exits (scheduledSummary [7, 7, 8]).exitQueue
      (scheduledSummary [7, 7, 8]).churnLimit 1 :=
    ⟨fun e he => of_decide_eq_true (List.all_eq_true.mp hbehind e he),
      Or.inr (by decide +kernel)⟩
  exact ⟨p', t, q', u, hsummary, hupdate, hleaving, rfl, hfit,
    (exitTimes_eq_iff hsummary hupdate hleaving).1.mpr (Or.inr hfit)⟩

/-- With four exits scheduled the second epoch is full, and the ejection goes into it all the same;
    leaving by itself, the validator would leave an epoch later. -/
theorem exitTimes_ne_scheduled : ∃ p' t q' u,
    (Collect.summarize Config.minimal (scheduled [7, 7, 8, 8]) noCommittees .never).runOn .start =
      (.ok (scheduledSummary [7, 7, 8, 8]), p') ∧
    scheduledUpdate [7, 7, 8, 8] = (.ok (), (t, q')) ∧
    scheduledLeaving [7, 7, 8, 8] = (.ok (), u) ∧
    (scheduledSummary [7, 7, 8, 8]).toEject = [4] ∧
    (scheduledSummary [7, 7, 8, 8]).churnLimit = 2 ∧
    (scheduled [7, 7, 8, 8]).exits.count 8 = 2 ∧
    t.exitTimes 4 = some (8, 264) ∧ u.exitTimes 4 = some (9, 265) := by
  have hokUpdate : (scheduledUpdate [7, 7, 8, 8]).1.isOk = true := by decide +kernel
  have hokLeaving : (scheduledLeaving [7, 7, 8, 8]).1.isOk = true := by decide +kernel
  obtain ⟨_, ⟨t, q'⟩, hupdate⟩ := exists_of_isOk hokUpdate
  obtain ⟨_, u, hleaving⟩ := exists_of_isOk hokLeaving
  have ht : (scheduledUpdate [7, 7, 8, 8]).2.1.exitTimes 4 = some (8, 264) := by decide +kernel
  have hu : (scheduledLeaving [7, 7, 8, 8]).2.exitTimes 4 = some (9, 265) := by decide +kernel
  rw [hupdate] at ht
  rw [hleaving] at hu
  exact ⟨_, t, q', u, rfl, hupdate, hleaving, rfl, rfl, by decide +kernel, ht, hu⟩

end Beacon
