/-
  Exits one at a time, in a state held in memory.

  `runOn_initiateExit` says all that putting one validator into the queue can do: nothing at all,
  or one record changed.  `exitAll` puts several validators into the queue, one after the other;
  `exitAll_assigned` is the closed form of what they get.  The invariant of its induction is that
  the queue of the registry describes the exit epochs, so that its cursor advances by one place
  with every exit.
-/
import Beacon.Proofs.Registry.ExitQueue
import Beacon.Proofs.Registry.Records

namespace Beacon

theorem Validator.isStaying_iff {v : Validator} :
    v.isStaying = true ↔ v.exitEpoch = farFutureEpoch := beq_iff_eq

theorem Validator.isStaying_eq_false_iff {v : Validator} :
    v.isStaying = false ↔ v.exitEpoch ≠ farFutureEpoch := by
  rw [← Bool.not_eq_true, Validator.isStaying_iff]

theorem activationExitEpoch_eq_ok_iff {config : Config} {epoch e : Epoch} :
    activationExitEpoch config epoch = .ok e ↔
      e.toNat = epoch.toNat + 1 + config.maxSeedLookahead.toNat := by
  unfold activationExitEpoch
  rw [orFail_eq_ok_iff, Option.bind_eq_some_iff]
  constructor
  · rintro ⟨next, hnext, he⟩
    rw [Word.addChecked_eq_some_iff] at hnext he
    rw [he, hnext]
    rfl
  · intro he
    have hlt : epoch.toNat + 1 < wordRange := by
      have := e.toNat_lt
      unfold wordRange
      omega
    have hnext : (UInt64.ofNat (epoch.toNat + 1)).toNat = epoch.toNat + 1 :=
      UInt64.toNat_ofNat_of_lt' hlt
    refine ⟨UInt64.ofNat (epoch.toNat + 1), ?_, ?_⟩
    · rw [Word.addChecked_eq_some_iff, hnext]
      rfl
    · rw [Word.addChecked_eq_some_iff, hnext, he]

theorem withdrawableAfter_eq_ok_iff {config : Config} {exit w : Epoch} :
    withdrawableAfter config exit = .ok w ↔
      w.toNat = exit.toNat + config.minValidatorWithdrawabilityDelay.toNat := by
  unfold withdrawableAfter
  rw [orFail_eq_ok_iff, Word.addChecked_eq_some_iff]

namespace State

/-! ## What the exit queue reads -/

/-- The exit epochs that are set, in the order of the indices. -/
def exits (s : State) : List Epoch := ExitQueue.exitsOf s.validators.toList

/-- The churn limit of the registry, which can always be read from memory. -/
def churnLimit (config : Config) (s : State) : Nat :=
  Beacon.churnLimit config
    (s.validators.toList.countP fun v => v.isActive (currentEpoch config s))

theorem readValidators_eq (s : State) : readValidators s = .ok s.validators.toList := by
  show (s.validators.toList.map Except.ok).mapM
    (fun item : Except AccessError Validator => item.mapError Failure.access) = _
  induction s.validators.toList with
  | nil => rfl
  | cons v vs ih =>
    rw [List.map_cons, List.mapM_cons, ih]
    rfl

theorem registryChurnLimit_eq (config : Config) (s : State) :
    registryChurnLimit config s = .ok (s.churnLimit config) := by
  unfold registryChurnLimit
  rw [readValidators_eq]
  rfl

theorem nextExitEpoch_eq (config : Config) (s : State) :
    nextExitEpoch config s = (do
      let earliest ← activationExitEpoch config (currentEpoch config s)
      (ExitQueue.ofValidators earliest s.validators.toList).nextEpoch (s.churnLimit config)) := by
  unfold nextExitEpoch
  rw [readValidators_eq, registryChurnLimit_eq]
  rfl

/-! ## One exit -/

/-- The state in which a validator has these two epochs. -/
def withExit (s : State) (index : Nat) (exit withdrawable : Epoch) : State :=
  s.editRecord index fun v => { v with exitEpoch := exit, withdrawableEpoch := withdrawable }

@[simp]
theorem currentEpoch_withExit (config : Config) (s : State) (index : Nat) (exit w : Epoch) :
    currentEpoch config (s.withExit index exit w) = currentEpoch config s := rfl

/-- How often an epoch is among the exit epochs that are set. -/
theorem count_exits (s : State) (e : Epoch) :
    s.exits.count e =
      s.validators.toList.countP fun v => !v.isStaying && v.exitEpoch == e := by
  unfold exits ExitQueue.exitsOf
  rw [List.count_eq_countP, List.countP_filter, List.countP_map]
  congr 1
  funext v
  show (v.exitEpoch == e && v.exitEpoch != farFutureEpoch) = _
  rw [Bool.and_comm]
  rfl

theorem farFutureEpoch_notMem_exits (s : State) : farFutureEpoch ∉ s.exits := fun h =>
  ExitQueue.ne_farFutureEpoch_of_mem_exitsOf h rfl

theorem count_exits_of_ne (s : State) {e : Epoch} (he : e ≠ farFutureEpoch) :
    s.exits.count e = s.validators.toList.countP fun v => v.exitEpoch == e := by
  rw [count_exits]
  apply List.countP_congr
  intro v _
  rw [Bool.and_eq_true, Bool.not_eq_true', Validator.isStaying_eq_false_iff, beq_iff_eq]
  exact and_iff_right_of_imp fun h => h ▸ he

/-- A validator who leaves adds its exit epoch to those that are set, unless that epoch is the one
    that stands for "not set". -/
theorem exits_withExit {s : State} {index : Nat} {v : Validator}
    (hv : s.validators[index]? = some v) (hstay : v.isStaying = true) (exit w : Epoch) :
    (s.withExit index exit w).exits.Perm
      (if exit = farFutureEpoch then s.exits else exit :: s.exits) := by
  rw [List.perm_iff_count]
  intro e
  have h := countP_editRecord hv
    (fun v => { v with exitEpoch := exit, withdrawableEpoch := w })
    (fun v => !v.isStaying && v.exitEpoch == e)
  rw [hstay] at h
  rw [count_exits]
  show List.countP _ (s.editRecord index _).validators.toList = _
  simp only [Bool.not_true, Bool.false_and, Bool.false_eq_true, if_false, Nat.add_zero] at h
  rw [h]
  by_cases hfar : exit = farFutureEpoch
  · rw [if_pos hfar, count_exits, if_neg, Nat.add_zero]
    show ¬ (!(exit == farFutureEpoch) && _) = true
    rw [hfar, beq_self_eq_true]
    simp
  · rw [if_neg hfar, List.count_cons, count_exits]
    congr 1
    show (if (!(exit == farFutureEpoch) && exit == e) = true then 1 else 0) = _
    rw [beq_eq_false_iff_ne.mpr hfar]
    rfl

/-- An exit in a later epoch leaves those active now as they are. -/
theorem churnLimit_withExit {config : Config} {s : State} {index : Nat} {v : Validator}
    (hv : s.validators[index]? = some v) (hstay : v.isStaying = true) {exit : Epoch} (w : Epoch)
    (hlater : (currentEpoch config s).toNat < exit.toNat) :
    (s.withExit index exit w).churnLimit config = s.churnLimit config := by
  have hact : v.isActive (currentEpoch config s) =
      { v with exitEpoch := exit, withdrawableEpoch := w }.isActive (currentEpoch config s) := by
    have hnow : currentEpoch config s < v.exitEpoch := by
      rw [Validator.isStaying_iff.mp hstay, UInt64.lt_iff_toNat_lt]
      have := toNat_le_farFutureEpoch exit
      omega
    have hthen : currentEpoch config s < exit := UInt64.lt_iff_toNat_lt.mpr hlater
    unfold Validator.isActive
    rw [decide_eq_true hnow, decide_eq_true hthen]
  have h := countP_editRecord hv
    (fun v => { v with exitEpoch := exit, withdrawableEpoch := w })
    (fun v => v.isActive (currentEpoch config s))
  rw [hact] at h
  unfold churnLimit
  rw [currentEpoch_withExit]
  exact congrArg (Beacon.churnLimit config) (Nat.add_right_cancel h)

/-- The exit and the withdrawable epoch that the next validator to leave would get. -/
def plannedExit (config : Config) (s : State) : Except Failure (Epoch × Epoch) := do
  let exit ← nextExitEpoch config s
  let withdrawable ← withdrawableAfter config exit
  return (exit, withdrawable)

/-- All that putting a validator into the queue can do. -/
theorem runOn_initiateExit (config : Config) (index : Nat) (s : State) :
    (initiateExit config index).runOn s =
      match s.validators[index]? with
      | none => (.error (.access (.outsideList index s.validators.size)), s)
      | some v =>
        if v.isStaying then
          match s.plannedExit config with
          | .ok (exit, withdrawable) => (.ok (), s.withExit index exit withdrawable)
          | .error failure => (.error failure, s)
        else (.ok (), s) := by
  unfold initiateExit plannedExit
  rw [Action.runOn_bind, runOn_read_validator]
  rcases hv : s.validators[index]? with _ | v
  · rfl
  · by_cases hstay : v.isStaying = true
    · simp only [hstay, if_true]
      rw [Action.runOn_bind, Action.runOn_query]
      rcases nextExitEpoch config s with failure | exit
      · rfl
      show (Action.ofExcept (withdrawableAfter config exit) >>= fun w => _).runOn s = _
      rw [Action.runOn_bind, Action.runOn_ofExcept]
      show _ = match withdrawableAfter config exit >>= fun w => Except.ok (exit, w) with
        | .ok (exit, w) => (Except.ok (ε := Failure) (), s.withExit index exit w)
        | .error failure => (Except.error failure, s)
      rcases withdrawableAfter config exit with failure | w
      · rfl
      show (Action.write (.exitEpoch index exit) >>= fun _ => _).runOn s = _
      rw [Action.runOn_bind, runOn_write_record rfl hv]
      show (Action.write (.withdrawableEpoch index w)).runOn (s.editRecord index _) = _
      rw [runOn_write_record rfl (getElem?_editRecord_self hv _), editRecord_editRecord]
      rfl
    · simp only [hstay]
      rfl

/-- An exit in memory that fails has written nothing. -/
theorem eq_of_initiateExit_error {config : Config} {index : Nat} {s t : State}
    {failure : Failure} (h : (initiateExit config index).runOn s = (.error failure, t)) :
    t = s := by
  rw [runOn_initiateExit] at h
  split at h
  · cases h
    rfl
  · split at h
    · split at h
      · nomatch h
      · cases h
        rfl
    · nomatch h

/-- What an exit that is planned looks like from the queue that the registry describes. -/
theorem plannedExit_eq_ok {config : Config} {s : State} {earliest exit w : Epoch}
    {queue : ExitQueue} (hearliest : activationExitEpoch config (currentEpoch config s) =
      .ok earliest) (hqueue : queue.Describes earliest s.exits)
    (h : s.plannedExit config = .ok (exit, w)) :
    exit.toNat = (queue.cursor (s.churnLimit config)).epoch ∧
      w.toNat = exit.toNat + config.minValidatorWithdrawabilityDelay.toNat := by
  obtain ⟨e, he, h⟩ := bind_eq_ok_iff.mp h
  obtain ⟨d, hd, h⟩ := bind_eq_ok_iff.mp h
  cases h
  rw [nextExitEpoch_eq, hearliest] at he
  have hscan : ExitQueue.ofValidators earliest s.validators.toList = queue :=
    (ExitQueue.describes_scan earliest s.validators.toList).unique hqueue
  refine ⟨?_, withdrawableAfter_eq_ok_iff.mp hd⟩
  rw [← hscan]
  exact ExitQueue.nextEpoch_eq_ok_iff.mp he

/-- Exits decided now take effect after the look-ahead. -/
theorem plannedExit_later {config : Config} {s : State} {exit w : Epoch}
    (h : s.plannedExit config = .ok (exit, w)) :
    (currentEpoch config s).toNat + 1 + config.maxSeedLookahead.toNat ≤ exit.toNat ∧
      w.toNat = exit.toNat + config.minValidatorWithdrawabilityDelay.toNat := by
  obtain ⟨e, he, -⟩ := bind_eq_ok_iff.mp h
  rw [nextExitEpoch_eq] at he
  obtain ⟨earliest, hearliest, -⟩ := bind_eq_ok_iff.mp he
  have hqueue := ExitQueue.describes_scan earliest s.validators.toList
  obtain ⟨hexit, hw⟩ := plannedExit_eq_ok hearliest hqueue h
  have h1 := hqueue.earliest_le
  have h2 := ExitQueue.last_le_cursor (ExitQueue.ofValidators earliest s.validators.toList)
    (s.churnLimit config)
  have h3 := activationExitEpoch_eq_ok_iff.mp hearliest
  exact ⟨by omega, hw⟩

/-- An exit changes two epochs of a record and nothing else. -/
theorem initiateExit_keeps {α : Type} {f : Validator → α}
    (hf : ∀ v exit w, f { v with exitEpoch := exit, withdrawableEpoch := w } = f v)
    (config : Config) (index : Nat) (s : State) :
    Action.StaysIn (Keeps f) (initiateExit config index) s := by
  unfold Action.StaysIn
  rw [runOn_initiateExit]
  split
  · exact Keeps.refl s
  · split
    · split
      · next exit w _ => exact Keeps.editRecord s index fun v => hf v exit w
      · exact Keeps.refl s
    · exact Keeps.refl s

/-! ## Several exits -/

/-- Is there a validator with this index who has no exit epoch yet? -/
def staysAt (s : State) (index : Nat) : Bool := (s.validators[index]?).any Validator.isStaying

theorem staysAt_iff {s : State} {index : Nat} :
    s.staysAt index = true ↔ ∃ v, s.validators[index]? = some v ∧ v.isStaying = true := by
  unfold staysAt
  rw [Option.any_eq_true]

theorem staysAt_withExit_ne {index i : Nat} (h : index ≠ i) (s : State) (exit w : Epoch) :
    (s.withExit index exit w).staysAt i = s.staysAt i := by
  unfold staysAt withExit
  rw [getElem?_editRecord_ne h]

/-- The exit and the withdrawable epoch of a validator, if there is one. -/
def exitTimes (s : State) (index : Nat) : Option (Epoch × Epoch) :=
  s.validators[index]?.map fun v => (v.exitEpoch, v.withdrawableEpoch)

theorem exitTimes_withExit_self {s : State} {index : Nat} {v : Validator}
    (hv : s.validators[index]? = some v) (exit w : Epoch) :
    (s.withExit index exit w).exitTimes index = some (exit, w) := by
  unfold exitTimes withExit
  rw [getElem?_editRecord_self hv]
  rfl

theorem exitTimes_withExit_ne {index i : Nat} (h : index ≠ i) (s : State) (exit w : Epoch) :
    (s.withExit index exit w).exitTimes i = s.exitTimes i := by
  unfold exitTimes withExit
  rw [getElem?_editRecord_ne h]

end State

/-- Puts validators into the queue, one after the other. -/
def exitAll {σ : Type} [StateAccess σ] (config : Config) : List Nat → Action σ Unit
  | [] => pure ()
  | index :: indices => do
    initiateExit config index
    exitAll config indices

/-- From `s` to `t` the `k`-th of these validators got the exit epoch `epochOf k` and the
    withdrawable epoch that is `delay` later; the epochs of all others stayed. -/
structure Assigned (delay : Nat) (s t : State) (indices : List Nat) (epochOf : Nat → Nat) :
    Prop where
  times : ∀ k i, indices[k]? = some i → ∃ exit w : Epoch,
    t.exitTimes i = some (exit, w) ∧ exit.toNat = epochOf k ∧ w.toNat = epochOf k + delay
  frame : ∀ i, i ∉ indices → t.exitTimes i = s.exitTimes i

namespace Assigned

theorem nil (delay : Nat) (s : State) (epochOf : Nat → Nat) : Assigned delay s s [] epochOf where
  times _ _ h := nomatch h
  frame _ _ := rfl

/-- One more exit before the others. -/
theorem cons {delay : Nat} {s t : State} {index : Nat} {indices : List Nat}
    {epochOf : Nat → Nat} {v : Validator} {exit w : Epoch}
    (hv : s.validators[index]? = some v) (hnew : index ∉ indices)
    (hexit : exit.toNat = epochOf 0) (hw : w.toNat = epochOf 0 + delay)
    (hrest : Assigned delay (s.withExit index exit w) t indices fun k => epochOf (k + 1)) :
    Assigned delay s t (index :: indices) epochOf where
  times k i hk := by
    cases k with
    | zero =>
      cases hk
      refine ⟨exit, w, ?_, hexit, hw⟩
      rw [hrest.frame index hnew]
      exact State.exitTimes_withExit_self hv exit w
    | succ k => exact hrest.times k i hk
  frame i hi := by
    have hne : index ≠ i := fun c => hi (c ▸ List.mem_cons_self)
    rw [hrest.frame i fun c => hi (List.mem_cons_of_mem index c)]
    exact State.exitTimes_withExit_ne hne s exit w

/-- What happens later leaves the assignment as it is if it leaves all exits as they are. -/
theorem trans_same {delay : Nat} {s t u : State} {indices : List Nat} {epochOf : Nat → Nat}
    (h : Assigned delay s t indices epochOf) (hsame : ∀ i, u.exitTimes i = t.exitTimes i) :
    Assigned delay s u indices epochOf where
  times k i hk := by
    rw [hsame i]
    exact h.times k i hk
  frame i hi := by
    rw [hsame i]
    exact h.frame i hi

/-- Two assignments to the same validators agree if and only if each validator got the same epoch
    in both. -/
theorem same_iff {delay : Nat} {s t u : State} {indices : List Nat} {f g : Nat → Nat}
    (hf : Assigned delay s t indices f) (hg : Assigned delay s u indices g) :
    (∀ i, t.exitTimes i = u.exitTimes i) ↔ ∀ k, k < indices.length → f k = g k := by
  constructor
  · intro hsame k hk
    have hi : indices[k]? = some indices[k] := List.getElem?_eq_getElem hk
    obtain ⟨e, w, he, hfk, -⟩ := hf.times k _ hi
    obtain ⟨e', w', he', hgk, -⟩ := hg.times k _ hi
    rw [hsame, he'] at he
    cases he
    rw [← hfk, ← hgk]
  · intro heq i
    by_cases hi : i ∈ indices
    · obtain ⟨k, hk, rfl⟩ := List.mem_iff_getElem.mp hi
      have hk' : indices[k]? = some indices[k] := List.getElem?_eq_getElem hk
      obtain ⟨e, w, he, hfe, hfw⟩ := hf.times k _ hk'
      obtain ⟨e', w', he', hge, hgw⟩ := hg.times k _ hk'
      have h1 : e = e' := UInt64.toNat_inj.mp (by rw [hfe, hge, heq k hk])
      have h2 : w = w' := UInt64.toNat_inj.mp (by rw [hfw, hgw, heq k hk])
      rw [he, he', h1, h2]
    · rw [hf.frame i hi, hg.frame i hi]

end Assigned

/-- The first of several exits, and then the others. -/
theorem exitAll_cons_eq_ok {config : Config} {index : Nat} {indices : List Nat} {s t : State}
    {v : Validator} (hv : s.validators[index]? = some v) (hstay : v.isStaying = true)
    (h : (exitAll config (index :: indices)).runOn s = (.ok (), t)) :
    ∃ exit w, s.plannedExit config = .ok (exit, w) ∧
      (exitAll config indices).runOn (s.withExit index exit w) = (.ok (), t) := by
  obtain ⟨_, u, hfirst, hrest⟩ := Action.runOn_bind_eq_ok_iff.mp h
  rw [State.runOn_initiateExit, hv] at hfirst
  simp only [hstay, if_true] at hfirst
  rcases hplan : s.plannedExit config with _ | ⟨exit, w⟩
  · rw [hplan] at hfirst
    nomatch hfirst
  · rw [hplan] at hfirst
    obtain rfl : s.withExit index exit w = u := congrArg Prod.snd hfirst
    exact ⟨exit, w, rfl, hrest⟩

/-- Exits one at a time: the `k`-th validator goes where the cursor of the queue is after `k`
    exits.  The last epoch there is stands for "not set", so that nobody put there fills it. -/
theorem exitAll_assigned {config : Config} {earliest : Epoch} {limit : Nat} (indices : List Nat) :
    ∀ {s t : State} {queue : ExitQueue},
      (exitAll config indices).runOn s = (.ok (), t) → indices.Nodup →
      (∀ i ∈ indices, s.staysAt i = true) →
      activationExitEpoch config (currentEpoch config s) = .ok earliest →
      s.churnLimit config = limit → queue.Describes earliest s.exits →
      Assigned config.minValidatorWithdrawabilityDelay.toNat s t indices fun k =>
        min farFutureEpoch.toNat ((queue.cursor limit).epochOf limit k) := by
  induction indices with
  | nil =>
    intro s t queue hrun _ _ _ _ _
    obtain ⟨-, rfl⟩ := Action.runOn_pure_eq_ok_iff.mp hrun
    exact Assigned.nil _ s _
  | cons index indices ih =>
    intro s t queue hrun hnodup hstay hearliest hlimit hqueue
    obtain ⟨hnew, hnodup'⟩ := List.nodup_cons.mp hnodup
    obtain ⟨v, hv, hvstay⟩ := State.staysAt_iff.mp (hstay index List.mem_cons_self)
    obtain ⟨exit, w, hplan, hrest⟩ := exitAll_cons_eq_ok hv hvstay hrun
    obtain ⟨hexit, hw⟩ := State.plannedExit_eq_ok hearliest hqueue hplan
    rw [hlimit] at hexit
    have hcur := activationExitEpoch_eq_ok_iff.mp hearliest
    have hlater : (currentEpoch config s).toNat < exit.toNat := by
      have h1 := hqueue.earliest_le
      have h2 := queue.last_le_cursor limit
      omega
    have htaken := queue.taken_cursor_lt limit
    have hzero : min farFutureEpoch.toNat ((queue.cursor limit).epochOf limit 0) =
        exit.toNat := by
      rw [Cursor.epochOf_zero htaken, ← hexit]
      exact Nat.min_eq_right (toNat_le_farFutureEpoch exit)
    have hstay' : ∀ i ∈ indices, (s.withExit index exit w).staysAt i = true := by
      intro i hi
      rw [State.staysAt_withExit_ne (fun c : index = i => hnew (c ▸ hi))]
      exact hstay i (List.mem_cons_of_mem index hi)
    have hlimit' : (s.withExit index exit w).churnLimit config = limit := by
      rw [State.churnLimit_withExit hv hvstay w hlater, hlimit]
    have hperm := State.exits_withExit hv hvstay exit w
    refine Assigned.cons hv hnew hzero.symm (by rw [hw, hzero]) ?_
    by_cases hfar : exit = farFutureEpoch
    · -- nothing was set: the queue is as before, and all later exits end up in the same place
      rw [if_pos hfar] at hperm
      have h := ih hrest hnodup' hstay' hearliest hlimit' (hqueue.perm hperm.symm)
      have hall : ∀ k, min farFutureEpoch.toNat ((queue.cursor limit).epochOf limit k) =
          farFutureEpoch.toNat := fun k => by
        have hle : farFutureEpoch.toNat ≤ (queue.cursor limit).epoch :=
          Nat.le_of_eq (by rw [← hexit, hfar])
        exact Nat.min_eq_left (Nat.le_trans hle (Nat.le_add_right _ _))
      simpa only [hall] using h
    · rw [if_neg hfar] at hperm
      have h := ih hrest hnodup' hstay' hearliest hlimit' ((hqueue.observe exit).perm hperm.symm)
      rw [ExitQueue.cursor_observe hexit] at h
      simpa only [Cursor.epochOf_succ htaken] using h

end Beacon
