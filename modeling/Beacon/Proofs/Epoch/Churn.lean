/-
  How the ejection pass fills the exit epochs.

  The pass begins where the summary found the exit queue free, with as many places taken there as
  have been counted.  From then on only the number of ejections decides: the `k`-th of those who
  stay gets a closed form, an epoch gets exactly as many as come before it is full
  (`Cursor.countP_epochOf`), and so no epoch gets more than the churn limit and none is left with
  room before the next one is begun.

  Nothing is asked of the registry at the time of the pass.  Whoever has got an exit epoch since the
  summary was made is passed over and takes no place.
-/
import Beacon.Proofs.Epoch.Ejections

namespace Beacon

open Beacon.Action

/-! ## How many exits an epoch gets -/

namespace Cursor

variable {cursor : Cursor} {limit : Nat}

theorem epochOf_eq_add_iff (j k : Nat) :
    cursor.epochOf limit k = cursor.epoch + j ↔
      j * room limit ≤ cursor.taken + k ∧ cursor.taken + k < j * room limit + room limit := by
  unfold epochOf
  rw [Nat.add_left_cancel_iff, Nat.div_eq_iff (room_pos limit)]
  have hpos := room_pos limit
  omega

/-- Of the first `count` exits from a cursor, the epoch that is `j` later gets as many as come
    before it is full.  The places taken before count for the cursor's own epoch. -/
theorem countP_epochOf (htaken : cursor.taken < room limit) (j count : Nat) :
    (List.range count).countP (fun k => cursor.epochOf limit k == cursor.epoch + j) +
        (if j = 0 then cursor.taken else 0) =
      min (cursor.taken + count - j * room limit) (room limit) := by
  induction count with
  | zero =>
    rw [List.range_zero, List.countP_nil]
    by_cases hj : j = 0
    · subst hj
      rw [if_pos rfl]
      omega
    · -- the places taken do not reach beyond the first epoch
      have hle : room limit ≤ j * room limit := Nat.le_mul_of_pos_left _ (by omega)
      rw [if_neg hj]
      omega
  | succ count ih =>
    -- one more exit either goes into this epoch or leaves its number as it is
    have hstep : (List.range (count + 1)).countP
          (fun k => cursor.epochOf limit k == cursor.epoch + j) =
        (List.range count).countP (fun k => cursor.epochOf limit k == cursor.epoch + j) +
          if cursor.epochOf limit count = cursor.epoch + j then 1 else 0 := by
      rw [List.range_succ, List.countP_append, List.countP_singleton]
      simp only [beq_iff_eq]
    rw [hstep, Nat.add_right_comm, ih]
    have hiff := @epochOf_eq_add_iff cursor limit j count
    split
    · next h =>
      rw [hiff] at h
      omega
    · next h =>
      rw [hiff] at h
      omega

end Cursor

/-! ## How many leave when -/

/-- How many of these validators leave in an epoch. -/
def State.leavingAmong (s : State) (indices : List Nat) (epoch : Epoch) : Nat :=
  indices.countP fun i => (s.exitTimes i).map Prod.fst == some epoch

/-- How many of these validators leave in an epoch, together with those whom the place for
    ejections counts there already. -/
def State.filled (s : State) (indices : List Nat) (found : ExitQueue) (epoch : Epoch) : Nat :=
  s.leavingAmong indices epoch + if epoch = found.last then found.churn else 0

namespace Assigned

variable {delay limit : Nat} {s t : State} {indices : List Nat} {found : ExitQueue}

/-- Those who were put into an epoch are counted by their places in the list. -/
theorem leavingAmong_eq {epochOf : Nat → Nat} (h : Assigned delay s t indices epochOf)
    (epoch : Epoch) :
    t.leavingAmong indices epoch =
      (List.range indices.length).countP fun k => epochOf k == epoch.toNat := by
  have hmap : indices.map (fun i => (t.exitTimes i).map Prod.fst == some epoch) =
      (List.range indices.length).map fun k => epochOf k == epoch.toNat := by
    apply List.ext_getElem
    · rw [List.length_map, List.length_map, List.length_range]
    · intro k hk _
      rw [List.length_map] at hk
      obtain ⟨exit, w, htimes, hexit, -⟩ := h.times k _ (List.getElem?_eq_getElem hk)
      rw [List.getElem_map, List.getElem_map, List.getElem_range, htimes, ← hexit,
        Option.map_some, Bool.eq_iff_iff, beq_iff_eq, beq_iff_eq, Option.some.injEq,
        UInt64.toNat_inj]
  have hcount := congrArg (List.countP id) hmap
  rw [List.countP_map, List.countP_map] at hcount
  exact hcount

/-- The epoch that is `j` after the place for ejections gets those who come before it is full. -/
theorem filled_eq (h : Assigned delay s t indices (found.place.epochOf limit))
    (htaken : found.place.taken < Cursor.room limit) {epoch : Epoch} {j : Nat}
    (hj : epoch.toNat = found.last.toNat + j) :
    t.filled indices found epoch =
      min (found.churn + indices.length - j * Cursor.room limit) (Cursor.room limit) := by
  have hzero : epoch = found.last ↔ j = 0 := by
    rw [← UInt64.toNat_inj]
    omega
  unfold State.filled
  rw [h.leavingAmong_eq, hj]
  simp only [hzero]
  exact Cursor.countP_epochOf htaken j _

/-- Nobody is put before the place for ejections. -/
theorem filled_before (h : Assigned delay s t indices (found.place.epochOf limit))
    {epoch : Epoch} (hlt : epoch < found.last) : t.filled indices found epoch = 0 := by
  rw [UInt64.lt_iff_toNat_lt] at hlt
  have hne : epoch ≠ found.last := by
    rintro rfl
    omega
  unfold State.filled
  rw [h.leavingAmong_eq, if_neg hne, Nat.add_zero, List.countP_eq_zero]
  intro k _ hk
  have hepoch := beq_iff_eq.mp hk
  have hge : found.last.toNat ≤ found.place.epochOf limit k := Nat.le_add_right _ _
  omega

/-- No epoch gets more than there is room for. -/
theorem filled_le (h : Assigned delay s t indices (found.place.epochOf limit))
    (htaken : found.place.taken < Cursor.room limit) (epoch : Epoch) :
    t.filled indices found epoch ≤ Cursor.room limit := by
  by_cases hle : found.last ≤ epoch
  · obtain ⟨j, hj⟩ := Nat.exists_eq_add_of_le (UInt64.le_iff_toNat_le.mp hle)
    rw [h.filled_eq htaken hj]
    exact Nat.min_le_right _ _
  · rw [h.filled_before (UInt64.not_le.mp hle)]
    exact Nat.zero_le _

/-- An epoch before one that is in use has no room left. -/
theorem filled_of_lt (h : Assigned delay s t indices (found.place.epochOf limit))
    (htaken : found.place.taken < Cursor.room limit) {i : Nat} (hi : i ∈ indices)
    {exit w : Epoch} (htimes : t.exitTimes i = some (exit, w)) {epoch : Epoch}
    (hle : found.last ≤ epoch) (hlt : epoch < exit) :
    t.filled indices found epoch = Cursor.room limit := by
  obtain ⟨k, hk, rfl⟩ := List.mem_iff_getElem.mp hi
  obtain ⟨exit', w', htimes', hexit, -⟩ := h.times k _ (List.getElem?_eq_getElem hk)
  rw [htimes] at htimes'
  cases htimes'
  rw [UInt64.lt_iff_toNat_lt] at hlt
  obtain ⟨j, hj⟩ := Nat.exists_eq_add_of_le (UInt64.le_iff_toNat_le.mp hle)
  obtain ⟨d, hd⟩ := Nat.exists_eq_add_of_lt hlt
  -- the `k`-th exit is in a later epoch, which begins when all earlier ones are full
  have hplace : found.place.epochOf limit k = found.place.epoch + (j + d + 1) := by
    rw [← hexit, hd, hj]
    show _ = found.last.toNat + (j + d + 1)
    omega
  have hfull := ((Cursor.epochOf_eq_add_iff _ k).mp hplace).1
  have hepochs : j * Cursor.room limit + Cursor.room limit ≤ (j + d + 1) * Cursor.room limit := by
    rw [← Nat.succ_mul]
    exact Nat.mul_le_mul_right _ (by omega)
  have htaken' : found.place.taken = found.churn := rfl
  rw [h.filled_eq htaken hj]
  omega

end Assigned

/-! ## The ejection pass -/

/-- The ejections of a closing epoch fill the exit epochs in order from the place that was found:
    the `k`-th of those who still stay has a closed form, nobody else's exit changes, no epoch gets
    more than the churn limit together with those counted before, and every epoch before one that
    is in use is full. -/
theorem ejections_fill_in_order {σ : Type} [StateAccess σ] {config : Config} {collected : σ}
    {committees : Committees} {signal signal' : StopSignal} {summary : EpochSummary}
    {p p' q q' : Progress} {s t : State}
    (hsummary : (Collect.summarize config collected committees signal).runOn p =
      (.ok summary, p'))
    (hlimit : 1 ≤ summary.churnLimit)
    (hupdate : (updateRegistry config summary signal').runOn (s, q) = (.ok (), (t, q'))) :
    (summary.toEject.filter s.staysAt).Pairwise (· < ·) ∧
    (∀ k i, (summary.toEject.filter s.staysAt)[k]? = some i → ∃ exit w : Epoch,
      t.exitTimes i = some (exit, w) ∧
      exit.toNat = summary.exitQueue.last.toNat +
        (summary.exitQueue.churn + k) / summary.churnLimit ∧
      w.toNat = exit.toNat + config.minValidatorWithdrawabilityDelay.toNat) ∧
    (∀ i, i ∉ summary.toEject.filter s.staysAt → t.exitTimes i = s.exitTimes i) ∧
    (∀ epoch, t.filled (summary.toEject.filter s.staysAt) summary.exitQueue epoch ≤
      summary.churnLimit) ∧
    (∀ i ∈ summary.toEject.filter s.staysAt, ∀ exit w, t.exitTimes i = some (exit, w) →
      ∀ epoch, summary.exitQueue.last ≤ epoch → epoch < exit →
        t.filled (summary.toEject.filter s.staysAt) summary.exitQueue epoch =
          summary.churnLimit) := by
  obtain ⟨vs, votes, hc⟩ := Collect.collected_of_summarize hsummary
  obtain ⟨earliest, -, hplace⟩ := Collect.place_of_firstFreeExit hc.exitQueue
  have hroom : Cursor.room summary.churnLimit = summary.churnLimit := Nat.max_eq_left hlimit
  have htaken : summary.exitQueue.place.taken < Cursor.room summary.churnLimit := by
    rw [hplace]
    exact ExitQueue.taken_cursor_lt _ _
  obtain ⟨u, heject, hsame⟩ := ejectAll_of_updateRegistry hupdate
  obtain ⟨hassigned, -⟩ := ejectAll_assigned _ heject hc.nodup_toEject htaken
  have hfinal := hassigned.trans_same hsame
  refine ⟨?_, fun k i hk => ?_, hfinal.frame, fun epoch => ?_, ?_⟩
  · rw [hc.toEject]
    exact (Collect.indicesWhere_pairwise _ vs).filter _
  · obtain ⟨exit, w, htimes, hexit, hw⟩ := hfinal.times k i hk
    refine ⟨exit, w, htimes, ?_, by rw [hw, hexit]⟩
    rw [hexit]
    show _ + _ / Cursor.room summary.churnLimit = _
    rw [hroom]
    rfl
  · rw [← hroom]
    exact hfinal.filled_le htaken epoch
  · intro i hi exit w htimes epoch hle hlt
    have hfull := hfinal.filled_of_lt htaken hi htimes hle hlt
    rw [hroom] at hfull
    exact hfull

/-- Two may leave in an epoch.  One of five validators leaves already, in the first epoch in which
    that is possible, and the others have too little stake to stay. -/
def crowded : State where
  slot := 17
  genesisValidatorsRoot := default
  fork := default
  blockRoots := #[default]
  validators := #[{ Collect.steady with effectiveBalance := 16000000000 },
    { Collect.steady with effectiveBalance := 15000000000 },
    { Collect.steady with exitEpoch := 7, withdrawableEpoch := 263 },
    { Collect.steady with effectiveBalance := 14000000000 },
    { Collect.steady with effectiveBalance := 13000000000 }]
  balances := #[16000000000, 15000000000, 32000000000, 14000000000, 13000000000]
  slashings := #[0]
  previousAttestations := []
  currentAttestations := []
  finalizedCheckpoint := default

/-- The epoch of this state, summed up. -/
def crowdedSummary : EpochSummary :=
  match ((Collect.summarize Config.minimal crowded noCommittees .never).runOn .start).1 with
  | .ok summary => summary
  | .error _ => default

/-- The state after one of the four has asked to leave by itself. -/
def crowdedLater : State := ((initiateExit Config.minimal 1).runOn crowded).2

/-- Who has left since the epoch was summed up is passed over, and the other three take the second
    place in the first epoch and both places in the next one. -/
theorem ejections_fill_in_order_crowded : ∃ p' t q',
    (Collect.summarize Config.minimal crowded noCommittees .never).runOn .start =
      (.ok crowdedSummary, p') ∧
    (updateRegistry Config.minimal crowdedSummary .never).runOn (crowdedLater, .start) =
      (.ok (), (t, q')) ∧
    crowdedSummary.toEject = [0, 1, 3, 4] ∧
    crowdedSummary.toEject.filter crowdedLater.staysAt = [0, 3, 4] ∧
    crowdedSummary.churnLimit = 2 ∧ crowdedSummary.exitQueue = ⟨7, 1⟩ ∧
    (∀ k i, [0, 3, 4][k]? = some i → ∃ exit w : Epoch, t.exitTimes i = some (exit, w) ∧
      exit.toNat = 7 + (1 + k) / 2 ∧ w.toNat = exit.toNat + 256) ∧
    t.exitTimes 1 = crowdedLater.exitTimes 1 ∧
    t.filled [0, 3, 4] ⟨7, 1⟩ 8 ≤ 2 ∧ t.filled [0, 3, 4] ⟨7, 1⟩ 7 = 2 := by
  obtain ⟨p', hsummary⟩ : ∃ p',
      (Collect.summarize Config.minimal crowded noCommittees .never).runOn .start =
        (.ok crowdedSummary, p') := ⟨_, rfl⟩
  have hok : ((updateRegistry Config.minimal crowdedSummary .never).runOn
      (crowdedLater, .start)).1.isOk = true := by decide +kernel
  obtain ⟨_, ⟨t, q'⟩, hupdate⟩ := exists_of_isOk hok
  have hejected : crowdedSummary.toEject.filter crowdedLater.staysAt = [0, 3, 4] := by
    decide +kernel
  have hlimit : crowdedSummary.churnLimit = 2 := by decide +kernel
  have hqueue : crowdedSummary.exitQueue = ⟨7, 1⟩ := by decide +kernel
  obtain ⟨-, htimes, hothers, hroom, hfull⟩ :=
    ejections_fill_in_order hsummary (by rw [hlimit]; decide) hupdate
  rw [hejected, hlimit, hqueue] at htimes hroom hfull
  rw [hejected] at hothers
  obtain ⟨exit, w, h4, hexit, -⟩ := htimes 2 4 rfl
  have hexit' : exit = 8 := UInt64.toNat_inj.mp hexit
  exact ⟨p', t, q', hsummary, hupdate, by decide +kernel, hejected, hlimit, hqueue, htimes,
    hothers 1 (by decide), hroom 8,
    hfull 4 (by decide) exit w h4 7 (by decide) (by rw [hexit']; decide)⟩

end Beacon
