/-
  The law of the exit queue for any sequence of exits at one slot.

  An exit may be asked for by itself or as the first part of a slashing, of validators in any
  order and of one validator more than once.  Each call looks through the whole registry for the
  end of the queue; the law says what comes out of it in the end, counted from the state before
  the first call:
    * the `k`-th call that meets a validator without an exit epoch has a closed form;
    * no epoch gets more than the churn limit;
    * the exit epochs as a whole depend on who was asked to leave, not on the order.

  `CallEffect` says all that one call can do.  What carries the induction over the calls is the
  PLACE of the next exit, a cursor that can be read off a state (`State.placeForExit`): a call that
  meets a validator without an exit epoch advances it by one, and any other call leaves it alone.
-/
import Beacon.Proofs.Epoch.Collected
import Beacon.Proofs.Registry.Slashing

namespace Beacon

open Beacon.Action Beacon.State

/-! ## The end of the queue -/

namespace State

/-- The last epoch of the queue, as a number: the latest exit epoch that is set, or the first epoch
    in which an exit decided now takes effect if that is later. -/
def queueEnd (config : Config) (s : State) : Nat :=
  (((currentEpoch config s).toNat + 1 + config.maxSeedLookahead.toNat) ::
    s.exits.map UInt64.toNat).max (List.cons_ne_nil _ _)

/-- How many validators have this exit epoch. -/
def leavingAt (s : State) (epoch : Nat) : Nat :=
  s.validators.toList.countP fun v => v.exitEpoch.toNat == epoch

/-- The place for the next exit: at the end of the queue, or behind it if the end is full. -/
def placeForExit (config : Config) (s : State) (limit : Nat) : Cursor :=
  if s.leavingAt (s.queueEnd config) < limit then
    ⟨s.queueEnd config, s.leavingAt (s.queueEnd config)⟩
  else ⟨s.queueEnd config + 1, 0⟩

theorem leavingAt_eq_count (s : State) {e : Epoch} (he : e ≠ farFutureEpoch) :
    s.leavingAt e.toNat = s.exits.count e := by
  rw [count_exits_of_ne s he]
  apply List.countP_congr
  intro v _
  rw [beq_iff_eq, beq_iff_eq, UInt64.toNat_inj]

theorem queueEnd_eq {config : Config} {s : State} {earliest : Epoch} {queue : ExitQueue}
    (hearliest : activationExitEpoch config (currentEpoch config s) = .ok earliest)
    (hqueue : queue.Describes earliest s.exits) : s.queueEnd config = queue.last.toNat := by
  unfold queueEnd
  rw [List.max_eq_iff, ← activationExitEpoch_eq_ok_iff.mp hearliest]
  constructor
  · rcases hqueue.attained with h | h
    · rw [h]
      exact List.mem_cons_self
    · exact List.mem_cons_of_mem _ (List.mem_map_of_mem h)
  · intro n hn
    rcases List.mem_cons.mp hn with rfl | hn
    · exact hqueue.earliest_le
    · obtain ⟨e, he, rfl⟩ := List.mem_map.mp hn
      exact hqueue.exit_le e he

/-- The place is where the cursor of the queue stands, unless the queue ends where "not set" is. -/
theorem placeForExit_eq {config : Config} {s : State} {earliest : Epoch} {queue : ExitQueue}
    (hearliest : activationExitEpoch config (currentEpoch config s) = .ok earliest)
    (hqueue : queue.Describes earliest s.exits) (hlast : queue.last ≠ farFutureEpoch)
    (limit : Nat) : s.placeForExit config limit = queue.cursor limit := by
  unfold placeForExit
  rw [queueEnd_eq hearliest hqueue, leavingAt_eq_count s hlast, ← hqueue.churn_eq]
  by_cases hfull : limit ≤ queue.churn
  · rw [ExitQueue.cursor_of_full hfull, if_neg (by omega)]
  · rw [ExitQueue.cursor_of_room hfull, if_pos (by omega)]
    rfl

/-- The closed form of the `k`-th exit from here. -/
theorem epochOf_placeForExit {config : Config} {s : State} {limit : Nat} (hlimit : 1 ≤ limit)
    (k : Nat) : (s.placeForExit config limit).epochOf limit k =
      if s.leavingAt (s.queueEnd config) < limit then
        s.queueEnd config + (s.leavingAt (s.queueEnd config) + k) / limit
      else s.queueEnd config + 1 + k / limit := by
  have hroom : Cursor.room limit = limit := Nat.max_eq_left hlimit
  unfold placeForExit Cursor.epochOf
  rw [hroom]
  split
  · rfl
  · rw [Nat.zero_add]

theorem taken_placeForExit_lt (config : Config) (s : State) (limit : Nat) :
    (s.placeForExit config limit).taken < Cursor.room limit := by
  unfold placeForExit Cursor.room
  split
  · show s.leavingAt _ < max limit 1
    omega
  · show 0 < max limit 1
    omega

namespace SameQueue

variable {s t : State}

theorem leavingAt_eq (h : SameQueue s t) (epoch : Nat) : t.leavingAt epoch = s.leavingAt epoch :=
  (h.keeps_exitEpoch.of_aspect (g := fun e : Epoch => e.toNat == epoch)).countP_eq

theorem placeForExit_eq (h : SameQueue s t) (config : Config) (limit : Nat) :
    t.placeForExit config limit = s.placeForExit config limit := by
  have hend : t.queueEnd config = s.queueEnd config := by
    unfold queueEnd
    congr 2
    · rw [h.currentEpoch_eq]
    · rw [h.exits_eq]
  unfold placeForExit
  rw [hend, h.leavingAt_eq]

end SameQueue

/-! ## One exit moves the place on -/

section

variable {config : Config} {s : State} {exit w : Epoch}

/-- The queue of a state in which an exit can be planned, and the place there. -/
theorem exists_queue (hdelay : 1 ≤ config.minValidatorWithdrawabilityDelay.toNat)
    (hplan : s.plannedExit config = .ok (exit, w)) : ∃ earliest queue,
      activationExitEpoch config (currentEpoch config s) = .ok earliest ∧
      ExitQueue.Describes earliest s.exits queue ∧ queue.last ≠ farFutureEpoch ∧
      exit.toNat = (queue.cursor (s.churnLimit config)).epoch := by
  obtain ⟨e, he, -⟩ := bind_eq_ok_iff.mp hplan
  rw [nextExitEpoch_eq] at he
  obtain ⟨earliest, hearliest, -⟩ := bind_eq_ok_iff.mp he
  have hqueue := ExitQueue.describes_scan earliest s.validators.toList
  have hexit := (plannedExit_eq_ok hearliest hqueue hplan).1
  refine ⟨earliest, _, hearliest, hqueue, fun hlast => ?_, hexit⟩
  -- the exit would not be before the end
  have hle := ExitQueue.last_le_cursor (ExitQueue.ofValidators earliest s.validators.toList)
    (s.churnLimit config)
  have hne := exit_ne_farFutureEpoch hdelay hplan
  rw [← hexit, hlast] at hle
  exact hne (UInt64.toNat_inj.mp (Nat.le_antisymm (toNat_le_farFutureEpoch exit) hle))

/-- The next exit goes to the place, and as many leave there as the place says. -/
theorem plannedExit_place (hdelay : 1 ≤ config.minValidatorWithdrawabilityDelay.toNat)
    (hplan : s.plannedExit config = .ok (exit, w)) :
    exit.toNat = (s.placeForExit config (s.churnLimit config)).epoch ∧
      s.exits.count exit = (s.placeForExit config (s.churnLimit config)).taken := by
  obtain ⟨earliest, queue, hearliest, hqueue, hlast, hexit⟩ := exists_queue hdelay hplan
  rw [placeForExit_eq hearliest hqueue hlast]
  refine ⟨hexit, ?_⟩
  by_cases hfull : s.churnLimit config ≤ queue.churn
  · -- nobody leaves behind the end
    rw [ExitQueue.cursor_of_full hfull] at hexit ⊢
    apply List.count_eq_zero.mpr
    intro hmem
    have hle := hqueue.exit_le exit hmem
    have hbehind : exit.toNat = queue.last.toNat + 1 := hexit
    omega
  · rw [ExitQueue.cursor_of_room hfull] at hexit ⊢
    obtain rfl : exit = queue.last := UInt64.toNat_inj.mp hexit
    exact hqueue.churn_eq.symm

theorem exits_withExit_of_plan (hdelay : 1 ≤ config.minValidatorWithdrawabilityDelay.toNat)
    (hplan : s.plannedExit config = .ok (exit, w)) {index : Nat} {v : Validator}
    (hv : s.validators[index]? = some v) (hstay : v.isStaying = true) :
    (s.withExit index exit w).exits.Perm (exit :: s.exits) := by
  have hperm := exits_withExit hv hstay exit w
  rwa [if_neg (exit_ne_farFutureEpoch hdelay hplan)] at hperm

theorem placeForExit_withExit (hdelay : 1 ≤ config.minValidatorWithdrawabilityDelay.toNat)
    (hplan : s.plannedExit config = .ok (exit, w)) {index : Nat} {v : Validator}
    (hv : s.validators[index]? = some v) (hstay : v.isStaying = true) :
    (s.withExit index exit w).placeForExit config (s.churnLimit config) =
      (s.placeForExit config (s.churnLimit config)).advance (s.churnLimit config) := by
  obtain ⟨earliest, queue, hearliest, hqueue, hlast, hexit⟩ := exists_queue hdelay hplan
  have hperm := exits_withExit_of_plan hdelay hplan hv hstay
  have hqueue' := (hqueue.observe exit).perm hperm.symm
  have hlast' : (queue.observe exit).last ≠ farFutureEpoch := by
    rcases hqueue'.attained with h | h
    · -- the earliest epoch is not after the old end
      intro hfar
      rw [h] at hfar
      have hle := hqueue.earliest_le
      rw [hfar] at hle
      exact hlast (UInt64.toNat_inj.mp (Nat.le_antisymm (toNat_le_farFutureEpoch _) hle))
    · exact ExitQueue.ne_farFutureEpoch_of_mem_exitsOf h
  have hearliest' : activationExitEpoch config (currentEpoch config (s.withExit index exit w)) =
      .ok earliest := hearliest
  rw [placeForExit_eq hearliest hqueue hlast, ← ExitQueue.cursor_observe hexit]
  exact placeForExit_eq hearliest' hqueue' hlast' _

end

end State

/-! ## Calls -/

/-- A call that puts a validator into the queue: on which state it was made, and what it left when
    the exit was done. -/
structure ExitCall where
  index : Nat
  before : State
  left : State

namespace ExitCall

/-- Does the call meet a validator without an exit epoch? -/
def meetsUnset (call : ExitCall) : Bool := call.before.staysAt call.index

/-- The exit epoch of the validator after the call. -/
def exitEpoch (call : ExitCall) : Epoch :=
  ((call.left.validators[call.index]?).map Validator.exitEpoch).getD farFutureEpoch

/-- The exit has succeeded.  It was all that was asked for, or a slashing went on from there, with
    whatever outcome. -/
inductive Makes (config : Config) (call : ExitCall) : State → Prop where
  | alone (hexit : (initiateExit config call.index).runOn call.before = (.ok (), call.left)) :
      Makes config call call.left
  | slashing (proposer : Nat) (whistleblower : Option Nat)
      (hexit : (initiateExit config call.index).runOn call.before = (.ok (), call.left)) :
      Makes config call
        ((slash config call.index proposer whistleblower).runOn call.before).2

/-- All that a call can do, when the churn limit is `limit`: nothing, or to move the place on by
    one exit. -/
inductive CallEffect (config : Config) (limit : Nat) (call : ExitCall) (after : State) : Prop where
  | still (hset : call.meetsUnset = false) (hleft : call.left = call.before)
      (hsame : SameQueue call.before after)
  | moved (exit w : Epoch) (hunset : call.meetsUnset = true)
      (hleft : call.left = call.before.withExit call.index exit w)
      (hepoch : call.exitEpoch = exit) (hne : exit ≠ farFutureEpoch)
      (hexit : exit.toNat = (call.before.placeForExit config limit).epoch)
      (hw : w.toNat = exit.toNat + config.minValidatorWithdrawabilityDelay.toNat)
      (hcount : call.before.exits.count exit = (call.before.placeForExit config limit).taken)
      (hplace : call.left.placeForExit config limit =
        (call.before.placeForExit config limit).advance limit)
      (hexits : call.left.exits.Perm (exit :: call.before.exits))
      (hgone : call.left.staysAt call.index = false)
      (hlimit : call.left.churnLimit config = limit) (hsame : SameQueue call.left after)

theorem Makes.sameQueue {config : Config} {call : ExitCall} {after : State}
    (h : call.Makes config after) : SameQueue call.left after := by
  cases h with
  | alone hexit => exact .refl _
  | slashing proposer whistleblower hexit =>
    exact (slashEffect config call.index proposer whistleblower call.before).sameQueue hexit

theorem Makes.effect {config : Config} {call : ExitCall} {after : State} {limit : Nat}
    (h : call.Makes config after)
    (hdelay : 1 ≤ config.minValidatorWithdrawabilityDelay.toNat)
    (hlimit : call.before.churnLimit config = limit) : CallEffect config limit call after := by
  have hsame := h.sameQueue
  have hexit : (initiateExit config call.index).runOn call.before = (.ok (), call.left) := by
    cases h with
    | alone hexit => exact hexit
    | slashing proposer whistleblower hexit => exact hexit
  obtain ⟨index, before, left⟩ := call
  dsimp only at hexit hsame hlimit
  cases exitEffect_of_initiateExit hexit with
  | leaving hv hstay =>
    refine .still ?_ rfl hsame
    show before.staysAt index = false
    unfold staysAt
    rw [hv]
    exact hstay
  | @planned v exit w hv hstay hplan =>
    subst hlimit
    obtain ⟨hepoch, hcount⟩ := plannedExit_place hdelay hplan
    obtain ⟨hlater, hw⟩ := plannedExit_later hplan
    have hne := exit_ne_farFutureEpoch hdelay hplan
    have hrecord : (before.withExit index exit w).validators[index]? =
        some { v with exitEpoch := exit, withdrawableEpoch := w } :=
      getElem?_editRecord_self hv _
    refine .moved exit w (staysAt_iff.mpr ⟨v, hv, hstay⟩) rfl ?_ hne hepoch hw hcount
      (placeForExit_withExit hdelay hplan hv hstay)
      (exits_withExit_of_plan hdelay hplan hv hstay) ?_
      (churnLimit_withExit hv hstay w (by omega)) hsame
    · show (((before.withExit index exit w).validators[index]?).map _).getD _ = exit
      rw [hrecord]
      rfl
    · show ((before.withExit index exit w).validators[index]?).any _ = false
      rw [hrecord]
      exact beq_eq_false_iff_ne.mpr hne

theorem CallEffect.churnLimit_eq {config : Config} {call : ExitCall} {after : State} {limit : Nat}
    (h : CallEffect config limit call after) (hlimit : call.before.churnLimit config = limit) :
    after.churnLimit config = limit := by
  cases h with
  | still hset hleft hsame => exact hsame.churnLimit_eq.trans hlimit
  | moved exit w hunset hleft hepoch hne hexit hw hcount hplace hexits hgone hlimit' hsame =>
    exact hsame.churnLimit_eq.trans hlimit'

theorem CallEffect.size_eq {config : Config} {call : ExitCall} {after : State} {limit : Nat}
    (h : CallEffect config limit call after) :
    after.validators.size = call.before.validators.size := by
  cases h with
  | still hset hleft hsame => exact hsame.records.size_eq
  | moved exit w hunset hleft hepoch hne hexit hw hcount hplace hexits hgone hlimit' hsame =>
    rw [hsame.records.size_eq, hleft]
    exact size_editRecord _ _ _

end ExitCall

/-- Calls one after the other, at one slot. -/
inductive ExitCalls (config : Config) : State → List ExitCall → State → Prop where
  | nil (s : State) : ExitCalls config s [] s
  | cons (call : ExitCall) {calls : List ExitCall} {after t : State}
      (hcall : call.Makes config after) (hrest : ExitCalls config after calls t) :
      ExitCalls config call.before (call :: calls) t

/-- The calls that met a validator without an exit epoch. -/
def effective (calls : List ExitCall) : List ExitCall := calls.filter ExitCall.meetsUnset

/-- The exit epochs that were given, in the order of the calls. -/
def givenExits (calls : List ExitCall) : List Epoch := (effective calls).map ExitCall.exitEpoch

section

variable {call : ExitCall} {calls : List ExitCall}

theorem effective_cons_of_still (h : call.meetsUnset = false) :
    effective (call :: calls) = effective calls :=
  List.filter_cons_of_neg (by rw [h]; exact Bool.false_ne_true)

theorem effective_cons_of_moved (h : call.meetsUnset = true) :
    effective (call :: calls) = call :: effective calls :=
  List.filter_cons_of_pos h

end

namespace ExitCalls

variable {config : Config} {limit : Nat} {s t : State} {calls : List ExitCall}
  (h : ExitCalls config s calls t)
  (hdelay : 1 ≤ config.minValidatorWithdrawabilityDelay.toNat)
  (hlimit : s.churnLimit config = limit)

include h hdelay hlimit

/-- The `k`-th call with an effect puts its validator where the place stands after `k` exits. -/
theorem exit_eq : ∀ (k : Nat) (call : ExitCall), (effective calls)[k]? = some call →
    ∃ exit w : Epoch, call.left = call.before.withExit call.index exit w ∧
      call.exitEpoch = exit ∧ exit.toNat = (s.placeForExit config limit).epochOf limit k ∧
      w.toNat = exit.toNat + config.minValidatorWithdrawabilityDelay.toNat := by
  induction h with
  | nil s =>
    intro k call hk
    nomatch hk
  | @cons call calls after t hcall hrest ih =>
    intro k c hk
    have heffect := hcall.effect hdelay hlimit
    have hafter := heffect.churnLimit_eq hlimit
    cases heffect with
    | still hset hleft hsame =>
      rw [effective_cons_of_still hset] at hk
      rw [← hsame.placeForExit_eq]
      exact ih hafter k c hk
    | moved exit w hunset hleft hepoch hne hexit hw hcount hplace hexits hgone hlimit' hsame =>
      have htaken := taken_placeForExit_lt config call.before limit
      rw [effective_cons_of_moved hunset] at hk
      cases k with
      | zero =>
        obtain rfl : call = c := Option.some.inj hk
        exact ⟨exit, w, hleft, hepoch, by rw [Cursor.epochOf_zero htaken, hexit], hw⟩
      | succ k =>
        -- the rest of the calls begins at the next place
        rw [Cursor.epochOf_succ htaken, ← hplace, ← hsame.placeForExit_eq]
        exact ih hafter k c hk

theorem left_eq : ∀ call ∈ calls, call.meetsUnset = false → call.left = call.before := by
  induction h with
  | nil s => exact fun _ hc => absurd hc List.not_mem_nil
  | @cons call calls after t hcall hrest ih =>
    intro c hc hset'
    have heffect := hcall.effect hdelay hlimit
    have hafter := heffect.churnLimit_eq hlimit
    cases heffect with
    | still hset hleft hsame =>
      rcases List.mem_cons.mp hc with rfl | hc
      · exact hleft
      · exact ih hafter c hc hset'
    | moved exit w hunset hleft hepoch hne hexit hw hcount hplace hexits hgone hlimit' hsame =>
      rcases List.mem_cons.mp hc with rfl | hc
      · rw [hunset] at hset'
        nomatch hset'
      · exact ih hafter c hc hset'

/-- What was given comes to the exit epochs there were. -/
theorem exits_perm : t.exits.Perm (givenExits calls ++ s.exits) := by
  induction h with
  | nil s => exact List.Perm.refl _
  | @cons call calls after t hcall hrest ih =>
    unfold givenExits at ih ⊢
    have heffect := hcall.effect hdelay hlimit
    have hafter := heffect.churnLimit_eq hlimit
    cases heffect with
    | still hset hleft hsame =>
      rw [effective_cons_of_still hset, ← hsame.exits_eq]
      exact ih hafter
    | moved exit w hunset hleft hepoch hne hexit hw hcount hplace hexits hgone hlimit' hsame =>
      rw [effective_cons_of_moved hunset, List.map_cons, hepoch]
      have hrest := ih hafter
      rw [hsame.exits_eq] at hrest
      exact (hrest.trans (hexits.append_left _)).trans List.perm_middle

/-- No exit epoch is taken back. -/
theorem count_le (e : Epoch) :
    ∀ call ∈ calls, call.left.exits.count e ≤ t.exits.count e := by
  induction h with
  | nil s => exact fun _ hc => absurd hc List.not_mem_nil
  | @cons call calls after t hcall hrest ih =>
    intro c hc
    have hafter := (hcall.effect hdelay hlimit).churnLimit_eq hlimit
    rcases List.mem_cons.mp hc with rfl | hc
    · rw [(hrest.exits_perm hdelay hafter).count_eq, List.count_append,
        hcall.sameQueue.exits_eq]
      exact Nat.le_add_left _ _
    · exact ih hafter c hc

/-- An epoch that is within the limit stays within it, and so does every epoch that is given. -/
theorem count_le_limit (hpos : 1 ≤ limit) (e : Epoch) :
    e ∈ givenExits calls ∨ s.exits.count e ≤ limit → t.exits.count e ≤ limit := by
  induction h with
  | nil s =>
    rintro (hgiven | hcount)
    · exact absurd hgiven List.not_mem_nil
    · exact hcount
  | @cons call calls after t hcall hrest ih =>
    unfold givenExits at ih ⊢
    have heffect := hcall.effect hdelay hlimit
    have hafter := heffect.churnLimit_eq hlimit
    cases heffect with
    | still hset hleft hsame =>
      rw [effective_cons_of_still hset, ← hsame.exits_eq]
      exact ih hafter
    | moved exit w hunset hleft hepoch hne hexit hw hcount hplace hexits hgone hlimit' hsame =>
      intro hcase
      rw [effective_cons_of_moved hunset, List.map_cons, hepoch, List.mem_cons] at hcase
      apply ih hafter
      rw [hsame.exits_eq, hexits.count_eq]
      by_cases heq : e = exit
      · -- the place had room for one more
        subst heq
        have htaken := taken_placeForExit_lt config call.before limit
        have hroom : Cursor.room limit = limit := Nat.max_eq_left hpos
        rw [List.count_cons_self, hcount]
        exact Or.inr (by omega)
      · rw [List.count_cons_of_ne (Ne.symm heq)]
        exact hcase.imp_left fun hmem => hmem.resolve_left heq

/-- Nobody gets an exit epoch twice, and everybody gets one who had none and was asked to leave. -/
theorem nodup_and_mem_effective :
    ((effective calls).map ExitCall.index).Nodup ∧
    ∀ i, i ∈ (effective calls).map ExitCall.index ↔
      i ∈ calls.map ExitCall.index ∧ s.staysAt i = true := by
  induction h with
  | nil s =>
    refine ⟨List.nodup_nil, fun i => ?_⟩
    exact ⟨fun hi => absurd hi List.not_mem_nil, fun hi => absurd hi.1 List.not_mem_nil⟩
  | @cons call calls after t hcall hrest ih =>
    have heffect := hcall.effect hdelay hlimit
    have hafter := heffect.churnLimit_eq hlimit
    cases heffect with
    | still hset hleft hsame =>
      obtain ⟨hnodup, hmem⟩ := ih hafter
      rw [effective_cons_of_still hset]
      refine ⟨hnodup, fun i => ?_⟩
      rw [hmem i, hsame.staysAt_eq, List.map_cons, List.mem_cons]
      refine and_congr_left fun hstay => ⟨Or.inr, fun hi => hi.resolve_left ?_⟩
      rintro rfl
      exact Bool.false_ne_true (hset.symm.trans hstay)
    | moved exit w hunset hleft hepoch hne hexit hw hcount hplace hexits hgone hlimit' hsame =>
      obtain ⟨hnodup, hmem⟩ := ih hafter
      -- who has left does not stay any more, and all others stay as before
      have hself : after.staysAt call.index = false := (hsame.staysAt_eq _).trans hgone
      have hothers : ∀ i, i ≠ call.index → after.staysAt i = call.before.staysAt i := by
        intro i hi
        rw [hsame.staysAt_eq, hleft, staysAt_withExit_ne (Ne.symm hi)]
      rw [effective_cons_of_moved hunset, List.map_cons, List.map_cons]
      refine ⟨List.nodup_cons.mpr ⟨fun hagain => ?_, hnodup⟩, fun i => ?_⟩
      · have hstay := ((hmem _).mp hagain).2
        rw [hself] at hstay
        nomatch hstay
      · rw [List.mem_cons, List.mem_cons, hmem i]
        by_cases hi : i = call.index
        · subst hi
          exact ⟨fun _ => ⟨Or.inl rfl, hunset⟩, fun _ => Or.inl rfl⟩
        · rw [hothers i hi]
          constructor
          · rintro (heq | ⟨hi', hstay⟩)
            · exact absurd heq hi
            · exact ⟨Or.inr hi', hstay⟩
          · rintro ⟨heq | hi', hstay⟩
            · exact absurd heq hi
            · exact Or.inr ⟨hi', hstay⟩

theorem size_eq : t.validators.size = s.validators.size := by
  induction h with
  | nil s => rfl
  | @cons call calls after t hcall hrest ih =>
    have heffect := hcall.effect hdelay hlimit
    exact (ih (heffect.churnLimit_eq hlimit)).trans heffect.size_eq

theorem givenExits_eq {k : Nat} {e : Epoch} (hk : (givenExits calls)[k]? = some e) :
    e.toNat = (s.placeForExit config limit).epochOf limit k := by
  unfold givenExits at hk
  rw [List.getElem?_map] at hk
  obtain ⟨call, hcall, rfl⟩ := Option.map_eq_some_iff.mp hk
  obtain ⟨exit, w, -, hexit, hepoch, -⟩ := h.exit_eq hdelay hlimit k call hcall
  rw [hexit, hepoch]

/-- Who was asked to leave decides which exit epochs are given, whatever the order. -/
theorem givenExits_congr {t' : State} {calls' : List ExitCall} (h' : ExitCalls config s calls' t')
    (hsame : ∀ i, i ∈ calls.map ExitCall.index ↔ i ∈ calls'.map ExitCall.index) :
    givenExits calls = givenExits calls' := by
  obtain ⟨hnodup, hmem⟩ := h.nodup_and_mem_effective hdelay hlimit
  obtain ⟨hnodup', hmem'⟩ := h'.nodup_and_mem_effective hdelay hlimit
  have hperm : ((effective calls).map ExitCall.index).Perm
      ((effective calls').map ExitCall.index) := by
    rw [List.perm_ext_iff_of_nodup hnodup hnodup']
    intro i
    rw [hmem i, hmem' i, hsame i]
  have hlength : (givenExits calls).length = (givenExits calls').length := by
    have := hperm.length_eq
    unfold givenExits
    rwa [List.length_map, List.length_map] at this ⊢
  apply List.ext_getElem hlength
  intro k hk hk'
  have h1 := h.givenExits_eq hdelay hlimit (List.getElem?_eq_getElem hk)
  have h2 := h'.givenExits_eq hdelay hlimit (List.getElem?_eq_getElem hk')
  exact UInt64.toNat_inj.mp (h1.trans h2.symm)

end ExitCalls

/-! ## The law -/

/-- Lists of one length are the same in some order if they are but for one value. -/
theorem perm_of_filter_ne {as bs : List Epoch} {a : Epoch} (hlength : as.length = bs.length)
    (h : (as.filter (· != a)).Perm (bs.filter (· != a))) : as.Perm bs := by
  rw [List.perm_iff_count]
  intro e
  by_cases he : e = a
  · subst he
    have hcount : ∀ l : List Epoch, l.count e + (l.filter (· != e)).length = l.length := by
      intro l
      rw [← List.countP_eq_length_filter, List.count_eq_countP,
        List.length_eq_countP_add_countP (· == e)]
      congr 1
      apply List.countP_congr
      intro x _
      simp
    have h1 := hcount as
    have h2 := hcount bs
    have h3 := h.length_eq
    omega
  · have hkept : ∀ l : List Epoch, (l.filter (· != a)).count e = l.count e := fun l =>
      List.count_filter (bne_iff_ne.mpr he)
    rw [← hkept as, ← hkept bs, h.count_eq]

theorem perm_exitEpochs {s t : State} (hsize : s.validators.size = t.validators.size)
    (h : s.exits.Perm t.exits) :
    (s.validators.toList.map Validator.exitEpoch).Perm
      (t.validators.toList.map Validator.exitEpoch) := by
  refine perm_of_filter_ne ?_ h
  rw [List.length_map, List.length_map, Array.length_toList, Array.length_toList, hsize]

/-- Any sequence of exits at one slot: the `k`-th that meets a validator without an exit epoch has
    a closed form, the others do nothing, the epochs given never decrease and none of them ever has
    more than the limit, and the exit epochs as a whole do not depend on the order. -/
theorem exitQueue_law {config : Config} {limit : Nat} {s t : State} {calls : List ExitCall}
    (hdelay : 1 ≤ config.minValidatorWithdrawabilityDelay.toNat)
    (hlimit : registryChurnLimit config s = .ok limit) (hpos : 1 ≤ limit)
    (hcalls : ExitCalls config s calls t) :
    (∀ (k : Nat) (call : ExitCall), (effective calls)[k]? = some call → ∃ exit w : Epoch,
      call.left = call.before.withExit call.index exit w ∧ call.exitEpoch = exit ∧
      exit.toNat = (if s.leavingAt (s.queueEnd config) < limit then
          s.queueEnd config + (s.leavingAt (s.queueEnd config) + k) / limit
        else s.queueEnd config + 1 + k / limit) ∧
      w.toNat = exit.toNat + config.minValidatorWithdrawabilityDelay.toNat) ∧
    (∀ call ∈ calls, call.meetsUnset = false → call.left = call.before) ∧
    (givenExits calls).Pairwise (· ≤ ·) ∧
    (∀ e ∈ givenExits calls, t.leavingAt e.toNat ≤ limit ∧
      ∀ call ∈ calls, call.left.leavingAt e.toNat ≤ limit) ∧
    ∀ (calls' : List ExitCall) (t' : State), ExitCalls config s calls' t' →
      (∀ i, i ∈ calls.map ExitCall.index ↔ i ∈ calls'.map ExitCall.index) →
      (t.validators.toList.map Validator.exitEpoch).Perm
        (t'.validators.toList.map Validator.exitEpoch) := by
  rw [registryChurnLimit_eq, Except.ok.injEq] at hlimit
  refine ⟨?_, hcalls.left_eq hdelay hlimit, ?_, ?_, ?_⟩
  · intro k call hk
    rw [← epochOf_placeForExit hpos k]
    exact hcalls.exit_eq hdelay hlimit k call hk
  · rw [List.pairwise_iff_getElem]
    intro j k hj hk hjk
    have h1 := hcalls.givenExits_eq hdelay hlimit (List.getElem?_eq_getElem hj)
    have h2 := hcalls.givenExits_eq hdelay hlimit (List.getElem?_eq_getElem hk)
    rw [UInt64.le_iff_toNat_le, h1, h2]
    exact Cursor.epochOf_mono _ _ (Nat.le_of_lt hjk)
  · intro e he
    have hne : e ≠ farFutureEpoch := by
      have hmem := (hcalls.exits_perm hdelay hlimit).mem_iff.mpr (List.mem_append_left _ he)
      exact ExitQueue.ne_farFutureEpoch_of_mem_exitsOf hmem
    have hend := hcalls.count_le_limit hdelay hlimit hpos e (Or.inl he)
    rw [leavingAt_eq_count t hne]
    refine ⟨hend, fun call hcall => ?_⟩
    rw [leavingAt_eq_count _ hne]
    exact Nat.le_trans (hcalls.count_le hdelay hlimit e call hcall) hend
  · intro calls' t' hcalls' hsame
    have hexits := hcalls.exits_perm hdelay hlimit
    rw [hcalls.givenExits_congr hdelay hlimit hcalls' hsame] at hexits
    refine perm_exitEpochs ?_ (hexits.trans (hcalls'.exits_perm hdelay hlimit).symm)
    rw [hcalls.size_eq hdelay hlimit, hcalls'.size_eq hdelay hlimit]

/-- Two may leave in an epoch.  One of four validators leaves already, in the first epoch in which
    that is possible. -/
def leaving : State where
  slot := 17
  genesisValidatorsRoot := default
  fork := default
  blockRoots := #[default]
  validators := #[Collect.steady, Collect.steady,
    { Collect.steady with exitEpoch := 7, withdrawableEpoch := 263 }, Collect.steady]
  balances := #[32000000000, 32000000000, 32000000000, 32000000000]
  slashings := #[0]
  previousAttestations := []
  currentAttestations := []
  finalizedCheckpoint := ⟨1, default⟩

/-- The state after an exit. -/
def afterExit (s : State) (index : Nat) : State := ((initiateExit Config.minimal index).runOn s).2

/-- An exit by itself, as a call. -/
def callOn (s : State) (index : Nat) : ExitCall := ⟨index, s, afterExit s index⟩

/-- A validator leaves, another one is asked to leave again, and a third one is slashed. -/
def leavingCalls : List ExitCall :=
  [callOn leaving 1, callOn (afterExit leaving 1) 2,
    callOn (afterExit (afterExit leaving 1) 2) 0]

def leavingEnd : State :=
  ((slash Config.minimal 0 3 none).runOn (afterExit (afterExit leaving 1) 2)).2

/-- The same three the other way round. -/
def leavingBackwards : List ExitCall :=
  [callOn leaving 0, callOn (afterExit leaving 0) 2,
    callOn (afterExit (afterExit leaving 0) 2) 1]

def leavingBackwardsEnd : State := afterExit (afterExit (afterExit leaving 0) 2) 1

/-- The first exit still finds room in the epoch where one leaves already, and the second one goes
    into the next epoch, whoever comes first. -/
theorem exitQueue_law_leaving :
    registryChurnLimit Config.minimal leaving = .ok 2 ∧
    leaving.queueEnd Config.minimal = 7 ∧ leaving.leavingAt 7 = 1 ∧
    ExitCalls Config.minimal leaving leavingCalls leavingEnd ∧
    givenExits leavingCalls = [7, 8] ∧ leavingEnd.leavingAt 7 ≤ 2 ∧
    (leavingEnd.validators.toList.map Validator.exitEpoch).Perm
      (leavingBackwardsEnd.validators.toList.map Validator.exitEpoch) := by
  have hexit : ∀ (s : State) (index : Nat),
      ((initiateExit Config.minimal index).runOn s).1.isOk = true →
      (initiateExit Config.minimal (callOn s index).index).runOn (callOn s index).before =
        (.ok (), (callOn s index).left) := by
    intro s index hok
    obtain ⟨_, t, hrun⟩ := exists_of_isOk hok
    show (initiateExit Config.minimal index).runOn s = (.ok (), afterExit s index)
    unfold afterExit
    rw [hrun]
  have hcalls : ExitCalls Config.minimal leaving leavingCalls leavingEnd := by
    refine .cons (callOn leaving 1) (.alone (hexit _ _ (by decide +kernel))) ?_
    refine .cons (callOn (afterExit leaving 1) 2) (.alone (hexit _ _ (by decide +kernel))) ?_
    exact .cons (callOn (afterExit (afterExit leaving 1) 2) 0)
      (.slashing 3 none (hexit _ _ (by decide +kernel))) (.nil _)
  have hbackwards : ExitCalls Config.minimal leaving leavingBackwards leavingBackwardsEnd := by
    refine .cons (callOn leaving 0) (.alone (hexit _ _ (by decide +kernel))) ?_
    refine .cons (callOn (afterExit leaving 0) 2) (.alone (hexit _ _ (by decide +kernel))) ?_
    exact .cons (callOn (afterExit (afterExit leaving 0) 2) 1)
      (.alone (hexit _ _ (by decide +kernel))) (.nil _)
  have hlimit : registryChurnLimit Config.minimal leaving = .ok 2 := rfl
  have hgiven : givenExits leavingCalls = [7, 8] := by decide +kernel
  obtain ⟨-, -, -, hbound, horder⟩ := exitQueue_law (by decide) hlimit (by decide) hcalls
  have hsame : ∀ i, i ∈ leavingCalls.map ExitCall.index ↔
      i ∈ leavingBackwards.map ExitCall.index := by
    intro i
    show i ∈ [1, 2, 0] ↔ i ∈ [0, 2, 1]
    simp only [List.mem_cons, List.not_mem_nil, or_false]
    omega
  refine ⟨hlimit, by decide +kernel, by decide +kernel, hcalls, hgiven, ?_,
    horder leavingBackwards _ hbackwards hsame⟩
  exact (hbound 7 (by rw [hgiven]; exact List.mem_cons_self)).1

end Beacon
