/-
  All that a slashing can do to a state held in memory, with whatever outcome.

  A slashing goes through four stages: the validator leaves, its record is marked, its stake is
  noted in the ring, and balances are paid.  It may fail after any of them, and what was done
  stays done.  `SlashEffect` has one case for each place it can end, so that a property of
  slashings is shown by cases and never by running one.
-/
import Beacon.Proofs.Registry.Exits
import Beacon.Proofs.Registry.Evolution

namespace Beacon

open Beacon.Action Beacon.State

/-! ## Payments -/

/-- The state with a balance replaced. -/
def State.withBalance (s : State) (index : Nat) (amount : Gwei) : State :=
  { s with balances := s.balances.modify index fun _ => amount }

theorem State.getElem?_withBalance (s : State) (index : Nat) (amount : Gwei) (i : Nat) :
    (s.withBalance index amount).balances[i]? =
      if index = i then s.balances[i]?.map fun _ => amount else s.balances[i]? :=
  Array.getElem?_modify

theorem State.runOn_write_balance (index : Nat) (amount : Gwei) (s : State) :
    (Action.write (.balance index amount)).runOn s =
      if index < s.balances.size then (.ok (), s.withBalance index amount)
      else (.error (.access (.outsideList index s.balances.size)), s) := by
  show ((StateAccess.write (.balance index amount) s).1.mapError Failure.access,
    (StateAccess.write (.balance index amount) s).2) = _
  by_cases hlt : index < s.balances.size
  · have hwrite : s.afterWrite? (.balance index amount) = .ok (s.withBalance index amount) :=
      if_pos hlt
    rw [write_eq_ok hwrite, if_pos hlt]
    rfl
  · have hwrite : s.afterWrite? (.balance index amount) =
        .error (.outsideList index s.balances.size) := if_neg hlt
    rw [write_eq_error hwrite, if_neg hlt]
    rfl

theorem State.runOn_write_slashing (epoch : Epoch) (amount : Gwei) (s : State) :
    (Action.write (.slashing epoch amount)).runOn s =
      match s.noteSlashing epoch amount with
      | .ok noted => (.ok (), noted)
      | .error cause => (.error (.access cause), s) := by
  show ((StateAccess.write (.slashing epoch amount) s).1.mapError Failure.access,
    (StateAccess.write (.slashing epoch amount) s).2) = _
  rcases h : s.noteSlashing epoch amount with cause | noted
  · rw [write_eq_error (w := .slashing epoch amount) h]
    rfl
  · rw [write_eq_ok (w := .slashing epoch amount) h]
    rfl

/-- A stake that is noted is added to one entry of the ring. -/
theorem State.noteSlashing_eq_ok {s t : State} {epoch : Epoch} {amount : Gwei}
    (h : s.noteSlashing epoch amount = .ok t) : ∃ (position : Nat) (old new : Gwei),
      s.slashings[position]? = some old ∧ new.toNat = old.toNat + amount.toNat ∧
      t = { s with slashings := s.slashings.modify position fun _ => new } := by
  unfold noteSlashing at h
  split at h
  · nomatch h
  next position _ =>
  split at h
  · nomatch h
  next old hold =>
  split at h
  · nomatch h
  next new hnew =>
  cases h
  exact ⟨position, old, new, hold, Word.addChecked_eq_some_iff.mp hnew, rfl⟩

/-- All that taking from a balance can do. -/
theorem State.runOn_debit (index : Nat) (amount : Gwei) (s : State) :
    (debit index amount).runOn s =
      match s.balances[index]? with
      | none => (.error (.access (.outsideList index s.balances.size)), s)
      | some balance => (.ok (), s.withBalance index (Word.subSaturating balance amount)) := by
  have hread : (Action.read fun s : State => StateAccess.balance s index).runOn s =
      ((element s.balances index).mapError Failure.access, s) := rfl
  unfold debit
  rw [runOn_bind, hread]
  unfold element
  rcases hbalance : s.balances[index]? with _ | balance
  · rfl
  · show (Action.write (.balance index (Word.subSaturating balance amount))).runOn s = _
    rw [runOn_write_balance, if_pos (Array.getElem?_eq_some_iff.mp hbalance).1]

/-- Nothing has changed but the balances. -/
def State.OnlyBalances (s t : State) : Prop := t = { s with balances := t.balances }

namespace State.OnlyBalances

theorem refl (s : State) : OnlyBalances s s := rfl

theorem trans {s t u : State} (h : OnlyBalances s t) (h' : OnlyBalances t u) :
    OnlyBalances s u := by
  unfold OnlyBalances at h h' ⊢
  rw [h', h]

theorem bind {α β : Type} {first : Action State α} {next : α → Action State β} {s : State}
    (hfirst : StaysIn OnlyBalances first s)
    (hnext : ∀ a t, first.runOn s = (.ok a, t) → StaysIn OnlyBalances (next a) t) :
    StaysIn OnlyBalances (first >>= next) s :=
  StaysIn.bind (R := OnlyBalances) (fun _ _ _ => trans) hfirst hnext

theorem bind_still {α β : Type} {first : Action State α} {next : α → Action State β} {s : State}
    (hstill : (first.runOn s).2 = s)
    (hnext : ∀ a, first.runOn s = (.ok a, s) → StaysIn OnlyBalances (next a) s) :
    StaysIn OnlyBalances (first >>= next) s :=
  StaysIn.bind_still (R := OnlyBalances) refl hstill hnext

theorem write (index : Nat) (amount : Gwei) (s : State) :
    StaysIn OnlyBalances (Action.write (.balance index amount)) s := by
  unfold StaysIn
  rw [runOn_write_balance]
  split
  · rfl
  · rfl

theorem debit (index : Nat) (amount : Gwei) (s : State) :
    StaysIn OnlyBalances (debit index amount) s :=
  bind_still rfl fun _ _ => write index _ s

theorem credit (index : Nat) (amount : Gwei) (s : State) :
    StaysIn OnlyBalances (credit index amount) s :=
  bind_still rfl fun _ _ => bind_still rfl fun _ _ => write index _ s

end State.OnlyBalances

/-! ## Leaving -/

/-- What an exit that succeeds has done: nothing to a validator who was leaving already, and to
    another one what was planned. -/
inductive ExitEffect (config : Config) (index : Nat) (s : State) : State → Prop where
  | leaving {v : Validator} (hv : s.validators[index]? = some v) (hstay : v.isStaying = false) :
      ExitEffect config index s s
  | planned {v : Validator} {exit withdrawable : Epoch} (hv : s.validators[index]? = some v)
      (hstay : v.isStaying = true) (hplan : s.plannedExit config = .ok (exit, withdrawable)) :
      ExitEffect config index s (s.withExit index exit withdrawable)

theorem exitEffect_of_initiateExit {config : Config} {index : Nat} {s t : State}
    (h : (initiateExit config index).runOn s = (.ok (), t)) : ExitEffect config index s t := by
  rw [runOn_initiateExit] at h
  rcases hv : s.validators[index]? with _ | v
  · rw [hv] at h
    nomatch h
  rw [hv] at h
  by_cases hstay : v.isStaying = true
  · simp only [hstay, if_true] at h
    rcases hplan : s.plannedExit config with _ | ⟨exit, withdrawable⟩
    · rw [hplan] at h
      nomatch h
    · rw [hplan] at h
      obtain rfl : s.withExit index exit withdrawable = t := congrArg Prod.snd h
      exact .planned hv hstay hplan
  · simp only [hstay] at h
    obtain rfl : s = t := congrArg Prod.snd h
    exact .leaving hv (Bool.eq_false_iff.mpr hstay)

theorem ExitEffect.slot_eq {config : Config} {index : Nat} {s t : State}
    (h : ExitEffect config index s t) : t.slot = s.slot := by
  cases h with
  | leaving hv hstay => rfl
  | planned hv hstay hplan => rfl

theorem ExitEffect.exists_record {config : Config} {index : Nat} {s t : State}
    (h : ExitEffect config index s t) : ∃ v, t.validators[index]? = some v := by
  cases h with
  | leaving hv hstay => exact ⟨_, hv⟩
  | planned hv hstay hplan => exact ⟨_, getElem?_editRecord_self hv _⟩

theorem ExitEffect.others {config : Config} {index i : Nat} {s t : State}
    (h : ExitEffect config index s t) (hi : i ≠ index) : t.validators[i]? = s.validators[i]? := by
  cases h with
  | leaving hv hstay => rfl
  | planned hv hstay hplan => exact getElem?_editRecord_ne (Ne.symm hi) s _

/-- With a delay before the withdrawal, "not set" is never given as an exit epoch. -/
theorem exit_ne_farFutureEpoch {config : Config} {s : State} {exit withdrawable : Epoch}
    (hdelay : 1 ≤ config.minValidatorWithdrawabilityDelay.toNat)
    (hplan : s.plannedExit config = .ok (exit, withdrawable)) : exit ≠ farFutureEpoch := by
  rintro rfl
  have hw := (plannedExit_later hplan).2
  have := toNat_le_farFutureEpoch withdrawable
  omega

/-- Then whoever an exit succeeds for has left. -/
theorem ExitEffect.not_staying {config : Config} {index : Nat} {s t : State} {v : Validator}
    (h : ExitEffect config index s t)
    (hdelay : 1 ≤ config.minValidatorWithdrawabilityDelay.toNat)
    (hv : t.validators[index]? = some v) : v.isStaying = false := by
  cases h with
  | leaving hv' hstay =>
    rw [hv'] at hv
    cases hv
    exact hstay
  | planned hv' hstay hplan =>
    unfold withExit at hv
    rw [getElem?_editRecord_self hv'] at hv
    cases hv
    exact beq_eq_false_iff_ne.mpr (exit_ne_farFutureEpoch hdelay hplan)

/-! ## Slashing -/

/-- The state in which a validator is marked as slashed and can withdraw at this epoch. -/
def State.withSlashing (s : State) (index : Nat) (withdrawable : Epoch) : State :=
  s.editRecord index fun v => { v with slashed := true, withdrawableEpoch := withdrawable }

/-- Where a slashing can end, and with what.  `left` is the state after the exit. -/
inductive SlashEffect (config : Config) (index : Nat) (s : State) :
    Except Failure Unit → State → Prop where
  /-- The exit has failed, and nothing has been done. -/
  | refused {failure : Failure}
      (hexit : (initiateExit config index).runOn s = (.error failure, s)) :
      SlashEffect config index s (.error failure) s
  /-- The validator is leaving, but there is no epoch in which the ring would have gone round. -/
  | left {failure : Failure} {left : State}
      (hexit : (initiateExit config index).runOn s = (.ok (), left)) :
      SlashEffect config index s (.error failure) left
  /-- The validator is marked, but its stake does not go into the ring. -/
  | marked {failure : Failure} {left : State} {v : Validator} {withdrawable : Epoch}
      (hexit : (initiateExit config index).runOn s = (.ok (), left))
      (hv : left.validators[index]? = some v)
      (hwithdrawable : withdrawable.toNat = max
        ((currentEpoch config s).toNat + config.epochsPerSlashingsVector.val.toNat)
        v.withdrawableEpoch.toNat) :
      SlashEffect config index s (.error failure) (left.withSlashing index withdrawable)
  /-- The stake is in the ring.  The payments touch balances only, and may fail or not. -/
  | noted {result : Except Failure Unit} {left noted t : State} {v : Validator}
      {withdrawable : Epoch} (hexit : (initiateExit config index).runOn s = (.ok (), left))
      (hv : left.validators[index]? = some v)
      (hwithdrawable : withdrawable.toNat = max
        ((currentEpoch config s).toNat + config.epochsPerSlashingsVector.val.toNat)
        v.withdrawableEpoch.toNat)
      (hnote : (left.withSlashing index withdrawable).noteSlashing (currentEpoch config s)
        v.effectiveBalance = .ok noted) (hpaid : OnlyBalances noted t) :
      SlashEffect config index s result t

/-- The stages after the exit, whatever is paid. -/
theorem slashEffect_of_mark {config : Config} {index : Nat} {s left : State} {v : Validator}
    {withdrawable : Epoch} {pay : Action State Unit}
    (hexit : (initiateExit config index).runOn s = (.ok (), left))
    (hv : left.validators[index]? = some v)
    (hwithdrawable : withdrawable.toNat = max
      ((currentEpoch config s).toNat + config.epochsPerSlashingsVector.val.toNat)
      v.withdrawableEpoch.toNat)
    (hpay : ∀ t, StaysIn OnlyBalances pay t) {run : Except Failure Unit × State}
    (hrun : (do
      Action.write (.slashed index true)
      Action.write (.withdrawableEpoch index withdrawable)
      Action.write (.slashing (currentEpoch config s) v.effectiveBalance)
      pay : Action State Unit).runOn left = run) :
    SlashEffect config index s run.1 run.2 := by
  rw [runOn_write_write rfl rfl hv] at hrun
  change (_ >>= fun _ => pay).runOn (left.withSlashing index withdrawable) = run at hrun
  rw [runOn_bind, runOn_write_slashing] at hrun
  rcases hnote : (left.withSlashing index withdrawable).noteSlashing (currentEpoch config s)
    v.effectiveBalance with cause | noted
  · rw [hnote] at hrun
    subst hrun
    exact .marked hexit hv hwithdrawable
  · rw [hnote] at hrun
    subst hrun
    exact .noted hexit hv hwithdrawable hnote (hpay noted)

/-- A slashing ends in one of these ways. -/
theorem slashEffect (config : Config) (index proposer : Nat) (whistleblower : Option Nat)
    (s : State) :
    SlashEffect config index s ((slash config index proposer whistleblower).runOn s).1
      ((slash config index proposer whistleblower).runOn s).2 := by
  unfold slash
  rw [runOn_bind]
  rcases hexit : (initiateExit config index).runOn s with ⟨failure | _, left⟩
  · obtain rfl := eq_of_initiateExit_error hexit
    exact .refused hexit
  have heffect := exitEffect_of_initiateExit hexit
  have hepoch : currentEpoch config left = currentEpoch config s :=
    congrArg (epochAtSlot config) heffect.slot_eq
  obtain ⟨v, hv⟩ := heffect.exists_record
  dsimp only
  rw [runOn_bind, runOn_view, hepoch]
  dsimp only
  rw [runOn_bind, runOn_read_validator, hv]
  dsimp only
  rw [runOn_bind, runOn_ofExcept]
  rcases hring : Word.addChecked (currentEpoch config s) config.epochsPerSlashingsVector.val
    with _ | ringEnd
  · exact .left hexit
  rw [Word.addChecked_eq_some_iff] at hring
  have hwithdrawable : (max ringEnd v.withdrawableEpoch).toNat = max
      ((currentEpoch config s).toNat + config.epochsPerSlashingsVector.val.toNat)
      v.withdrawableEpoch.toNat := by
    rw [Word.toNat_max, hring]
  refine slashEffect_of_mark hexit hv hwithdrawable (fun t => ?_) rfl
  refine OnlyBalances.bind (OnlyBalances.debit index _ t) fun _ t _ => ?_
  refine OnlyBalances.bind_still rfl fun rest _ => ?_
  exact OnlyBalances.bind (OnlyBalances.credit proposer _ t) fun _ t _ =>
    OnlyBalances.credit _ _ t

theorem slashEffect_of_slash {config : Config} {index proposer : Nat} {whistleblower : Option Nat}
    {s t : State} {result : Except Failure Unit}
    (h : (slash config index proposer whistleblower).runOn s = (result, t)) :
    SlashEffect config index s result t := by
  have heffect := slashEffect config index proposer whistleblower s
  rwa [h] at heffect

/-- What is noted and paid does not show in the records. -/
theorem eq_of_noted {s noted t : State} {epoch : Epoch} {amount : Gwei}
    (hnote : s.noteSlashing epoch amount = .ok noted) (hpaid : OnlyBalances noted t) :
    t.validators = s.validators ∧ t.slot = s.slot := by
  obtain ⟨position, old, new, -, -, rfl⟩ := noteSlashing_eq_ok hnote
  rw [hpaid]
  exact ⟨rfl, rfl⟩

namespace SlashEffect

variable {config : Config} {index : Nat} {s t : State} {result : Except Failure Unit}

theorem slot_eq (h : SlashEffect config index s result t) : t.slot = s.slot := by
  cases h with
  | refused hexit => rfl
  | left hexit => exact (exitEffect_of_initiateExit hexit).slot_eq
  | marked hexit hv hwithdrawable => exact (exitEffect_of_initiateExit hexit).slot_eq
  | noted hexit hv hwithdrawable hnote hpaid =>
    rw [(eq_of_noted hnote hpaid).2]
    exact (exitEffect_of_initiateExit hexit).slot_eq

/-- A slashing touches one record only. -/
theorem others (h : SlashEffect config index s result t) {i : Nat} (hi : i ≠ index) :
    t.validators[i]? = s.validators[i]? := by
  cases h with
  | refused hexit => rfl
  | left hexit => exact (exitEffect_of_initiateExit hexit).others hi
  | @marked failure left v withdrawable hexit hv hwithdrawable =>
    rw [← (exitEffect_of_initiateExit hexit).others hi]
    exact getElem?_editRecord_ne (Ne.symm hi) left _
  | @noted result left noted t v withdrawable hexit hv hwithdrawable hnote hpaid =>
    rw [(eq_of_noted hnote hpaid).1, ← (exitEffect_of_initiateExit hexit).others hi]
    exact getElem?_editRecord_ne (Ne.symm hi) left _

end SlashEffect

/-- The record says that the validator was slashed in this epoch or later, and has left. -/
structure Validator.Struck (config : Config) (epoch : Epoch) (v : Validator) : Prop where
  slashed : v.slashed = true
  left : v.isStaying = false
  ring_le : epoch.toNat + config.epochsPerSlashingsVector.val.toNat ≤ v.withdrawableEpoch.toNat

/-- A slashing that succeeds has marked the record that the exit left. -/
theorem SlashEffect.record {config : Config} {index : Nat} {s t : State}
    (h : SlashEffect config index s (.ok ()) t) : ∃ (left : State) (v : Validator)
      (withdrawable : Epoch), (initiateExit config index).runOn s = (.ok (), left) ∧
      left.validators[index]? = some v ∧
      withdrawable.toNat = max
        ((currentEpoch config s).toNat + config.epochsPerSlashingsVector.val.toNat)
        v.withdrawableEpoch.toNat ∧
      t.validators[index]? = some { v with slashed := true, withdrawableEpoch := withdrawable } := by
  cases h with
  | @noted result left noted t v withdrawable hexit hv hwithdrawable hnote hpaid =>
    refine ⟨left, v, withdrawable, hexit, hv, hwithdrawable, ?_⟩
    rw [(eq_of_noted hnote hpaid).1]
    exact getElem?_editRecord_self hv _

/-- So its validator is struck. -/
theorem SlashEffect.struck {config : Config} {index : Nat} {s t : State}
    (h : SlashEffect config index s (.ok ()) t)
    (hdelay : 1 ≤ config.minValidatorWithdrawabilityDelay.toNat) :
    ∃ v, t.validators[index]? = some v ∧ v.Struck config (currentEpoch config s) := by
  obtain ⟨left, v, withdrawable, hexit, hv, hwithdrawable, ht⟩ := h.record
  have hleft : v.isStaying = false := (exitEffect_of_initiateExit hexit).not_staying hdelay hv
  refine ⟨_, ht, rfl, hleft, ?_⟩
  show _ ≤ withdrawable.toNat
  omega

/-! ## What the queue of exits sees of it -/

/-- Whatever the queue of exits is read from is the same. -/
structure State.SameQueue (s t : State) : Prop where
  slot : t.slot = s.slot
  records : Keeps (fun v => (v.activationEpoch, v.exitEpoch)) s t

namespace State.SameQueue

theorem refl (s : State) : SameQueue s s := ⟨rfl, Keeps.refl s⟩

theorem withSlashing (s : State) (index : Nat) (withdrawable : Epoch) :
    SameQueue s (s.withSlashing index withdrawable) :=
  ⟨rfl, Keeps.editRecord s index fun _ => rfl⟩

theorem keeps_exitEpoch {s t : State} (h : SameQueue s t) : Keeps Validator.exitEpoch s t :=
  h.records.of_aspect (g := Prod.snd)

theorem exits_eq {s t : State} (h : SameQueue s t) : t.exits = s.exits := by
  unfold exits ExitQueue.exitsOf
  rw [h.keeps_exitEpoch.map_toList]

theorem currentEpoch_eq {config : Config} {s t : State} (h : SameQueue s t) :
    currentEpoch config t = currentEpoch config s :=
  congrArg (epochAtSlot config) h.slot

theorem churnLimit_eq {config : Config} {s t : State} (h : SameQueue s t) :
    t.churnLimit config = s.churnLimit config := by
  have hactive : Keeps (fun v => v.isActive (currentEpoch config s)) s t :=
    h.records.of_aspect (g := fun epochs : Epoch × Epoch =>
      decide (epochs.1 ≤ currentEpoch config s) && decide (currentEpoch config s < epochs.2))
  unfold churnLimit
  rw [h.currentEpoch_eq, hactive.countP_eq]

theorem staysAt_eq {s t : State} (h : SameQueue s t) (i : Nat) : t.staysAt i = s.staysAt i := by
  have hi : (t.validators[i]?).map Validator.exitEpoch =
      (s.validators[i]?).map Validator.exitEpoch := h.keeps_exitEpoch i
  have hmap : ∀ option : Option Validator, option.any Validator.isStaying =
      (option.map Validator.exitEpoch).any (· == farFutureEpoch) := by
    rintro (_ | _) <;> rfl
  unfold staysAt
  rw [hmap, hmap, hi]

end State.SameQueue

/-- After its exit, a slashing leaves the queue as it is. -/
theorem SlashEffect.sameQueue {config : Config} {index : Nat} {s left t : State}
    {result : Except Failure Unit} (h : SlashEffect config index s result t)
    (hexit : (initiateExit config index).runOn s = (.ok (), left)) : SameQueue left t := by
  cases h with
  | refused hexit' =>
    rw [hexit] at hexit'
    nomatch hexit'
  | left hexit' =>
    rw [hexit] at hexit'
    cases hexit'
    exact .refl _
  | @marked failure left' v withdrawable hexit' hv hwithdrawable =>
    rw [hexit] at hexit'
    cases hexit'
    exact .withSlashing left index withdrawable
  | @noted result left' noted t v withdrawable hexit' hv hwithdrawable hnote hpaid =>
    rw [hexit] at hexit'
    cases hexit'
    have hmarked := SameQueue.withSlashing left index withdrawable
    obtain ⟨hvalidators, hslot⟩ := eq_of_noted hnote hpaid
    refine ⟨hslot.trans hmarked.slot, fun i => ?_⟩
    rw [hvalidators]
    exact hmarked.records i

end Beacon
