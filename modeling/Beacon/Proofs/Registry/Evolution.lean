/-
  How records of validators evolve.

  There are four changes of a record (`Validator.Change`): to leave, to be slashed, to become
  eligible, to be activated.  Each writes an epoch only where none has been set, apart from the
  withdrawable epoch, which a slashing may put off; and no activation or exit takes effect before
  the look-ahead is over.

  Whatever is done to a state within an epoch, every record evolves by such changes
  (`State.Evolves`).  The relation is transitive, so it is shown of each operation part by part
  (`Action.StaysIn`), with whatever part it fails at.
-/
import Mathlib.Logic.Relation
import Beacon.Proofs.Registry.Exits
import Beacon.Registry.Slash

namespace Beacon

open Beacon.Action

/-! ## Changes of one record -/

/-- What may happen to a validator in an epoch. -/
inductive Validator.Change (config : Config) (current : Epoch) : Validator → Validator → Prop where
  /-- A validator that has been activated gets an exit epoch behind the look-ahead. -/
  | leave {v : Validator} (exit withdrawable : Epoch) (hjoined : v.activationEpoch ≤ current)
      (hstay : v.isStaying = true)
      (hexit : current.toNat + 1 + config.maxSeedLookahead.toNat ≤ exit.toNat)
      (hwithdrawable : withdrawable.toNat =
        exit.toNat + config.minValidatorWithdrawabilityDelay.toNat) :
      Change config current v { v with exitEpoch := exit, withdrawableEpoch := withdrawable }
  /-- A validator is slashed once, and cannot withdraw before the ring has gone round. -/
  | slash {v : Validator} (withdrawable : Epoch) (hjoined : v.activationEpoch ≤ current)
      (hunslashed : v.slashed = false) (hlater : v.withdrawableEpoch ≤ withdrawable)
      (hring : current.toNat + config.epochsPerSlashingsVector.val.toNat ≤ withdrawable.toNat) :
      Change config current v { v with slashed := true, withdrawableEpoch := withdrawable }
  | becomeEligible {v : Validator} (next : Epoch)
      (hunset : v.activationEligibilityEpoch = farFutureEpoch)
      (hnext : next.toNat = current.toNat + 1) :
      Change config current v { v with activationEligibilityEpoch := next }
  /-- A validator that has been eligible is activated behind the look-ahead. -/
  | activate {v : Validator} (activation : Epoch) (hunset : v.activationEpoch = farFutureEpoch)
      (heligible : v.activationEligibilityEpoch ≤ current)
      (hactivation : activation.toNat = current.toNat + 1 + config.maxSeedLookahead.toNat) :
      Change config current v { v with activationEpoch := activation }

/-- Any number of changes. -/
abbrev Validator.Changes (config : Config) (current : Epoch) : Validator → Validator → Prop :=
  Relation.ReflTransGen (Validator.Change config current)

/-- What each change preserves, any number of changes preserves. -/
theorem Validator.Changes.preserves {config : Config} {current : Epoch} {P : Validator → Prop}
    (hP : ∀ v w, Validator.Change config current v w → P v → P w) {v w : Validator}
    (h : Validator.Changes config current v w) (hv : P v) : P w := by
  induction h with
  | refl => exact hv
  | tail _ hchange ih => exact hP _ _ hchange ih

namespace State

/-- From `s` to `t` records have evolved, and only those with a touched index; nothing else has
    changed but balances and the ring of slashed amounts. -/
structure Evolves (config : Config) (touched : Nat → Prop) (s t : State) : Prop where
  frame : t = { s with
    validators := t.validators, balances := t.balances, slashings := t.slashings }
  size : t.validators.size = s.validators.size
  record : ∀ (i : Nat) v, s.validators[i]? = some v → ∃ w, t.validators[i]? = some w ∧
    Validator.Changes config (currentEpoch config s) v w
  others : ∀ i : Nat, ¬ touched i → t.validators[i]? = s.validators[i]?

namespace Evolves

variable {config : Config} {touched : Nat → Prop}

theorem refl (s : State) : Evolves config touched s s where
  frame := rfl
  size := rfl
  record _ v hv := ⟨v, hv, .refl⟩
  others _ _ := rfl

theorem slot_eq {s t : State} (h : Evolves config touched s t) : t.slot = s.slot := by
  rw [h.frame]

theorem currentEpoch_eq {s t : State} (h : Evolves config touched s t) :
    currentEpoch config t = currentEpoch config s :=
  congrArg (epochAtSlot config) h.slot_eq

theorem trans {s t u : State} (h : Evolves config touched s t) (h' : Evolves config touched t u) :
    Evolves config touched s u where
  frame := by
    rw [h'.frame, h.frame]
  size := h'.size.trans h.size
  record i v hv := by
    obtain ⟨w, hw, hchanges⟩ := h.record i v hv
    obtain ⟨x, hx, hchanges'⟩ := h'.record i w hw
    rw [h.currentEpoch_eq] at hchanges'
    exact ⟨x, hx, hchanges.trans hchanges'⟩
  others i hi := (h'.others i hi).trans (h.others i hi)

/-- Every later record comes from an earlier one. -/
theorem exists_before {s t : State} (h : Evolves config touched s t) {i : Nat} {w : Validator}
    (hw : t.validators[i]? = some w) : ∃ v, s.validators[i]? = some v ∧
      Validator.Changes config (currentEpoch config s) v w := by
  have hlt : i < s.validators.size := by
    rw [← h.size]
    exact (Array.getElem?_eq_some_iff.mp hw).1
  have hv := Array.getElem?_eq_getElem hlt
  obtain ⟨w', hw', hchanges⟩ := h.record i _ hv
  rw [hw] at hw'
  cases hw'
  exact ⟨_, hv, hchanges⟩

/-- An aspect that no change touches is the same in all records. -/
theorem keeps {α : Type} {f : Validator → α} {s t : State} (h : Evolves config touched s t)
    (hf : ∀ v w, Validator.Change config (currentEpoch config s) v w → f w = f v) :
    Keeps f s t := by
  intro i
  rcases hv : s.validators[i]? with _ | v
  · have hge := Array.getElem?_eq_none_iff.mp hv
    rw [← h.size] at hge
    rw [Array.getElem?_eq_none_iff.mpr hge]
  · obtain ⟨w, hw, hchanges⟩ := h.record i v hv
    have hsame : f w = f v :=
      hchanges.preserves (P := fun x => f x = f v) (fun x y hxy hx => (hf x y hxy).trans hx) rfl
    rw [hw, Option.map_some, Option.map_some, hsame]

theorem bind {α β : Type} {first : Action State α} {next : α → Action State β} {s : State}
    (hfirst : StaysIn (Evolves config touched) first s)
    (hnext : ∀ a t, first.runOn s = (.ok a, t) → StaysIn (Evolves config touched) (next a) t) :
    StaysIn (Evolves config touched) (first >>= next) s :=
  StaysIn.bind (R := Evolves config touched) (fun _ _ _ => trans) hfirst hnext

theorem bind_still {α β : Type} {first : Action State α} {next : α → Action State β} {s : State}
    (hstill : (first.runOn s).2 = s)
    (hnext : ∀ a, first.runOn s = (.ok a, s) → StaysIn (Evolves config touched) (next a) s) :
    StaysIn (Evolves config touched) (first >>= next) s :=
  StaysIn.bind_still (R := Evolves config touched) refl hstill hnext

theorem mono {touched' : Nat → Prop} (hsub : ∀ i, touched i → touched' i) {s t : State}
    (h : Evolves config touched s t) : Evolves config touched' s t where
  frame := h.frame
  size := h.size
  record := h.record
  others i hi := h.others i fun c => hi (hsub i c)

/-- One record changed. -/
theorem editRecord {s : State} {index : Nat} {v : Validator} {change : Validator → Validator}
    (hv : s.validators[index]? = some v)
    (hchange : Validator.Change config (currentEpoch config s) v (change v))
    (htouched : touched index) : Evolves config touched s (s.editRecord index change) where
  frame := rfl
  size := size_editRecord s index change
  record i u hu := by
    by_cases hi : index = i
    · subst hi
      rw [hv] at hu
      cases hu
      exact ⟨_, getElem?_editRecord_self hv change, .single hchange⟩
    · exact ⟨u, by rw [getElem?_editRecord_ne hi, hu], .refl⟩
  others i hi := getElem?_editRecord_ne (fun c : index = i => hi (c ▸ htouched)) s change

/-- A write to a record is one change of it, if it is there. -/
theorem write_record {w : Write} {index : Nat} {change : Validator → Validator}
    (hw : w.record? = some (index, change)) {s : State}
    (hchange : ∀ v, s.validators[index]? = some v →
      Validator.Change config (currentEpoch config s) v (change v)) :
    StaysIn (Evolves config (· = index)) (Action.write w) s := by
  unfold StaysIn
  rcases hv : s.validators[index]? with _ | v
  · rw [runOn_write_record_outside hw hv]
    exact refl s
  · rw [runOn_write_record hw hv]
    exact editRecord hv (hchange v hv) rfl

/-- One index touched, and then others.  What is done to the others meets them as they were. -/
theorem bind_cons {α β : Type} {first : Action State α} {next : α → Action State β} {s : State}
    {index : Nat} {indices : List Nat} (hnew : index ∉ indices)
    (hfirst : StaysIn (Evolves config (· = index)) first s)
    (hnext : ∀ a t, currentEpoch config t = currentEpoch config s →
      (∀ i ∈ indices, t.validators[i]? = s.validators[i]?) →
      StaysIn (Evolves config (· ∈ indices)) (next a) t) :
    StaysIn (Evolves config (· ∈ index :: indices)) (first >>= next) s := by
  refine bind (hfirst.mono fun _ hi => List.mem_cons.mpr (Or.inl hi)) fun a t hrun => ?_
  have ht := hfirst.of_runOn hrun
  have hothers : ∀ i ∈ indices, t.validators[i]? = s.validators[i]? := fun i hi =>
    ht.others i fun c => hnew (c ▸ hi)
  exact (hnext a t ht.currentEpoch_eq hothers).mono fun _ => List.mem_cons_of_mem index

/-- A write to the balances or the ring leaves all records alone. -/
theorem write {w : Write} (hw : w.record? = none) (s : State) :
    StaysIn (Evolves config touched) (Action.write w) s := by
  obtain ⟨balances, slashings, h⟩ := write_no_record hw s
  show Evolves config touched s (StateAccess.write w s).2
  rw [h]
  exact ⟨rfl, rfl, fun _ v hv => ⟨v, hv, .refl⟩, fun _ _ => rfl⟩

end Evolves

/-! ## Leaving -/

section

variable {config : Config} {s : State}

theorem initiateExit_evolves {index : Nat}
    (hjoined : ∀ v, s.validators[index]? = some v → v.activationEpoch ≤ currentEpoch config s) :
    StaysIn (Evolves config (· = index)) (initiateExit config index) s := by
  unfold StaysIn
  rw [runOn_initiateExit]
  rcases hv : s.validators[index]? with _ | v
  · exact Evolves.refl s
  by_cases hstay : v.isStaying = true
  · rcases hplan : s.plannedExit config with _ | ⟨exit, w⟩
    · simp only [hstay, if_true]
      exact Evolves.refl s
    · simp only [hstay, if_true]
      obtain ⟨hexit, hw⟩ := plannedExit_later hplan
      exact Evolves.editRecord hv (.leave exit w (hjoined v hv) hstay hexit hw) rfl
  · simp only [hstay]
    exact Evolves.refl s

/-! ## Slashing -/

variable {touched : Nat → Prop}

theorem debit_evolves (index : Nat) (amount : Gwei) (s : State) :
    StaysIn (Evolves config touched) (debit index amount) s :=
  Evolves.bind_still rfl fun _ _ => Evolves.write rfl s

theorem credit_evolves (index : Nat) (amount : Gwei) (s : State) :
    StaysIn (Evolves config touched) (credit index amount) s :=
  Evolves.bind_still rfl fun _ _ =>
    Evolves.bind_still rfl fun _ _ =>
      Evolves.write rfl s

/-- Two writes to one record are one change of it. -/
theorem runOn_write_write {α : Type} {first second : Write} {index : Nat}
    {f g : Validator → Validator} (hfirst : first.record? = some (index, f))
    (hsecond : second.record? = some (index, g)) {v : Validator}
    (hv : s.validators[index]? = some v) (next : Action State α) :
    (do Action.write first; Action.write second; next : Action State α).runOn s =
      next.runOn (s.editRecord index fun v => g (f v)) := by
  rw [runOn_bind, runOn_write_record hfirst hv]
  show (Action.write second >>= fun _ => next).runOn (s.editRecord index f) = _
  rw [runOn_bind, runOn_write_record hsecond (getElem?_editRecord_self hv f),
    editRecord_editRecord]

/-- Slashing a validator who can be slashed touches the record of this validator only. -/
theorem slash_evolves {index proposer : Nat} {whistleblower : Option Nat}
    (hslashable : ∀ v, s.validators[index]? = some v →
      v.slashed = false ∧ v.activationEpoch ≤ currentEpoch config s) :
    StaysIn (Evolves config (· = index)) (slash config index proposer whistleblower) s := by
  have hleave := initiateExit_evolves fun v hv => (hslashable v hv).2
  refine Evolves.bind hleave fun _ t hrun => ?_
  have ht := hleave.of_runOn hrun
  have hkeeps : Keeps (fun v => (v.slashed, v.activationEpoch)) s t :=
    (initiateExit_keeps (fun _ _ _ => rfl) config index s).of_runOn hrun
  refine Evolves.bind_still rfl fun epoch hepoch => ?_
  refine Evolves.bind_still rfl fun v hread => ?_
  refine Evolves.bind_still rfl fun ringEnd hend => ?_
  obtain rfl : currentEpoch config t = epoch := Except.ok.inj (congrArg Prod.fst hepoch)
  have hv : t.validators[index]? = some v :=
    validator_eq_ok_iff.mp (mapError_eq_ok_iff.mp (congrArg Prod.fst hread))
  have hring := (runOn_ofExcept_eq_ok_iff.mp hend).1
  rw [orFail_eq_ok_iff, Word.addChecked_eq_some_iff] at hring
  -- the validator is as it was before it left, apart from its exit
  obtain ⟨u, hu, hsame⟩ := hkeeps.getElem? hv
  rw [Prod.mk.injEq] at hsame
  obtain ⟨hunslashed, hjoined⟩ := hslashable u hu
  rw [← hsame.1] at hunslashed
  rw [← hsame.2, ← ht.currentEpoch_eq] at hjoined
  have hslash : Evolves config (· = index) t (t.editRecord index fun u =>
      { u with slashed := true, withdrawableEpoch := max ringEnd v.withdrawableEpoch }) := by
    refine Evolves.editRecord hv (.slash _ hjoined hunslashed ?_ ?_) rfl
    · rw [UInt64.le_iff_toNat_le, Word.toNat_max]
      exact Nat.le_max_right _ _
    · rw [← hring, Word.toNat_max]
      exact Nat.le_max_left _ _
  unfold StaysIn
  rw [runOn_write_write rfl rfl hv]
  refine Evolves.trans hslash ?_
  refine Evolves.bind (Evolves.write rfl _) fun _ s1 _ => ?_
  refine Evolves.bind (debit_evolves _ _ s1) fun _ s2 _ => ?_
  refine Evolves.bind_still rfl fun rest _ => ?_
  exact Evolves.bind (credit_evolves _ _ s2) fun _ s3 _ => credit_evolves _ _ s3

end

end State

end Beacon
