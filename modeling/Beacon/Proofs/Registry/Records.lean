/-
  The records of validators in a state held in memory, and what a write does to them.

  A write changes either one record (`Write.record?` says which, and how) or no record at all.
  The first kind is `State.editRecord` whenever the index is in the registry; the second kind
  touches only the balances and the ring of slashed amounts.
-/
import Beacon.Proofs.Action
import Beacon.State.Memory

namespace Beacon

/-- The record that a write changes, and the change. -/
def Write.record? : Write → Option (Nat × (Validator → Validator))
  | .activationEligibilityEpoch index epoch =>
    some (index, fun v => { v with activationEligibilityEpoch := epoch })
  | .activationEpoch index epoch => some (index, fun v => { v with activationEpoch := epoch })
  | .exitEpoch index epoch => some (index, fun v => { v with exitEpoch := epoch })
  | .withdrawableEpoch index epoch => some (index, fun v => { v with withdrawableEpoch := epoch })
  | .slashed index value => some (index, fun v => { v with slashed := value })
  | .balance _ _ => none
  | .slashing _ _ => none

namespace State

/-! ## One record changed -/

/-- The state with one record changed, or as it was if there is no such record. -/
def editRecord (s : State) (index : Nat) (change : Validator → Validator) : State :=
  { s with validators := s.validators.modify index change }

@[simp]
theorem size_editRecord (s : State) (index : Nat) (change : Validator → Validator) :
    (s.editRecord index change).validators.size = s.validators.size :=
  Array.size_modify

theorem getElem?_editRecord (s : State) (index : Nat) (change : Validator → Validator) (i : Nat) :
    (s.editRecord index change).validators[i]? =
      if index = i then s.validators[i]?.map change else s.validators[i]? :=
  Array.getElem?_modify

theorem getElem?_editRecord_ne {index i : Nat} (h : index ≠ i) (s : State)
    (change : Validator → Validator) :
    (s.editRecord index change).validators[i]? = s.validators[i]? := by
  rw [getElem?_editRecord, if_neg h]

theorem getElem?_editRecord_self {index : Nat} {s : State} {v : Validator}
    (hv : s.validators[index]? = some v) (change : Validator → Validator) :
    (s.editRecord index change).validators[index]? = some (change v) := by
  rw [getElem?_editRecord, if_pos rfl, hv, Option.map_some]

theorem editRecord_editRecord (s : State) (index : Nat) (f g : Validator → Validator) :
    (s.editRecord index f).editRecord index g = s.editRecord index fun v => g (f v) := by
  unfold editRecord
  congr 1
  apply Array.ext_getElem?
  intro i
  simp only [Array.getElem?_modify]
  split
  · rw [Option.map_map]
    rfl
  · rfl

/-- Changing one record moves one validator between those counted and those not counted. -/
theorem countP_editRecord {s : State} {index : Nat} {v : Validator}
    (hv : s.validators[index]? = some v) (change : Validator → Validator)
    (p : Validator → Bool) :
    (s.editRecord index change).validators.toList.countP p + (if p v then 1 else 0) =
      s.validators.toList.countP p + (if p (change v) then 1 else 0) := by
  have hlt : index < s.validators.toList.length := by
    rw [Array.length_toList]
    exact (Array.getElem?_eq_some_iff.mp hv).1
  have hget : s.validators.toList[index] = v := by
    rw [Array.getElem_toList]
    exact (Array.getElem?_eq_some_iff.mp hv).2
  have hpos : p v → 0 < s.validators.toList.countP p := fun h =>
    List.countP_pos_iff.mpr ⟨v, hget ▸ List.getElem_mem hlt, h⟩
  show (s.validators.modify index change).toList.countP p + _ = _
  rw [Array.toList_modify, List.modify_eq_set, List.getElem?_eq_getElem hlt, hget,
    Option.getD_some, List.countP_set hlt, hget]
  split
  · next h => have := hpos h; omega
  · omega

/-! ## Writes -/

theorem write_eq_ok {w : Write} {s s' : State} (h : s.afterWrite? w = .ok s') :
    StateAccess.write w s = (.ok (), s') := by
  simp only [StateAccess.write, h]

theorem write_eq_error {w : Write} {s : State} {cause : AccessError}
    (h : s.afterWrite? w = .error cause) : StateAccess.write w s = (.error cause, s) := by
  simp only [StateAccess.write, h]

/-- A write to a record changes just this record, if it is there. -/
theorem write_record {w : Write} {index : Nat} {change : Validator → Validator}
    (hw : w.record? = some (index, change)) (s : State) :
    StateAccess.write w s =
      if index < s.validators.size then (.ok (), s.editRecord index change)
      else (.error (.outsideList index s.validators.size), s) := by
  have hedit : s.afterWrite? w = s.changeValidator index change := by
    cases w <;> cases hw <;> rfl
  unfold changeValidator at hedit
  by_cases h : index < s.validators.size
  · rw [if_pos h] at hedit ⊢
    exact write_eq_ok hedit
  · rw [if_neg h] at hedit ⊢
    exact write_eq_error hedit

theorem runOn_write_record {w : Write} {index : Nat} {change : Validator → Validator}
    (hw : w.record? = some (index, change)) {s : State} {v : Validator}
    (hv : s.validators[index]? = some v) :
    (Action.write w).runOn s = (.ok (), s.editRecord index change) := by
  have hlt : index < s.validators.size := (Array.getElem?_eq_some_iff.mp hv).1
  show ((StateAccess.write w s).1.mapError Failure.access, (StateAccess.write w s).2) = _
  rw [write_record hw, if_pos hlt]
  rfl

theorem runOn_write_record_outside {w : Write} {index : Nat} {change : Validator → Validator}
    (hw : w.record? = some (index, change)) {s : State} (hv : s.validators[index]? = none) :
    (Action.write w).runOn s =
      (.error (.access (.outsideList index s.validators.size)), s) := by
  have hge : ¬ index < s.validators.size := by
    have := Array.getElem?_eq_none_iff.mp hv
    omega
  show ((StateAccess.write w s).1.mapError Failure.access, (StateAccess.write w s).2) = _
  rw [write_record hw, if_neg hge]
  rfl

/-- Any other write touches the balances or the ring at most. -/
theorem write_no_record {w : Write} (hw : w.record? = none) (s : State) :
    ∃ balances slashings,
      (StateAccess.write w s).2 = { s with balances := balances, slashings := slashings } := by
  rcases h : s.afterWrite? w with cause | s'
  · rw [write_eq_error h]
    exact ⟨s.balances, s.slashings, rfl⟩
  · rw [write_eq_ok h]
    cases w with
    | balance index amount =>
      simp only [afterWrite?, replaceBalance] at h
      split at h <;> cases h
      exact ⟨_, s.slashings, rfl⟩
    | slashing epoch amount =>
      simp only [afterWrite?, noteSlashing] at h
      split at h
      · nomatch h
      split at h
      · nomatch h
      split at h <;> cases h
      exact ⟨s.balances, _, rfl⟩
    | _ => nomatch hw

/-! ## What stays in all records -/

/-- This aspect of every record is the same. -/
def Keeps {α : Type} (f : Validator → α) (s t : State) : Prop :=
  ∀ i : Nat, (t.validators[i]?).map f = (s.validators[i]?).map f

namespace Keeps

variable {α : Type} {f : Validator → α}

theorem refl (s : State) : Keeps f s s := fun _ => rfl

theorem trans {s t u : State} (h : Keeps f s t) (h' : Keeps f t u) : Keeps f s u :=
  fun i => (h' i).trans (h i)

theorem editRecord (s : State) (index : Nat) {change : Validator → Validator}
    (hchange : ∀ v, f (change v) = f v) : Keeps f s (s.editRecord index change) := by
  intro i
  rw [getElem?_editRecord]
  split
  · rw [Option.map_map]
    congr 1
    funext v
    exact hchange v
  · rfl

theorem write {w : Write} {index : Nat} {change : Validator → Validator}
    (hw : w.record? = some (index, change)) (hchange : ∀ v, f (change v) = f v) (s : State) :
    Action.StaysIn (Keeps f) (Action.write w) s := by
  show Keeps f s (StateAccess.write w s).2
  rw [write_record hw]
  split
  · exact editRecord s index hchange
  · exact refl s

theorem bind {β γ : Type} {first : Action State β} {next : β → Action State γ} {s : State}
    (hfirst : Action.StaysIn (Keeps f) first s)
    (hnext : ∀ a t, first.runOn s = (.ok a, t) → Action.StaysIn (Keeps f) (next a) t) :
    Action.StaysIn (Keeps f) (first >>= next) s :=
  Action.StaysIn.bind (R := Keeps f) (fun _ _ _ => trans) hfirst hnext

theorem bind_still {β γ : Type} {first : Action State β} {next : β → Action State γ} {s : State}
    (hstill : (first.runOn s).2 = s)
    (hnext : ∀ a, first.runOn s = (.ok a, s) → Action.StaysIn (Keeps f) (next a) s) :
    Action.StaysIn (Keeps f) (first >>= next) s :=
  Action.StaysIn.bind_still (R := Keeps f) refl hstill hnext

/-- A record that is there has a counterpart with the same aspect. -/
theorem getElem? {s t : State} (h : Keeps f s t) {i : Nat} {v : Validator}
    (hv : t.validators[i]? = some v) : ∃ u, s.validators[i]? = some u ∧ f v = f u := by
  have hi := h i
  rw [hv, Option.map_some] at hi
  obtain ⟨u, hu, hfu⟩ := Option.map_eq_some_iff.mp hi.symm
  exact ⟨u, hu, hfu.symm⟩

theorem map_toList {s t : State} (h : Keeps f s t) :
    t.validators.toList.map f = s.validators.toList.map f := by
  apply List.ext_getElem?
  intro i
  rw [List.getElem?_map, List.getElem?_map, Array.getElem?_toList, Array.getElem?_toList]
  exact h i

theorem size_eq {s t : State} (h : Keeps f s t) : t.validators.size = s.validators.size := by
  have hlength := congrArg List.length h.map_toList
  rwa [List.length_map, List.length_map, Array.length_toList, Array.length_toList] at hlength

/-- Equally many validators have an aspect that all records keep. -/
theorem countP_eq {f : Validator → Bool} {s t : State} (h : Keeps f s t) :
    t.validators.toList.countP f = s.validators.toList.countP f := by
  have hcount : ∀ vs : List Validator, vs.countP f = (vs.map f).countP id := fun vs => by
    rw [List.countP_map]
    rfl
  rw [hcount, hcount, h.map_toList]

/-- What follows from an aspect is kept, too. -/
theorem of_aspect {β : Type} {g : α → β} {s t : State} (h : Keeps f s t) :
    Keeps (fun v => g (f v)) s t := by
  intro i
  have hi := congrArg (Option.map g) (h i)
  rwa [Option.map_map, Option.map_map] at hi

end Keeps

/-! ## Readings -/

theorem validator_eq_ok_iff {s : State} {index : Nat} {v : Validator} :
    StateAccess.validator s index = .ok v ↔ s.validators[index]? = some v := by
  show element s.validators index = .ok v ↔ _
  unfold element
  rcases s.validators[index]? with _ | u
  · exact ⟨fun h => (nomatch h), fun h => (nomatch h)⟩
  · rw [Except.ok.injEq, Option.some.injEq]

theorem runOn_read_validator (s : State) (index : Nat) :
    (Action.read fun s : State => StateAccess.validator s index).runOn s =
      match s.validators[index]? with
      | some v => (.ok v, s)
      | none => (.error (.access (.outsideList index s.validators.size)), s) := by
  show ((element s.validators index).mapError Failure.access, s) = _
  unfold element
  rcases s.validators[index]? with _ | v <;> rfl

end State

end Beacon
