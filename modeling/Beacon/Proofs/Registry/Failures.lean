/-
  How exits, payments and slashings may fail.

  None of them asks anything of a message, so that a failure is always fatal: something could not
  be read or written, or an epoch or a balance left the range of words.  The one subtraction without
  a guard, of the proposer's part from a reward, never goes below zero (`Word.subChecked_ne_none`).

  The queue counts those who leave at its end.  They are validators of the registry, so that the
  count is a word whenever the size of the registry is (`ExitQueue.churn_ofValidators_le`).
-/
import Beacon.Proofs.Failures
import Beacon.Proofs.Registry.ExitQueue
import Beacon.Proofs.Registry.Records
import Beacon.Registry.Slash

namespace Beacon

open Beacon.Action

/-! ## Arithmetic without a guard -/

namespace Word

theorem subChecked_ne_none {a b : UInt64} (h : b.toNat ≤ a.toNat) : subChecked a b ≠ none := by
  unfold subChecked
  rw [if_pos (UInt64.le_iff_toNat_le.mpr h)]
  intro hnone
  nomatch hnone

theorem mulChecked_ne_none {a b : UInt64} (h : a.toNat * b.toNat < wordRange) :
    mulChecked a b ≠ none := by
  intro hnone
  rw [mulChecked_eq_none_iff] at hnone
  omega

theorem addChecked_ne_none {a b : UInt64} (h : a.toNat + b.toNat < wordRange) :
    addChecked a b ≠ none := by
  intro hnone
  rw [addChecked_eq_none_iff] at hnone
  omega

theorem mulDivChecked_ne_none {value multiplier : UInt64} {divisor : Divisor}
    (h : value.toNat * multiplier.toNat < wordRange) :
    mulDivChecked value multiplier divisor ≠ none := by
  unfold mulDivChecked
  rw [ne_eq, Option.map_eq_none_iff]
  exact mulChecked_ne_none h

/-- A quotient is no larger than what is divided. -/
theorem toNat_div_le (a : UInt64) (d : Divisor) : (div a d).toNat ≤ a.toNat := by
  rw [toNat_div]
  exact Nat.div_le_self _ _

end Word

/-! ## The size of the queue's end -/

namespace ExitQueue

/-- However far the registry has been looked through, no more leave at the end of the queue than
    were looked at. -/
theorem churn_ofValidators_le (earliest : Epoch) (validators : List Validator) :
    (ofValidators earliest validators).churn ≤ validators.length := by
  have hqueue := describes_scan earliest validators
  calc (ofValidators earliest validators).churn
      = (exitsOf validators).count (ofValidators earliest validators).last := hqueue.churn_eq
    _ ≤ (exitsOf validators).length := List.count_le_length
    _ ≤ (validators.map Validator.exitEpoch).length := List.length_filter_le _ _
    _ = validators.length := List.length_map _

end ExitQueue

/-! ## Storage that serves -/

/-- The validator whose record or balance is written. -/
def Write.index? : Write → Option Nat
  | .activationEligibilityEpoch index _ => some index
  | .activationEpoch index _ => some index
  | .exitEpoch index _ => some index
  | .withdrawableEpoch index _ => some index
  | .slashed index _ => some index
  | .balance index _ => some index
  | .slashing _ _ => none

/-- As long as the invariant holds, reading and writing these validators fails as `P` allows, and
    writing keeps the invariant. -/
structure Serves {σ : Type} [StateAccess σ] (P : Failure → Prop) (Inv : σ → Prop)
    (known : Nat → Prop) : Prop where
  validator : ∀ {s i}, Inv s → known i →
    FailsAs P ((StateAccess.validator s i).mapError Failure.access)
  balance : ∀ {s i}, Inv s → known i →
    FailsAs P ((StateAccess.balance s i).mapError Failure.access)
  write : ∀ {s i} w, Inv s → Write.index? w = some i → known i → RunsAs P Inv (Action.write w) s

/-- A record of the registry can be read. -/
theorem State.read_failsAs {P : Failure → Prop} {s : State} {index : Nat}
    (h : index < s.validators.size) :
    FailsAs P ((StateAccess.validator s index).mapError Failure.access) := by
  have hread := validator_eq_ok_iff.mpr (Array.getElem?_eq_getElem h)
  rw [hread]
  exact FailsAs.ok _

/-- If access errors are allowed, any storage serves for all indices. -/
theorem Serves.of_access {σ : Type} [StateAccess σ] {P : Failure → Prop}
    (h : ∀ cause, P (.access cause)) : Serves (σ := σ) P (fun _ => True) fun _ => True where
  validator _ _ := .access h _
  balance _ _ := .access h _
  write w _ _ _ := ⟨.write h w _, trivial⟩

/-! ## Steps on storage that serves -/

section

variable {σ : Type} [StateAccess σ] {config : Config} {P : Failure → Prop}

theorem activationExitEpoch_failsAs (h : P (.violated .epochOverflow)) (epoch : Epoch) :
    FailsAs P (activationExitEpoch config epoch) :=
  .orFail h _

theorem withdrawableAfter_failsAs (h : P (.violated .epochOverflow)) (exit : Epoch) :
    FailsAs P (withdrawableAfter config exit) :=
  .orFail h _

theorem debit_runsAs {Inv : σ → Prop} {known : Nat → Prop} (hstore : Serves P Inv known)
    {index : Nat} (hindex : known index) (amount : Gwei) {s : σ} (h : Inv s) :
    RunsAs P Inv (debit index amount) s := by
  have hread : RunsAs P Inv (Action.read fun s : σ => StateAccess.balance s index) s :=
    ⟨hstore.balance h hindex, h⟩
  refine hread.bind fun balance t _ ht => ?_
  exact hstore.write _ ht rfl hindex

end

/-! ## Fatal failures only -/

section

variable {σ : Type} [StateAccess σ] {config : Config}

theorem readValidators_failsAs (s : σ) : FailsAs Failure.IsFatal (readValidators s) :=
  .mapM _ fun item _ => .access .access item

theorem nextExitEpoch_failsAs (s : σ) : FailsAs Failure.IsFatal (nextExitEpoch config s) := by
  refine (activationExitEpoch_failsAs (.violated _) _).bind fun earliest _ => ?_
  refine (readValidators_failsAs s).bind fun validators _ => ?_
  have hlimit : FailsAs Failure.IsFatal (registryChurnLimit config s) :=
    (readValidators_failsAs s).bind fun _ _ => .ok _
  refine hlimit.bind fun limit _ => ?_
  unfold ExitQueue.nextEpoch
  split
  · exact .orFail (.violated _) _
  · exact .ok _

theorem initiateExit_stopsAs (index : Nat) (s : σ) :
    StopsAs Failure.IsFatal (initiateExit config index) s := by
  refine .bind (.read .access _ s) fun validator t _ => ?_
  split
  · refine .bind (.query (nextExitEpoch_failsAs t)) fun exit t _ => ?_
    refine .bind (.ofExcept (withdrawableAfter_failsAs (.violated _) exit) t) fun w t _ => ?_
    exact .bind (.write .access _ t) fun _ t _ => .write .access _ t
  · exact .pure () t

theorem credit_stopsAs (index : Nat) (amount : Gwei) (s : σ) :
    StopsAs Failure.IsFatal (credit index amount) s := by
  refine .bind (.read .access _ s) fun balance t _ => ?_
  refine .bind (.ofExcept (.orFail (.violated _) _) t) fun sum t _ => ?_
  exact .write .access _ t

theorem slash_stopsAs (slashed proposer : Nat) (whistleblower : Option Nat) (s : σ) :
    StopsAs Failure.IsFatal (slash config slashed proposer whistleblower) s := by
  refine .bind (initiateExit_stopsAs slashed s) fun _ t _ => ?_
  refine .bind (.view _ t) fun epoch t _ => ?_
  refine .bind (.read .access _ t) fun validator t _ => ?_
  refine .bind (.ofExcept (.orFail (.violated _) _) t) fun ringEnd t _ => ?_
  refine .bind (.write .access _ t) fun _ t _ => ?_
  refine .bind (.write .access _ t) fun _ t _ => ?_
  refine .bind (.write .access _ t) fun _ t _ => ?_
  refine .bind (debit_runsAs (.of_access .access) trivial _ trivial).stops fun _ t _ => ?_
  -- the proposer's part is a fraction of the whole reward
  have hpart : Word.subChecked (whistleblowerReward config validator.effectiveBalance)
      (slashingProposerReward config validator.effectiveBalance) ≠ none :=
    Word.subChecked_ne_none (Word.toNat_div_le _ _)
  refine .bind (.ofExcept (.orFail_of_ne_none hpart) t) fun rest t _ => ?_
  exact .bind (credit_stopsAs proposer _ t) fun _ t _ => credit_stopsAs _ _ t

end

end Beacon
