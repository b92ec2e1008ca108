/-
  What an operation of a block that succeeds has done to the records.

  An exit has set an exit epoch, a proposer slashing has struck the one it accuses, and an attester
  slashing everyone on its list.  A slashing of several validators is a loop; it touches one
  record at a time, so what it did to one validator is still there when it is done with the others.
-/
import Beacon.Proofs.Operation.Accused
import Beacon.Proofs.Operation.Stages
import Beacon.Proofs.Registry.Slashing

namespace Beacon

open Beacon.Action Beacon.State

section

variable {config : Config}

/-- Slashing several validators, no one twice, strikes them all and touches nobody else. -/
theorem AttesterSlashing.struck_of_slashAll
    (hdelay : 1 ≤ config.minValidatorWithdrawabilityDelay.toNat) {proposer : Nat}
    (indices : List Nat) : ∀ {s t : State},
      (slashAll config proposer indices).runOn s = (.ok (), t) → indices.Nodup →
      (∀ i ∈ indices, ∃ v, t.validators[i]? = some v ∧ v.Struck config (currentEpoch config s)) ∧
      ∀ i, i ∉ indices → t.validators[i]? = s.validators[i]? := by
  induction indices with
  | nil =>
    intro s t h _
    obtain ⟨-, rfl⟩ := runOn_pure_eq_ok_iff.mp h
    exact ⟨fun i hi => absurd hi List.not_mem_nil, fun _ _ => rfl⟩
  | cons index indices ih =>
    intro s t h hnodup
    obtain ⟨hnew, hnodup'⟩ := List.nodup_cons.mp hnodup
    obtain ⟨_, mid, hslash, hrest⟩ := runOn_bind_eq_ok_iff.mp h
    have heffect := slashEffect_of_slash hslash
    obtain ⟨hstruck, hothers⟩ := ih hrest hnodup'
    have hepoch : currentEpoch config mid = currentEpoch config s :=
      congrArg (epochAtSlot config) heffect.slot_eq
    refine ⟨fun i hi => ?_, fun i hi => ?_⟩
    · rcases List.mem_cons.mp hi with rfl | hi
      · -- the others do not touch the first one
        rw [hothers i hnew]
        exact heffect.struck hdelay
      · rw [← hepoch]
        exact hstruck i hi
    · rw [List.mem_cons, not_or] at hi
      rw [hothers i hi.2, heffect.others hi.1]

/-- An exit keeps the marks of all who are slashed. -/
theorem ExitEffect.keeps_slashed {index : Nat} {s t : State} (h : ExitEffect config index s t) :
    Keeps Validator.slashed s t := by
  cases h with
  | leaving hv hstay => exact Keeps.refl s
  | planned hv hstay hplan => exact Keeps.editRecord s index fun _ => rfl

variable {κ ω : Type} {cache : KeyCache κ} {verifier : Verifier κ ω} {op : BlockOperation}
  {s t : State} {w w' : ω}

/-- An operation that succeeds strikes a validator, or leaves its mark as it is. -/
theorem BlockOperation.struck_or_same
    (hdelay : 1 ≤ config.minValidatorWithdrawabilityDelay.toNat)
    (h : (op.enact config cache verifier).runOn (s, w) = (.ok (), t, w')) (i : Nat) :
    (∃ v, t.validators[i]? = some v ∧ v.Struck config (currentEpoch config s)) ∨
      (t.validators[i]?).map Validator.slashed = (s.validators[i]?).map Validator.slashed := by
  obtain ⟨struck, hcheck, happly⟩ := stages_of_enact h
  cases op with
  | voluntaryExit signed =>
    exact Or.inr ((exitEffect_of_initiateExit happly).keeps_slashed i)
  | proposerSlashing slashing proposer =>
    have heffect : SlashEffect config slashing.accused s (.ok ()) t := slashEffect_of_slash happly
    by_cases hi : i = slashing.accused
    · subst hi
      exact Or.inl (heffect.struck hdelay)
    · exact Or.inr (by rw [heffect.others hi])
  | attesterSlashing slashing proposer =>
    have hnodup := (AttesterSlashing.check_slashable hcheck).1
    obtain ⟨hstruck, hothers⟩ :=
      AttesterSlashing.struck_of_slashAll hdelay struck happly hnodup
    by_cases hi : i ∈ struck
    · exact Or.inl (hstruck i hi)
    · exact Or.inr (by rw [hothers i hi])

/-- So whoever gets the mark in such an operation was struck by it. -/
theorem BlockOperation.struck_of_slashed
    (hdelay : 1 ≤ config.minValidatorWithdrawabilityDelay.toNat)
    (h : (op.enact config cache verifier).runOn (s, w) = (.ok (), t, w')) {i : Nat}
    {v v' : Validator} (hv : s.validators[i]? = some v) (hunslashed : v.slashed = false)
    (hv' : t.validators[i]? = some v') (hslashed : v'.slashed = true) :
    v'.Struck config (currentEpoch config s) := by
  rcases struck_or_same hdelay h i with ⟨x, hx, hstruck⟩ | hsame
  · rw [hv'] at hx
    cases hx
    exact hstruck
  · rw [hv, hv', Option.map_some, Option.map_some, hunslashed, hslashed] at hsame
    nomatch hsame

end

end Beacon
