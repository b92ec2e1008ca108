/-
  The steps of a chain state.

  A `Step` is one operation on a state held in memory, whatever its outcome: a block operation or
  the end of an epoch.  In every step, and so in every run of steps at one slot, the records
  evolve (`Step.evolves`, `evolves_of_run`).  That is all a property of a whole run needs: it is
  shown of each change of a record and then holds of the run.
-/
import Beacon.Operation.ProposerSlashing
import Beacon.Operation.VoluntaryExit
import Beacon.Proofs.Epoch.Closing
import Beacon.Proofs.Operation.Accused
import Beacon.Proofs.Operation.Stages

namespace Beacon

open Beacon.Action Beacon.State

/-! ## Steps -/

/-- What one operation makes of a state: with any message, any verifier in any state of its own, any
    cache of keys, any committees and any signal, and whether it succeeds or fails. -/
inductive Step (config : Config) : State → State → Prop where
  | voluntaryExit {κ ω : Type} (cache : KeyCache κ) (verifier : Verifier κ ω)
      (signed : SignedVoluntaryExit) (w : ω) (s : State) :
      Step config s ((signed.enact config cache verifier).runOn (s, w)).2.1
  | proposerSlashing {κ ω : Type} (cache : KeyCache κ) (verifier : Verifier κ ω)
      (slashing : ProposerSlashing) (proposer : Nat) (w : ω) (s : State) :
      Step config s ((slashing.enact config cache verifier proposer).runOn (s, w)).2.1
  | attesterSlashing {κ ω : Type} (cache : KeyCache κ) (verifier : Verifier κ ω)
      (slashing : AttesterSlashing) (proposer : Nat) (w : ω) (s : State) :
      Step config s ((slashing.enact config cache verifier proposer).runOn (s, w)).2.1
  | endEpoch (committees : Committees) (signal : StopSignal) (progress : Progress) (s : State) :
      Step config s ((endEpoch config committees signal).runOn (s, progress)).2.1
  | accountForEpoch (committees : Committees) (signal : StopSignal) (progress : Progress)
      (s : State) :
      Step config s ((accountForEpoch config committees signal).runOn (s, progress)).2.1

/-- A block operation is a step. -/
theorem BlockOperation.step {κ ω : Type} (config : Config) (cache : KeyCache κ)
    (verifier : Verifier κ ω) (op : BlockOperation) (w : ω) (s : State) :
    Step config s ((op.enact config cache verifier).runOn (s, w)).2.1 := by
  cases op with
  | voluntaryExit signed => exact .voluntaryExit cache verifier signed w s
  | proposerSlashing slashing proposer =>
    exact .proposerSlashing cache verifier slashing proposer w s
  | attesterSlashing slashing proposer =>
    exact .attesterSlashing cache verifier slashing proposer w s

/-! ## Every step evolves the records -/

section

variable {config : Config} {κ ω : Type} {cache : KeyCache κ} {verifier : Verifier κ ω} {s : State}

/-- A validator who can be slashed is not slashed yet and has been activated. -/
theorem Validator.of_isSlashable {v : Validator} {epoch : Epoch} (h : v.isSlashable epoch = true) :
    v.slashed = false ∧ v.activationEpoch ≤ epoch := by
  unfold Validator.isSlashable at h
  rw [Bool.and_eq_true, Bool.and_eq_true, Bool.not_eq_true', decide_eq_true_eq] at h
  exact h.1

theorem AttesterSlashing.of_slashableAt {i : Nat} {v : Validator}
    (h : slashableAt config s i = true) (hv : s.validators[i]? = some v) :
    v.slashed = false ∧ v.activationEpoch ≤ currentEpoch config s := by
  unfold slashableAt at h
  rw [hv, Option.any_some] at h
  exact Validator.of_isSlashable h

/-- Who leaves by a voluntary exit is active. -/
theorem isActive_of_checkRules {exit : VoluntaryExit} {v : Validator}
    (h : exit.checkRules config s = .ok ())
    (hv : s.validators[exit.validatorIndex.toNat]? = some v) :
    v.isActive (currentEpoch config s) = true := by
  obtain ⟨_, -, h⟩ := bind_eq_ok_iff.mp h
  obtain ⟨u, hu, h⟩ := bind_eq_ok_iff.mp h
  obtain ⟨_, hactive, -⟩ := bind_eq_ok_iff.mp h
  rw [mapError_eq_ok_iff, validator_eq_ok_iff, hv] at hu
  cases hu
  exact ensure_eq_ok_iff.mp hactive

/-- Who is slashed for two headers can be slashed. -/
theorem isSlashable_of_checkHeaders {slashing : ProposerSlashing} {v : Validator}
    (h : slashing.checkHeaders config s = .ok ())
    (hv : s.validators[slashing.accused]? = some v) :
    v.isSlashable (currentEpoch config s) = true := by
  obtain ⟨_, -, h⟩ := bind_eq_ok_iff.mp h
  obtain ⟨_, -, h⟩ := bind_eq_ok_iff.mp h
  obtain ⟨_, -, h⟩ := bind_eq_ok_iff.mp h
  obtain ⟨_, -, h⟩ := bind_eq_ok_iff.mp h
  obtain ⟨u, hu, h⟩ := bind_eq_ok_iff.mp h
  rw [mapError_eq_ok_iff, validator_eq_ok_iff, hv] at hu
  cases hu
  exact ensure_eq_ok_iff.mp h

theorem voluntaryExit_evolves (signed : SignedVoluntaryExit) (w : ω) :
    StaysIn (EvolvesWith config) (signed.enact config cache verifier) (s, w) := by
  refine EvolvesWith.bind (EvolvesWith.onSecond _ s w) fun _ ⟨t, w'⟩ hrun => ?_
  obtain ⟨hcheck, rfl⟩ := runOn_onSecond_eq_ok_iff.mp hrun
  obtain ⟨_, w1, hrules, -⟩ := runOn_bind_eq_ok_iff.mp hcheck
  refine EvolvesWith.onFirst ((initiateExit_evolves fun v hv => ?_).mono fun _ _ => trivial)
  have hactive := isActive_of_checkRules (runOn_ofExcept_eq_ok_iff.mp hrules).1 hv
  exact of_decide_eq_true (Bool.and_eq_true_iff.mp hactive).1

theorem proposerSlashing_evolves (slashing : ProposerSlashing) (proposer : Nat) (w : ω) :
    StaysIn (EvolvesWith config) (slashing.enact config cache verifier proposer) (s, w) := by
  refine EvolvesWith.bind (EvolvesWith.onSecond _ s w) fun _ ⟨t, w'⟩ hrun => ?_
  obtain ⟨hcheck, rfl⟩ := runOn_onSecond_eq_ok_iff.mp hrun
  obtain ⟨_, w1, hheaders, -⟩ := runOn_bind_eq_ok_iff.mp hcheck
  refine EvolvesWith.onFirst ((slash_evolves fun v hv => ?_).mono fun _ _ => trivial)
  exact Validator.of_isSlashable
    (isSlashable_of_checkHeaders (runOn_ofExcept_eq_ok_iff.mp hheaders).1 hv)

/-- Slashing several validators, each of whom can be slashed at first.  A slashing touches one
    record only, so the others still can. -/
theorem slashAll_evolves (proposer : Nat) (indices : List Nat) :
    ∀ {s : State}, indices.Nodup → (∀ i ∈ indices, ∀ v, s.validators[i]? = some v →
        v.slashed = false ∧ v.activationEpoch ≤ currentEpoch config s) →
      StaysIn (Evolves config (· ∈ indices)) (AttesterSlashing.slashAll config proposer indices)
        s := by
  induction indices with
  | nil => exact fun _ _ => Evolves.refl _
  | cons index indices ih =>
    intro s hnodup hslashable
    obtain ⟨hnew, hnodup'⟩ := List.nodup_cons.mp hnodup
    refine Evolves.bind_cons hnew (slash_evolves (hslashable index List.mem_cons_self))
      fun _ t hepoch hothers => ?_
    refine ih hnodup' fun i hi v hv => ?_
    rw [hothers i hi] at hv
    rw [hepoch]
    exact hslashable i (List.mem_cons_of_mem index hi) v hv

theorem attesterSlashing_evolves (slashing : AttesterSlashing) (proposer : Nat) (w : ω) :
    StaysIn (EvolvesWith config) (slashing.enact config cache verifier proposer) (s, w) := by
  refine EvolvesWith.bind (EvolvesWith.onSecond _ s w) fun slashable ⟨t, w'⟩ hrun => ?_
  obtain ⟨hcheck, rfl⟩ := runOn_onSecond_eq_ok_iff.mp hrun
  obtain ⟨hnodup, hslashable⟩ := AttesterSlashing.check_slashable hcheck
  refine EvolvesWith.onFirst ((slashAll_evolves proposer slashable hnodup ?_).mono
    fun _ _ => trivial)
  exact fun i hi v hv => AttesterSlashing.of_slashableAt (hslashable i hi) hv

end

theorem Step.evolves {config : Config} {s t : State} (h : Step config s t) :
    Evolves config (fun _ => True) s t := by
  cases h with
  | voluntaryExit cache verifier signed w s => exact voluntaryExit_evolves signed w
  | proposerSlashing cache verifier slashing proposer w s =>
    exact proposerSlashing_evolves slashing proposer w
  | attesterSlashing cache verifier slashing proposer w s =>
    exact attesterSlashing_evolves slashing proposer w
  | endEpoch committees signal progress s =>
    exact EvolvesWith.bind (closeEpoch_evolves committees signal s progress)
      fun _ q _ => Evolves.refl q.1
  | accountForEpoch committees signal progress s =>
    refine EvolvesWith.bind (closeEpoch_evolves committees signal s progress) fun _ q _ => ?_
    exact EvolvesWith.bind (Evolves.refl q.1) fun _ r _ => Evolves.refl r.1

/-- So does every run of steps. -/
theorem evolves_of_run {config : Config} {s t : State}
    (h : Relation.ReflTransGen (Step config) s t) : Evolves config (fun _ => True) s t := by
  induction h with
  | refl => exact Evolves.refl s
  | tail _ hstep ih => exact ih.trans hstep.evolves

end Beacon
