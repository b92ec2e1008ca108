/-
  A refused message leaves the state as it was.

  The check of a message only looks at the state.  What is applied after it asks nothing of the
  message any more, so that its failures are all fatal (`BlockOperation.apply_stopsAs`): an error
  that is about a message comes from the check, and the state is untouched.  An exit held in memory
  is untouched after any failure, since its two writes succeed or fail together.
-/
import Beacon.Proofs.Operation.Gate
import Beacon.Proofs.Registry.Exits
import Beacon.Proofs.Registry.Failures

namespace Beacon

open Beacon.Action

/-! ## What is applied -/

section

variable {σ : Type} [StateAccess σ] {config : Config}

theorem AttesterSlashing.slashAll_stopsAs (proposer : Nat) (indices : List Nat) :
    ∀ s : σ, StopsAs Failure.IsFatal (slashAll config proposer indices) s := by
  induction indices with
  | nil => exact fun s => .pure () s
  | cons index indices ih =>
    exact fun s => .bind (slash_stopsAs index proposer none s) fun _ t _ => ih t

/-- Once a message is accepted, only fatal errors are left. -/
theorem BlockOperation.apply_stopsAs (op : BlockOperation) (struck : List Nat) (s : σ) :
    StopsAs Failure.IsFatal (op.apply config struck) s := by
  cases op with
  | voluntaryExit signed => exact initiateExit_stopsAs _ s
  | proposerSlashing slashing proposer => exact slash_stopsAs _ proposer none s
  | attesterSlashing slashing proposer =>
    exact AttesterSlashing.slashAll_stopsAs proposer struck s

/-! ## What is refused -/

/-- An operation that fails has failed in its check and left the state alone, or with a fatal
    error. -/
theorem BlockOperation.eq_or_isFatal {κ ω : Type} {cache : KeyCache κ} {verifier : Verifier κ ω}
    {op : BlockOperation} {s t : σ} {w w' : ω} {failure : Failure}
    (h : (op.enact config cache verifier).runOn (s, w) = (.error failure, t, w')) :
    t = s ∨ failure.IsFatal := by
  rw [runOn_enact] at h
  split at h
  · next struck _ _ =>
    right
    rw [Prod.mk.injEq] at h
    exact op.apply_stopsAs struck s failure h.1
  · left
    cases h
    rfl

end

/-- An exit that fails, a message that is refused, and a check that fails for whatever reason leave
    the state as it was.  Exits and slashings as such never refuse a message. -/
theorem unchanged_of_rejected {κ ω : Type} (config : Config) (cache : KeyCache κ)
    (verifier : Verifier κ ω) (s : State) (w : ω) :
    (∀ signed failure t w',
      (SignedVoluntaryExit.enact config cache verifier signed).runOn (s, w) =
        (.error failure, t, w') → t = s) ∧
    (∀ (op : BlockOperation) cause t w',
      (op.enact config cache verifier).runOn (s, w) = (.error (.error cause), t, w') →
        cause.severity = .validation → t = s) ∧
    (∀ (op : BlockOperation) failure w',
      (op.check config s cache verifier).runOn w = (.error failure, w') →
        (op.enact config cache verifier).runOn (s, w) = (.error failure, s, w')) ∧
    (∀ index cause t, (initiateExit config index).runOn s = (.error (.error cause), t) →
      cause.severity ≠ .validation) ∧
    (∀ slashed proposer whistleblower cause t,
      (slash config slashed proposer whistleblower).runOn s = (.error (.error cause), t) →
        cause.severity ≠ .validation) := by
  refine ⟨?_, ?_, ?_, ?_, ?_⟩
  · -- the check of an exit writes nothing, nor does an exit that fails
    intro signed failure t w' h
    have hstages := BlockOperation.runOn_enact config cache verifier (.voluntaryExit signed) s w
    have h := hstages.symm.trans h
    split at h
    · rw [Prod.mk.injEq, Prod.mk.injEq] at h
      obtain ⟨herror, hstate, -⟩ := h
      exact State.eq_of_initiateExit_error (Prod.ext herror hstate)
    · cases h
      rfl
  · intro op cause t w' h hvalidation
    rcases BlockOperation.eq_or_isFatal h with hsame | hfatal
    · exact hsame
    · exact absurd hvalidation hfatal.severity_ne
  · intro op failure w' h
    exact BlockOperation.runOn_enact_of_check_error h
  · intro index cause t h
    have hfatal : StopsAs Failure.IsFatal (initiateExit config index) s :=
      initiateExit_stopsAs index s
    exact (hfatal.of_runOn h).severity_ne
  · intro slashed proposer whistleblower cause t h
    have hfatal : StopsAs Failure.IsFatal (slash config slashed proposer whistleblower) s :=
      slash_stopsAs slashed proposer whistleblower s
    exact (hfatal.of_runOn h).severity_ne

/-- The failure of a result, if it is one. -/
def failure? {α : Type} : Except Failure α → Option Failure
  | .ok _ => none
  | .error failure => some failure

theorem eq_error_of_failure? {α : Type} {result : Except Failure α} {failure : Failure}
    (h : failure? result = some failure) : result = .error failure := by
  cases result with
  | ok a => nomatch h
  | error other =>
    cases h
    rfl

/-- The double vote in a block of some proposer, where one of its checks may be refused. -/
def doubleVoteEnd (proposer : Nat) (reject : Option Nat) :
    Except Failure Unit × State × List (SignatureCheck Nat) :=
  ((BlockOperation.attesterSlashing doubleVote proposer).enact Config.minimal
    (KeyCache.empty.insert 0 5) (.recording reject)).runOn (Collect.overlapping, [])

/-- With its second check refused it leaves no trace.  It does in a block of a proposer who is not
    in the registry, and that error is fatal. -/
theorem unchanged_of_rejected_doubleVote :
    doubleVoteEnd 1 (some 2) = (.error (.rejected (.signatureInvalid .attestation)),
      Collect.overlapping, (doubleVoteEnd 1 (some 2)).2.2) ∧
    ((doubleVoteEnd 7 none).1 = .error (.access (.outsideList 7 3)) ∧
      (doubleVoteEnd 7 none).2.1 ≠ Collect.overlapping) := by
  have hrefused : (doubleVoteEnd 1 (some 2)).1 =
      .error (.rejected (.signatureInvalid .attestation)) :=
    eq_error_of_failure? (by decide +kernel)
  obtain ⟨-, hvalidation, -⟩ := unchanged_of_rejected Config.minimal (KeyCache.empty.insert 0 5)
    (.recording (some 2)) Collect.overlapping []
  have hsame := hvalidation (.attesterSlashing doubleVote 1)
    (.rejection (.signatureInvalid .attestation)) _ _ (Prod.ext hrefused rfl) rfl
  refine ⟨Prod.ext hrefused (Prod.ext hsame rfl), ?_, ?_⟩
  · exact eq_error_of_failure? (by decide +kernel)
  · decide +kernel

end Beacon
