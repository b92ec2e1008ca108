/-
  A chain state whose storage fails at chosen points.

  For every state with `StateAccess` there is one that behaves alike except that one item of an
  enumeration, or one write, fails.  What such a failure leaves behind shows in which order an
  operation reads and writes.  `faults_show_or_do_nothing` : an operation ends with the fault, or as
  it ends on the state itself.
-/
import Beacon.State.Access

namespace Beacon

/-- Where a storage fails; items are counted from zero and writes from one. -/
structure Faults where
  validator : Option Nat
  previousAttestation : Option Nat
  currentAttestation : Option Nat
  write : Option Nat
deriving Inhabited

/-- No fault at all. -/
def Faults.none : Faults := ⟨.none, .none, .none, .none⟩

/-- A state, the faults of its storage, and how many writes were asked for so far. -/
structure Flaky (σ : Type) where
  state : σ
  faults : Faults
  writes : Nat

namespace Flaky

variable {σ : Type}

/-- The error of every fault. -/
def fault : AccessError := .foreign "injected fault"

/-- An enumeration in which one item, if it has that many, is a fault. -/
def failAt {α : Type} (position : Option Nat) (items : List (Except AccessError α)) :
    List (Except AccessError α) :=
  match position with
  | .none => items
  | some k => items.set k (.error fault)

/-- The position of the faulty vote among those of an epoch. -/
def Faults.attestation (faults : Faults) : RecentEpoch → Option Nat
  | .previous => faults.previousAttestation
  | .current => faults.currentAttestation

instance [StateAccess σ] : StateAccess (Flaky σ) where
  slot s := StateAccess.slot s.state
  fork s := StateAccess.fork s.state
  genesisValidatorsRoot s := StateAccess.genesisValidatorsRoot s.state
  finalizedCheckpoint s := StateAccess.finalizedCheckpoint s.state
  validatorCount s := StateAccess.validatorCount s.state
  validator s index := StateAccess.validator s.state index
  validators s := failAt s.faults.validator (StateAccess.validators s.state)
  balance s index := StateAccess.balance s.state index
  blockRootEntry s slot := StateAccess.blockRootEntry s.state slot
  slashingsTotal s := StateAccess.slashingsTotal s.state
  attestations s epoch :=
    failAt (Faults.attestation s.faults epoch) (StateAccess.attestations s.state epoch)
  write w s :=
    if s.faults.write = some (s.writes + 1) then
      (.error fault, { s with writes := s.writes + 1 })
    else
      let (result, state) := StateAccess.write w s.state
      (result, { s with state := state, writes := s.writes + 1 })

end Flaky

end Beacon
