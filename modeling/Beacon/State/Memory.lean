/-
  A chain state held in memory.

  Block roots and slashed amounts are rings: the entry of a slot or an epoch is at its remainder
  by the length of the list.  A read or write outside a list fails and changes nothing
  (`State.afterWrite?`).
-/
import Beacon.State.Access

namespace Beacon

/-- A chain state with all its lists. -/
structure State where
  slot : Slot
  genesisValidatorsRoot : Root
  fork : Fork
  blockRoots : Array Root
  validators : Array Validator
  balances : Array Gwei
  slashings : Array Gwei
  previousAttestations : List PendingAttestation
  currentAttestations : List PendingAttestation
  finalizedCheckpoint : Checkpoint
deriving DecidableEq, Inhabited

namespace State

/-! ## Readings -/

/-- The place of a slot or an epoch in a ring of this length, unless the ring is empty. -/
def ringPosition? (number : UInt64) (length : Nat) : Option Nat :=
  if length = 0 then none else some (number.toNat % length)

/-- The element of a list, or the error of looking outside it. -/
def element {α : Type} (list : Array α) (index : Nat) : Except AccessError α :=
  match list[index]? with
  | some a => .ok a
  | none => .error (.outsideList index list.size)

/-- The entry of the ring of block roots for a slot. -/
def blockRootEntry (s : State) (slot : Slot) : Except AccessError Root :=
  match (ringPosition? slot s.blockRoots.size).bind (s.blockRoots[·]?) with
  | some root => .ok root
  | none => .error .noBlockRoots

/-- The sum of amounts, each partial sum a word. -/
def sumChecked : Gwei → List Gwei → Option Gwei
  | total, [] => some total
  | total, amount :: amounts =>
    (Word.addChecked total amount).bind fun total => sumChecked total amounts

/-- The sum of the ring of slashed amounts. -/
def slashingsTotal (s : State) : Except AccessError Gwei :=
  match sumChecked 0 s.slashings.toList with
  | some total => .ok total
  | none => .error .slashingsOverflow

/-- The votes kept for an epoch. -/
def attestations (s : State) : RecentEpoch → List PendingAttestation
  | .previous => s.previousAttestations
  | .current => s.currentAttestations

/-! ## Writes -/

/-- The state with one validator changed. -/
def changeValidator (s : State) (index : Nat) (change : Validator → Validator) :
    Except AccessError State :=
  if index < s.validators.size then
    .ok { s with validators := s.validators.modify index change }
  else .error (.outsideList index s.validators.size)

/-- The state with one balance replaced. -/
def replaceBalance (s : State) (index : Nat) (amount : Gwei) : Except AccessError State :=
  if index < s.balances.size then
    .ok { s with balances := s.balances.modify index fun _ => amount }
  else .error (.outsideList index s.balances.size)

/-- The state with an amount added to the entry of an epoch. -/
def noteSlashing (s : State) (epoch : Epoch) (amount : Gwei) : Except AccessError State :=
  match ringPosition? epoch s.slashings.size with
  | none => .error .noSlashings
  | some position =>
    match s.slashings[position]? with
    | none => .error .noSlashings
    | some old =>
      match Word.addChecked old amount with
      | none => .error .slashingsOverflow
      | some new => .ok { s with slashings := s.slashings.modify position fun _ => new }

/-- The state after a write that succeeds. -/
def afterWrite? (s : State) : Write → Except AccessError State
  | .activationEligibilityEpoch index epoch =>
    s.changeValidator index fun v => { v with activationEligibilityEpoch := epoch }
  | .activationEpoch index epoch =>
    s.changeValidator index fun v => { v with activationEpoch := epoch }
  | .exitEpoch index epoch => s.changeValidator index fun v => { v with exitEpoch := epoch }
  | .withdrawableEpoch index epoch =>
    s.changeValidator index fun v => { v with withdrawableEpoch := epoch }
  | .slashed index value => s.changeValidator index fun v => { v with slashed := value }
  | .balance index amount => s.replaceBalance index amount
  | .slashing epoch amount => s.noteSlashing epoch amount

instance : StateAccess State where
  slot := slot
  fork := fork
  genesisValidatorsRoot := genesisValidatorsRoot
  finalizedCheckpoint := finalizedCheckpoint
  validatorCount s := s.validators.size
  validator s index := element s.validators index
  validators s := s.validators.toList.map .ok
  balance s index := element s.balances index
  blockRootEntry := blockRootEntry
  slashingsTotal := slashingsTotal
  attestations s epoch := (s.attestations epoch).map .ok
  write w s :=
    match s.afterWrite? w with
    | .ok s' => (.ok (), s')
    | .error cause => (.error cause, s)

end State

end Beacon
