/-
  What can go wrong, sorted by how far a failure reaches.

  A `Rejection` concerns one message; the state is as good as before.  An `AccessError` comes from
  the storage behind the state, an `InvariantViolation` from a state or a caller that broke its
  promises; both end the whole transition, as does a cancellation.  Apart from all errors stands
  `Failure.overflow`: arithmetic that is not guarded left the range of a word.
-/
import Beacon.Record.Description

namespace Beacon

/-- What a signature is for. -/
inductive SignatureKind where
  | attestation
  | block
  | voluntaryExit
deriving DecidableEq, Inhabited

/-- The name of a kind of signature. -/
def SignatureKind.text : SignatureKind → String
  | attestation => "attestation signature"
  | block => "block signature"
  | voluntaryExit => "voluntary exit signature"

/-! ## Errors -/

/-- A part of the state or of what belongs to it could not be read or written. -/
inductive AccessError where
  | noBlockRoots
  | noSlashings
  | slashingsOverflow
  /-- A list of `length` elements has none at `index`. -/
  | outsideList (index length : Nat)
  | slotOutOfRange (slot : Slot)
  | invalidPublicKey (index : Nat)
  /-- Storage that is not kept in memory, or a source of committees, gives its own reasons. -/
  | foreign (text : String)
deriving DecidableEq

/-- A message breaks a rule. -/
inductive Rejection where
  | noAttestingIndices
  | indicesNotSorted
  | indicesNotUnique (index : Nat)
  | tooManyIndices (count maximum : Nat)
  | outsideRegistry (index count : Nat)
  | signatureInvalid (kind : SignatureKind)
  | dataNotSlashable (data1 data2 : AttestationData)
  | noAttestersSlashed
  | proposerNotSlashable (index : Nat) (proposer : Validator)
  | headersIdentical (header : BlockHeader)
  | proposersDiffer (index1 index2 : UInt64)
  | slotsDiffer (slot1 slot2 : Slot)
  | alreadyExited (index : Nat) (exitEpoch : Epoch)
  | notActiveLongEnough (index : Nat) (activationEpoch currentEpoch : Epoch)
  | notActive (index : Nat) (validator : Validator) (currentEpoch : Epoch)
  | exitNotYetValid (currentEpoch epoch : Epoch)
deriving DecidableEq

/-- The state, or what a caller supplied with it, contradicts itself. -/
inductive InvariantViolation where
  | committeeLengthMismatch (bits committee : Nat)
  | epochOverflow
  | balanceOverflow
  | keyNotCached (index : Nat)
  | inclusionDelayZero (slot : Slot)
  | notInRegistry (index count : Nat)
deriving DecidableEq

/-- Why an operation did not go through. -/
inductive Error where
  | access (cause : AccessError)
  | rejection (cause : Rejection)
  | violation (cause : InvariantViolation)
  | cancelled
deriving DecidableEq

/-- How an operation ends that does not succeed. -/
inductive Failure where
  | error (cause : Error)
  /-- Unguarded arithmetic left the range of a word. -/
  | overflow
deriving DecidableEq

namespace Failure

@[match_pattern]
abbrev access (cause : AccessError) : Failure := error (.access cause)

@[match_pattern]
abbrev rejected (cause : Rejection) : Failure := error (.rejection cause)

@[match_pattern]
abbrev violated (cause : InvariantViolation) : Failure := error (.violation cause)

@[match_pattern]
abbrev cancelled : Failure := error .cancelled

end Failure

/-! ## Classes -/

/-- How far an error reaches. -/
inductive Severity where
  | cancellation
  | stateAccess
  | validation
  | invariantViolation
deriving DecidableEq

/-- The class of an error. -/
def Error.severity : Error → Severity
  | access _ => .stateAccess
  | rejection _ => .validation
  | violation _ => .invariantViolation
  | cancelled => .cancellation

/-- Does an error of this class end the transition, and not only the operation it came from? -/
def Severity.isFatal (kind : Severity) : Bool := kind != .validation

/-! ## Texts -/

def AccessError.message : AccessError → String
  | noBlockRoots => "state has no block roots"
  | noSlashings => "state has no slashings vector"
  | slashingsOverflow => "slashings overflowed"
  | outsideList index length =>
    "validator index " ++ Decimal.text index ++ " is out of bounds (list has " ++
      Decimal.text length ++ " elements)"
  | slotOutOfRange slot =>
    "slot " ++ describe slot ++ " is out of range of stored block roots"
  | invalidPublicKey index =>
    "public key of validator " ++ Decimal.text index ++ " is not a valid G1 point"
  | foreign text => text

def Rejection.message : Rejection → String
  | noAttestingIndices => "attestation has no attesting indices"
  | indicesNotSorted => "attesting indices are not sorted"
  | indicesNotUnique index =>
    "validator " ++ Decimal.text index ++ " appears in attesting indices more than once"
  | tooManyIndices count maximum =>
    "attestation has " ++ Decimal.text count ++ " attesting indices, which is more than " ++
      Decimal.text maximum
  | outsideRegistry index count =>
    "validator index " ++ Decimal.text index ++ " is out of bounds (registry has " ++
      Decimal.text count ++ " validators)"
  | signatureInvalid kind => kind.text ++ " is invalid"
  | dataNotSlashable data1 data2 =>
    "attestation data is not slashable (data_1: " ++ describe data1 ++ ", data_2: " ++
      describe data2 ++ ")"
  | noAttestersSlashed => "no attesters slashed"
  | proposerNotSlashable index proposer =>
    "proposer " ++ Decimal.text index ++ " is not slashable: " ++ describe proposer
  | headersIdentical header =>
    "proposer slashing headers are identical: " ++ describe header
  | proposersDiffer index1 index2 =>
    "proposer slashing headers have different proposers (proposer_index_1: " ++
      describe index1 ++ ", proposer_index_2: " ++ describe index2 ++ ")"
  | slotsDiffer slot1 slot2 =>
    "proposer slashing headers have different slots (slot_1: " ++ describe slot1 ++
      ", slot_2: " ++ describe slot2 ++ ")"
  | alreadyExited index exitEpoch =>
    "validator " ++ Decimal.text index ++ " has already exited (exit_epoch: " ++
      describe exitEpoch ++ ")"
  | notActiveLongEnough index activationEpoch currentEpoch =>
    "validator " ++ Decimal.text index ++ " has not been active long enough (activation_epoch: " ++
      describe activationEpoch ++ ", current_epoch: " ++ describe currentEpoch ++ ")"
  | notActive index validator currentEpoch =>
    "validator " ++ Decimal.text index ++ " is not active in epoch " ++ describe currentEpoch ++
      ": " ++ describe validator
  | exitNotYetValid currentEpoch epoch =>
    "voluntary exit is not valid until epoch " ++ describe epoch ++ " (current_epoch: " ++
      describe currentEpoch ++ ")"

def InvariantViolation.message : InvariantViolation → String
  | committeeLengthMismatch bits committee =>
    "aggregation bitlist length " ++ Decimal.text bits ++ " does not match committee length " ++
      Decimal.text committee
  | epochOverflow => "epoch number overflowed"
  | balanceOverflow => "balance overflowed"
  | keyNotCached index =>
    "public key of validator " ++ Decimal.text index ++ " is not in the cache"
  | inclusionDelayZero slot =>
    "attestation for slot " ++ describe slot ++ " was included with zero delay"
  | notInRegistry index count =>
    "validator " ++ Decimal.text index ++
      " referenced during epoch processing is not in the registry (registry has " ++
      Decimal.text count ++ " validators)"

/-- The text of an error. -/
def Error.message : Error → String
  | access cause => cause.message
  | rejection cause => cause.message
  | violation cause => cause.message
  | cancelled => "state transition was cancelled"

end Beacon
