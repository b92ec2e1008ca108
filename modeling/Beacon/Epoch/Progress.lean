/-
  How far the work on an epoch has come, and cancelling it.

  The work is split by POLLS into pieces of bounded size.  At a poll the cancellation signal is
  asked whether to stop; what it may look at is the `Progress` made so far, which also counts the
  polls, so that any sequence of answers to successive polls is a signal.
-/
import Beacon.Action

namespace Beacon

/-- What has been done since the work began. -/
structure Progress where
  /-- Validators that were read. -/
  validators : Nat
  /-- Committees that were asked for. -/
  lookups : Nat
  /-- Polls of the cancellation signal. -/
  polls : Nat
deriving DecidableEq, Inhabited

/-- No work done yet. -/
def Progress.start : Progress := ⟨0, 0, 0⟩

/-- Whether a poll after this progress finds the signal raised. -/
abbrev StopSignal := Progress → Bool

namespace StopSignal

/-- The signal that is never raised. -/
def never : StopSignal := fun _ => false

/-- The signal that gives this answer to each poll, counted from zero. -/
def ofAnswers (answers : Nat → Bool) : StopSignal := fun progress => answers progress.polls

/-- Ends the work if the signal is raised. -/
def poll (signal : StopSignal) : Action Progress Unit :=
  Action.ofRun fun progress =>
    (ensure (!signal progress) .cancelled, { progress with polls := progress.polls + 1 })

/-- Polls before every item whose position is a multiple of `period`. -/
def pollEvery (signal : StopSignal) (period position : Nat) : Action Progress Unit :=
  if position % period = 0 then poll signal else pure ()

end StopSignal

/-! ## Committees -/

/-- Which validators are in the committee with an index in a slot, if anybody knows. -/
abbrev Committees := Slot → UInt64 → Except AccessError (List Nat)

namespace Progress

/-- Notes that a validator was read. -/
def noteValidator : Action Progress Unit :=
  Action.ofRun fun progress => (.ok (), { progress with validators := progress.validators + 1 })

/-- Asks for a committee. -/
def committee (committees : Committees) (slot : Slot) (index : UInt64) :
    Action Progress (List Nat) :=
  Action.ofRun fun progress =>
    ((committees slot index).mapError Failure.access,
      { progress with lookups := progress.lookups + 1 })

end Progress

end Beacon
