/-
  Steps that change a value and may fail half way.

  `Action σ α` runs on a `σ`, gives an `α` or a `Failure`, and always gives the `σ` it leaves
  behind: what was changed before a failure stays changed.  An action on one half of a pair is an
  action on the pair (`onFirst`, `onSecond`).
-/
import Beacon.Error

namespace Beacon

/-- A step on a `σ`; a failure keeps what was changed before it. -/
abbrev Action (σ α : Type) := ExceptT Failure (StateM σ) α

/-- The value, or this failure where there is none. -/
def orFail {α : Type} (failure : Failure) : Option α → Except Failure α
  | some a => .ok a
  | none => .error failure

/-- Nothing, or this failure where the condition does not hold. -/
def ensure (condition : Bool) (failure : Failure) : Except Failure Unit :=
  if condition then .ok () else .error failure

namespace Action

variable {σ τ α : Type}

/-- The result and what is left behind. -/
def runOn (action : Action σ α) (s : σ) : Except Failure α × σ := StateT.run (ExceptT.run action) s

/-- The action with this behaviour. -/
def ofRun (run : σ → Except Failure α × σ) : Action σ α := ExceptT.mk fun s => run s

/-- A result that changes nothing. -/
def ofExcept (result : Except Failure α) : Action σ α := ofRun fun s => (result, s)

/-- A result that depends on the value and changes nothing. -/
def query (read : σ → Except Failure α) : Action σ α := ofRun fun s => (read s, s)

/-- A part of the value. -/
def view (read : σ → α) : Action σ α := ofRun fun s => (.ok (read s), s)

/-- An action on the first half of a pair. -/
def onFirst (action : Action σ α) : Action (σ × τ) α :=
  ofRun fun (s, t) => let (result, s') := action.runOn s; (result, (s', t))

/-- An action on the second half of a pair that may read the first. -/
def onSecond (action : σ → Action τ α) : Action (σ × τ) α :=
  ofRun fun (s, t) => let (result, t') := (action s).runOn t; (result, (s, t'))

/-! ## How actions run -/

@[simp]
theorem runOn_ofRun (run : σ → Except Failure α × σ) (s : σ) : (ofRun run).runOn s = run s := rfl

@[simp]
theorem runOn_pure (a : α) (s : σ) : (pure a : Action σ α).runOn s = (.ok a, s) := rfl

@[simp]
theorem runOn_ofExcept (result : Except Failure α) (s : σ) :
    (ofExcept result : Action σ α).runOn s = (result, s) := rfl

@[simp]
theorem runOn_query (read : σ → Except Failure α) (s : σ) :
    (query read).runOn s = (read s, s) := rfl

@[simp]
theorem runOn_view (read : σ → α) (s : σ) : (view read).runOn s = (.ok (read s), s) := rfl

@[simp]
theorem runOn_onFirst (action : Action σ α) (s : σ) (t : τ) :
    (onFirst action).runOn (s, t) =
      ((action.runOn s).1, ((action.runOn s).2, t)) := rfl

@[simp]
theorem runOn_onSecond (action : σ → Action τ α) (s : σ) (t : τ) :
    (onSecond action).runOn (s, t) =
      (((action s).runOn t).1, (s, ((action s).runOn t).2)) := rfl

/-- The second of two steps runs on what the first leaves behind, unless the first failed. -/
@[simp]
theorem runOn_bind {β : Type} (first : Action σ α) (next : α → Action σ β) (s : σ) :
    (first >>= next).runOn s =
      match first.runOn s with
      | (.ok a, s') => (next a).runOn s'
      | (.error failure, s') => (.error failure, s') := by
  show runOn (ExceptT.bind first next) s = _
  simp only [runOn, ExceptT.run, ExceptT.bind, ExceptT.mk, StateT.run, bind, StateT.bind]
  rcases first s with ⟨_ | _, _⟩ <;> rfl

end Action

end Beacon
