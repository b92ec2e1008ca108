/-
  With which failures a computation may end.

  `FailsAs P` says of a result, and `Action.StopsAs P` of an action from a starting value, that it
  succeeds or ends with a failure in `P`.  Both pass through every way of putting computations
  together, so that a set of failures is read off the parts: what is read or written fails with an
  access error, what leaves the range of a word under a guard with a violation, and so on.  Where
  what can fail depends on the value, `Action.RunsAs` hands an invariant of it on from step to step.

  The set that matters most is `Failure.IsFatal`: failures that end the whole transition.  A message
  that breaks a rule is not among them, nor is arithmetic without a guard.  Where the question is if
  a balance can leave the range of words, a set is only asked to hold the other fatal failures
  (`Failure.CoversFatal`).
-/
import Beacon.Proofs.Action
import Beacon.State.Access

namespace Beacon

/-! ## Fatal failures -/

/-- The failure is an error that ends the whole transition. -/
def Failure.IsFatal : Failure → Prop
  | .error cause => cause.severity.isFatal = true
  | .overflow => False

namespace Failure.IsFatal

theorem access (cause : AccessError) : (Failure.access cause).IsFatal := rfl

theorem violated (cause : InvariantViolation) : (Failure.violated cause).IsFatal := rfl

theorem cancelled : Failure.cancelled.IsFatal := rfl

theorem ne_overflow {failure : Failure} (h : failure.IsFatal) : failure ≠ .overflow := by
  rintro rfl
  exact h

/-- Fatal errors are those that are not about a message. -/
theorem severity_ne {cause : Error} (h : (Failure.error cause).IsFatal) :
    cause.severity ≠ .validation := by
  intro hval
  unfold Failure.IsFatal at h
  dsimp only at h
  rw [hval] at h
  nomatch h

end Failure.IsFatal

/-- The failures in the set include all fatal ones, with the possible exception of a balance that is
    no word. -/
def Failure.CoversFatal (P : Failure → Prop) : Prop :=
  ∀ failure, failure.IsFatal → failure ≠ .violated .balanceOverflow → P failure

namespace Failure.CoversFatal

theorem of_isFatal : CoversFatal Failure.IsFatal := fun _ h _ => h

variable {P : Failure → Prop} (h : CoversFatal P)

include h

theorem access (cause : AccessError) : P (.access cause) :=
  h _ (.access cause) (by simp)

theorem cancelled : P .cancelled := h _ .cancelled (by simp)

theorem violated {cause : InvariantViolation} (hcause : cause ≠ .balanceOverflow) :
    P (.violated cause) := by
  refine h _ (.violated cause) fun c => hcause ?_
  cases c
  rfl

end Failure.CoversFatal

/-! ## Results -/

/-- If the result is a failure, it is one of these. -/
def FailsAs {α : Type} (P : Failure → Prop) (result : Except Failure α) : Prop :=
  ∀ failure, result = .error failure → P failure

namespace FailsAs

variable {P Q : Failure → Prop} {α β : Type}

theorem ok (a : α) : FailsAs P (.ok a) := fun _ h => nomatch h

theorem error {failure : Failure} (h : P failure) :
    FailsAs P (.error failure : Except Failure α) := by
  intro other hother
  cases hother
  exact h

theorem mono {result : Except Failure α} (h : FailsAs P result) (hsub : ∀ f, P f → Q f) :
    FailsAs Q result := fun failure hf => hsub failure (h failure hf)

theorem bind {first : Except Failure α} {next : α → Except Failure β} (hfirst : FailsAs P first)
    (hnext : ∀ a, first = .ok a → FailsAs P (next a)) : FailsAs P (first >>= next) := by
  cases first with
  | ok a => exact hnext a rfl
  | error failure => exact error (hfirst failure rfl)

theorem orFail {failure : Failure} (h : P failure) (option : Option α) :
    FailsAs P (Beacon.orFail failure option) := by
  cases option with
  | some a => exact ok a
  | none => exact error h

/-- Where there is a value there is no failure. -/
theorem orFail_of_ne_none {failure : Failure} {option : Option α} (h : option ≠ none) :
    FailsAs P (Beacon.orFail failure option) := by
  cases option with
  | some a => exact ok a
  | none => exact absurd rfl h

/-- A guard against balances that are no words may fail only if this is allowed, or not at all. -/
theorem orFail_balance {option : Option α} {fits : Prop}
    (h : P (.violated .balanceOverflow) ∨ fits) (hfits : fits → option ≠ none) :
    FailsAs P (Beacon.orFail (.violated .balanceOverflow) option) := by
  rcases h with hallowed | hfit
  · exact .orFail hallowed option
  · exact .orFail_of_ne_none (hfits hfit)

theorem ensure {failure : Failure} (h : P failure) (condition : Bool) :
    FailsAs P (Beacon.ensure condition failure) := by
  cases condition with
  | true => exact ok ()
  | false => exact error h

/-- What can be read fails to be read with an access error. -/
theorem access (h : ∀ cause, P (.access cause)) (result : Except AccessError α) :
    FailsAs P (result.mapError Failure.access) := by
  cases result with
  | ok a => exact ok a
  | error cause => exact error (h cause)

theorem mapM {f : α → Except Failure β} (list : List α) (h : ∀ a ∈ list, FailsAs P (f a)) :
    FailsAs P (list.mapM f) := by
  induction list with
  | nil => exact ok []
  | cons a list ih =>
    rw [List.mapM_cons]
    have hrest := ih fun b hb => h b (List.mem_cons_of_mem a hb)
    exact (h a List.mem_cons_self).bind fun b _ => hrest.bind fun bs _ => ok (b :: bs)

theorem filterM {test : α → Except Failure Bool} (list : List α)
    (h : ∀ a ∈ list, FailsAs P (test a)) : FailsAs P (list.filterM test) := by
  have haux : ∀ (list kept : List α), (∀ a ∈ list, FailsAs P (test a)) →
      FailsAs P (list.filterAuxM test kept) := by
    intro list
    induction list with
    | nil => exact fun kept _ => ok kept
    | cons a list ih =>
      intro kept h
      exact (h a List.mem_cons_self).bind fun b _ =>
        ih _ fun c hc => h c (List.mem_cons_of_mem a hc)
  exact (haux list [] h).bind fun kept _ => ok kept.reverse

end FailsAs

/-! ## Actions -/

namespace Action

variable {P : Failure → Prop} {σ τ α β : Type}

/-- If the action stops short on this value, it is with one of these failures. -/
def StopsAs (P : Failure → Prop) (action : Action σ α) (s : σ) : Prop :=
  FailsAs P (action.runOn s).1

namespace StopsAs

theorem of_runOn {action : Action σ α} {s t : σ} {failure : Failure} (h : StopsAs P action s)
    (hrun : action.runOn s = (.error failure, t)) : P failure := by
  unfold StopsAs at h
  rw [hrun] at h
  exact h failure rfl

theorem pure (a : α) (s : σ) : StopsAs P (pure a) s := FailsAs.ok a

theorem ofExcept {result : Except Failure α} (h : FailsAs P result) (s : σ) :
    StopsAs P (Action.ofExcept result) s := h

theorem query {read : σ → Except Failure α} {s : σ} (h : FailsAs P (read s)) :
    StopsAs P (Action.query read) s := h

theorem view (read : σ → α) (s : σ) : StopsAs P (Action.view read) s := FailsAs.ok (read s)

theorem read (h : ∀ cause, P (.access cause)) (reading : σ → Except AccessError α) (s : σ) :
    StopsAs P (Action.read reading) s := FailsAs.access h (reading s)

theorem write [StateAccess σ] (h : ∀ cause, P (.access cause)) (w : Write) (s : σ) :
    StopsAs P (Action.write w) s := FailsAs.access h (StateAccess.write w s).1

theorem bind {first : Action σ α} {next : α → Action σ β} {s : σ} (hfirst : StopsAs P first s)
    (hnext : ∀ a t, first.runOn s = (.ok a, t) → StopsAs P (next a) t) :
    StopsAs P (first >>= next) s := by
  unfold StopsAs
  rw [runOn_bind]
  rcases h : first.runOn s with ⟨failure | a, t⟩
  · exact FailsAs.error (hfirst.of_runOn h)
  · exact hnext a t h

theorem onFirst {action : Action σ α} {s : σ} (h : StopsAs P action s) (t : τ) :
    StopsAs P (Action.onFirst action) (s, t) := h

theorem onSecond {action : σ → Action τ α} {s : σ} {t : τ} (h : StopsAs P (action s) t) :
    StopsAs P (Action.onSecond action) (s, t) := h

end StopsAs

/-- The action ends as `P` allows, and whether it succeeds or not, what it leaves behind has the
    invariant. -/
structure RunsAs (P : Failure → Prop) (Inv : σ → Prop) (action : Action σ α) (s : σ) : Prop where
  stops : StopsAs P action s
  keeps : Inv (action.runOn s).2

namespace RunsAs

variable {Inv : σ → Prop} {s : σ}

theorem pure (a : α) (h : Inv s) : RunsAs P Inv (pure a) s := ⟨.pure a s, h⟩

theorem ofExcept {result : Except Failure α} (hresult : FailsAs P result) (h : Inv s) :
    RunsAs P Inv (Action.ofExcept result) s := ⟨.ofExcept hresult s, h⟩

theorem query {read : σ → Except Failure α} (hread : FailsAs P (read s)) (h : Inv s) :
    RunsAs P Inv (Action.query read) s := ⟨.query hread, h⟩

theorem view (read : σ → α) (h : Inv s) : RunsAs P Inv (Action.view read) s := ⟨.view read s, h⟩

theorem of_runOn {action : Action σ α} {result : Except Failure α} {t : σ}
    (h : RunsAs P Inv action s) (hrun : action.runOn s = (result, t)) : Inv t := by
  have hkeeps := h.keeps
  rw [hrun] at hkeeps
  exact hkeeps

/-- The invariant is handed on from each part to the next. -/
theorem bind {first : Action σ α} {next : α → Action σ β} (hfirst : RunsAs P Inv first s)
    (hnext : ∀ a t, first.runOn s = (.ok a, t) → Inv t → RunsAs P Inv (next a) t) :
    RunsAs P Inv (first >>= next) s := by
  constructor
  · exact hfirst.stops.bind fun a t hrun => (hnext a t hrun (hfirst.of_runOn hrun)).stops
  · rw [runOn_bind]
    rcases hrun : first.runOn s with ⟨failure | a, t⟩
    · exact hfirst.of_runOn hrun
    · exact (hnext a t hrun (hfirst.of_runOn hrun)).keeps

/-- An invariant of the first half of a pair, under an action on this half, -/
theorem onFirst {action : Action σ α} (h : RunsAs P Inv action s) (t : τ) :
    RunsAs P (fun q => Inv q.1) (Action.onFirst action) (s, t) := ⟨h.stops.onFirst t, h.keeps⟩

/-- and under one on the other. -/
theorem onSecond {action : σ → Action τ α} {t : τ} (haction : StopsAs P (action s) t) (h : Inv s) :
    RunsAs P (fun q => Inv q.1) (Action.onSecond action) (s, t) := ⟨haction.onSecond, h⟩

end RunsAs

end Action

end Beacon
