/-
  A storage with faults acts as the state in it until a fault is met.

  The rules see a state through `StateAccess` alone.  So an operation on a storage either ends with
  the fault, or it has the result that it has on the state itself and leaves in the storage what it
  leaves there (`faults_show_or_do_nothing`).  Without faults it is always the latter.

  It is shown along the operations.  Only enumerations and writes can be faulty: of the items of an
  enumeration one may be spoilt (`Spoil`), and a sequence of parts acts as another sequence if part
  by part they do (`ActsAs.bind`), since no rule goes on after a failure.  All other readings are
  the same on both sides by definition.
-/
import Mathlib.Data.List.Forall2
import Beacon.Epoch.Transition
import Beacon.Proofs.Operation.Stages
import Beacon.State.Flaky

namespace Beacon

open Beacon.Action

namespace Faults

/-! ## Results -/

section

variable {α β : Type} {faults : Faults}

/-- A result is the other one, or the fault stands in its place. -/
def Spoil (faults : Faults) (result result' : Except Failure α) : Prop :=
  (faults ≠ none ∧ result = .error (.access Flaky.fault)) ∨ result = result'

/-- Items of an enumeration, of which some may be spoilt. -/
def Items (faults : Faults) : List (Except AccessError α) → List (Except AccessError α) → Prop :=
  List.Forall₂ fun item item' =>
    faults.Spoil (item.mapError Failure.access) (item'.mapError Failure.access)

namespace Spoil

theorem refl (result : Except Failure α) : faults.Spoil result result := .inr rfl

theorem bind {first first' : Except Failure α} {next next' : α → Except Failure β}
    (hfirst : faults.Spoil first first') (hnext : ∀ a, faults.Spoil (next a) (next' a)) :
    faults.Spoil (first >>= next) (first' >>= next') := by
  rcases hfirst with ⟨hsome, rfl⟩ | rfl
  · exact .inl ⟨hsome, rfl⟩
  · rcases first with failure | a
    · exact .refl _
    · exact hnext a

end Spoil

namespace Items

theorem mapM {items items' : List (Except AccessError α)} (h : faults.Items items items') :
    faults.Spoil (items.mapM fun item => item.mapError Failure.access)
      (items'.mapM fun item => item.mapError Failure.access) := by
  induction h with
  | nil => exact .refl _
  | cons hitem _ ih =>
    rw [List.mapM_cons, List.mapM_cons]
    exact hitem.bind fun a => ih.bind fun as => .refl _

theorem failAt {position : Option Nat} (h : position ≠ .none → faults ≠ none)
    (items : List (Except AccessError α)) : faults.Items (Flaky.failAt position items) items := by
  cases position with
  | none => exact List.forall₂_same.mpr fun item _ => .refl _
  | some k =>
    have hsome : faults ≠ none := h (Option.some_ne_none k)
    show faults.Items (items.set k (.error Flaky.fault)) items
    induction items generalizing k with
    | nil => exact .nil
    | cons item items ih =>
      cases k with
      | zero => exact .cons (.inl ⟨hsome, rfl⟩) (List.forall₂_same.mpr fun item _ => .refl _)
      | succ k => exact .cons (.refl _) (ih k fun _ => hsome)

end Items

end

/-! ## Actions -/

section

variable {σ τ ω α β : Type} {faults : Faults} {R : σ → τ → Prop}

/-- On related values the first action ends with the fault, or it has the result of the second and
    leaves behind what is related to what that one leaves. -/
def ActsAs (faults : Faults) (R : σ → τ → Prop) (act : Action σ α) (act' : Action τ α) : Prop :=
  ∀ s t, R s t →
    (faults ≠ none ∧ (act.runOn s).1 = .error (.access Flaky.fault)) ∨
      ((act.runOn s).1 = (act'.runOn t).1 ∧ R (act.runOn s).2 (act'.runOn t).2)

/-- The first halves of two pairs are related, and the second halves are the same. -/
def Beside (R : σ → τ → Prop) (p : σ × ω) (q : τ × ω) : Prop := R p.1 q.1 ∧ p.2 = q.2

namespace ActsAs

theorem pure (a : α) : ActsAs faults R (Pure.pure a) (Pure.pure a) :=
  fun _ _ h => .inr ⟨rfl, h⟩

theorem ofExcept {result result' : Except Failure α} (h : faults.Spoil result result') :
    ActsAs faults R (Action.ofExcept result) (Action.ofExcept result') := by
  intro s t hst
  rcases h with hfault | rfl
  · exact .inl hfault
  · exact .inr ⟨rfl, hst⟩

theorem query {read : σ → Except Failure α} {read' : τ → Except Failure α}
    (h : ∀ s t, R s t → faults.Spoil (read s) (read' t)) :
    ActsAs faults R (Action.query read) (Action.query read') :=
  fun s t hst => ofExcept (h s t hst) s t hst

/-- One action on equal values. -/
theorem same (act : Action σ α) : ActsAs faults Eq act act := by
  rintro s _ rfl
  exact .inr ⟨rfl, rfl⟩

theorem bind {first : Action σ α} {first' : Action τ α} {next : α → Action σ β}
    {next' : α → Action τ β} (hfirst : ActsAs faults R first first')
    (hnext : ∀ a, ActsAs faults R (next a) (next' a)) :
    ActsAs faults R (first >>= next) (first' >>= next') := by
  intro s t hst
  have houtcome := hfirst s t hst
  rw [runOn_bind, runOn_bind]
  generalize first.runOn s = run at houtcome ⊢
  generalize first'.runOn t = run' at houtcome ⊢
  obtain ⟨result, u⟩ := run
  obtain ⟨result', u'⟩ := run'
  obtain ⟨hsome, rfl⟩ | ⟨rfl, hu⟩ := houtcome
  · exact .inl ⟨hsome, rfl⟩
  · rcases result with failure | a
    · exact .inr ⟨rfl, hu⟩
    · exact hnext a u u' hu

theorem onFirst {act : Action σ α} {act' : Action τ α} (h : ActsAs faults R act act') :
    ActsAs faults (Beside (ω := ω) R) (Action.onFirst act) (Action.onFirst act') := by
  rintro ⟨s, w⟩ ⟨t, _⟩ ⟨hst, rfl⟩
  rcases h s t hst with hfault | ⟨hresult, hstate⟩
  · exact .inl hfault
  · exact .inr ⟨hresult, hstate, rfl⟩

theorem onSecond {act : σ → Action ω α} {act' : τ → Action ω α}
    (h : ∀ s t, R s t → ActsAs faults Eq (act s) (act' t)) :
    ActsAs faults (Beside R) (Action.onSecond act) (Action.onSecond act') := by
  rintro ⟨s, w⟩ ⟨t, _⟩ ⟨hst, rfl⟩
  rcases h s t hst w w rfl with hfault | ⟨hresult, hbeside⟩
  · exact .inl hfault
  · exact .inr ⟨hresult, hst, hbeside⟩

end ActsAs

end

/-! ## Storages -/

section

variable {σ α : Type} {faults : Faults}

/-- The storage has this state in it, and these faults. -/
def Stores (faults : Faults) (storage : Flaky σ) (s : σ) : Prop :=
  storage.state = s ∧ storage.faults = faults

namespace ActsAs

/-- Readings that no fault reaches. -/
theorem read {reading : Flaky σ → Except Failure α} {reading' : σ → Except Failure α}
    (h : ∀ s n, faults.Spoil (reading ⟨s, faults, n⟩) (reading' s)) :
    ActsAs faults (Stores faults) (Action.query reading) (Action.query reading') := by
  refine .query ?_
  rintro ⟨s, faults, n⟩ _ ⟨rfl, rfl⟩
  exact h s n

variable [StateAccess σ]

/-- A write that is not the faulty one is taken as the state takes it. -/
theorem write (w : Write) :
    ActsAs faults (Stores (σ := σ) faults) (Action.write w) (Action.write w) := by
  rintro ⟨s, faults, n⟩ _ ⟨rfl, rfl⟩
  by_cases h : faults.write = some (n + 1)
  · have hwrite : StateAccess.write w (⟨s, faults, n⟩ : Flaky σ) =
        (.error Flaky.fault, ⟨s, faults, n + 1⟩) := if_pos h
    refine .inl ⟨?_, ?_⟩
    · rintro rfl
      nomatch h
    · show (StateAccess.write w (⟨s, faults, n⟩ : Flaky σ)).1.mapError Failure.access = _
      rw [hwrite]
      rfl
  · have hwrite : StateAccess.write w (⟨s, faults, n⟩ : Flaky σ) =
        ((StateAccess.write w s).1, ⟨(StateAccess.write w s).2, faults, n + 1⟩) := if_neg h
    refine .inr ⟨?_, ?_⟩
    · show (StateAccess.write w (⟨s, faults, n⟩ : Flaky σ)).1.mapError Failure.access = _
      rw [hwrite]
      rfl
    · show Stores faults (StateAccess.write w (⟨s, faults, n⟩ : Flaky σ)).2 _
      rw [hwrite]
      exact ⟨rfl, rfl⟩

end ActsAs

/-! ## The registry -/

variable [StateAccess σ] {config : Config}

theorem validators_spoil (faults : Faults) (s : σ) (n : Nat) :
    faults.Items (StateAccess.validators (⟨s, faults, n⟩ : Flaky σ))
      (StateAccess.validators s) := by
  refine .failAt (fun h => ?_) _
  rintro rfl
  exact h rfl

theorem attestations_spoil (faults : Faults) (s : σ) (n : Nat) (epoch : RecentEpoch) :
    faults.Items (StateAccess.attestations (⟨s, faults, n⟩ : Flaky σ) epoch)
      (StateAccess.attestations s epoch) := by
  refine .failAt (fun h => ?_) _
  rintro rfl
  cases epoch <;> exact h rfl

theorem nextExitEpoch_spoil (s : σ) (n : Nat) :
    faults.Spoil (nextExitEpoch config (⟨s, faults, n⟩ : Flaky σ)) (nextExitEpoch config s) := by
  have hread : faults.Spoil (readValidators (⟨s, faults, n⟩ : Flaky σ)) (readValidators s) :=
    (validators_spoil faults s n).mapM
  exact (Spoil.refl _).bind fun _ => hread.bind fun _ => (hread.bind fun _ => .refl _).bind
    fun _ => .refl _

namespace ActsAs

theorem initiateExit (index : Nat) : ActsAs faults (Stores (σ := σ) faults)
    (Beacon.initiateExit config index) (Beacon.initiateExit config index) := by
  unfold Beacon.initiateExit
  refine .bind (.read fun _ _ => .refl _) fun validator => ?_
  split
  · exact .bind (.read fun s n => nextExitEpoch_spoil s n) fun _ =>
      .bind (.ofExcept (.refl _)) fun _ => .bind (.write _) fun _ => .write _
  · exact .pure ()

theorem credit (index : Nat) (amount : Gwei) : ActsAs faults (Stores (σ := σ) faults)
    (Beacon.credit index amount) (Beacon.credit index amount) :=
  .bind (.read fun _ _ => .refl _) fun _ => .bind (.ofExcept (.refl _)) fun _ => .write _

theorem debit (index : Nat) (amount : Gwei) : ActsAs faults (Stores (σ := σ) faults)
    (Beacon.debit index amount) (Beacon.debit index amount) :=
  .bind (.read fun _ _ => .refl _) fun _ => .write _

theorem slash (slashed proposer : Nat) (whistleblower : Option Nat) :
    ActsAs faults (Stores (σ := σ) faults) (Beacon.slash config slashed proposer whistleblower)
      (Beacon.slash config slashed proposer whistleblower) := by
  refine .bind (.initiateExit slashed) fun _ => .bind (.read fun _ _ => .refl _) fun epoch =>
    .bind (.read fun _ _ => .refl _) fun validator => .bind (.ofExcept (.refl _)) fun _ => ?_
  exact .bind (.write _) fun _ => .bind (.write _) fun _ => .bind (.write _) fun _ =>
    .bind (.debit _ _) fun _ => .bind (.ofExcept (.refl _)) fun _ => .bind (.credit _ _) fun _ =>
      .credit _ _

/-! ### Block operations -/

theorem slashAll (proposer : Nat) (indices : List Nat) : ActsAs faults (Stores (σ := σ) faults)
    (AttesterSlashing.slashAll config proposer indices)
    (AttesterSlashing.slashAll config proposer indices) := by
  induction indices with
  | nil => exact .pure ()
  | cons index indices ih => exact .bind (.slash index proposer .none) fun _ => ih

/-- Checks read no enumeration. -/
theorem enact {κ ω : Type} (cache : KeyCache κ) (verifier : Verifier κ ω) (op : BlockOperation) :
    ActsAs faults (Beside (ω := ω) (Stores (σ := σ) faults)) (op.enact config cache verifier)
      (op.enact config cache verifier) := by
  cases op with
  | voluntaryExit signed =>
    refine .bind (.onSecond ?_) fun _ => .onFirst (.initiateExit _)
    rintro ⟨s, faults, n⟩ _ ⟨rfl, rfl⟩
    exact .same _
  | proposerSlashing slashing proposer =>
    refine .bind (.onSecond ?_) fun _ => .onFirst (.slash _ proposer .none)
    rintro ⟨s, faults, n⟩ _ ⟨rfl, rfl⟩
    exact .same _
  | attesterSlashing slashing proposer =>
    refine .bind (.onSecond ?_) fun struck => .onFirst (.slashAll proposer struck)
    rintro ⟨s, faults, n⟩ _ ⟨rfl, rfl⟩
    exact .same _

/-! ### The end of an epoch -/

theorem ejectAll (limit : Nat) (queue : ExitQueue) (indices : List Nat) :
    ActsAs faults (Stores (σ := σ) faults) (Beacon.ejectAll config limit queue indices)
      (Beacon.ejectAll config limit queue indices) := by
  induction indices generalizing queue with
  | nil => exact .pure ()
  | cons index indices ih =>
    unfold Beacon.ejectAll
    refine .bind (.read fun _ _ => .refl _) fun validator => ?_
    split
    · exact .bind (.ofExcept (.refl _)) fun _ => .bind (.write _) fun _ => .bind (.write _)
        fun _ => .bind (.ofExcept (.refl _)) fun queue => ih queue
    · exact ih queue

theorem setEligibility (epoch : Epoch) (indices : List Nat) :
    ActsAs faults (Stores (σ := σ) faults) (Beacon.setEligibility epoch indices)
      (Beacon.setEligibility epoch indices) := by
  induction indices with
  | nil => exact .pure ()
  | cons index indices ih => exact .bind (.write _) fun _ => ih

theorem activateAll (summary : EpochSummary) (finalized activation : Epoch) (indices : List Nat) :
    ActsAs faults (Stores (σ := σ) faults)
      (Beacon.activateAll summary finalized activation indices)
      (Beacon.activateAll summary finalized activation indices) := by
  induction indices with
  | nil => exact .pure ()
  | cons index indices ih =>
    unfold Beacon.activateAll
    refine .bind (.ofExcept (.refl _)) fun status => ?_
    split
    · exact .pure ()
    · exact .bind (.write _) fun _ => ih

theorem applyQueues (summary : EpochSummary) : ActsAs faults (Stores (σ := σ) faults)
    (Beacon.applyQueues config summary) (Beacon.applyQueues config summary) :=
  .bind (.ejectAll _ _ _) fun _ => .bind (.ofExcept (.refl _)) fun _ =>
    .bind (.setEligibility _ _) fun _ => .bind (.read fun _ _ => .refl _) fun _ =>
      .bind (.ofExcept (.refl _)) fun _ => .activateAll _ _ _ _

theorem chargeAll (summary : EpochSummary) (slashed : Gwei) (table : PenaltyTable)
    (indices : List Nat) : ActsAs faults (Stores (σ := σ) faults)
      (Beacon.chargeAll config summary slashed table indices)
      (Beacon.chargeAll config summary slashed table indices) := by
  induction indices generalizing table with
  | nil => exact .pure table
  | cons index indices ih =>
    exact .bind (.ofExcept (.refl _)) fun _ => .bind (.ofExcept (.refl _)) fun _ =>
      .bind (.debit _ _) fun _ => ih _

theorem chargeSlashed (summary : EpochSummary) : ActsAs faults (Stores (σ := σ) faults)
    (Beacon.chargeSlashed config summary) (Beacon.chargeSlashed config summary) := by
  unfold Beacon.chargeSlashed
  split
  · exact .pure []
  · exact .bind (.read fun _ _ => .refl _) fun _ => .chargeAll _ _ _ _

theorem readRegistry {items items' : List (Except AccessError Validator)}
    (h : faults.Items items items') (signal : StopSignal) (current : Epoch) (position : Nat)
    (total : Gwei) : ActsAs faults Eq (Collect.readRegistry signal current position total items)
      (Collect.readRegistry signal current position total items') := by
  induction h generalizing position total with
  | nil => exact .same _
  | cons hitem _ ih =>
    unfold Collect.readRegistry
    refine .bind (.same _) fun _ => .bind (.same _) fun _ => .bind (.ofExcept hitem) fun v => ?_
    have hrest := fun total => (ih (position + 1) total).bind fun rest => .same
      (Pure.pure (v :: rest.1, rest.2))
    dsimp only
    -- the rest is read with this validator's stake in the total, or without it
    split
    · exact .bind (.same _) hrest
    · exact hrest total

theorem countVotes {items items' : List (Except AccessError PendingAttestation)}
    (h : faults.Items items items') (s : σ) (n : Nat) (committees : Committees)
    (signal : StopSignal) (epoch : RecentEpoch) (boundaryRoot : Root) (position : Nat)
    (statuses : Array AttesterStatus) :
    ActsAs faults Eq
      (Collect.countVotes config (⟨s, faults, n⟩ : Flaky σ) committees signal epoch boundaryRoot
        position statuses items)
      (Collect.countVotes config s committees signal epoch boundaryRoot position statuses
        items') := by
  induction h generalizing position statuses with
  | nil => exact .same _
  | cons hitem _ ih =>
    unfold Collect.countVotes
    refine .bind (.same _) fun _ => .bind (.ofExcept hitem) fun vote =>
      .bind (.ofExcept (.refl _)) fun headRoot => .bind (.same _) fun committee => ?_
    exact .bind (.same _) fun _ => .bind (.same _) fun _ => .bind (.same _) fun statuses =>
      ih _ statuses

theorem summarize (s : σ) (n : Nat) (committees : Committees) (signal : StopSignal) :
    ActsAs faults Eq
      (Collect.summarize config (⟨s, faults, n⟩ : Flaky σ) committees signal)
      (Collect.summarize config s committees signal) := by
  have hcount : ∀ epoch statuses, ActsAs faults Eq
      (Collect.countEpoch config (⟨s, faults, n⟩ : Flaky σ) committees signal statuses epoch)
      (Collect.countEpoch config s committees signal statuses epoch) := fun epoch statuses =>
    .bind (.ofExcept (.refl _)) fun boundaryRoot =>
      .countVotes (attestations_spoil faults s n epoch) s n committees signal epoch boundaryRoot 0
        statuses
  refine .bind (.ofExcept (.refl _)) fun due =>
    .bind (.readRegistry (validators_spoil faults s n) signal _ 0 0) fun registry => ?_
  refine .bind (.same _) fun queue => .bind (hcount .previous _) fun counted =>
    .bind (hcount .current _) fun statuses => .same _

theorem closeEpoch (committees : Committees) (signal : StopSignal) :
    ActsAs faults (Beside (Stores (σ := σ) faults)) (Beacon.closeEpoch config committees signal)
      (Beacon.closeEpoch config committees signal) := by
  refine .bind (.onSecond ?_) fun summary => .bind (.bind (.onSecond fun _ _ _ => .same _) fun _ =>
    .onFirst (.applyQueues summary)) fun _ => .bind (.onFirst (.chargeSlashed summary)) fun _ =>
      .pure _
  rintro ⟨s, faults, n⟩ _ ⟨rfl, rfl⟩
  exact .summarize s n committees signal

theorem endEpoch (committees : Committees) (signal : StopSignal) :
    ActsAs faults (Beside (Stores (σ := σ) faults)) (Beacon.endEpoch config committees signal)
      (Beacon.endEpoch config committees signal) :=
  .bind (.closeEpoch committees signal) fun _ => .pure _

theorem accountForEpoch (committees : Committees) (signal : StopSignal) :
    ActsAs faults (Beside (Stores (σ := σ) faults))
      (Beacon.accountForEpoch config committees signal)
      (Beacon.accountForEpoch config committees signal) :=
  .bind (.closeEpoch committees signal) fun _ =>
    .bind (.onFirst (.read fun _ _ => .refl _)) fun _ => .pure _

end ActsAs

/-! ## No faults -/

/-- The results are the same, the state in the storage is the other state, and beside them is the
    same. -/
def SameOutcome {σ ω α : Type} (run : Except Failure α × (Flaky σ × ω))
    (run' : Except Failure α × (σ × ω)) : Prop :=
  run.1 = run'.1 ∧ run.2.1.state = run'.2.1 ∧ run.2.2 = run'.2.2

theorem ActsAs.sameOutcome {σ ω : Type} {act : Action (Flaky σ × ω) α} {act' : Action (σ × ω) α}
    (h : ActsAs none (Beside (Stores none)) act act') (s : σ) (n : Nat) (w : ω) :
    SameOutcome (act.runOn (⟨s, none, n⟩, w)) (act'.runOn (s, w)) := by
  rcases h (⟨s, none, n⟩, w) (s, w) ⟨⟨rfl, rfl⟩, rfl⟩ with ⟨hsome, -⟩ | ⟨hresult, hstate, hbeside⟩
  · exact absurd rfl hsome
  · exact ⟨hresult, hstate.1, hbeside⟩

end

end Faults

open Faults in
/-- **A fault shows or does nothing.**  On a storage with any faults every operation ends with the
    fault, or it has the result that it has on the state itself and leaves the same state in the
    storage and the same beside it: block operations, and both ways to end an epoch. -/
theorem faults_show_or_do_nothing {σ : Type} [StateAccess σ] (config : Config) (faults : Faults) :
    (∀ {κ ω : Type} (cache : KeyCache κ) (verifier : Verifier κ ω) (op : BlockOperation),
      ActsAs faults (Beside (Stores (σ := σ) faults)) (op.enact config cache verifier)
        (op.enact config cache verifier)) ∧
    ∀ (committees : Committees) (signal : StopSignal),
      ActsAs faults (Beside (Stores (σ := σ) faults)) (endEpoch config committees signal)
        (endEpoch config committees signal) ∧
      ActsAs faults (Beside (Stores (σ := σ) faults)) (accountForEpoch config committees signal)
        (accountForEpoch config committees signal) :=
  ⟨fun cache verifier op => .enact cache verifier op, fun committees signal =>
    ⟨.endEpoch committees signal, .accountForEpoch committees signal⟩⟩

open Faults in
/-- Without faults there is no telling a storage from the state in it. -/
theorem faultless_storage_is_its_state {σ : Type} [StateAccess σ] (config : Config) (s : σ)
    (n : Nat) :
    (∀ {κ ω : Type} (cache : KeyCache κ) (verifier : Verifier κ ω) (op : BlockOperation) (w : ω),
      SameOutcome ((op.enact config cache verifier).runOn (⟨s, none, n⟩, w))
        ((op.enact config cache verifier).runOn (s, w))) ∧
    ∀ (committees : Committees) (signal : StopSignal) (progress : Progress),
      SameOutcome ((endEpoch config committees signal).runOn (⟨s, none, n⟩, progress))
        ((endEpoch config committees signal).runOn (s, progress)) ∧
      SameOutcome ((accountForEpoch config committees signal).runOn (⟨s, none, n⟩, progress))
        ((accountForEpoch config committees signal).runOn (s, progress)) := by
  obtain ⟨hblock, hepoch⟩ := faults_show_or_do_nothing (σ := σ) config none
  refine ⟨fun cache verifier op => (hblock cache verifier op).sameOutcome s n, ?_⟩
  intro committees signal progress
  exact ⟨(hepoch committees signal).1.sameOutcome s n progress,
    (hepoch committees signal).2.sameOutcome s n progress⟩

/-- The second write of an exit fails: the exit epoch is left, and no withdrawable epoch. -/
example :
    let leaver : Validator := { (default : Validator) with
      exitEpoch := farFutureEpoch, withdrawableEpoch := farFutureEpoch }
    let storage : Flaky State :=
      ⟨{ (default : State) with validators := #[leaver] }, { Faults.none with write := some 2 }, 0⟩
    (initiateExit Config.minimal 0).runOn storage =
      (.error (.access Flaky.fault),
        { storage with
          state := { storage.state with validators := #[{ leaver with exitEpoch := 5 }] },
          writes := 2 }) := by
  rfl

end Beacon
