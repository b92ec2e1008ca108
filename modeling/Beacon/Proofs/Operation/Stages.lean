/-
  The two stages of a block operation.

  Each of the three operations first CHECKS the message, which may ask the verifier and only looks
  at the state, and then is APPLIED to the state, which does not see the verifier any more
  (`runOn_enact`).  What is shown of operations is shown of the stages one by one.
-/
import Beacon.Operation.AttesterSlashing
import Beacon.Operation.ProposerSlashing
import Beacon.Operation.VoluntaryExit
import Beacon.Proofs.Action

namespace Beacon

/-- A message in a block that takes validators out of the registry.  Of a slashing the index of the
    block's proposer is given with it. -/
inductive BlockOperation where
  | voluntaryExit (signed : SignedVoluntaryExit)
  | proposerSlashing (slashing : ProposerSlashing) (proposer : Nat)
  | attesterSlashing (slashing : AttesterSlashing) (proposer : Nat)

namespace BlockOperation

variable {σ κ ω : Type} [StateAccess σ]

/-- Checks the message and applies it. -/
def enact (config : Config) (cache : KeyCache κ) (verifier : Verifier κ ω) :
    BlockOperation → Action (σ × ω) Unit
  | voluntaryExit signed => signed.enact config cache verifier
  | proposerSlashing slashing proposer => slashing.enact config cache verifier proposer
  | attesterSlashing slashing proposer => slashing.enact config cache verifier proposer

/-- All rules for the message; gives those that an attester slashing strikes. -/
def check (config : Config) (s : σ) (cache : KeyCache κ) (verifier : Verifier κ ω) :
    BlockOperation → Action ω (List Nat)
  | voluntaryExit signed => do
    signed.check config s cache verifier
    return []
  | proposerSlashing slashing _ => do
    slashing.check config s cache verifier
    return []
  | attesterSlashing slashing _ => slashing.check config s cache verifier

/-- What is done to the state after the check. -/
def apply (config : Config) (struck : List Nat) : BlockOperation → Action σ Unit
  | voluntaryExit signed => initiateExit config signed.message.validatorIndex.toNat
  | proposerSlashing slashing proposer => slash config slashing.accused proposer none
  | attesterSlashing _ proposer => AttesterSlashing.slashAll config proposer struck

/-- If the check fails, its failure is all that comes of the operation; otherwise the rest runs on
    the state alone. -/
theorem runOn_enact (config : Config) (cache : KeyCache κ) (verifier : Verifier κ ω)
    (op : BlockOperation) (s : σ) (w : ω) :
    (op.enact config cache verifier).runOn (s, w) =
      match (op.check config s cache verifier).runOn w with
      | (.ok struck, w') =>
        (((op.apply config struck).runOn s).1, ((op.apply config struck).runOn s).2, w')
      | (.error failure, w') => (.error failure, s, w') := by
  cases op with
  | voluntaryExit signed =>
    unfold enact check SignedVoluntaryExit.enact
    rw [Action.runOn_bind, Action.runOn_bind, Action.runOn_onSecond]
    rcases (signed.check config s cache verifier).runOn w with ⟨_ | _, w'⟩ <;> rfl
  | proposerSlashing slashing proposer =>
    unfold enact check ProposerSlashing.enact
    rw [Action.runOn_bind, Action.runOn_bind, Action.runOn_onSecond]
    rcases (slashing.check config s cache verifier).runOn w with ⟨_ | _, w'⟩ <;> rfl
  | attesterSlashing slashing proposer =>
    unfold enact check AttesterSlashing.enact
    rw [Action.runOn_bind, Action.runOn_onSecond]
    rcases (slashing.check config s cache verifier).runOn w with ⟨_ | _, w'⟩ <;> rfl

theorem runOn_enact_of_check_ok {config : Config} {cache : KeyCache κ} {verifier : Verifier κ ω}
    {op : BlockOperation} {s : σ} {w w' : ω} {struck : List Nat}
    (h : (op.check config s cache verifier).runOn w = (.ok struck, w')) :
    (op.enact config cache verifier).runOn (s, w) =
      (((op.apply config struck).runOn s).1, ((op.apply config struck).runOn s).2, w') := by
  rw [runOn_enact, h]

theorem runOn_enact_of_check_error {config : Config} {cache : KeyCache κ}
    {verifier : Verifier κ ω} {op : BlockOperation} {s : σ} {w w' : ω} {failure : Failure}
    (h : (op.check config s cache verifier).runOn w = (.error failure, w')) :
    (op.enact config cache verifier).runOn (s, w) = (.error failure, s, w') := by
  rw [runOn_enact, h]

/-- An operation succeeds only if both stages do. -/
theorem stages_of_enact {config : Config} {cache : KeyCache κ} {verifier : Verifier κ ω}
    {op : BlockOperation} {s t : σ} {w w' : ω}
    (h : (op.enact config cache verifier).runOn (s, w) = (.ok (), t, w')) :
    ∃ struck, (op.check config s cache verifier).runOn w = (.ok struck, w') ∧
      (op.apply config struck).runOn s = (.ok (), t) := by
  rw [runOn_enact] at h
  rcases hcheck : (op.check config s cache verifier).runOn w with ⟨failure | struck, w1⟩
  · rw [hcheck] at h
    nomatch h
  · rw [hcheck] at h
    rw [Prod.mk.injEq, Prod.mk.injEq] at h
    obtain ⟨hok, hstate, rfl⟩ := h
    exact ⟨struck, rfl, Prod.ext hok hstate⟩

/-- An operation stays where its application stays, since its check does not touch the state. -/
theorem staysIn_enact {R : σ → σ → Prop} (hrefl : ∀ a, R a a) {config : Config}
    {cache : KeyCache κ} {verifier : Verifier κ ω} {op : BlockOperation} {s : σ} {w : ω}
    (happly : ∀ struck w', (op.check config s cache verifier).runOn w = (.ok struck, w') →
      Action.StaysIn R (op.apply config struck) s) :
    R s ((op.enact config cache verifier).runOn (s, w)).2.1 := by
  rcases hcheck : (op.check config s cache verifier).runOn w with ⟨failure | struck, w'⟩
  · rw [runOn_enact_of_check_error hcheck]
    exact hrefl s
  · rw [runOn_enact_of_check_ok hcheck]
    exact happly struck w' hcheck

end BlockOperation

end Beacon
