/-
  How the check of a message can end.

  A check looks up records and keys by indices that come with the message, and any number may come.
  None of these lookups goes wrong: a rule asked before has put the index into the registry.  Of an
  index set it is the last index only that a rule compares with the registry, and the order of the
  set carries the bound to all the others (`IndexedAttestation.checkIndices_eq_ok_iff`).

  So a check that does not succeed ends in a verdict on the message, in a missing key of somebody in
  the registry, or as the verifier says (`IsVerdict`).  One sum is taken, of the epoch in which a
  leaving validator was activated and the period it has to serve.  It leaves the range of words only
  when the current epoch is that close to the last one (`IsExitVerdict`).

  With all keys cached and a verifier that does no more than to refuse signatures, verdicts on the
  message are all that is left (`checks_end_in_rejection`).
-/
import Beacon.Proofs.Operation.Accused
import Beacon.Proofs.Operation.Rejection

namespace Beacon

open Beacon.Action

/-! ## Lookups that succeed -/

section

variable {config : Config} {s : State}

/-- An accepted attestation has its attesters in the registry. -/
theorem IndexedAttestation.lt_of_check {κ ω : Type} {cache : KeyCache κ} {verifier : Verifier κ ω}
    {attestation : IndexedAttestation} {w w' : ω}
    (h : (attestation.check config s cache verifier).runOn w = (.ok (), w')) {index : UInt64}
    (hindex : index ∈ attestation.attestingIndices) : index.toNat < s.validators.size := by
  obtain ⟨_, w1, hindices, -⟩ := runOn_bind_eq_ok_iff.mp h
  exact (checkIndices_eq_ok_iff.mp (runOn_ofExcept_eq_ok_iff.mp hindices).1).2 index hindex

/-- A proposer whose headers pass the rules is in the registry. -/
theorem ProposerSlashing.lt_of_checkHeaders {slashing : ProposerSlashing}
    (h : slashing.checkHeaders config s = .ok ()) : slashing.accused < s.validators.size := by
  obtain ⟨_, -, h⟩ := bind_eq_ok_iff.mp h
  obtain ⟨_, -, h⟩ := bind_eq_ok_iff.mp h
  obtain ⟨_, -, h⟩ := bind_eq_ok_iff.mp h
  obtain ⟨_, hknown, -⟩ := bind_eq_ok_iff.mp h
  exact of_decide_eq_true (ensure_eq_ok_iff.mp hknown)

/-- A validator whose exit passes the rules is in the registry. -/
theorem VoluntaryExit.lt_of_checkRules {exit : VoluntaryExit}
    (h : exit.checkRules config s = .ok ()) :
    exit.validatorIndex.toNat < s.validators.size := by
  obtain ⟨_, hknown, -⟩ := bind_eq_ok_iff.mp h
  exact of_decide_eq_true (ensure_eq_ok_iff.mp hknown)

end

/-! ## Verdicts -/

/-- What the check of a slashing may fail with: the message breaks a rule, the key of somebody in the
    registry is not cached, or the verifier does not accept. -/
inductive IsVerdict {κ ω : Type} (s : State) (cache : KeyCache κ) (verifier : Verifier κ ω) :
    Failure → Prop where
  | rejected (cause : Rejection) : IsVerdict s cache verifier (.rejected cause)
  | keyNotCached {index : Nat} (hknown : index < s.validators.size)
      (hmissing : cache.get? index = none) :
      IsVerdict s cache verifier (.violated (.keyNotCached index))
  | ofVerifier {failure : Failure} (c : SignatureCheck κ) (w w' : ω)
      (h : (verifier.check c).runOn w = (.error failure, w')) :
      IsVerdict s cache verifier failure

/-- What the check of an exit may fail with: a verdict, or an epoch beyond the last one. -/
inductive IsExitVerdict {κ ω : Type} (config : Config) (s : State) (cache : KeyCache κ)
    (verifier : Verifier κ ω) : Failure → Prop where
  | verdict {failure : Failure} (h : IsVerdict s cache verifier failure) :
      IsExitVerdict config s cache verifier failure
  | epochOverflow
      (h : wordRange ≤ (currentEpoch config s).toNat + config.shardCommitteePeriod.toNat) :
      IsExitVerdict config s cache verifier (.violated .epochOverflow)

section

variable {config : Config} {s : State} {κ ω : Type} {cache : KeyCache κ} {verifier : Verifier κ ω}

/-- The key of somebody in the registry is there or it is missing. -/
theorem KeyCache.require_verdict {index : Nat} (h : index < s.validators.size) :
    FailsAs (IsVerdict s cache verifier) (cache.require index) := by
  unfold KeyCache.require
  rcases hkey : cache.get? index with _ | key
  · exact FailsAs.error (.keyNotCached h hkey)
  · exact FailsAs.ok key

/-- Whatever the verifier says is its verdict. -/
theorem Verifier.check_verdict (c : SignatureCheck κ) (w : ω) :
    StopsAs (IsVerdict s cache verifier) (verifier.check c) w := by
  intro failure hfailure
  exact .ofVerifier c w _ (Prod.ext hfailure rfl)

theorem IndexedAttestation.check_verdict (attestation : IndexedAttestation) (w : ω) :
    StopsAs (IsVerdict s cache verifier) (attestation.check config s cache verifier) w := by
  have hrules : FailsAs (IsVerdict s cache verifier) (attestation.checkIndices config s) := by
    intro failure hfailure
    obtain ⟨fault, rfl, -⟩ := checkIndices_eq_error_iff.mp hfailure
    exact .rejected fault
  refine .bind (.ofExcept hrules w) fun _ w hindices => ?_
  have hknown := (checkIndices_eq_ok_iff.mp (runOn_ofExcept_eq_ok_iff.mp hindices).1).2
  have hkeys : FailsAs (IsVerdict s cache verifier)
      (attestation.attestingIndices.mapM fun index => cache.require index.toNat) := by
    refine FailsAs.mapM _ fun index hindex => ?_
    exact KeyCache.require_verdict (hknown index hindex)
  refine .bind (.ofExcept hkeys w) fun keys w _ => ?_
  refine .bind (.ofExcept (.ensure (.rejected _) _) w) fun _ w _ => ?_
  exact Verifier.check_verdict _ w

/-- The accused are attesters, so that they are in the registry once the attestations are
    accepted. -/
theorem AttesterSlashing.check_verdict (slashing : AttesterSlashing) (w : ω) :
    StopsAs (IsVerdict s cache verifier) (slashing.check config s cache verifier) w := by
  refine .bind (.ofExcept (.ensure (.rejected _) _) w) fun _ w _ => ?_
  refine .bind (slashing.attestation1.check_verdict w) fun _ w' hfirst => ?_
  refine .bind (slashing.attestation2.check_verdict w') fun _ w'' _ => ?_
  have hamong : FailsAs (IsVerdict s cache verifier)
      (slashableAmong config s (slashing.accused.map UInt64.toNat)) := by
    refine FailsAs.filterM _ fun i hi => ?_
    obtain ⟨index, hindex, rfl⟩ := List.mem_map.mp hi
    have hattester : index ∈ slashing.attestation1.attestingIndices :=
      (IndexSet.inter_sublist _ _).subset hindex
    refine (State.read_failsAs ?_).bind fun validator _ => FailsAs.ok _
    exact IndexedAttestation.lt_of_check hfirst hattester
  refine .bind (.ofExcept hamong w'') fun slashable w _ => ?_
  exact .bind (.ofExcept (.ensure (.rejected _) _) w) fun _ w _ => .pure slashable w

theorem ProposerSlashing.check_verdict (slashing : ProposerSlashing) (w : ω) :
    StopsAs (IsVerdict s cache verifier) (slashing.check config s cache verifier) w := by
  have hrules : FailsAs (IsVerdict s cache verifier) (slashing.checkHeaders config s) := by
    refine (FailsAs.ensure (.rejected _) _).bind fun _ _ => ?_
    refine (FailsAs.ensure (.rejected _) _).bind fun _ _ => ?_
    refine (FailsAs.ensure (.rejected _) _).bind fun _ _ => ?_
    refine (FailsAs.ensure (.rejected _) _).bind fun _ hknown => ?_
    have hlt : slashing.accused < s.validators.size :=
      of_decide_eq_true (ensure_eq_ok_iff.mp hknown)
    refine (State.read_failsAs hlt).bind fun proposer _ => ?_
    exact FailsAs.ensure (.rejected _) _
  refine .bind (.ofExcept hrules w) fun _ w hheaders => ?_
  have hknown := lt_of_checkHeaders (runOn_ofExcept_eq_ok_iff.mp hheaders).1
  refine .bind (.ofExcept (KeyCache.require_verdict hknown) w) fun key w _ => ?_
  refine .bind (Verifier.check_verdict _ w) fun _ w _ => ?_
  exact Verifier.check_verdict _ w

/-- Who asks to leave is active, and so was activated no later than now. -/
theorem VoluntaryExit.checkRules_verdict (exit : VoluntaryExit) :
    FailsAs (IsExitVerdict config s cache verifier) (exit.checkRules config s) := by
  refine (FailsAs.ensure (.verdict (.rejected _)) _).bind fun _ hknown => ?_
  have hlt : exit.validatorIndex.toNat < s.validators.size :=
    of_decide_eq_true (ensure_eq_ok_iff.mp hknown)
  refine (State.read_failsAs hlt).bind fun validator _ => ?_
  refine (FailsAs.ensure (.verdict (.rejected _)) _).bind fun _ hactive => ?_
  have hactivated : validator.activationEpoch.toNat ≤ (currentEpoch config s).toNat := by
    have hboth := Bool.and_eq_true_iff.mp (ensure_eq_ok_iff.mp hactive)
    exact UInt64.le_iff_toNat_le.mp (of_decide_eq_true hboth.1)
  refine (FailsAs.ensure (.verdict (.rejected _)) _).bind fun _ _ => ?_
  refine (FailsAs.ensure (.verdict (.rejected _)) _).bind fun _ _ => ?_
  have hserved : FailsAs (IsExitVerdict config s cache verifier)
      (orFail (.violated .epochOverflow)
        (Word.addChecked validator.activationEpoch config.shardCommitteePeriod)) := by
    rcases hsum : Word.addChecked validator.activationEpoch config.shardCommitteePeriod
      with _ | served
    · rw [Word.addChecked_eq_none_iff] at hsum
      exact FailsAs.error (.epochOverflow (by omega))
    · exact FailsAs.ok served
  refine hserved.bind fun served _ => ?_
  exact FailsAs.ensure (.verdict (.rejected _)) _

theorem SignedVoluntaryExit.check_verdict (signed : SignedVoluntaryExit) (w : ω) :
    StopsAs (IsExitVerdict config s cache verifier) (signed.check config s cache verifier) w := by
  refine .bind (.ofExcept signed.message.checkRules_verdict w) fun _ w hrules => ?_
  have hknown := VoluntaryExit.lt_of_checkRules (runOn_ofExcept_eq_ok_iff.mp hrules).1
  have hkey : FailsAs (IsExitVerdict config s cache verifier)
      (cache.require signed.message.validatorIndex.toNat) :=
    (KeyCache.require_verdict hknown).mono fun _ => .verdict
  refine .bind (.ofExcept hkey w) fun key w _ => ?_
  exact (Verifier.check_verdict _ w).mono fun _ => .verdict

/-- Each of the three operations ends its check in a verdict, if it does not succeed. -/
theorem BlockOperation.check_verdict (op : BlockOperation) (w : ω) :
    StopsAs (IsExitVerdict config s cache verifier) (op.check config s cache verifier) w := by
  cases op with
  | voluntaryExit signed =>
    exact .bind (signed.check_verdict w) fun _ w _ => .pure [] w
  | proposerSlashing slashing proposer =>
    refine .bind ((slashing.check_verdict w).mono fun _ => .verdict) fun _ w _ => ?_
    exact .pure [] w
  | attesterSlashing slashing proposer =>
    exact (slashing.check_verdict w).mono fun _ => .verdict

end

/-! ## Rejections only -/

/-- The failure is about the message. -/
def Failure.IsRejection : Failure → Prop
  | .error cause => cause.severity = .validation
  | .overflow => False

/-- The cache has a key for every validator of a registry of this size. -/
def KeyCache.Covers {κ : Type} (cache : KeyCache κ) (count : Nat) : Prop :=
  ∀ index < count, (cache.get? index).isSome = true

/-- A verifier that refuses signatures and fails in no other way. -/
def Verifier.OnlyRefuses {κ ω : Type} (verifier : Verifier κ ω) : Prop :=
  ∀ c w failure w', (verifier.check c).runOn w = (.error failure, w') →
    ∃ kind, failure = .rejected (.signatureInvalid kind)

theorem Verifier.recording_onlyRefuses {κ : Type} (reject : Option Nat) :
    (Verifier.recording reject : Verifier κ _).OnlyRefuses := by
  intro c seen failure seen' h
  have hresult : ensure (reject != some (seen ++ [c]).length) (refusal c) = .error failure :=
    congrArg Prod.fst h
  unfold ensure at hresult
  split at hresult
  · nomatch hresult
  · cases hresult
    exact ⟨c.kind, rfl⟩

theorem IsVerdict.isRejection {κ ω : Type} {s : State} {cache : KeyCache κ}
    {verifier : Verifier κ ω} {failure : Failure} (h : IsVerdict s cache verifier failure)
    (hcache : cache.Covers s.validators.size) (hverifier : verifier.OnlyRefuses) :
    failure.IsRejection := by
  cases h with
  | rejected cause => rfl
  | keyNotCached hknown hmissing =>
    have hcached := hcache _ hknown
    rw [hmissing] at hcached
    nomatch hcached
  | ofVerifier c w w' hrun =>
    obtain ⟨kind, rfl⟩ := hverifier c w failure w' hrun
    rfl

/-- No message, whatever indices, slots and epochs it holds, makes its check fail but by being
    rejected.  For exits the current epoch has to be a period of service before the last one. -/
theorem checks_end_in_rejection {κ ω : Type} (config : Config) (s : State) (cache : KeyCache κ)
    (verifier : Verifier κ ω) (hcache : cache.Covers s.validators.size)
    (hverifier : verifier.OnlyRefuses) (w : ω) :
    (∀ slashing : ProposerSlashing,
      StopsAs Failure.IsRejection (slashing.check config s cache verifier) w) ∧
    (∀ slashing : AttesterSlashing,
      StopsAs Failure.IsRejection (slashing.check config s cache verifier) w) ∧
    ((currentEpoch config s).toNat + config.shardCommitteePeriod.toNat < wordRange →
      ∀ signed : SignedVoluntaryExit,
        StopsAs Failure.IsRejection (signed.check config s cache verifier) w) := by
  refine ⟨?_, ?_, ?_⟩
  · intro slashing
    exact (slashing.check_verdict w).mono fun _ h => h.isRejection hcache hverifier
  · intro slashing
    exact (slashing.check_verdict w).mono fun _ h => h.isRejection hcache hverifier
  · intro hfits signed
    refine (signed.check_verdict w).mono fun failure hend => ?_
    cases hend with
    | verdict h => exact h.isRejection hcache hverifier
    | epochOverflow hbeyond => omega

/-- A registry of one. -/
def solitary : State := { Collect.overlapping with validators := #[Collect.steady] }

/-- The double vote, shared by somebody who is not in the registry. -/
def strangersVote : AttesterSlashing where
  attestation1 := { doubleVote.attestation1 with attestingIndices := [0, 9] }
  attestation2 := { doubleVote.attestation2 with attestingIndices := [0, 9] }

/-- With everything in order behind the checks, a stranger's index is found out before anything is
    looked up by it, and the second of two signatures may be refused. -/
theorem checks_end_in_rejection_stranger :
    let cache : KeyCache Nat := KeyCache.empty.insert 0 5
    let verifier : Verifier Nat _ := .recording (some 2)
    cache.Covers solitary.validators.size ∧ verifier.OnlyRefuses ∧
    failure? ((strangersVote.check Config.minimal solitary cache verifier).runOn []).1 =
      some (.rejected (.outsideRegistry 9 1)) ∧
    failure? ((doubleVote.check Config.minimal solitary cache verifier).runOn []).1 =
      some (.rejected (.signatureInvalid .attestation)) ∧
    ∀ signed : SignedVoluntaryExit, StopsAs Failure.IsRejection
      (signed.check Config.minimal solitary cache verifier) [] := by
  intro cache verifier
  have hcache : cache.Covers solitary.validators.size := by
    unfold KeyCache.Covers
    decide +kernel
  have hverifier : verifier.OnlyRefuses := Verifier.recording_onlyRefuses (some 2)
  obtain ⟨-, -, hexits⟩ :=
    checks_end_in_rejection Config.minimal solitary cache verifier hcache hverifier []
  exact ⟨hcache, hverifier, by decide +kernel, by decide +kernel, hexits (by decide +kernel)⟩

end Beacon
