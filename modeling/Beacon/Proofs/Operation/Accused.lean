/-
  Whom an attester slashing slashes.

  The accused are common to two index sets.  Both have been checked to be strictly increasing, so
  the common elements are, too: nobody is slashed twice (`check_slashable`).  Everyone who is
  slashed could be slashed when the evidence came in.
-/
import Beacon.Operation.AttesterSlashing
import Beacon.Proofs.Operation.IndexSet
import Beacon.Proofs.Registry.Records

namespace Beacon

open Beacon.Action

/-- An attestation that is accepted has an index set. -/
theorem IndexedAttestation.pairwise_of_check {κ ω : Type} {config : Config} {s : State}
    {cache : KeyCache κ} {verifier : Verifier κ ω} {attestation : IndexedAttestation} {w w' : ω}
    (h : (attestation.check config s cache verifier).runOn w = (.ok (), w')) :
    attestation.attestingIndices.Pairwise (· < ·) := by
  obtain ⟨_, w1, hindices, -⟩ := runOn_bind_eq_ok_iff.mp h
  obtain ⟨_, hcheck, -⟩ := bind_eq_ok_iff.mp (runOn_ofExcept_eq_ok_iff.mp hindices).1
  exact IndexSet.pairwise_of_check hcheck

namespace AttesterSlashing

/-- Can the validator with this index be slashed? -/
def slashableAt (config : Config) (s : State) (index : Nat) : Bool :=
  (s.validators[index]?).any fun v => v.isSlashable (currentEpoch config s)

theorem slashableAmong_eq_ok {config : Config} {s : State} {indices slashable : List Nat}
    (h : slashableAmong config s indices = .ok slashable) :
    slashable = indices.filter (slashableAt config s) := by
  refine filterM_eq_ok (fun index b hb => ?_) h
  obtain ⟨v, hv, hb⟩ := bind_eq_ok_iff.mp hb
  cases hb
  rw [mapError_eq_ok_iff, State.validator_eq_ok_iff] at hv
  unfold slashableAt
  rw [hv, Option.any_some]

/-- What a check that succeeds has found: two index sets, and among their common elements someone
    who can be slashed. -/
theorem of_check {κ ω : Type} {config : Config} {s : State} {cache : KeyCache κ}
    {verifier : Verifier κ ω} {slashing : AttesterSlashing} {w w' : ω} {slashable : List Nat}
    (h : (slashing.check config s cache verifier).runOn w = (.ok slashable, w')) :
    slashing.attestation1.attestingIndices.Pairwise (· < ·) ∧
    slashing.attestation2.attestingIndices.Pairwise (· < ·) ∧
    slashable = (slashing.accused.map UInt64.toNat).filter (slashableAt config s) ∧
    slashable ≠ [] := by
  obtain ⟨_, w1, -, h⟩ := runOn_bind_eq_ok_iff.mp h
  obtain ⟨_, w2, hfirst, h⟩ := runOn_bind_eq_ok_iff.mp h
  obtain ⟨_, w3, hsecond, h⟩ := runOn_bind_eq_ok_iff.mp h
  obtain ⟨found, w4, hfound, h⟩ := runOn_bind_eq_ok_iff.mp h
  obtain ⟨_, w5, hsome, h⟩ := runOn_bind_eq_ok_iff.mp h
  obtain ⟨rfl, -⟩ := runOn_pure_eq_ok_iff.mp h
  refine ⟨IndexedAttestation.pairwise_of_check hfirst,
    IndexedAttestation.pairwise_of_check hsecond,
    slashableAmong_eq_ok (runOn_ofExcept_eq_ok_iff.mp hfound).1, ?_⟩
  have hsome := ensure_eq_ok_iff.mp (runOn_ofExcept_eq_ok_iff.mp hsome).1
  rintro rfl
  nomatch hsome

/-- An accepted attester slashing gives its validators in order. -/
theorem check_increasing {κ ω : Type} {config : Config} {s : State} {cache : KeyCache κ}
    {verifier : Verifier κ ω} {slashing : AttesterSlashing} {w w' : ω} {slashable : List Nat}
    (h : (slashing.check config s cache verifier).runOn w = (.ok slashable, w')) :
    slashable.Pairwise (· < ·) := by
  obtain ⟨hincreasing, -, rfl, -⟩ := of_check h
  have haccused : slashing.accused.Pairwise (· < ·) :=
    hincreasing.sublist (IndexSet.inter_sublist _ _)
  have hindices : (slashing.accused.map UInt64.toNat).Pairwise (· < ·) :=
    List.pairwise_map.mpr (haccused.imp fun hlt => UInt64.lt_iff_toNat_lt.mp hlt)
  exact hindices.sublist List.filter_sublist

/-- An accepted attester slashing slashes validators who can be slashed, each of them once. -/
theorem check_slashable {κ ω : Type} {config : Config} {s : State} {cache : KeyCache κ}
    {verifier : Verifier κ ω} {slashing : AttesterSlashing} {w w' : ω} {slashable : List Nat}
    (h : (slashing.check config s cache verifier).runOn w = (.ok slashable, w')) :
    slashable.Nodup ∧ ∀ i ∈ slashable, slashableAt config s i = true := by
  have hnodup : slashable.Nodup := (check_increasing h).imp Nat.ne_of_lt
  obtain ⟨-, -, rfl, -⟩ := of_check h
  exact ⟨hnodup, fun i hi => (List.mem_filter.mp hi).2⟩

/-- Both votes were cast by this validator. -/
def Accuses (slashing : AttesterSlashing) (index : UInt64) : Prop :=
  index ∈ slashing.attestation1.attestingIndices ∧
    index ∈ slashing.attestation2.attestingIndices

end AttesterSlashing

end Beacon
