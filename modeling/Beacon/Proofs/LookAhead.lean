/-
  The look-ahead: who is active in the epochs just ahead is known.

  No change of a record touches its activity up to the end of the look-ahead
  (`Validator.Change.isActive_eq`).  So nothing that happens at one slot changes who is active in
  the current epoch or in the epochs up to there, nor the churn limit, which depends on nothing
  else.
-/
import Beacon.Proofs.Steps

namespace Beacon

open Beacon.State

/-! ## Activity up to the look-ahead -/

/-- No change of a record touches its activity in the epochs up to the end of the look-ahead. -/
theorem Validator.Change.isActive_eq {config : Config} {current e : Epoch} {v w : Validator}
    (h : Validator.Change config current v w)
    (he : e.toNat ≤ current.toNat + config.maxSeedLookahead.toNat) :
    w.isActive e = v.isActive e := by
  have hfar : ∀ d : Epoch, e.toNat < d.toNat → e < farFutureEpoch := fun d hd => by
    rw [UInt64.lt_iff_toNat_lt]
    exact Nat.lt_of_lt_of_le hd (toNat_le_farFutureEpoch d)
  cases h with
  | leave exit withdrawable _ hstay hexit _ =>
    -- the exit was not set and is now later than `e`: in both cases it is still to come
    have hlater : e.toNat < exit.toNat := by omega
    unfold Validator.isActive
    rw [Validator.isStaying_iff.mp hstay, decide_eq_true (hfar exit hlater),
      decide_eq_true (UInt64.lt_iff_toNat_lt.mpr hlater)]
  | slash withdrawable _ _ _ _ => rfl
  | becomeEligible next _ _ => rfl
  | activate activation hunset _ hactivation =>
    -- the activation was not set and is now later than `e`: in both cases it is still to come
    have hlater : e.toNat < activation.toNat := by omega
    have hbefore : ¬ v.activationEpoch ≤ e := by
      have := UInt64.lt_iff_toNat_lt.mp (hfar activation hlater)
      rw [hunset, UInt64.le_iff_toNat_le]
      omega
    have hafter : ¬ activation ≤ e := by
      rw [UInt64.le_iff_toNat_le]
      omega
    unfold Validator.isActive
    rw [decide_eq_false hbefore, decide_eq_false hafter]

theorem State.Evolves.keeps_isActive {config : Config} {touched : Nat → Prop} {s t : State}
    {e : Epoch} (h : Evolves config touched s t)
    (he : e.toNat ≤ (currentEpoch config s).toNat + config.maxSeedLookahead.toNat) :
    Keeps (fun v => v.isActive e) s t :=
  h.keeps fun _ _ hchange => hchange.isActive_eq he

/-- Whatever happens at one slot, in any order and with any outcome, in all epochs up to the end of
    the look-ahead the same validators are active as before, and the churn limit is the same. -/
theorem isActive_stable {config : Config} {s t : State}
    (h : Relation.ReflTransGen (Step config) s t) :
    (∀ e : Epoch, e.toNat ≤ (currentEpoch config s).toNat + config.maxSeedLookahead.toNat →
      ∀ i : Nat, (t.validators[i]?).map (fun v => v.isActive e) =
        (s.validators[i]?).map fun v => v.isActive e) ∧
    registryChurnLimit config t = registryChurnLimit config s := by
  have hevolves := evolves_of_run h
  refine ⟨fun e he => hevolves.keeps_isActive he, ?_⟩
  rw [State.registryChurnLimit_eq, State.registryChurnLimit_eq]
  unfold State.churnLimit
  rw [hevolves.currentEpoch_eq, (hevolves.keeps_isActive (Nat.le_add_right _ _)).countP_eq]

/-- No validator has to serve before it may leave. -/
def freeToLeave : Config := { Config.minimal with shardCommitteePeriod := 0 }

/-- A validator with too little stake leaves by itself. -/
def departed : State :=
  ((SignedVoluntaryExit.enact freeToLeave (KeyCache.empty.insert 0 ()) .null
    ⟨⟨0, 0⟩, default⟩).runOn (scheduled [], ())).2.1

/-- The end of the epoch in which it left. -/
def departedAtEnd : State :=
  ((endEpoch freeToLeave noCommittees .never).runOn (departed, .start)).2.1

theorem isActive_stable_departed :
    Relation.ReflTransGen (Step freeToLeave) (scheduled []) departedAtEnd ∧
    (scheduled []).exitTimes 0 = some (farFutureEpoch, farFutureEpoch) ∧
    departedAtEnd.exitTimes 0 = some (7, 263) ∧
    (∀ e : Epoch, e.toNat ≤ 6 → ∀ i : Nat,
      (departedAtEnd.validators[i]?).map (fun v => v.isActive e) =
        ((scheduled []).validators[i]?).map fun v => v.isActive e) ∧
    registryChurnLimit freeToLeave departedAtEnd =
      registryChurnLimit freeToLeave (scheduled []) := by
  have hrun : Relation.ReflTransGen (Step freeToLeave) (scheduled []) departedAtEnd :=
    .tail (.single (.voluntaryExit _ _ _ _ _)) (.endEpoch _ _ _ _)
  obtain ⟨hactive, hlimit⟩ := isActive_stable hrun
  exact ⟨hrun, rfl, by decide +kernel, hactive, hlimit⟩

end Beacon
