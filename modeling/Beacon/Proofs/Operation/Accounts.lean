/-
  What a whole attester slashing comes to.

  The validators on the list are slashed one after the other, and all the slashings touch the same
  entry of the ring and the balance of the same proposer.  `Slashed` says what the slashings of a
  list have done together: it is shown by induction on the list, from what one slashing does.

  The balances come out as a fold over the list, as fines and rewards take turns (`inTurn`).  A
  validator is fined once, so the list falls into a part before its fine and a part from it on
  (`inTurn_append_cons`).  The list is strictly increasing; so for the proposer these are the
  validators below it and the others.
-/
import Beacon.Proofs.Operation.Acceptance
import Beacon.Proofs.Operation.Struck
import Beacon.Proofs.Registry.Payments

namespace Beacon

open Beacon.Action Beacon.State

/-! ## Fines and rewards in turn -/

namespace Reference

section

variable (fine reward : Nat → Nat) (payee : Nat)

/-- What becomes of the balance of `i` if each of the indices is fined in turn, and after each fine
    the payee gets the reward for it. -/
def inTurn (indices : List Nat) (i balance : Nat) : Nat :=
  indices.foldl (fun balance index =>
    balance - only index (fine index) i + only payee (reward index) i) balance

/-- Who is not fined may get rewards only. -/
theorem inTurn_of_notMem {indices : List Nat} {i : Nat} (hi : i ∉ indices) (balance : Nat) :
    inTurn fine reward payee indices i balance =
      balance + (indices.map fun index => only payee (reward index) i).sum := by
  induction indices generalizing balance with
  | nil => rfl
  | cons index indices ih =>
    rw [List.mem_cons, not_or] at hi
    have hfine : only index (fine index) i = 0 := if_neg hi.1
    show inTurn fine reward payee indices i
      (balance - only index (fine index) i + only payee (reward index) i) = _
    rw [ih hi.2, hfine, List.map_cons, List.sum_cons]
    omega

/-- Who is fined once gets rewards before and after. -/
theorem inTurn_append_cons {before after : List Nat} {i : Nat} (hbefore : i ∉ before)
    (hafter : i ∉ after) (balance : Nat) :
    inTurn fine reward payee (before ++ i :: after) i balance =
      balance + (before.map fun index => only payee (reward index) i).sum - fine i +
        ((i :: after).map fun index => only payee (reward index) i).sum := by
  have hfine : only i (fine i) i = fine i := if_pos rfl
  have hsplit : inTurn fine reward payee (before ++ i :: after) i balance =
      inTurn fine reward payee after i (inTurn fine reward payee before i balance -
        only i (fine i) i + only payee (reward i) i) := List.foldl_append
  rw [hsplit, inTurn_of_notMem _ _ _ hafter, inTurn_of_notMem _ _ _ hbefore, hfine, List.map_cons,
    List.sum_cons]
  omega

/-- To the payee all rewards count, -/
theorem map_only_payee (indices : List Nat) :
    (indices.map fun index => only payee (reward index) payee) = indices.map reward :=
  List.map_congr_left fun _ _ => if_pos rfl

/-- and to no one else any. -/
theorem sum_only_other {i : Nat} (hi : i ≠ payee) (indices : List Nat) :
    (indices.map fun index => only payee (reward index) i).sum = 0 := by
  have hzero : (indices.map fun index => only payee (reward index) i) = indices.map fun _ => 0 :=
    List.map_congr_left fun _ _ => if_neg hi
  rw [hzero]
  simp

end

/-- In a strictly increasing list, the elements below a member come before it. -/
theorem eq_filter_append_of_mem {indices : List Nat} {p : Nat} (hp : p ∈ indices)
    (hsorted : indices.Pairwise (· < ·)) : ∃ after,
      indices = indices.filter (· < p) ++ p :: after ∧ p :: after = indices.filter (p ≤ ·) ∧
      p ∉ indices.filter (· < p) ∧ p ∉ after := by
  obtain ⟨before, after, rfl⟩ := List.append_of_mem hp
  rw [List.pairwise_append] at hsorted
  obtain ⟨-, htail, hacross⟩ := hsorted
  have hbefore : ∀ a ∈ before, a < p := fun a ha => hacross a ha p List.mem_cons_self
  have hafter : ∀ a ∈ after, p < a := (List.pairwise_cons.mp htail).1
  have hbelow : (before ++ p :: after).filter (· < p) = before := by
    rw [List.filter_append, List.filter_eq_self.mpr fun a ha => decide_eq_true (hbefore a ha)]
    have hnone : (p :: after).filter (· < p) = [] := by
      rw [List.filter_eq_nil_iff]
      intro a ha
      rcases List.mem_cons.mp ha with rfl | ha
      · simp
      · have := hafter a ha
        simp
        omega
    rw [hnone, List.append_nil]
  have hfrom : (before ++ p :: after).filter (p ≤ ·) = p :: after := by
    have hnone : before.filter (p ≤ ·) = [] := by
      rw [List.filter_eq_nil_iff]
      intro a ha
      have := hbefore a ha
      simp
      omega
    rw [List.filter_append, hnone, List.nil_append, List.filter_eq_self]
    intro a ha
    rcases List.mem_cons.mp ha with rfl | ha
    · simp
    · have := hafter a ha
      simp
      omega
  refine ⟨after, ?_, hfrom.symm, ?_, ?_⟩
  · rw [hbelow]
  · rw [hbelow]
    intro hmem
    have := hbefore p hmem
    omega
  · intro hmem
    have := hafter p hmem
    omega

end Reference

/-! ## One of the slashings -/

/-- A record, and the same record after a slashing in this epoch. -/
structure Validator.SlashedAs (config : Config) (epoch : Epoch) (v w : Validator) : Prop where
  same : w = { v with
    slashed := true, exitEpoch := w.exitEpoch, withdrawableEpoch := w.withdrawableEpoch }
  ring_le : epoch.toNat + config.epochsPerSlashingsVector.val.toNat ≤ w.withdrawableEpoch.toNat
  /-- Without a delay before the withdrawal, the queue could get to the last epoch there is, which
      reads as "not set". -/
  exit_set : 1 ≤ config.minValidatorWithdrawabilityDelay.toNat → w.exitEpoch ≠ farFutureEpoch

/-- An exit changes two epochs of the record. -/
theorem ExitEffect.exists_before {config : Config} {index : Nat} {s t : State} {w : Validator}
    (h : ExitEffect config index s t) (hw : t.validators[index]? = some w) :
    ∃ v, s.validators[index]? = some v ∧
      w = { v with exitEpoch := w.exitEpoch, withdrawableEpoch := w.withdrawableEpoch } := by
  cases h with
  | leaving hv hstay => exact ⟨w, hw, rfl⟩
  | @planned v exit withdrawable hv hstay hplan =>
    unfold withExit at hw
    rw [getElem?_editRecord_self hv] at hw
    cases hw
    exact ⟨v, hv, rfl⟩

namespace SlashAccount

variable {config : Config} {index proposer whistleblower : Nat} {s t : State}

theorem slashedAs (h : SlashAccount config index proposer whistleblower s t) :
    ∃ v w, s.validators[index]? = some v ∧ t.validators[index]? = some w ∧
      v.SlashedAs config (currentEpoch config s) w := by
  obtain ⟨left, u, withdrawable, hexit, hu, hwithdrawable, hw⟩ := h.record
  have heffect := exitEffect_of_initiateExit hexit
  obtain ⟨v, hv, hsame⟩ := heffect.exists_before hu
  refine ⟨v, _, hv, hw, ?_, ?_, fun hdelay => ?_⟩
  · rw [hsame]
  · show _ ≤ withdrawable.toNat
    omega
  · have hleft := heffect.not_staying hdelay hu
    exact beq_eq_false_iff_ne.mp hleft

theorem stakeAt_eq (h : SlashAccount config index proposer whistleblower s t) (i : Nat) :
    t.stakeAt i = s.stakeAt i := by
  by_cases hi : i = index
  · subst hi
    obtain ⟨v, w, hv, hw, hslashed⟩ := h.slashedAs
    rw [stakeAt_of_getElem? hv, stakeAt_of_getElem? hw, hslashed.same]
  · unfold stakeAt
    rw [h.others i hi]

theorem slot_eq (h : SlashAccount config index proposer whistleblower s t) : t.slot = s.slot := by
  rw [h.frame]

end SlashAccount

/-! ## All of them -/

/-- What slashing these validators one after the other has done. -/
structure State.Slashed (config : Config) (proposer : Nat) (indices : List Nat) (s t : State) :
    Prop where
  frame : t = { s with
    validators := t.validators, balances := t.balances, slashings := t.slashings }
  record : ∀ i ∈ indices, ∃ v w, s.validators[i]? = some v ∧ t.validators[i]? = some w ∧
    v.SlashedAs config (currentEpoch config s) w
  others : ∀ i, i ∉ indices → t.validators[i]? = s.validators[i]?
  ring : Grown s.slashings t.slashings
    (only ((currentEpoch config s).toNat % s.slashings.size) (indices.map s.stakeAt).sum)
  size : t.balances.size = s.balances.size
  amount : ∀ i, amountAt t.balances i =
    Reference.inTurn (fun index => Reference.slashPenalty config (s.stakeAt index))
      (fun index => Reference.report config (s.stakeAt index)) proposer indices i
      (amountAt s.balances i)

namespace State.Slashed

variable {config : Config} {proposer : Nat} {s t u : State}

theorem nil : Slashed config proposer [] s s where
  frame := rfl
  record _ hi := absurd hi List.not_mem_nil
  others _ _ := rfl
  ring := (Grown.same s.slashings).congr fun _ => (ite_self 0).symm
  size := rfl
  amount _ := rfl

/-- One more slashing in front of the others.  It leaves everything they read as it was: the epoch,
    the stakes, and the length of the ring. -/
theorem cons {index : Nat} {indices : List Nat} (hnew : index ∉ indices)
    (h : SlashAccount config index proposer proposer s t) (h' : Slashed config proposer indices t u) :
    Slashed config proposer (index :: indices) s u := by
  have hepoch : currentEpoch config t = currentEpoch config s :=
    congrArg (epochAtSlot config) h.slot_eq
  have hstake : t.stakeAt = s.stakeAt := funext h.stakeAt_eq
  constructor
  · rw [h'.frame, h.frame]
  · intro i hi
    by_cases hself : i = index
    · subst hself
      obtain ⟨v, w, hv, hw, hslashed⟩ := h.slashedAs
      exact ⟨v, w, hv, (h'.others i hnew).trans hw, hslashed⟩
    · have hmem : i ∈ indices := (List.mem_cons.mp hi).resolve_left hself
      obtain ⟨v, w, hv, hw, hslashed⟩ := h'.record i hmem
      rw [hepoch] at hslashed
      exact ⟨v, w, (h.others i hself).symm.trans hv, hw, hslashed⟩
  · intro i hi
    rw [List.mem_cons, not_or] at hi
    rw [h'.others i hi.2, h.others i hi.1]
  · have hrest := h'.ring
    rw [hepoch, hstake, h.ring.size] at hrest
    refine (h.ring.trans hrest).congr fun i => ?_
    rw [List.map_cons, List.sum_cons]
    unfold only
    split <;> omega
  · rw [h'.size, h.size]
  · intro i
    rw [h'.amount, hstake, h.amount, Reference.reportPay_self]
    rfl

end State.Slashed

/-- Slashing the validators of a list, no one twice, does all of this. -/
theorem AttesterSlashing.slashed_of_slashAll {config : Config} {proposer : Nat}
    (indices : List Nat) : ∀ {s t : State},
      (slashAll config proposer indices).runOn s = (.ok (), t) → indices.Nodup →
      Slashed config proposer indices s t := by
  induction indices with
  | nil =>
    intro s t h _
    obtain ⟨-, rfl⟩ := runOn_pure_eq_ok_iff.mp h
    exact .nil
  | cons index indices ih =>
    intro s t h hnodup
    obtain ⟨hnew, hnodup'⟩ := List.nodup_cons.mp hnodup
    obtain ⟨_, mid, hslash, hrest⟩ := runOn_bind_eq_ok_iff.mp h
    exact .cons hnew (slashAccount_of_slash hslash) (ih hrest hnodup')

/-! ## The whole operation -/

/-- All that an attester slashing which strikes these validators has done to a state. -/
structure StruckAccount (config : Config) (proposer : Nat) (struck : List Nat) (s t : State) :
    Prop where
  /-- Nothing but the records, the balances and the ring has changed. -/
  frame : t = { s with
    validators := t.validators, balances := t.balances, slashings := t.slashings }
  /-- Just these validators are newly slashed. -/
  newly : ∀ i, s.markAt i = some false ∧ t.markAt i = some true ↔ i ∈ struck
  /-- Each of them has an exit epoch and cannot withdraw before the ring has gone round, -/
  record : ∀ i ∈ struck, ∃ v w, s.validators[i]? = some v ∧ t.validators[i]? = some w ∧
    v.SlashedAs config (currentEpoch config s) w
  /-- and the other records are the same. -/
  others : ∀ i, i ∉ struck → t.validators[i]? = s.validators[i]?
  /-- The ring has grown by all the stakes at the place of the epoch. -/
  ring : Grown s.slashings t.slashings
    (only ((currentEpoch config s).toNat % s.slashings.size) (struck.map s.stakeAt).sum)
  size : t.balances.size = s.balances.size
  /-- Whoever is struck pays the penalty. -/
  fined : ∀ i ∈ struck, i ≠ proposer → amountAt t.balances i =
    amountAt s.balances i - Reference.slashPenalty config (s.stakeAt i)
  /-- The proposer gets the reward for everyone; -/
  paid : proposer ∉ struck → amountAt t.balances proposer =
    amountAt s.balances proposer +
      (struck.map fun i => Reference.report config (s.stakeAt i)).sum
  /-- being struck itself, it pays the penalty in between. -/
  paidAndFined : proposer ∈ struck → amountAt t.balances proposer =
    amountAt s.balances proposer +
      ((struck.filter (· < proposer)).map fun i => Reference.report config (s.stakeAt i)).sum -
      Reference.slashPenalty config (s.stakeAt proposer) +
      ((struck.filter (proposer ≤ ·)).map fun i => Reference.report config (s.stakeAt i)).sum
  /-- All other balances are the same. -/
  unpaid : ∀ i, i ∉ struck → i ≠ proposer → amountAt t.balances i = amountAt s.balances i

/-- The account, with the balances worked out. -/
theorem State.Slashed.struckAccount {config : Config} {proposer : Nat} {struck : List Nat}
    {s t : State} (h : Slashed config proposer struck s t) (hsorted : struck.Pairwise (· < ·))
    (hslashable : ∀ i ∈ struck, s.markAt i = some false) :
    StruckAccount config proposer struck s t := by
  have hnodup : struck.Nodup := hsorted.imp Nat.ne_of_lt
  constructor
  · exact h.frame
  · intro i
    constructor
    · rintro ⟨hbefore, hafter⟩
      by_contra hi
      unfold markAt at hbefore hafter
      rw [h.others i hi, hbefore] at hafter
      nomatch hafter
    · intro hi
      obtain ⟨v, w, -, hw, hslashed⟩ := h.record i hi
      refine ⟨hslashable i hi, ?_⟩
      unfold markAt
      rw [hw, hslashed.same]
      rfl
  · exact h.record
  · exact h.others
  · exact h.ring
  · exact h.size
  · intro i hi hother
    obtain ⟨before, after, hsplit⟩ := List.append_of_mem hi
    rw [hsplit] at hnodup
    have hbefore : i ∉ before := fun c =>
      (List.nodup_append.mp hnodup).2.2 i c i List.mem_cons_self rfl
    have hafter : i ∉ after := (List.nodup_cons.mp (List.nodup_append.mp hnodup).2.1).1
    rw [h.amount, hsplit, Reference.inTurn_append_cons _ _ _ hbefore hafter,
      Reference.sum_only_other _ _ hother, Reference.sum_only_other _ _ hother]
    omega
  · intro hproposer
    rw [h.amount, Reference.inTurn_of_notMem _ _ _ hproposer, Reference.map_only_payee]
  · intro hproposer
    obtain ⟨after, hsplit, hfrom, hbefore, hafter⟩ :=
      Reference.eq_filter_append_of_mem hproposer hsorted
    rw [h.amount, hsplit, Reference.inTurn_append_cons _ _ _ hbefore hafter,
      Reference.map_only_payee, Reference.map_only_payee, ← hsplit, hfrom]
  · intro i hi hother
    rw [h.amount, Reference.inTurn_of_notMem _ _ _ hi, Reference.sum_only_other _ _ hother]
    omega

/-- **What a whole attester slashing comes to.**  If it is enacted, its check has given a list of
    validators on the state as it was, and this list accounts for all that has changed. -/
theorem AttesterSlashing.enact_accounts {κ ω : Type} {config : Config} {cache : KeyCache κ}
    {verifier : Verifier κ ω} {slashing : AttesterSlashing} {proposer : Nat} {s t : State}
    {w w' : ω}
    (h : (slashing.enact config cache verifier proposer).runOn (s, w) = (.ok (), t, w')) :
    ∃ struck, (slashing.check config s cache verifier).runOn w = (.ok struck, w') ∧
      StruckAccount config proposer struck s t := by
  have hoperation : ((BlockOperation.attesterSlashing slashing proposer).enact config cache
      verifier).runOn (s, w) = (.ok (), t, w') := h
  have hstages : ∃ struck, (slashing.check config s cache verifier).runOn w = (.ok struck, w') ∧
      (slashAll config proposer struck).runOn s = (.ok (), t) :=
    BlockOperation.stages_of_enact hoperation
  obtain ⟨struck, hcheck, happly⟩ := hstages
  have hsorted := check_increasing hcheck
  have hslashed := slashed_of_slashAll struck happly (hsorted.imp Nat.ne_of_lt)
  refine ⟨struck, hcheck, hslashed.struckAccount hsorted fun i hi => ?_⟩
  obtain ⟨v, -, hv, -, -⟩ := hslashed.record i hi
  have hslashable := of_slashableAt ((check_slashable hcheck).2 i hi) hv
  unfold markAt
  rw [hv, Option.map_some, hslashable.1]

/-- The proposer loses the reward for the first validator to its own penalty, and keeps the one for
    itself. -/
theorem AttesterSlashing.enact_accounts_joint : ∃ t w',
    (jointDoubleVote.enact Config.minimal jointKeys (.recording none) 1).runOn
      (Collect.impoverished, []) = (.ok (), t, w') ∧
    StruckAccount Config.minimal 1 [0, 1] Collect.impoverished t ∧
    t.balances = #[0, 62500000, 7] := by
  have hslashable : [0, 1] = jointDoubleVote.slashable Config.minimal Collect.impoverished := by
    decide +kernel
  have hok : ((slashAll Config.minimal 1 [0, 1]).runOn Collect.impoverished).1.isOk = true := by
    decide +kernel
  have hbalances : ((slashAll Config.minimal 1 [0, 1]).runOn Collect.impoverished).2.balances =
      #[0, 62500000, 7] := by
    decide +kernel
  obtain ⟨w', hcheck⟩ := check_jointDoubleVote rfl hslashable (by decide)
  obtain ⟨_, hrun⟩ := enact_jointDoubleVote _ _ 1 rfl hslashable (by decide) hok
  obtain ⟨struck, hcheck', haccount⟩ := AttesterSlashing.enact_accounts hrun
  rw [hcheck] at hcheck'
  cases hcheck'
  exact ⟨_, _, hrun, haccount, hbalances⟩

end Beacon
