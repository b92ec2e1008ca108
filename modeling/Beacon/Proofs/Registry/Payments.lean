/-
  What a slashing takes and pays.

  A slashing changes balances three times: it takes the penalty, pays the proposer, and pays the
  whistleblower.  Any of the three validators may be one and the same, and then each payment starts
  from what the one before has left.  `State.Paid` says what payments have made of every balance, so
  the formula for all validators at once comes from composing three of them (`Paid.trans`), and no
  two indices are ever compared.
-/
import Mathlib.Algebra.BigOperators.Group.Finset.Piecewise
import Beacon.Proofs.Epoch.Rewards
import Beacon.Proofs.Ledger

namespace Beacon

open Beacon.Action Beacon.State

/-! ## Amounts -/

namespace Reference

/-- What a slashed validator with this stake pays at once. -/
def slashPenalty (config : Config) (stake : Nat) : Nat :=
  stake / config.minSlashingPenaltyQuotient.val.toNat

/-- What it is worth to report a validator with this stake. -/
def report (config : Config) (stake : Nat) : Nat :=
  stake / config.whistleblowerRewardQuotient.val.toNat

/-- The part of it for the proposer. -/
def reportShare (config : Config) (stake : Nat) : Nat :=
  report config stake / config.proposerRewardQuotient.val.toNat

/-- What is paid to a validator for the report. -/
def reportPay (config : Config) (proposer whistleblower stake : Nat) : Nat → Nat := fun i =>
  only proposer (reportShare config stake) i +
    only whistleblower (report config stake - reportShare config stake) i

theorem reportShare_le (config : Config) (stake : Nat) :
    reportShare config stake ≤ report config stake := Nat.div_le_self _ _

/-- A proposer who is the whistleblower, too, gets all of it. -/
theorem reportPay_self (config : Config) (proposer stake : Nat) (i : Nat) :
    reportPay config proposer proposer stake i = only proposer (report config stake) i := by
  have hshare := reportShare_le config stake
  unfold reportPay only
  split <;> omega

/-- Whoever gets how much of it, it is paid in full. -/
theorem sum_reportPay (config : Config) {proposer whistleblower size : Nat} (stake : Nat)
    (hproposer : proposer < size) (hwhistleblower : whistleblower < size) :
    ∑ i ∈ Finset.range size, reportPay config proposer whistleblower stake i =
      report config stake := by
  have hshare := reportShare_le config stake
  unfold reportPay only
  rw [Finset.sum_add_distrib, Finset.sum_ite_eq', Finset.sum_ite_eq',
    if_pos (Finset.mem_range.mpr hproposer), if_pos (Finset.mem_range.mpr hwhistleblower)]
  omega

end Reference

/-! ## Payments -/

namespace State

/-- Payments have made of every balance what `after` says, and changed nothing else. -/
structure Paid (after : Nat → Nat → Nat) (s t : State) : Prop where
  only : OnlyBalances s t
  size : t.balances.size = s.balances.size
  amount : ∀ i, amountAt t.balances i = after i (amountAt s.balances i)

/-- One payment after the other. -/
theorem Paid.trans {f g : Nat → Nat → Nat} {s t u : State} (h : Paid f s t) (h' : Paid g t u) :
    Paid (fun i balance => g i (f i balance)) s u where
  only := h.only.trans h'.only
  size := h'.size.trans h.size
  amount i := by rw [h'.amount, h.amount]

/-- A balance that is replaced is one payment. -/
theorem paid_withBalance {s : State} {index : Nat} {balance amount : Gwei}
    (hbalance : s.balances[index]? = some balance) {after : Nat → Nat → Nat}
    (hself : amount.toNat = after index balance.toNat)
    (hothers : ∀ i, i ≠ index → ∀ old, after i old = old) :
    Paid after s (s.withBalance index amount) where
  only := rfl
  size := Array.size_modify
  amount i := by
    show (((s.withBalance index amount).balances[i]?).getD 0).toNat =
      after i ((s.balances[i]?).getD 0).toNat
    rw [getElem?_withBalance]
    by_cases hi : index = i
    · subst hi
      rw [if_pos rfl, hbalance]
      exact hself
    · rw [if_neg hi, hothers i fun c => hi c.symm]

theorem paid_of_debit {index : Nat} {amount : Gwei} {s t : State}
    (h : (debit index amount).runOn s = (.ok (), t)) :
    Paid (fun i balance => balance - only index amount.toNat i) s t := by
  rw [runOn_debit] at h
  rcases hbalance : s.balances[index]? with _ | balance
  · rw [hbalance] at h
    nomatch h
  · rw [hbalance] at h
    obtain rfl : s.withBalance index (Word.subSaturating balance amount) = t :=
      congrArg Prod.snd h
    refine paid_withBalance hbalance ?_ fun i hi old => ?_
    · show _ = _ - if index = index then _ else _
      rw [if_pos rfl, Word.toNat_subSaturating]
    · show old - (if i = index then _ else 0) = old
      rw [if_neg hi]
      omega

/-- Whoever is paid is there. -/
theorem paid_of_credit {index : Nat} {amount : Gwei} {s t : State}
    (h : (credit index amount).runOn s = (.ok (), t)) :
    index < s.balances.size ∧ Paid (fun i balance => balance + only index amount.toNat i) s t := by
  obtain ⟨balance, _, hread, h⟩ := runOn_bind_eq_ok_iff.mp h
  obtain ⟨new, _, hnew, hwrite⟩ := runOn_bind_eq_ok_iff.mp h
  have hbalance : s.balances[index]? = some balance := by
    have helement : element s.balances index = .ok balance :=
      mapError_eq_ok_iff.mp (congrArg Prod.fst hread)
    unfold element at helement
    split at helement
    · next hsome => exact hsome.trans (congrArg some (Except.ok.inj helement))
    · nomatch helement
  obtain rfl : s = _ := congrArg Prod.snd hread
  obtain ⟨hadd, rfl⟩ := runOn_ofExcept_eq_ok_iff.mp hnew
  rw [orFail_eq_ok_iff, Word.addChecked_eq_some_iff] at hadd
  have hlt : index < s.balances.size := (Array.getElem?_eq_some_iff.mp hbalance).1
  rw [runOn_write_balance, if_pos hlt] at hwrite
  obtain rfl : s.withBalance index new = t := congrArg Prod.snd hwrite
  refine ⟨hlt, paid_withBalance hbalance ?_ fun i hi old => ?_⟩
  · show _ = _ + if index = index then _ else _
    rw [if_pos rfl, hadd]
  · show old + (if i = index then _ else 0) = old
    rw [if_neg hi]
    omega

/-! ## The ring -/

/-- A stake that is noted goes to the place of its epoch. -/
theorem grown_of_noteSlashing {s t : State} {epoch : Epoch} {amount : Gwei}
    (h : s.noteSlashing epoch amount = .ok t) : epoch.toNat % s.slashings.size < s.slashings.size ∧
      Grown s.slashings t.slashings (only (epoch.toNat % s.slashings.size) amount.toNat) := by
  unfold noteSlashing at h
  rcases hposition : ringPosition? epoch s.slashings.size with _ | position
  · rw [hposition] at h
    nomatch h
  obtain rfl : epoch.toNat % s.slashings.size = position := by
    unfold ringPosition? at hposition
    split at hposition
    · nomatch hposition
    · exact Option.some.inj hposition
  rw [hposition] at h
  dsimp only at h
  rcases hold : s.slashings[epoch.toNat % s.slashings.size]? with _ | old
  · rw [hold] at h
    nomatch h
  rw [hold] at h
  dsimp only at h
  rcases hnew : Word.addChecked old amount with _ | new
  · rw [hnew] at h
    nomatch h
  rw [hnew] at h
  cases h
  refine ⟨(Array.getElem?_eq_some_iff.mp hold).1, addAt_grown ?_⟩
  show addAt s.slashings (epoch.toNat % s.slashings.size) amount = _
  unfold addAt
  rw [hold]
  dsimp only
  rw [hnew]

end State

/-! ## A whole slashing -/

theorem State.stakeAt_of_getElem? {s : State} {i : Nat} {v : Validator}
    (hv : s.validators[i]? = some v) : s.stakeAt i = v.effectiveBalance.toNat := by
  unfold stakeAt
  rw [hv]
  rfl

/-- All that a slashing which succeeds does to a state. -/
structure SlashAccount (config : Config) (index proposer whistleblower : Nat) (s t : State) :
    Prop where
  /-- Nothing but the records, the balances and the ring has changed, -/
  frame : t = { s with
    validators := t.validators, balances := t.balances, slashings := t.slashings }
  /-- no record but that of the slashed validator, -/
  others : ∀ i, i ≠ index → t.validators[i]? = s.validators[i]?
  /-- which is the one that the exit leaves, marked, and with the withdrawal put off until the ring
      has gone round. -/
  record : ∃ (left : State) (v : Validator) (withdrawable : Epoch),
    (initiateExit config index).runOn s = (.ok (), left) ∧
    left.validators[index]? = some v ∧
    withdrawable.toNat = max
      ((currentEpoch config s).toNat + config.epochsPerSlashingsVector.val.toNat)
      v.withdrawableEpoch.toNat ∧
    t.validators[index]? = some { v with slashed := true, withdrawableEpoch := withdrawable }
  /-- The ring has a place for the epoch, -/
  place_lt : (currentEpoch config s).toNat % s.slashings.size < s.slashings.size
  /-- and only there it has grown, by the stake. -/
  ring : Grown s.slashings t.slashings
    (only ((currentEpoch config s).toNat % s.slashings.size) (s.stakeAt index))
  /-- Whoever is paid has a balance, -/
  proposer_lt : proposer < s.balances.size
  whistleblower_lt : whistleblower < s.balances.size
  size : t.balances.size = s.balances.size
  /-- and every balance is what the penalty and then the two rewards make of it. -/
  amount : ∀ i, amountAt t.balances i =
    amountAt s.balances i - only index (Reference.slashPenalty config (s.stakeAt index)) i +
      Reference.reportPay config proposer whistleblower (s.stakeAt index) i

/-- The penalty and the two rewards, one after the other. -/
theorem paid_of_payments {config : Config} {index proposer whistleblower : Nat} {stake : Gwei}
    {s t : State}
    (h : (do
      debit index (slashingPenalty config stake)
      let rest ← Action.ofExcept (orFail .overflow
        (Word.subChecked (whistleblowerReward config stake) (slashingProposerReward config stake)))
      credit proposer (slashingProposerReward config stake)
      credit whistleblower rest : Action State Unit).runOn s = (.ok (), t)) :
    proposer < s.balances.size ∧ whistleblower < s.balances.size ∧
      Paid (fun i balance =>
        balance - only index (Reference.slashPenalty config stake.toNat) i +
          Reference.reportPay config proposer whistleblower stake.toNat i) s t := by
  obtain ⟨_, fined, hdebit, h⟩ := runOn_bind_eq_ok_iff.mp h
  obtain ⟨rest, _, hsub, h⟩ := runOn_bind_eq_ok_iff.mp h
  obtain ⟨hrest, rfl⟩ := runOn_ofExcept_eq_ok_iff.mp hsub
  obtain ⟨_, shared, hshare, hrest'⟩ := runOn_bind_eq_ok_iff.mp h
  have hfined := paid_of_debit hdebit
  obtain ⟨hproposer, hshared⟩ := paid_of_credit hshare
  obtain ⟨hwhistleblower, hpaid⟩ := paid_of_credit hrest'
  rw [orFail_eq_ok_iff, Word.subChecked_eq_some_iff] at hrest
  -- the amounts in words are those of the reference
  have hpenalty : (slashingPenalty config stake).toNat =
      Reference.slashPenalty config stake.toNat := Word.toNat_div _ _
  have hreport : (whistleblowerReward config stake).toNat =
      Reference.report config stake.toNat := Word.toNat_div _ _
  have hpart : (slashingProposerReward config stake).toNat =
      Reference.reportShare config stake.toNat := by
    unfold slashingProposerReward
    rw [Word.toNat_div, hreport]
    rfl
  rw [hshared.size, hfined.size] at hwhistleblower
  rw [hfined.size] at hproposer
  refine ⟨hproposer, hwhistleblower, ?_⟩
  have hall := (hfined.trans hshared).trans hpaid
  rw [hpenalty, hrest.2, hreport, hpart] at hall
  refine ⟨hall.only, hall.size, fun i => ?_⟩
  rw [hall.amount]
  exact Nat.add_assoc _ _ _

/-- An exit changes records only. -/
theorem ExitEffect.frame {config : Config} {index : Nat} {s t : State}
    (h : ExitEffect config index s t) : t = { s with validators := t.validators } := by
  cases h with
  | leaving hv hstay => rfl
  | planned hv hstay hplan => rfl

/-- The stages of a slashing that succeeds: the exit, the mark and the note, and the payments. -/
theorem stages_of_slash {config : Config} {index proposer : Nat} {whistleblower : Option Nat}
    {s t : State} (h : (slash config index proposer whistleblower).runOn s = (.ok (), t)) :
    ∃ (left noted : State) (v : Validator) (withdrawable : Epoch),
      (initiateExit config index).runOn s = (.ok (), left) ∧
      left.validators[index]? = some v ∧
      (left.withSlashing index withdrawable).noteSlashing (currentEpoch config s)
        v.effectiveBalance = .ok noted ∧
      proposer < noted.balances.size ∧ whistleblower.getD proposer < noted.balances.size ∧
      Paid (fun i balance =>
        balance - only index (Reference.slashPenalty config v.effectiveBalance.toNat) i +
          Reference.reportPay config proposer (whistleblower.getD proposer)
            v.effectiveBalance.toNat i) noted t := by
  obtain ⟨_, left, hexit, h⟩ := runOn_bind_eq_ok_iff.mp h
  obtain ⟨epoch, _, hview, h⟩ := runOn_bind_eq_ok_iff.mp h
  obtain ⟨v, _, hread, h⟩ := runOn_bind_eq_ok_iff.mp h
  obtain ⟨ringEnd, _, hend, h⟩ := runOn_bind_eq_ok_iff.mp h
  rw [runOn_view] at hview
  cases hview
  obtain rfl : left = _ := congrArg Prod.snd hread
  obtain ⟨-, rfl⟩ := runOn_ofExcept_eq_ok_iff.mp hend
  have hv : left.validators[index]? = some v :=
    validator_eq_ok_iff.mp (mapError_eq_ok_iff.mp (congrArg Prod.fst hread))
  have hepoch : currentEpoch config left = currentEpoch config s :=
    congrArg (epochAtSlot config) (exitEffect_of_initiateExit hexit).slot_eq
  rw [runOn_write_write rfl rfl hv, hepoch] at h
  obtain ⟨_, noted, hwrite, hpay⟩ := runOn_bind_eq_ok_iff.mp h
  change (Action.write _).runOn (left.withSlashing index (max ringEnd v.withdrawableEpoch)) = _
    at hwrite
  rw [runOn_write_slashing] at hwrite
  rcases hnote : (left.withSlashing index (max ringEnd v.withdrawableEpoch)).noteSlashing
    (currentEpoch config s) v.effectiveBalance with cause | noted'
  · rw [hnote] at hwrite
    nomatch hwrite
  · rw [hnote] at hwrite
    obtain rfl : noted' = noted := congrArg Prod.snd hwrite
    exact ⟨left, noted', v, _, hexit, hv, hnote, paid_of_payments hpay⟩

/-- A slashing that succeeds does all of this. -/
theorem slashAccount_of_slash {config : Config} {index proposer : Nat}
    {whistleblower : Option Nat} {s t : State}
    (h : (slash config index proposer whistleblower).runOn s = (.ok (), t)) :
    SlashAccount config index proposer (whistleblower.getD proposer) s t := by
  have heffect := slashEffect_of_slash h
  obtain ⟨left, noted, v, withdrawable, hexit, hv, hnote, hproposer, hwhistleblower, hpaid⟩ :=
    stages_of_slash h
  have hleft := (exitEffect_of_initiateExit hexit).frame
  obtain ⟨_, _, _, -, -, hnoted⟩ := noteSlashing_eq_ok hnote
  obtain ⟨hplace, hring⟩ := grown_of_noteSlashing hnote
  -- the exit has not changed the stake
  have hstake : s.stakeAt index = v.effectiveBalance.toNat := by
    have hkeeps : Keeps Validator.effectiveBalance s left :=
      (initiateExit_keeps (fun _ _ _ => rfl) config index s).of_runOn hexit
    obtain ⟨u, hu, hsame⟩ := hkeeps.getElem? hv
    rw [stakeAt_of_getElem? hu, hsame]
  have hslashings : (left.withSlashing index withdrawable).slashings = s.slashings := by
    rw [hleft]
    rfl
  have hbalances : noted.balances = s.balances := by
    rw [hnoted, hleft]
    rfl
  have hpaidRing : t.slashings = noted.slashings := by
    rw [hpaid.only]
  rw [hslashings] at hplace hring
  rw [hbalances] at hproposer hwhistleblower
  exact {
    frame := by
      rw [hpaid.only, hnoted, hleft]
      rfl
    others := fun i hi => heffect.others hi
    record := heffect.record
    place_lt := hplace
    ring := by
      rw [hpaidRing, hstake]
      exact hring
    proposer_lt := hproposer
    whistleblower_lt := hwhistleblower
    size := by rw [hpaid.size, hbalances]
    amount := fun i => by rw [hpaid.amount, hbalances, hstake] }

/-- **What a slashing comes to, whoever is who.**  The validator slashed, the proposer and the
    whistleblower may be one, two or three.  Each balance is first lowered by the penalty and then
    raised by the rewards, which add up to the whole reward for the report; the one record is marked
    as the exit left it, the one entry of the ring grows by the stake, and nothing else changes. -/
theorem slash_accounts_for_all_roles {config : Config} {slashed proposer : Nat}
    {whistleblower : Option Nat} {s t : State}
    (h : (slash config slashed proposer whistleblower).runOn s = (.ok (), t)) :
    SlashAccount config slashed proposer (whistleblower.getD proposer) s t ∧
    ∑ i ∈ Finset.range s.balances.size, Reference.reportPay config proposer
      (whistleblower.getD proposer) (s.stakeAt slashed) i =
        Reference.report config (s.stakeAt slashed) := by
  have haccount := slashAccount_of_slash h
  constructor
  · exact haccount
  · exact Reference.sum_reportPay config _ haccount.proposer_lt haccount.whistleblower_lt

/-- Three validators who have next to nothing. -/
def Collect.impoverished : State := { Collect.overlapping with balances := #[5, 6, 7] }

/-- The penalty takes all of it, and the reward is paid after that. -/
theorem slash_accounts_for_all_roles_impoverished : ∃ t,
    (slash Config.minimal 1 1 none).runOn Collect.impoverished = (.ok (), t) ∧
    SlashAccount Config.minimal 1 1 1 Collect.impoverished t ∧
    ∑ i ∈ Finset.range 3, Reference.reportPay Config.minimal 1 1 32000000000 i = 62500000 ∧
    t.balances = #[5, 62500000, 7] := by
  have hok : ((slash Config.minimal 1 1 none).runOn Collect.impoverished).1.isOk = true := by
    decide +kernel
  have hbalances : ((slash Config.minimal 1 1 none).runOn Collect.impoverished).2.balances =
      #[5, 62500000, 7] := by
    decide +kernel
  have hrun := eq_of_isOk hok
  obtain ⟨haccount, hfull⟩ := slash_accounts_for_all_roles hrun
  exact ⟨_, hrun, haccount, hfull, hbalances⟩

end Beacon
