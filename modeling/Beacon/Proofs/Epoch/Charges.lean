/-
  What the end of an epoch takes from the balances.

  Between summing up and the end there are two parts, and they write to different things:
    * the queues are applied to RECORDS only (`applyQueues_onlyRecords`);
    * the slashed are charged from BALANCES only, and only theirs (`chargeSlashed_others`).

  The table of penalties is built by inserting under each index in turn.  An insertion replaces
  what was there, so the table tells everything that was taken only because no index comes twice:
  the indices increase, each insertion goes to the end of the table, and what stands in the table
  is what was taken.
-/
import Beacon.Proofs.Epoch.Closing
import Beacon.Proofs.Registry.Slashing

namespace Beacon

open Beacon.Action Beacon.State

/-! ## The queues write to records only -/

/-- Nothing has changed but the records. -/
def State.OnlyRecords (s t : State) : Prop := t = { s with validators := t.validators }

namespace State.OnlyRecords

theorem refl (s : State) : OnlyRecords s s := rfl

theorem trans {s t u : State} (h : OnlyRecords s t) (h' : OnlyRecords t u) : OnlyRecords s u := by
  unfold OnlyRecords at h h' ⊢
  rw [h', h]

theorem bind {α β : Type} {first : Action State α} {next : α → Action State β} {s : State}
    (hfirst : StaysIn OnlyRecords first s)
    (hnext : ∀ a t, first.runOn s = (.ok a, t) → StaysIn OnlyRecords (next a) t) :
    StaysIn OnlyRecords (first >>= next) s :=
  StaysIn.bind (R := OnlyRecords) (fun _ _ _ => trans) hfirst hnext

theorem bind_still {α β : Type} {first : Action State α} {next : α → Action State β} {s : State}
    (hstill : (first.runOn s).2 = s)
    (hnext : ∀ a, first.runOn s = (.ok a, s) → StaysIn OnlyRecords (next a) s) :
    StaysIn OnlyRecords (first >>= next) s :=
  StaysIn.bind_still (R := OnlyRecords) refl hstill hnext

theorem write {w : Write} {index : Nat} {change : Validator → Validator}
    (hw : w.record? = some (index, change)) (s : State) :
    StaysIn OnlyRecords (Action.write w) s := by
  show OnlyRecords s (StateAccess.write w s).2
  rw [write_record hw]
  split
  · rfl
  · rfl

end State.OnlyRecords

section

variable {config : Config}

theorem ejectAll_onlyRecords (limit : Nat) (indices : List Nat) :
    ∀ (queue : ExitQueue) (s : State),
      StaysIn OnlyRecords (ejectAll config limit queue indices) s := by
  induction indices with
  | nil => exact fun _ => OnlyRecords.refl
  | cons index indices ih =>
    intro queue s
    refine OnlyRecords.bind_still rfl fun validator _ => ?_
    split
    · refine OnlyRecords.bind_still rfl fun w _ => ?_
      refine OnlyRecords.bind (OnlyRecords.write rfl s) fun _ t _ => ?_
      refine OnlyRecords.bind (OnlyRecords.write rfl t) fun _ u _ => ?_
      exact OnlyRecords.bind_still rfl fun next _ => ih next u
    · exact ih queue s

theorem setEligibility_onlyRecords (epoch : Epoch) (indices : List Nat) :
    ∀ s : State, StaysIn OnlyRecords (setEligibility epoch indices) s := by
  induction indices with
  | nil => exact OnlyRecords.refl
  | cons index indices ih =>
    exact fun s => OnlyRecords.bind (OnlyRecords.write rfl s) fun _ t _ => ih t

theorem activateAll_onlyRecords (summary : EpochSummary) (finalized activation : Epoch)
    (indices : List Nat) :
    ∀ s : State, StaysIn OnlyRecords (activateAll summary finalized activation indices) s := by
  induction indices with
  | nil => exact OnlyRecords.refl
  | cons index indices ih =>
    intro s
    refine OnlyRecords.bind_still rfl fun status _ => ?_
    split
    · exact OnlyRecords.refl s
    · exact OnlyRecords.bind (OnlyRecords.write rfl s) fun _ t _ => ih t

theorem applyQueues_onlyRecords (summary : EpochSummary) (s : State) :
    StaysIn OnlyRecords (applyQueues config summary) s := by
  refine OnlyRecords.bind (ejectAll_onlyRecords _ _ _ s) fun _ t _ => ?_
  refine OnlyRecords.bind_still rfl fun next _ => ?_
  refine OnlyRecords.bind (setEligibility_onlyRecords next _ t) fun _ u _ => ?_
  refine OnlyRecords.bind_still rfl fun finalized _ => ?_
  exact OnlyRecords.bind_still rfl fun activation _ => activateAll_onlyRecords _ _ _ _ u

end

/-! ## A table of charges -/

/-- A larger index than all in the table goes to its end. -/
theorem PenaltyTable.insert_of_last {index : Nat} {penalty : Gwei} (table : PenaltyTable)
    (h : ∀ entry ∈ table, entry.1 < index) :
    insert index penalty table = table ++ [(index, penalty)] := by
  induction table with
  | nil => rfl
  | cons entry table ih =>
    have hlt : entry.1 < index := h entry List.mem_cons_self
    have hrest := ih fun e he => h e (List.mem_cons_of_mem entry he)
    unfold insert
    rw [if_neg (by omega), if_neg (by omega), hrest, List.cons_append]

/-- Each balance under an index of the table was lowered by the penalty there, at most to zero, and
    all others are as they were. -/
structure Charged (table : PenaltyTable) (before after : Array Gwei) : Prop where
  paid : ∀ index penalty, (index, penalty) ∈ table → ∃ old new : Gwei,
    before[index]? = some old ∧ after[index]? = some new ∧
    new.toNat = old.toNat - penalty.toNat
  others : ∀ i, i ∉ table.map Prod.fst → after[i]? = before[i]?

namespace Charged

theorem nil (balances : Array Gwei) : Charged [] balances balances where
  paid _ _ h := absurd h List.not_mem_nil
  others _ _ := rfl

/-- One charge, and then others of other validators. -/
theorem cons {table : PenaltyTable} {index : Nat} {penalty old : Gwei} {s t : State}
    (hold : s.balances[index]? = some old) (hnew : index ∉ table.map Prod.fst)
    (hrest : Charged table (s.withBalance index (Word.subSaturating old penalty)).balances
      t.balances) :
    Charged ((index, penalty) :: table) s.balances t.balances where
  paid i p hmem := by
    rcases List.mem_cons.mp hmem with heq | hmem
    · cases heq
      refine ⟨old, Word.subSaturating old penalty, hold, ?_, Word.toNat_subSaturating old penalty⟩
      rw [hrest.others index hnew, getElem?_withBalance, if_pos rfl, hold, Option.map_some]
    · obtain ⟨before, after, hbefore, hafter, hsub⟩ := hrest.paid i p hmem
      have hne : index ≠ i := fun c => hnew (c ▸ List.mem_map_of_mem hmem)
      rw [getElem?_withBalance, if_neg hne] at hbefore
      exact ⟨before, after, hbefore, hafter, hsub⟩
  others i hi := by
    rw [List.map_cons, List.mem_cons, not_or] at hi
    rw [hrest.others i hi.2, getElem?_withBalance, if_neg (Ne.symm hi.1)]

end Charged

section

variable {config : Config} {summary : EpochSummary}

/-- The penalty under an index is the proportional one for the stake that was summed up, when this
    much counts as slashed. -/
def IsProportional (config : Config) (summary : EpochSummary) (slashed : Gwei)
    (entry : Nat × Gwei) : Prop :=
  ∃ status, summary.status entry.1 = .ok status ∧
    proportionalPenalty config status.validator.effectiveBalance slashed
      summary.totalActiveStake = .ok entry.2

/-- Charging increasing indices adds them to the end of the table, one by one. -/
theorem charged_of_chargeAll {slashed : Gwei} (indices : List Nat) :
    ∀ {table table' : PenaltyTable} {s t : State},
      (chargeAll config summary slashed table indices).runOn s = (.ok table', t) →
      indices.Pairwise (· < ·) → (∀ entry ∈ table, ∀ i ∈ indices, entry.1 < i) →
      ∃ charges : PenaltyTable, table' = table ++ charges ∧ charges.map Prod.fst = indices ∧
        Charged charges s.balances t.balances ∧
        ∀ entry ∈ charges, IsProportional config summary slashed entry := by
  induction indices with
  | nil =>
    intro table table' s t h _ _
    obtain ⟨rfl, rfl⟩ := runOn_pure_eq_ok_iff.mp h
    exact ⟨[], (List.append_nil table).symm, rfl, .nil _, fun _ he => absurd he List.not_mem_nil⟩
  | cons index indices ih =>
    intro table table' s t h hincreasing hlast
    obtain ⟨status, s1, hread, h⟩ := runOn_bind_eq_ok_iff.mp h
    obtain ⟨hstatus, rfl⟩ := runOn_ofExcept_eq_ok_iff.mp hread
    obtain ⟨penalty, s2, hcompute, h⟩ := runOn_bind_eq_ok_iff.mp h
    obtain ⟨hpenalty, rfl⟩ := runOn_ofExcept_eq_ok_iff.mp hcompute
    obtain ⟨_, s3, hdebit, h⟩ := runOn_bind_eq_ok_iff.mp h
    obtain ⟨hfirst, hrest⟩ := List.pairwise_cons.mp hincreasing
    have hinsert : PenaltyTable.insert index penalty table = table ++ [(index, penalty)] :=
      PenaltyTable.insert_of_last table fun entry he => hlast entry he index List.mem_cons_self
    rw [hinsert] at h
    have hlast' : ∀ entry ∈ table ++ [(index, penalty)], ∀ i ∈ indices, entry.1 < i := by
      intro entry he i hi
      rcases List.mem_append.mp he with he | he
      · exact hlast entry he i (List.mem_cons_of_mem index hi)
      · obtain rfl := List.mem_singleton.mp he
        exact hfirst i hi
    obtain ⟨charges, htable, hkeys, hcharged, hproportional⟩ := ih h hrest hlast'
    rw [runOn_debit] at hdebit
    rcases hold : s.balances[index]? with _ | old
    · rw [hold] at hdebit
      nomatch hdebit
    rw [hold] at hdebit
    obtain rfl : s.withBalance index (Word.subSaturating old penalty) = s3 :=
      congrArg Prod.snd hdebit
    have hnew : index ∉ charges.map Prod.fst := by
      rw [hkeys]
      exact fun hmem => Nat.lt_irrefl _ (hfirst index hmem)
    refine ⟨(index, penalty) :: charges, ?_, ?_, hcharged.cons hold hnew, ?_⟩
    · rw [htable, List.append_assoc, List.singleton_append]
    · rw [List.map_cons, hkeys]
    · intro entry he
      rcases List.mem_cons.mp he with rfl | he
      · exact ⟨status, hstatus, hpenalty⟩
      · exact hproportional entry he

/-- Everyone whose penalty is due pays the proportional penalty, and nobody else pays. -/
theorem charged_of_chargeSlashed {table : PenaltyTable} {s t : State}
    (h : (chargeSlashed config summary).runOn s = (.ok table, t))
    (hincreasing : summary.toSlash.Pairwise (· < ·)) :
    table.map Prod.fst = summary.toSlash ∧ Charged table s.balances t.balances ∧
    ∀ entry ∈ table, ∃ slashed,
      adjustedSlashings config summary.totalActiveStake s = .ok slashed ∧
      IsProportional config summary slashed entry := by
  unfold chargeSlashed at h
  split at h
  · next hnone =>
    obtain ⟨rfl, rfl⟩ := runOn_pure_eq_ok_iff.mp h
    exact ⟨hnone.symm, .nil _, fun _ he => absurd he List.not_mem_nil⟩
  · obtain ⟨slashed, s1, hslashed, h⟩ := runOn_bind_eq_ok_iff.mp h
    rw [runOn_query, Prod.mk.injEq] at hslashed
    obtain ⟨hslashed, rfl⟩ := hslashed
    obtain ⟨charges, htable, hkeys, hcharged, hproportional⟩ :=
      charged_of_chargeAll _ h hincreasing fun _ he => absurd he List.not_mem_nil
    rw [List.nil_append] at htable
    subst htable
    exact ⟨hkeys, hcharged, fun entry he => ⟨slashed, hslashed, hproportional entry he⟩⟩

/-- Penalties are taken from balances only. -/
theorem chargeSlashed_onlyBalances (s : State) :
    StaysIn OnlyBalances (chargeSlashed config summary) s := by
  have hall : ∀ (slashed : Gwei) (indices : List Nat) (table : PenaltyTable) (s : State),
      StaysIn OnlyBalances (chargeAll config summary slashed table indices) s := by
    intro slashed indices
    induction indices with
    | nil => exact fun _ => OnlyBalances.refl
    | cons index indices ih =>
      intro table s
      refine OnlyBalances.bind_still rfl fun status _ => ?_
      refine OnlyBalances.bind_still rfl fun penalty _ => ?_
      exact OnlyBalances.bind (OnlyBalances.debit index penalty s) fun _ t _ => ih _ t
  unfold chargeSlashed
  split
  · exact OnlyBalances.refl s
  · exact OnlyBalances.bind_still rfl fun slashed _ => hall slashed _ [] s

/-- One balance is the same. -/
def State.SameBalanceAt (i : Nat) (s t : State) : Prop := t.balances[i]? = s.balances[i]?

/-- However far the charging gets, nobody pays whose penalty is not due. -/
theorem chargeSlashed_others {i : Nat} (hi : i ∉ summary.toSlash) (s : State) :
    StaysIn (SameBalanceAt i) (chargeSlashed config summary) s := by
  have hall : ∀ (slashed : Gwei) (indices : List Nat) (table : PenaltyTable) (s : State),
      i ∉ indices →
        StaysIn (SameBalanceAt i) (chargeAll config summary slashed table indices) s := by
    intro slashed indices
    induction indices with
    | nil => exact fun _ _ _ => rfl
    | cons index indices ih =>
      intro table s hi
      rw [List.mem_cons, not_or] at hi
      have hdebit : ∀ penalty, StaysIn (SameBalanceAt i) (debit index penalty) s := by
        intro penalty
        unfold StaysIn SameBalanceAt
        rw [runOn_debit]
        split
        · rfl
        · rw [getElem?_withBalance, if_neg (Ne.symm hi.1)]
      refine StaysIn.bind_still (R := SameBalanceAt i) (fun _ => rfl) rfl fun status _ => ?_
      refine StaysIn.bind_still (R := SameBalanceAt i) (fun _ => rfl) rfl fun penalty _ => ?_
      exact StaysIn.bind (R := SameBalanceAt i) (fun _ _ _ h h' => Eq.trans h' h)
        (hdebit penalty) fun _ t _ => ih _ t hi.2
  unfold chargeSlashed
  split
  · exact rfl
  · exact StaysIn.bind_still (R := SameBalanceAt i) (fun _ => rfl) rfl fun slashed _ =>
      hall slashed _ [] s hi

/-! ## The end of an epoch, part by part -/

variable {committees : Committees} {signal : StopSignal}

/-- Applying the queues, after the poll, leaves everything but the records as it was. -/
theorem updateRegistry_onlyRecords {s t : State} {p q : Progress} {result : Except Failure Unit}
    (h : (updateRegistry config summary signal).runOn (s, p) = (result, t, q)) :
    OnlyRecords s t := by
  have hstays : StaysIn (fun a b : State × Progress => OnlyRecords a.1 b.1)
      (updateRegistry config summary signal) (s, p) := by
    refine StaysIn.bind (R := fun a b : State × Progress => OnlyRecords a.1 b.1)
      (fun _ _ _ => OnlyRecords.trans) (OnlyRecords.refl s) fun _ u hpoll => ?_
    obtain ⟨u, p1⟩ := u
    obtain ⟨-, rfl⟩ := runOn_onSecond_eq_ok_iff.mp hpoll
    exact StaysIn.snd_onFirst (applyQueues_onlyRecords summary s)
  exact hstays.of_runOn h

/-- The three parts of the end of an epoch that succeeds. -/
theorem closeEpoch_eq_ok {s t : State} {p q : Progress} {table : PenaltyTable}
    (h : (closeEpoch config committees signal).runOn (s, p) = (.ok (summary, table), t, q)) :
    ∃ p1 mid, (Collect.summarize config s committees signal).runOn p = (.ok summary, p1) ∧
      OnlyRecords s mid ∧ (chargeSlashed config summary).runOn mid = (.ok table, t) := by
  obtain ⟨summary', ⟨s1, p1⟩, hsummary, h⟩ := runOn_bind_eq_ok_iff.mp h
  obtain ⟨_, ⟨mid, p2⟩, hupdate, h⟩ := runOn_bind_eq_ok_iff.mp h
  obtain ⟨table', ⟨t', p3⟩, hcharge, h⟩ := runOn_bind_eq_ok_iff.mp h
  obtain ⟨hresult, hstate⟩ := runOn_pure_eq_ok_iff.mp h
  cases hresult
  cases hstate
  obtain ⟨hsummarize, rfl⟩ := runOn_onSecond_eq_ok_iff.mp hsummary
  exact ⟨p1, mid, hsummarize, updateRegistry_onlyRecords hupdate,
    (runOn_onFirst_eq_ok_iff.mp hcharge).1⟩

theorem runOn_endEpoch (p : State × Progress) :
    (endEpoch config committees signal).runOn p =
      (((closeEpoch config committees signal).runOn p).1.map Prod.fst,
        ((closeEpoch config committees signal).runOn p).2) := by
  unfold endEpoch
  rw [runOn_bind]
  rcases (closeEpoch config committees signal).runOn p with ⟨_ | _, _⟩ <;> rfl

/-- What the end of an epoch that succeeds takes from the balances.  What was due is looked up in the
    registry in order, so that no index comes twice. -/
theorem charged_of_closeEpoch {s t : State} {p q : Progress} {table : PenaltyTable}
    (h : (closeEpoch config committees signal).runOn (s, p) = (.ok (summary, table), t, q)) :
    summary.toSlash.Pairwise (· < ·) ∧ table.map Prod.fst = summary.toSlash ∧
    Charged table s.balances t.balances ∧
    ∀ entry ∈ table, ∃ slashed,
      adjustedSlashings config summary.totalActiveStake s = .ok slashed ∧
      IsProportional config summary slashed entry := by
  obtain ⟨p1, mid, hsummary, honly, hcharge⟩ := closeEpoch_eq_ok h
  obtain ⟨vs, votes, hc⟩ := Collect.collected_of_summarize hsummary
  have hall := charged_of_chargeSlashed hcharge hc.toSlash_pairwise
  -- neither the balances nor the ring have changed before the charging
  rw [honly] at hall
  exact ⟨hc.toSlash_pairwise, hall⟩

/-- Whatever the outcome, the end of an epoch changes records, and then charges. -/
theorem closeEpoch_staysIn {R : State → State → Prop} (htrans : ∀ a b c, R a b → R b c → R a c)
    (hrecords : ∀ a b, OnlyRecords a b → R a b) (s : State) (p : Progress)
    (hcharge : ∀ summary p1,
      (Collect.summarize config s committees signal).runOn p = (.ok summary, p1) →
        ∀ mid, StaysIn R (chargeSlashed config summary) mid) :
    R s ((closeEpoch config committees signal).runOn (s, p)).2.1 := by
  have hrefl : ∀ a, R a a := fun a => hrecords a a (OnlyRecords.refl a)
  let R' : State × Progress → State × Progress → Prop := fun a b => R a.1 b.1
  have htrans' : ∀ a b c, R' a b → R' b c → R' a c := fun _ _ _ => htrans _ _ _
  show StaysIn R' (closeEpoch config committees signal) (s, p)
  have hfirst : StaysIn R' (Action.onSecond fun s =>
      Collect.summarize config s committees signal) (s, p) := hrefl s
  refine StaysIn.bind htrans' hfirst fun summary ⟨s1, p1⟩ hsummary => ?_
  obtain ⟨hsummarize, rfl⟩ := runOn_onSecond_eq_ok_iff.mp hsummary
  have hupdate : StaysIn R' (updateRegistry config summary signal) (s, p1) :=
    hrecords _ _ (updateRegistry_onlyRecords rfl)
  refine StaysIn.bind htrans' hupdate fun _ ⟨mid, p2⟩ _ => ?_
  exact StaysIn.bind htrans' (StaysIn.snd_onFirst (hcharge summary p1 hsummarize mid))
    fun _ q _ => hrefl q.1

/-- It takes nothing from a validator whose penalty is not due. -/
theorem closeEpoch_others {i : Nat} (s : State) (p : Progress)
    (hi : ∀ summary p1, (Collect.summarize config s committees signal).runOn p = (.ok summary, p1) →
      i ∉ summary.toSlash) :
    SameBalanceAt i s ((closeEpoch config committees signal).runOn (s, p)).2.1 := by
  refine closeEpoch_staysIn (R := SameBalanceAt i) (fun _ _ _ h h' => Eq.trans h' h)
    (fun a b h => ?_) s p fun summary p1 hsummary mid =>
      chargeSlashed_others (hi summary p1 hsummary) mid
  unfold SameBalanceAt
  rw [h]

/-- It leaves the ring of slashed amounts as it is. -/
theorem closeEpoch_slashings (s : State) (p : Progress) :
    ((closeEpoch config committees signal).runOn (s, p)).2.1.slashings = s.slashings := by
  refine closeEpoch_staysIn (R := fun a b => b.slashings = a.slashings)
    (fun _ _ _ h h' => Eq.trans h' h) (fun a b h => by rw [h]) s p fun summary _ _ mid => ?_
  have honly : OnlyBalances mid ((chargeSlashed config summary).runOn mid).2 :=
    chargeSlashed_onlyBalances mid
  show ((chargeSlashed config summary).runOn mid).2.slashings = mid.slashings
  rw [honly]

end

end Beacon
