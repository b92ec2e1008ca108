/-
  The proportional penalty of a slashed validator is due once.

  A slashing writes the epoch of withdrawal, and many epochs later the summary of an epoch compares
  it with the epoch plus half of the ring.  Nothing in between writes to it again: among the changes
  of a record (`Validator.Change`) only leaving and being slashed do, and the validator has done
  both.  So the comparison comes out true in one epoch only, and each epoch ends once.

  A `Course` is a run that remembers the ends of its epochs.  In between there are operations of
  blocks, with whatever outcome, and pauses in which time goes by.
-/
import Beacon.Proofs.Epoch.Charges
import Beacon.Proofs.Operation.Struck
import Beacon.Proofs.Steps

namespace Beacon

open Beacon.Action Beacon.State

/-! ## Nothing changes the epoch of withdrawal any more -/

/-- The validator is slashed and leaving, and can withdraw at this epoch. -/
structure Validator.AwaitsPenalty (withdrawable : Epoch) (v : Validator) : Prop where
  slashed : v.slashed = true
  left : v.isStaying = false
  withdrawable_eq : v.withdrawableEpoch = withdrawable

theorem Validator.Change.awaitsPenalty {config : Config} {current withdrawable : Epoch}
    {v w : Validator} (h : Validator.Change config current v w)
    (hv : v.AwaitsPenalty withdrawable) : w.AwaitsPenalty withdrawable := by
  cases h with
  | leave exit withdrawable' hjoined hstay hexit hwithdrawable =>
    have hleft := hv.left
    rw [hstay] at hleft
    nomatch hleft
  | slash withdrawable' hjoined hunslashed hlater hring =>
    have hslashed := hv.slashed
    rw [hunslashed] at hslashed
    nomatch hslashed
  | becomeEligible next hunset hnext => exact ⟨hv.slashed, hv.left, hv.withdrawable_eq⟩
  | activate activation hunset heligible hactivation =>
    exact ⟨hv.slashed, hv.left, hv.withdrawable_eq⟩

/-- The validator with this index awaits its penalty. -/
def State.AwaitsPenalty (i : Nat) (withdrawable : Epoch) (s : State) : Prop :=
  ∃ v, s.validators[i]? = some v ∧ v.AwaitsPenalty withdrawable

theorem State.Evolves.awaitsPenalty {config : Config} {touched : Nat → Prop} {s t : State}
    (h : Evolves config touched s t) {i : Nat} {withdrawable : Epoch}
    (hs : s.AwaitsPenalty i withdrawable) : t.AwaitsPenalty i withdrawable := by
  obtain ⟨v, hv, hawaits⟩ := hs
  obtain ⟨w, hw, hchanges⟩ := h.record i v hv
  exact ⟨w, hw, hchanges.preserves (fun _ _ hchange => hchange.awaitsPenalty) hawaits⟩

/-! ## The ends of epochs -/

/-- The end of an epoch: the state it began with, and what else it was given. -/
structure EpochEnd where
  before : State
  committees : Committees
  signal : StopSignal
  progress : Progress

namespace EpochEnd

variable (config : Config) (e : EpochEnd)

/-- The epoch that ends. -/
def epoch : Epoch := currentEpoch config e.before

def run : Except Failure EpochSummary × State × Progress :=
  (endEpoch config e.committees e.signal).runOn (e.before, e.progress)

/-- The state it leaves, whether it succeeds or fails. -/
def after : State := (e.run config).2.1

/-- The summary of the epoch, if it was summed up; the rest may still have failed. -/
def summary? : Option EpochSummary :=
  ((Collect.summarize config e.before e.committees e.signal).runOn e.progress).1.toOption

/-- Is the validator on the list of those whose penalty is due? -/
def lists (i : Nat) : Bool := (e.summary? config).any fun summary => summary.toSlash.contains i

variable {config e}

theorem lists_iff {i : Nat} :
    e.lists config i = true ↔ ∃ summary, e.summary? config = some summary ∧
      i ∈ summary.toSlash := by
  unfold lists
  rw [Option.any_eq_true]
  exact exists_congr fun summary => and_congr_right fun _ => List.contains_iff_mem

theorem summary?_eq_some_iff {summary : EpochSummary} :
    e.summary? config = some summary ↔ ∃ p,
      (Collect.summarize config e.before e.committees e.signal).runOn e.progress =
        (.ok summary, p) := by
  unfold summary?
  rcases (Collect.summarize config e.before e.committees e.signal).runOn e.progress with
    ⟨_ | found, p⟩
  · exact ⟨fun h => (nomatch h), fun ⟨_, h⟩ => (nomatch h)⟩
  · constructor
    · intro h
      cases h
      exact ⟨p, rfl⟩
    · rintro ⟨_, h⟩
      cases h
      rfl

/-- Half of the ring, rounded down. -/
theorem toNat_penaltyOffset (config : Config) :
    config.penaltyOffset.toNat = config.epochsPerSlashingsVector.val.toNat / 2 :=
  UInt64.toNat_div _ _

/-- The summary lists the validator in just one epoch: half of the ring before the withdrawal. -/
theorem mem_toSlash_iff {summary : EpochSummary} (hsummary : e.summary? config = some summary)
    {i : Nat} {withdrawable : Epoch} (h : e.before.AwaitsPenalty i withdrawable) :
    i ∈ summary.toSlash ↔
      (e.epoch config).toNat + config.epochsPerSlashingsVector.val.toNat / 2 =
        withdrawable.toNat := by
  obtain ⟨p, hrun⟩ := summary?_eq_some_iff.mp hsummary
  obtain ⟨vs, votes, hc⟩ := Collect.collected_of_summarize hrun
  obtain ⟨rfl, -⟩ := hc.of_state
  obtain ⟨due, hdue, htoSlash⟩ := hc.toSlash
  obtain ⟨v, hv, hawaits⟩ := h
  rw [toNat_penaltyOffset] at hdue
  rw [htoSlash, Collect.mem_indicesWhere_iff]
  show _ ↔ (currentEpoch config e.before).toNat + _ = _
  rw [← hdue, UInt64.toNat_inj, Array.getElem?_toList, hv]
  unfold Collect.isDueForPenalty
  constructor
  · rintro ⟨u, hu, hdue'⟩
    cases hu
    rw [Bool.and_eq_true, beq_iff_eq] at hdue'
    rw [← hdue'.2, hawaits.withdrawable_eq]
  · intro heq
    refine ⟨v, rfl, ?_⟩
    rw [Bool.and_eq_true, beq_iff_eq, hawaits.withdrawable_eq]
    exact ⟨hawaits.slashed, heq.symm⟩

/-- The balance of the validator is lowered by its proportional penalty. -/
def Charges (config : Config) (e : EpochEnd) (i : Nat) : Prop :=
  ∃ (summary : EpochSummary) (slashed penalty old new : Gwei),
    e.summary? config = some summary ∧
    adjustedSlashings config summary.totalActiveStake e.before = .ok slashed ∧
    IsProportional config summary slashed (i, penalty) ∧
    e.before.balances[i]? = some old ∧ (e.after config).balances[i]? = some new ∧
    new.toNat = old.toNat - penalty.toNat

theorem after_eq (config : Config) (e : EpochEnd) :
    e.after config =
      ((closeEpoch config e.committees e.signal).runOn (e.before, e.progress)).2.1 := by
  unfold after run
  rw [runOn_endEpoch]

/-- If the epoch ends with success, it was summed up, and those on the list are charged. -/
theorem charges_of_isOk (hok : (e.run config).1.isOk = true) :
    (∃ summary, (e.run config).1 = .ok summary ∧ e.summary? config = some summary) ∧
    ∀ i, e.lists config i = true → e.Charges config i := by
  obtain ⟨summary, q, hrun⟩ := exists_of_isOk hok
  have hafter : e.after config =
      ((closeEpoch config e.committees e.signal).runOn (e.before, e.progress)).2.1 :=
    after_eq config e
  have hrun' := hrun
  unfold run at hrun'
  rw [runOn_endEpoch] at hrun'
  rcases hclose : (closeEpoch config e.committees e.signal).runOn (e.before, e.progress) with
    ⟨failure | ⟨found, table⟩, t, q'⟩
  · rw [hclose] at hrun'
    nomatch hrun'
  rw [hclose] at hrun' hafter
  dsimp only at hafter
  cases hrun'
  obtain ⟨p1, mid, hsummary, -, -⟩ := closeEpoch_eq_ok hclose
  obtain ⟨-, hkeys, hcharged, hproportional⟩ := charged_of_closeEpoch hclose
  have hsummary' : e.summary? config = some found := summary?_eq_some_iff.mpr ⟨p1, hsummary⟩
  refine ⟨⟨found, congrArg Prod.fst hrun, hsummary'⟩, fun i hlists => ?_⟩
  obtain ⟨summary, hsome, hi⟩ := lists_iff.mp hlists
  rw [hsummary'] at hsome
  cases hsome
  rw [← hkeys] at hi
  obtain ⟨⟨_, penalty⟩, hentry, rfl⟩ := List.mem_map.mp hi
  obtain ⟨old, new, hold, hnew, hsub⟩ := hcharged.paid _ penalty hentry
  obtain ⟨slashed, hslashed, hpenalty⟩ := hproportional _ hentry
  rw [← hafter] at hnew
  exact ⟨found, slashed, penalty, old, new, hsummary', hslashed, hpenalty, hold, hnew, hsub⟩

/-- Those who are not on the list are not charged, whatever the outcome. -/
theorem same_of_not_lists {i : Nat} (hlists : e.lists config i = false) :
    (e.after config).balances[i]? = e.before.balances[i]? := by
  rw [after_eq]
  refine closeEpoch_others e.before e.progress fun summary p1 hsummary hi => ?_
  have hmem : e.lists config i = true :=
    lists_iff.mpr ⟨summary, summary?_eq_some_iff.mpr ⟨p1, hsummary⟩, hi⟩
  rw [hlists] at hmem
  nomatch hmem

theorem awaitsPenalty_after {i : Nat} {withdrawable : Epoch}
    (h : e.before.AwaitsPenalty i withdrawable) :
    (e.after config).AwaitsPenalty i withdrawable :=
  (Step.endEpoch e.committees e.signal e.progress e.before).evolves.awaitsPenalty h

end EpochEnd

/-! ## Courses -/

/-- Operations of blocks and ends of epochs, with whatever outcome, and pauses.  In a pause the slot
    does not go back, and the rest of the state may become anything but for the records. -/
inductive Course (config : Config) : State → List EpochEnd → State → Prop where
  | done (s : State) : Course config s [] s
  | operation {κ ω : Type} (cache : KeyCache κ) (verifier : Verifier κ ω) (op : BlockOperation)
      (w : ω) {s t : State} {ends : List EpochEnd}
      (hrest : Course config ((op.enact config cache verifier).runOn (s, w)).2.1 ends t) :
      Course config s ends t
  | pause {s s' t : State} {ends : List EpochEnd} (hslot : s.slot ≤ s'.slot)
      (hrecords : s'.validators = s.validators) (hrest : Course config s' ends t) :
      Course config s ends t
  | endEpoch (e : EpochEnd) {t : State} {ends : List EpochEnd}
      (hrest : Course config (e.after config) ends t) : Course config e.before (e :: ends) t

/-- Who awaits the penalty once awaits it to the end of the course, with the same epoch of
    withdrawal, and at every end of an epoch on the way. -/
theorem Course.awaitsPenalty {config : Config} {s t : State} {ends : List EpochEnd} {i : Nat}
    {withdrawable : Epoch} (h : Course config s ends t)
    (hs : s.AwaitsPenalty i withdrawable) :
    t.AwaitsPenalty i withdrawable ∧ ∀ e ∈ ends, e.before.AwaitsPenalty i withdrawable := by
  induction h with
  | done s => exact ⟨hs, fun e he => absurd he List.not_mem_nil⟩
  | operation cache verifier op w hrest ih =>
    exact ih ((op.step config cache verifier w _).evolves.awaitsPenalty hs)
  | pause hslot hrecords hrest ih =>
    apply ih
    unfold State.AwaitsPenalty
    rw [hrecords]
    exact hs
  | endEpoch e hrest ih =>
    obtain ⟨hend, hall⟩ := ih (EpochEnd.awaitsPenalty_after hs)
    refine ⟨hend, fun e' he' => ?_⟩
    rcases List.mem_cons.mp he' with rfl | he'
    · exact hs
    · exact hall e' he'

/-! ## The penalty is due once -/

/-- In an increasing list one value is met at most once. -/
theorem countP_le_one {α : Type} {f : α → Nat} {p : α → Bool} {value : Nat} (list : List α)
    (hincreasing : (list.map f).Pairwise (· < ·)) (hp : ∀ a ∈ list, p a = true → f a = value) :
    list.countP p ≤ 1 := by
  induction list with
  | nil => exact Nat.zero_le 1
  | cons a list ih =>
    rw [List.map_cons, List.pairwise_cons] at hincreasing
    have hrest := ih hincreasing.2 fun b hb => hp b (List.mem_cons_of_mem a hb)
    rw [List.countP_cons]
    split
    · next ha =>
      -- all that follow have larger values
      have hnone : list.countP p = 0 := by
        rw [List.countP_eq_zero]
        intro b hb hpb
        have hlt := hincreasing.1 (f b) (List.mem_map_of_mem hb)
        have hfa := hp a List.mem_cons_self ha
        have hfb := hp b (List.mem_cons_of_mem a hb) hpb
        omega
      omega
    · exact hrest

/-- A validator is slashed by an operation that succeeds, and then the chain takes any course in
    which no epoch ends twice.  Its epoch of withdrawal never changes; an epoch that ends lists it
    just if it is half of the ring before that epoch; so it is listed once at most, and not before
    half of the ring has gone round.  It is charged once if an epoch that lists it ends with
    success, and never at the end of an epoch that does not list it. -/
theorem penalty_due_once {config : Config} {κ ω : Type} {cache : KeyCache κ}
    {verifier : Verifier κ ω} {op : BlockOperation} {s t u : State} {w w' : ω} {i : Nat}
    {v v' : Validator} {ends : List EpochEnd}
    (hdelay : 1 ≤ config.minValidatorWithdrawabilityDelay.toNat)
    (hrun : (op.enact config cache verifier).runOn (s, w) = (.ok (), t, w'))
    (hv : s.validators[i]? = some v) (hunslashed : v.slashed = false)
    (hv' : t.validators[i]? = some v') (hslashed : v'.slashed = true)
    (hcourse : Course config t ends u)
    (hlater : (ends.map fun e => (e.epoch config).toNat).Pairwise (· < ·)) :
    (∃ x, u.validators[i]? = some x ∧ x.withdrawableEpoch = v'.withdrawableEpoch) ∧
    (∀ e ∈ ends, ∀ summary, e.summary? config = some summary →
      (i ∈ summary.toSlash ↔
        (e.epoch config).toNat + config.epochsPerSlashingsVector.val.toNat / 2 =
          v'.withdrawableEpoch.toNat)) ∧
    ends.countP (fun e => e.lists config i) ≤ 1 ∧
    (∀ e ∈ ends, e.lists config i = true →
      (currentEpoch config s).toNat + config.epochsPerSlashingsVector.val.toNat -
        config.epochsPerSlashingsVector.val.toNat / 2 ≤ (e.epoch config).toNat) ∧
    (∀ e ∈ ends, (e.run config).1.isOk = true →
      (e.epoch config).toNat + config.epochsPerSlashingsVector.val.toNat / 2 =
        v'.withdrawableEpoch.toNat →
      ends.countP (fun e => e.lists config i) = 1 ∧ e.Charges config i) ∧
    ∀ e ∈ ends, e.lists config i = false →
      (e.after config).balances[i]? = e.before.balances[i]? := by
  have hstruck := BlockOperation.struck_of_slashed hdelay hrun hv hunslashed hv' hslashed
  have hawaits : t.AwaitsPenalty i v'.withdrawableEpoch :=
    ⟨v', hv', hslashed, hstruck.left, rfl⟩
  obtain ⟨⟨x, hx, hxawaits⟩, hends⟩ := hcourse.awaitsPenalty hawaits
  have hiff : ∀ e ∈ ends, ∀ summary, e.summary? config = some summary →
      (i ∈ summary.toSlash ↔
        (e.epoch config).toNat + config.epochsPerSlashingsVector.val.toNat / 2 =
          v'.withdrawableEpoch.toNat) :=
    fun e he summary hsummary => EpochEnd.mem_toSlash_iff hsummary (hends e he)
  have hdue : ∀ e ∈ ends, e.lists config i = true →
      (e.epoch config).toNat + config.epochsPerSlashingsVector.val.toNat / 2 =
        v'.withdrawableEpoch.toNat := by
    intro e he hlists
    obtain ⟨summary, hsummary, hi⟩ := EpochEnd.lists_iff.mp hlists
    exact (hiff e he summary hsummary).mp hi
  have honce : ends.countP (fun e => e.lists config i) ≤ 1 := by
    have hvalue : ∀ e ∈ ends, e.lists config i = true → (e.epoch config).toNat =
        v'.withdrawableEpoch.toNat - config.epochsPerSlashingsVector.val.toNat / 2 := by
      intro e he hlists
      have := hdue e he hlists
      omega
    exact countP_le_one ends hlater hvalue
  refine ⟨⟨x, hx, hxawaits.withdrawable_eq⟩, hiff, honce, ?_, ?_, ?_⟩
  · intro e he hlists
    have h1 := hdue e he hlists
    have h2 := hstruck.ring_le
    omega
  · intro e he hok hepoch
    obtain ⟨⟨summary, -, hsummary⟩, hcharges⟩ := EpochEnd.charges_of_isOk hok
    have hlists : e.lists config i = true :=
      EpochEnd.lists_iff.mpr ⟨summary, hsummary, (hiff e he summary hsummary).mpr hepoch⟩
    refine ⟨?_, hcharges i hlists⟩
    have hpos : 0 < ends.countP fun e => e.lists config i :=
      List.countP_pos_iff.mpr ⟨e, he, hlists⟩
    omega
  · exact fun e _ hlists => EpochEnd.same_of_not_lists hlists

/-- Two headers of the first validator for one slot. -/
def twoHeaders : ProposerSlashing :=
  ⟨default, ⟨{ (default : BlockHeader) with parentRoot := Vector.replicate 32 1 }, default⟩⟩

/-- It is slashed for them. -/
def twoHeadersRun : Except Failure Unit × State × Unit :=
  ((BlockOperation.proposerSlashing twoHeaders 1).enact Config.minimal
    (KeyCache.empty.insert 0 ()) .null).runOn (Collect.overlapping, ())

/-- The last slot of a short epoch that nobody has voted in, after a pause. -/
def lastSlot (s : State) (epoch : Epoch) : State :=
  { s with slot := 8 * epoch + 7, previousAttestations := [], currentAttestations := [] }

/-- The epoch before the penalty is due. -/
def endBefore : EpochEnd := ⟨lastSlot twoHeadersRun.2.1 230, noCommittees, .never, .start⟩

/-- The epoch in which it is due. -/
def endDue : EpochEnd :=
  ⟨lastSlot (endBefore.after Config.minimal) 231, noCommittees, .never, .start⟩

/-- The validator can withdraw in epoch 263, and pays at the end of epoch 231. -/
theorem penalty_due_once_twoHeaders : ∃ v',
    twoHeadersRun = (.ok (), twoHeadersRun.2.1, ()) ∧
    twoHeadersRun.2.1.validators[0]? = some v' ∧ v'.withdrawableEpoch = 263 ∧
    Course Config.minimal twoHeadersRun.2.1 [endBefore, endDue] (endDue.after Config.minimal) ∧
    endBefore.lists Config.minimal 0 = false ∧
    [endBefore, endDue].countP (fun e => e.lists Config.minimal 0) = 1 ∧
    endDue.Charges Config.minimal 0 := by
  have hok : twoHeadersRun.1.isOk = true := by decide +kernel
  have hrun : twoHeadersRun = (.ok (), twoHeadersRun.2.1, ()) := eq_of_isOk hok
  have hrecord : twoHeadersRun.2.1.validators[0]?.map
      (fun v => (v.slashed, v.withdrawableEpoch)) = some (true, 263) := by decide +kernel
  obtain ⟨v', hv', hfields⟩ := Option.map_eq_some_iff.mp hrecord
  rw [Prod.mk.injEq] at hfields
  have hcourse : Course Config.minimal twoHeadersRun.2.1 [endBefore, endDue]
      (endDue.after Config.minimal) := by
    have hslot1 : twoHeadersRun.2.1.slot ≤ endBefore.before.slot := by decide +kernel
    have hslot2 : (endBefore.after Config.minimal).slot ≤ endDue.before.slot := by
      decide +kernel
    refine .pause hslot1 rfl (.endEpoch endBefore ?_)
    exact .pause hslot2 rfl (.endEpoch endDue (.done _))
  have hlater : ([endBefore, endDue].map fun e => (e.epoch Config.minimal).toNat).Pairwise
      (· < ·) := by decide +kernel
  obtain ⟨-, -, -, -, hcharged, -⟩ := penalty_due_once (by decide) hrun
    (v := Collect.steady) (i := 0) rfl rfl hv' hfields.1 hcourse hlater
  obtain ⟨honce, hcharges⟩ := hcharged endDue (List.mem_cons_of_mem _ List.mem_cons_self)
    (by decide +kernel) (by rw [hfields.2]; decide +kernel)
  exact ⟨v', hrun, hv', hfields.2, hcourse, by decide +kernel, honce, hcharges⟩

end Beacon
