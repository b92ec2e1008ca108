/-
  What goes into the ring of slashed amounts.

  `State.Notes s t noted` says that from `s` to `t` the ring has grown by the stakes of the validators
  in `noted`, each of them once, and that they got their mark in between.  It is shown of one
  slashing, then of several, then of each step, and passes from steps to runs because a mark is
  never taken away and a stake never changes.
-/
import Beacon.Proofs.Epoch.Account
import Beacon.Proofs.Lifecycle
import Beacon.Proofs.Operation.Struck

namespace Beacon

open Beacon.Action Beacon.State

/-! ## The sum of the ring -/

namespace State

/-- The sum of the ring of slashed amounts. -/
def ringTotal (s : State) : Nat := (s.slashings.toList.map UInt64.toNat).sum

/-- The stake of a validator, if there is one with this index. -/
def stakeAt (s : State) (i : Nat) : Nat :=
  ((s.validators[i]?).map fun v => v.effectiveBalance.toNat).getD 0

theorem sum_modify {list : List Gwei} {position : Nat} {old : Gwei}
    (h : list[position]? = some old) (new : Gwei) :
    ((list.modify position fun _ => new).map UInt64.toNat).sum + old.toNat =
      (list.map UInt64.toNat).sum + new.toNat := by
  induction list generalizing position with
  | nil => nomatch h
  | cons amount list ih =>
    cases position with
    | zero =>
      cases h
      rw [List.modify_zero_cons, List.map_cons, List.map_cons, List.sum_cons, List.sum_cons]
      omega
    | succ position =>
      have hrest := ih h
      rw [List.modify_succ_cons, List.map_cons, List.map_cons, List.sum_cons, List.sum_cons]
      omega

theorem ringTotal_of_noteSlashing {s t : State} {epoch : Epoch} {amount : Gwei}
    (h : s.noteSlashing epoch amount = .ok t) : t.ringTotal = s.ringTotal + amount.toNat := by
  obtain ⟨position, old, new, hold, hnew, rfl⟩ := noteSlashing_eq_ok h
  rw [← Array.getElem?_toList] at hold
  have hsum := sum_modify hold new
  unfold ringTotal
  rw [Array.toList_modify]
  omega

/-! ## Marks and stakes -/

/-- The mark of a validator, if there is one with this index. -/
def markAt (s : State) (i : Nat) : Option Bool := (s.validators[i]?).map Validator.slashed

/-- No mark is taken away, and no stake changes. -/
structure KeepsMarks (s t : State) : Prop where
  stake : Keeps Validator.effectiveBalance s t
  mark : ∀ i, s.markAt i = some true → t.markAt i = some true

namespace KeepsMarks

theorem refl (s : State) : KeepsMarks s s := ⟨Keeps.refl s, fun _ h => h⟩

theorem trans {s t u : State} (h : KeepsMarks s t) (h' : KeepsMarks t u) : KeepsMarks s u :=
  ⟨h.stake.trans h'.stake, fun i hi => h'.mark i (h.mark i hi)⟩

theorem stakeAt_eq {s t : State} (h : KeepsMarks s t) (i : Nat) : t.stakeAt i = s.stakeAt i :=
  congrArg (Option.getD · 0) (h.stake.of_aspect (g := UInt64.toNat) i)

/-- Who is not marked later was not marked before. -/
theorem unmarked {s t : State} (h : KeepsMarks s t) {i : Nat} (hi : t.markAt i = some false) :
    s.markAt i = some false := by
  obtain ⟨w, hw, -⟩ := Option.map_eq_some_iff.mp hi
  obtain ⟨v, hv, -⟩ := h.stake.getElem? hw
  have hmark : s.markAt i = some v.slashed := congrArg (Option.map Validator.slashed) hv
  cases hslashed : v.slashed with
  | false => rw [hmark, hslashed]
  | true =>
    rw [hslashed] at hmark
    rw [h.mark i hmark] at hi
    nomatch hi

end KeepsMarks

theorem Evolves.keepsMarks {config : Config} {touched : Nat → Prop} {s t : State}
    (h : Evolves config touched s t) : KeepsMarks s t where
  stake := h.keeps fun _ _ hchange => by cases hchange <;> rfl
  mark i hi := by
    obtain ⟨v, hv, hslashed⟩ := Option.map_eq_some_iff.mp hi
    obtain ⟨w, hw, hchanges⟩ := h.record i v hv
    unfold markAt
    rw [hw, Option.map_some, hchanges.inOrder_and_settles.2.slashed hslashed]

/-! ## What is noted -/

/-- The ring has grown by the stakes of these validators, each of them once, who got their mark in
    between. -/
structure Notes (noted : List Nat) (s t : State) : Prop where
  keeps : KeepsMarks s t
  nodup : noted.Nodup
  unmarked : ∀ i ∈ noted, s.markAt i = some false
  marked : ∀ i ∈ noted, t.markAt i = some true
  total : t.ringTotal = s.ringTotal + (noted.map s.stakeAt).sum

namespace Notes

/-- As long as the ring is the same, nothing is noted. -/
theorem nil {s t : State} (hkeeps : KeepsMarks s t) (hring : t.slashings = s.slashings) :
    Notes [] s t where
  keeps := hkeeps
  nodup := List.nodup_nil
  unmarked _ hi := absurd hi List.not_mem_nil
  marked _ hi := absurd hi List.not_mem_nil
  total := congrArg (fun ring : Array Gwei => (ring.toList.map UInt64.toNat).sum) hring

/-- Whoever is noted first has the mark from then on, and is not noted again. -/
theorem trans {s t u : State} {first second : List Nat} (h : Notes first s t)
    (h' : Notes second t u) : Notes (first ++ second) s u where
  keeps := h.keeps.trans h'.keeps
  nodup := by
    rw [List.nodup_append]
    refine ⟨h.nodup, h'.nodup, ?_⟩
    rintro i hi _ hi' rfl
    have hmarked := h.marked i hi
    rw [h'.unmarked i hi'] at hmarked
    nomatch hmarked
  unmarked i hi := by
    rcases List.mem_append.mp hi with hi | hi
    · exact h.unmarked i hi
    · exact h.keeps.unmarked (h'.unmarked i hi)
  marked i hi := by
    rcases List.mem_append.mp hi with hi | hi
    · exact h'.keeps.mark i (h.marked i hi)
    · exact h'.marked i hi
  total := by
    have hstakes : second.map t.stakeAt = second.map s.stakeAt :=
      List.map_congr_left fun i _ => h.keeps.stakeAt_eq i
    rw [h'.total, h.total, hstakes, List.map_append, List.sum_append, Nat.add_assoc]

end Notes

/-- The ring has grown by the stakes of some validators, each of them once. -/
def NotesOnce (s t : State) : Prop := ∃ noted, Notes noted s t

theorem NotesOnce.refl (s : State) : NotesOnce s s := ⟨[], .nil (.refl s) rfl⟩

theorem NotesOnce.trans {s t u : State} (h : NotesOnce s t) (h' : NotesOnce t u) :
    NotesOnce s u := by
  obtain ⟨first, hfirst⟩ := h
  obtain ⟨second, hsecond⟩ := h'
  exact ⟨first ++ second, hfirst.trans hsecond⟩

end State

/-! ## What a step notes -/

section

variable {config : Config}

theorem ExitEffect.slashings_eq {index : Nat} {s t : State} (h : ExitEffect config index s t) :
    t.slashings = s.slashings := by
  cases h with
  | leaving hv hstay => rfl
  | planned hv hstay hplan => rfl

theorem initiateExit_slashings (config : Config) (index : Nat) (s : State) :
    ((initiateExit config index).runOn s).2.slashings = s.slashings := by
  rcases hrun : (initiateExit config index).runOn s with ⟨failure | _, t⟩
  · rw [eq_of_initiateExit_error hrun]
  · exact (exitEffect_of_initiateExit hrun).slashings_eq

/-- A slashing of someone who is not marked notes the stake once, or nothing if it fails before. -/
theorem SlashEffect.notesOnce {index : Nat} {s t : State} {result : Except Failure Unit}
    (h : SlashEffect config index s result t) (hkeeps : KeepsMarks s t)
    (hunmarked : s.markAt index ≠ some true) : NotesOnce s t := by
  cases h with
  | refused hexit => exact .refl s
  | left hexit => exact ⟨[], .nil hkeeps (exitEffect_of_initiateExit hexit).slashings_eq⟩
  | marked hexit hv hwithdrawable =>
    exact ⟨[], .nil hkeeps (exitEffect_of_initiateExit hexit).slashings_eq⟩
  | @noted _ left noted _ v withdrawable hexit hv hwithdrawable hnote hpaid =>
    have hrecord : t.validators[index]? =
        some { v with slashed := true, withdrawableEpoch := withdrawable } := by
      rw [(eq_of_noted hnote hpaid).1]
      exact getElem?_editRecord_self hv _
    obtain ⟨u, hu, hstake⟩ := hkeeps.stake.getElem? hrecord
    have hbefore : s.markAt index = some u.slashed := congrArg (Option.map Validator.slashed) hu
    have hafter : t.markAt index = some true := congrArg (Option.map Validator.slashed) hrecord
    have hunslashed : u.slashed = false := by
      rw [hbefore] at hunmarked
      exact Bool.eq_false_iff.mpr fun c => hunmarked (congrArg some c)
    have hstakeAt : s.stakeAt index = v.effectiveBalance.toNat := by
      unfold stakeAt
      rw [hu, Option.map_some, Option.getD_some, ← hstake]
    -- the payments leave the ring alone, and so did the exit and the mark
    have hleft : (left.withSlashing index withdrawable).ringTotal = s.ringTotal :=
      congrArg (fun ring : Array Gwei => (ring.toList.map UInt64.toNat).sum)
        (exitEffect_of_initiateExit hexit).slashings_eq
    have htotal : t.ringTotal = s.ringTotal + v.effectiveBalance.toNat := by
      rw [← hleft, ← ringTotal_of_noteSlashing hnote, hpaid]
      rfl
    refine ⟨[index], hkeeps, List.pairwise_singleton _ index, ?_, ?_, ?_⟩
    · intro i hi
      rw [List.mem_singleton.mp hi, hbefore, hunslashed]
    · intro i hi
      rw [List.mem_singleton.mp hi, hafter]
    · rw [List.map_cons, List.map_nil, List.sum_singleton, hstakeAt, htotal]

theorem slash_notesOnce {index proposer : Nat} {whistleblower : Option Nat} {s : State}
    (hslashable : ∀ v, s.validators[index]? = some v →
      v.slashed = false ∧ v.activationEpoch ≤ currentEpoch config s) :
    StaysIn NotesOnce (slash config index proposer whistleblower) s := by
  have hevolves : StaysIn (Evolves config (· = index))
      (slash config index proposer whistleblower) s := slash_evolves hslashable
  refine (slashEffect config index proposer whistleblower s).notesOnce hevolves.keepsMarks ?_
  intro hmark
  obtain ⟨v, hv, hslashed⟩ := Option.map_eq_some_iff.mp hmark
  rw [(hslashable v hv).1] at hslashed
  nomatch hslashed

/-- Slashing several validators, no one twice, notes everyone once. -/
theorem AttesterSlashing.slashAll_notesOnce (proposer : Nat) (indices : List Nat) :
    ∀ {s : State}, indices.Nodup → (∀ i ∈ indices, ∀ v, s.validators[i]? = some v →
        v.slashed = false ∧ v.activationEpoch ≤ currentEpoch config s) →
      StaysIn NotesOnce (slashAll config proposer indices) s := by
  induction indices with
  | nil => exact fun {s} _ _ => NotesOnce.refl s
  | cons index indices ih =>
    intro s hnodup hslashable
    obtain ⟨hnew, hnodup'⟩ := List.nodup_cons.mp hnodup
    have hfirst : StaysIn NotesOnce (slash config index proposer none) s :=
      slash_notesOnce (hslashable index List.mem_cons_self)
    refine StaysIn.bind (R := NotesOnce) (fun _ _ _ => .trans) hfirst fun _ t hslash => ?_
    have heffect := slashEffect_of_slash hslash
    have hepoch : currentEpoch config t = currentEpoch config s :=
      congrArg (epochAtSlot config) heffect.slot_eq
    refine ih hnodup' fun i hi v hv => ?_
    rw [heffect.others fun c => hnew (c ▸ hi)] at hv
    rw [hepoch]
    exact hslashable i (List.mem_cons_of_mem index hi) v hv

/-- What is applied after a check that succeeds notes nobody twice. -/
theorem BlockOperation.apply_notesOnce {κ ω : Type} {cache : KeyCache κ} {verifier : Verifier κ ω}
    {op : BlockOperation} {s : State} {w w' : ω} {struck : List Nat}
    (hcheck : (op.check config s cache verifier).runOn w = (.ok struck, w')) :
    StaysIn NotesOnce (op.apply config struck) s := by
  cases op with
  | voluntaryExit signed =>
    have hkeeps : Keeps (fun v => (v.effectiveBalance, v.slashed)) s
        ((initiateExit config signed.message.validatorIndex.toNat).runOn s).2 :=
      initiateExit_keeps (fun _ _ _ => rfl) config _ s
    have hmarks : Keeps Validator.slashed s _ := hkeeps.of_aspect (g := Prod.snd)
    refine ⟨[], .nil ⟨hkeeps.of_aspect (g := Prod.fst), fun i hi => ?_⟩ ?_⟩
    · exact (hmarks i).trans hi
    · exact initiateExit_slashings config _ s
  | proposerSlashing slashing proposer =>
    obtain ⟨_, w1, hslashing, -⟩ := runOn_bind_eq_ok_iff.mp hcheck
    obtain ⟨_, w2, hheaders, -⟩ := runOn_bind_eq_ok_iff.mp hslashing
    exact slash_notesOnce fun v hv => Validator.of_isSlashable
      (isSlashable_of_checkHeaders (runOn_ofExcept_eq_ok_iff.mp hheaders).1 hv)
  | attesterSlashing slashing proposer =>
    obtain ⟨hnodup, hslashable⟩ := AttesterSlashing.check_slashable hcheck
    exact AttesterSlashing.slashAll_notesOnce proposer struck hnodup fun i hi v hv =>
      AttesterSlashing.of_slashableAt (hslashable i hi) hv

theorem BlockOperation.enact_notesOnce {κ ω : Type} (cache : KeyCache κ)
    (verifier : Verifier κ ω) (op : BlockOperation) (w : ω) (s : State) :
    NotesOnce s ((op.enact config cache verifier).runOn (s, w)).2.1 :=
  staysIn_enact (R := NotesOnce) NotesOnce.refl fun _ _ hcheck => apply_notesOnce hcheck

/-- A step notes nobody twice; the end of an epoch notes nobody at all. -/
theorem Step.notesOnce {s t : State} (h : Step config s t) : NotesOnce s t := by
  have hkeeps := h.evolves.keepsMarks
  cases h with
  | voluntaryExit cache verifier signed w s =>
    exact BlockOperation.enact_notesOnce cache verifier (.voluntaryExit signed) w s
  | proposerSlashing cache verifier slashing proposer w s =>
    exact BlockOperation.enact_notesOnce cache verifier (.proposerSlashing slashing proposer) w s
  | attesterSlashing cache verifier slashing proposer w s =>
    exact BlockOperation.enact_notesOnce cache verifier (.attesterSlashing slashing proposer) w s
  | endEpoch committees signal progress s =>
    refine ⟨[], .nil hkeeps ?_⟩
    rw [runOn_endEpoch]
    exact closeEpoch_slashings s progress
  | accountForEpoch committees signal progress s =>
    refine ⟨[], .nil hkeeps ?_⟩
    rw [runOn_accountForEpoch]
    exact closeEpoch_slashings s progress

end

/-! ## What a run notes -/

/-- A step, or a pause that leaves the records and the ring alone. -/
inductive Advance (config : Config) : State → State → Prop where
  | step {s t : State} (h : Step config s t) : Advance config s t
  | pause {s t : State} (hslot : s.slot ≤ t.slot) (hrecords : t.validators = s.validators)
      (hring : t.slashings = s.slashings) : Advance config s t

theorem Advance.notesOnce {config : Config} {s t : State} (h : Advance config s t) :
    NotesOnce s t := by
  cases h with
  | step h => exact h.notesOnce
  | pause hslot hrecords hring =>
    refine ⟨[], .nil ⟨fun i => by rw [hrecords], fun i hi => ?_⟩ hring⟩
    unfold markAt
    rw [hrecords]
    exact hi

end Beacon
