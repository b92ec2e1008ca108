/-
  What the votes in a list say about one validator.

  The specification is by existence: a validator has a mark if some vote in the list that it took
  part in gives that mark (`Marks`), and its inclusion is the first of the fastest ones
  (`FastestInclusion`).  `Tallied` puts the two together for a whole status.

  The votes are counted one by one, each participant's status being changed in place.  The loop
  invariant is `Tallied` for the votes seen so far; `Tallied.mark` is its step for a participant
  and `Tallied.skip` its step for everybody else.
-/
import Beacon.Epoch.Collect
import Beacon.Proofs.Action

namespace Beacon.Collect

/-! ## Taking part and agreeing -/

/-- The validator has a place in the committee of the vote, and the bit of that place is set. -/
def TookPart (committees : Committees) (vote : PendingAttestation) (i : Nat) : Prop :=
  ∃ committee, committees vote.data.slot vote.data.index = .ok committee ∧
    ∃ place : Nat, committee[place]? = some i ∧ vote.aggregationBits[place]? = some true

/-- The participants that are counted are those who took part. -/
theorem mem_participants_iff {committees : Committees} {vote : PendingAttestation}
    {committee : List Nat} {i : Nat}
    (hc : committees vote.data.slot vote.data.index = .ok committee) :
    i ∈ participants committee vote.aggregationBits ↔ TookPart committees vote i := by
  unfold participants TookPart
  rw [hc]
  constructor
  · intro hi
    obtain ⟨⟨j, bit⟩, hmem, rfl⟩ := List.mem_map.mp hi
    obtain ⟨hzip, hbit⟩ := List.mem_filter.mp hmem
    obtain rfl : bit = true := hbit
    obtain ⟨place, hplace⟩ := List.mem_iff_getElem?.mp hzip
    obtain ⟨h1, h2⟩ := List.getElem?_zip_eq_some.mp hplace
    exact ⟨committee, rfl, place, h1, h2⟩
  · rintro ⟨_, hc', place, h1, h2⟩
    cases hc'
    have hzip : (i, true) ∈ committee.zip vote.aggregationBits :=
      List.mem_iff_getElem?.mpr ⟨place, List.getElem?_zip_eq_some.mpr ⟨h1, h2⟩⟩
    exact List.mem_map.mpr ⟨(i, true), List.mem_filter.mpr ⟨hzip, rfl⟩, rfl⟩

section

variable {σ : Type} [StateAccess σ] (config : Config) (s : σ) (committees : Committees)

/-- The vote's target is the block at the start of the epoch. -/
def AgreesOnTarget (epoch : RecentEpoch) (vote : PendingAttestation) : Prop :=
  blockRoot config s epoch = .ok vote.data.target.root

/-- The vote's head is the block at the slot of the vote. -/
def AgreesOnHead (vote : PendingAttestation) : Prop :=
  blockRootAtSlot config s vote.data.slot = .ok vote.data.beaconBlockRoot

/-! ## The specification -/

/-- Which marks a list of votes gives to a validator.  The head counts only in a vote that agrees
    on the target too. -/
structure Marks (epoch : RecentEpoch) (seen : List PendingAttestation) (i : Nat) (votes : Votes) :
    Prop where
  source : votes.source = true ↔ ∃ vote ∈ seen, TookPart committees vote i
  target : votes.target = true ↔
    ∃ vote ∈ seen, TookPart committees vote i ∧ AgreesOnTarget config s epoch vote
  head : votes.head = true ↔
    ∃ vote ∈ seen, TookPart committees vote i ∧ AgreesOnTarget config s epoch vote ∧
      AgreesOnHead config s vote

/-- The inclusion of the first vote, in the order of the list, among the fastest included of those
    that the validator took part in. -/
def FastestInclusion (seen : List PendingAttestation) (i : Nat) : Option Inclusion → Prop
  | none => ∀ vote ∈ seen, ¬ TookPart committees vote i
  | some inclusion => ∃ before vote after, seen = before ++ vote :: after ∧
      TookPart committees vote i ∧
      inclusion.delay.val = vote.inclusionDelay ∧
      inclusion.proposerIndex = vote.proposerIndex.toNat ∧
      (∀ other ∈ before, TookPart committees other i →
        vote.inclusionDelay.toNat < other.inclusionDelay.toNat) ∧
      (∀ other ∈ after, TookPart committees other i →
        vote.inclusionDelay.toNat ≤ other.inclusionDelay.toNat)

/-- The status of a validator after these votes for the two epochs. -/
structure Tallied (seen : RecentEpoch → List PendingAttestation) (i : Nat) (v : Validator)
    (status : AttesterStatus) : Prop where
  validator : status.validator = v
  unslashed : status.unslashed = true ↔ v.slashed = false
  eligible : status.eligible = true ↔
    v.isActive (previousEpoch config s) = true ∨
      v.slashed = true ∧ (previousEpoch config s).toNat + 1 < v.withdrawableEpoch.toNat
  active : status.active = true ↔ v.isActive (currentEpoch config s) = true
  previous : Marks config s committees .previous (seen .previous) i status.previous
  current : Marks config s committees .current (seen .current) i status.current
  inclusion : FastestInclusion committees (seen .previous) i status.inclusion

/-- A validator has an inclusion just if some vote gave it the mark for the source. -/
theorem Tallied.inclusion_eq_none_iff {seen : RecentEpoch → List PendingAttestation} {i : Nat}
    {v : Validator} {status : AttesterStatus}
    (h : Tallied config s committees seen i v status) :
    status.inclusion = none ↔ status.previous.source = false := by
  rw [← Bool.not_eq_true, h.previous.source]
  have hi := h.inclusion
  rcases hk : status.inclusion with _ | inclusion
  · rw [hk] at hi
    exact ⟨fun _ ⟨vote, hv, hp⟩ => hi vote hv hp, fun _ => rfl⟩
  · rw [hk] at hi
    obtain ⟨before, vote, after, hseen, hp, -⟩ := hi
    refine ⟨fun c => (nomatch c), fun c => absurd ⟨vote, ?_, hp⟩ c⟩
    rw [hseen]
    exact List.mem_append_right before List.mem_cons_self

/-- The votes seen so far, and these for one of the epochs after them. -/
def more (seen : RecentEpoch → List PendingAttestation) (epoch : RecentEpoch)
    (votes : List PendingAttestation) : RecentEpoch → List PendingAttestation :=
  fun e => if e = epoch then seen e ++ votes else seen e

theorem more_nil (seen : RecentEpoch → List PendingAttestation) (epoch : RecentEpoch) :
    more seen epoch [] = seen := by
  funext e
  unfold more
  split
  · exact List.append_nil _
  · rfl

theorem more_cons (seen : RecentEpoch → List PendingAttestation) (epoch : RecentEpoch)
    (vote : PendingAttestation) (votes : List PendingAttestation) :
    more (more seen epoch [vote]) epoch votes = more seen epoch (vote :: votes) := by
  funext e
  unfold more
  split
  · rw [List.append_assoc, List.singleton_append]
  · rfl

/-! ## Before any vote -/

theorem isAccountable_iff (v : Validator) (previous : Epoch) :
    v.isAccountable previous = true ↔ v.isActive previous = true ∨
      v.slashed = true ∧ previous.toNat + 1 < v.withdrawableEpoch.toNat := by
  have hnext : Word.addSaturating previous 1 < v.withdrawableEpoch ↔
      previous.toNat + 1 < v.withdrawableEpoch.toNat := Word.addSaturating_lt_iff
  unfold Validator.isAccountable
  rw [Bool.or_eq_true, Bool.and_eq_true, decide_eq_true_iff, hnext]

theorem marks_none (epoch : RecentEpoch) (i : Nat) :
    Marks config s committees epoch [] i Votes.none := by
  constructor <;> simp [Votes.none]

theorem tallied_initialStatus (i : Nat) (v : Validator) :
    Tallied config s committees (fun _ => []) i v
      (initialStatus (previousEpoch config s) (currentEpoch config s) v) where
  validator := rfl
  unslashed := by
    show (!v.slashed) = true ↔ _
    rw [Bool.not_eq_true']
  eligible := isAccountable_iff v _
  active := Iff.rfl
  previous := marks_none config s committees .previous i
  current := marks_none config s committees .current i
  inclusion vote hv := absurd hv List.not_mem_nil

end

/-! ## One more vote -/

section

variable {σ : Type} [StateAccess σ] {config : Config} {s : σ} {committees : Committees}

/-- What a vote is counted as. -/
structure CountsAs (config : Config) (s : σ) (epoch : RecentEpoch) (vote : PendingAttestation)
    (counted : CountedVote) : Prop where
  epoch_eq : counted.epoch = epoch
  target : counted.matchesTarget = true ↔ AgreesOnTarget config s epoch vote
  head : counted.matchesHead = true ↔ AgreesOnHead config s vote
  inclusion : epoch = .previous → ∃ inclusion, counted.inclusion = some inclusion ∧
    inclusion.delay.val = vote.inclusionDelay ∧
    inclusion.proposerIndex = vote.proposerIndex.toNat

/-- A property of some vote in a list, with one more vote at the end. -/
theorem exists_mem_append_singleton {p : PendingAttestation → Prop}
    {seen : List PendingAttestation} {vote : PendingAttestation} :
    (∃ w ∈ seen ++ [vote], p w) ↔ (∃ w ∈ seen, p w) ∨ p vote := by
  constructor
  · rintro ⟨w, hw, hp⟩
    rcases List.mem_append.mp hw with hw | hw
    · exact Or.inl ⟨w, hw, hp⟩
    · obtain rfl := List.mem_singleton.mp hw
      exact Or.inr hp
  · rintro (⟨w, hw, hp⟩ | hp)
    · exact ⟨w, List.mem_append_left _ hw, hp⟩
    · exact ⟨vote, List.mem_append_right _ (List.mem_singleton.mpr rfl), hp⟩

theorem Marks.mark {epoch : RecentEpoch} {seen : List PendingAttestation} {i : Nat}
    {votes : Votes} {vote : PendingAttestation} {counted : CountedVote}
    (h : Marks config s committees epoch seen i votes)
    (hc : CountsAs config s epoch vote counted) (hi : TookPart committees vote i) :
    Marks config s committees epoch (seen ++ [vote]) i (markVotes votes counted) where
  source := by
    rw [exists_mem_append_singleton]
    exact ⟨fun _ => Or.inr hi, fun _ => rfl⟩
  target := by
    rw [exists_mem_append_singleton, ← h.target, ← hc.target]
    show (votes.target || counted.matchesTarget) = true ↔ _
    rw [Bool.or_eq_true]
    exact or_congr Iff.rfl ⟨fun ht => ⟨hi, ht⟩, And.right⟩
  head := by
    rw [exists_mem_append_singleton, ← h.head, ← hc.target, ← hc.head]
    show (votes.head || (counted.matchesTarget && counted.matchesHead)) = true ↔ _
    rw [Bool.or_eq_true, Bool.and_eq_true]
    exact or_congr Iff.rfl ⟨fun ht => ⟨hi, ht⟩, And.right⟩

theorem Marks.skip {epoch : RecentEpoch} {seen : List PendingAttestation} {i : Nat}
    {votes : Votes} {vote : PendingAttestation}
    (h : Marks config s committees epoch seen i votes) (hi : ¬ TookPart committees vote i) :
    Marks config s committees epoch (seen ++ [vote]) i votes where
  source := by
    rw [exists_mem_append_singleton, h.source]
    exact ⟨Or.inl, fun c => c.resolve_right hi⟩
  target := by
    rw [exists_mem_append_singleton, h.target]
    exact ⟨Or.inl, fun c => c.resolve_right fun d => hi d.1⟩
  head := by
    rw [exists_mem_append_singleton, h.head]
    exact ⟨Or.inl, fun c => c.resolve_right fun d => hi d.1⟩

theorem FastestInclusion.skip {seen : List PendingAttestation} {i : Nat}
    {known : Option Inclusion} {vote : PendingAttestation}
    (h : FastestInclusion committees seen i known) (hi : ¬ TookPart committees vote i) :
    FastestInclusion committees (seen ++ [vote]) i known := by
  cases known with
  | none =>
    intro w hw
    rcases List.mem_append.mp hw with hw | hw
    · exact h w hw
    · obtain rfl := List.mem_singleton.mp hw
      exact hi
  | some inclusion =>
    obtain ⟨before, best, after, rfl, hpart, hdelay, hprop, hbefore, hafter⟩ := h
    refine ⟨before, best, after ++ [vote], ?_, hpart, hdelay, hprop, hbefore, fun w hw hp => ?_⟩
    · rw [List.append_assoc, List.cons_append]
    · rcases List.mem_append.mp hw with hw | hw
      · exact hafter w hw hp
      · obtain rfl := List.mem_singleton.mp hw
        exact absurd hp hi

/-- A participant's inclusion is replaced only by a strictly faster one, so that of equally fast
    ones the first stays. -/
theorem FastestInclusion.mark {seen : List PendingAttestation} {i : Nat}
    {known : Option Inclusion} {vote : PendingAttestation} {new : Inclusion}
    (h : FastestInclusion committees seen i known) (hi : TookPart committees vote i)
    (hdelay : new.delay.val = vote.inclusionDelay)
    (hprop : new.proposerIndex = vote.proposerIndex.toNat) :
    FastestInclusion committees (seen ++ [vote]) i (fasterInclusion known (some new)) := by
  cases known with
  | none =>
    exact ⟨seen, vote, [], rfl, hi, hdelay, hprop, fun w hw hp => absurd hp (h w hw),
      fun w hw => absurd hw List.not_mem_nil⟩
  | some inclusion =>
    obtain ⟨before, best, after, rfl, hpart, hbdelay, hbprop, hbefore, hafter⟩ := h
    show FastestInclusion committees _ i
      (if new.delay.val < inclusion.delay.val then some new else some inclusion)
    split
    · next hlt =>
      -- the new one is faster than the best so far, hence faster than all before it
      rw [hdelay, hbdelay, UInt64.lt_iff_toNat_lt] at hlt
      refine ⟨before ++ best :: after, vote, [], rfl, hi, hdelay, hprop, fun w hw hp => ?_,
        fun w hw => absurd hw List.not_mem_nil⟩
      rcases List.mem_append.mp hw with hw | hw
      · exact Nat.lt_trans hlt (hbefore w hw hp)
      · rcases List.mem_cons.mp hw with rfl | hw
        · exact hlt
        · exact Nat.lt_of_lt_of_le hlt (hafter w hw hp)
    · next hge =>
      rw [hdelay, hbdelay, UInt64.lt_iff_toNat_lt] at hge
      refine ⟨before, best, after ++ [vote], ?_, hpart, hbdelay, hbprop, hbefore,
        fun w hw hp => ?_⟩
      · rw [List.append_assoc, List.cons_append]
      · rcases List.mem_append.mp hw with hw | hw
        · exact hafter w hw hp
        · obtain rfl := List.mem_singleton.mp hw
          omega

/-- A vote for one epoch changes the marks for that epoch only. -/
theorem Tallied.mark {seen : RecentEpoch → List PendingAttestation} {epoch : RecentEpoch} {i : Nat}
    {v : Validator} {status : AttesterStatus} {vote : PendingAttestation} {counted : CountedVote}
    (h : Tallied config s committees seen i v status)
    (hc : CountsAs config s epoch vote counted) (hi : TookPart committees vote i) :
    Tallied config s committees (more seen epoch [vote]) i v (markStatus counted status) := by
  unfold markStatus
  rw [hc.epoch_eq]
  cases epoch with
  | previous =>
    obtain ⟨new, hnew, hdelay, hprop⟩ := hc.inclusion rfl
    rw [hnew]
    exact ⟨h.validator, h.unslashed, h.eligible, h.active, h.previous.mark hc hi, h.current,
      h.inclusion.mark hi hdelay hprop⟩
  | current =>
    exact ⟨h.validator, h.unslashed, h.eligible, h.active, h.previous, h.current.mark hc hi,
      h.inclusion⟩

theorem Tallied.skip {seen : RecentEpoch → List PendingAttestation} {epoch : RecentEpoch} {i : Nat}
    {v : Validator} {status : AttesterStatus} {vote : PendingAttestation}
    (h : Tallied config s committees seen i v status) (hi : ¬ TookPart committees vote i) :
    Tallied config s committees (more seen epoch [vote]) i v status := by
  cases epoch with
  | previous =>
    exact ⟨h.validator, h.unslashed, h.eligible, h.active, h.previous.skip hi, h.current,
      h.inclusion.skip hi⟩
  | current =>
    exact ⟨h.validator, h.unslashed, h.eligible, h.active, h.previous, h.current.skip hi,
      h.inclusion⟩

end

end Beacon.Collect
