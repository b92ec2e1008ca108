/-
  Index sets: which lists are accepted as one, and what two of them have in common.

  A list is judged by its neighbours alone, although what is wrong with it may lie far apart: an
  index that comes back later, or one that is outside the registry.  The order of the rules makes up
  for that.  Once no neighbour exceeds its successor, equal indices stand next to each other, and the
  first that do are the smallest (`smallestRepeated_of_findNeighbours?`).  Once no neighbours are
  equal either, the list is strictly increasing, and the last index stands for all of them
  (`checkIndices_eq_ok_iff`).  What is told of a list that is refused is the first rule it breaks
  (`Fault`, `RegistryFault`).

  The common elements of two strictly increasing lists are found in one pass.  Each comparison takes
  an element off one of the lists, so the pass ends.  An element that is dropped lies before all that
  is left of the other list, so nothing is lost (`mem_inter_iff`); and a strictly increasing list is
  known by its members.
-/
import Mathlib.Data.List.Chain
import Mathlib.Data.List.Sort
import Beacon.Operation.IndexedAttestation
import Beacon.Proofs.Action

namespace Beacon

namespace IndexSet

/-! ## Neighbours -/

section

variable {α : Type} {p : α → α → Bool} {l : List α}

/-- Nothing is found if all neighbours lack the property. -/
theorem findNeighbours?_eq_none_iff :
    findNeighbours? p l = none ↔ l.IsChain fun a b => p a b = false := by
  fun_induction findNeighbours? p l with
  | case1 a b rest hp =>
    rw [List.isChain_cons_cons, hp]
    exact ⟨fun h => (nomatch h), fun h => (nomatch h.1)⟩
  | case2 a b rest hp ih =>
    rw [List.isChain_cons_cons, ih]
    exact ⟨fun h => ⟨Bool.eq_false_of_not_eq_true hp, h⟩, fun h => h.2⟩
  | case3 l hshort =>
    refine ⟨fun _ => ?_, fun _ => rfl⟩
    match l, hshort with
    | [], _ => exact List.isChain_nil
    | [a], _ => exact List.isChain_singleton a
    | a :: b :: rest, hshort => exact (hshort a b rest rfl).elim

/-- What is found stands in the list, and all neighbours before it lack the property. -/
theorem exists_of_findNeighbours? {a b : α} (h : findNeighbours? p l = some (a, b)) :
    p a b = true ∧ ∃ before after, l = before ++ a :: b :: after ∧
      (before ++ [a]).IsChain fun a b => p a b = false := by
  fun_induction findNeighbours? p l with
  | case1 c d rest hp =>
    cases h
    exact ⟨hp, [], rest, rfl, List.isChain_singleton a⟩
  | case2 c d rest hp ih =>
    obtain ⟨hab, before, after, hlist, hchain⟩ := ih h
    refine ⟨hab, c :: before, after, by rw [hlist, List.cons_append], ?_⟩
    have hcd : p c d = false := Bool.eq_false_of_not_eq_true hp
    -- `d` comes next, be it the first of those before `a` or `a` itself
    rcases before with _ | ⟨e, before⟩
    · cases hlist
      exact hchain.cons_cons hcd
    · cases hlist
      exact hchain.cons_cons hcd
  | case3 => nomatch h

end

/-! ## Order and repetitions -/

section

variable {indices : List UInt64}

theorem findNeighbours?_descent_eq_none_iff :
    findNeighbours? (fun a b : UInt64 => decide (b < a)) indices = none ↔
      indices.IsChain (· ≤ ·) := by
  rw [findNeighbours?_eq_none_iff]
  simp only [decide_eq_false_iff_not, UInt64.not_lt]

theorem findNeighbours?_repetition_eq_none_iff :
    findNeighbours? (fun a b : UInt64 => a == b) indices = none ↔ indices.IsChain (· ≠ ·) := by
  rw [findNeighbours?_eq_none_iff]
  simp only [beq_eq_false_iff_ne]

/-- In order and without equal neighbours, a list is strictly increasing. -/
theorem pairwise_lt_iff :
    indices.Pairwise (· < ·) ↔ indices.IsChain (· ≤ ·) ∧ indices.IsChain (· ≠ ·) := by
  rw [← List.isChain_iff_pairwise]
  simp only [List.isChain_iff_getElem, ← forall_and, UInt64.lt_iff_le_and_ne]

/-- No other index that the list has twice is smaller. -/
structure SmallestRepeated (indices : List UInt64) (index : UInt64) : Prop where
  repeated : 2 ≤ indices.count index
  le : ∀ other, 2 ≤ indices.count other → index ≤ other

theorem count_le_one_of_pairwise (h : indices.Pairwise (· < ·)) (index : UInt64) :
    indices.count index ≤ 1 :=
  List.nodup_iff_count.mp (h.imp UInt64.ne_of_lt) index

/-- In a list that is in order the first equal neighbours are the smallest index that comes twice:
    what is smaller stands before them only, where no two are equal. -/
theorem smallestRepeated_of_findNeighbours? {a b : UInt64} (hsorted : indices.IsChain (· ≤ ·))
    (h : findNeighbours? (fun a b : UInt64 => a == b) indices = some (a, b)) :
    SmallestRepeated indices a := by
  obtain ⟨hab, before, after, rfl, hbefore⟩ := exists_of_findNeighbours? h
  obtain rfl : a = b := beq_iff_eq.mp hab
  have hfront : (before ++ [a]).Pairwise (· < ·) := by
    refine pairwise_lt_iff.mpr ⟨?_, by simpa only [beq_eq_false_iff_ne] using hbefore⟩
    rw [← List.singleton_append, ← List.append_assoc] at hsorted
    exact hsorted.left_of_append
  have hback : (a :: a :: after).Pairwise (· ≤ ·) :=
    List.isChain_iff_pairwise.mp hsorted.right_of_append
  refine ⟨by simp only [List.count_append, List.count_cons_self]; omega, fun other hother => ?_⟩
  rw [← UInt64.not_lt]
  intro hlt
  have hnone : (a :: a :: after).count other = 0 := by
    refine List.count_eq_zero_of_not_mem fun hmem => ?_
    rcases List.mem_cons.mp hmem with rfl | hmem
    · exact UInt64.lt_irrefl other hlt
    · exact UInt64.not_le.mpr hlt (List.rel_of_pairwise_cons hback hmem)
  have hone := count_le_one_of_pairwise (List.pairwise_append.mp hfront).1 other
  rw [List.count_append] at hother
  omega

theorem SmallestRepeated.unique {a b : UInt64} (ha : SmallestRepeated indices a)
    (hb : SmallestRepeated indices b) : a = b :=
  UInt64.le_antisymm (ha.le b hb.repeated) (hb.le a ha.repeated)

/-- A repeated index of a list in order is found. -/
theorem SmallestRepeated.exists_findNeighbours? {index : UInt64}
    (hrepeated : SmallestRepeated indices index) (hsorted : indices.IsChain (· ≤ ·)) :
    ∃ b, findNeighbours? (fun a b : UInt64 => a == b) indices = some (index, b) := by
  rcases h : findNeighbours? (fun a b : UInt64 => a == b) indices with _ | ⟨a, b⟩
  · have hincreasing :=
      pairwise_lt_iff.mpr ⟨hsorted, findNeighbours?_repetition_eq_none_iff.mp h⟩
    have hone := count_le_one_of_pairwise hincreasing index
    have htwo := hrepeated.repeated
    omega
  · rw [hrepeated.unique (smallestRepeated_of_findNeighbours? hsorted h)]
    exact ⟨b, rfl⟩

end

/-! ## What is accepted as an index set, and what is told of other lists -/

/-- What is wrong with a list that is to be an index set with at most `maximum` members.  Each fault
    is told of lists that have none of those before it. -/
inductive Fault (maximum : Nat) (indices : List UInt64) : Rejection → Prop
  | tooMany : maximum < indices.length →
      Fault maximum indices (.tooManyIndices indices.length maximum)
  | empty : indices = [] → Fault maximum indices .noAttestingIndices
  | notSorted : indices.length ≤ maximum → ¬ indices.IsChain (· ≤ ·) →
      Fault maximum indices .indicesNotSorted
  | notUnique {index : UInt64} : indices.length ≤ maximum → indices.IsChain (· ≤ ·) →
      SmallestRepeated indices index → Fault maximum indices (.indicesNotUnique index.toNat)

variable {config : Config} {indices : List UInt64}

theorem problem?_eq_some_iff {fault : Rejection} : problem? config indices = some fault ↔
    Fault config.maxValidatorsPerCommittee.val.toNat indices fault := by
  constructor
  · intro h
    unfold problem? at h
    dsimp only at h
    split at h
    · next hlong =>
      cases h
      exact .tooMany hlong
    next hlength =>
    split at h
    · next hempty =>
      cases h
      exact .empty hempty
    split at h
    · next hdescent =>
      cases h
      refine .notSorted (Nat.le_of_not_lt hlength) fun hsorted => ?_
      rw [findNeighbours?_descent_eq_none_iff.mpr hsorted] at hdescent
      nomatch hdescent
    next hsome =>
    have hsorted := findNeighbours?_descent_eq_none_iff.mp (Option.not_isSome_iff_eq_none.mp hsome)
    split at h
    · next index _ hfound =>
      cases h
      exact .notUnique (Nat.le_of_not_lt hlength) hsorted
        (smallestRepeated_of_findNeighbours? hsorted hfound)
    · nomatch h
  · intro h
    unfold problem?
    dsimp only
    cases h with
    | tooMany hlong => rw [if_pos hlong]
    | empty hempty => rw [if_neg (by simp [hempty]), if_pos hempty]
    | notSorted hlength hdescent =>
      rw [if_neg (Nat.not_lt.mpr hlength), if_neg (by rintro rfl; exact hdescent List.isChain_nil),
        if_pos]
      rw [Option.isSome_iff_ne_none]
      exact fun hnone => hdescent (findNeighbours?_descent_eq_none_iff.mp hnone)
    | notUnique hlength hsorted hrepeated =>
      obtain ⟨b, hfound⟩ := hrepeated.exists_findNeighbours? hsorted
      rw [if_neg (Nat.not_lt.mpr hlength), if_neg (by rintro rfl; nomatch hfound),
        findNeighbours?_descent_eq_none_iff.mpr hsorted, if_neg (by decide), hfound]

/-- A list out of order is refused as such, even if an index comes twice in it. -/
example : problem? Config.minimal [2, 5, 5, 3] = some .indicesNotSorted := by decide

theorem problem?_eq_none_iff : problem? config indices = none ↔
    indices.length ≤ config.maxValidatorsPerCommittee.val.toNat ∧ indices ≠ [] ∧
      indices.Pairwise (· < ·) := by
  unfold problem?
  dsimp only
  constructor
  · intro h
    split at h
    · nomatch h
    next hlength =>
    split at h
    · nomatch h
    next hsome =>
    split at h
    · nomatch h
    next hsorted =>
    split at h
    · nomatch h
    next hunique =>
    rw [Option.not_isSome_iff_eq_none, findNeighbours?_descent_eq_none_iff] at hsorted
    rw [findNeighbours?_repetition_eq_none_iff] at hunique
    exact ⟨Nat.le_of_not_lt hlength, hsome, pairwise_lt_iff.mpr ⟨hsorted, hunique⟩⟩
  · rintro ⟨hlength, hsome, hincreasing⟩
    obtain ⟨hsorted, hunique⟩ := pairwise_lt_iff.mp hincreasing
    rw [if_neg (Nat.not_lt.mpr hlength), if_neg hsome,
      findNeighbours?_descent_eq_none_iff.mpr hsorted, if_neg (by decide),
      findNeighbours?_repetition_eq_none_iff.mpr hunique]

/-- An index set is a strictly increasing list that is not empty and not too long. -/
theorem check_eq_ok_iff : check config indices = .ok () ↔
    indices.length ≤ config.maxValidatorsPerCommittee.val.toNat ∧ indices ≠ [] ∧
      indices.Pairwise (· < ·) := by
  rw [← problem?_eq_none_iff]
  unfold check
  rcases problem? config indices with _ | fault
  · exact ⟨fun _ => rfl, fun _ => rfl⟩
  · exact ⟨fun h => (nomatch h), fun h => (nomatch h)⟩

theorem check_eq_error_iff {failure : Failure} : check config indices = .error failure ↔
    ∃ fault, failure = .rejected fault ∧
      Fault config.maxValidatorsPerCommittee.val.toNat indices fault := by
  simp only [← problem?_eq_some_iff]
  unfold check
  rcases problem? config indices with _ | fault
  · exact ⟨fun h => (nomatch h), fun ⟨_, _, h⟩ => (nomatch h)⟩
  · constructor
    · intro h
      cases h
      exact ⟨fault, rfl, rfl⟩
    · rintro ⟨_, rfl, h⟩
      cases h
      rfl

/-- A list accepted as an index set is strictly increasing. -/
theorem pairwise_of_check (h : check config indices = .ok ()) : indices.Pairwise (· < ·) :=
  (check_eq_ok_iff.mp h).2.2

/-- The last index of a strictly increasing list is the largest. -/
theorem le_of_getLast? {last : UInt64} (hincreasing : indices.Pairwise (· < ·))
    (hlast : indices.getLast? = some last) : ∀ index ∈ indices, index ≤ last := by
  obtain ⟨front, rfl⟩ := List.getLast?_eq_some_iff.mp hlast
  intro index hindex
  rcases List.mem_append.mp hindex with hindex | hindex
  · exact UInt64.le_of_lt ((List.pairwise_append.mp hincreasing).2.2 index hindex last
      List.mem_cons_self)
  · exact UInt64.le_of_eq (List.mem_singleton.mp hindex)

end IndexSet

/-! ## Index sets in the registry -/

namespace IndexedAttestation

variable {σ : Type} [StateAccess σ] {config : Config} {s : σ} {attestation : IndexedAttestation}

/-- The last index stands for all of them. -/
theorem checkIndices_eq_ok_iff : attestation.checkIndices config s = .ok () ↔
    IndexSet.check config attestation.attestingIndices = .ok () ∧
      ∀ index ∈ attestation.attestingIndices, index.toNat < StateAccess.validatorCount s := by
  constructor
  · intro h
    obtain ⟨_, hset, hbound⟩ := bind_eq_ok_iff.mp h
    refine ⟨hset, fun index hindex => ?_⟩
    split at hbound
    · next hnone =>
      rw [List.getLast?_eq_none_iff.mp hnone] at hindex
      nomatch hindex
    · next last hlast =>
      have hle := IndexSet.le_of_getLast? (IndexSet.pairwise_of_check hset) hlast index hindex
      have hlt := of_decide_eq_true (ensure_eq_ok_iff.mp hbound)
      exact Nat.lt_of_le_of_lt (UInt64.le_iff_toNat_le.mp hle) hlt
  · rintro ⟨hset, hregistered⟩
    refine bind_eq_ok_iff.mpr ⟨(), hset, ?_⟩
    rcases hlast : attestation.attestingIndices.getLast? with _ | last
    · rfl
    · exact ensure_eq_ok_iff.mpr (decide_eq_true (hregistered last (List.mem_of_getLast? hlast)))

/-- What is wrong with the attesters in a registry of `count` validators: they are no index set, or
    the largest of them is not in the registry. -/
inductive RegistryFault (maximum count : Nat) (indices : List UInt64) : Rejection → Prop
  | noIndexSet {fault : Rejection} : IndexSet.Fault maximum indices fault →
      RegistryFault maximum count indices fault
  | outside {index : UInt64} : indices.length ≤ maximum → indices.IsChain (· < ·) →
      index ∈ indices → (∀ other ∈ indices, other ≤ index) → count ≤ index.toNat →
      RegistryFault maximum count indices (.outsideRegistry index.toNat count)

theorem checkIndices_eq_error_iff {failure : Failure} :
    attestation.checkIndices config s = .error failure ↔ ∃ fault, failure = .rejected fault ∧
      RegistryFault config.maxValidatorsPerCommittee.val.toNat (StateAccess.validatorCount s)
        attestation.attestingIndices fault := by
  constructor
  · intro h
    rcases bind_eq_error_iff.mp h with hset | ⟨_, hset, hbound⟩
    · obtain ⟨fault, rfl, hfault⟩ := IndexSet.check_eq_error_iff.mp hset
      exact ⟨fault, rfl, .noIndexSet hfault⟩
    · obtain ⟨hlength, -, hincreasing⟩ := IndexSet.check_eq_ok_iff.mp hset
      split at hbound
      · nomatch hbound
      · next last hlast =>
        obtain ⟨hout, rfl⟩ := ensure_eq_error_iff.mp hbound
        exact ⟨_, rfl, .outside hlength hincreasing.isChain (List.mem_of_getLast? hlast)
          (IndexSet.le_of_getLast? hincreasing hlast) (Nat.le_of_not_lt (of_decide_eq_false hout))⟩
  · rintro ⟨fault, rfl, hfault⟩
    refine bind_eq_error_iff.mpr ?_
    cases hfault with
    | noIndexSet hfault => exact .inl (IndexSet.check_eq_error_iff.mpr ⟨fault, rfl, hfault⟩)
    | @outside index hlength hincreasing hmem hlargest hout =>
      have hpairwise := List.isChain_iff_pairwise.mp hincreasing
      have hsome := List.ne_nil_of_mem hmem
      refine .inr ⟨(), IndexSet.check_eq_ok_iff.mpr ⟨hlength, hsome, hpairwise⟩, ?_⟩
      have hlast := List.getLast?_eq_some_getLast hsome
      obtain rfl : attestation.attestingIndices.getLast hsome = index :=
        UInt64.le_antisymm (hlargest _ (List.mem_of_getLast? hlast))
          (IndexSet.le_of_getLast? hpairwise hlast index hmem)
      rw [hlast]
      exact ensure_eq_error_iff.mpr ⟨decide_eq_false (Nat.not_lt.mpr hout), rfl⟩

/-- **Which attesters are accepted, and what is told of the others.**  The indices are accepted
    exactly if they are as many as a committee can have, at least one of them, each smaller than its
    successor, and all in the registry; and any other list is refused for the first of its faults. -/
theorem checkIndices_accepts_index_sets (config : Config) (s : σ)
    (attestation : IndexedAttestation) :
    (attestation.checkIndices config s = .ok () ↔
      (1 ≤ attestation.attestingIndices.length ∧
        attestation.attestingIndices.length ≤ config.maxValidatorsPerCommittee.val.toNat) ∧
      attestation.attestingIndices.IsChain (· < ·) ∧
      ∀ index ∈ attestation.attestingIndices, index.toNat < StateAccess.validatorCount s) ∧
    ∀ failure, attestation.checkIndices config s = .error failure ↔
      ∃ fault, failure = .rejected fault ∧
        RegistryFault config.maxValidatorsPerCommittee.val.toNat (StateAccess.validatorCount s)
          attestation.attestingIndices fault := by
  refine ⟨?_, fun _ => checkIndices_eq_error_iff⟩
  rw [checkIndices_eq_ok_iff, IndexSet.check_eq_ok_iff, List.isChain_iff_pairwise]
  constructor
  · rintro ⟨⟨hlength, hsome, hincreasing⟩, hregistered⟩
    exact ⟨⟨List.length_pos_iff.mpr hsome, hlength⟩, hincreasing, hregistered⟩
  · rintro ⟨⟨hsome, hlength⟩, hincreasing, hregistered⟩
    exact ⟨⟨hlength, List.length_pos_iff.mp hsome, hincreasing⟩, hregistered⟩

end IndexedAttestation

/-! ## Common elements -/

namespace IndexSet

section

variable {α : Type} [LT α]

/-- What lies before the first element of a strictly increasing list is not in it. -/
theorem notMem_of_lt [LE α] [Std.IsLinearOrder α] [Std.LawfulOrderLT α] {a b : α} {bs : List α}
    (hbs : (b :: bs).Pairwise (· < ·)) (hlt : a < b) : a ∉ b :: bs := by
  intro ha
  rcases List.mem_cons.mp ha with rfl | ha
  · exact Std.lt_irrefl hlt
  · exact Std.lt_irrefl (Std.lt_trans hlt (List.rel_of_pairwise_cons hbs ha))

variable [DecidableLT α]

/-- The common elements are among those of the first list, in the same order. -/
theorem inter_sublist (as bs : List α) : (inter as bs).Sublist as := by
  fun_induction inter as bs with
  | case1 => exact List.Sublist.refl []
  | case2 => exact List.nil_sublist _
  | case3 a as b bs hlt ih => exact ih.cons a
  | case4 a as b bs hnot hlt ih => exact ih
  | case5 a as b bs hnot hnot' ih => exact ih.cons_cons a

theorem pairwise_inter {as : List α} (has : as.Pairwise (· < ·)) (bs : List α) :
    (inter as bs).Pairwise (· < ·) :=
  has.sublist (inter_sublist as bs)

variable [LE α] [Std.IsLinearOrder α] [Std.LawfulOrderLT α]

/-- Of two strictly increasing lists none of the common elements is passed over. -/
theorem mem_inter_iff {as bs : List α} (has : as.Pairwise (· < ·)) (hbs : bs.Pairwise (· < ·))
    {c : α} : c ∈ inter as bs ↔ c ∈ as ∧ c ∈ bs := by
  fun_induction inter as bs with
  | case1 bs => exact ⟨fun h => (nomatch h), fun h => (nomatch h.1)⟩
  | case2 as => exact ⟨fun h => (nomatch h), fun h => (nomatch h.2)⟩
  | case3 a as b bs hlt ih =>
    rw [ih has.of_cons hbs, List.mem_cons (a := c) (b := a)]
    constructor
    · exact fun h => ⟨Or.inr h.1, h.2⟩
    · rintro ⟨rfl | hc, hc'⟩
      · exact absurd hc' (notMem_of_lt hbs hlt)
      · exact ⟨hc, hc'⟩
  | case4 a as b bs hnot hlt ih =>
    rw [ih has hbs.of_cons, List.mem_cons (a := c) (b := b)]
    constructor
    · exact fun h => ⟨h.1, Or.inr h.2⟩
    · rintro ⟨hc, rfl | hc'⟩
      · exact absurd hc (notMem_of_lt has hlt)
      · exact ⟨hc, hc'⟩
  | case5 a as b bs hnot hnot' ih =>
    obtain rfl : a = b := Std.le_antisymm (Std.not_lt.mp hnot') (Std.not_lt.mp hnot)
    rw [List.mem_cons, ih has.of_cons hbs.of_cons, List.mem_cons, List.mem_cons]
    exact or_and_left

/-- **The one pass over both lists gives their intersection**: strictly increasing, with every common
    element in it once and nothing else.  It is what is left of either list when all that is not in
    the other is struck out, and the order in which the lists are given makes no difference. -/
theorem inter_is_intersection [DecidableEq α] {as bs : List α} (has : as.Pairwise (· < ·))
    (hbs : bs.Pairwise (· < ·)) :
    (inter as bs).Pairwise (· < ·) ∧
    (∀ c, c ∈ inter as bs ↔ c ∈ as ∧ c ∈ bs) ∧
    (∀ c, (inter as bs).count c = if c ∈ as ∧ c ∈ bs then 1 else 0) ∧
    inter as bs = as.filter (fun a => decide (a ∈ bs)) ∧
    inter bs as = inter as bs := by
  have hincreasing := pairwise_inter has bs
  have hmem := fun c => mem_inter_iff has hbs (c := c)
  refine ⟨hincreasing, hmem, fun c => ?_, ?_, ?_⟩
  · have hnodup : (inter as bs).Nodup := hincreasing.imp Std.ne_of_lt
    simp only [← hmem c]
    split
    · next hc => exact List.count_eq_one_of_mem hnodup hc
    · next hc => exact List.count_eq_zero_of_not_mem hc
  · refine hincreasing.eq_of_mem_iff (has.sublist List.filter_sublist) fun c => ?_
    rw [hmem c, List.mem_filter, decide_eq_true_iff]
  · refine (pairwise_inter hbs as).eq_of_mem_iff hincreasing fun c => ?_
    rw [mem_inter_iff hbs has, hmem c, and_comm]

theorem inter_is_intersection_zigzag :
    ([1, 4, 7, 9] : List UInt64).Pairwise (· < ·) ∧ ([2, 4, 8, 9] : List UInt64).Pairwise (· < ·) ∧
    inter ([1, 4, 7, 9] : List UInt64) [2, 4, 8, 9] = [4, 9] := by
  have has : ([1, 4, 7, 9] : List UInt64).Pairwise (· < ·) := by decide
  have hbs : ([2, 4, 8, 9] : List UInt64).Pairwise (· < ·) := by decide
  exact ⟨has, hbs, (inter_is_intersection has hbs).2.2.2.1.trans (by decide)⟩

end

end IndexSet

end Beacon
