/-
  The exit queue as a law on the exit epochs in the registry.

  `ExitQueue.Describes` says what the queue of a list of exit epochs is without scanning the
  list: its end is the latest exit epoch, or the earliest possible one if that is later, and its
  churn is how often the end occurs.  The scan has this property (`describes_scan`), the property
  does not depend on the order of the list, and one more exit is one more observation.

  A `Cursor` is a place in the queue for the next exit.  It is counted in natural numbers, so that
  it may stand beyond the last epoch there is; `Cursor.epochOf` is the closed form of where the
  `k`-th exit from here goes, and `Cursor.agree_iff` says when two cursors give the same epochs.
-/
import Beacon.Proofs.Action
import Beacon.Epoch.RegistryUpdates

namespace Beacon

theorem toNat_farFutureEpoch : farFutureEpoch.toNat = 18446744073709551615 := rfl

theorem toNat_le_farFutureEpoch (e : Epoch) : e.toNat ≤ farFutureEpoch.toNat := by
  have := e.toNat_lt
  rw [toNat_farFutureEpoch]
  omega

namespace ExitQueue

/-! ## What a queue says about exit epochs -/

/-- The queue's end is the latest of these exit epochs or the earliest possible one, and its churn
    is how many of them are at the end. -/
structure Describes (earliest : Epoch) (exits : List Epoch) (queue : ExitQueue) : Prop where
  earliest_le : earliest.toNat ≤ queue.last.toNat
  exit_le : ∀ e ∈ exits, e.toNat ≤ queue.last.toNat
  attained : queue.last = earliest ∨ queue.last ∈ exits
  churn_eq : queue.churn = exits.count queue.last

theorem describes_nil (earliest : Epoch) : Describes earliest [] ⟨earliest, 0⟩ where
  earliest_le := Nat.le_refl _
  exit_le _ he := absurd he List.not_mem_nil
  attained := Or.inl rfl
  churn_eq := rfl

/-- One more exit is one more observation. -/
theorem Describes.observe {earliest : Epoch} {exits : List Epoch} {queue : ExitQueue}
    (h : Describes earliest exits queue) (e : Epoch) :
    Describes earliest (e :: exits) (queue.observe e) := by
  have hcount : ∀ d, d ≠ e → (e :: exits).count d = exits.count d := fun d hd =>
    List.count_cons_of_ne (Ne.symm hd)
  unfold ExitQueue.observe
  split
  · next hlt =>
    -- an exit before the end changes nothing
    have hlt' : e.toNat < queue.last.toNat := UInt64.lt_iff_toNat_lt.mp hlt
    have hne : queue.last ≠ e := by
      rintro rfl
      omega
    refine ⟨h.earliest_le, fun d hd => ?_, ?_, ?_⟩
    · rcases List.mem_cons.mp hd with rfl | hd
      · omega
      · exact h.exit_le d hd
    · exact h.attained.imp_right (List.mem_cons_of_mem e)
    · rw [hcount _ hne]
      exact h.churn_eq
  · next hge =>
    split
    · next heq =>
      subst heq
      refine ⟨h.earliest_le, fun d hd => ?_, Or.inr List.mem_cons_self, ?_⟩
      · rcases List.mem_cons.mp hd with rfl | hd
        · exact Nat.le_refl _
        · exact h.exit_le d hd
      · show queue.churn + 1 = _
        rw [List.count_cons_self, h.churn_eq]
    · next hne =>
      -- a later exit is the new end, and the only one there
      have hgt : queue.last.toNat < e.toNat := by
        have h1 : ¬ e.toNat < queue.last.toNat := fun c => hge (UInt64.lt_iff_toNat_lt.mpr c)
        have h2 : e.toNat ≠ queue.last.toNat := fun c => hne (UInt64.toNat_inj.mp c)
        omega
      refine ⟨Nat.le_trans h.earliest_le (Nat.le_of_lt hgt), fun d hd => ?_,
        Or.inr List.mem_cons_self, ?_⟩
      · rcases List.mem_cons.mp hd with rfl | hd
        · exact Nat.le_refl _
        · exact Nat.le_trans (h.exit_le d hd) (Nat.le_of_lt hgt)
      · have hnone : e ∉ exits := fun he => by
          have := h.exit_le e he
          omega
        show 1 = (e :: exits).count e
        rw [List.count_cons_self, List.count_eq_zero.mpr hnone]

/-- The scan of exit epochs, begun with the queue of those seen before. -/
theorem Describes.foldl {earliest : Epoch} (todo : List Epoch) :
    ∀ {seen : List Epoch} {queue : ExitQueue}, Describes earliest seen queue →
      Describes earliest (todo.reverse ++ seen) (todo.foldl ExitQueue.observe queue) := by
  induction todo with
  | nil => exact fun h => h
  | cons e todo ih =>
    intro seen queue h
    rw [List.reverse_cons, List.append_assoc, List.singleton_append, List.foldl_cons]
    exact ih (h.observe e)

theorem Describes.perm {earliest : Epoch} {exits exits' : List Epoch} {queue : ExitQueue}
    (h : Describes earliest exits queue) (hp : exits.Perm exits') :
    Describes earliest exits' queue where
  earliest_le := h.earliest_le
  exit_le e he := h.exit_le e (hp.mem_iff.mpr he)
  attained := h.attained.imp_right hp.mem_iff.mp
  churn_eq := by rw [h.churn_eq, hp.count_eq]

/-- The exit epochs of a list of validators that are set. -/
def exitsOf (validators : List Validator) : List Epoch :=
  (validators.map Validator.exitEpoch).filter (· != farFutureEpoch)

theorem ne_farFutureEpoch_of_mem_exitsOf {validators : List Validator} {e : Epoch}
    (h : e ∈ exitsOf validators) : e ≠ farFutureEpoch := by
  simpa using (List.mem_filter.mp h).2

/-- The queue of a registry, by scanning it, describes its exit epochs. -/
theorem describes_scan (earliest : Epoch) (validators : List Validator) :
    Describes earliest (exitsOf validators) (ofValidators earliest validators) := by
  have h := (describes_nil earliest).foldl (exitsOf validators)
  rw [List.append_nil] at h
  exact h.perm (List.reverse_perm _)

/-- The epochs that a queue describes determine it. -/
theorem Describes.unique {earliest : Epoch} {exits : List Epoch} {q r : ExitQueue}
    (hq : Describes earliest exits q) (hr : Describes earliest exits r) : q = r := by
  have hle : ∀ {a b : ExitQueue}, Describes earliest exits a → Describes earliest exits b →
      a.last.toNat ≤ b.last.toNat := by
    intro a b ha hb
    rcases ha.attained with h | h
    · rw [h]
      exact hb.earliest_le
    · exact hb.exit_le _ h
  have hlast : q.last = r.last :=
    UInt64.toNat_inj.mp (Nat.le_antisymm (hle hq hr) (hle hr hq))
  have hchurn : q.churn = r.churn := by rw [hq.churn_eq, hr.churn_eq, hlast]
  cases q
  cases r
  rw [ExitQueue.mk.injEq]
  exact ⟨hlast, hchurn⟩

end ExitQueue

/-! ## Cursors -/

/-- Where the next exit goes, and how many leave there already. -/
structure Cursor where
  epoch : Nat
  taken : Nat

namespace Cursor

/-- How many fit into one epoch.  With a limit of zero each exit still gets an epoch of its own. -/
def room (limit : Nat) : Nat := max limit 1

theorem room_pos (limit : Nat) : 0 < room limit := by
  unfold room
  omega

/-- The cursor after one more exit. -/
def advance (cursor : Cursor) (limit : Nat) : Cursor :=
  if limit ≤ cursor.taken + 1 then ⟨cursor.epoch + 1, 0⟩ else ⟨cursor.epoch, cursor.taken + 1⟩

theorem advance_of_full {cursor : Cursor} {limit : Nat} (h : limit ≤ cursor.taken + 1) :
    cursor.advance limit = ⟨cursor.epoch + 1, 0⟩ := if_pos h

theorem advance_of_room {cursor : Cursor} {limit : Nat} (h : ¬ limit ≤ cursor.taken + 1) :
    cursor.advance limit = ⟨cursor.epoch, cursor.taken + 1⟩ := if_neg h

/-- The epoch of the `k`-th exit from here on. -/
def epochOf (cursor : Cursor) (limit k : Nat) : Nat :=
  cursor.epoch + (cursor.taken + k) / room limit

theorem taken_advance_lt (cursor : Cursor) (limit : Nat) :
    (cursor.advance limit).taken < room limit := by
  by_cases h : limit ≤ cursor.taken + 1
  · rw [advance_of_full h]
    exact room_pos limit
  · rw [advance_of_room h]
    show cursor.taken + 1 < max limit 1
    omega

/-- The cursor only moves on. -/
theorem epoch_le_advance (cursor : Cursor) (limit : Nat) :
    cursor.epoch ≤ (cursor.advance limit).epoch := by
  by_cases h : limit ≤ cursor.taken + 1
  · rw [advance_of_full h]
    exact Nat.le_succ _
  · exact Nat.le_of_eq (congrArg Cursor.epoch (advance_of_room h)).symm

theorem epochOf_zero {cursor : Cursor} {limit : Nat} (h : cursor.taken < room limit) :
    cursor.epochOf limit 0 = cursor.epoch := by
  unfold epochOf
  rw [Nat.add_zero, Nat.div_eq_of_lt h, Nat.add_zero]

theorem epochOf_succ {cursor : Cursor} {limit : Nat} (h : cursor.taken < room limit) (k : Nat) :
    cursor.epochOf limit (k + 1) = (cursor.advance limit).epochOf limit k := by
  by_cases hfull : limit ≤ cursor.taken + 1
  · -- the epoch is full now: `taken + 1` is exactly the room there is
    have hroom : cursor.taken + 1 = room limit := by
      unfold room at h ⊢
      omega
    rw [advance_of_full hfull]
    show cursor.epoch + (cursor.taken + (k + 1)) / room limit =
      cursor.epoch + 1 + (0 + k) / room limit
    rw [show cursor.taken + (k + 1) = k + room limit by omega,
      Nat.add_div_right k (room_pos limit), Nat.zero_add]
    omega
  · rw [advance_of_room hfull]
    show cursor.epoch + (cursor.taken + (k + 1)) / room limit =
      cursor.epoch + (cursor.taken + 1 + k) / room limit
    rw [show cursor.taken + (k + 1) = cursor.taken + 1 + k by omega]

theorem epochOf_mono (cursor : Cursor) (limit : Nat) {j k : Nat} (h : j ≤ k) :
    cursor.epochOf limit j ≤ cursor.epochOf limit k := by
  unfold epochOf
  exact Nat.add_le_add_left (Nat.div_le_div_right (Nat.add_le_add_left h _)) _

/-- Within the room that is left the epoch stays the same. -/
theorem epochOf_eq {cursor : Cursor} {limit k : Nat} (h : cursor.taken + k < room limit) :
    cursor.epochOf limit k = cursor.epoch := by
  unfold epochOf
  rw [Nat.div_eq_of_lt h, Nat.add_zero]

/-- The first exit that no longer fits goes into the next epoch. -/
theorem epochOf_full {cursor : Cursor} {limit k : Nat} (h : cursor.taken + k = room limit) :
    cursor.epochOf limit k = cursor.epoch + 1 := by
  unfold epochOf
  rw [h, Nat.div_self (room_pos limit)]

/-- Two cursors in one epoch with different numbers taken part at the first exit that fits for one
    of them only. -/
theorem epochOf_ne {a b : Cursor} {limit k : Nat} (he : a.epoch = b.epoch)
    (hlt : a.taken < b.taken) (hk : b.taken + k = room limit) :
    a.epochOf limit k < b.epochOf limit k := by
  rw [epochOf_full hk, epochOf_eq (by omega)]
  omega

/-- Two cursors stand in one epoch, and that epoch has as many taken for both, or it has room for
    `count` exits whichever of them is right. -/
def Agree (limit count : Nat) (a b : Cursor) : Prop :=
  a.epoch = b.epoch ∧ (a.taken = b.taken ∨ max a.taken b.taken + count ≤ room limit)

/-- Agreement is just what it takes to give `count` exits the same epochs, the second cursor being
    held back at `last`. -/
theorem agree_iff {a b : Cursor} {limit last count : Nat} (ha : a.taken < room limit)
    (hb : b.taken < room limit) (hlast : a.epochOf limit count ≤ last)
    (hle : 0 < count → b.epoch ≤ last) (hend : b.epoch = last → b.taken = 0) :
    (∀ k, k < count → a.epochOf limit k = min last (b.epochOf limit k)) ↔
      count = 0 ∨ Agree limit count a b := by
  constructor
  · intro h
    by_cases hcount : count = 0
    · exact Or.inl hcount
    have hepoch : a.epoch = b.epoch := by
      have h0 := h 0 (by omega)
      rw [epochOf_zero ha, epochOf_zero hb] at h0
      have := hle (by omega)
      omega
    refine Or.inr ⟨hepoch, ?_⟩
    by_cases hsame : a.taken = b.taken
    · exact Or.inl hsame
    refine Or.inr ?_
    apply Nat.le_of_not_lt
    intro hmore
    -- the exits reach the first one that fits for one cursor only; there the epochs differ
    rcases Nat.lt_or_gt_of_ne hsame with hlt | hgt
    · have hk := h (room limit - b.taken) (by omega)
      have hfull : b.epochOf limit (room limit - b.taken) = b.epoch + 1 := epochOf_full (by omega)
      have hne : a.epochOf limit (room limit - b.taken) < b.epochOf limit (room limit - b.taken) :=
        epochOf_ne hepoch hlt (by omega)
      -- the second cursor is not held back there: it has places taken, so it is before `last`
      have hnot : b.epoch ≠ last := fun c => by
        have := hend c
        omega
      have := hle (by omega)
      omega
    · have hk := h (room limit - a.taken) (by omega)
      have hne : b.epochOf limit (room limit - a.taken) < a.epochOf limit (room limit - a.taken) :=
        epochOf_ne hepoch.symm hgt (by omega)
      omega
  · intro h k hk
    rcases h with h | ⟨hepoch, h⟩
    · omega
    have hbound : a.epochOf limit k ≤ last :=
      Nat.le_trans (epochOf_mono a limit (Nat.le_of_lt hk)) hlast
    have hsame : a.epochOf limit k = b.epochOf limit k := by
      rcases h with htaken | hroom
      · unfold epochOf
        rw [hepoch, htaken]
      · have hfita : a.taken + k < room limit := by omega
        have hfitb : b.taken + k < room limit := by omega
        rw [epochOf_eq hfita, epochOf_eq hfitb, hepoch]
    rw [← hsame]
    exact (Nat.min_eq_right hbound).symm

end Cursor

namespace ExitQueue

/-- A queue whose end still has room, as a cursor. -/
def place (queue : ExitQueue) : Cursor := ⟨queue.last.toNat, queue.churn⟩

/-- The place for the next exit behind a queue: a full end is passed on. -/
def cursor (queue : ExitQueue) (limit : Nat) : Cursor :=
  if limit ≤ queue.churn then ⟨queue.last.toNat + 1, 0⟩ else ⟨queue.last.toNat, queue.churn⟩

theorem cursor_of_full {queue : ExitQueue} {limit : Nat} (h : limit ≤ queue.churn) :
    queue.cursor limit = ⟨queue.last.toNat + 1, 0⟩ := if_pos h

theorem cursor_of_room {queue : ExitQueue} {limit : Nat} (h : ¬ limit ≤ queue.churn) :
    queue.cursor limit = queue.place := if_neg h

theorem taken_cursor_lt (queue : ExitQueue) (limit : Nat) :
    (queue.cursor limit).taken < Cursor.room limit := by
  by_cases h : limit ≤ queue.churn
  · rw [cursor_of_full h]
    exact Cursor.room_pos limit
  · rw [cursor_of_room h]
    show queue.churn < max limit 1
    omega

/-- No exit is put before the end of the queue. -/
theorem last_le_cursor (queue : ExitQueue) (limit : Nat) :
    queue.last.toNat ≤ (queue.cursor limit).epoch := by
  by_cases h : limit ≤ queue.churn
  · rw [cursor_of_full h]
    exact Nat.le_succ _
  · exact Nat.le_of_eq (congrArg Cursor.epoch (cursor_of_room h)).symm

/-- No exit is set to the last epoch there is, so that nothing is taken there. -/
theorem Describes.taken_cursor_eq_zero {earliest : Epoch} {exits : List Epoch}
    {queue : ExitQueue} {limit : Nat} (h : queue.Describes earliest exits)
    (hfar : farFutureEpoch ∉ exits)
    (hend : (queue.cursor limit).epoch = farFutureEpoch.toNat) :
    (queue.cursor limit).taken = 0 := by
  by_cases hfull : limit ≤ queue.churn
  · rw [cursor_of_full hfull]
  · rw [cursor_of_room hfull] at hend ⊢
    have hlast : queue.last = farFutureEpoch := UInt64.toNat_inj.mp hend
    show queue.churn = 0
    rw [h.churn_eq, hlast]
    exact List.count_eq_zero.mpr hfar

/-- The next exit epoch is where the cursor stands, if there is such an epoch. -/
theorem nextEpoch_eq_ok_iff {queue : ExitQueue} {limit : Nat} {e : Epoch} :
    queue.nextEpoch limit = .ok e ↔ e.toNat = (queue.cursor limit).epoch := by
  unfold nextEpoch
  split
  · next hfull =>
    rw [orFail_eq_ok_iff, Word.addChecked_eq_some_iff, cursor_of_full hfull]
    rfl
  · next hroom =>
    rw [cursor_of_room hroom, Except.ok.injEq]
    show _ ↔ e.toNat = queue.last.toNat
    rw [UInt64.toNat_inj]
    exact eq_comm

/-- After the next exit the cursor has advanced. -/
theorem cursor_observe {queue : ExitQueue} {limit : Nat} {e : Epoch}
    (he : e.toNat = (queue.cursor limit).epoch) :
    (queue.observe e).cursor limit = (queue.cursor limit).advance limit := by
  by_cases hfull : limit ≤ queue.churn
  · -- the exit is the first one in its epoch
    rw [cursor_of_full hfull] at he ⊢
    have hgt : e.toNat = queue.last.toNat + 1 := he
    have h1 : ¬ e < queue.last := fun c => by
      have := UInt64.lt_iff_toNat_lt.mp c
      omega
    have h2 : e ≠ queue.last := by
      rintro rfl
      omega
    have hobs : queue.observe e = ⟨e, 1⟩ := by
      unfold observe
      rw [if_neg h1, if_neg h2]
    rw [hobs, ← hgt]
    rfl
  · rw [cursor_of_room hfull] at he ⊢
    have heq : e = queue.last := UInt64.toNat_inj.mp he
    have hobs : queue.observe e = { queue with churn := queue.churn + 1 } := by
      unfold observe
      rw [heq, if_neg (UInt64.lt_irrefl _), if_pos rfl]
    rw [hobs]
    rfl

/-- The step of the ejection pass advances the cursor, and stays within the epochs there are. -/
theorem place_of_advance_eq_ok {queue next : ExitQueue} {limit : Nat}
    (h : queue.advance limit = .ok next) : next.place = queue.place.advance limit := by
  unfold advance at h
  split at h
  · nomatch h
  split at h
  · next hfull =>
    obtain ⟨e, he, hnext⟩ := bind_eq_ok_iff.mp h
    rw [orFail_eq_ok_iff, Word.addChecked_eq_some_iff] at he
    cases hnext
    show Cursor.mk e.toNat 0 = _
    rw [he, Cursor.advance_of_full hfull]
    rfl
  · next hroom =>
    cases h
    rw [Cursor.advance_of_room hroom]
    rfl

end ExitQueue

end Beacon
