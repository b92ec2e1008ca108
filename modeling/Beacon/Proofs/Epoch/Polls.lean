/-
  Where a run polls, and what becomes of it when a poll finds the signal raised.

  The work on an epoch is a list of items (`WorkItem`), and before some of them there is a poll
  (`isPolled`).  A run begins a prefix of its items, all of them if it succeeds.  From the items that
  are begun alone it is clear what progress each poll sees (`pollPoints`); the signal has no other
  influence on the run than to cut it short at the first of these points where it is raised
  (`cutShort`).  `Follows` says so of an action, and passes through every way of putting actions
  together.

  Lookups of committees come between the polls.  As long as no more than 32 of them do, one after the
  other (`Spaced`), a signal that is raised in a lookup is seen before the 32nd lookup after it
  (`lookups_cutShort_le`).
-/
import Beacon.Epoch.Progress
import Beacon.Proofs.Action

namespace Beacon

/-! ## The items of the work -/

/-- A step of the work on an epoch.  Counting a vote takes a lookup of its committee. -/
inductive WorkItem where
  | validator (index : Nat)
  | vote (epoch : RecentEpoch) (position : Nat)
  | lookup (epoch : RecentEpoch) (position : Nat)
  | registryUpdates
deriving DecidableEq

/-- Is there a poll before this item? -/
def WorkItem.isPolled : WorkItem → Bool
  | validator index => index % 1024 = 0
  | vote _ position => position % 32 = 0
  | lookup _ _ => false
  | registryUpdates => true

/-- The progress with one more poll. -/
def Progress.polled (p : Progress) : Progress := { p with polls := p.polls + 1 }

/-- The progress when an item is begun. -/
def Progress.noting (p : Progress) : WorkItem → Progress
  | .validator _ => { p with validators := p.validators + 1 }
  | .lookup _ _ => { p with lookups := p.lookups + 1 }
  | .vote _ _ => p
  | .registryUpdates => p

/-- The progress when an item is begun and its poll, if there is one, has been passed. -/
def Progress.after (p : Progress) (item : WorkItem) : Progress :=
  if item.isPolled then (p.noting item).polled else p.noting item

/-- The progress after several items. -/
def progressAfter (p : Progress) (items : List WorkItem) : Progress := items.foldl Progress.after p

/-- What the polls before these items see, one after the other. -/
def pollPoints (p : Progress) : List WorkItem → List Progress
  | [] => []
  | item :: items =>
    if item.isPolled then p.noting item :: pollPoints (p.after item) items
    else pollPoints (p.after item) items

theorem pollPoints_append (items items' : List WorkItem) :
    ∀ p : Progress, pollPoints p (items ++ items') =
      pollPoints p items ++ pollPoints (progressAfter p items) items' := by
  induction items with
  | nil => exact fun p => rfl
  | cons item items ih =>
    intro p
    rw [List.cons_append, pollPoints, pollPoints, ih]
    split
    · rfl
    · rfl

/-! ## Cutting a run short -/

section

variable {α : Type} {signal : StopSignal}

/-- A run in which a poll at one of these points may find the signal raised: the first that does
    ends it. -/
def cutShort (signal : StopSignal) :
    List Progress → Except Failure α × Progress → Except Failure α × Progress
  | [], run => run
  | q :: points, run =>
    if signal q then (.error .cancelled, q.polled) else cutShort signal points run

theorem cutShort_append (points points' : List Progress) (run : Except Failure α × Progress) :
    cutShort signal (points ++ points') run =
      cutShort signal points (cutShort signal points' run) := by
  induction points with
  | nil => rfl
  | cons q points ih =>
    rw [List.cons_append, cutShort, cutShort, ih]

/-- What comes after a run is cut short together with it. -/
theorem cutShort_bind {β : Type} {first : Action Progress α} {p : Progress}
    {points : List Progress} {run : Except Failure α × Progress}
    (h : first.runOn p = cutShort signal points run) (next : α → Action Progress β) :
    (first >>= next).runOn p = cutShort signal points
      (match run with
        | (.ok a, q) => (next a).runOn q
        | (.error failure, q) => (.error failure, q)) := by
  rw [Action.runOn_bind, h]
  clear h
  induction points with
  | nil => rcases run with ⟨failure | a, q⟩ <;> rfl
  | cons q points ih =>
    rw [cutShort, cutShort]
    by_cases hq : signal q = true
    · rw [if_pos hq, if_pos hq]
    · rw [if_neg hq, if_neg hq]
      exact ih

/-- Where the signal is not raised, the run is not cut short. -/
theorem cutShort_calm {points : List Progress} (h : ∀ q ∈ points, signal q = false)
    (run : Except Failure α × Progress) : cutShort signal points run = run := by
  induction points with
  | nil => rfl
  | cons q points ih =>
    rw [cutShort, h q List.mem_cons_self]
    exact ih fun r hr => h r (List.mem_cons_of_mem q hr)

/-- The run ends at the first point where the signal is raised. -/
theorem cutShort_raised {before after : List Progress} {q : Progress}
    (hbefore : ∀ r ∈ before, signal r = false) (hq : signal q = true)
    (run : Except Failure α × Progress) :
    cutShort signal (before ++ q :: after) run = (.error .cancelled, q.polled) := by
  rw [cutShort_append, cutShort_calm hbefore, cutShort, hq]
  rfl

end

/-! ## Following the items -/

/-- These items are begun, and the signal has no other influence than through their polls. -/
structure Polled {α : Type} (act : StopSignal → Action Progress α) (p : Progress)
    (begun : List WorkItem) : Prop where
  run : ∀ signal, (act signal).runOn p = cutShort signal (pollPoints p begun) ((act .never).runOn p)
  progress : ((act .never).runOn p).2 = progressAfter p begun

/-- The action takes these items one after the other, and fails somewhere among them unless it takes
    all of them. -/
def Follows {α : Type} (act : StopSignal → Action Progress α) (p : Progress)
    (items : List WorkItem) : Prop :=
  ∃ begun, begun <+: items ∧ Polled act p begun ∧
    ∀ a t, (act .never).runOn p = (.ok a, t) → begun = items

namespace Follows

variable {α β : Type} {p : Progress} {items items' : List WorkItem}

/-- What does not work on the epoch polls nothing. -/
theorem ofExcept (result : Except Failure α) (p : Progress) :
    Follows (fun _ => Action.ofExcept result) p [] :=
  ⟨[], List.prefix_rfl, ⟨fun _ => rfl, rfl⟩, fun _ _ _ => rfl⟩

theorem pure (a : α) (p : Progress) : Follows (fun _ => Pure.pure a) p [] :=
  ⟨[], List.prefix_rfl, ⟨fun _ => rfl, rfl⟩, fun _ _ _ => rfl⟩

theorem bind {first : StopSignal → Action Progress α}
    {next : StopSignal → α → Action Progress β} (hfirst : Follows first p items)
    (hnext : ∀ a t, (first .never).runOn p = (.ok a, t) →
      Follows (fun signal => next signal a) t items') :
    Follows (fun signal => first signal >>= next signal) p (items ++ items') := by
  obtain ⟨begun, hfront, hpolled, hall⟩ := hfirst
  have hprogress := hpolled.progress
  rcases hrun : (first .never).runOn p with ⟨failure | a, t⟩
  · -- the second part is not begun
    have hnever : (first .never >>= next .never).runOn p = (.error failure, t) := by
      rw [Action.runOn_bind, hrun]
    refine ⟨begun, hfront.trans (List.prefix_append _ _), ⟨fun signal => ?_, ?_⟩, fun b u h => ?_⟩
    · rw [cutShort_bind (hpolled.run signal), hrun, hnever]
    · rw [hnever]
      rw [hrun] at hprogress
      exact hprogress
    · rw [hnever] at h
      nomatch h
  · obtain rfl : begun = items := hall a t hrun
    obtain rfl : t = progressAfter p begun := by
      rw [hrun] at hprogress
      exact hprogress
    obtain ⟨begun', hfront', hpolled', hall'⟩ := hnext a _ hrun
    have hnever : (first .never >>= next .never).runOn p =
        (next .never a).runOn (progressAfter p begun) := by
      rw [Action.runOn_bind, hrun]
    refine ⟨begun ++ begun', ?_, ⟨fun signal => ?_, ?_⟩, fun b u h => ?_⟩
    · exact (List.prefix_append_right_inj begun).mpr hfront'
    · rw [cutShort_bind (hpolled.run signal), hrun, hnever, pollPoints_append, cutShort_append]
      exact congrArg (cutShort signal _) (hpolled'.run signal)
    · rw [hnever, hpolled'.progress]
      exact List.foldl_append.symm
    · rw [hnever] at h
      rw [hall' b u h]

/-- The same for a first part in two steps. -/
theorem bind_bind {γ : Type} {first : StopSignal → Action Progress α}
    {second : StopSignal → α → Action Progress β} {next : StopSignal → β → Action Progress γ}
    (hboth : Follows (fun signal => first signal >>= second signal) p items)
    (hnext : ∀ b t, Follows (fun signal => next signal b) t items') :
    Follows (fun signal => first signal >>= fun a => second signal a >>= next signal) p
      (items ++ items') := by
  have hassoc : (fun signal => first signal >>= fun a => second signal a >>= next signal) =
      fun signal => (first signal >>= second signal) >>= next signal := by
    funext signal
    rw [bind_assoc]
  rw [hassoc]
  exact hboth.bind fun b t _ => hnext b t

/-- Between the items results are computed. -/
theorem ofExcept_bind {result : Except Failure α} {next : StopSignal → α → Action Progress β}
    (hnext : ∀ a, result = .ok a → Follows (fun signal => next signal a) p items) :
    Follows (fun signal => Action.ofExcept result >>= next signal) p items := by
  refine (ofExcept result p).bind fun a t h => ?_
  obtain ⟨hresult, rfl⟩ := Action.runOn_ofExcept_eq_ok_iff.mp h
  exact hnext a hresult

/-- After the last item a result may be put together. -/
theorem bind_pure {act : StopSignal → Action Progress α} (h : Follows act p items) (f : α → β) :
    Follows (fun signal => act signal >>= fun a => Pure.pure (f a)) p items := by
  have hbind : Follows (fun signal => act signal >>= fun a => Pure.pure (f a)) p (items ++ []) :=
    h.bind fun a t _ => pure (f a) t
  rwa [List.append_nil] at hbind

theorem ite {condition : Prop} [Decidable condition] {yes no : StopSignal → Action Progress α}
    (hyes : Follows yes p items) (hno : Follows no p items) :
    Follows (fun signal => if condition then yes signal else no signal) p items := by
  by_cases h : condition
  · simp only [if_pos h]
    exact hyes
  · simp only [if_neg h]
    exact hno

/-- An item that is begun with or without a poll. -/
theorem item {act : StopSignal → Action Progress Unit} {item : WorkItem}
    (hrun : ∀ signal, (act signal).runOn p =
      if item.isPolled then (ensure (!signal (p.noting item)) .cancelled, (p.noting item).polled)
      else (.ok (), p.noting item)) : Follows act p [item] := by
  refine ⟨[item], List.prefix_rfl, ⟨fun signal => ?_, ?_⟩, fun _ _ _ => rfl⟩
  · rw [hrun, hrun, pollPoints, pollPoints]
    split
    · rw [cutShort, cutShort]
      rcases signal (p.noting item) with _ | _ <;> rfl
    · rfl
  · rw [hrun]
    show _ = p.after item
    unfold Progress.after
    split <;> rfl

end Follows

/-! ## The distance of polls -/

/-- The lookups an item takes. -/
def WorkItem.lookups : WorkItem → Nat
  | lookup _ _ => 1
  | _ => 0

theorem Progress.lookups_after (p : Progress) (item : WorkItem) :
    (p.after item).lookups = p.lookups + item.lookups := by
  unfold Progress.after
  cases item <;> split <;> rfl

/-- No poll comes before a lookup. -/
theorem WorkItem.lookups_of_isPolled {item : WorkItem} (h : item.isPolled = true) :
    item.lookups = 0 := by
  cases item with
  | lookup epoch position => nomatch h
  | _ => rfl

/-- The first of these items comes after so many lookups without a poll, and between two polls there
    are never more than 32. -/
def Spaced : Nat → List WorkItem → Prop
  | _, [] => True
  | passed, item :: items =>
    passed + item.lookups ≤ 32 ∧ Spaced (if item.isPolled then 0 else passed + item.lookups) items

namespace Spaced

/-- Fewer lookups since the last poll do no harm. -/
theorem mono (items : List WorkItem) :
    ∀ {passed fewer : Nat}, Spaced passed items → fewer ≤ passed → Spaced fewer items := by
  induction items with
  | nil => exact fun _ _ => trivial
  | cons item items ih =>
    intro passed fewer h hle
    obtain ⟨hfits, hrest⟩ := h
    constructor
    · omega
    · refine ih hrest ?_
      split <;> omega

/-- What is begun of spaced items is spaced. -/
theorem of_begun {begun items : List WorkItem} (h : begun <+: items) :
    ∀ {passed : Nat}, Spaced passed items → Spaced passed begun := by
  obtain ⟨rest, rfl⟩ := h
  induction begun with
  | nil => exact fun _ => trivial
  | cons item begun ih =>
    intro passed h
    exact ⟨h.1, ih h.2⟩

end Spaced

/-- A signal that is raised from the lookup with number `n` on is found raised within the next 31
    lookups: as long as it was not, fewer than `n` lookups had been made at the last poll. -/
theorem lookups_cutShort_le {α : Type} {signal : StopSignal} {n : Nat} (items : List WorkItem) :
    ∀ {p : Progress} {passed : Nat} {run : Except Failure α × Progress}, Spaced passed items →
      passed ≤ 32 → p.lookups + (32 - passed) ≤ n + 31 →
      (∀ q ∈ pollPoints p items, n ≤ q.lookups → signal q = true) →
      run.2 = progressAfter p items →
      (cutShort signal (pollPoints p items) run).2.lookups ≤ n + 31 := by
  induction items with
  | nil =>
    intro p passed run _ hpassed hbound _ hrun
    show run.2.lookups ≤ n + 31
    rw [hrun]
    show p.lookups ≤ n + 31
    omega
  | cons item items ih =>
    intro p passed run hspaced hpassed hbound hraised hrun
    obtain ⟨hfits, hrest⟩ := hspaced
    have hafter := p.lookups_after item
    rw [pollPoints] at hraised ⊢
    by_cases hpolled : item.isPolled = true
    · have hnone := WorkItem.lookups_of_isPolled hpolled
      have hseen : (p.noting item).lookups = p.lookups := by
        unfold Progress.after at hafter
        rw [if_pos hpolled, hnone] at hafter
        exact hafter
      rw [if_pos hpolled] at hraised hrest ⊢
      rw [cutShort]
      split
      · show (p.noting item).lookups ≤ n + 31
        omega
      · next hstop =>
        have hbefore : ¬ n ≤ (p.noting item).lookups :=
          fun h => hstop (hraised _ List.mem_cons_self h)
        exact ih hrest (by omega) (by omega)
          (fun q hq => hraised q (List.mem_cons_of_mem _ hq)) hrun
    · rw [if_neg hpolled] at hraised hrest ⊢
      exact ih hrest hfits (by omega) hraised hrun

end Beacon
