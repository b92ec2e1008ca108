/-
  How the outcome of a composite step follows from the outcomes of its parts.

  Three ways to reason about an action from a starting value:
    * BACKWARDS from a success: a sequence succeeds only if each part does, each on what the one
      before it leaves behind (`runOn_bind_eq_ok_iff`);
    * SIDE BY SIDE with another: they have the same result if their parts do (`fst_bind_congr`);
    * FORWARDS whatever the ending: if every part stays within a transitive relation, so does the
      sequence, also when it fails half way (`StaysIn.bind`).
-/
import Beacon.State.Access

namespace Beacon

/-! ## Results without a state -/

theorem bind_eq_ok_iff {ε α β : Type} {first : Except ε α} {next : α → Except ε β} {b : β} :
    (first >>= next) = .ok b ↔ ∃ a, first = .ok a ∧ next a = .ok b := by
  cases first with
  | ok a =>
    constructor
    · intro h
      exact ⟨a, rfl, h⟩
    · rintro ⟨_, ha, h⟩
      cases ha
      exact h
  | error e =>
    constructor
    · intro h
      nomatch h
    · rintro ⟨_, ha, _⟩
      nomatch ha

theorem bind_eq_error_iff {ε α β : Type} {first : Except ε α} {next : α → Except ε β} {e : ε} :
    (first >>= next) = .error e ↔
      first = .error e ∨ ∃ a, first = .ok a ∧ next a = .error e := by
  cases first with
  | ok a =>
    constructor
    · intro h
      exact Or.inr ⟨a, rfl, h⟩
    · rintro (h | ⟨_, ha, h⟩)
      · nomatch h
      · cases ha
        exact h
  | error e' =>
    constructor
    · intro h
      cases h
      exact Or.inl rfl
    · rintro (h | ⟨_, ha, _⟩)
      · cases h
        rfl
      · nomatch ha

theorem map_eq_error_iff {ε α β : Type} {f : α → β} {result : Except ε α} {e : ε} :
    result.map f = .error e ↔ result = .error e := by
  rcases result with e' | a
  · show Except.error e' = Except.error e ↔ _
    rw [Except.error.injEq, Except.error.injEq]
  · exact ⟨fun h => (nomatch h), fun h => (nomatch h)⟩

theorem map_eq_ok_iff {ε α β : Type} {f : α → β} {result : Except ε α} {b : β} :
    result.map f = .ok b ↔ ∃ a, result = .ok a ∧ f a = b := by
  rcases result with e | a
  · exact ⟨fun h => (nomatch h), fun ⟨_, h, _⟩ => (nomatch h)⟩
  · constructor
    · intro h
      exact ⟨a, rfl, Except.ok.inj h⟩
    · rintro ⟨_, ha, rfl⟩
      cases ha
      rfl

@[simp]
theorem orFail_eq_ok_iff {α : Type} {failure : Failure} {option : Option α} {a : α} :
    orFail failure option = .ok a ↔ option = some a := by
  cases option <;> simp [orFail]

@[simp]
theorem ensure_eq_ok_iff {condition : Bool} {failure : Failure} {u : Unit} :
    ensure condition failure = .ok u ↔ condition = true := by
  cases condition <;> simp [ensure]

theorem ensure_eq_error_iff {condition : Bool} {failure failure' : Failure} :
    ensure condition failure = .error failure' ↔ condition = false ∧ failure = failure' := by
  cases condition <;> simp [ensure]

@[simp]
theorem mapError_eq_ok_iff {ε ε' α : Type} {f : ε → ε'} {result : Except ε α} {a : α} :
    result.mapError f = .ok a ↔ result = .ok a := by
  rcases result with _ | b
  · exact ⟨fun h => (nomatch h), fun h => (nomatch h)⟩
  · show Except.ok b = Except.ok a ↔ _
    rw [Except.ok.injEq, Except.ok.injEq]

/-- A filter whose test may fail is a filter if no test failed. -/
theorem filterM_eq_ok {ε α : Type} {test : α → Except ε Bool} {p : α → Bool}
    (hp : ∀ a b, test a = .ok b → b = p a) {list result : List α}
    (h : list.filterM test = .ok result) : result = list.filter p := by
  have haux : ∀ (list kept result : List α), list.filterAuxM test kept = .ok result →
      result = (list.filter p).reverse ++ kept := by
    intro list
    induction list with
    | nil =>
      intro kept result h
      cases h
      rfl
    | cons a list ih =>
      intro kept result h
      obtain ⟨b, hb, h⟩ := bind_eq_ok_iff.mp h
      rw [ih _ _ h, List.filter_cons, ← hp a b hb]
      cases b with
      | true =>
        rw [if_pos rfl, List.reverse_cons, List.append_assoc]
        rfl
      | false => rfl
  obtain ⟨kept, hkept, h⟩ := bind_eq_ok_iff.mp h
  cases h
  rw [haux _ _ _ hkept, List.append_nil, List.reverse_reverse]

namespace Action

variable {σ τ α β : Type}

/-! ## Backwards from a success -/

theorem runOn_bind_eq_ok_iff {first : Action σ α} {next : α → Action σ β} {s t : σ} {b : β} :
    (first >>= next).runOn s = (.ok b, t) ↔
      ∃ a u, first.runOn s = (.ok a, u) ∧ (next a).runOn u = (.ok b, t) := by
  rw [runOn_bind]
  rcases h : first.runOn s with ⟨_ | a, u⟩
  · constructor
    · intro hb
      nomatch hb
    · rintro ⟨_, _, ha, _⟩
      nomatch ha
  · constructor
    · intro hb
      exact ⟨a, u, rfl, hb⟩
    · rintro ⟨_, _, ha, hb⟩
      cases ha
      exact hb

theorem runOn_ofExcept_eq_ok_iff {result : Except Failure α} {s t : σ} {a : α} :
    (ofExcept result : Action σ α).runOn s = (.ok a, t) ↔ result = .ok a ∧ s = t := by
  rw [runOn_ofExcept, Prod.mk.injEq]

theorem runOn_pure_eq_ok_iff {a b : α} {s t : σ} :
    (pure a : Action σ α).runOn s = (.ok b, t) ↔ a = b ∧ s = t := by
  rw [runOn_pure, Prod.mk.injEq, Except.ok.injEq]

/-- An action on the first half of a pair succeeds as it does by itself. -/
theorem runOn_onFirst_eq_ok_iff {action : Action σ α} {s s' : σ} {t t' : τ} {a : α} :
    (onFirst action).runOn (s, t) = (.ok a, (s', t')) ↔
      action.runOn s = (.ok a, s') ∧ t = t' := by
  rw [runOn_onFirst]
  rcases action.runOn s with ⟨result, u⟩
  simp only [Prod.mk.injEq, and_assoc]

/-- An action on the second half of a pair leaves the first as it was. -/
theorem runOn_onSecond_eq_ok_iff {action : σ → Action τ α} {s s' : σ} {t t' : τ} {a : α} :
    (onSecond action).runOn (s, t) = (.ok a, (s', t')) ↔
      (action s).runOn t = (.ok a, t') ∧ s = s' := by
  rw [runOn_onSecond]
  rcases (action s).runOn t with ⟨result, u⟩
  simp only [Prod.mk.injEq]
  exact ⟨fun ⟨h, hs, ht⟩ => ⟨⟨h, ht⟩, hs⟩, fun ⟨⟨h, ht⟩, hs⟩ => ⟨h, hs, ht⟩⟩

/-- A run that is known to succeed has a result. -/
theorem exists_of_isOk {run : Except Failure α × σ} (h : run.1.isOk = true) :
    ∃ a t, run = (.ok a, t) := by
  obtain ⟨_ | a, t⟩ := run
  · nomatch h
  · exact ⟨a, t, rfl⟩

/-- The case of a run that gives nothing but its last state. -/
theorem eq_of_isOk {run : Except Failure Unit × σ} (h : run.1.isOk = true) :
    run = (.ok (), run.2) := by
  obtain ⟨_, t, hrun⟩ := exists_of_isOk h
  rw [hrun]

/-! ## Side by side -/

/-- Two sequences have the same result if their first parts do and, after a success of these, the
    rests do as well. -/
theorem fst_bind_congr {first first' : Action σ α} {next next' : α → Action σ β} {s s' : σ}
    (hfirst : (first.runOn s).1 = (first'.runOn s').1)
    (hnext : ∀ a t t', first.runOn s = (.ok a, t) → first'.runOn s' = (.ok a, t') →
      ((next a).runOn t).1 = ((next' a).runOn t').1) :
    ((first >>= next).runOn s).1 = ((first' >>= next').runOn s').1 := by
  rw [runOn_bind, runOn_bind]
  rcases h : first.runOn s with ⟨failure | a, t⟩
  · rcases h' : first'.runOn s' with ⟨failure' | a', t'⟩
    · rw [h, h'] at hfirst
      cases hfirst
      rfl
    · rw [h, h'] at hfirst
      nomatch hfirst
  · rcases h' : first'.runOn s' with ⟨failure' | a', t'⟩
    · rw [h, h'] at hfirst
      nomatch hfirst
    · rw [h, h'] at hfirst
      cases hfirst
      exact hnext a t t' h h'

/-- The case of one beginning for both. -/
theorem fst_bind_congr_rest {first : Action σ α} {next next' : α → Action σ β} {s : σ}
    (hnext : ∀ a t, first.runOn s = (.ok a, t) →
      ((next a).runOn t).1 = ((next' a).runOn t).1) :
    ((first >>= next).runOn s).1 = ((first >>= next').runOn s).1 := by
  refine fst_bind_congr rfl fun a t t' h h' => ?_
  obtain rfl : t = t' := congrArg Prod.snd (h.symm.trans h')
  exact hnext a t h

/-- The case of a result that is known. -/
theorem fst_bind_eq_ok {first : Action σ α} {next : α → Action σ β} {s : σ} {a : α} {b : β}
    (h : (first.runOn s).1 = .ok a) (hnext : ∀ t, ((next a).runOn t).1 = .ok b) :
    ((first >>= next).runOn s).1 = .ok b := by
  have hpure : ((pure a >>= fun _ => pure b : Action σ β).runOn s).1 = .ok b := rfl
  rw [← hpure]
  refine fst_bind_congr h fun a' t t' _ h' => ?_
  cases h'
  exact hnext t

/-! ## Forwards, whatever the ending -/

/-- What the action leaves behind is related to where it began, whether it succeeds or fails. -/
def StaysIn (R : σ → σ → Prop) (action : Action σ α) (s : σ) : Prop := R s (action.runOn s).2

/-- A sequence stays within a transitive relation if its first part does and, after a success of
    that part, the second does too. -/
theorem StaysIn.bind {R : σ → σ → Prop} (htrans : ∀ a b c, R a b → R b c → R a c)
    {first : Action σ α} {next : α → Action σ β} {s : σ} (hfirst : StaysIn R first s)
    (hnext : ∀ a t, first.runOn s = (.ok a, t) → StaysIn R (next a) t) :
    StaysIn R (first >>= next) s := by
  unfold StaysIn at hfirst ⊢
  rw [runOn_bind]
  rcases h : first.runOn s with ⟨_ | a, u⟩
  · rw [h] at hfirst
    exact hfirst
  · rw [h] at hfirst
    exact htrans _ _ _ hfirst (hnext a u h)

/-- The case of a first part that only looks: it has nothing to show for itself. -/
theorem StaysIn.bind_still {R : σ → σ → Prop} (hrefl : ∀ a, R a a)
    {first : Action σ α} {next : α → Action σ β} {s : σ} (hstill : (first.runOn s).2 = s)
    (hnext : ∀ a, first.runOn s = (.ok a, s) → StaysIn R (next a) s) :
    StaysIn R (first >>= next) s := by
  unfold StaysIn
  rw [runOn_bind]
  rcases h : first.runOn s with ⟨_ | a, u⟩
  · rw [h] at hstill
    obtain rfl : u = s := hstill
    exact hrefl u
  · rw [h] at hstill
    obtain rfl : u = s := hstill
    exact hnext a h

theorem StaysIn.of_runOn {R : σ → σ → Prop} {action : Action σ α} {s t : σ}
    {result : Except Failure α} (h : StaysIn R action s) (hrun : action.runOn s = (result, t)) :
    R s t := by
  unfold StaysIn at h
  rw [hrun] at h
  exact h

/-- On the first half of a pair an action stays where it stays by itself. -/
theorem StaysIn.snd_onFirst {R : σ → σ → Prop} {action : Action σ α} {s : σ} {t : τ}
    (h : StaysIn R action s) :
    StaysIn (fun p q : σ × τ => R p.1 q.1) (onFirst action) (s, t) := by
  unfold StaysIn at h ⊢
  rw [runOn_onFirst]
  exact h

end Action

end Beacon
