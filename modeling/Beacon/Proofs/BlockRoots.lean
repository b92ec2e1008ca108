/-
  Which roots of past blocks a state can tell.

  The ring of block roots has room for as many slots as it is long, and the entry of a slot is the
  one its successors a whole ring later overwrite.  So a root may only be read for the slots of a
  WINDOW (`Covered`): those before the slot of the state and no further back than the ring is long.
  The specification is in natural numbers.  The program counts in words, where a sum stops at the
  largest one; that makes no difference to the test, since no slot of a state is above it.

  Within the window no two slots share an entry (`Covered.eq_of_position`), so what is read is the
  root of the very slot asked for, if the ring holds the roots of the window at all
  (`State.Remembers`).
-/
import Mathlib.Data.Nat.ModEq
import Beacon.State.Memory
import Beacon.Time

namespace Beacon

/-! ## The window -/

/-- A slot in the past, no further back than the ring is long. -/
def Covered (config : Config) (now slot : Slot) : Prop :=
  slot.toNat < now.toNat ∧ now.toNat ≤ slot.toNat + config.slotsPerHistoricalRoot.val.toNat

instance (config : Config) (now slot : Slot) : Decidable (Covered config now slot) :=
  inferInstanceAs (Decidable (_ ∧ _))

/-- The window test of the program is the exact one. -/
theorem covered_iff {config : Config} {now slot : Slot} :
    (slot < now ∧ now ≤ Word.addSaturating slot config.slotsPerHistoricalRoot.val) ↔
      Covered config now slot := by
  unfold Covered
  rw [UInt64.lt_iff_toNat_lt, ← UInt64.not_lt, Word.addSaturating_lt_iff, Nat.not_lt]

/-- Two slots of the window that are a whole number of rings apart are the same. -/
theorem Covered.eq_of_mod_eq {config : Config} {now a b : Slot} (ha : Covered config now a)
    (hb : Covered config now b)
    (h : a.toNat % config.slotsPerHistoricalRoot.val.toNat =
      b.toNat % config.slotsPerHistoricalRoot.val.toNat) : a = b := by
  obtain ⟨hpastA, hreachA⟩ := ha
  obtain ⟨hpastB, hreachB⟩ := hb
  have hnear : |(b.toNat : Int) - a.toNat| < config.slotsPerHistoricalRoot.val.toNat := by
    rw [abs_lt]
    omega
  exact UInt64.toNat_inj.mp (Nat.ModEq.eq_of_abs_lt h hnear)

section

variable {σ : Type} [StateAccess σ] {config : Config} {s : σ}

theorem blockRootAtSlot_of_covered {slot : Slot} (h : Covered config (StateAccess.slot s) slot) :
    blockRootAtSlot config s slot =
      (StateAccess.blockRootEntry s slot).mapError Failure.access :=
  if_pos (covered_iff.mpr h)

theorem blockRootAtSlot_of_not_covered {slot : Slot}
    (h : ¬ Covered config (StateAccess.slot s) slot) :
    blockRootAtSlot config s slot = .error (.access (.slotOutOfRange slot)) :=
  if_neg fun c => h (covered_iff.mp c)

theorem covered_of_blockRootAtSlot {slot : Slot} {root : Root}
    (h : blockRootAtSlot config s slot = .ok root) :
    Covered config (StateAccess.slot s) slot := by
  by_contra hcovered
  rw [blockRootAtSlot_of_not_covered hcovered] at h
  nomatch h

/-! ## Where epochs begin -/

/-- The number of the previous or the current epoch at a slot. -/
def epochNumber (config : Config) (now : Slot) : RecentEpoch → Nat
  | .previous => now.toNat / config.slotsPerEpoch.val.toNat - 1
  | .current => now.toNat / config.slotsPerEpoch.val.toNat

theorem toNat_recentEpoch (epoch : RecentEpoch) :
    (recentEpoch config s epoch).toNat = epochNumber config (StateAccess.slot s) epoch := by
  have hcurrent : (currentEpoch config s).toNat =
      (StateAccess.slot s).toNat / config.slotsPerEpoch.val.toNat := Word.toNat_div ..
  cases epoch with
  | previous =>
    show (Word.subSaturating (currentEpoch config s) 1).toNat = _
    rw [Word.toNat_subSaturating, hcurrent]
    rfl
  | current => exact hcurrent

/-- The start of an epoch that has begun is a slot that has been reached, so it is a word. -/
theorem toNat_startSlot_of_le {epoch : Epoch} {now : Slot}
    (h : epoch.toNat ≤ now.toNat / config.slotsPerEpoch.val.toNat) :
    (startSlot config epoch).toNat = epoch.toNat * config.slotsPerEpoch.val.toNat := by
  have hreached : epoch.toNat * config.slotsPerEpoch.val.toNat ≤ now.toNat :=
    Nat.le_trans (Nat.mul_le_mul_right _ h) (Nat.div_mul_le_self ..)
  unfold startSlot
  rw [Word.toNat_mulSaturating]
  exact Nat.min_eq_left (Nat.le_trans hreached (Nat.le_sub_one_of_lt now.toNat_lt))

theorem epochNumber_le (now : Slot) (epoch : RecentEpoch) :
    epochNumber config now epoch ≤ now.toNat / config.slotsPerEpoch.val.toNat := by
  cases epoch with
  | previous => exact Nat.sub_le ..
  | current => exact Nat.le_refl _

/-- The start of the previous and of the current epoch is computed exactly. -/
theorem toNat_startSlot_recentEpoch (epoch : RecentEpoch) :
    (startSlot config (recentEpoch config s epoch)).toNat =
      epochNumber config (StateAccess.slot s) epoch * config.slotsPerEpoch.val.toNat := by
  have hle : epochNumber config (StateAccess.slot s) epoch ≤ _ := epochNumber_le _ epoch
  rw [← toNat_recentEpoch] at hle
  rw [toNat_startSlot_of_le hle, toNat_recentEpoch]

end

/-! ## The ring -/

/-- The ring has its full length and holds the roots that a history gives to the slots of the
    window. -/
structure State.Remembers (config : Config) (history : Slot → Root) (s : State) : Prop where
  size_eq : s.blockRoots.size = config.slotsPerHistoricalRoot.val.toNat
  entry : ∀ slot, Covered config s.slot slot →
    s.blockRoots[slot.toNat % config.slotsPerHistoricalRoot.val.toNat]? = some (history slot)

namespace State.Remembers

variable {config : Config} {history : Slot → Root} {s : State}

theorem ringPosition?_eq (h : Remembers config history s) (slot : Slot) :
    ringPosition? slot s.blockRoots.size =
      some (slot.toNat % config.slotsPerHistoricalRoot.val.toNat) := by
  have hpos := config.slotsPerHistoricalRoot.toNat_pos
  unfold ringPosition?
  rw [h.size_eq, if_neg (Nat.ne_of_gt hpos)]

/-- No two slots of the window share an entry. -/
theorem eq_of_position (h : Remembers config history s) {a b : Slot}
    (ha : Covered config s.slot a) (hb : Covered config s.slot b)
    (heq : ringPosition? a s.blockRoots.size = ringPosition? b s.blockRoots.size) : a = b := by
  rw [h.ringPosition?_eq, h.ringPosition?_eq, Option.some.injEq] at heq
  exact ha.eq_of_mod_eq hb heq

theorem blockRootAtSlot_eq (h : Remembers config history s) (slot : Slot) :
    blockRootAtSlot config s slot =
      if Covered config s.slot slot then .ok (history slot)
      else .error (.access (.slotOutOfRange slot)) := by
  split
  · next hcovered =>
    rw [blockRootAtSlot_of_covered hcovered]
    show (blockRootEntry s slot).mapError Failure.access = _
    unfold blockRootEntry
    rw [h.ringPosition?_eq, Option.bind_some, h.entry slot hcovered]
    rfl
  · next hcovered => exact blockRootAtSlot_of_not_covered hcovered

end State.Remembers

/-- Of a state whose ring holds the roots of the window:
    * the root of a slot is told exactly if the slot is in the window, and it is the root of that
      slot;
    * no two slots of the window share an entry;
    * the first slots of the previous and the current epoch are computed exactly, and the root
      told for an epoch is the one of its first slot, if that is in the window. -/
theorem blockRoots_window {config : Config} {history : Slot → Root} {s : State}
    (hring : s.Remembers config history) :
    (∀ slot, blockRootAtSlot config s slot =
      if Covered config s.slot slot then .ok (history slot)
      else .error (.access (.slotOutOfRange slot))) ∧
    (∀ a b, Covered config s.slot a → Covered config s.slot b →
      State.ringPosition? a s.blockRoots.size = State.ringPosition? b s.blockRoots.size → a = b) ∧
    ∀ epoch, ∃ first : Slot,
      first.toNat = epochNumber config s.slot epoch * config.slotsPerEpoch.val.toNat ∧
      startSlot config (recentEpoch config s epoch) = first ∧
      blockRoot config s epoch =
        if Covered config s.slot first then .ok (history first)
        else .error (.access (.slotOutOfRange first)) := by
  refine ⟨hring.blockRootAtSlot_eq, fun a b ha hb heq => hring.eq_of_position ha hb heq,
    fun epoch => ⟨_, toNat_startSlot_recentEpoch epoch, rfl, ?_⟩⟩
  exact hring.blockRootAtSlot_eq _

/-- Epochs of two slots, and a ring for as many. -/
def shortMemory : Config :=
  { Config.minimal with
    slotsPerEpoch := ⟨2, by decide⟩
    slotsPerHistoricalRoot := ⟨2, by decide⟩ }

/-- Every slot has a block whose root repeats the last byte of its number. -/
def repeatedRoot (slot : Slot) : Root := Vector.replicate 32 slot.toUInt8

/-- A state at the last slot there is.  The window before it wraps around in the ring, and the sum
    tested for the later one of its two slots is not a word. -/
def endOfTime : State :=
  { (default : State) with
    slot := Word.largest
    blockRoots := #[repeatedRoot 0xfe, repeatedRoot 0xfd] }

theorem blockRoots_window_endOfTime :
    endOfTime.Remembers shortMemory repeatedRoot ∧
    blockRootAtSlot shortMemory endOfTime (Word.largest - 2) =
      .ok (repeatedRoot (Word.largest - 2)) ∧
    blockRootAtSlot shortMemory endOfTime Word.largest =
      .error (.access (.slotOutOfRange Word.largest)) ∧
    blockRoot shortMemory endOfTime .current = .ok (repeatedRoot (Word.largest - 1)) ∧
    blockRoot shortMemory endOfTime .previous =
      .error (.access (.slotOutOfRange (Word.largest - 3))) := by
  have hring : endOfTime.Remembers shortMemory repeatedRoot := by
    refine ⟨rfl, fun slot hcovered => ?_⟩
    obtain ⟨hpast, hreach⟩ := hcovered
    change slot.toNat < 18446744073709551615 at hpast
    change 18446744073709551615 ≤ slot.toNat + 2 at hreach
    have hslots : slot = Word.largest - 2 ∨ slot = Word.largest - 1 := by
      simp only [← UInt64.toNat_inj]
      change slot.toNat = 18446744073709551613 ∨ slot.toNat = 18446744073709551614
      omega
    rcases hslots with rfl | rfl
    · rfl
    · rfl
  obtain ⟨hslot, -, hepoch⟩ := blockRoots_window hring
  obtain ⟨current, -, hcurrent, hcurrentRoot⟩ := hepoch .current
  obtain ⟨previous, -, hprevious, hpreviousRoot⟩ := hepoch .previous
  refine ⟨hring, ?_, ?_, ?_, ?_⟩
  · rw [hslot, if_pos (by decide)]
  · rw [hslot, if_neg (by decide)]
  · rw [hcurrentRoot, ← hcurrent]
    rfl
  · rw [hpreviousRoot, ← hprevious]
    rfl

end Beacon
