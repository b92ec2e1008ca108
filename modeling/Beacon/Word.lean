/-
  Sixty-four bit words: the arithmetic every balance, epoch and slot goes through.

  A word never wraps.  An operation that may leave the range comes in two forms: CHECKED
  (`addChecked`, `mulChecked`, `mulDivChecked` answer `none`) and SATURATING (`addSaturating`,
  `subSaturating`, `mulSaturating` stop at the ends of the range).  A `Divisor` is a word that
  is not zero, so division by one needs no check.

  The lemmas read each operation back through `toNat`: a checked result is the exact result.
-/

namespace Beacon

/-- One more than the largest word: two to the power of sixty-four. -/
def wordRange : Nat := 18446744073709551616

namespace Word

/-- The largest word. -/
def largest : UInt64 := 18446744073709551615

/-! ## Checked operations -/

/-- The word of a natural number, if it is one. -/
def ofNat? (n : Nat) : Option UInt64 :=
  if n < wordRange then some (UInt64.ofNat n) else none

/-- The sum, if it is a word. -/
def addChecked (a b : UInt64) : Option UInt64 := ofNat? (a.toNat + b.toNat)

/-- The product, if it is a word. -/
def mulChecked (a b : UInt64) : Option UInt64 := ofNat? (a.toNat * b.toNat)

/-- The difference, if it is a word. -/
def subChecked (a b : UInt64) : Option UInt64 := if b ≤ a then some (a - b) else none

/-! ## Saturating operations -/

/-- The sum, or the largest word. -/
def addSaturating (a b : UInt64) : UInt64 := (addChecked a b).getD largest

/-- The product, or the largest word. -/
def mulSaturating (a b : UInt64) : UInt64 := (mulChecked a b).getD largest

/-- The difference, or zero. -/
def subSaturating (a b : UInt64) : UInt64 := (subChecked a b).getD 0

/-! ## What they compute -/

theorem ofNat?_eq_some_iff {n : Nat} {w : UInt64} : ofNat? n = some w ↔ w.toNat = n := by
  unfold ofNat? wordRange
  constructor
  · intro h
    split at h
    · next hn => cases h; exact UInt64.toNat_ofNat_of_lt' hn
    · nomatch h
  · intro h
    have hw := w.toNat_lt
    rw [if_pos (by omega), ← h, UInt64.ofNat_toNat]

theorem ofNat?_eq_none_iff {n : Nat} : ofNat? n = none ↔ wordRange ≤ n := by
  unfold ofNat?
  split <;> simp <;> omega

theorem addChecked_eq_some_iff {a b w : UInt64} :
    addChecked a b = some w ↔ w.toNat = a.toNat + b.toNat := ofNat?_eq_some_iff

theorem addChecked_eq_none_iff {a b : UInt64} :
    addChecked a b = none ↔ wordRange ≤ a.toNat + b.toNat := ofNat?_eq_none_iff

theorem mulChecked_eq_some_iff {a b w : UInt64} :
    mulChecked a b = some w ↔ w.toNat = a.toNat * b.toNat := ofNat?_eq_some_iff

theorem mulChecked_eq_none_iff {a b : UInt64} :
    mulChecked a b = none ↔ wordRange ≤ a.toNat * b.toNat := ofNat?_eq_none_iff

theorem subChecked_eq_some_iff {a b w : UInt64} :
    subChecked a b = some w ↔ b.toNat ≤ a.toNat ∧ w.toNat = a.toNat - b.toNat := by
  unfold subChecked
  split
  · next h =>
    have hsub := UInt64.toNat_sub_of_le a b h
    rw [Option.some.injEq, ← UInt64.toNat_inj, hsub]
    exact ⟨fun hw => ⟨UInt64.le_iff_toNat_le.mp h, hw.symm⟩, fun hw => hw.2.symm⟩
  · next h =>
    exact ⟨fun hw => (nomatch hw), fun hw => absurd (UInt64.le_iff_toNat_le.mpr hw.1) h⟩

/-- A result kept in the range is the smaller of the exact one and the largest word. -/
theorem toNat_getD_ofNat? (n : Nat) :
    ((ofNat? n).getD largest).toNat = min n (wordRange - 1) := by
  rcases h : ofNat? n with _ | w
  · rw [ofNat?_eq_none_iff] at h
    rw [Nat.min_eq_right (Nat.le_trans (Nat.sub_le wordRange 1) h)]
    rfl
  · rw [ofNat?_eq_some_iff] at h
    rw [Option.getD_some, h, Nat.min_eq_left (Nat.le_sub_one_of_lt (h ▸ w.toNat_lt))]

theorem toNat_addSaturating (a b : UInt64) :
    (addSaturating a b).toNat = min (a.toNat + b.toNat) (wordRange - 1) :=
  toNat_getD_ofNat? _

theorem toNat_mulSaturating (a b : UInt64) :
    (mulSaturating a b).toNat = min (a.toNat * b.toNat) (wordRange - 1) :=
  toNat_getD_ofNat? _

/-- A word is above a saturated sum exactly if it is above the exact one. -/
theorem addSaturating_lt_iff {a b c : UInt64} :
    addSaturating a b < c ↔ a.toNat + b.toNat < c.toNat := by
  have hc : c.toNat ≤ wordRange - 1 := Nat.le_sub_one_of_lt c.toNat_lt
  rw [UInt64.lt_iff_toNat_lt, toNat_addSaturating]
  omega

/-- Saturating subtraction is subtraction of natural numbers. -/
theorem toNat_subSaturating (a b : UInt64) :
    (subSaturating a b).toNat = a.toNat - b.toNat := by
  unfold subSaturating subChecked
  split
  · next h => exact UInt64.toNat_sub_of_le a b h
  · next h =>
    have h' : ¬ b.toNat ≤ a.toNat := fun c => h (UInt64.le_iff_toNat_le.mpr c)
    show (0 : UInt64).toNat = _
    rw [show (0 : UInt64).toNat = 0 from rfl]
    omega

theorem toNat_max (a b : UInt64) : (max a b).toNat = max a.toNat b.toNat := by
  show (if a ≤ b then b else a).toNat = if a.toNat ≤ b.toNat then b.toNat else a.toNat
  simp only [UInt64.le_iff_toNat_le]
  split <;> rfl

end Word

/-! ## Divisors -/

/-- A word that is not zero. -/
structure Divisor where
  val : UInt64
  ne_zero : val ≠ 0
deriving DecidableEq

namespace Divisor

/-- The smallest divisor. -/
def one : Divisor := ⟨1, by decide⟩

instance : Inhabited Divisor := ⟨one⟩

/-- The divisor with this value, if the value is not zero. -/
def ofWord? (w : UInt64) : Option Divisor := if h : w ≠ 0 then some ⟨w, h⟩ else none

theorem ofWord?_eq_some_iff {w : UInt64} {d : Divisor} : ofWord? w = some d ↔ d.val = w := by
  unfold ofWord?
  constructor
  · intro h
    split at h
    · cases h; rfl
    · nomatch h
  · rintro rfl
    rw [dif_pos d.ne_zero]

theorem toNat_pos (d : Divisor) : 0 < d.val.toNat := by
  have h : d.val.toNat ≠ 0 := fun c => d.ne_zero (UInt64.toNat_inj.mp c)
  omega

end Divisor

namespace Word

/-- `a / d`, which always exists. -/
def div (a : UInt64) (d : Divisor) : UInt64 := a / d.val

/-- `value` raised to at least `floor`; the result can be divided by. -/
def raiseTo (value : UInt64) (floor : Divisor) : Divisor :=
  if h : floor.val ≤ value then
    ⟨value, fun hz => floor.ne_zero (UInt64.le_antisymm (hz ▸ h) UInt64.zero_le)⟩
  else floor

/-- `value * multiplier / divisor`, if the product is a word. -/
def mulDivChecked (value multiplier : UInt64) (divisor : Divisor) : Option UInt64 :=
  (mulChecked value multiplier).map (div · divisor)

@[simp]
theorem toNat_div (a : UInt64) (d : Divisor) : (div a d).toNat = a.toNat / d.val.toNat :=
  UInt64.toNat_div a d.val

theorem mulDivChecked_eq_some_iff {value multiplier w : UInt64} {divisor : Divisor} :
    mulDivChecked value multiplier divisor = some w ↔
      value.toNat * multiplier.toNat < wordRange ∧
        w.toNat = value.toNat * multiplier.toNat / divisor.val.toNat := by
  unfold mulDivChecked
  rw [Option.map_eq_some_iff]
  constructor
  · rintro ⟨product, hproduct, rfl⟩
    rw [mulChecked_eq_some_iff] at hproduct
    rw [toNat_div, ← hproduct]
    exact ⟨product.toNat_lt, rfl⟩
  · rintro ⟨hlt, hw⟩
    have hproduct : (UInt64.ofNat (value.toNat * multiplier.toNat)).toNat =
        value.toNat * multiplier.toNat := UInt64.toNat_ofNat_of_lt' hlt
    refine ⟨_, mulChecked_eq_some_iff.mpr hproduct, UInt64.toNat_inj.mp ?_⟩
    rw [toNat_div, hproduct, hw]

theorem toNat_raiseTo (value : UInt64) (floor : Divisor) :
    (raiseTo value floor).val.toNat = Nat.max value.toNat floor.val.toNat := by
  unfold raiseTo
  split
  · next h => exact (Nat.max_eq_left (UInt64.le_iff_toNat_le.mp h)).symm
  · next h =>
    exact (Nat.max_eq_right
      (Nat.le_of_not_le fun c => h (UInt64.le_iff_toNat_le.mpr c))).symm

/-! ## Square roots -/

/-- The largest `r ≤ lo + width` with `r * r ≤ n`, given that `lo * lo ≤ n`: bisection on the
    interval. -/
def sqrtBetween (n : Nat) (lo width : Nat) : Nat :=
  if width = 0 then lo
  else
    let half := (width + 1) / 2
    if (lo + half) * (lo + half) ≤ n then sqrtBetween n (lo + half) (width - half)
    else sqrtBetween n lo (half - 1)
termination_by width
decreasing_by all_goals omega

/-- No word has a larger square root: two to the power of thirty-two. -/
def sqrtRange : Nat := 4294967296

/-- The integer part of the square root of a natural number that is a word. -/
def natSqrt (n : Nat) : Nat := sqrtBetween n 0 sqrtRange

theorem sqrtBetween_spec (n lo width : Nat) (hlo : lo * lo ≤ n)
    (hhi : n < (lo + width + 1) * (lo + width + 1)) :
    sqrtBetween n lo width * sqrtBetween n lo width ≤ n ∧
      n < (sqrtBetween n lo width + 1) * (sqrtBetween n lo width + 1) := by
  fun_induction sqrtBetween n lo width with
  | case1 lo => exact ⟨hlo, by simpa using hhi⟩
  | case2 lo width hw half hle ih =>
    refine ih hle ?_
    rwa [show lo + half + (width - half) + 1 = lo + width + 1 by omega]
  | case3 lo width hw half hgt ih =>
    refine ih hlo ?_
    have : lo + (half - 1) + 1 = lo + half := by omega
    rw [this]
    omega

theorem natSqrt_spec (n : Nat) (h : n < wordRange) :
    natSqrt n * natSqrt n ≤ n ∧ n < (natSqrt n + 1) * (natSqrt n + 1) := by
  refine sqrtBetween_spec n 0 sqrtRange (Nat.zero_le _) (Nat.lt_of_lt_of_le h ?_)
  unfold wordRange sqrtRange
  omega

theorem natSqrt_pos (n : Nat) (h : n < wordRange) (hn : 0 < n) : 0 < natSqrt n := by
  have := (natSqrt_spec n h).2
  rcases Nat.eq_zero_or_pos (natSqrt n) with hz | hp
  · rw [hz] at this; omega
  · exact hp

theorem natSqrt_lt (n : Nat) (h : n < wordRange) : natSqrt n < wordRange := by
  have h1 := (natSqrt_spec n h).1
  have h2 : natSqrt n ≤ natSqrt n * natSqrt n := Nat.le_mul_self _
  omega

/-- The integer part of the square root of a divisor, which is a divisor again. -/
def sqrt (d : Divisor) : Divisor :=
  ⟨UInt64.ofNat (natSqrt d.val.toNat), fun hz => by
    have hr := d.val.toNat_lt
    have hlt := natSqrt_lt d.val.toNat hr
    have hpos := natSqrt_pos d.val.toNat hr d.toNat_pos
    have := congrArg UInt64.toNat hz
    rw [UInt64.toNat_ofNat_of_lt' hlt] at this
    have h0 : (0 : UInt64).toNat = 0 := rfl
    omega⟩

theorem toNat_sqrt (d : Divisor) : (sqrt d).val.toNat = natSqrt d.val.toNat :=
  UInt64.toNat_ofNat_of_lt' (natSqrt_lt _ d.val.toNat_lt)

end Word

end Beacon
