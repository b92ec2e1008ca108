/-
  Natural numbers in decimal.

  `digits n` is the shortest decimal text of `n`; `value? cs` is the number a nonempty run of
  decimal digits stands for, leading zeros allowed.  `value?_digits` : reading undoes writing.
-/

namespace Beacon.Decimal

/-- Is this one of the ten ASCII digits? -/
def isDigit (c : Char) : Bool := '0' ≤ c && c ≤ '9'

/-- The digit of a value below ten. -/
def digit (value : Nat) : Char := Char.ofNat (48 + value)

/-- The value of a digit. -/
def digitValue (c : Char) : Nat := c.toNat - 48

/-- The decimal digits of a number, without leading zeros. -/
def digits (n : Nat) : List Char :=
  if n < 10 then [digit n] else digits (n / 10) ++ [digit (n % 10)]
termination_by n
decreasing_by omega

/-- The number that a run of digits stands for, after digits that stand for `before`. -/
def valueFrom (before : Nat) : List Char → Nat
  | [] => before
  | c :: cs => valueFrom (10 * before + digitValue c) cs

/-- The number that a text stands for: at least one character, and nothing but digits. -/
def value? (cs : List Char) : Option Nat :=
  if cs ≠ [] ∧ cs.all isDigit then some (valueFrom 0 cs) else none

/-- The decimal text of a number. -/
def text (n : Nat) : String := String.ofList (digits n)

/-! ## Reading undoes writing -/

theorem isDigit_digit : ∀ v < 10, isDigit (digit v) = true := by decide

theorem digitValue_digit : ∀ v < 10, digitValue (digit v) = v := by decide

theorem valueFrom_append (before : Nat) (xs ys : List Char) :
    valueFrom before (xs ++ ys) = valueFrom (valueFrom before xs) ys := by
  induction xs generalizing before with
  | nil => rfl
  | cons x xs ih => exact ih _

theorem valueFrom_singleton (before : Nat) (c : Char) :
    valueFrom before [c] = 10 * before + digitValue c := rfl

theorem digits_ne_nil (n : Nat) : digits n ≠ [] := by
  unfold digits
  split <;> simp

theorem all_isDigit_digits (n : Nat) : (digits n).all isDigit = true := by
  fun_induction digits n with
  | case1 n h => simp [isDigit_digit n h]
  | case2 n h ih => simp [ih, isDigit_digit (n % 10) (Nat.mod_lt _ (by decide))]

theorem valueFrom_digits (n : Nat) : valueFrom 0 (digits n) = n := by
  fun_induction digits n with
  | case1 n h =>
    rw [valueFrom_singleton, digitValue_digit n h]
    omega
  | case2 n h ih =>
    rw [valueFrom_append, ih, valueFrom_singleton,
      digitValue_digit (n % 10) (Nat.mod_lt _ (by decide))]
    omega

theorem value?_digits (n : Nat) : value? (digits n) = some n := by
  rw [value?, if_pos ⟨digits_ne_nil n, all_isDigit_digits n⟩, valueFrom_digits]

end Beacon.Decimal
