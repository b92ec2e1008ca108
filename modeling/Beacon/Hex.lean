/-
  Hexadecimal digits, and bytes written with them.

  A byte has two halves, the high one first, and each half is a digit.  Digits are written in lower
  case and read in either.  `readBytes?` wants digits alone; `readSpaced?` takes blanks anywhere
  among them, and undoes writing (`readSpaced?_writeBytes`).
-/
import Beacon.Blank

namespace Beacon.Hex

/-! ## Digits -/

/-- The digit of a value below sixteen. -/
def digit (value : Nat) : Char :=
  if value < 10 then Char.ofNat (48 + value) else Char.ofNat (87 + value)

/-- The value of a digit of either case. -/
def value? (c : Char) : Option Nat :=
  if '0' ≤ c ∧ c ≤ '9' then some (c.toNat - 48)
  else if 'a' ≤ c ∧ c ≤ 'f' then some (c.toNat - 87)
  else if 'A' ≤ c ∧ c ≤ 'F' then some (c.toNat - 55)
  else none

theorem value?_digit : ∀ v < 16, value? (digit v) = some v := by decide

theorem isBlank_digit : ∀ v < 16, isBlank (digit v) = false := by decide

/-! ## Halves of bytes -/

/-- The halves of every byte in turn. -/
def halves : List UInt8 → List Nat
  | [] => []
  | b :: bs => b.toNat / 16 :: b.toNat % 16 :: halves bs

/-- The bytes that have these halves; a last half without a partner makes none. -/
def ofHalves : List Nat → List UInt8
  | high :: low :: rest => UInt8.ofNat (16 * high + low) :: ofHalves rest
  | _ => []

theorem ofHalves_halves (bs : List UInt8) : ofHalves (halves bs) = bs := by
  induction bs with
  | nil => rfl
  | cons b bs ih =>
    have h : 16 * (b.toNat / 16) + b.toNat % 16 = b.toNat := by omega
    rw [halves, ofHalves, ih, h, UInt8.ofNat_toNat]

theorem length_halves (bs : List UInt8) : (halves bs).length = 2 * bs.length := by
  induction bs with
  | nil => rfl
  | cons b bs ih => simp only [halves, List.length_cons, ih]; omega

theorem lt_of_mem_halves {bs : List UInt8} {v : Nat} (hv : v ∈ halves bs) : v < 16 := by
  induction bs with
  | nil => simp [halves] at hv
  | cons b bs ih =>
    have hb : b.toNat < 256 := b.toNat_lt
    simp only [halves, List.mem_cons] at hv
    rcases hv with rfl | rfl | hv
    · omega
    · omega
    · exact ih hv

/-! ## Bytes -/

/-- Two digits a byte, the high half first. -/
def writeBytes (bytes : List UInt8) : List Char := (halves bytes).map digit

/-- The values of a text of digits. -/
def values? (cs : List Char) : Option (List Nat) := cs.mapM value?

/-- The bytes that an even number of digits stands for. -/
def readBytes? (cs : List Char) : Option (List UInt8) :=
  if cs.length % 2 = 0 then (values? cs).map ofHalves else none

/-- The bytes that digits with blanks among them stand for; a last digit without a partner stands
    for none. -/
def readSpaced? (cs : List Char) : Option (List UInt8) := (values? (dropBlanks cs)).map ofHalves

theorem values?_map_digit {vs : List Nat} (h : ∀ v ∈ vs, v < 16) :
    values? (vs.map digit) = some vs := by
  induction vs with
  | nil => rfl
  | cons v vs ih =>
    have hv := value?_digit v (h v List.mem_cons_self)
    have hvs := ih fun w hw => h w (List.mem_cons_of_mem v hw)
    simp only [values?] at hvs ⊢
    simp [hv, hvs]

theorem values?_writeBytes (bs : List UInt8) : values? (writeBytes bs) = some (halves bs) :=
  values?_map_digit fun _ => lt_of_mem_halves

theorem length_writeBytes (bs : List UInt8) : (writeBytes bs).length = 2 * bs.length := by
  rw [writeBytes, List.length_map, length_halves]

theorem dropBlanks_writeBytes (bs : List UInt8) : dropBlanks (writeBytes bs) = writeBytes bs := by
  rw [dropBlanks, List.filter_eq_self]
  intro c hc
  obtain ⟨v, hv, rfl⟩ := List.mem_map.mp hc
  rw [isBlank_digit v (lt_of_mem_halves hv)]
  rfl

theorem readSpaced?_writeBytes (bs : List UInt8) : readSpaced? (writeBytes bs) = some bs := by
  rw [readSpaced?, dropBlanks_writeBytes, values?_writeBytes, Option.map_some, ofHalves_halves]

end Beacon.Hex
