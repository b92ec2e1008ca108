/-
  Reading a text undoes writing it.

  A value is read back from its own text whatever follows, provided what follows cannot be taken
  for more of the value (`Stops`).  Only a number is in danger of that: every other text has an end
  of its own.  The induction is on the value, in the form of `IsPlain`: the values whose numbers are
  all natural ones, which is what is ever written here.

  The reader of values runs on fuel.  Two units for each character of the value's text are enough
  (`readValue_write`): a value inside an array or an object costs one unit for its own level and one
  for the list around it, and the bracket or the comma before it is a character that is not its own.
-/
import Beacon.Json.Reader
import Beacon.Json.Writer

namespace Beacon.Json

/-! ## Strings -/

/-- A control character is spelt with the two halves of its number. -/
theorem unit?_control {n : Nat} (h : n < 32) :
    unit? '0' '0' (Hex.digit (n / 16)) (Hex.digit (n % 16)) = some n := by
  have hzero : Hex.value? '0' = some 0 := rfl
  have hhigh := Hex.value?_digit (n / 16) (by omega)
  have hlow := Hex.value?_digit (n % 16) (by omega)
  simp only [unit?, hzero, hhigh, hlow, Option.bind_eq_bind, Option.bind_some, Option.some.injEq]
  omega

/-- A character that stands for itself in a string literal. -/
theorem readUnits_cons {c : Char} (cs : List Char) (hquote : c ≠ '"') (hslash : c ≠ '\\')
    (hcontrol : ¬ c.toNat < 32) :
    readUnits (c :: cs) = (readUnits cs).map fun read => (c.toNat :: read.1, read.2) := by
  rw [readUnits, if_neg hcontrol]
  · cases readUnits cs <;> rfl
  · exact hquote
  · rintro a b c' d rest rfl
    exact absurd rfl hslash
  · rintro c' rest rfl
    exact absurd rfl hslash

/-- A backslash and the letter of a character. -/
theorem readUnits_unescape {letter : Char} {unit : Nat} (cs : List Char)
    (h : unescape? letter = some unit) :
    readUnits ('\\' :: letter :: cs) =
      (readUnits cs).map fun read => (unit :: read.1, read.2) := by
  rw [readUnits, h]
  · cases readUnits cs <;> rfl
  · -- four digits would follow a letter that stands for no character
    rintro a b c d rest rfl
    nomatch h

/-- However a character is escaped, it is read as one unit. -/
theorem readUnits_escape (c : Char) (cs : List Char) :
    readUnits (escape c ++ cs) =
      (readUnits cs).map fun read => (c.toNat :: read.1, read.2) := by
  unfold escape
  split
  · next h => subst h; exact readUnits_unescape cs rfl
  split
  · next h => subst h; exact readUnits_unescape cs rfl
  split
  · next h => subst h; exact readUnits_unescape cs rfl
  split
  · next h => subst h; exact readUnits_unescape cs rfl
  split
  · next h => subst h; exact readUnits_unescape cs rfl
  split
  · next h => rw [h]; exact readUnits_unescape cs rfl
  split
  · next h => rw [h]; exact readUnits_unescape cs rfl
  split
  · next h =>
    simp only [List.cons_append, List.nil_append, readUnits, unit?_control h]
    cases readUnits cs <;> rfl
  · next hquote hslash _ _ _ _ _ hcontrol => exact readUnits_cons cs hquote hslash hcontrol

/-- A text in quotes is read up to the closing one. -/
theorem readUnits_flatMap_escape (text rest : List Char) :
    readUnits (text.flatMap escape ++ '"' :: rest) = some (text.map Char.toNat, rest) := by
  induction text with
  | nil => simp [readUnits]
  | cons c text ih =>
    rw [List.flatMap_cons, List.append_assoc, readUnits_escape, ih, Option.map_some, List.map_cons]

/-- No character is a surrogate. -/
theorem not_surrogate (c : Char) :
    isHighSurrogate c.toNat = false ∧ isLowSurrogate c.toNat = false := by
  have hvalid : c.toNat < 0xD800 ∨ 0xDFFF < c.toNat ∧ c.toNat < 0x110000 := c.valid
  constructor
  · simp only [isHighSurrogate, Bool.and_eq_false_iff, decide_eq_false_iff_not]
    omega
  · simp only [isLowSurrogate, Bool.and_eq_false_iff, decide_eq_false_iff_not]
    omega

theorem joinUnits_cons (c : Char) (units : List Nat) :
    joinUnits (c.toNat :: units) = (joinUnits units).map (c :: ·) := by
  obtain ⟨hhigh, hlow⟩ := not_surrogate c
  cases units <;> simp [joinUnits, hhigh, hlow]

theorem joinUnits_toNat (text : List Char) : joinUnits (text.map Char.toNat) = some text := by
  induction text with
  | nil => rfl
  | cons c text ih => rw [List.map_cons, joinUnits_cons, ih, Option.map_some]

/-- A string literal after its opening quote, with or without a text. -/
theorem readString_writeString (text : Option String) (rest : List Char) :
    ∃ body, writeString text = '"' :: body ∧ readString (body ++ rest) = some (text, rest) := by
  cases text with
  | none => exact ⟨_, rfl, rfl⟩
  | some text =>
    refine ⟨_, rfl, ?_⟩
    simp only [List.append_assoc, List.singleton_append, readString, readUnits_flatMap_escape,
      Option.map_some, joinUnits_toNat, String.ofList_toList]

/-! ## Numbers -/

/-- What may come after a value: the end of the text, or a character that no value goes on with. -/
def Stops (rest : List Char) : Prop := ∀ c ∈ rest.head?, c = ',' ∨ c = ']' ∨ c = '\x7d'

theorem stops_nil : Stops [] := nofun

theorem stops_cons {c : Char} (rest : List Char) (h : c = ',' ∨ c = ']' ∨ c = '\x7d') :
    Stops (c :: rest) := by
  intro d hd
  cases hd
  exact h

/-- The text of a number starts with a digit. -/
theorem exists_digits_eq_cons (n : Nat) :
    ∃ c cs, Decimal.digits n = c :: cs ∧ Decimal.isDigit c = true := by
  obtain ⟨c, cs, h⟩ := List.exists_cons_of_ne_nil (Decimal.digits_ne_nil n)
  have hall := Decimal.all_isDigit_digits n
  rw [h, List.all_cons, Bool.and_eq_true] at hall
  exact ⟨c, cs, h, hall.1⟩

/-- Only the text of zero starts with a zero. -/
theorem eq_nil_of_digits_eq_zero_cons {n : Nat} {cs : List Char}
    (h : Decimal.digits n = '0' :: cs) : cs = [] := by
  induction n using Decimal.digits.induct generalizing cs with
  | case1 n hn =>
    rw [Decimal.digits, if_pos hn, List.cons.injEq] at h
    exact h.2.symm
  | case2 n hn ih =>
    obtain ⟨c, front, hfront, -⟩ := exists_digits_eq_cons (n / 10)
    rw [Decimal.digits, if_neg hn, hfront, List.cons_append, List.cons.injEq] at h
    obtain ⟨rfl, -⟩ := h
    -- the digits before the last one are a zero alone, so the number is below ten
    have hvalue := Decimal.valueFrom_digits (n / 10)
    rw [hfront, ih hfront] at hvalue
    have hzero : Decimal.valueFrom 0 ['0'] = 0 := rfl
    omega

/-- What no number goes on with: the end of the text, or a character that is neither a digit nor a
    point nor the mark of an exponent. -/
def EndsNumber (rest : List Char) : Prop :=
  ∀ c ∈ rest.head?, Decimal.isDigit c = false ∧ c ≠ '.' ∧ c ≠ 'e' ∧ c ≠ 'E'

theorem Stops.endsNumber {rest : List Char} (h : Stops rest) : EndsNumber rest := by
  intro c hc
  rcases h c hc with rfl | rfl | rfl <;> decide

/-- Digits as they stand in a number: there is one, and a zero comes first only if it is alone. -/
structure IsWhole (digits : List Char) : Prop where
  nonempty : digits ≠ []
  isDigit : ∀ c ∈ digits, Decimal.isDigit c = true
  leadingZero : digits.head? = some '0' → digits = ['0']

theorem isWhole_digits (n : Nat) : IsWhole (Decimal.digits n) := by
  refine ⟨Decimal.digits_ne_nil n, List.all_eq_true.mp (Decimal.all_isDigit_digits n), ?_⟩
  intro hzero
  obtain ⟨cs, hcs⟩ := List.head?_eq_some_iff.mp hzero
  rw [hcs, eq_nil_of_digits_eq_zero_cons hcs]

section

variable {digits rest : List Char}

theorem spanDigits_append (hdigits : ∀ c ∈ digits, Decimal.isDigit c = true)
    (hrest : EndsNumber rest) : spanDigits (digits ++ rest) = (digits, rest) := by
  unfold spanDigits
  rw [List.takeWhile_append_of_pos hdigits, List.dropWhile_append_of_pos hdigits]
  cases rest with
  | nil => simp
  | cons c rest =>
    have hc := (hrest c rfl).1
    simp [hc]

theorem readWhole_append (h : IsWhole digits) (hrest : EndsNumber rest) :
    readWhole (digits ++ rest) = some (digits, rest) := by
  obtain ⟨c, cs, rfl⟩ := List.exists_cons_of_ne_nil h.nonempty
  have hread : readDigits (c :: cs ++ rest) = some (c :: cs, rest) := by
    rw [readDigits, spanDigits_append h.isDigit hrest]
  rw [readWhole, hread]
  split
  · next heq =>
    -- a zero with more digits after it is no text of a number
    cases heq
    nomatch h.leadingZero rfl
  · rfl

theorem readFraction_of_endsNumber (hrest : EndsNumber rest) :
    readFraction rest = some ([], rest) := by
  unfold readFraction
  split
  · exact absurd rfl (hrest _ rfl).2.1
  · rfl

theorem readExponent_of_endsNumber (hrest : EndsNumber rest) :
    readExponent rest = some ([], rest) := by
  unfold readExponent
  split
  · rfl
  · next c cs =>
    obtain ⟨-, -, hlower, hupper⟩ := hrest c rfl
    rw [if_neg (by simp [hlower, hupper])]

theorem readNumber_append (h : IsWhole digits) (hrest : EndsNumber rest) :
    readNumber (digits ++ rest) = some (natural (Decimal.valueFrom 0 digits), rest) := by
  have hminus : readMinus (digits ++ rest) = ([], digits ++ rest) := by
    obtain ⟨c, cs, rfl⟩ := List.exists_cons_of_ne_nil h.nonempty
    rw [List.cons_append]
    unfold readMinus
    split
    · next heq =>
      cases heq
      nomatch h.isDigit '-' List.mem_cons_self
    · rfl
  simp [readNumber, hminus, readWhole_append h hrest, readFraction_of_endsNumber hrest,
    readExponent_of_endsNumber hrest]

theorem readNumber_digits (hrest : Stops rest) (n : Nat) :
    readNumber (Decimal.digits n ++ rest) = some (natural n, rest) := by
  rw [readNumber_append (isWhole_digits n) hrest.endsNumber, Decimal.valueFrom_digits]

end

/-! ## Values -/

/-- Values whose numbers are natural ones. -/
inductive IsPlain : Json → Prop
  | null : IsPlain null
  | bool (value : Bool) : IsPlain (bool value)
  | natural (value : Nat) : IsPlain (natural value)
  | string (text : Option String) : IsPlain (string text)
  | array (items : List Json) (h : ∀ item ∈ items, IsPlain item) : IsPlain (array items)
  | object (members : List (Option String × Json)) (h : ∀ member ∈ members, IsPlain member.2) :
      IsPlain (object members)

theorem skipBlanks_cons {c : Char} (cs : List Char) (h : isBlank c = false) :
    skipBlanks (c :: cs) = c :: cs := by
  rw [skipBlanks, List.dropWhile_cons_of_neg (by rw [h]; decide)]

theorem ne_of_isDigit {c d : Char} (hc : Decimal.isDigit c = true)
    (hd : Decimal.isDigit d = false) : c ≠ d := by
  rintro rfl
  rw [hc] at hd
  nomatch hd

theorem isBlank_of_isDigit {c : Char} (h : Decimal.isDigit c = true) : isBlank c = false := by
  have hspace : c ≠ ' ' := ne_of_isDigit h rfl
  have htab : c ≠ '\t' := ne_of_isDigit h rfl
  have hfeed : c ≠ '\n' := ne_of_isDigit h rfl
  have hreturn : c ≠ '\r' := ne_of_isDigit h rfl
  simp [isBlank, hspace, htab, hfeed, hreturn]

/-- A text starts with a character that is neither a blank nor the end of an array. -/
theorem exists_write_eq_cons {v : Json} (h : IsPlain v) :
    ∃ c cs, write v = c :: cs ∧ isBlank c = false ∧ c ≠ ']' := by
  cases h with
  | null => exact ⟨_, _, rfl, rfl, by decide⟩
  | bool value => cases value <;> exact ⟨_, _, rfl, rfl, by decide⟩
  | natural value =>
    obtain ⟨c, cs, hcons, hdigit⟩ := exists_digits_eq_cons value
    exact ⟨c, cs, by rw [write, hcons], isBlank_of_isDigit hdigit, ne_of_isDigit hdigit rfl⟩
  | string text => cases text <;> exact ⟨_, _, rfl, rfl, by decide⟩
  | array items _ => exact ⟨_, _, by rw [write], rfl, by decide⟩
  | object members _ => exact ⟨_, _, by rw [write], rfl, by decide⟩

/-- The value is read back from its text, whatever follows, with two units of fuel for each
    character. -/
def ReadsBack (v : Json) : Prop :=
  ∀ (fuel : Nat) (rest : List Char), 2 * (write v).length ≤ fuel → Stops rest →
    readValue fuel (write v ++ rest) = some (v, rest)

/-- There is fuel for a value whose text has at least one character. -/
theorem exists_fuel_eq_succ {n fuel : Nat} (h : 2 * (n + 1) ≤ fuel) : ∃ f, fuel = f + 1 :=
  ⟨fuel - 1, by omega⟩

/-! ### Values without values in them -/

theorem readsBack_null : ReadsBack null := by
  intro fuel rest hfuel _
  obtain ⟨fuel, rfl⟩ := exists_fuel_eq_succ hfuel
  rfl

theorem readsBack_bool (value : Bool) : ReadsBack (bool value) := by
  intro fuel rest hfuel _
  cases value with
  | false =>
    obtain ⟨fuel, rfl⟩ := exists_fuel_eq_succ hfuel
    rfl
  | true =>
    obtain ⟨fuel, rfl⟩ := exists_fuel_eq_succ hfuel
    rfl

/-- A text that starts with a digit is the text of a number. -/
theorem readValue_digit {c : Char} (fuel : Nat) (cs : List Char) (h : Decimal.isDigit c = true) :
    readValue (fuel + 1) (c :: cs) = readNumber (c :: cs) := by
  rw [readValue, skipBlanks_cons _ (isBlank_of_isDigit h)]
  split <;> first | rfl | (next h' => cases h'; nomatch h)

theorem readsBack_natural (value : Nat) : ReadsBack (natural value) := by
  intro fuel rest hfuel hrest
  obtain ⟨c, cs, hcons, hdigit⟩ := exists_digits_eq_cons value
  rw [write] at hfuel ⊢
  have hread := readNumber_digits hrest value
  rw [hcons] at hfuel hread ⊢
  obtain ⟨fuel, rfl⟩ := exists_fuel_eq_succ hfuel
  rw [List.cons_append, readValue_digit fuel _ hdigit]
  exact hread

theorem readsBack_string (text : Option String) : ReadsBack (string text) := by
  intro fuel rest hfuel _
  obtain ⟨body, hbody, hread⟩ := readString_writeString text rest
  rw [write, hbody] at hfuel ⊢
  obtain ⟨fuel, rfl⟩ := exists_fuel_eq_succ hfuel
  have hquote : readValue (fuel + 1) ('"' :: (body ++ rest)) =
      (readString (body ++ rest)).map fun read => (string read.1, read.2) := rfl
  rw [List.cons_append, hquote, hread, Option.map_some]

/-! ### Arrays -/

theorem writeSeparated_singleton (item : List Char) : writeSeparated [item] = item := by
  simp [writeSeparated, writeTail]

theorem writeSeparated_cons_cons (item item' : List Char) (items : List (List Char)) :
    writeSeparated (item :: item' :: items) = item ++ ',' :: writeSeparated (item' :: items) := by
  simp [writeSeparated, writeTail]

theorem readItems_write (item : Json) (items : List Json) (rest : List Char)
    (h : ∀ v ∈ item :: items, ReadsBack v) :
    ∀ fuel, 2 * (writeSeparated (writeItems (item :: items))).length + 1 ≤ fuel →
      readItems fuel (writeSeparated (writeItems (item :: items)) ++ ']' :: rest) =
        some (item :: items, rest) := by
  induction items generalizing item with
  | nil =>
    intro fuel hfuel
    obtain ⟨fuel, rfl⟩ := Nat.exists_eq_add_one.mpr (show 0 < fuel by omega)
    simp only [writeItems, writeSeparated_singleton] at hfuel ⊢
    rw [readItems, h item List.mem_cons_self fuel _ (by omega) (stops_cons _ (by decide))]
    rfl
  | cons item' items ih =>
    intro fuel hfuel
    obtain ⟨fuel, rfl⟩ := Nat.exists_eq_add_one.mpr (show 0 < fuel by omega)
    have hlater := ih item' (fun v hv => h v (List.mem_cons_of_mem item hv)) fuel
    simp only [writeItems, writeSeparated_cons_cons, List.length_append, List.length_cons]
      at hfuel hlater ⊢
    rw [readItems, List.append_assoc, List.cons_append,
      h item List.mem_cons_self fuel _ (by omega) (stops_cons _ (by decide))]
    simp [skipBlanks_cons, isBlank, hlater (by omega)]

/-- An array that does not end where it begins has items. -/
theorem readValue_bracket {c : Char} (fuel : Nat) (cs : List Char) (hblank : isBlank c = false)
    (hend : c ≠ ']') :
    readValue (fuel + 1) ('[' :: c :: cs) =
      (readItems fuel (c :: cs)).map fun read => (array read.1, read.2) := by
  rw [readValue, skipBlanks_cons _ (by rfl)]
  simp only [skipBlanks_cons _ hblank]
  split
  · next h => exact absurd (List.cons.inj h).1 hend
  · rfl

theorem readsBack_array {items : List Json} (hplain : ∀ item ∈ items, IsPlain item)
    (h : ∀ item ∈ items, ReadsBack item) : ReadsBack (array items) := by
  intro fuel rest hfuel _
  rw [write] at hfuel ⊢
  obtain ⟨fuel, rfl⟩ := exists_fuel_eq_succ hfuel
  cases items with
  | nil => rfl
  | cons item items =>
    obtain ⟨c, cs, hcons, hblank, hend⟩ := exists_write_eq_cons (hplain item List.mem_cons_self)
    have hread := readItems_write item items rest h fuel (by
      rw [List.length_cons, List.length_append, List.length_singleton] at hfuel
      omega)
    rw [List.cons_append, List.append_assoc, List.singleton_append]
    rw [writeItems, writeSeparated, hcons, List.cons_append, List.cons_append] at hread ⊢
    rw [readValue_bracket fuel _ hblank hend, hread, Option.map_some]

/-! ### Objects -/

section

variable {value : Json} (hvalue : ReadsBack value) {fuel : Nat}
  (hfuel : 2 * (write value).length ≤ fuel)

include hvalue hfuel

theorem readMembers_last (key : Option String) (rest : List Char) :
    readMembers (fuel + 1) (writeString key ++ ':' :: (write value ++ '\x7d' :: rest)) =
      some ([(key, value)], rest) := by
  obtain ⟨body, hbody, hread⟩ :=
    readString_writeString key (':' :: (write value ++ '\x7d' :: rest))
  have hnext := hvalue fuel _ hfuel (stops_cons rest (Or.inr (Or.inr rfl)))
  rw [hbody, List.cons_append, readMembers]
  simp only [hread, hnext, skipBlanks_cons _ (show isBlank '"' = false from rfl),
    skipBlanks_cons _ (show isBlank ':' = false from rfl),
    skipBlanks_cons _ (show isBlank '\x7d' = false from rfl)]

theorem readMembers_more (key : Option String) (rest : List Char) :
    readMembers (fuel + 1) (writeString key ++ ':' :: (write value ++ ',' :: rest)) =
      (readMembers fuel rest).map fun read => ((key, value) :: read.1, read.2) := by
  obtain ⟨body, hbody, hread⟩ := readString_writeString key (':' :: (write value ++ ',' :: rest))
  have hnext := hvalue fuel _ hfuel (stops_cons rest (Or.inl rfl))
  rw [hbody, List.cons_append, readMembers]
  simp only [hread, hnext, skipBlanks_cons _ (show isBlank '"' = false from rfl),
    skipBlanks_cons _ (show isBlank ':' = false from rfl),
    skipBlanks_cons _ (show isBlank ',' = false from rfl)]

end

theorem readMembers_write (member : Option String × Json) (members : List (Option String × Json))
    (rest : List Char) (h : ∀ m ∈ member :: members, ReadsBack m.2) :
    ∀ fuel, 2 * (writeSeparated (writeMembers (member :: members))).length + 1 ≤ fuel →
      readMembers fuel (writeSeparated (writeMembers (member :: members)) ++ '\x7d' :: rest) =
        some (member :: members, rest) := by
  induction members generalizing member with
  | nil =>
    intro fuel hfuel
    obtain ⟨fuel, rfl⟩ := Nat.exists_eq_add_one.mpr (show 0 < fuel by omega)
    obtain ⟨key, value⟩ := member
    have hvalue : ReadsBack value := h (key, value) List.mem_cons_self
    simp only [writeMembers, writeSeparated_singleton, List.length_append, List.length_cons]
      at hfuel ⊢
    rw [List.append_assoc, List.cons_append, readMembers_last hvalue (by omega)]
  | cons member' members ih =>
    intro fuel hfuel
    obtain ⟨fuel, rfl⟩ := Nat.exists_eq_add_one.mpr (show 0 < fuel by omega)
    have hlater := ih member' (fun m hm => h m (List.mem_cons_of_mem member hm)) fuel
    obtain ⟨key, value⟩ := member
    have hvalue : ReadsBack value := h (key, value) List.mem_cons_self
    simp only [writeMembers, writeSeparated_cons_cons, List.length_append, List.length_cons]
      at hfuel hlater ⊢
    rw [List.append_assoc, List.append_assoc, List.cons_append, List.cons_append,
      readMembers_more hvalue (by omega), hlater (by omega), Option.map_some]

theorem readsBack_object {members : List (Option String × Json)}
    (h : ∀ member ∈ members, ReadsBack member.2) : ReadsBack (object members) := by
  intro fuel rest hfuel _
  rw [write] at hfuel ⊢
  obtain ⟨fuel, rfl⟩ := exists_fuel_eq_succ hfuel
  cases members with
  | nil => rfl
  | cons member members =>
    have hread := readMembers_write member members rest h fuel (by
      rw [List.length_cons, List.length_append, List.length_singleton] at hfuel
      omega)
    obtain ⟨key, value⟩ := member
    obtain ⟨body, hbody, -⟩ := readString_writeString key []
    rw [List.cons_append, List.append_assoc, List.singleton_append]
    rw [writeMembers, writeSeparated, hbody, List.cons_append, List.cons_append, List.cons_append]
      at hread ⊢
    have hbrace : ∀ cs, readValue (fuel + 1) ('\x7b' :: '"' :: cs) =
        (readMembers fuel ('"' :: cs)).map fun read => (object read.1, read.2) :=
      fun _ => rfl
    rw [hbrace, hread, Option.map_some]

/-! ### All values -/

/-- By induction on the value, each is read back from its own text. -/
theorem IsPlain.readsBack {v : Json} (h : IsPlain v) : ReadsBack v := by
  induction h with
  | null => exact readsBack_null
  | bool value => exact readsBack_bool value
  | natural value => exact readsBack_natural value
  | string text => exact readsBack_string text
  | array items hplain ih => exact readsBack_array hplain ih
  | object members _ ih => exact readsBack_object ih

/-- The text of a value is the text of this value. -/
theorem IsPlain.parse?_render {v : Json} (h : IsPlain v) : parse? (render v) = some v := by
  have hread := h.readsBack (2 * (write v).length + 2) [] (by omega) stops_nil
  rw [List.append_nil] at hread
  rw [parse?, render, String.toList_ofList, parseChars?, hread]
  rfl

end Beacon.Json
