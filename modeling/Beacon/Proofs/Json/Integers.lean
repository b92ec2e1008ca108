/-
  Which JSON values stand for an integer, and for which.

  A `Numeral` is a run of decimal digits with the number that it stands for; leading zeros do not
  matter.  A JSON value spells a number (`Spells`) if it is this number, or a string that holds a
  numeral with at most one plus sign before it.  What is read as a word is what spells a number in
  the range of words, and what is read as a divisor is what spells one that is not zero, too
  (`read?_word_eq_some_iff`, `read?_divisor_eq_some_iff`).

  Of a text no more than its digits can be read as a number with no sign, fraction or exponent
  (`parse?_eq_natural_iff`): each part of the reader of numbers either takes nothing or leaves what
  it took in the number that it gives.
-/
import Mathlib.Data.List.DropRight
import Mathlib.Data.Nat.Digits.Defs
import Beacon.Proofs.Json.Forms

namespace Beacon

/-! ## Numerals -/

/-- Decimal digits, at least one of them, and the number that they stand for. -/
structure Numeral (digits : List Char) (n : Nat) : Prop where
  nonempty : digits ≠ []
  isDigit : ∀ c ∈ digits, '0' ≤ c ∧ c ≤ '9'
  value : Nat.ofDigits 10 (digits.reverse.map fun c => c.toNat - '0'.toNat) = n

theorem Numeral.unique {digits : List Char} {m n : Nat} (hm : Numeral digits m)
    (hn : Numeral digits n) : m = n :=
  hm.value.symm.trans hn.value

namespace Decimal

theorem isDigit_iff {c : Char} : isDigit c = true ↔ '0' ≤ c ∧ c ≤ '9' := by
  rw [isDigit, Bool.and_eq_true, decide_eq_true_iff, decide_eq_true_iff]

/-- Digits that come after others add to what those stand for, each place worth ten of the next. -/
theorem valueFrom_eq (before : Nat) (cs : List Char) :
    valueFrom before cs = before * 10 ^ cs.length +
      Nat.ofDigits 10 (cs.reverse.map fun c => c.toNat - '0'.toNat) := by
  induction cs generalizing before with
  | nil =>
    rw [List.reverse_nil, List.map_nil, Nat.ofDigits_nil, List.length_nil, Nat.pow_zero,
      Nat.mul_one]
    rfl
  | cons c cs ih =>
    have hstep : valueFrom before (c :: cs) =
        valueFrom (10 * before + (c.toNat - '0'.toNat)) cs := rfl
    rw [hstep, ih, List.reverse_cons, List.map_append, Nat.ofDigits_append, List.length_map,
      List.length_reverse, List.map_singleton, Nat.ofDigits_singleton, List.length_cons]
    ring

theorem value?_eq_some_iff {cs : List Char} {n : Nat} : value? cs = some n ↔ Numeral cs n := by
  have hvalue : valueFrom 0 cs = Nat.ofDigits 10 (cs.reverse.map fun c => c.toNat - '0'.toNat) := by
    rw [valueFrom_eq, Nat.zero_mul, Nat.zero_add]
  unfold value?
  constructor
  · intro h
    split at h
    · next hdigits =>
      refine ⟨hdigits.1, fun c hc => isDigit_iff.mp (List.all_eq_true.mp hdigits.2 c hc), ?_⟩
      rw [← hvalue]
      exact Option.some.inj h
    · nomatch h
  · intro h
    have hdigits : cs.all isDigit = true :=
      List.all_eq_true.mpr fun c hc => isDigit_iff.mpr (h.isDigit c hc)
    rw [if_pos ⟨h.nonempty, hdigits⟩, hvalue, h.value]

theorem numeral_digits (n : Nat) : Numeral (digits n) n := value?_eq_some_iff.mp (value?_digits n)

end Decimal

/-! ## Values -/

/-- What a JSON value has to be to stand for a number: the number, or a string of digits, with a plus
    sign before them or without. -/
inductive Json.Spells : Json → Nat → Prop
  | number (n : Nat) : Spells (.natural n) n
  | text {text : String} {n : Nat} : Numeral text.toList n → Spells (.string (some text)) n
  | signedText {text : String} {digits : List Char} {n : Nat} : text.toList = '+' :: digits →
      Numeral digits n → Spells (.string (some text)) n

namespace Json

theorem not_numeral_plus {digits : List Char} {n : Nat} : ¬ Numeral ('+' :: digits) n := by
  intro h
  have hplus := h.isDigit '+' List.mem_cons_self
  revert hplus
  decide

/-- No value spells two numbers. -/
theorem Spells.unique {value : Json} {m n : Nat} (hm : value.Spells m) (hn : value.Spells n) :
    m = n := by
  cases hm with
  | number => cases hn; rfl
  | text hm =>
    cases hn with
    | text hn => exact hm.unique hn
    | signedText htext _ =>
      rw [htext] at hm
      exact absurd hm not_numeral_plus
  | signedText htext hm =>
    cases hn with
    | text hn =>
      rw [htext] at hn
      exact absurd hn not_numeral_plus
    | signedText htext' hn =>
      rw [htext, List.cons.injEq] at htext'
      rw [← htext'.2] at hn
      exact hm.unique hn

theorem wordOfText?_eq_some_iff {text : String} {w : UInt64} :
    wordOfText? text = some w ↔ (string (some text)).Spells w.toNat := by
  have hvalue : ∀ digits : List Char, (Decimal.value? digits).bind Word.ofNat? = some w ↔
      Numeral digits w.toNat := by
    intro digits
    rw [Option.bind_eq_some_iff]
    simp only [Decimal.value?_eq_some_iff, Word.ofNat?_eq_some_iff]
    exact ⟨fun ⟨n, hn, hw⟩ => hw ▸ hn, fun h => ⟨_, h, rfl⟩⟩
  unfold wordOfText?
  dsimp only
  split
  · next digits htext =>
    rw [hvalue]
    constructor
    · exact .signedText htext
    · intro h
      cases h with
      | text h =>
        rw [htext] at h
        exact absurd h not_numeral_plus
      | signedText htext' h =>
        rw [htext, List.cons.injEq] at htext'
        rw [htext'.2]
        exact h
  · next hplain =>
    rw [hvalue]
    constructor
    · exact .text
    · intro h
      cases h with
      | text h => exact h
      | signedText htext _ => exact absurd htext (hplain _)

/-- What is read as a word: what spells a number, if that is a word. -/
theorem read?_word_eq_some_iff {value : Json} {w : UInt64} :
    value.read? UInt64 = some w ↔ value.Spells w.toNat := by
  show value.word? = some w ↔ _
  unfold word?
  split
  · next n =>
    rw [Word.ofNat?_eq_some_iff]
    constructor
    · rintro rfl
      exact .number _
    · intro h
      cases h
      rfl
  · exact wordOfText?_eq_some_iff
  · next hnatural hstring =>
    refine ⟨fun h => (nomatch h), fun h => ?_⟩
    cases h with
    | number => exact (hnatural _ rfl).elim
    | text => exact (hstring _ rfl).elim
    | signedText => exact (hstring _ rfl).elim

theorem read?_divisor_eq_some_iff {value : Json} {d : Divisor} :
    value.read? Divisor = some d ↔ value.Spells d.val.toNat := by
  show value.word?.bind Divisor.ofWord? = some d ↔ _
  rw [← read?_word_eq_some_iff, Option.bind_eq_some_iff]
  simp only [Divisor.ofWord?_eq_some_iff]
  exact ⟨fun ⟨w, hw, hd⟩ => hd ▸ hw, fun h => ⟨_, h, rfl⟩⟩

theorem read?_word_eq_none_iff {value : Json} :
    value.read? UInt64 = none ↔ ∀ n, value.Spells n → 2 ^ 64 ≤ n := by
  rw [Option.eq_none_iff_forall_ne_some]
  simp only [ne_eq, read?_word_eq_some_iff]
  constructor
  · intro h n hn
    rw [← Nat.not_lt]
    intro hlt
    refine h (UInt64.ofNat n) ?_
    rw [UInt64.toNat_ofNat_of_lt' hlt]
    exact hn
  · intro h w hw
    exact Nat.not_lt.mpr (h _ hw) w.toNat_lt

theorem read?_divisor_eq_none_iff {value : Json} :
    value.read? Divisor = none ↔ ∀ n, value.Spells n → n = 0 ∨ 2 ^ 64 ≤ n := by
  rw [Option.eq_none_iff_forall_ne_some]
  simp only [ne_eq, read?_divisor_eq_some_iff]
  constructor
  · intro h n hn
    rw [or_iff_not_imp_left, ← Nat.not_lt]
    intro hpos hlt
    have hnat : (UInt64.ofNat n).toNat = n := UInt64.toNat_ofNat_of_lt' hlt
    refine h ⟨UInt64.ofNat n, fun hzero => hpos ?_⟩ ?_
    · rw [← hnat, hzero]
      rfl
    · show value.Spells (UInt64.ofNat n).toNat
      rw [hnat]
      exact hn
  · intro h d hd
    rcases h _ hd with hzero | hlarge
    · exact Nat.ne_of_gt d.toNat_pos hzero
    · exact Nat.not_lt.mpr hlarge d.val.toNat_lt

/-- A number and the string of it stand for the same. -/
theorem spells_natural_iff {m n : Nat} :
    (natural m).Spells n ↔ (ofString (Decimal.text m)).Spells n := by
  have hnumeral : Numeral (Decimal.text m).toList m := by
    rw [Decimal.text, String.toList_ofList]
    exact Decimal.numeral_digits m
  constructor
  · intro h
    cases h
    exact .text hnumeral
  · intro h
    rw [h.unique (.text hnumeral)]
    exact .number m

theorem read?_word_natural (n : Nat) :
    (natural n).read? UInt64 = (ofString (Decimal.text n)).read? UInt64 := by
  ext w
  rw [read?_word_eq_some_iff, read?_word_eq_some_iff, spells_natural_iff]

theorem read?_divisor_natural (n : Nat) :
    (natural n).read? Divisor = (ofString (Decimal.text n)).read? Divisor := by
  ext d
  rw [read?_divisor_eq_some_iff, read?_divisor_eq_some_iff, spells_natural_iff]

/-! ## Lists -/

section

variable {α : Type} [JsonForm α]

/-- A list is read item by item. -/
theorem read?_list_eq_some_iff {value : Json} {as : List α} :
    value.read? (List α) = some as ↔
      ∃ items, value = array items ∧ items.map (read? α) = as.map some := by
  show value.items?.bind (List.mapM JsonForm.ofJson?) = some as ↔ _
  rw [Option.bind_eq_some_iff]
  constructor
  · rintro ⟨items, hvalue, h⟩
    unfold items? at hvalue
    split at hvalue
    · cases hvalue
      exact ⟨items, rfl, mapM_eq_some_iff.mp h⟩
    · nomatch hvalue
  · rintro ⟨items, rfl, h⟩
    exact ⟨items, rfl, mapM_eq_some_iff.mpr h⟩

/-- For the reader it is the same whether the list is kept as an array. -/
theorem read?_array_eq_some_iff {value : Json} {as : Array α} :
    value.read? (Array α) = some as ↔ value.read? (List α) = some as.toList := by
  show (value.read? (List α)).map List.toArray = some as ↔ _
  rw [Option.map_eq_some_iff]
  constructor
  · rintro ⟨items, h, rfl⟩
    exact h
  · intro h
    exact ⟨as.toList, h, rfl⟩

/-- An array is accepted if all its items are. -/
theorem exists_read?_array_iff {items : List Json} :
    (∃ as, (array items).read? (List α) = some as) ↔
      ∀ item ∈ items, ∃ a, item.read? α = some a := by
  simp only [read?_list_eq_some_iff, array.injEq, exists_eq_left']
  constructor
  · rintro ⟨as, h⟩ item hitem
    have hmem : item.read? α ∈ as.map some := h ▸ List.mem_map_of_mem hitem
    obtain ⟨a, -, ha⟩ := List.mem_map.mp hmem
    exact ⟨a, ha.symm⟩
  · intro h
    induction items with
    | nil => exact ⟨[], rfl⟩
    | cons item items ih =>
      obtain ⟨a, ha⟩ := h item List.mem_cons_self
      obtain ⟨as, has⟩ := ih fun item hitem => h item (List.mem_cons_of_mem _ hitem)
      exact ⟨a :: as, by rw [List.map_cons, ha, has, List.map_cons]⟩

end

/-! ## Texts -/

section

variable {cs rest : List Char}

theorem of_readDigits {digits : List Char} (h : readDigits cs = some (digits, rest)) :
    digits ≠ [] ∧ (∀ c ∈ digits, Decimal.isDigit c = true) ∧ cs = digits ++ rest := by
  unfold readDigits at h
  split at h
  · nomatch h
  · next hnonempty hspan =>
    cases h
    obtain ⟨rfl, rfl⟩ := Prod.mk.inj hspan
    exact ⟨hnonempty, List.all_eq_true.mp List.all_takeWhile,
      List.takeWhile_append_dropWhile.symm⟩

theorem of_readWhole {whole : List Char} (h : readWhole cs = some (whole, rest)) :
    IsWhole whole ∧ cs = whole ++ rest := by
  unfold readWhole at h
  split at h
  · nomatch h
  · next hzero =>
    obtain ⟨hnonempty, hdigits, hcs⟩ := of_readDigits h
    refine ⟨⟨hnonempty, hdigits, fun hhead => ?_⟩, hcs⟩
    obtain ⟨tail, rfl⟩ := List.head?_eq_some_iff.mp hhead
    rcases tail with _ | ⟨c, tail⟩
    · rfl
    · exact (hzero c tail rest h).elim

theorem of_readFraction (h : readFraction cs = some ([], rest)) : cs = rest := by
  unfold readFraction at h
  split at h
  · rw [Option.map_eq_some_iff] at h
    obtain ⟨_, -, h⟩ := h
    nomatch h
  · cases h
    rfl

theorem of_readExponent (h : readExponent cs = some ([], rest)) : cs = rest := by
  unfold readExponent at h
  split at h
  · cases h
    rfl
  · split at h
    · rw [Option.map_eq_some_iff] at h
      obtain ⟨_, -, h⟩ := h
      nomatch h
    · cases h
      rfl

theorem of_readMinus (h : readMinus cs = ([], rest)) : cs = rest := by
  unfold readMinus at h
  split at h
  · nomatch h
  · cases h
    rfl

/-- A number without a sign, a fraction and an exponent is nothing but digits. -/
theorem of_readNumber {n : Nat} (h : readNumber cs = some (natural n, rest)) :
    ∃ digits, IsWhole digits ∧ Decimal.valueFrom 0 digits = n ∧ cs = digits ++ rest := by
  unfold readNumber at h
  simp only [Option.bind_eq_bind, Option.bind_eq_some_iff] at h
  obtain ⟨⟨whole, rest1⟩, hwhole, ⟨fraction, rest2⟩, hfraction, ⟨exponent, rest3⟩, hexponent, h⟩ := h
  split at h
  · next hnil =>
    rw [List.append_eq_nil_iff, List.append_eq_nil_iff] at hnil
    obtain ⟨⟨hminus, hfractionNil⟩, hexponentNil⟩ := hnil
    -- the other parts took nothing, so that all of the number is whole
    dsimp only at hfractionNil hexponentNil hfraction hexponent
    subst hfractionNil hexponentNil
    cases h
    have hcs : cs = (readMinus cs).2 := of_readMinus (Prod.ext hminus rfl)
    obtain ⟨hisWhole, hwholeCs⟩ := of_readWhole hwhole
    refine ⟨whole, hisWhole, rfl, ?_⟩
    rw [hcs, hwholeCs, of_readFraction hfraction, of_readExponent hexponent]
  · nomatch h

/-- What is read does not depend on the blanks before it. -/
theorem readValue_skipBlanks (fuel : Nat) (cs : List Char) :
    readValue fuel (skipBlanks cs) = readValue fuel cs := by
  have hskip : skipBlanks (skipBlanks cs) = skipBlanks cs := List.dropWhile_idempotent isBlank cs
  cases fuel with
  | zero => rfl
  | succ fuel => rw [readValue, readValue, hskip]

/-- A value that is a natural number comes from the reader of numbers. -/
theorem readNumber_of_readValue {fuel n : Nat}
    (h : readValue fuel cs = some (natural n, rest)) :
    readNumber (skipBlanks cs) = some (natural n, rest) := by
  have hmap : ∀ {β : Type} {read : Option (β × List Char)} {f : β × List Char → Json × List Char},
      (∀ b, (f b).1 ≠ natural n) → read.map f ≠ some (natural n, rest) := by
    intro β read f hf hread
    obtain ⟨b, -, hb⟩ := Option.map_eq_some_iff.mp hread
    exact hf b (by rw [hb])
  cases fuel with
  | zero => nomatch h
  | succ fuel =>
    rw [readValue] at h
    split at h
    · cases h
    · cases h
    · cases h
    · exact (hmap (fun _ => Json.noConfusion) h).elim
    · split at h
      · cases h
      · exact (hmap (fun _ => Json.noConfusion) h).elim
    · split at h
      · cases h
      · exact (hmap (fun _ => Json.noConfusion) h).elim
    · exact h

theorem isBlank_iff {c : Char} : isBlank c = true ↔ c = ' ' ∨ c = '\t' ∨ c = '\n' ∨ c = '\r' := by
  simp [isBlank, or_assoc]

theorem endsNumber_of_blanks (h : ∀ c ∈ rest, isBlank c = true) : EndsNumber rest := by
  intro c hc
  rcases isBlank_iff.mp (h c (List.mem_of_mem_head? hc)) with rfl | rfl | rfl | rfl <;> decide

theorem IsWhole.numeral {digits : List Char} (h : IsWhole digits) :
    Numeral digits (Decimal.valueFrom 0 digits) := by
  rw [← Decimal.value?_eq_some_iff, Decimal.value?,
    if_pos ⟨h.nonempty, List.all_eq_true.mpr h.isDigit⟩]

/-- Digits alone, as they stand in a number, with any blanks around them: the text of a number that
    has no sign, no fraction and no exponent. -/
def IntegerText (text : String) (n : Nat) : Prop :=
  ∃ before digits after, text.toList = before ++ digits ++ after ∧
    (∀ c ∈ before, isBlank c = true) ∧ (∀ c ∈ after, isBlank c = true) ∧
    IsWhole digits ∧ Numeral digits n

theorem parse?_eq_natural_iff {text : String} {n : Nat} :
    parse? text = some (natural n) ↔ IntegerText text n := by
  unfold parse? parseChars?
  constructor
  · intro h
    split at h
    · next value rest hread =>
      split at h
      · next hrest =>
        cases h
        obtain ⟨digits, hwhole, rfl, hdigits⟩ := of_readNumber (readNumber_of_readValue hread)
        refine ⟨text.toList.takeWhile isBlank, digits, rest, ?_,
          List.all_eq_true.mp List.all_takeWhile, List.dropWhile_eq_nil_iff.mp hrest, hwhole,
          hwhole.numeral⟩
        rw [List.append_assoc, ← hdigits, skipBlanks, List.takeWhile_append_dropWhile]
      · cases h
    · cases h
  · rintro ⟨before, digits, after, htext, hbefore, hafter, hwhole, hnumeral⟩
    obtain ⟨c, cs, hcons⟩ := List.exists_cons_of_ne_nil hwhole.nonempty
    have hdigit : Decimal.isDigit c = true := hwhole.isDigit c (hcons ▸ List.mem_cons_self)
    have hskip : skipBlanks text.toList = digits ++ after := by
      rw [htext, List.append_assoc, skipBlanks, List.dropWhile_append_of_pos hbefore, hcons,
        List.cons_append]
      exact skipBlanks_cons _ (isBlank_of_isDigit hdigit)
    have hread : ∀ fuel, readValue (fuel + 1) text.toList = some (natural n, after) := by
      intro fuel
      rw [← readValue_skipBlanks, hskip, hnumeral.unique hwhole.numeral,
        ← readNumber_append hwhole (endsNumber_of_blanks hafter), hcons]
      exact readValue_digit fuel _ hdigit
    rw [hread]
    exact if_pos (List.dropWhile_eq_nil_iff.mpr hafter)

end

end Json

/-! ## The integers of the written forms -/

/-- **What the readers of integers accept, and what they read.**
    * A value is read as a word if it spells a number that is one, and then as this number; as a
      divisor, if the number is not zero besides.
    * A list is read from an array of as many items, each read by itself and in order, and it is
      read if all of them are.
    * A number and the string of it are read alike.
    * The texts of numbers are those of their digits, so that a sign, a fraction or an exponent makes
      another value of it, which spells nothing. -/
theorem integers_read_as_spelled :
    ((∀ (value : Json) (w : UInt64), value.read? UInt64 = some w ↔ value.Spells w.toNat) ∧
      ∀ value : Json, value.read? UInt64 = none ↔ ∀ n, value.Spells n → 2 ^ 64 ≤ n) ∧
    ((∀ (value : Json) (d : Divisor), value.read? Divisor = some d ↔ value.Spells d.val.toNat) ∧
      ∀ value : Json, value.read? Divisor = none ↔ ∀ n, value.Spells n → n = 0 ∨ 2 ^ 64 ≤ n) ∧
    (∀ (α : Type) [JsonForm α],
      (∀ (value : Json) (as : List α), value.read? (List α) = some as ↔
        ∃ items, value = .array items ∧ items.map (Json.read? α) = as.map some) ∧
      (∀ items, (∃ as, (Json.array items).read? (List α) = some as) ↔
        ∀ item ∈ items, ∃ a, item.read? α = some a) ∧
      ∀ (value : Json) (as : Array α),
        value.read? (Array α) = some as ↔ value.read? (List α) = some as.toList) ∧
    (∀ n, (Json.natural n).read? UInt64 = (Json.ofString (Decimal.text n)).read? UInt64 ∧
      (Json.natural n).read? Divisor = (Json.ofString (Decimal.text n)).read? Divisor) ∧
    ∀ (text : String) (n : Nat), Json.parse? text = some (.natural n) ↔ Json.IntegerText text n := by
  refine ⟨⟨?_, ?_⟩, ⟨?_, ?_⟩, fun α _ => ⟨?_, ?_, ?_⟩, fun n => ⟨?_, ?_⟩, ?_⟩
  · exact fun _ _ => Json.read?_word_eq_some_iff
  · exact fun _ => Json.read?_word_eq_none_iff
  · exact fun _ _ => Json.read?_divisor_eq_some_iff
  · exact fun _ => Json.read?_divisor_eq_none_iff
  · exact fun _ _ => Json.read?_list_eq_some_iff
  · exact fun _ => Json.exists_read?_array_iff
  · exact fun _ _ => Json.read?_array_eq_some_iff
  · exact Json.read?_word_natural n
  · exact Json.read?_divisor_natural n
  · exact fun _ _ => Json.parse?_eq_natural_iff

end Beacon
