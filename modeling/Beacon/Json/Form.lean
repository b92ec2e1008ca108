/-
  The JSON forms of words, byte strings and records.

  A word is written as a decimal string and read from a string (digits, with an optional plus sign
  before them) or from a plain number.  A byte string is written in hexadecimal.  A record is
  written as an object with its fields in order; it is read from an object that has each field
  exactly once and nothing else, or from an array of its fields in order.
-/
import Beacon.Json.Value
import Beacon.Decimal
import Beacon.Word
import Beacon.Bytes

namespace Beacon

/-- Types with a JSON form. -/
class JsonForm (α : Type) where
  toJson : α → Json
  ofJson? : Json → Option α

export JsonForm (toJson)

namespace Json

/-- The value of type `α` that a JSON value is a form of. -/
def read? (α : Type) [JsonForm α] (value : Json) : Option α := JsonForm.ofJson? value

/-! ## Words -/

/-- The word that a text spells: digits, with at most one plus sign before them. -/
def wordOfText? (text : String) : Option UInt64 :=
  let digits := match text.toList with
    | '+' :: digits => digits
    | digits => digits
  (Decimal.value? digits).bind Word.ofNat?

/-- The word that a number or a string stands for. -/
def word? : Json → Option UInt64
  | natural n => Word.ofNat? n
  | string (some text) => wordOfText? text
  | _ => none

end Json

instance : JsonForm UInt64 where
  toJson w := Json.ofString (Decimal.text w.toNat)
  ofJson? := Json.word?

instance : JsonForm Divisor where
  toJson d := toJson d.val
  ofJson? value := value.word?.bind Divisor.ofWord?

instance : JsonForm Bool where
  toJson := Json.bool
  ofJson?
    | .bool b => some b
    | _ => none

instance : JsonForm String where
  toJson := Json.ofString
  ofJson? := Json.text?

instance {n : Nat} : JsonForm (Bytes n) where
  toJson b := Json.ofString b.toHex
  ofJson? value := value.text?.bind (Bytes.ofHex? n)

instance {α : Type} [JsonForm α] : JsonForm (List α) where
  toJson items := Json.array (items.map toJson)
  ofJson? value := value.items?.bind (List.mapM JsonForm.ofJson?)

instance {α : Type} [JsonForm α] : JsonForm (Array α) where
  toJson items := toJson items.toList
  ofJson? value := (value.read? (List α)).map List.toArray

/-! ## Records -/

namespace Json

/-- The values of the named fields, in that order: of an object with exactly these members, or of
    an array with as many items. -/
def fields? (names : List String) : Json → Option (List Json)
  | array items => if items.length = names.length then some items else none
  | object members =>
    if members.length = names.length then
      names.mapM fun name => (object members).get? name
    else none
  | _ => none

/-- For each name the value that an object gives for it, if any: no name may be given twice, and
    other members are passed over.  An array gives the values of the first names. -/
def optionalFields? (names : List String) : Json → Option (List (Option Json))
  | array items =>
    if items.length ≤ names.length then
      some (items.map some ++ List.replicate (names.length - items.length) none)
    else none
  | object members =>
    if members.any fun member => member.1.isNone then none
    else
      names.mapM fun name =>
        match (object members).valuesAt name with
        | [] => some none
        | [value] => some (some value)
        | _ => none
  | _ => none

end Json

end Beacon
