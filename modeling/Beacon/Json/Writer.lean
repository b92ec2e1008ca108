/-
  The text of a JSON value, without blanks.

  In a string the quote, the backslash and the control characters are escaped and every other
  character stands for itself.  A string without a text is written as a lone surrogate, which the
  reader takes for a string without a text again.
-/
import Beacon.Decimal
import Beacon.Hex
import Beacon.Json.Value

namespace Beacon.Json

/-! ## Strings -/

/-- A character as it stands in a string literal. -/
def escape (c : Char) : List Char :=
  if c = '"' then ['\\', '"']
  else if c = '\\' then ['\\', '\\']
  else if c = '\n' then ['\\', 'n']
  else if c = '\r' then ['\\', 'r']
  else if c = '\t' then ['\\', 't']
  else if c.toNat = 8 then ['\\', 'b']
  else if c.toNat = 12 then ['\\', 'f']
  else if c.toNat < 32 then
    ['\\', 'u', '0', '0', Hex.digit (c.toNat / 16), Hex.digit (c.toNat % 16)]
  else [c]

/-- A string literal, quotes included. -/
def writeString : Option String → List Char
  | some text => '"' :: (text.toList.flatMap escape ++ ['"'])
  | none => ['"', '\\', 'u', 'd', '8', '0', '0', '"']

/-! ## Values -/

/-- What stands between an item and the end of a list: a comma before each further item. -/
def writeTail (items : List (List Char)) : List Char := items.flatMap (',' :: ·)

/-- Items with commas between them. -/
def writeSeparated : List (List Char) → List Char
  | [] => []
  | item :: items => item ++ writeTail items

mutual

/-- The text of a value. -/
def write : Json → List Char
  | null => ['n', 'u', 'l', 'l']
  | bool true => ['t', 'r', 'u', 'e']
  | bool false => ['f', 'a', 'l', 's', 'e']
  | natural value => Decimal.digits value
  | number literal => literal
  | string text => writeString text
  | array items => '[' :: (writeSeparated (writeItems items) ++ [']'])
  | object members => '\x7b' :: (writeSeparated (writeMembers members) ++ ['\x7d'])

/-- The texts of the items of an array. -/
def writeItems : List Json → List (List Char)
  | [] => []
  | item :: items => write item :: writeItems items

/-- The texts of the members of an object. -/
def writeMembers : List (Option String × Json) → List (List Char)
  | [] => []
  | (key, value) :: members => (writeString key ++ ':' :: write value) :: writeMembers members

end

/-- The text of a value as a string. -/
def render (value : Json) : String := String.ofList (write value)

end Beacon.Json
