/-
  JSON values.

  A number that is a plain run of digits is kept as the natural number it stands for; every other
  number (with a sign, a fraction or an exponent) is kept as its literal.  A string may spell a
  surrogate that has no partner: it stands for no text, and its text is `none`.  Members of an
  object are kept in order, repetitions included.
-/

namespace Beacon

inductive Json where
  | null
  | bool (value : Bool)
  | natural (value : Nat)
  | number (literal : List Char)
  | string (text : Option String)
  | array (items : List Json)
  | object (members : List (Option String × Json))
deriving Inhabited

namespace Json

/-- The string value of a text. -/
def ofString (text : String) : Json := string (some text)

/-- The object with these members, in this order. -/
def ofMembers (members : List (String × Json)) : Json :=
  object (members.map fun (key, value) => (some key, value))

/-- All values that an object gives under a key, in order; anything but an object gives none. -/
def valuesAt (key : String) : Json → List Json
  | object members => (members.filter fun member => member.1 == some key).map Prod.snd
  | _ => []

/-- The first value that an object gives under a key. -/
def get? (value : Json) (key : String) : Option Json := (value.valuesAt key).head?

/-- The items of an array. -/
def items? : Json → Option (List Json)
  | array items => some items
  | _ => none

/-- The text of a string that has one. -/
def text? : Json → Option String
  | string text => text
  | _ => none

end Json

end Beacon
