/-
  Blanks: the characters that may stand between the parts of a text and mean nothing there.
-/

namespace Beacon

/-- Space, tab, line feed and carriage return are blanks, and no other character is. -/
def isBlank (c : Char) : Bool := c == ' ' || c == '\t' || c == '\n' || c == '\r'

/-- The text from its first character that is no blank. -/
def skipBlanks (cs : List Char) : List Char := cs.dropWhile isBlank

/-- The text without its blanks. -/
def dropBlanks (cs : List Char) : List Char := cs.filter fun c => !isBlank c

end Beacon
