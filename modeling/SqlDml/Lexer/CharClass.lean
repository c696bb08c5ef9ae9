/-!
Contract: the classes of characters that tokens are made of.

Owns:
- blanks, and the characters of unquoted names;
- hexadecimal and binary digits.

Does not own: how tokens are put together from them.
-/

namespace SqlDml

/-- Whether a character is a blank between tokens. -/
def isBlank (char : Char) : Bool :=
  char == ' ' || char == '\t' || char == '\r' || char == '\n' || char == '\x0b' || char == '\x0c'

/-- Whether an unquoted name may begin with a character.  Every character outside ASCII may. -/
def isNameStart (char : Char) : Bool :=
  char.isAlpha || char == '_' || char == '$' || 0x80 ≤ char.toNat

/-- Whether an unquoted name may go on with a character. -/
def isNameChar (char : Char) : Bool :=
  isNameStart char || char.isDigit

def isHexDigit (char : Char) : Bool :=
  char.isDigit || ('a' ≤ char && char ≤ 'f') || ('A' ≤ char && char ≤ 'F')

def isBitDigit (char : Char) : Bool :=
  char == '0' || char == '1'

end SqlDml
