/-!
Contract: reading strings and keys at the front of a text.

Owns:
- readers, which take characters from the front of a text or refuse it; repetition and lists with
  separators;
- blanks, line endings and comments, and the characters that may stand in text;
- the four forms of strings: basic and literal ones, on one line and on several, with escapes in the
  basic ones;
- bare, quoted and dotted keys.

Does not own: where strings and keys stand.
-/

namespace SqlDml.Toml

/-- Takes something from the front of a text and leaves the rest, or refuses the text. -/
abbrev Reader (α : Type) := StateT (List Char) Option α

namespace Reader

/-- Takes a character that passes a test. -/
def charOf (test : Char → Bool) : Reader Char := fun chars =>
  match chars with
  | char :: rest => if test char then some (char, rest) else none
  | [] => none

/-- Takes one given character. -/
def char (expected : Char) : Reader Unit := do
  let _ ← charOf (· == expected)

/-- Takes a given text. -/
def word (expected : String) : Reader Unit :=
  expected.toList.forM char

/-- Takes the longest run of characters that pass a test. -/
def run (test : Char → Bool) : Reader (List Char) := fun chars =>
  some (chars.takeWhile test, chars.dropWhile test)

/-- Takes the end of the text. -/
def endOfText : Reader Unit := fun chars =>
  if chars.isEmpty then some ((), []) else none

/-- Takes an item if there is one. -/
def maybe {α : Type} (item : Reader α) : Reader (Option α) :=
  (some <$> item) <|> pure none

/-- Takes at most so many items, as long as there are some. -/
def atMost {α : Type} (item : Reader α) : Nat → Reader (List α)
  | 0 => pure []
  | count + 1 => do
      match ← maybe item with
      | none => return []
      | some taken => return taken :: (← atMost item count)

/-- Takes items as long as there are some.  Each item takes a character at least, so that the length
of the text bounds their number. -/
def many {α : Type} (item : Reader α) : Reader (List α) := fun chars =>
  atMost item chars.length chars

/-- Takes exactly so many characters that pass a test. -/
def exactly (test : Char → Bool) : Nat → Reader (List Char)
  | 0 => pure []
  | count + 1 => do
      let first ← charOf test
      return first :: (← exactly test count)

/-- Takes items with a separator between each two; there may be none. -/
def separated {α : Type} (item : Reader α) (separator : Reader Unit) : Reader (List α) := do
  match ← maybe item with
  | none => return []
  | some first => return first :: (← many (do separator; item))

/-- Takes one item at least, with a separator between each two. -/
def separatedSome {α : Type} (item : Reader α) (separator : Reader Unit) : Reader (List α) := do
  let first ← item
  return first :: (← many (do separator; item))

end Reader

/-! ## Between the parts of a document -/

open Reader

/-- Whether a character may stand in comments and strings: every one but the ASCII controls, of
which the tabulator is allowed. -/
def isTextChar (char : Char) : Bool :=
  char == '\t' || (0x20 ≤ char.toNat && char.toNat != 0x7f)

/-- Blanks inside a line. -/
def blanks : Reader Unit := do
  let _ ← run fun char => char == ' ' || char == '\t'

/-- A line feed, perhaps after a carriage return. -/
def newline : Reader Unit :=
  word "\n" <|> word "\r\n"

/-- A comment up to the end of its line. -/
def comment : Reader Unit := do
  char '#'
  let _ ← run isTextChar

/-- Blanks, line endings and whole comment lines, as between the items of an array. -/
def blankLines : Reader Unit := do
  let _ ← many do
    blanks
    let _ ← maybe comment
    newline
  blanks

/-! ## Strings and keys -/

/-- The value of a hexadecimal digit. -/
def hexValue (digit : Char) : Nat :=
  if digit.isDigit then digit.toNat - '0'.toNat
  else if digit.isUpper then digit.toNat - 'A'.toNat + 10
  else digit.toNat - 'a'.toNat + 10

def isHexChar (char : Char) : Bool :=
  char.isDigit || ('a' ≤ char && char ≤ 'f') || ('A' ≤ char && char ≤ 'F')

/-- The number that digits write in a base. -/
def digitsValue (base : Nat) (digits : List Char) : Nat :=
  digits.foldl (fun value digit => value * base + hexValue digit) 0

/-- A character by its number, in so many hexadecimal digits.  Surrogates are no characters. -/
def numberedChar (count : Nat) : Reader Char := do
  let code := digitsValue 16 (← exactly isHexChar count)
  if code.isValidChar then return Char.ofNat code else failure

/-- An escape: a backslash and what it stands for. -/
def escape : Reader Char := do
  char '\\'
  match ← charOf fun _ => true with
  | 'b' => return '\x08'
  | 't' => return '\t'
  | 'n' => return '\n'
  | 'f' => return '\x0c'
  | 'r' => return '\r'
  | '"' => return '"'
  | '\\' => return '\\'
  | 'u' => numberedChar 4
  | 'U' => numberedChar 8
  | _ => failure

/-- A character of a basic string that stands for itself. -/
def plainChar : Reader Char :=
  charOf fun char => isTextChar char && char != '"' && char != '\\'

/-- A basic string on one line. -/
def basicText : Reader String := do
  char '"'
  let chars ← many (plainChar <|> escape)
  char '"'
  return String.ofList chars

/-- A literal string on one line, in which nothing is escaped. -/
def literalText : Reader String := do
  char '\''
  let chars ← run fun char => isTextChar char && char != '\''
  char '\''
  return String.ofList chars

/-- One or two quotes that do not end a string on several lines. -/
def innerQuotes (quote : Char) : Reader (List Char) := do
  let quotes ← run (· == quote)
  if quotes.length = 1 ∨ quotes.length = 2 then return quotes else failure

/-- The end of a string on several lines: three quotes, with up to two more that belong to it. -/
def closingQuotes (quote : Char) : Reader (List Char) := do
  let quotes ← run (· == quote)
  if 3 ≤ quotes.length ∧ quotes.length ≤ 5 then return quotes.drop 3 else failure

/-- A backslash at the end of a line, which drops the line ending and the blanks after it. -/
def joinedLines : Reader (List Char) := do
  char '\\'
  blanks
  newline
  blankRest
  return []
where
  blankRest : Reader Unit := do
    let _ ← many do
      blanks
      newline
    blanks

/-- A line ending in a string, which counts as a line feed. -/
def lineFeed : Reader (List Char) := do
  newline
  return ['\n']

/-- A string on several lines between two triples of quotes.  A line ending right after the opening
quotes is dropped. -/
def longText (quote : Char) (piece : Reader (List Char)) : Reader String := do
  word (String.ofList [quote, quote, quote])
  let _ ← maybe newline
  let pieces ← many (piece <|> lineFeed <|> innerQuotes quote)
  let last ← closingQuotes quote
  return String.ofList (pieces.flatten ++ last)

/-- A string in any of its forms. -/
def text : Reader String :=
  longText '"' ((fun char => [char]) <$> plainChar <|> joinedLines <|>
    (fun char => [char]) <$> escape) <|>
  basicText <|>
  longText '\'' ((fun char => [char]) <$> charOf fun char => isTextChar char && char != '\'') <|>
  literalText

/-- A key that needs no quotes. -/
def bareKey : Reader String := do
  let chars ← run fun char => char.isAlphanum || char == '_' || char == '-'
  if chars.isEmpty then failure else return String.ofList chars

/-- One step of a dotted key. -/
def simpleKey : Reader String := basicText <|> literalText <|> bareKey

/-- How many steps a key may have, and one more than the levels of values that may be open. -/
def nestingLimit : Nat := 80

/-- A key: the steps in front, and the last one. -/
def key : Reader (List String × String) := do
  let steps ← separatedSome (do blanks; let step ← simpleKey; blanks; return step) (char '.')
  match steps.getLast? with
  | some last => if steps.length < nestingLimit then return (steps.dropLast, last) else failure
  | none => failure

end SqlDml.Toml
