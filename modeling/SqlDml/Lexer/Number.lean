import SqlDml.Lexer.CharClass
import SqlDml.Lexer.Lexeme

/-!
Contract: numeric literals.

Owns:
- hexadecimal and bit literals behind `0x` and `0b`;
- decimal literals with optional fraction and exponent;
- refusing a number that runs into the characters of a name.

Does not own: whether a text begins with a number; that is the lexer.
-/

namespace SqlDml

/-- The form of a number at the front of a text, with the characters that it takes and leaves. -/
structure NumberRun where
  form : List Char → TokenKind
  taken : List Char
  rest : List Char

/-- The digits at the front of a text, and what follows them. -/
def splitDigits (chars : List Char) : List Char × List Char :=
  (chars.takeWhile Char.isDigit, chars.dropWhile Char.isDigit)

/-- The value of decimal digits. -/
def decimalValue (digits : List Char) : Nat :=
  digits.foldl (fun value digit => 10 * value + (digit.toNat - '0'.toNat)) 0

/-- An integer is kept by value while it is below 2^63, and as written from there on. -/
def integerToken (digits : List Char) : TokenKind :=
  if decimalValue digits < 9223372036854775808 then .integer (decimalValue digits)
  else .number (String.ofList digits)

/-- A number behind a two-character mark such as `0x`, if at least one digit follows. -/
def markedRun? (isDigit : Char → Bool) (build : String → TokenKind) (mark : List Char)
    (chars : List Char) : Option NumberRun :=
  let digits := chars.takeWhile isDigit
  if digits.isEmpty then none
  else some ⟨fun _ => build (String.ofList digits), mark ++ digits, chars.dropWhile isDigit⟩

/-- A hexadecimal or bit number at the front of a text. -/
def radixRun? : List Char → Option NumberRun
  | '0' :: 'x' :: rest => markedRun? isHexDigit .hex ['0', 'x'] rest
  | '0' :: 'X' :: rest => markedRun? isHexDigit .hex ['0', 'X'] rest
  | '0' :: 'b' :: rest => markedRun? isBitDigit .bit ['0', 'b'] rest
  | '0' :: 'B' :: rest => markedRun? isBitDigit .bit ['0', 'B'] rest
  | _ => none

/-- The fraction at the front of a text: a dot and any digits. -/
def splitFraction : List Char → List Char × List Char
  | '.' :: rest => ('.' :: (splitDigits rest).1, (splitDigits rest).2)
  | chars => ([], chars)

/-- The sign at the front of a text. -/
def splitSign : List Char → List Char × List Char
  | '+' :: rest => (['+'], rest)
  | '-' :: rest => (['-'], rest)
  | chars => ([], chars)

/-- The exponent at the front of a text: its letter, an optional sign and at least one digit. -/
def splitExponent : List Char → List Char × List Char
  | [] => ([], [])
  | letter :: rest =>
      if letter = 'e' ∨ letter = 'E' then
        let sign := splitSign rest
        let digits := splitDigits sign.2
        if digits.1.isEmpty then ([], letter :: rest)
        else (letter :: (sign.1 ++ digits.1), digits.2)
      else
        ([], letter :: rest)

/-- A decimal number at the front of a text: an integer unless it has a fraction or an exponent. -/
def decimalRun (chars : List Char) : NumberRun :=
  let whole := splitDigits chars
  let fraction := splitFraction whole.2
  let exponent := splitExponent fraction.2
  if fraction.1.isEmpty && exponent.1.isEmpty then
    ⟨integerToken, whole.1, exponent.2⟩
  else
    ⟨fun taken => .number (String.ofList taken), whole.1 ++ fraction.1 ++ exponent.1, exponent.2⟩

/-- A number, unless a character of a name follows it directly: then all such characters belong to
the malformed literal. -/
def finishNumber (run : NumberRun) : Lexeme :=
  let tail := run.rest.takeWhile isNameChar
  if tail.isEmpty then
    .token (run.form run.taken) run.taken run.rest
  else
    .failure (.malformedNumber (String.ofList (run.taken ++ tail))) (run.taken ++ tail)
      (run.rest.dropWhile isNameChar)

/-- The number at the front of a text. -/
def scanNumber (chars : List Char) : Lexeme :=
  finishNumber ((radixRun? chars).getD (decimalRun chars))

end SqlDml
