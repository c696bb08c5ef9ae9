import SqlDml.Lexer.Number
import SqlDml.Lexer.Quoted
import SqlDml.Settings

/-!
Contract: the token at the front of a text.

Owns:
- names and keywords, and the longest operator at the front of a text;
- the choice of the kind of token by the first characters.

Does not own: trivia before a token, and positions.
-/

namespace SqlDml

/-- A name or keyword. -/
def scanWord (chars : List Char) : Lexeme :=
  let text := chars.takeWhile isNameChar
  let kind := match Keyword.ofWord? text with
    | some keyword => TokenKind.keyword keyword
    | none => TokenKind.word (String.ofList text)
  .token kind text (chars.dropWhile isNameChar)

/-- The longest operator or punctuation mark at the front of a text, and what follows it. -/
def punctAt? : List Char → Option (Punct × List Char)
  | '<' :: '=' :: '>' :: rest => some (.nullSafeEqual, rest)
  | '<' :: '=' :: rest => some (.lessEqual, rest)
  | '<' :: '>' :: rest => some (.lessGreater, rest)
  | '<' :: '<' :: rest => some (.shiftLeft, rest)
  | '<' :: rest => some (.less, rest)
  | '>' :: '=' :: rest => some (.greaterEqual, rest)
  | '>' :: '>' :: rest => some (.shiftRight, rest)
  | '>' :: rest => some (.greater, rest)
  | '!' :: '=' :: rest => some (.bangEqual, rest)
  | '!' :: rest => some (.bang, rest)
  | '|' :: '|' :: rest => some (.doublePipe, rest)
  | '|' :: rest => some (.pipe, rest)
  | '&' :: '&' :: rest => some (.doubleAmpersand, rest)
  | '&' :: rest => some (.ampersand, rest)
  | '?' :: rest => some (.question, rest)
  | '+' :: rest => some (.plus, rest)
  | '-' :: rest => some (.minus, rest)
  | '*' :: rest => some (.star, rest)
  | '/' :: rest => some (.slash, rest)
  | '%' :: rest => some (.percent, rest)
  | '^' :: rest => some (.caret, rest)
  | '~' :: rest => some (.tilde, rest)
  | '=' :: rest => some (.equal, rest)
  | '.' :: rest => some (.dot, rest)
  | ',' :: rest => some (.comma, rest)
  | ';' :: rest => some (.semicolon, rest)
  | '(' :: rest => some (.leftParen, rest)
  | ')' :: rest => some (.rightParen, rest)
  | '\x7b' :: rest => some (.leftBrace, rest)
  | '\x7d' :: rest => some (.rightBrace, rest)
  | _ => none

/-- Whether a text begins with a single quote. -/
def opensString : List Char → Bool
  | '\'' :: _ => true
  | _ => false

/-- Whether a text begins with a decimal digit. -/
def opensDigits : List Char → Bool
  | char :: _ => char.isDigit
  | [] => false

/-- The token at the front of a text without trivia in front.  An unexpected character is not taken.
`fuel` bounds the stretches of a quoted token; the number of characters is enough. -/
def scanLexeme (settings : Settings) (fuel : Nat) (chars : List Char) : Lexeme :=
  match chars with
  | [] => .token .endOfInput [] []
  | first :: rest =>
      let escapes := !settings.noBackslashEscapes
      if first = '\'' ∨ (first = '"' ∧ settings.ansiQuotes = false) then
        scanString fuel escapes [first] first rest
      else if first = '"' ∨ first = '\x60' then
        scanQuotedWord fuel first rest
      else if (first = 'x' ∨ first = 'X') ∧ opensString rest then
        scanHexString [first, '\''] rest.tail
      else if (first = 'b' ∨ first = 'B') ∧ opensString rest then
        scanBitString [first, '\''] rest.tail
      else if (first = 'n' ∨ first = 'N') ∧ opensString rest then
        scanString fuel escapes [first, '\''] '\'' rest.tail
      else if first.isDigit ∨ (first = '.' ∧ opensDigits rest) then
        scanNumber chars
      else if isNameStart first then
        scanWord chars
      else
        match punctAt? chars with
        | some (mark, after) => .token (.punct mark) mark.text.toList after
        | none => .failure (.unexpectedChar first) [] chars

end SqlDml
