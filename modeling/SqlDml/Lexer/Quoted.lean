import SqlDml.Lexer.CharClass
import SqlDml.Lexer.Lexeme

/-!
Contract: tokens between quotes.

Owns:
- string literals with doubled quotes and backslash escapes;
- quoted names, where only a doubled quote is special;
- hexadecimal and bit literals written as quoted digits.

Does not own: which quote opens which kind of token; that is the lexer.
-/

namespace SqlDml

/-- What a backslash and the given character stand for.  The wildcards of patterns keep their
backslash. -/
def unescape (char : Char) : List Char :=
  match char with
  | '0' => ['\x00']
  | 'b' => ['\x08']
  | 'n' => ['\n']
  | 'r' => ['\r']
  | 't' => ['\t']
  | 'Z' => ['\x1a']
  | '%' => ['\\', '%']
  | '_' => ['\\', '_']
  | other => [other]

/-- The part of a quoted token behind its opening quote: the decoded value, the characters up to and
with the closing quote, and those after it. -/
structure QuotedBody where
  value : List Char
  taken : List Char
  rest : List Char

/-- Puts a stretch of text, with what it decodes to, before a body. -/
def QuotedBody.prepend (value taken : List Char) (body : QuotedBody) : QuotedBody :=
  ⟨value ++ body.value, taken ++ body.taken, body.rest⟩

/-- Reads up to the closing quote, stretch by stretch: each stretch ends at the next quote or, when
escapes are on, the next backslash.  There is no body when the text ends first.  `fuel` bounds the
number of stretches. -/
def quotedBody? (quote : Char) (escapes : Bool) : Nat → List Char → Option QuotedBody
  | 0, _ => none
  | fuel + 1, chars =>
      let isPlain := fun char : Char => !(char == quote || (escapes && char == '\\'))
      let plain := chars.takeWhile isPlain
      match chars.dropWhile isPlain with
      | [] => none
      | stop :: rest =>
          if stop = quote then
            match rest with
            | [] => some ⟨plain, plain ++ [quote], []⟩
            | next :: after =>
                if next = quote then
                  (quotedBody? quote escapes fuel after).map
                    (QuotedBody.prepend (plain ++ [quote]) (plain ++ [quote, quote]))
                else
                  some ⟨plain, plain ++ [quote], rest⟩
          else
            match rest with
            | [] => none
            | escaped :: after =>
                (quotedBody? quote escapes fuel after).map
                  (QuotedBody.prepend (plain ++ unescape escaped) (plain ++ ['\\', escaped]))

/-- A string literal.  `opening` is its opening quote with what stands before it. -/
def scanString (fuel : Nat) (escapes : Bool) (opening : List Char) (quote : Char)
    (chars : List Char) : Lexeme :=
  match quotedBody? quote escapes fuel chars with
  | some body => .token (.string (String.ofList body.value) quote) (opening ++ body.taken) body.rest
  | none => .failure (.unterminatedString quote) (opening ++ chars) []

/-- A quoted name. -/
def scanQuotedWord (fuel : Nat) (quote : Char) (chars : List Char) : Lexeme :=
  match quotedBody? quote false fuel chars with
  | some body =>
      .token (.quotedWord (String.ofList body.value) quote) (quote :: body.taken) body.rest
  | none => .failure (.unterminatedIdentifier quote) (quote :: chars) []

/-- A literal of quoted digits.  `opening` is the letter with the opening quote, `accepts` judges
the digits and `build` makes the token. -/
def scanDigitString (opening : List Char) (accepts : List Char → Bool) (build : String → TokenKind)
    (chars : List Char) : Lexeme :=
  let digits := chars.takeWhile (· != '\'')
  match chars.dropWhile (· != '\'') with
  | [] => .failure (.unterminatedString '\'') (opening ++ chars) []
  | closing :: rest =>
      let taken := opening ++ digits ++ [closing]
      if accepts digits then .token (build (String.ofList digits)) taken rest
      else .failure (.malformedNumber (String.ofList taken)) taken rest

/-- A hexadecimal literal of quoted digits has an even number of them. -/
def scanHexString (opening chars : List Char) : Lexeme :=
  scanDigitString opening (fun digits => digits.all isHexDigit && digits.length % 2 == 0) .hex chars

/-- A bit literal of quoted digits. -/
def scanBitString (opening chars : List Char) : Lexeme :=
  scanDigitString opening (fun digits => digits.all isBitDigit) .bit chars

end SqlDml
