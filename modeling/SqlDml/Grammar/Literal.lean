import SqlDml.Grammar.Name

/-!
Contract: the rules for constants, parameter markers and type names.

Owns:
- runs of adjacent strings, which are one string;
- temporal, introduced and brace literals, and the current timestamp;
- the character sets that can introduce a literal;
- parameter markers, and the target types of casts.

Does not own: the other expressions.
-/

namespace SqlDml

/-- The character sets that can introduce a literal. -/
def charsets : List String :=
  ["armscii8", "ascii", "big5", "binary", "cp1250", "cp1251", "cp1256", "cp1257", "cp850", "cp852",
   "cp866", "cp932", "dec8", "eucjpms", "euckr", "gb18030", "gb2312", "gbk", "geostd8", "greek",
   "hebrew", "hp8", "keybcs2", "koi8r", "koi8u", "latin1", "latin2", "latin5", "latin7", "macce",
   "macroman", "sjis", "swe7", "tis620", "ucs2", "ujis", "utf16", "utf16le", "utf32", "utf8",
   "utf8mb3", "utf8mb4"]

/-- The character set that a word behind an underscore names, in the spelling of the word. -/
def introducedCharset? (word : String) : Option String :=
  match word.toList with
  | '_' :: charset =>
      if charsets.contains (String.ofList (charset.map Char.toLower)) then
        some (String.ofList charset)
      else
        none
  | _ => none

namespace Rule

/-- Any number of adjacent strings as one, and the span of them all. -/
def stringRun : Rule (String × Span) := do
  let start ← currentSpan
  let value ← whileSome (fun value => do
    match ← peek with
    | .string part _ =>
        let _ ← advance
        return some (value ++ part)
    | _ => return none) ""
  return (value, start.merge (← previousSpan))

/-- A parameter marker, which stands at the cursor. -/
def placeholder : Rule Expr := do
  let token ← advance
  return .placeholder (← nextPlaceholder) token.span

/-- A literal that is a single token. -/
def tokenLiteral (value : Literal) : Rule Expr := do
  let token ← advance
  return .literal value token.span

/-- `DATE '...'`, `TIME '...'` or `TIMESTAMP '...'` -/
def temporalLiteral (kind : TemporalKind) : Rule Expr := do
  let word ← advance
  let (value, span) ← stringRun
  return .literal (.temporal kind value) (word.span.merge span)

/-- The literal behind the name of a character set. -/
def introducedValue : Rule Literal := do
  match ← peek with
  | .string _ _ => return .string (← stringRun).1
  | .hex digits =>
      let _ ← advance
      return .hex digits
  | .bit digits =>
      let _ ← advance
      return .bit digits
  | _ => fail ["string literal"]

/-- `_charset 'text'`, with the name of the character set at the cursor. -/
def introducedLiteral (charset : String) : Rule Expr := do
  let word ← advance
  let value ← introducedValue
  return .literal (.introduced charset value) (word.span.merge (← previousSpan))

/-- A kind and a string in braces. -/
def odbcLiteral : Rule Expr := do
  let start ← expectMark .leftBrace
  let kind ← identifier
  if (← peek).isString then
    let (value, _) ← stringRun
    let stop ← expectMark .rightBrace
    return .literal (.odbc kind.value value) (start.merge stop)
  else
    fail ["string literal"]

/-- `CURRENT_TIMESTAMP` or `CURRENT_TIMESTAMP()` -/
def currentTimestamp : Rule Expr := do
  let start ← advance
  if ← eatMark .leftParen then
    let _ ← expectMark .rightParen
    return .literal .currentTimestamp (start.span.merge (← previousSpan))
  else
    return .literal .currentTimestamp (start.span.merge (← previousSpan))

/-- A word of a type name in capitals. -/
def typeWord? : TokenKind → Option String
  | .word text => some (String.ofList (text.toList.map Char.toUpper))
  | .keyword kw => some kw.spelling
  | _ => none

/-- A length or scale, which must be below 2^32. -/
def typeSize : Rule Nat := do
  match ← peek with
  | .integer value =>
      if value < 4294967296 then
        let _ ← advance
        return value
      else
        fail ["type length"]
  | _ => fail ["type length"]

/-- `[(length[, scale])]` -/
def typeSizes : Rule (Option Nat × Option Nat) := do
  if ← eatMark .leftParen then
    let length ← typeSize
    let scale ← do
      if ← eatMark .comma then
        some <$> typeSize
      else
        pure none
    let _ ← expectMark .rightParen
    return (some length, scale)
  else
    return (none, none)

/-- One word or more, and optional sizes. -/
def typeName : Rule TypeName := do
  let words ← whileSome (fun words => do
    match typeWord? (← peek) with
    | some word =>
        let _ ← advance
        return some (word :: words)
    | none => return none) []
  if words.isEmpty then
    fail ["type name"]
  else
    let (length, scale) ← typeSizes
    return ⟨" ".intercalate words.reverse, length, scale⟩

end Rule

end SqlDml
