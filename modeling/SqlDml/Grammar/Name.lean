import SqlDml.Grammar.Rule

/-!
Contract: the rules for names.

Owns:
- which tokens can be read as identifiers;
- table names, column references, aliases and lists of identifiers.

Does not own: what the names refer to.
-/

namespace SqlDml

/-- Reads a token as an identifier.  A keyword that may stand for a name keeps the spelling that it
has in the source. -/
def identOfToken? (source : List Char) (anyKeyword : Bool) (token : Token) : Option Ident :=
  match token.kind with
  | .word text => some ⟨text, none, token.span⟩
  | .quotedWord value quote => some ⟨value, some quote, token.span⟩
  | .keyword kw =>
      if anyKeyword || kw.isNonreserved then
        let text := ((token.span.slice? source).map String.ofList).getD kw.spelling
        some ⟨text, none, token.span⟩
      else
        none
  | _ => none

namespace Rule

/-- An identifier, for which every keyword may stand if so wanted. -/
def name (anyKeyword : Bool) : Rule Ident := do
  let token ← peekToken 0
  match identOfToken? (← get).source anyKeyword token with
  | some ident =>
      let _ ← advance
      return ident
  | none => fail ["identifier"]

/-- An identifier. -/
def identifier : Rule Ident := name false

/-- An identifier after a dot, or wherever every keyword is a name. -/
def identifierAfterDot : Rule Ident := name true

/-- Whether a dot and a name follow. -/
def dotNameFollows : Rule Bool := do
  if ← nextIsMark .dot then
    return (← peekAhead 1).isNameAfterDot
  else
    return false

/-- `[schema.]table` -/
def tableName : Rule TableName := do
  let first ← identifier
  if ← dotNameFollows then
    let _ ← advance
    let table ← identifierAfterDot
    return ⟨some first, table, first.span.merge table.span⟩
  else
    return ⟨none, first, first.span⟩

/-- `[[schema.]table.]column` -/
def columnRef : Rule ColumnRef := do
  let first ← identifier
  if ← dotNameFollows then
    let _ ← advance
    let second ← identifierAfterDot
    if ← dotNameFollows then
      let _ ← advance
      let third ← identifierAfterDot
      return ⟨some first, some second, third, first.span.merge third.span⟩
    else
      return ⟨none, some first, second, first.span.merge second.span⟩
  else
    return ⟨none, none, first, first.span⟩

/-- Identifiers and the parenthesis that closes their list. -/
def restOfIdents : Rule (List Ident) := do
  let idents ← commaSeparated identifier
  let _ ← expectMark .rightParen
  return idents

/-- `(a, b, ...)` -/
def identsInParens : Rule (List Ident) := do
  let _ ← expectMark .leftParen
  restOfIdents

/-- `(a, b, ...)` or `()` -/
def identsInParensOrNone : Rule (List Ident) := do
  let _ ← expectMark .leftParen
  if ← eatMark .rightParen then
    return []
  else
    restOfIdents

/-- `[AS] alias`, where the alias is a name. -/
def aliasName : Rule (Option Ident) := do
  if ← eatWord .AS then
    return some (← identifier)
  else if (← peek).isName then
    return some (← identifier)
  else
    return none

/-- `[AS] alias`, where the alias is a name or a string. -/
def aliasOrString : Rule (Option Ident) := do
  let explicit ← eatWord .AS
  let token ← peekToken 0
  match token.kind with
  | .string value quote =>
      let _ ← advance
      return some ⟨value, some quote, token.span⟩
  | kind =>
      if explicit || kind.isName then
        return some (← identifier)
      else
        return none

/-- `[PARTITION (a, b, ...)]` -/
def partitions : Rule (List Ident) := do
  if ← eatWord .PARTITION then
    identsInParens
  else
    return []

end Rule

end SqlDml
