import SqlDml.Grammar.Expr

/-!
Contract: the rules for table references.

Owns:
- named tables with partitions, alias and index hints;
- joins, which group to the left, and their conditions;
- derived tables and table references in parentheses.

Does not own: the query inside a derived table.
-/

namespace SqlDml

namespace Rule

/-! ## Named tables -/

/-- The action that a token names at the beginning of an index hint. -/
def hintAction? : TokenKind → Option IndexHintAction
  | .keyword .USE => some .use
  | .keyword .IGNORE => some .ignore
  | .keyword .FORCE => some .force
  | _ => none

/-- Whether a token follows the action of an index hint. -/
def isIndexWord : TokenKind → Bool
  | .keyword .INDEX | .keyword .KEY => true
  | _ => false

/-- `[FOR JOIN|ORDER BY|GROUP BY]` -/
def hintScope : Rule (Option IndexHintScope) := do
  if ← eatWord .FOR then
    if ← eatWord .JOIN then
      return some .join
    else if ← eatWord .ORDER then
      let _ ← expectWord .BY
      return some .orderBy
    else if ← eatWord .GROUP then
      let _ ← expectWord .BY
      return some .groupBy
    else
      fail ["JOIN", "ORDER", "GROUP"]
  else
    return none

/-- An index hint with its action at the cursor.  Only `USE` takes an empty list. -/
def indexHint (action : IndexHintAction) : Rule IndexHint := do
  let start ← advance
  let _ ← advance
  let scope ← hintScope
  let indexes ← if action = .use then identsInParensOrNone else identsInParens
  return ⟨action, scope, indexes, start.span.merge (← previousSpan)⟩

/-- Consumes a comma that another index hint follows. -/
def skipHintComma : Rule Unit := do
  if ← nextIsMark .comma then
    if (hintAction? (← peekAhead 1)).isSome then
      let _ ← advance

/-- Index hints, with or without commas between them. -/
def indexHints : Rule (List IndexHint) := do
  let hints ← whileSome (fun hints => do
    match hintAction? (← peek) with
    | none => return none
    | some action =>
        if isIndexWord (← peekAhead 1) then
          let hint ← indexHint action
          skipHintComma
          return some (hint :: hints)
        else
          return none) []
  return hints.reverse

/-- `[schema.]table [PARTITION (...)] [[AS] alias] [index hints]` -/
def namedTable : Rule NamedTable := do
  let name ← tableName
  let partitions ← partitions
  let aliasName ← aliasName
  let indexHints ← indexHints
  return ⟨name, partitions, aliasName, indexHints, name.span.merge (← previousSpan)⟩

/-! ## Joins -/

/-- The word `JOIN` behind the words that select a type. -/
def joinWord (join : JoinType) : Rule (Option JoinType) := do
  let _ ← expectWord .JOIN
  return some join

/-- The words behind `NATURAL` that select a type. -/
def naturalJoin : Rule JoinType := do
  if ← eatWord .LEFT then
    let _ ← eatWord .OUTER
    return .naturalLeft
  else if ← eatWord .RIGHT then
    let _ ← eatWord .OUTER
    return .naturalRight
  else
    let _ ← eatWord .INNER
    return .natural

/-- The words that join the next table, if they follow. -/
def joinType : Rule (Option JoinType) := do
  match ← peek with
  | .keyword .JOIN =>
      let _ ← advance
      return some .inner
  | .keyword .STRAIGHT_JOIN =>
      let _ ← advance
      return some .straight
  | .keyword .INNER =>
      let _ ← advance
      joinWord .inner
  | .keyword .CROSS =>
      let _ ← advance
      joinWord .cross
  | .keyword .LEFT =>
      let _ ← advance
      let _ ← eatWord .OUTER
      joinWord .left
  | .keyword .RIGHT =>
      let _ ← advance
      let _ ← eatWord .OUTER
      joinWord .right
  | .keyword .NATURAL =>
      let _ ← advance
      joinWord (← naturalJoin)
  | _ => return none

/-- `[ON condition]` -/
def onCondition (inner : InnerRules) : Rule (Option JoinCondition) := do
  if ← eatWord .ON then
    return some (.on (← inner.expr))
  else
    return none

/-- `[ON condition | USING (columns)]` -/
def onOrUsing (inner : InnerRules) : Rule (Option JoinCondition) := do
  match ← onCondition inner with
  | some condition => return some condition
  | none =>
      if ← eatWord .USING then
        return some (.using (← identsInParens))
      else
        return none

/-- The condition that a type of join takes.  A natural join takes none, a straight join only `ON`,
and an outer join cannot do without. -/
def joinCondition (inner : InnerRules) (join : JoinType) : Rule (Option JoinCondition) := do
  if join.forbidsCondition then
    return none
  else if join = .straight then
    onCondition inner
  else
    match ← onOrUsing inner with
    | some condition => return some condition
    | none => if join.requiresCondition then fail ["ON", "USING"] else return none

/-- A table or what stands in parentheses in its place. -/
def tableFactor (inner : InnerRules) : Rule TableRef := do
  if ← nextIsMark .leftParen then
    inner.tableInParens
  else
    return .named (← namedTable)

/-- Joins one more table to the left, if it follows. -/
def extendJoin (inner : InnerRules) (left : TableRef) : Rule (Option TableRef) := do
  match ← joinType with
  | none => return none
  | some join =>
      let right ← tableFactor inner
      let condition ← joinCondition inner join
      return some (.joined left join right condition (left.span.merge (← previousSpan)))

/-- A table and all that is joined to it. -/
def tableRef (inner : InnerRules) : Rule TableRef := do
  whileSome (extendJoin inner) (← tableFactor inner)

/-- One table reference or more, with commas between them. -/
def tableRefs (inner : InnerRules) : Rule (List TableRef) := commaSeparated (tableRef inner)

/-! ## Parentheses -/

/-- `(query) [AS] alias` -/
def derivedTable (inner : InnerRules) (start : Span) : Rule TableRef := do
  let _ ← expectMark .leftParen
  let query ← inner.query
  let _ ← expectMark .rightParen
  match ← aliasName with
  | some name => return .derived query name (start.merge (← previousSpan))
  | none => fail ["derived table alias"]

/-- `(table references)` -/
def tableRefsInParens (inner : InnerRules) (start : Span) : Rule TableRef := do
  let _ ← expectMark .leftParen
  let refs ← tableRefs inner
  let stop ← expectMark .rightParen
  return .parenthesized refs (start.merge stop)

/-- What a parenthesis begins among table references.  Where a query may follow, the derived table
is tried first. -/
def tableInParensBody (inner : InnerRules) : Rule TableRef := do
  let start ← currentSpan
  if (← peekAhead 1).startsQuery then
    match ← attempt (derivedTable inner start) with
    | some derived => return derived
    | none => tableRefsInParens inner start
  else
    tableRefsInParens inner start

end Rule

end SqlDml
