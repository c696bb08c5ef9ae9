import SqlDml.Grammar.Table

/-!
Contract: the rules for queries and for the clauses that statements share.

Owns:
- select blocks, their union, and the clauses around them;
- ordering terms, limits, conditions and locking.

Does not own: how deep queries may nest.
-/

namespace SqlDml

namespace Rule

/-! ## Shared clauses -/

/-- `[WHERE condition]` -/
def whereClause (inner : InnerRules) : Rule (Option Expr) := do
  if ← eatWord .WHERE then
    return some (← inner.expr)
  else
    return none

/-- `[ASC|DESC]` -/
def sortDirection : Rule (Option SortDirection) := do
  if ← eatWord .ASC then
    return some .asc
  else if ← eatWord .DESC then
    return some .desc
  else
    return none

/-- `expr [ASC|DESC]` -/
def orderingTerm (inner : InnerRules) : Rule OrderingTerm := do
  let expr ← inner.expr
  match ← sortDirection with
  | some direction => return ⟨expr, some direction, expr.span.merge (← previousSpan)⟩
  | none => return ⟨expr, none, expr.span⟩

/-- One ordering term or more, with commas between them. -/
def orderingTerms (inner : InnerRules) : Rule (List OrderingTerm) :=
  commaSeparated (orderingTerm inner)

/-- `[ORDER BY terms]` -/
def orderByClause (inner : InnerRules) : Rule (List OrderingTerm) := do
  if ← eatWord .ORDER then
    let _ ← expectWord .BY
    orderingTerms inner
  else
    return []

/-- An integer or a parameter marker. -/
def limitOperand : Rule Expr := do
  match ← peek with
  | .integer value => tokenLiteral (.integer value)
  | .punct .question => placeholder
  | _ => fail ["integer", "'?'"]

/-- The numbers of a limit.  Of two numbers with a comma the first is the offset. -/
def limitNumbers : Rule (Expr × Option Expr) := do
  let first ← limitOperand
  if ← eatMark .comma then
    let count ← limitOperand
    return (count, some first)
  else if ← eatWord .OFFSET then
    return (first, some (← limitOperand))
  else
    return (first, none)

/-- `LIMIT count`, and where an offset is allowed also `LIMIT offset, count` and
`LIMIT count OFFSET offset`. -/
def limitClause (allowOffset : Bool) : Rule (Option LimitClause) := do
  if ← nextIsWord .LIMIT then
    let start ← expectWord .LIMIT
    let (count, offset) ←
      if allowOffset then
        limitNumbers
      else do
        pure (← limitOperand, none)
    return some ⟨count, offset, start.merge (← previousSpan)⟩
  else
    return none

/-- `UPDATE` or `SHARE` behind `FOR`. -/
def lockMode : Rule LockMode := do
  if ← eatWord .UPDATE then
    return .forUpdate
  else if ← eatWord .SHARE then
    return .forShare
  else
    fail ["UPDATE", "SHARE"]

/-- `[OF tables]` -/
def lockedTables : Rule (List TableName) := do
  if ← eatWord .OF then
    commaSeparated tableName
  else
    return []

/-- `[NOWAIT | SKIP LOCKED]` -/
def lockWait : Rule (Option LockWait) := do
  if ← eatWord .NOWAIT then
    return some .noWait
  else if ← eatWord .SKIP then
    let _ ← expectWord .LOCKED
    return some .skipLocked
  else
    return none

/-- `FOR UPDATE|SHARE [OF tables] [NOWAIT | SKIP LOCKED]` or `LOCK IN SHARE MODE` -/
def lockingClause : Rule (Option LockingClause) := do
  let start ← currentSpan
  if ← eatWord .LOCK then
    let _ ← expectWord .IN
    let _ ← expectWord .SHARE
    let _ ← expectWord .MODE
    return some ⟨.lockInShareMode, [], none, start.merge (← previousSpan)⟩
  else if ← eatWord .FOR then
    let mode ← lockMode
    let tables ← lockedTables
    let wait ← lockWait
    return some ⟨mode, tables, wait, start.merge (← previousSpan)⟩
  else
    return none

/-! ## Select blocks -/

/-- The options of a select block with one more option that a token names. -/
def addModifier (modifiers : SelectModifiers) : TokenKind → Option SelectModifiers
  | .keyword .ALL => some { modifiers with quantifier := some .all }
  | .keyword .DISTINCT => some { modifiers with quantifier := some .distinct }
  | .keyword .DISTINCTROW => some { modifiers with quantifier := some .distinctRow }
  | .keyword .HIGH_PRIORITY => some { modifiers with highPriority := true }
  | .keyword .STRAIGHT_JOIN => some { modifiers with straightJoin := true }
  | .keyword .SQL_SMALL_RESULT => some { modifiers with smallResult := true }
  | .keyword .SQL_BIG_RESULT => some { modifiers with bigResult := true }
  | .keyword .SQL_BUFFER_RESULT => some { modifiers with bufferResult := true }
  | .keyword .SQL_CACHE => some { modifiers with cache := some .cache }
  | .keyword .SQL_NO_CACHE => some { modifiers with cache := some .noCache }
  | .keyword .SQL_CALC_FOUND_ROWS => some { modifiers with calcFoundRows := true }
  | _ => none

/-- The options between `SELECT` and the select list, in any order. -/
def selectModifiers : Rule SelectModifiers :=
  whileSome (fun modifiers => do
    match addModifier modifiers (← peek) with
    | some more =>
        let _ ← advance
        return some more
    | none => return none) {}

/-- An expression with an optional alias. -/
def exprItem (inner : InnerRules) : Rule SelectItem := do
  let value ← inner.expr
  let aliasName ← aliasOrString
  let span := match aliasName with
    | some ident => value.span.merge ident.span
    | none => value.span
  return .expr value aliasName span

/-- `table.*` -/
def tableWildcard : Rule SelectItem := do
  let table ← identifier
  let _ ← advance
  let star ← advance
  return .qualifiedWildcard none table (table.span.merge star.span)

/-- `schema.table.*` -/
def schemaWildcard : Rule SelectItem := do
  let schema ← identifier
  let _ ← advance
  let table ← identifierAfterDot
  let _ ← advance
  let star ← advance
  return .qualifiedWildcard (some schema) table (schema.span.merge star.span)

/-- Whether `.table.*` follows the name at the cursor. -/
def schemaWildcardFollows : Rule Bool := do
  if (← peekAhead 2).isNameAfterDot then
    if ← aheadIs 3 (.punct .dot) then
      aheadIs 4 (.punct .star)
    else
      return false
  else
    return false

/-- A select item that begins with a name and a dot. -/
def dottedItem (inner : InnerRules) : Rule SelectItem := do
  if ← aheadIs 2 (.punct .star) then
    tableWildcard
  else if ← schemaWildcardFollows then
    schemaWildcard
  else
    exprItem inner

/-- An entry of a select list. -/
def selectItem (inner : InnerRules) : Rule SelectItem := do
  if ← nextIsMark .star then
    return .wildcard (← advance).span
  else if (← peek).isName then
    if ← aheadIs 1 (.punct .dot) then
      dottedItem inner
    else
      exprItem inner
  else
    exprItem inner

/-- `[FROM table references]` -/
def fromClause (inner : InnerRules) : Rule (List TableRef) := do
  if ← eatWord .FROM then
    tableRefs inner
  else
    return []

/-- `[WITH ROLLUP]` -/
def withRollup : Rule Bool := do
  if ← nextIsWord .WITH then
    if ← aheadIs 1 (.keyword .ROLLUP) then
      let _ ← advance
      let _ ← advance
      return true
    else
      return false
  else
    return false

/-- `[GROUP BY terms [WITH ROLLUP]]` -/
def groupByClause (inner : InnerRules) : Rule (List OrderingTerm × Bool) := do
  if ← eatWord .GROUP then
    let _ ← expectWord .BY
    let terms ← orderingTerms inner
    return (terms, ← withRollup)
  else
    return ([], false)

/-- `[HAVING condition]` -/
def havingClause (inner : InnerRules) : Rule (Option Expr) := do
  if ← eatWord .HAVING then
    return some (← inner.expr)
  else
    return none

/-- One select block. -/
def selectCore (inner : InnerRules) : Rule SelectCore := do
  let start ← expectWord .SELECT
  let modifiers ← selectModifiers
  let columns ← commaSeparated (selectItem inner)
  let sources ← fromClause inner
  let filter ← whereClause inner
  let (groupBy, rollup) ← groupByClause inner
  let having ← havingClause inner
  return ⟨modifiers, columns, sources, filter, groupBy, rollup, having,
    start.merge (← previousSpan)⟩

/-! ## Queries -/

/-- A select block or a query in parentheses. -/
def queryTerm (inner : InnerRules) : Rule QueryTerm := do
  match ← peek with
  | .punct .leftParen =>
      let _ ← advance
      let query ← inner.query
      let _ ← expectMark .rightParen
      return .nested query
  | .keyword .SELECT => return .select (← selectCore inner)
  | _ => fail ["SELECT", "'('"]

/-- `[ALL | DISTINCT]` behind `UNION` -/
def compoundOp : Rule CompoundOp := do
  if ← eatWord .ALL then
    return .unionAll
  else
    let _ ← eatWord .DISTINCT
    return .union

/-- `term [UNION term]...` -/
def queryBody (inner : InnerRules) : Rule QueryBody := do
  let start ← currentSpan
  let first ← queryTerm inner
  let compounds ← whileSome (fun compounds => do
    if ← eatWord .UNION then
      let op ← compoundOp
      return some ((op, ← queryTerm inner) :: compounds)
    else
      return none) []
  return ⟨first, compounds.reverse, start.merge (← previousSpan)⟩

/-- `name [(columns)] AS (query)` -/
def commonTable (inner : InnerRules) : Rule CommonTable := do
  let name ← identifier
  let columns ← if ← nextIsMark .leftParen then identsInParens else pure []
  let _ ← expectWord .AS
  let _ ← expectMark .leftParen
  let query ← inner.query
  let stop ← expectMark .rightParen
  return ⟨name, columns, query, name.span.merge stop⟩

/-- `[WITH [RECURSIVE] common tables]` -/
def withClause (inner : InnerRules) : Rule (Option WithClause) := do
  if ← nextIsWord .WITH then
    let start ← expectWord .WITH
    let recursive ← eatWord .RECURSIVE
    let tables ← commaSeparated (commonTable inner)
    return some ⟨recursive, tables, start.merge (← previousSpan)⟩
  else
    return none

/-- A whole query, one nesting level deep. -/
def wholeQuery (inner : InnerRules) : Rule Query := do
  let start ← currentSpan
  let withClause ← withClause inner
  let body ← queryBody inner
  let orderBy ← orderByClause inner
  let limit ← limitClause true
  let locking ← lockingClause
  return ⟨withClause, body, orderBy, limit, locking, start.merge (← previousSpan)⟩

end Rule

end SqlDml
