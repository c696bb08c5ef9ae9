import SqlDml.Grammar.Query
import SqlDml.Tree.Statement

/-!
Contract: the rules for statements.

Owns:
- inserts and replaces with their three sources of rows;
- updates;
- deletes, whose three forms begin alike.

Does not own: the end of a source, and what is reported when parsing fails.
-/

namespace SqlDml

namespace Rule

/-! ## Assignments and rows -/

/-- `column = value` -/
def assignment (inner : InnerRules) : Rule Assignment := do
  let column ← columnRef
  let _ ← expectMark .equal
  let value ← inner.expr
  return ⟨column, value, column.span.merge value.span⟩

/-- One assignment or more, with commas between them. -/
def assignments (inner : InnerRules) : Rule (List Assignment) := commaSeparated (assignment inner)

/-- `(value, ...)` or `()` -/
def valueRow (inner : InnerRules) : Rule (List Expr) := do
  let _ ← expectMark .leftParen
  if ← eatMark .rightParen then
    return []
  else
    let row ← exprs inner
    let _ ← expectMark .rightParen
    return row

/-! ## Inserts -/

/-- `INSERT` or `REPLACE` -/
def insertKind : Rule InsertKind := do
  if ← eatWord .REPLACE then
    return .replace
  else
    let _ ← expectWord .INSERT
    return .insert

/-- The priority that a token names.  A replace takes no high priority. -/
def insertPriority? (kind : InsertKind) : TokenKind → Option InsertPriority
  | .keyword .LOW_PRIORITY => some .lowPriority
  | .keyword .DELAYED => some .delayed
  | .keyword .HIGH_PRIORITY => if kind = .insert then some .highPriority else none
  | _ => none

/-- An optional priority. -/
def insertPriority (kind : InsertKind) : Rule (Option InsertPriority) := do
  match insertPriority? kind (← peek) with
  | some priority =>
      let _ ← advance
      return some priority
  | none => return none

/-- A word that only inserts take. -/
def eatInsertWord (kind : InsertKind) (word : Keyword) : Rule Bool := do
  if kind = .insert then eatWord word else return false

/-- A list of columns, unless the parenthesis opens a query. -/
def insertColumns : Rule (List Ident) := do
  if ← nextIsMark .leftParen then
    if (← peekAhead 1).startsQuery then
      return []
    else
      identsInParensOrNone
  else
    return []

/-- Rows of values, or a query. -/
def insertRows (inner : InnerRules) : Rule InsertSource := do
  match ← peek with
  | .keyword .VALUES | .keyword .VALUE =>
      let _ ← advance
      return .values (← commaSeparated (valueRow inner))
  | kind =>
      if kind.startsQuery then
        return .select (← inner.query)
      else
        fail ["VALUES", "VALUE", "SELECT", "SET"]

/-- The columns of an insert and the source of its rows. -/
def insertSource (inner : InnerRules) : Rule (List Ident × InsertSource) := do
  if ← eatWord .SET then
    return ([], .set (← assignments inner))
  else
    let columns ← insertColumns
    let source ← insertRows inner
    return (columns, source)

/-- `[ON DUPLICATE KEY UPDATE assignments]`, which only inserts take. -/
def onDuplicate (inner : InnerRules) (kind : InsertKind) : Rule (List Assignment) := do
  if ← eatInsertWord kind .ON then
    let _ ← expectWord .DUPLICATE
    let _ ← expectWord .KEY
    let _ ← expectWord .UPDATE
    assignments inner
  else
    return []

/-- An `INSERT` or `REPLACE` statement. -/
def insert (inner : InnerRules) : Rule Insert := do
  let start ← currentSpan
  let kind ← insertKind
  let priority ← insertPriority kind
  let ignore ← eatInsertWord kind .IGNORE
  let _ ← eatWord .INTO
  let table ← tableName
  let partitions ← partitions
  let (columns, source) ← insertSource inner
  let onDuplicate ← onDuplicate inner kind
  return ⟨kind, priority, ignore, table, partitions, columns, source, onDuplicate,
    start.merge (← previousSpan)⟩

/-! ## Updates -/

/-- The options of an update: low priority, and ignoring failures. -/
def updateOptions : Rule (Bool × Bool) :=
  whileSome (fun options => do
    if ← eatWord .LOW_PRIORITY then
      return some (true, options.2)
    else if ← eatWord .IGNORE then
      return some (options.1, true)
    else
      return none) (false, false)

/-- An `UPDATE` statement. -/
def update (inner : InnerRules) : Rule Update := do
  let start ← expectWord .UPDATE
  let (lowPriority, ignore) ← updateOptions
  let tables ← tableRefs inner
  let _ ← expectWord .SET
  let assignments ← assignments inner
  let filter ← whereClause inner
  let orderBy ← orderByClause inner
  let limit ← limitClause false
  return ⟨lowPriority, ignore, tables, assignments, filter, orderBy, limit,
    start.merge (← previousSpan)⟩

/-! ## Deletes -/

/-- The options of a delete. -/
structure DeleteOptions where
  lowPriority : Bool := false
  quick : Bool := false
  ignore : Bool := false

/-- The options of a delete with one more option that a token names. -/
def addDeleteOption (options : DeleteOptions) : TokenKind → Option DeleteOptions
  | .keyword .LOW_PRIORITY => some { options with lowPriority := true }
  | .keyword .QUICK => some { options with quick := true }
  | .keyword .IGNORE => some { options with ignore := true }
  | _ => none

/-- The options of a delete, in any order. -/
def deleteOptions : Rule DeleteOptions :=
  whileSome (fun options => do
    match addDeleteOption options (← peek) with
    | some more =>
        let _ ← advance
        return some more
    | none => return none) {}

/-- `[schema.]table[.*]` -/
def deleteTarget : Rule TableName := do
  let target ← tableName
  if ← nextIsMark .dot then
    if ← aheadIs 1 (.punct .star) then
      let _ ← advance
      let _ ← advance
  return target

/-- One target or more, with commas between them. -/
def deleteTargets : Rule (List TableName) := commaSeparated deleteTarget

/-- `table [PARTITION (...)] [[AS] alias]`, where the partitions may also follow the alias. -/
def deleteTable : Rule NamedTable := do
  let name ← tableName
  let before ← partitions
  let aliasName ← aliasName
  let partitions ← if before.isEmpty then partitions else pure before
  return ⟨name, partitions, aliasName, [], name.span.merge (← previousSpan)⟩

/-- `targets USING table references` -/
def deleteUsing (inner : InnerRules) : Rule (List TableName × DeleteSource) := do
  let targets ← deleteTargets
  let _ ← expectWord .USING
  return (targets, .multi (← tableRefs inner) true)

/-- The targets of a delete and the tables that it looks at.  Behind `FROM` the form with `USING` is
tried first; otherwise a single table is meant. -/
def deleteSource (inner : InnerRules) : Rule (List TableName × DeleteSource) := do
  if ← eatWord .FROM then
    match ← attempt (deleteUsing inner) with
    | some form => return form
    | none => return ([], .single (← deleteTable))
  else
    let targets ← deleteTargets
    let _ ← expectWord .FROM
    return (targets, .multi (← tableRefs inner) false)

/-- The order and the limit of a delete, which only a single table takes. -/
def deleteTail (inner : InnerRules) (source : DeleteSource) :
    Rule (List OrderingTerm × Option LimitClause) := do
  match source with
  | .single _ =>
      let orderBy ← orderByClause inner
      let limit ← limitClause false
      return (orderBy, limit)
  | .multi _ _ => return ([], none)

/-- A `DELETE` statement. -/
def delete (inner : InnerRules) : Rule Delete := do
  let start ← expectWord .DELETE
  let options ← deleteOptions
  let (targets, source) ← deleteSource inner
  let filter ← whereClause inner
  let (orderBy, limit) ← deleteTail inner source
  return ⟨options.lowPriority, options.quick, options.ignore, targets, source, filter, orderBy,
    limit, start.merge (← previousSpan)⟩

/-! ## Statements -/

/-- A statement, by its first token. -/
def statement (inner : InnerRules) : Rule Statement := do
  match ← peek with
  | .keyword .INSERT | .keyword .REPLACE => return .insert (← insert inner)
  | .keyword .UPDATE => return .update (← update inner)
  | .keyword .DELETE => return .delete (← delete inner)
  | kind =>
      if kind.startsQuery then
        return .select (← inner.query)
      else
        fail ["SELECT", "WITH", "'('", "INSERT", "REPLACE", "UPDATE", "DELETE"]

end Rule

end SqlDml
