import SqlDml.Tree.Statement

/-!
Contract: the walk that rebuilds a tree.

Owns:
- the hooks of a walk: some observe a tree before its children are walked, others replace
  identifiers and spans;
- rebuilding a tree with every identifier and every span replaced, in one fixed order.

Does not own: what the hooks are for.
-/

namespace SqlDml

/-- What is done at each place of a tree, with effects in `m`. -/
structure TreeHooks (m : Type → Type) where
  onQuery : Query → m Unit
  onTableRef : TableRef → m Unit
  onTableName : TableName → m Unit
  onExpr : Expr → m Unit
  onColumnRef : ColumnRef → m Unit
  /-- The identifier to put in place of another, with its span. -/
  ident : Ident → m Ident
  /-- The span to put in place of another. -/
  span : Span → m Span

namespace TreeHooks

variable {m : Type → Type} [Monad m]

/-- Hooks that replace spans and change nothing else. -/
def ofSpans (span : Span → m Span) : TreeHooks m where
  onQuery _ := pure ()
  onTableRef _ := pure ()
  onTableName _ := pure ()
  onExpr _ := pure ()
  onColumnRef _ := pure ()
  ident name := return { name with span := ← span name.span }
  span := span

/-- Replaces an optional identifier. -/
def optionalIdent (hooks : TreeHooks m) : Option Ident → m (Option Ident)
  | some name => some <$> hooks.ident name
  | none => pure none

/-- Replaces identifiers from left to right. -/
def idents (hooks : TreeHooks m) : List Ident → m (List Ident)
  | [] => pure []
  | name :: names => do
      let name ← hooks.ident name
      return name :: (← hooks.idents names)

end TreeHooks

variable {m : Type → Type} [Monad m]

/-! ## Names -/

def TableName.transform (hooks : TreeHooks m) (name : TableName) : m TableName := do
  hooks.onTableName name
  let span ← hooks.span name.span
  let schema ← hooks.optionalIdent name.schema
  let table ← hooks.ident name.table
  return ⟨schema, table, span⟩

/-- Transforms table names from left to right. -/
def TableName.transformAll (hooks : TreeHooks m) : List TableName → m (List TableName)
  | [] => pure []
  | name :: names => do
      let name ← name.transform hooks
      return name :: (← TableName.transformAll hooks names)

def ColumnRef.transform (hooks : TreeHooks m) (ref : ColumnRef) : m ColumnRef := do
  hooks.onColumnRef ref
  let span ← hooks.span ref.span
  let schema ← hooks.optionalIdent ref.schema
  let table ← hooks.optionalIdent ref.table
  let column ← hooks.ident ref.column
  return ⟨schema, table, column, span⟩

def IndexHint.transform (hooks : TreeHooks m) (hint : IndexHint) : m IndexHint := do
  let span ← hooks.span hint.span
  let indexes ← hooks.idents hint.indexes
  return { hint with indexes := indexes, span := span }

/-- Transforms index hints from left to right. -/
def IndexHint.transformAll (hooks : TreeHooks m) : List IndexHint → m (List IndexHint)
  | [] => pure []
  | hint :: hints => do
      let hint ← hint.transform hooks
      return hint :: (← IndexHint.transformAll hooks hints)

def NamedTable.transform (hooks : TreeHooks m) (table : NamedTable) : m NamedTable := do
  let span ← hooks.span table.span
  let name ← table.name.transform hooks
  let partitions ← hooks.idents table.partitions
  let aliasName ← hooks.optionalIdent table.aliasName
  let indexHints ← IndexHint.transformAll hooks table.indexHints
  return ⟨name, partitions, aliasName, indexHints, span⟩

def LockingClause.transform (hooks : TreeHooks m) (locking : LockingClause) :
    m LockingClause := do
  let span ← hooks.span locking.span
  let tables ← TableName.transformAll hooks locking.tables
  return { locking with tables := tables, span := span }

/-! ## Expressions and queries -/

mutual
def Expr.transform (hooks : TreeHooks m) : Expr → m Expr
  | .literal value span => do
      hooks.onExpr (.literal value span)
      return .literal value (← hooks.span span)
  | .column ref => do
      hooks.onExpr (.column ref)
      return .column (← ref.transform hooks)
  | .placeholder index span => do
      hooks.onExpr (.placeholder index span)
      return .placeholder index (← hooks.span span)
  | .default span => do
      hooks.onExpr (.default span)
      return .default (← hooks.span span)
  | .binary left op right span => do
      hooks.onExpr (.binary left op right span)
      let span ← hooks.span span
      let left ← left.transform hooks
      let right ← right.transform hooks
      return .binary left op right span
  | .unary op operand span => do
      hooks.onExpr (.unary op operand span)
      let span ← hooks.span span
      return .unary op (← operand.transform hooks) span
  | .is operand negated value span => do
      hooks.onExpr (.is operand negated value span)
      let span ← hooks.span span
      return .is (← operand.transform hooks) negated value span
  | .quantified left op quantifier query span => do
      hooks.onExpr (.quantified left op quantifier query span)
      let span ← hooks.span span
      let left ← left.transform hooks
      let query ← query.transform hooks
      return .quantified left op quantifier query span
  | .between operand low high negated span => do
      hooks.onExpr (.between operand low high negated span)
      let span ← hooks.span span
      let operand ← operand.transform hooks
      let low ← low.transform hooks
      let high ← high.transform hooks
      return .between operand low high negated span
  | .isIn operand set negated span => do
      hooks.onExpr (.isIn operand set negated span)
      let span ← hooks.span span
      let operand ← operand.transform hooks
      let set ← set.transform hooks
      return .isIn operand set negated span
  | .like operand pattern escape op negated span => do
      hooks.onExpr (.like operand pattern escape op negated span)
      let span ← hooks.span span
      let operand ← operand.transform hooks
      let pattern ← pattern.transform hooks
      let escape ← match escape with
        | some char => some <$> char.transform hooks
        | none => pure none
      return .like operand pattern escape op negated span
  | .soundsLike operand pattern span => do
      hooks.onExpr (.soundsLike operand pattern span)
      let span ← hooks.span span
      let operand ← operand.transform hooks
      let pattern ← pattern.transform hooks
      return .soundsLike operand pattern span
  | .case operand whens otherwise span => do
      hooks.onExpr (.case operand whens otherwise span)
      let span ← hooks.span span
      let operand ← match operand with
        | some expr => some <$> expr.transform hooks
        | none => pure none
      let whens ← Expr.transformWhens hooks whens
      let otherwise ← match otherwise with
        | some expr => some <$> expr.transform hooks
        | none => pure none
      return .case operand whens otherwise span
  | .cast operand target span => do
      hooks.onExpr (.cast operand target span)
      let span ← hooks.span span
      return .cast (← operand.transform hooks) target span
  | .call name args distinct span => do
      hooks.onExpr (.call name args distinct span)
      let span ← hooks.span span
      let name ← hooks.ident name
      let args ← args.transform hooks
      return .call name args distinct span
  | .subquery query span => do
      hooks.onExpr (.subquery query span)
      let span ← hooks.span span
      return .subquery (← query.transform hooks) span
  | .exists query span => do
      hooks.onExpr (.exists query span)
      let span ← hooks.span span
      return .exists (← query.transform hooks) span
  | .row items span => do
      hooks.onExpr (.row items span)
      let span ← hooks.span span
      return .row (← Expr.transformItems hooks items) span
  | .collate operand collation span => do
      hooks.onExpr (.collate operand collation span)
      let span ← hooks.span span
      let operand ← operand.transform hooks
      let collation ← hooks.ident collation
      return .collate operand collation span

def Expr.transformItems (hooks : TreeHooks m) : List Expr → m (List Expr)
  | [] => pure []
  | item :: items => do
      let item ← item.transform hooks
      return item :: (← Expr.transformItems hooks items)

def Expr.transformWhens (hooks : TreeHooks m) : List (Expr × Expr) → m (List (Expr × Expr))
  | [] => pure []
  | (condition, result) :: whens => do
      let condition ← condition.transform hooks
      let result ← result.transform hooks
      return (condition, result) :: (← Expr.transformWhens hooks whens)

def InSet.transform (hooks : TreeHooks m) : InSet → m InSet
  | .list items => return .list (← Expr.transformItems hooks items)
  | .subquery query => return .subquery (← query.transform hooks)

def CallArgs.transform (hooks : TreeHooks m) : CallArgs → m CallArgs
  | .star => pure .star
  | .list items => return .list (← Expr.transformItems hooks items)

def Query.transform (hooks : TreeHooks m) : Query → m Query
  | ⟨withClause, body, orderBy, limit, locking, span⟩ => do
      hooks.onQuery ⟨withClause, body, orderBy, limit, locking, span⟩
      let span ← hooks.span span
      let withClause ← match withClause with
        | some tables => some <$> tables.transform hooks
        | none => pure none
      let body ← body.transform hooks
      let orderBy ← OrderingTerm.transformTerms hooks orderBy
      let limit ← match limit with
        | some clause => some <$> clause.transform hooks
        | none => pure none
      let locking ← match locking with
        | some clause => some <$> clause.transform hooks
        | none => pure none
      return ⟨withClause, body, orderBy, limit, locking, span⟩

def WithClause.transform (hooks : TreeHooks m) : WithClause → m WithClause
  | ⟨recursive, tables, span⟩ => do
      let span ← hooks.span span
      return ⟨recursive, ← CommonTable.transformTables hooks tables, span⟩

def CommonTable.transform (hooks : TreeHooks m) : CommonTable → m CommonTable
  | ⟨name, columns, query, span⟩ => do
      let span ← hooks.span span
      let name ← hooks.ident name
      let columns ← hooks.idents columns
      let query ← query.transform hooks
      return ⟨name, columns, query, span⟩

def CommonTable.transformTables (hooks : TreeHooks m) : List CommonTable → m (List CommonTable)
  | [] => pure []
  | table :: tables => do
      let table ← table.transform hooks
      return table :: (← CommonTable.transformTables hooks tables)

def QueryBody.transform (hooks : TreeHooks m) : QueryBody → m QueryBody
  | ⟨first, compounds, span⟩ => do
      let span ← hooks.span span
      let first ← first.transform hooks
      let compounds ← QueryTerm.transformCompounds hooks compounds
      return ⟨first, compounds, span⟩

def QueryTerm.transform (hooks : TreeHooks m) : QueryTerm → m QueryTerm
  | .select core => return .select (← core.transform hooks)
  | .nested query => return .nested (← query.transform hooks)

def QueryTerm.transformCompounds (hooks : TreeHooks m) :
    List (CompoundOp × QueryTerm) → m (List (CompoundOp × QueryTerm))
  | [] => pure []
  | (op, term) :: compounds => do
      let term ← term.transform hooks
      return (op, term) :: (← QueryTerm.transformCompounds hooks compounds)

def SelectCore.transform (hooks : TreeHooks m) : SelectCore → m SelectCore
  | ⟨modifiers, columns, sources, filter, groupBy, withRollup, having, span⟩ => do
      let span ← hooks.span span
      let columns ← SelectItem.transformItems hooks columns
      let sources ← TableRef.transformRefs hooks sources
      let filter ← match filter with
        | some condition => some <$> condition.transform hooks
        | none => pure none
      let groupBy ← OrderingTerm.transformTerms hooks groupBy
      let having ← match having with
        | some condition => some <$> condition.transform hooks
        | none => pure none
      return ⟨modifiers, columns, sources, filter, groupBy, withRollup, having, span⟩

def SelectItem.transform (hooks : TreeHooks m) : SelectItem → m SelectItem
  | .wildcard span => return .wildcard (← hooks.span span)
  | .qualifiedWildcard schema table span => do
      let span ← hooks.span span
      let schema ← hooks.optionalIdent schema
      let table ← hooks.ident table
      return .qualifiedWildcard schema table span
  | .expr value aliasName span => do
      let span ← hooks.span span
      let value ← value.transform hooks
      let aliasName ← hooks.optionalIdent aliasName
      return .expr value aliasName span

def SelectItem.transformItems (hooks : TreeHooks m) : List SelectItem → m (List SelectItem)
  | [] => pure []
  | item :: items => do
      let item ← item.transform hooks
      return item :: (← SelectItem.transformItems hooks items)

def OrderingTerm.transform (hooks : TreeHooks m) : OrderingTerm → m OrderingTerm
  | ⟨expr, direction, span⟩ => do
      let span ← hooks.span span
      return ⟨← expr.transform hooks, direction, span⟩

def OrderingTerm.transformTerms (hooks : TreeHooks m) :
    List OrderingTerm → m (List OrderingTerm)
  | [] => pure []
  | term :: terms => do
      let term ← term.transform hooks
      return term :: (← OrderingTerm.transformTerms hooks terms)

def LimitClause.transform (hooks : TreeHooks m) : LimitClause → m LimitClause
  | ⟨count, offset, span⟩ => do
      let span ← hooks.span span
      let count ← count.transform hooks
      let offset ← match offset with
        | some expr => some <$> expr.transform hooks
        | none => pure none
      return ⟨count, offset, span⟩

def TableRef.transform (hooks : TreeHooks m) : TableRef → m TableRef
  | .named table => do
      hooks.onTableRef (.named table)
      return .named (← table.transform hooks)
  | .derived query aliasName span => do
      hooks.onTableRef (.derived query aliasName span)
      let span ← hooks.span span
      let query ← query.transform hooks
      let aliasName ← hooks.ident aliasName
      return .derived query aliasName span
  | .joined left join right condition span => do
      hooks.onTableRef (.joined left join right condition span)
      let span ← hooks.span span
      let left ← left.transform hooks
      let right ← right.transform hooks
      let condition ← match condition with
        | some test => some <$> test.transform hooks
        | none => pure none
      return .joined left join right condition span
  | .parenthesized inner span => do
      hooks.onTableRef (.parenthesized inner span)
      let span ← hooks.span span
      return .parenthesized (← TableRef.transformRefs hooks inner) span

def TableRef.transformRefs (hooks : TreeHooks m) : List TableRef → m (List TableRef)
  | [] => pure []
  | ref :: refs => do
      let ref ← ref.transform hooks
      return ref :: (← TableRef.transformRefs hooks refs)

def JoinCondition.transform (hooks : TreeHooks m) : JoinCondition → m JoinCondition
  | .on condition => return .on (← condition.transform hooks)
  | .using columns => return .using (← hooks.idents columns)
end

attribute [simp] Expr.transform Expr.transformItems Expr.transformWhens InSet.transform
  CallArgs.transform Query.transform WithClause.transform CommonTable.transform
  CommonTable.transformTables QueryBody.transform QueryTerm.transform QueryTerm.transformCompounds
  SelectCore.transform SelectItem.transform SelectItem.transformItems OrderingTerm.transform
  OrderingTerm.transformTerms LimitClause.transform TableRef.transform TableRef.transformRefs
  JoinCondition.transform

/-! ## Statements -/

def Assignment.transform (hooks : TreeHooks m) (assignment : Assignment) : m Assignment := do
  let span ← hooks.span assignment.span
  let column ← assignment.column.transform hooks
  let value ← assignment.value.transform hooks
  return ⟨column, value, span⟩

/-- Transforms assignments from left to right. -/
def Assignment.transformAll (hooks : TreeHooks m) : List Assignment → m (List Assignment)
  | [] => pure []
  | assignment :: assignments => do
      let assignment ← assignment.transform hooks
      return assignment :: (← Assignment.transformAll hooks assignments)

/-- Transforms rows of values from left to right. -/
def Expr.transformRows (hooks : TreeHooks m) : List (List Expr) → m (List (List Expr))
  | [] => pure []
  | items :: rows => do
      let items ← Expr.transformItems hooks items
      return items :: (← Expr.transformRows hooks rows)

/-- Transforms an optional expression. -/
def Expr.transformOptional (hooks : TreeHooks m) : Option Expr → m (Option Expr)
  | some expr => some <$> expr.transform hooks
  | none => pure none

/-- Transforms an optional limit. -/
def LimitClause.transformOptional (hooks : TreeHooks m) :
    Option LimitClause → m (Option LimitClause)
  | some limit => some <$> limit.transform hooks
  | none => pure none

def InsertSource.transform (hooks : TreeHooks m) : InsertSource → m InsertSource
  | .values rows => return .values (← Expr.transformRows hooks rows)
  | .select query => return .select (← query.transform hooks)
  | .set assignments => return .set (← Assignment.transformAll hooks assignments)

def Insert.transform (hooks : TreeHooks m) (insert : Insert) : m Insert := do
  let span ← hooks.span insert.span
  let table ← insert.table.transform hooks
  let partitions ← hooks.idents insert.partitions
  let columns ← hooks.idents insert.columns
  let source ← insert.source.transform hooks
  let onDuplicate ← Assignment.transformAll hooks insert.onDuplicate
  return { insert with
    table := table
    partitions := partitions
    columns := columns
    source := source
    onDuplicate := onDuplicate
    span := span }

def Update.transform (hooks : TreeHooks m) (update : Update) : m Update := do
  let span ← hooks.span update.span
  let tables ← TableRef.transformRefs hooks update.tables
  let assignments ← Assignment.transformAll hooks update.assignments
  let filter ← Expr.transformOptional hooks update.filter
  let orderBy ← OrderingTerm.transformTerms hooks update.orderBy
  let limit ← LimitClause.transformOptional hooks update.limit
  return { update with
    tables := tables
    assignments := assignments
    filter := filter
    orderBy := orderBy
    limit := limit
    span := span }

def DeleteSource.transform (hooks : TreeHooks m) : DeleteSource → m DeleteSource
  | .single table => return .single (← table.transform hooks)
  | .multi tables afterUsing => return .multi (← TableRef.transformRefs hooks tables) afterUsing

def Delete.transform (hooks : TreeHooks m) (delete : Delete) : m Delete := do
  let span ← hooks.span delete.span
  let targets ← TableName.transformAll hooks delete.targets
  let source ← delete.source.transform hooks
  let filter ← Expr.transformOptional hooks delete.filter
  let orderBy ← OrderingTerm.transformTerms hooks delete.orderBy
  let limit ← LimitClause.transformOptional hooks delete.limit
  return { delete with
    targets := targets
    source := source
    filter := filter
    orderBy := orderBy
    limit := limit
    span := span }

def Statement.transform (hooks : TreeHooks m) : Statement → m Statement
  | .select query => return .select (← query.transform hooks)
  | .insert tree => return .insert (← tree.transform hooks)
  | .update tree => return .update (← tree.transform hooks)
  | .delete tree => return .delete (← tree.transform hooks)

end SqlDml
