import SqlDml.Tree.Statement

/-!
Contract: the observing walk over trees.

Owns:
- the places that the walk stops at;
- the list of all stops of a tree, parents before children, in the order of canonical text.

Does not own: what is collected from the stops.
-/

namespace SqlDml

/-- A place that the walk stops at. -/
inductive Visit where
  | statement (tree : Statement)
  | query (tree : Query)
  | selectItem (item : SelectItem)
  | tableRef (ref : TableRef)
  /-- A name in the position of a table. -/
  | tableName (name : TableName)
  | expr (tree : Expr)
  | columnRef (ref : ColumnRef)
  /-- The schema and table in front of a column or a wildcard. -/
  | qualifier (schema : Option Ident) (table : Ident)
  | ident (name : Ident)

namespace Visit

/-- The stops of identifiers that stand one after the other. -/
def idents (names : List Ident) : List Visit := names.map Visit.ident

/-- The stops of a qualifier. -/
def ofQualifier (schema : Option Ident) (table : Ident) : List Visit :=
  .qualifier schema table :: (idents schema.toList ++ [.ident table])

end Visit

open Visit (idents ofQualifier)

/-! ## Names -/

def TableName.visits (name : TableName) : List Visit :=
  .tableName name :: (idents name.schema.toList ++ [.ident name.table])

/-- A schema without a table is passed over. -/
def ColumnRef.visits (ref : ColumnRef) : List Visit :=
  .columnRef ref ::
    ((match ref.table with
      | some table => ofQualifier ref.schema table
      | none => []) ++ [.ident ref.column])

def IndexHint.visits (hint : IndexHint) : List Visit := idents hint.indexes

def NamedTable.visits (table : NamedTable) : List Visit :=
  table.name.visits ++ idents table.partitions ++ idents table.aliasName.toList ++
    table.indexHints.flatMap IndexHint.visits

/-! ## Expressions and queries -/

mutual
def Expr.visits : Expr → List Visit
  | .literal value span => [.expr (.literal value span)]
  | .column ref => .expr (.column ref) :: ref.visits
  | .placeholder index span => [.expr (.placeholder index span)]
  | .default span => [.expr (.default span)]
  | .binary left op right span =>
      .expr (.binary left op right span) :: (left.visits ++ right.visits)
  | .unary op operand span => .expr (.unary op operand span) :: operand.visits
  | .is operand negated value span => .expr (.is operand negated value span) :: operand.visits
  | .quantified left op quantifier query span =>
      .expr (.quantified left op quantifier query span) :: (left.visits ++ query.visits)
  | .between operand low high negated span =>
      .expr (.between operand low high negated span) ::
        (operand.visits ++ low.visits ++ high.visits)
  | .isIn operand set negated span =>
      .expr (.isIn operand set negated span) :: (operand.visits ++ set.visits)
  | .like operand pattern escape op negated span =>
      .expr (.like operand pattern escape op negated span) ::
        (operand.visits ++ pattern.visits ++
          match escape with
          | some char => char.visits
          | none => [])
  | .soundsLike operand pattern span =>
      .expr (.soundsLike operand pattern span) :: (operand.visits ++ pattern.visits)
  | .case operand whens otherwise span =>
      .expr (.case operand whens otherwise span) ::
        ((match operand with
          | some expr => expr.visits
          | none => []) ++
        Expr.whenVisits whens ++
        match otherwise with
        | some expr => expr.visits
        | none => [])
  | .cast operand target span => .expr (.cast operand target span) :: operand.visits
  | .call name args distinct span =>
      .expr (.call name args distinct span) :: .ident name :: args.visits
  | .subquery query span => .expr (.subquery query span) :: query.visits
  | .exists query span => .expr (.exists query span) :: query.visits
  | .row items span => .expr (.row items span) :: Expr.itemVisits items
  | .collate operand collation span =>
      .expr (.collate operand collation span) :: (operand.visits ++ [.ident collation])

def Expr.itemVisits : List Expr → List Visit
  | [] => []
  | item :: items => item.visits ++ Expr.itemVisits items

def Expr.whenVisits : List (Expr × Expr) → List Visit
  | [] => []
  | (condition, result) :: whens =>
      condition.visits ++ result.visits ++ Expr.whenVisits whens

def InSet.visits : InSet → List Visit
  | .list items => Expr.itemVisits items
  | .subquery query => query.visits

def CallArgs.visits : CallArgs → List Visit
  | .star => []
  | .list items => Expr.itemVisits items

def Query.visits : Query → List Visit
  | ⟨withClause, body, orderBy, limit, locking, span⟩ =>
      .query ⟨withClause, body, orderBy, limit, locking, span⟩ ::
        ((match withClause with
          | some tables => tables.visits
          | none => []) ++
        body.visits ++ OrderingTerm.termVisits orderBy ++
        (match limit with
          | some clause => clause.visits
          | none => []) ++
        match locking with
        | some clause => clause.tables.flatMap TableName.visits
        | none => [])

def WithClause.visits : WithClause → List Visit
  | ⟨_, tables, _⟩ => CommonTable.tableVisits tables

def CommonTable.visits : CommonTable → List Visit
  | ⟨name, columns, query, _⟩ => .ident name :: (idents columns ++ query.visits)

def CommonTable.tableVisits : List CommonTable → List Visit
  | [] => []
  | table :: tables => table.visits ++ CommonTable.tableVisits tables

def QueryBody.visits : QueryBody → List Visit
  | ⟨first, compounds, _⟩ => first.visits ++ QueryTerm.compoundVisits compounds

def QueryTerm.visits : QueryTerm → List Visit
  | .select core => core.visits
  | .nested query => query.visits

def QueryTerm.compoundVisits : List (CompoundOp × QueryTerm) → List Visit
  | [] => []
  | (_, term) :: compounds => term.visits ++ QueryTerm.compoundVisits compounds

def SelectCore.visits : SelectCore → List Visit
  | ⟨_, columns, sources, filter, groupBy, _, having, _⟩ =>
      SelectItem.itemVisits columns ++ TableRef.refVisits sources ++
      (match filter with
        | some condition => condition.visits
        | none => []) ++
      OrderingTerm.termVisits groupBy ++
      match having with
      | some condition => condition.visits
      | none => []

def SelectItem.visits : SelectItem → List Visit
  | .wildcard span => [.selectItem (.wildcard span)]
  | .qualifiedWildcard schema table span =>
      .selectItem (.qualifiedWildcard schema table span) :: ofQualifier schema table
  | .expr value aliasName span =>
      .selectItem (.expr value aliasName span) :: (value.visits ++ idents aliasName.toList)

def SelectItem.itemVisits : List SelectItem → List Visit
  | [] => []
  | item :: items => item.visits ++ SelectItem.itemVisits items

def OrderingTerm.visits : OrderingTerm → List Visit
  | ⟨expr, _, _⟩ => expr.visits

def OrderingTerm.termVisits : List OrderingTerm → List Visit
  | [] => []
  | term :: terms => term.visits ++ OrderingTerm.termVisits terms

def LimitClause.visits : LimitClause → List Visit
  | ⟨count, offset, _⟩ =>
      count.visits ++
        match offset with
        | some expr => expr.visits
        | none => []

def TableRef.visits : TableRef → List Visit
  | .named table => .tableRef (.named table) :: table.visits
  | .derived query aliasName span =>
      .tableRef (.derived query aliasName span) :: (query.visits ++ [.ident aliasName])
  | .joined left join right condition span =>
      .tableRef (.joined left join right condition span) ::
        (left.visits ++ right.visits ++
          match condition with
          | some test => test.visits
          | none => [])
  | .parenthesized inner span =>
      .tableRef (.parenthesized inner span) :: TableRef.refVisits inner

def TableRef.refVisits : List TableRef → List Visit
  | [] => []
  | ref :: refs => ref.visits ++ TableRef.refVisits refs

def JoinCondition.visits : JoinCondition → List Visit
  | .on condition => condition.visits
  | .using columns => idents columns
end

attribute [simp] Expr.visits Expr.itemVisits Expr.whenVisits InSet.visits CallArgs.visits Query.visits
  WithClause.visits CommonTable.visits CommonTable.tableVisits QueryBody.visits QueryTerm.visits
  QueryTerm.compoundVisits SelectCore.visits SelectItem.visits SelectItem.itemVisits
  OrderingTerm.visits OrderingTerm.termVisits LimitClause.visits TableRef.visits TableRef.refVisits
  JoinCondition.visits

/-! ## Statements -/

def Assignment.visits (assignment : Assignment) : List Visit :=
  assignment.column.visits ++ assignment.value.visits

/-- The stops of the clauses that updates and deletes end with. -/
def tailVisits (filter : Option Expr) (orderBy : List OrderingTerm) (limit : Option LimitClause) :
    List Visit :=
  filter.toList.flatMap Expr.visits ++ OrderingTerm.termVisits orderBy ++
    limit.toList.flatMap LimitClause.visits

def InsertSource.visits : InsertSource → List Visit
  | .values rows => rows.flatMap Expr.itemVisits
  | .select query => query.visits
  | .set assignments => assignments.flatMap Assignment.visits

def Insert.visits (insert : Insert) : List Visit :=
  insert.table.visits ++ idents insert.partitions ++ idents insert.columns ++
    insert.source.visits ++ insert.onDuplicate.flatMap Assignment.visits

def Update.visits (update : Update) : List Visit :=
  TableRef.refVisits update.tables ++ update.assignments.flatMap Assignment.visits ++
    tailVisits update.filter update.orderBy update.limit

/-- The table of a delete over a single table is no table reference. -/
def DeleteSource.visits : DeleteSource → List Visit
  | .single table => table.visits
  | .multi tables _ => TableRef.refVisits tables

def Delete.visits (delete : Delete) : List Visit :=
  delete.targets.flatMap TableName.visits ++ delete.source.visits ++
    tailVisits delete.filter delete.orderBy delete.limit

/-- All stops of a statement. -/
def Statement.visits (statement : Statement) : List Visit :=
  .statement statement ::
    match statement with
    | .select query => query.visits
    | .insert tree => tree.visits
    | .update tree => tree.visits
    | .delete tree => tree.visits

end SqlDml
