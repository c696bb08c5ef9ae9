import SqlDml.Tree.Query

/-!
Contract: the four kinds of statement.

Owns:
- selects, inserts, updates and deletes as trees;
- the span of a statement and the word that it begins with.

Does not own: reading and writing statements.
-/

namespace SqlDml

/-- A column and the value that it is given. -/
structure Assignment where
  column : ColumnRef
  value : Expr
  span : Span

/-- Where an insert takes its rows from. -/
inductive InsertSource where
  /-- Rows of values; a row may be empty. -/
  | values (rows : List (List Expr))
  | select (query : Query)
  | set (assignments : List Assignment)

/-- An `INSERT` or `REPLACE` statement. -/
structure Insert where
  kind : InsertKind
  priority : Option InsertPriority
  ignore : Bool
  table : TableName
  partitions : List Ident
  columns : List Ident
  source : InsertSource
  onDuplicate : List Assignment
  span : Span

/-- An `UPDATE` statement. -/
structure Update where
  lowPriority : Bool
  ignore : Bool
  tables : List TableRef
  assignments : List Assignment
  filter : Option Expr
  orderBy : List OrderingTerm
  limit : Option LimitClause
  span : Span

/-- Which rows a delete looks at. -/
inductive DeleteSource where
  | single (table : NamedTable)
  /-- Rows of joined tables; `afterUsing` tells which of two words introduced them. -/
  | multi (tables : List TableRef) (afterUsing : Bool)

/-- A `DELETE` statement.  Only the forms over several tables list their targets. -/
structure Delete where
  lowPriority : Bool
  quick : Bool
  ignore : Bool
  targets : List TableName
  source : DeleteSource
  filter : Option Expr
  orderBy : List OrderingTerm
  limit : Option LimitClause
  span : Span

/-- A statement. -/
inductive Statement where
  | select (query : Query)
  | insert (tree : Insert)
  | update (tree : Update)
  | delete (tree : Delete)

namespace Statement

/-- The span of a statement. -/
def span : Statement → Span
  | .select query => query.span
  | .insert tree => tree.span
  | .update tree => tree.span
  | .delete tree => tree.span

/-- The word that the statement begins with, common table expressions apart. -/
def kindName : Statement → String
  | .select _ => "SELECT"
  | .insert tree =>
      match tree.kind with
      | .insert => "INSERT"
      | .replace => "REPLACE"
  | .update _ => "UPDATE"
  | .delete _ => "DELETE"

end Statement

end SqlDml
