import SqlDml.Shape.Tree
import SqlDml.Tree.Statement

/-!
Contract: the shapes of statements.

Owns:
- the names under which the parts of statements are shown.

Does not own: the shapes of expressions and queries.
-/

namespace SqlDml

open Shape (optional listOf plain)

/-- The shape of a list of ordering terms. -/
def OrderingTerm.listShape (terms : List OrderingTerm) : Shape :=
  .list (OrderingTerm.termShapes terms)

/-- The shape of a list of table references. -/
def TableRef.listShape (refs : List TableRef) : Shape := .list (TableRef.refShapes refs)

def Assignment.shape (assignment : Assignment) : Shape :=
  .record "Assignment" [("column", assignment.column.shape), ("value", assignment.value.shape),
    ("span", .span assignment.span)]

def InsertKind.shape : InsertKind → Shape
  | .insert => plain "Insert"
  | .replace => plain "Replace"

def InsertPriority.shape : InsertPriority → Shape
  | .lowPriority => plain "LowPriority"
  | .delayed => plain "Delayed"
  | .highPriority => plain "HighPriority"

def InsertSource.shape : InsertSource → Shape
  | .values rows =>
      .choiceOf .outside "Values" [listOf (fun row => .list (Expr.itemShapes row)) rows]
  | .select query => .choiceOf .outside "Select" [query.shape]
  | .set assignments => .choiceOf .outside "Set" [listOf Assignment.shape assignments]

def Insert.shape (insert : Insert) : Shape :=
  .record "InsertStatement" [("kind", insert.kind.shape),
    ("priority", optional InsertPriority.shape insert.priority), ("ignore", .flag insert.ignore),
    ("table", insert.table.shape), ("partitions", listOf Ident.shape insert.partitions),
    ("columns", listOf Ident.shape insert.columns), ("source", insert.source.shape),
    ("on_duplicate", listOf Assignment.shape insert.onDuplicate), ("span", .span insert.span)]

def Update.shape (update : Update) : Shape :=
  .record "UpdateStatement" [("low_priority", .flag update.lowPriority),
    ("ignore", .flag update.ignore), ("tables", TableRef.listShape update.tables),
    ("assignments", listOf Assignment.shape update.assignments),
    ("where_clause", optional Expr.shape update.filter),
    ("order_by", OrderingTerm.listShape update.orderBy),
    ("limit", optional LimitClause.shape update.limit), ("span", .span update.span)]

def DeleteSource.shape : DeleteSource → Shape
  | .single table => .choiceOf .outside "Single" [table.shape]
  | .multi tables afterUsing =>
      .choiceWith .outside "Multi" [("tables", TableRef.listShape tables),
        ("using", .flag afterUsing)]

def Delete.shape (delete : Delete) : Shape :=
  .record "DeleteStatement" [("low_priority", .flag delete.lowPriority),
    ("quick", .flag delete.quick), ("ignore", .flag delete.ignore),
    ("targets", listOf TableName.shape delete.targets), ("from", delete.source.shape),
    ("where_clause", optional Expr.shape delete.filter),
    ("order_by", OrderingTerm.listShape delete.orderBy),
    ("limit", optional LimitClause.shape delete.limit), ("span", .span delete.span)]

def Statement.shape : Statement → Shape
  | .select query => .choiceOf .inside "Select" [query.shape]
  | .insert tree => .choiceOf .inside "Insert" [tree.shape]
  | .update tree => .choiceOf .inside "Update" [tree.shape]
  | .delete tree => .choiceOf .inside "Delete" [tree.shape]

/-- Two statements are the same when their shapes are. -/
instance : BEq Statement := ⟨fun left right => left.shape == right.shape⟩

end SqlDml
