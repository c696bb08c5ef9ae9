import SqlDml.Source.Span

/-!
Contract: the names in a statement.

Owns:
- an identifier with its quotes resolved;
- table names and column references, qualified or not.

Does not own: how names are written; that is rendering.
-/

namespace SqlDml

/-- An identifier: its value without quotes, the quote that surrounded it if any, and its place. -/
structure Ident where
  value : String
  quote : Option Char
  span : Span
deriving DecidableEq, Repr

namespace Ident

/-- An unquoted identifier that no text stands for. -/
def bare (value : String) : Ident := ⟨value, none, Span.zero⟩

/-- An identifier in backticks that no text stands for. -/
def backticked (value : String) : Ident := ⟨value, some '\x60', Span.zero⟩

end Ident

/-- A table name, with its schema if written.  The span covers the name alone. -/
structure TableName where
  schema : Option Ident
  table : Ident
  span : Span
deriving DecidableEq, Repr

namespace TableName

/-- A table name that no text stands for. -/
def bare (table : String) : TableName := ⟨none, Ident.bare table, Span.zero⟩

/-- A table name with a schema that no text stands for. -/
def qualified (schema table : String) : TableName :=
  ⟨some (Ident.bare schema), Ident.bare table, Span.zero⟩

end TableName

/-- A column reference, with table and schema if written. -/
structure ColumnRef where
  schema : Option Ident
  table : Option Ident
  column : Ident
  span : Span
deriving DecidableEq, Repr

namespace ColumnRef

/-- A column reference that no text stands for. -/
def bare (column : String) : ColumnRef := ⟨none, none, Ident.bare column, Span.zero⟩

/-- A column reference with a table that no text stands for. -/
def qualified (table column : String) : ColumnRef :=
  ⟨none, some (Ident.bare table), Ident.bare column, Span.zero⟩

end ColumnRef

end SqlDml
