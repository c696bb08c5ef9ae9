import SqlDml.Traversal.Transform

/-!
Contract: trees without places.

Owns:
- setting every span of a tree to zero, so that trees of differently written text can be compared.

Does not own: the walk over the spans.
-/

namespace SqlDml

/-- Hooks that set every span to zero. -/
def spanEraser : TreeHooks Id := TreeHooks.ofSpans fun _ => Span.zero

/-- An expression without places. -/
def Expr.eraseSpans (expr : Expr) : Expr := (expr.transform spanEraser).run

/-- A query without places. -/
def Query.eraseSpans (query : Query) : Query := (query.transform spanEraser).run

/-- A statement without places. -/
def Statement.eraseSpans (statement : Statement) : Statement :=
  (statement.transform spanEraser).run

end SqlDml
