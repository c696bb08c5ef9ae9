import SqlDml.Tree.Clause
import SqlDml.Tree.Literal
import SqlDml.Tree.Operator

/-!
Contract: expressions, queries and table references.

Owns:
- the mutually recursive trees of a query;
- the span of each tree, and the first select block of a query.

Does not own: statements, and walks over trees.
-/

namespace SqlDml

mutual
/-- An expression.  Its span is its full extent in the source. -/
inductive Expr where
  | literal (value : Literal) (span : Span)
  | column (ref : ColumnRef)
  /-- A parameter marker; markers are numbered from 0 in source order. -/
  | placeholder (index : Nat) (span : Span)
  /-- `DEFAULT` as a value. -/
  | default (span : Span)
  | binary (left : Expr) (op : BinaryOp) (right : Expr) (span : Span)
  | unary (op : UnaryOp) (operand : Expr) (span : Span)
  | is (operand : Expr) (negated : Bool) (value : IsValue) (span : Span)
  /-- A comparison with all or any rows of a subquery. -/
  | quantified (left : Expr) (op : BinaryOp) (quantifier : Quantifier) (query : Query)
      (span : Span)
  | between (operand low high : Expr) (negated : Bool) (span : Span)
  | isIn (operand : Expr) (set : InSet) (negated : Bool) (span : Span)
  | like (operand pattern : Expr) (escape : Option Expr) (op : LikeOp) (negated : Bool)
      (span : Span)
  | soundsLike (operand pattern : Expr) (span : Span)
  | case (operand : Option Expr) (whens : List (Expr × Expr)) (otherwise : Option Expr)
      (span : Span)
  | cast (operand : Expr) (target : TypeName) (span : Span)
  | call (name : Ident) (args : CallArgs) (distinct : Bool) (span : Span)
  | subquery (query : Query) (span : Span)
  | exists (query : Query) (span : Span)
  | row (items : List Expr) (span : Span)
  | collate (operand : Expr) (collation : Ident) (span : Span)

/-- The right side of `IN`. -/
inductive InSet where
  | list (items : List Expr)
  | subquery (query : Query)

/-- The arguments of a function call. -/
inductive CallArgs where
  | star
  | list (items : List Expr)

/-- A query: its body, and the clauses that apply to the whole of it. -/
structure Query where
  withClause : Option WithClause
  body : QueryBody
  orderBy : List OrderingTerm
  limit : Option LimitClause
  locking : Option LockingClause
  span : Span

/-- The common table expressions in front of a query. -/
structure WithClause where
  recursive : Bool
  tables : List CommonTable
  span : Span

/-- A common table expression. -/
structure CommonTable where
  name : Ident
  columns : List Ident
  query : Query
  span : Span

/-- The united terms of a query. -/
structure QueryBody where
  first : QueryTerm
  compounds : List (CompoundOp × QueryTerm)
  span : Span

/-- A term of a query body. -/
inductive QueryTerm where
  | select (core : SelectCore)
  /-- A query in parentheses. -/
  | nested (query : Query)

/-- One select block. -/
structure SelectCore where
  modifiers : SelectModifiers
  columns : List SelectItem
  /-- Empty when there is no `FROM`. -/
  sources : List TableRef
  filter : Option Expr
  groupBy : List OrderingTerm
  withRollup : Bool
  having : Option Expr
  span : Span

/-- An entry of a select list. -/
inductive SelectItem where
  | wildcard (span : Span)
  | qualifiedWildcard (schema : Option Ident) (table : Ident) (span : Span)
  | expr (value : Expr) (aliasName : Option Ident) (span : Span)

/-- An entry of `ORDER BY` or `GROUP BY`. -/
structure OrderingTerm where
  expr : Expr
  direction : Option SortDirection
  span : Span

/-- A row limit with an optional offset. -/
structure LimitClause where
  count : Expr
  offset : Option Expr
  span : Span

/-- A source of rows. -/
inductive TableRef where
  | named (table : NamedTable)
  /-- A query in parentheses, under an alias. -/
  | derived (query : Query) (aliasName : Ident) (span : Span)
  | joined (left : TableRef) (join : JoinType) (right : TableRef)
      (condition : Option JoinCondition) (span : Span)
  | parenthesized (inner : List TableRef) (span : Span)

/-- What rows a join keeps. -/
inductive JoinCondition where
  | on (condition : Expr)
  | using (columns : List Ident)
end

namespace Expr

/-- The span of an expression. -/
def span : Expr → Span
  | .literal _ span | .placeholder _ span | .default span | .binary _ _ _ span
  | .unary _ _ span | .is _ _ _ span | .quantified _ _ _ _ span | .between _ _ _ _ span
  | .isIn _ _ _ span | .like _ _ _ _ _ span | .soundsLike _ _ span | .case _ _ _ span
  | .cast _ _ span | .call _ _ _ span | .subquery _ span | .exists _ span | .row _ span
  | .collate _ _ span => span
  | .column ref => ref.span

/-- A binary expression that spans both operands. -/
def ofOperands (left : Expr) (op : BinaryOp) (right : Expr) : Expr :=
  .binary left op right (left.span.merge right.span)

end Expr

namespace TableRef

/-- The span of a table reference. -/
def span : TableRef → Span
  | .named table => table.span
  | .derived _ _ span | .joined _ _ _ _ span | .parenthesized _ span => span

end TableRef

mutual
/-- The first select block of a query, inside any parentheses. -/
def Query.firstCore : Query → SelectCore
  | ⟨_, body, _, _, _, _⟩ => body.firstCore

def QueryBody.firstCore : QueryBody → SelectCore
  | ⟨first, _, _⟩ => first.firstCore

def QueryTerm.firstCore : QueryTerm → SelectCore
  | .select core => core
  | .nested query => query.firstCore
end

end SqlDml
