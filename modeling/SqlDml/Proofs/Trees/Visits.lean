import SqlDml.Traversal.Visit

/-!
Contract: the stops of a tree from the stops of its parts.

Owns:
- the stops of lists of trees, one tree behind the other;
- the stops of trees with optional parts, which are lists of at most one part.

Does not own: what the stops are collected for.
-/

namespace SqlDml

open Visit (idents)

/-! ### Lists of trees -/

theorem Expr.itemVisits_eq (items : List Expr) :
    Expr.itemVisits items = items.flatMap Expr.visits := by
  induction items with
  | nil => rfl
  | cons item items inductionHypothesis =>
      rw [Expr.itemVisits, inductionHypothesis, List.flatMap_cons]

/-- The stops of a branch of a case. -/
def Expr.branchVisits (branch : Expr × Expr) : List Visit := branch.1.visits ++ branch.2.visits

theorem Expr.whenVisits_eq (whens : List (Expr × Expr)) :
    Expr.whenVisits whens = whens.flatMap Expr.branchVisits := by
  induction whens with
  | nil => rfl
  | cons branch whens inductionHypothesis =>
      obtain ⟨condition, result⟩ := branch
      rw [Expr.whenVisits, inductionHypothesis, List.flatMap_cons]
      rfl

theorem CommonTable.tableVisits_eq (tables : List CommonTable) :
    CommonTable.tableVisits tables = tables.flatMap CommonTable.visits := by
  induction tables with
  | nil => rfl
  | cons table tables inductionHypothesis =>
      rw [CommonTable.tableVisits, inductionHypothesis, List.flatMap_cons]

theorem QueryTerm.compoundVisits_eq (compounds : List (CompoundOp × QueryTerm)) :
    QueryTerm.compoundVisits compounds = compounds.flatMap fun compound => compound.2.visits := by
  induction compounds with
  | nil => rfl
  | cons compound compounds inductionHypothesis =>
      rw [QueryTerm.compoundVisits, inductionHypothesis, List.flatMap_cons]

theorem SelectItem.itemVisits_eq (items : List SelectItem) :
    SelectItem.itemVisits items = items.flatMap SelectItem.visits := by
  induction items with
  | nil => rfl
  | cons item items inductionHypothesis =>
      rw [SelectItem.itemVisits, inductionHypothesis, List.flatMap_cons]

theorem OrderingTerm.visits_eq (term : OrderingTerm) : term.visits = term.expr.visits := by
  obtain ⟨expr, direction, span⟩ := term
  rw [OrderingTerm.visits]

theorem OrderingTerm.termVisits_eq (terms : List OrderingTerm) :
    OrderingTerm.termVisits terms = terms.flatMap OrderingTerm.visits := by
  induction terms with
  | nil => rfl
  | cons term terms inductionHypothesis =>
      rw [OrderingTerm.termVisits, inductionHypothesis, List.flatMap_cons]

theorem TableRef.refVisits_eq (refs : List TableRef) :
    TableRef.refVisits refs = refs.flatMap TableRef.visits := by
  induction refs with
  | nil => rfl
  | cons ref refs inductionHypothesis =>
      rw [TableRef.refVisits, inductionHypothesis, List.flatMap_cons]

/-! ### Optional parts -/

theorem Expr.visits_like (operand pattern : Expr) (escape : Option Expr) (op : LikeOp)
    (negated : Bool) (span : Span) :
    (Expr.like operand pattern escape op negated span).visits =
      .expr (.like operand pattern escape op negated span) ::
        (operand.visits ++ pattern.visits ++ escape.toList.flatMap Expr.visits) := by
  cases escape <;> simp

theorem Expr.visits_case (operand : Option Expr) (whens : List (Expr × Expr))
    (otherwise : Option Expr) (span : Span) :
    (Expr.case operand whens otherwise span).visits =
      .expr (.case operand whens otherwise span) ::
        (operand.toList.flatMap Expr.visits ++ whens.flatMap Expr.branchVisits ++
          otherwise.toList.flatMap Expr.visits) := by
  cases operand <;> cases otherwise <;> simp [Expr.whenVisits_eq]

theorem WithClause.visits_eq (tables : WithClause) :
    tables.visits = tables.tables.flatMap CommonTable.visits := by
  obtain ⟨recursive, tables, span⟩ := tables
  rw [WithClause.visits, CommonTable.tableVisits_eq]

theorem LimitClause.visits_eq (limit : LimitClause) :
    limit.visits = limit.count.visits ++ limit.offset.toList.flatMap Expr.visits := by
  obtain ⟨count, offset, span⟩ := limit
  cases offset <;> simp

theorem Query.visits_eq (query : Query) :
    query.visits =
      .query query ::
        (query.withClause.toList.flatMap WithClause.visits ++ query.body.visits ++
          query.orderBy.flatMap OrderingTerm.visits ++
          query.limit.toList.flatMap LimitClause.visits ++
          query.locking.toList.flatMap fun clause => clause.tables.flatMap TableName.visits) := by
  obtain ⟨withClause, body, orderBy, limit, locking, span⟩ := query
  cases withClause <;> cases limit <;> cases locking <;> simp [OrderingTerm.termVisits_eq]

theorem QueryBody.visits_eq (body : QueryBody) :
    body.visits =
      body.first.visits ++ body.compounds.flatMap fun compound => compound.2.visits := by
  obtain ⟨first, compounds, span⟩ := body
  rw [QueryBody.visits, QueryTerm.compoundVisits_eq]

theorem SelectCore.visits_eq (core : SelectCore) :
    core.visits =
      core.columns.flatMap SelectItem.visits ++ core.sources.flatMap TableRef.visits ++
        core.filter.toList.flatMap Expr.visits ++ core.groupBy.flatMap OrderingTerm.visits ++
        core.having.toList.flatMap Expr.visits := by
  obtain ⟨modifiers, columns, sources, filter, groupBy, withRollup, having, span⟩ := core
  cases filter <;> cases having <;>
    simp [SelectItem.itemVisits_eq, TableRef.refVisits_eq, OrderingTerm.termVisits_eq]

theorem TableRef.visits_joined (left right : TableRef) (join : JoinType)
    (condition : Option JoinCondition) (span : Span) :
    (TableRef.joined left join right condition span).visits =
      .tableRef (.joined left join right condition span) ::
        (left.visits ++ right.visits ++ condition.toList.flatMap JoinCondition.visits) := by
  cases condition <;> simp

/-! ### Names -/

theorem ColumnRef.visits_of_table (schema : Option Ident) (table column : Ident) (span : Span) :
    ColumnRef.visits ⟨schema, some table, column, span⟩ =
      .columnRef ⟨schema, some table, column, span⟩ ::
        (Visit.ofQualifier schema table ++ [.ident column]) := rfl

end SqlDml
