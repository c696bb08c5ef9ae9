import SqlDml.Tree.Statement

/-!
Contract: trees with other leaves.

Owns:
- replacing table names, column references, the tables in front of wildcards, and parameter markers;
- everything else of a tree stays as it is, its spans included.

Does not own: what the leaves are replaced for.
-/

namespace SqlDml

/-- What to put in place of the leaves of a tree. -/
structure LeafMap where
  tableName : TableName → TableName := id
  columnRef : ColumnRef → ColumnRef := id
  /-- The table in front of a wildcard, from its schema and itself. -/
  wildcardTable : Option Ident → Ident → Ident := fun _ table => table
  /-- The expression in place of a parameter marker. -/
  marker : Nat → Span → Expr := .placeholder

/-! ## Names -/

def NamedTable.mapLeaves (leaves : LeafMap) (table : NamedTable) : NamedTable :=
  { table with name := leaves.tableName table.name }

def LockingClause.mapLeaves (leaves : LeafMap) (locking : LockingClause) : LockingClause :=
  { locking with tables := locking.tables.map leaves.tableName }

/-! ## Expressions and queries -/

mutual
def Expr.mapLeaves (leaves : LeafMap) : Expr → Expr
  | .literal value span => .literal value span
  | .column ref => .column (leaves.columnRef ref)
  | .placeholder index span => leaves.marker index span
  | .default span => .default span
  | .binary left op right span => .binary (left.mapLeaves leaves) op (right.mapLeaves leaves) span
  | .unary op operand span => .unary op (operand.mapLeaves leaves) span
  | .is operand negated value span => .is (operand.mapLeaves leaves) negated value span
  | .quantified left op quantifier query span =>
      .quantified (left.mapLeaves leaves) op quantifier (query.mapLeaves leaves) span
  | .between operand low high negated span =>
      .between (operand.mapLeaves leaves) (low.mapLeaves leaves) (high.mapLeaves leaves) negated span
  | .isIn operand set negated span =>
      .isIn (operand.mapLeaves leaves) (set.mapLeaves leaves) negated span
  | .like operand pattern escape op negated span =>
      .like (operand.mapLeaves leaves) (pattern.mapLeaves leaves)
        (match escape with
          | some char => some (char.mapLeaves leaves)
          | none => none)
        op negated span
  | .soundsLike operand pattern span =>
      .soundsLike (operand.mapLeaves leaves) (pattern.mapLeaves leaves) span
  | .case operand whens otherwise span =>
      .case
        (match operand with
          | some expr => some (expr.mapLeaves leaves)
          | none => none)
        (Expr.mapWhens leaves whens)
        (match otherwise with
          | some expr => some (expr.mapLeaves leaves)
          | none => none)
        span
  | .cast operand target span => .cast (operand.mapLeaves leaves) target span
  | .call name args distinct span => .call name (args.mapLeaves leaves) distinct span
  | .subquery query span => .subquery (query.mapLeaves leaves) span
  | .exists query span => .exists (query.mapLeaves leaves) span
  | .row items span => .row (Expr.mapItems leaves items) span
  | .collate operand collation span => .collate (operand.mapLeaves leaves) collation span

def Expr.mapItems (leaves : LeafMap) : List Expr → List Expr
  | [] => []
  | item :: items => item.mapLeaves leaves :: Expr.mapItems leaves items

def Expr.mapWhens (leaves : LeafMap) : List (Expr × Expr) → List (Expr × Expr)
  | [] => []
  | (condition, result) :: whens =>
      (condition.mapLeaves leaves, result.mapLeaves leaves) :: Expr.mapWhens leaves whens

def InSet.mapLeaves (leaves : LeafMap) : InSet → InSet
  | .list items => .list (Expr.mapItems leaves items)
  | .subquery query => .subquery (query.mapLeaves leaves)

def CallArgs.mapLeaves (leaves : LeafMap) : CallArgs → CallArgs
  | .star => .star
  | .list items => .list (Expr.mapItems leaves items)

def Query.mapLeaves (leaves : LeafMap) : Query → Query
  | ⟨withClause, body, orderBy, limit, locking, span⟩ =>
      ⟨match withClause with
        | some tables => some (tables.mapLeaves leaves)
        | none => none,
        body.mapLeaves leaves, OrderingTerm.mapTerms leaves orderBy,
        match limit with
        | some clause => some (clause.mapLeaves leaves)
        | none => none,
        locking.map (LockingClause.mapLeaves leaves), span⟩

def WithClause.mapLeaves (leaves : LeafMap) : WithClause → WithClause
  | ⟨recursive, tables, span⟩ => ⟨recursive, CommonTable.mapTables leaves tables, span⟩

def CommonTable.mapLeaves (leaves : LeafMap) : CommonTable → CommonTable
  | ⟨name, columns, query, span⟩ => ⟨name, columns, query.mapLeaves leaves, span⟩

def CommonTable.mapTables (leaves : LeafMap) : List CommonTable → List CommonTable
  | [] => []
  | table :: tables => table.mapLeaves leaves :: CommonTable.mapTables leaves tables

def QueryBody.mapLeaves (leaves : LeafMap) : QueryBody → QueryBody
  | ⟨first, compounds, span⟩ =>
      ⟨first.mapLeaves leaves, QueryTerm.mapCompounds leaves compounds, span⟩

def QueryTerm.mapLeaves (leaves : LeafMap) : QueryTerm → QueryTerm
  | .select core => .select (core.mapLeaves leaves)
  | .nested query => .nested (query.mapLeaves leaves)

def QueryTerm.mapCompounds (leaves : LeafMap) :
    List (CompoundOp × QueryTerm) → List (CompoundOp × QueryTerm)
  | [] => []
  | (op, term) :: compounds => (op, term.mapLeaves leaves) :: QueryTerm.mapCompounds leaves compounds

def SelectCore.mapLeaves (leaves : LeafMap) : SelectCore → SelectCore
  | ⟨modifiers, columns, sources, filter, groupBy, withRollup, having, span⟩ =>
      ⟨modifiers, SelectItem.mapItems leaves columns, TableRef.mapRefs leaves sources,
        match filter with
        | some condition => some (condition.mapLeaves leaves)
        | none => none,
        OrderingTerm.mapTerms leaves groupBy, withRollup,
        match having with
        | some condition => some (condition.mapLeaves leaves)
        | none => none,
        span⟩

def SelectItem.mapLeaves (leaves : LeafMap) : SelectItem → SelectItem
  | .wildcard span => .wildcard span
  | .qualifiedWildcard schema table span =>
      .qualifiedWildcard schema (leaves.wildcardTable schema table) span
  | .expr value aliasName span => .expr (value.mapLeaves leaves) aliasName span

def SelectItem.mapItems (leaves : LeafMap) : List SelectItem → List SelectItem
  | [] => []
  | item :: items => item.mapLeaves leaves :: SelectItem.mapItems leaves items

def OrderingTerm.mapLeaves (leaves : LeafMap) : OrderingTerm → OrderingTerm
  | ⟨expr, direction, span⟩ => ⟨expr.mapLeaves leaves, direction, span⟩

def OrderingTerm.mapTerms (leaves : LeafMap) : List OrderingTerm → List OrderingTerm
  | [] => []
  | term :: terms => term.mapLeaves leaves :: OrderingTerm.mapTerms leaves terms

def LimitClause.mapLeaves (leaves : LeafMap) : LimitClause → LimitClause
  | ⟨count, offset, span⟩ =>
      ⟨count.mapLeaves leaves,
        match offset with
        | some expr => some (expr.mapLeaves leaves)
        | none => none,
        span⟩

def TableRef.mapLeaves (leaves : LeafMap) : TableRef → TableRef
  | .named table => .named (table.mapLeaves leaves)
  | .derived query aliasName span => .derived (query.mapLeaves leaves) aliasName span
  | .joined left join right condition span =>
      .joined (left.mapLeaves leaves) join (right.mapLeaves leaves)
        (match condition with
          | some test => some (test.mapLeaves leaves)
          | none => none)
        span
  | .parenthesized inner span => .parenthesized (TableRef.mapRefs leaves inner) span

def TableRef.mapRefs (leaves : LeafMap) : List TableRef → List TableRef
  | [] => []
  | ref :: refs => ref.mapLeaves leaves :: TableRef.mapRefs leaves refs

def JoinCondition.mapLeaves (leaves : LeafMap) : JoinCondition → JoinCondition
  | .on condition => .on (condition.mapLeaves leaves)
  | .using columns => .using columns
end

attribute [simp] Expr.mapLeaves Expr.mapItems Expr.mapWhens InSet.mapLeaves CallArgs.mapLeaves
  Query.mapLeaves WithClause.mapLeaves CommonTable.mapLeaves CommonTable.mapTables
  QueryBody.mapLeaves QueryTerm.mapLeaves QueryTerm.mapCompounds SelectCore.mapLeaves
  SelectItem.mapLeaves SelectItem.mapItems OrderingTerm.mapLeaves OrderingTerm.mapTerms
  LimitClause.mapLeaves TableRef.mapLeaves TableRef.mapRefs JoinCondition.mapLeaves

section

variable (leaves : LeafMap) (span : Span)

@[simp] theorem Expr.mapLeaves_like (operand pattern : Expr) (escape : Option Expr) (op : LikeOp)
    (negated : Bool) :
    (like operand pattern escape op negated span).mapLeaves leaves =
      like (operand.mapLeaves leaves) (pattern.mapLeaves leaves) (escape.map (mapLeaves leaves)) op
        negated span := by
  cases escape <;> rw [mapLeaves] <;> rfl

@[simp] theorem Expr.mapLeaves_case (operand : Option Expr) (whens : List (Expr × Expr))
    (otherwise : Option Expr) :
    (case operand whens otherwise span).mapLeaves leaves =
      case (operand.map (mapLeaves leaves)) (mapWhens leaves whens)
        (otherwise.map (mapLeaves leaves)) span := by
  cases operand <;> cases otherwise <;> rw [mapLeaves] <;> rfl

@[simp] theorem Query.mapLeaves_mk (withClause : Option WithClause) (body : QueryBody)
    (orderBy : List OrderingTerm) (limit : Option LimitClause) (locking : Option LockingClause) :
    (Query.mk withClause body orderBy limit locking span).mapLeaves leaves =
      ⟨withClause.map (WithClause.mapLeaves leaves), body.mapLeaves leaves,
        OrderingTerm.mapTerms leaves orderBy, limit.map (LimitClause.mapLeaves leaves),
        locking.map (LockingClause.mapLeaves leaves), span⟩ := by
  cases withClause <;> cases limit <;> rw [mapLeaves] <;> rfl

@[simp] theorem SelectCore.mapLeaves_mk (modifiers : SelectModifiers) (columns : List SelectItem)
    (sources : List TableRef) (filter : Option Expr) (groupBy : List OrderingTerm)
    (withRollup : Bool) (having : Option Expr) :
    (SelectCore.mk modifiers columns sources filter groupBy withRollup having span).mapLeaves
        leaves =
      ⟨modifiers, SelectItem.mapItems leaves columns, TableRef.mapRefs leaves sources,
        filter.map (Expr.mapLeaves leaves), OrderingTerm.mapTerms leaves groupBy, withRollup,
        having.map (Expr.mapLeaves leaves), span⟩ := by
  cases filter <;> cases having <;> rw [mapLeaves] <;> rfl

@[simp] theorem LimitClause.mapLeaves_mk (count : Expr) (offset : Option Expr) :
    (LimitClause.mk count offset span).mapLeaves leaves =
      ⟨count.mapLeaves leaves, offset.map (Expr.mapLeaves leaves), span⟩ := by
  cases offset <;> rw [mapLeaves] <;> rfl

@[simp] theorem TableRef.mapLeaves_joined (left right : TableRef) (join : JoinType)
    (condition : Option JoinCondition) :
    (joined left join right condition span).mapLeaves leaves =
      joined (left.mapLeaves leaves) join (right.mapLeaves leaves)
        (condition.map (JoinCondition.mapLeaves leaves)) span := by
  cases condition <;> rw [mapLeaves] <;> rfl

theorem Expr.mapItems_eq (items : List Expr) :
    mapItems leaves items = items.map (mapLeaves leaves) := by
  induction items with
  | nil => rfl
  | cons item items inductionHypothesis => rw [mapItems, inductionHypothesis, List.map_cons]

theorem Expr.mapWhens_eq (whens : List (Expr × Expr)) :
    mapWhens leaves whens =
      whens.map fun branch => (branch.1.mapLeaves leaves, branch.2.mapLeaves leaves) := by
  induction whens with
  | nil => rfl
  | cons branch whens inductionHypothesis => rw [mapWhens, inductionHypothesis, List.map_cons]

theorem CommonTable.mapTables_eq (tables : List CommonTable) :
    mapTables leaves tables = tables.map (mapLeaves leaves) := by
  induction tables with
  | nil => rfl
  | cons table tables inductionHypothesis => rw [mapTables, inductionHypothesis, List.map_cons]

theorem QueryTerm.mapCompounds_eq (compounds : List (CompoundOp × QueryTerm)) :
    mapCompounds leaves compounds =
      compounds.map fun compound => (compound.1, compound.2.mapLeaves leaves) := by
  induction compounds with
  | nil => rfl
  | cons compound compounds inductionHypothesis =>
      rw [mapCompounds, inductionHypothesis, List.map_cons]

theorem SelectItem.mapItems_eq (items : List SelectItem) :
    mapItems leaves items = items.map (mapLeaves leaves) := by
  induction items with
  | nil => rfl
  | cons item items inductionHypothesis => rw [mapItems, inductionHypothesis, List.map_cons]

theorem OrderingTerm.mapTerms_eq (terms : List OrderingTerm) :
    mapTerms leaves terms = terms.map (mapLeaves leaves) := by
  induction terms with
  | nil => rfl
  | cons term terms inductionHypothesis => rw [mapTerms, inductionHypothesis, List.map_cons]

theorem TableRef.mapRefs_eq (refs : List TableRef) :
    mapRefs leaves refs = refs.map (mapLeaves leaves) := by
  induction refs with
  | nil => rfl
  | cons ref refs inductionHypothesis => rw [mapRefs, inductionHypothesis, List.map_cons]

@[simp] theorem Expr.length_mapItems (items : List Expr) :
    (Expr.mapItems leaves items).length = items.length := by
  rw [mapItems_eq, List.length_map]

@[simp] theorem OrderingTerm.isEmpty_mapTerms (terms : List OrderingTerm) :
    (OrderingTerm.mapTerms leaves terms).isEmpty = terms.isEmpty := by
  cases terms <;> rfl

@[simp] theorem TableRef.isEmpty_mapRefs (refs : List TableRef) :
    (TableRef.mapRefs leaves refs).isEmpty = refs.isEmpty := by
  cases refs <;> rfl

end

/-! ## Statements -/

def Assignment.mapLeaves (leaves : LeafMap) (assignment : Assignment) : Assignment :=
  { assignment with
    column := leaves.columnRef assignment.column
    value := assignment.value.mapLeaves leaves }

def InsertSource.mapLeaves (leaves : LeafMap) : InsertSource → InsertSource
  | .values rows => .values (rows.map (Expr.mapItems leaves))
  | .select query => .select (query.mapLeaves leaves)
  | .set assignments => .set (assignments.map (Assignment.mapLeaves leaves))

def Insert.mapLeaves (leaves : LeafMap) (insert : Insert) : Insert :=
  { insert with
    table := leaves.tableName insert.table
    source := insert.source.mapLeaves leaves
    onDuplicate := insert.onDuplicate.map (Assignment.mapLeaves leaves) }

def Update.mapLeaves (leaves : LeafMap) (update : Update) : Update :=
  { update with
    tables := TableRef.mapRefs leaves update.tables
    assignments := update.assignments.map (Assignment.mapLeaves leaves)
    filter := update.filter.map (Expr.mapLeaves leaves)
    orderBy := OrderingTerm.mapTerms leaves update.orderBy
    limit := update.limit.map (LimitClause.mapLeaves leaves) }

def DeleteSource.mapLeaves (leaves : LeafMap) : DeleteSource → DeleteSource
  | .single table => .single (table.mapLeaves leaves)
  | .multi tables afterUsing => .multi (TableRef.mapRefs leaves tables) afterUsing

def Delete.mapLeaves (leaves : LeafMap) (delete : Delete) : Delete :=
  { delete with
    targets := delete.targets.map leaves.tableName
    source := delete.source.mapLeaves leaves
    filter := delete.filter.map (Expr.mapLeaves leaves)
    orderBy := OrderingTerm.mapTerms leaves delete.orderBy
    limit := delete.limit.map (LimitClause.mapLeaves leaves) }

def Statement.mapLeaves (leaves : LeafMap) : Statement → Statement
  | .select query => .select (query.mapLeaves leaves)
  | .insert tree => .insert (tree.mapLeaves leaves)
  | .update tree => .update (tree.mapLeaves leaves)
  | .delete tree => .delete (tree.mapLeaves leaves)

end SqlDml
