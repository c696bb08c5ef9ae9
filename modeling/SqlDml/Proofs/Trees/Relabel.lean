import SqlDml.Token.Basic
import SqlDml.Tree.Statement

/-!
Contract: trees with other labels.

Owns:
- replacing every span, every identifier, every constant and the number of every parameter marker;
- the form of a tree stays as it is;
- one equation for each form of tree, by which the labels of its parts are replaced.

Does not own: what the labels are replaced for.
-/

namespace SqlDml

/-- What to put in place of the labels of a tree. -/
structure Relabelling where
  span : Span → Span := id
  /-- The identifier in place of another one, its span included. -/
  ident : Ident → Ident := id
  literal : Literal → Literal := id
  /-- The number in place of that of a parameter marker. -/
  marker : Nat → Nat := id

/-- What has labels.  Most things have none. -/
class Labelled (α : Type) where
  relabel : Relabelling → α → α := fun _ => id

export Labelled (relabel)

instance (priority := low) unlabelled (α : Type) : Labelled α where

instance : Labelled Span where
  relabel labels := labels.span

instance : Labelled Ident where
  relabel labels := labels.ident

instance : Labelled Token where
  relabel labels token := { token with span := labels.span token.span }

instance {α : Type} [Labelled α] : Labelled (List α) where
  relabel labels := List.map (relabel labels)

instance {α : Type} [Labelled α] : Labelled (Option α) where
  relabel labels := Option.map (relabel labels)

instance {α β : Type} [Labelled α] [Labelled β] : Labelled (α × β) where
  relabel labels := Prod.map (relabel labels) (relabel labels)

/-- A type whose values have no labels. -/
class LabelFree (α : Type) [Labelled α] : Prop where
  relabel_eq : ∀ labels (value : α), relabel labels value = value

namespace LabelFree

variable {α β : Type}

instance : @LabelFree α (unlabelled α) :=
  @LabelFree.mk α (unlabelled α) fun _ _ => rfl

variable [Labelled α] [LabelFree α] [Labelled β] [LabelFree β]

instance : LabelFree (List α) :=
  ⟨fun labels values => (List.map_congr_left fun value _ => relabel_eq labels value).trans
    (List.map_id values)⟩

instance : LabelFree (Option α) where
  relabel_eq labels value := by
    cases value with
    | none => rfl
    | some value => exact congrArg some (relabel_eq labels value)

instance : LabelFree (α × β) :=
  ⟨fun labels value => Prod.ext (relabel_eq labels value.1) (relabel_eq labels value.2)⟩

end LabelFree

/-! ### Names -/

instance : Labelled TableName where
  relabel labels name := ⟨relabel labels name.schema, relabel labels name.table,
    relabel labels name.span⟩

instance : Labelled ColumnRef where
  relabel labels ref := ⟨relabel labels ref.schema, relabel labels ref.table,
    relabel labels ref.column, relabel labels ref.span⟩

instance : Labelled IndexHint where
  relabel labels hint :=
    { hint with indexes := relabel labels hint.indexes, span := relabel labels hint.span }

instance : Labelled NamedTable where
  relabel labels table := ⟨relabel labels table.name, relabel labels table.partitions,
    relabel labels table.aliasName, relabel labels table.indexHints, relabel labels table.span⟩

instance : Labelled LockingClause where
  relabel labels locking :=
    { locking with tables := relabel labels locking.tables, span := relabel labels locking.span }

/-! ### Expressions and queries -/

mutual
def Expr.mapLabels (labels : Relabelling) : Expr → Expr
  | .literal value span => .literal (labels.literal value) (labels.span span)
  | .column ref => .column (Labelled.relabel labels ref)
  | .placeholder index span => .placeholder (labels.marker index) (labels.span span)
  | .default span => .default (labels.span span)
  | .binary left op right span =>
      .binary (left.mapLabels labels) op (right.mapLabels labels) (labels.span span)
  | .unary op operand span => .unary op (operand.mapLabels labels) (labels.span span)
  | .is operand negated value span =>
      .is (operand.mapLabels labels) negated value (labels.span span)
  | .quantified left op quantifier query span =>
      .quantified (left.mapLabels labels) op quantifier (query.mapLabels labels) (labels.span span)
  | .between operand low high negated span =>
      .between (operand.mapLabels labels) (low.mapLabels labels) (high.mapLabels labels) negated
        (labels.span span)
  | .isIn operand set negated span =>
      .isIn (operand.mapLabels labels) (set.mapLabels labels) negated (labels.span span)
  | .like operand pattern escape op negated span =>
      .like (operand.mapLabels labels) (pattern.mapLabels labels)
        (match escape with
          | some char => some (char.mapLabels labels)
          | none => none)
        op negated (labels.span span)
  | .soundsLike operand pattern span =>
      .soundsLike (operand.mapLabels labels) (pattern.mapLabels labels) (labels.span span)
  | .case operand whens otherwise span =>
      .case
        (match operand with
          | some expr => some (expr.mapLabels labels)
          | none => none)
        (Expr.mapWhensLabels labels whens)
        (match otherwise with
          | some expr => some (expr.mapLabels labels)
          | none => none)
        (labels.span span)
  | .cast operand target span => .cast (operand.mapLabels labels) target (labels.span span)
  | .call name args distinct span =>
      .call (labels.ident name) (args.mapLabels labels) distinct (labels.span span)
  | .subquery query span => .subquery (query.mapLabels labels) (labels.span span)
  | .exists query span => .exists (query.mapLabels labels) (labels.span span)
  | .row items span => .row (Expr.mapItemsLabels labels items) (labels.span span)
  | .collate operand collation span =>
      .collate (operand.mapLabels labels) (labels.ident collation) (labels.span span)

def Expr.mapItemsLabels (labels : Relabelling) : List Expr → List Expr
  | [] => []
  | item :: items => item.mapLabels labels :: Expr.mapItemsLabels labels items

def Expr.mapWhensLabels (labels : Relabelling) : List (Expr × Expr) → List (Expr × Expr)
  | [] => []
  | (condition, result) :: whens =>
      (condition.mapLabels labels, result.mapLabels labels) :: Expr.mapWhensLabels labels whens

def InSet.mapLabels (labels : Relabelling) : InSet → InSet
  | .list items => .list (Expr.mapItemsLabels labels items)
  | .subquery query => .subquery (query.mapLabels labels)

def CallArgs.mapLabels (labels : Relabelling) : CallArgs → CallArgs
  | .star => .star
  | .list items => .list (Expr.mapItemsLabels labels items)

def Query.mapLabels (labels : Relabelling) : Query → Query
  | ⟨withClause, body, orderBy, limit, locking, span⟩ =>
      ⟨match withClause with
        | some tables => some (tables.mapLabels labels)
        | none => none,
        body.mapLabels labels, OrderingTerm.mapTermsLabels labels orderBy,
        match limit with
        | some clause => some (clause.mapLabels labels)
        | none => none,
        Labelled.relabel labels locking, labels.span span⟩

def WithClause.mapLabels (labels : Relabelling) : WithClause → WithClause
  | ⟨recursive, tables, span⟩ =>
      ⟨recursive, CommonTable.mapTablesLabels labels tables, labels.span span⟩

def CommonTable.mapLabels (labels : Relabelling) : CommonTable → CommonTable
  | ⟨name, columns, query, span⟩ =>
      ⟨labels.ident name, Labelled.relabel labels columns, query.mapLabels labels, labels.span span⟩

def CommonTable.mapTablesLabels (labels : Relabelling) : List CommonTable → List CommonTable
  | [] => []
  | table :: tables => table.mapLabels labels :: CommonTable.mapTablesLabels labels tables

def QueryBody.mapLabels (labels : Relabelling) : QueryBody → QueryBody
  | ⟨first, compounds, span⟩ =>
      ⟨first.mapLabels labels, QueryTerm.mapCompoundsLabels labels compounds, labels.span span⟩

def QueryTerm.mapLabels (labels : Relabelling) : QueryTerm → QueryTerm
  | .select core => .select (core.mapLabels labels)
  | .nested query => .nested (query.mapLabels labels)

def QueryTerm.mapCompoundsLabels (labels : Relabelling) :
    List (CompoundOp × QueryTerm) → List (CompoundOp × QueryTerm)
  | [] => []
  | (op, term) :: compounds =>
      (op, term.mapLabels labels) :: QueryTerm.mapCompoundsLabels labels compounds

def SelectCore.mapLabels (labels : Relabelling) : SelectCore → SelectCore
  | ⟨modifiers, columns, sources, filter, groupBy, withRollup, having, span⟩ =>
      ⟨modifiers, SelectItem.mapItemsLabels labels columns, TableRef.mapRefsLabels labels sources,
        match filter with
        | some condition => some (condition.mapLabels labels)
        | none => none,
        OrderingTerm.mapTermsLabels labels groupBy, withRollup,
        match having with
        | some condition => some (condition.mapLabels labels)
        | none => none,
        labels.span span⟩

def SelectItem.mapLabels (labels : Relabelling) : SelectItem → SelectItem
  | .wildcard span => .wildcard (labels.span span)
  | .qualifiedWildcard schema table span =>
      .qualifiedWildcard (Labelled.relabel labels schema) (labels.ident table) (labels.span span)
  | .expr value aliasName span =>
      .expr (value.mapLabels labels) (Labelled.relabel labels aliasName) (labels.span span)

def SelectItem.mapItemsLabels (labels : Relabelling) : List SelectItem → List SelectItem
  | [] => []
  | item :: items => item.mapLabels labels :: SelectItem.mapItemsLabels labels items

def OrderingTerm.mapLabels (labels : Relabelling) : OrderingTerm → OrderingTerm
  | ⟨expr, direction, span⟩ => ⟨expr.mapLabels labels, direction, labels.span span⟩

def OrderingTerm.mapTermsLabels (labels : Relabelling) : List OrderingTerm → List OrderingTerm
  | [] => []
  | term :: terms => term.mapLabels labels :: OrderingTerm.mapTermsLabels labels terms

def LimitClause.mapLabels (labels : Relabelling) : LimitClause → LimitClause
  | ⟨count, offset, span⟩ =>
      ⟨count.mapLabels labels,
        match offset with
        | some expr => some (expr.mapLabels labels)
        | none => none,
        labels.span span⟩

def TableRef.mapLabels (labels : Relabelling) : TableRef → TableRef
  | .named table => .named (Labelled.relabel labels table)
  | .derived query aliasName span =>
      .derived (query.mapLabels labels) (labels.ident aliasName) (labels.span span)
  | .joined left join right condition span =>
      .joined (left.mapLabels labels) join (right.mapLabels labels)
        (match condition with
          | some test => some (test.mapLabels labels)
          | none => none)
        (labels.span span)
  | .parenthesized inner span =>
      .parenthesized (TableRef.mapRefsLabels labels inner) (labels.span span)

def TableRef.mapRefsLabels (labels : Relabelling) : List TableRef → List TableRef
  | [] => []
  | ref :: refs => ref.mapLabels labels :: TableRef.mapRefsLabels labels refs

def JoinCondition.mapLabels (labels : Relabelling) : JoinCondition → JoinCondition
  | .on condition => .on (condition.mapLabels labels)
  | .using columns => .using (Labelled.relabel labels columns)
end

instance : Labelled Expr where
  relabel := Expr.mapLabels

instance : Labelled InSet where
  relabel := InSet.mapLabels

instance : Labelled Query where
  relabel := Query.mapLabels

instance : Labelled WithClause where
  relabel := WithClause.mapLabels

instance : Labelled CommonTable where
  relabel := CommonTable.mapLabels

instance : Labelled QueryBody where
  relabel := QueryBody.mapLabels

instance : Labelled QueryTerm where
  relabel := QueryTerm.mapLabels

instance : Labelled SelectCore where
  relabel := SelectCore.mapLabels

instance : Labelled SelectItem where
  relabel := SelectItem.mapLabels

instance : Labelled OrderingTerm where
  relabel := OrderingTerm.mapLabels

instance : Labelled LimitClause where
  relabel := LimitClause.mapLabels

instance : Labelled TableRef where
  relabel := TableRef.mapLabels

instance : Labelled JoinCondition where
  relabel := JoinCondition.mapLabels

/-! ### Statements -/

instance : Labelled Assignment where
  relabel labels assignment := ⟨relabel labels assignment.column, relabel labels assignment.value,
    relabel labels assignment.span⟩

instance : Labelled InsertSource where
  relabel labels
    | .values rows => .values (relabel labels rows)
    | .select query => .select (relabel labels query)
    | .set assignments => .set (relabel labels assignments)

instance : Labelled Insert where
  relabel labels insert :=
    { insert with
      table := relabel labels insert.table
      partitions := relabel labels insert.partitions
      columns := relabel labels insert.columns
      source := relabel labels insert.source
      onDuplicate := relabel labels insert.onDuplicate
      span := relabel labels insert.span }

instance : Labelled Update where
  relabel labels update :=
    { update with
      tables := relabel labels update.tables
      assignments := relabel labels update.assignments
      filter := relabel labels update.filter
      orderBy := relabel labels update.orderBy
      limit := relabel labels update.limit
      span := relabel labels update.span }

instance : Labelled DeleteSource where
  relabel labels
    | .single table => .single (relabel labels table)
    | .multi tables afterUsing => .multi (relabel labels tables) afterUsing

instance : Labelled Delete where
  relabel labels delete :=
    { delete with
      targets := relabel labels delete.targets
      source := relabel labels delete.source
      filter := relabel labels delete.filter
      orderBy := relabel labels delete.orderBy
      limit := relabel labels delete.limit
      span := relabel labels delete.span }

instance : Labelled Statement where
  relabel labels
    | .select query => .select (relabel labels query)
    | .insert tree => .insert (relabel labels tree)
    | .update tree => .update (relabel labels tree)
    | .delete tree => .delete (relabel labels tree)

/-! ### The parts of a tree -/

section

variable (labels : Relabelling)

theorem Expr.mapItemsLabels_eq (items : List Expr) :
    Expr.mapItemsLabels labels items = relabel labels items := by
  induction items with
  | nil => rfl
  | cons item items inductionHypothesis =>
      exact congrArg (item.mapLabels labels :: ·) inductionHypothesis

theorem Expr.mapWhensLabels_eq (whens : List (Expr × Expr)) :
    Expr.mapWhensLabels labels whens = relabel labels whens := by
  induction whens with
  | nil => rfl
  | cons branch whens inductionHypothesis =>
      exact congrArg (relabel labels branch :: ·) inductionHypothesis

theorem CommonTable.mapTablesLabels_eq (tables : List CommonTable) :
    CommonTable.mapTablesLabels labels tables = relabel labels tables := by
  induction tables with
  | nil => rfl
  | cons table tables inductionHypothesis =>
      exact congrArg (table.mapLabels labels :: ·) inductionHypothesis

theorem QueryTerm.mapCompoundsLabels_eq (compounds : List (CompoundOp × QueryTerm)) :
    QueryTerm.mapCompoundsLabels labels compounds = relabel labels compounds := by
  induction compounds with
  | nil => rfl
  | cons compound compounds inductionHypothesis =>
      exact congrArg (relabel labels compound :: ·) inductionHypothesis

theorem SelectItem.mapItemsLabels_eq (items : List SelectItem) :
    SelectItem.mapItemsLabels labels items = relabel labels items := by
  induction items with
  | nil => rfl
  | cons item items inductionHypothesis =>
      exact congrArg (item.mapLabels labels :: ·) inductionHypothesis

theorem OrderingTerm.mapTermsLabels_eq (terms : List OrderingTerm) :
    OrderingTerm.mapTermsLabels labels terms = relabel labels terms := by
  induction terms with
  | nil => rfl
  | cons term terms inductionHypothesis =>
      exact congrArg (term.mapLabels labels :: ·) inductionHypothesis

theorem TableRef.mapRefsLabels_eq (refs : List TableRef) :
    TableRef.mapRefsLabels labels refs = relabel labels refs := by
  induction refs with
  | nil => rfl
  | cons ref refs inductionHypothesis =>
      exact congrArg (ref.mapLabels labels :: ·) inductionHypothesis

variable (span : Span)

theorem Expr.relabel_like (operand pattern : Expr) (escape : Option Expr) (op : LikeOp)
    (negated : Bool) :
    relabel labels (Expr.like operand pattern escape op negated span) =
      .like (relabel labels operand) (relabel labels pattern) (relabel labels escape) op negated
        (relabel labels span) := by
  cases escape <;> rfl

theorem Expr.relabel_case (operand : Option Expr) (whens : List (Expr × Expr))
    (otherwise : Option Expr) :
    relabel labels (Expr.case operand whens otherwise span) =
      .case (relabel labels operand) (relabel labels whens) (relabel labels otherwise)
        (relabel labels span) := by
  rw [← Expr.mapWhensLabels_eq]
  cases operand <;> cases otherwise <;> rfl

theorem Expr.relabel_call (name : Ident) (items : List Expr) (distinct : Bool) :
    relabel labels (Expr.call name (.list items) distinct span) =
      .call (relabel labels name) (.list (relabel labels items)) distinct
        (relabel labels span) := by
  rw [← Expr.mapItemsLabels_eq]
  rfl

theorem Expr.relabel_row (items : List Expr) :
    relabel labels (Expr.row items span) =
      .row (relabel labels items) (relabel labels span) := by
  rw [← Expr.mapItemsLabels_eq]
  rfl

theorem InSet.relabel_list (items : List Expr) :
    relabel labels (InSet.list items) = .list (relabel labels items) := by
  rw [← Expr.mapItemsLabels_eq]
  rfl

theorem Query.relabel_mk (withClause : Option WithClause) (body : QueryBody)
    (orderBy : List OrderingTerm) (limit : Option LimitClause) (locking : Option LockingClause) :
    relabel labels (Query.mk withClause body orderBy limit locking span) =
      ⟨relabel labels withClause, relabel labels body, relabel labels orderBy,
        relabel labels limit, relabel labels locking, relabel labels span⟩ := by
  rw [← OrderingTerm.mapTermsLabels_eq]
  cases withClause <;> cases limit <;> rfl

theorem WithClause.relabel_mk (recursive : Bool) (tables : List CommonTable) :
    relabel labels (WithClause.mk recursive tables span) =
      ⟨recursive, relabel labels tables, relabel labels span⟩ := by
  rw [← CommonTable.mapTablesLabels_eq]
  rfl

theorem QueryBody.relabel_mk (first : QueryTerm) (compounds : List (CompoundOp × QueryTerm)) :
    relabel labels (QueryBody.mk first compounds span) =
      ⟨relabel labels first, relabel labels compounds, relabel labels span⟩ := by
  rw [← QueryTerm.mapCompoundsLabels_eq]
  rfl

theorem SelectCore.relabel_mk (modifiers : SelectModifiers) (columns : List SelectItem)
    (sources : List TableRef) (filter : Option Expr) (groupBy : List OrderingTerm)
    (withRollup : Bool) (having : Option Expr) :
    relabel labels
        (SelectCore.mk modifiers columns sources filter groupBy withRollup having span) =
      ⟨modifiers, relabel labels columns, relabel labels sources, relabel labels filter,
        relabel labels groupBy, withRollup, relabel labels having, relabel labels span⟩ := by
  rw [← SelectItem.mapItemsLabels_eq, ← TableRef.mapRefsLabels_eq, ← OrderingTerm.mapTermsLabels_eq]
  cases filter <;> cases having <;> rfl

theorem LimitClause.relabel_mk (count : Expr) (offset : Option Expr) :
    relabel labels (LimitClause.mk count offset span) =
      ⟨relabel labels count, relabel labels offset, relabel labels span⟩ := by
  cases offset <;> rfl

theorem TableRef.relabel_joined (left right : TableRef) (join : JoinType)
    (condition : Option JoinCondition) :
    relabel labels (TableRef.joined left join right condition span) =
      .joined (relabel labels left) join (relabel labels right) (relabel labels condition)
        (relabel labels span) := by
  cases condition <;> rfl

theorem TableRef.relabel_parenthesized (refs : List TableRef) :
    relabel labels (TableRef.parenthesized refs span) =
      .parenthesized (relabel labels refs) (relabel labels span) := by
  rw [← TableRef.mapRefsLabels_eq]
  rfl

theorem NamedTable.relabel_mk (name : TableName) (partitions : List Ident)
    (aliasName : Option Ident) (hints : List IndexHint) :
    relabel labels (NamedTable.mk name partitions aliasName hints span) =
      ⟨relabel labels name, relabel labels partitions, relabel labels aliasName,
        relabel labels hints, relabel labels span⟩ := rfl

theorem Insert.relabel_mk (kind : InsertKind) (priority : Option InsertPriority) (ignore : Bool)
    (table : TableName) (partitions columns : List Ident) (source : InsertSource)
    (onDuplicate : List Assignment) :
    relabel labels
        (Insert.mk kind priority ignore table partitions columns source onDuplicate span) =
      ⟨kind, priority, ignore, relabel labels table, relabel labels partitions,
        relabel labels columns, relabel labels source, relabel labels onDuplicate,
        relabel labels span⟩ := rfl

theorem Update.relabel_mk (lowPriority ignore : Bool) (tables : List TableRef)
    (assignments : List Assignment) (filter : Option Expr) (orderBy : List OrderingTerm)
    (limit : Option LimitClause) :
    relabel labels (Update.mk lowPriority ignore tables assignments filter orderBy limit span) =
      ⟨lowPriority, ignore, relabel labels tables, relabel labels assignments,
        relabel labels filter, relabel labels orderBy, relabel labels limit,
        relabel labels span⟩ := rfl

theorem Delete.relabel_mk (lowPriority quick ignore : Bool) (targets : List TableName)
    (source : DeleteSource) (filter : Option Expr) (orderBy : List OrderingTerm)
    (limit : Option LimitClause) :
    relabel labels
        (Delete.mk lowPriority quick ignore targets source filter orderBy limit span) =
      ⟨lowPriority, quick, ignore, relabel labels targets, relabel labels source,
        relabel labels filter, relabel labels orderBy, relabel labels limit,
        relabel labels span⟩ := rfl

/-- The span of an expression is one of its labels. -/
theorem Expr.span_relabel (expr : Expr) :
    (relabel labels expr).span = relabel labels expr.span := by
  cases expr with
  | like operand pattern escape => cases escape <;> rfl
  | case operand whens otherwise => cases operand <;> cases otherwise <;> rfl
  | _ => rfl

theorem TableRef.span_relabel (ref : TableRef) :
    (relabel labels ref).span = relabel labels ref.span := by
  cases ref <;> rfl

end

end SqlDml
