import SqlDml.Proofs.Markers.Unmarked

/-!
Contract: the parameter markers of each tree, from those of its parts.

Owns:
- one equation for each form of expression, table, query and statement.

Does not own: how the markers are numbered.
-/

namespace SqlDml

/-! ### Expressions -/

/-- The markers of an expression. -/
def Expr.markers (expr : Expr) : MarkerTrace := .ofVisits expr.visits

/-- The markers of expressions that stand one behind the other. -/
def Expr.itemMarkers (items : List Expr) : MarkerTrace := .joined (items.map Expr.markers)

/-- The markers of an optional expression. -/
def Expr.optionalMarkers : Option Expr → MarkerTrace
  | some expr => expr.markers
  | none => .none

/-- The markers of a branch of a case. -/
def Expr.whenMarkers (branch : Expr × Expr) : MarkerTrace := branch.1.markers ++ branch.2.markers

def InSet.markers (set : InSet) : MarkerTrace := .ofVisits set.visits

def Query.markers (query : Query) : MarkerTrace := .ofVisits query.visits

def QueryTerm.markers (term : QueryTerm) : MarkerTrace := .ofVisits term.visits

def SelectItem.markers (item : SelectItem) : MarkerTrace := .ofVisits item.visits

def CommonTable.markers (table : CommonTable) : MarkerTrace := .ofVisits table.visits

def TableRef.markers (ref : TableRef) : MarkerTrace := .ofVisits ref.visits

/-- The markers of the condition of a join. -/
def JoinCondition.markers : Option JoinCondition → MarkerTrace
  | some test => .ofVisits test.visits
  | none => .none

/-- The markers of a limit, with the order of its two numbers. -/
def LimitClause.markers : Option LimitClause → MarkerTrace
  | some limit => .ofVisits limit.visits ++ ⟨[], limit.reversesMarkers⟩
  | none => .none

/-- The markers of a limit that takes no offset. -/
def LimitClause.plainMarkers : Option LimitClause → MarkerTrace
  | some limit => .ofVisits limit.visits
  | none => .none

def Assignment.markers (assignment : Assignment) : MarkerTrace := .ofVisits assignment.visits

namespace MarkerTrace

theorem joined_append (left right : List MarkerTrace) :
    joined (left ++ right) = joined left ++ joined right := by
  induction left with
  | nil => simp [joined]
  | cons trace traces inductionHypothesis =>
      simp [joined, inductionHypothesis, append_assoc]

theorem ofVisits_flatMap {ι : Type} (items : List ι) (visits : ι → List Visit) :
    ofVisits (items.flatMap visits) = joined (items.map fun item => ofVisits (visits item)) := by
  induction items with
  | nil => rfl
  | cons item items inductionHypothesis =>
      rw [List.flatMap_cons, ofVisits_append, inductionHypothesis]
      rfl

@[simp] theorem ofVisits_items (items : List Expr) :
    ofVisits (Expr.itemVisits items) = Expr.itemMarkers items := by
  induction items with
  | nil => rfl
  | cons item items inductionHypothesis =>
      rw [Expr.itemVisits, ofVisits_append, inductionHypothesis]
      rfl

@[simp] theorem ofVisits_whens (whens : List (Expr × Expr)) :
    ofVisits (Expr.whenVisits whens) = joined (whens.map Expr.whenMarkers) := by
  induction whens with
  | nil => rfl
  | cons branch whens inductionHypothesis =>
      rw [Expr.whenVisits, ofVisits_append, ofVisits_append, inductionHypothesis]
      rfl

@[simp] theorem ofVisits_expr (expr : Expr) : ofVisits expr.visits = expr.markers := rfl

@[simp] theorem ofVisits_query (query : Query) : ofVisits query.visits = query.markers := rfl

@[simp] theorem ofVisits_tableRef (ref : TableRef) : ofVisits ref.visits = ref.markers := rfl

@[simp] theorem ofVisits_set (set : InSet) : ofVisits set.visits = set.markers := rfl

end MarkerTrace

open MarkerTrace hiding none

namespace Expr

variable (span : Span)

@[simp] theorem itemMarkers_nil : itemMarkers [] = .none := rfl

@[simp] theorem itemMarkers_cons (item : Expr) (items : List Expr) :
    itemMarkers (item :: items) = item.markers ++ itemMarkers items := rfl

@[simp] theorem optionalMarkers_none : optionalMarkers none = .none := rfl

@[simp] theorem optionalMarkers_some (expr : Expr) : optionalMarkers (some expr) = expr.markers :=
  rfl

@[simp] theorem markers_literal (value : Literal) : (literal value span).markers = .none := by
  rw [markers, visits, ofVisits_cons_of_unmarked rfl rfl, ofVisits_nil]

@[simp] theorem markers_column (ref : ColumnRef) : (column ref).markers = .none := by
  rw [markers, visits, ofVisits_cons_of_unmarked rfl rfl, ofVisits_columnRef]

@[simp] theorem markers_placeholder (index : Nat) :
    (placeholder index span).markers = ⟨[index], false⟩ := by
  rw [markers, visits]
  rfl

@[simp] theorem markers_default : (default span).markers = .none := by
  rw [markers, visits, ofVisits_cons_of_unmarked rfl rfl, ofVisits_nil]

@[simp] theorem markers_binary (left right : Expr) (op : BinaryOp) :
    (binary left op right span).markers = left.markers ++ right.markers := by
  rw [markers, visits, ofVisits_cons_of_unmarked rfl rfl, ofVisits_append]
  rfl

@[simp] theorem markers_ofOperands (left right : Expr) (op : BinaryOp) :
    (ofOperands left op right).markers = left.markers ++ right.markers := markers_binary _ _ _ _

@[simp] theorem markers_unary (op : UnaryOp) (operand : Expr) :
    (unary op operand span).markers = operand.markers := by
  rw [markers, visits, ofVisits_cons_of_unmarked rfl rfl]
  rfl

@[simp] theorem markers_is (operand : Expr) (negated : Bool) (value : IsValue) :
    (is operand negated value span).markers = operand.markers := by
  rw [markers, visits, ofVisits_cons_of_unmarked rfl rfl]
  rfl

@[simp] theorem markers_quantified (left : Expr) (op : BinaryOp) (quantifier : Quantifier)
    (query : Query) :
    (quantified left op quantifier query span).markers = left.markers ++ query.markers := by
  rw [markers, visits, ofVisits_cons_of_unmarked rfl rfl, ofVisits_append]
  rfl

@[simp] theorem markers_between (operand low high : Expr) (negated : Bool) :
    (between operand low high negated span).markers =
      operand.markers ++ low.markers ++ high.markers := by
  rw [markers, visits, ofVisits_cons_of_unmarked rfl rfl, ofVisits_append, ofVisits_append]
  rfl

@[simp] theorem markers_isIn (operand : Expr) (set : InSet) (negated : Bool) :
    (isIn operand set negated span).markers = operand.markers ++ set.markers := by
  rw [markers, visits, ofVisits_cons_of_unmarked rfl rfl, ofVisits_append]
  rfl

@[simp] theorem markers_like (operand pattern : Expr) (escape : Option Expr) (op : LikeOp)
    (negated : Bool) :
    (like operand pattern escape op negated span).markers =
      operand.markers ++ pattern.markers ++ optionalMarkers escape := by
  rw [markers]
  cases escape <;>
    rw [visits, ofVisits_cons_of_unmarked rfl rfl, ofVisits_append, ofVisits_append] <;> rfl

@[simp] theorem markers_soundsLike (operand pattern : Expr) :
    (soundsLike operand pattern span).markers = operand.markers ++ pattern.markers := by
  rw [markers, visits, ofVisits_cons_of_unmarked rfl rfl, ofVisits_append]
  rfl

@[simp] theorem markers_case (operand : Option Expr) (whens : List (Expr × Expr))
    (otherwise : Option Expr) :
    (case operand whens otherwise span).markers =
      optionalMarkers operand ++ joined (whens.map whenMarkers) ++ optionalMarkers otherwise := by
  rw [markers]
  cases operand <;> cases otherwise <;>
    rw [visits, ofVisits_cons_of_unmarked rfl rfl, ofVisits_append, ofVisits_append,
      ofVisits_whens] <;> rfl

@[simp] theorem markers_cast (operand : Expr) (target : TypeName) :
    (cast operand target span).markers = operand.markers := by
  rw [markers, visits, ofVisits_cons_of_unmarked rfl rfl]
  rfl

@[simp] theorem markers_call_star (name : Ident) (distinct : Bool) :
    (call name .star distinct span).markers = .none := by
  rw [markers, visits, ofVisits_cons_of_unmarked rfl rfl, ofVisits_cons_of_unmarked rfl rfl]
  rfl

@[simp] theorem markers_call (name : Ident) (items : List Expr) (distinct : Bool) :
    (call name (.list items) distinct span).markers = itemMarkers items := by
  rw [markers, visits, ofVisits_cons_of_unmarked rfl rfl, ofVisits_cons_of_unmarked rfl rfl,
    CallArgs.visits, ofVisits_items]

@[simp] theorem markers_subquery (query : Query) :
    (subquery query span).markers = query.markers := by
  rw [markers, visits, ofVisits_cons_of_unmarked rfl rfl]
  rfl

@[simp] theorem markers_exists (query : Query) : (Expr.exists query span).markers = query.markers := by
  rw [markers, visits, ofVisits_cons_of_unmarked rfl rfl]
  rfl

@[simp] theorem markers_row (items : List Expr) : (row items span).markers = itemMarkers items := by
  rw [markers, visits, ofVisits_cons_of_unmarked rfl rfl, ofVisits_items]

@[simp] theorem markers_collate (operand : Expr) (collation : Ident) :
    (collate operand collation span).markers = operand.markers := by
  rw [markers, visits, ofVisits_cons_of_unmarked rfl rfl, ofVisits_append,
    ofVisits_cons_of_unmarked rfl rfl, ofVisits_nil, append_none]
  rfl

end Expr

@[simp] theorem InSet.markers_list (items : List Expr) :
    (InSet.list items).markers = Expr.itemMarkers items := by
  rw [markers, visits, ofVisits_items]

@[simp] theorem InSet.markers_subquery (query : Query) :
    (InSet.subquery query).markers = query.markers := by
  rw [markers, visits]
  rfl

namespace TableRef

variable (span : Span)

@[simp] theorem markers_named (table : NamedTable) : (named table).markers = .none := by
  rw [markers, visits, ofVisits_cons_of_unmarked rfl rfl, ofVisits_namedTable]

@[simp] theorem markers_derived (query : Query) (aliasName : Ident) :
    (derived query aliasName span).markers = query.markers := by
  rw [markers, visits, ofVisits_cons_of_unmarked rfl rfl, ofVisits_append,
    ofVisits_cons_of_unmarked rfl rfl, ofVisits_nil, append_none]
  rfl

@[simp] theorem markers_joined (left right : TableRef) (join : JoinType)
    (condition : Option JoinCondition) :
    (joined left join right condition span).markers =
      left.markers ++ right.markers ++ JoinCondition.markers condition := by
  rw [markers]
  cases condition <;>
    rw [visits, ofVisits_cons_of_unmarked rfl rfl, ofVisits_append, ofVisits_append] <;> rfl

@[simp] theorem ofVisits_refs (refs : List TableRef) :
    ofVisits (refVisits refs) = .joined (refs.map markers) := by
  induction refs with
  | nil => rfl
  | cons ref refs inductionHypothesis =>
      rw [refVisits, ofVisits_append, inductionHypothesis]
      rfl

@[simp] theorem markers_parenthesized (refs : List TableRef) :
    (parenthesized refs span).markers = .joined (refs.map markers) := by
  rw [markers, visits, ofVisits_cons_of_unmarked rfl rfl, ofVisits_refs]

end TableRef

namespace JoinCondition

@[simp] theorem markers_none : markers none = .none := rfl

@[simp] theorem markers_on (condition : Expr) : markers (some (on condition)) = condition.markers :=
  rfl

@[simp] theorem markers_using (columns : List Ident) : markers (some (.using columns)) = .none := by
  rw [markers, visits, ofVisits_idents]

end JoinCondition

/-- The markers of ordering terms. -/
def OrderingTerm.markers (terms : List OrderingTerm) : MarkerTrace :=
  .joined (terms.map fun term => term.expr.markers)

@[simp] theorem MarkerTrace.ofVisits_terms (terms : List OrderingTerm) :
    ofVisits (OrderingTerm.termVisits terms) = OrderingTerm.markers terms := by
  induction terms with
  | nil => rfl
  | cons term terms inductionHypothesis =>
      obtain ⟨expr, direction, span⟩ := term
      rw [OrderingTerm.termVisits, ofVisits_append, inductionHypothesis]
      rfl

@[simp] theorem OrderingTerm.markers_nil : OrderingTerm.markers [] = .none := rfl

namespace SelectItem

variable (span : Span)

@[simp] theorem markers_wildcard : (wildcard span).markers = .none := by
  rw [markers, visits, ofVisits_cons_of_unmarked rfl rfl, ofVisits_nil]

@[simp] theorem markers_qualifiedWildcard (schema : Option Ident) (table : Ident) :
    (qualifiedWildcard schema table span).markers = .none := by
  rw [markers, visits, ofVisits_cons_of_unmarked rfl rfl, ofVisits_ofQualifier]

@[simp] theorem markers_expr (value : Expr) (aliasName : Option Ident) :
    (expr value aliasName span).markers = value.markers := by
  rw [markers, visits, ofVisits_cons_of_unmarked rfl rfl, ofVisits_append, ofVisits_idents,
    append_none]
  rfl

@[simp] theorem ofVisits_items (items : List SelectItem) :
    ofVisits (itemVisits items) = .joined (items.map markers) := by
  induction items with
  | nil => rfl
  | cons item items inductionHypothesis =>
      rw [itemVisits, ofVisits_append, inductionHypothesis]
      rfl

end SelectItem

/-- The markers of a select block. -/
def SelectCore.markers (core : SelectCore) : MarkerTrace := .ofVisits core.visits

@[simp] theorem SelectCore.markers_mk (modifiers : SelectModifiers) (columns : List SelectItem)
    (sources : List TableRef) (filter : Option Expr) (groupBy : List OrderingTerm)
    (withRollup : Bool) (having : Option Expr) (span : Span) :
    (SelectCore.mk modifiers columns sources filter groupBy withRollup having span).markers =
      .joined (columns.map SelectItem.markers) ++ .joined (sources.map TableRef.markers) ++
        Expr.optionalMarkers filter ++ OrderingTerm.markers groupBy ++
        Expr.optionalMarkers having := by
  rw [markers]
  cases filter <;> cases having <;>
    simp only [visits, ofVisits_append, SelectItem.ofVisits_items, TableRef.ofVisits_refs,
      ofVisits_terms] <;> rfl

@[simp] theorem QueryTerm.markers_select (core : SelectCore) :
    (QueryTerm.select core).markers = core.markers := rfl

@[simp] theorem QueryTerm.markers_nested (query : Query) :
    (QueryTerm.nested query).markers = query.markers := rfl

@[simp] theorem QueryTerm.ofVisits_compounds (compounds : List (CompoundOp × QueryTerm)) :
    ofVisits (QueryTerm.compoundVisits compounds) =
      .joined (compounds.map fun compound => compound.2.markers) := by
  induction compounds with
  | nil => rfl
  | cons compound compounds inductionHypothesis =>
      rw [QueryTerm.compoundVisits, ofVisits_append, inductionHypothesis]
      rfl

/-- The markers of a query body. -/
def QueryBody.markers (body : QueryBody) : MarkerTrace := .ofVisits body.visits

@[simp] theorem QueryBody.markers_mk (first : QueryTerm)
    (compounds : List (CompoundOp × QueryTerm)) (span : Span) :
    (QueryBody.mk first compounds span).markers =
      first.markers ++ .joined (compounds.map fun compound => compound.2.markers) := by
  rw [markers, visits, ofVisits_append, QueryTerm.ofVisits_compounds]
  rfl

@[simp] theorem CommonTable.markers_mk (name : Ident) (columns : List Ident) (query : Query)
    (span : Span) : (CommonTable.mk name columns query span).markers = query.markers := by
  rw [markers, visits, ofVisits_cons_of_unmarked rfl rfl, ofVisits_append, ofVisits_idents,
    none_append]
  rfl

/-- The markers of common table expressions. -/
def WithClause.markers : Option WithClause → MarkerTrace
  | some tables => .joined (tables.tables.map CommonTable.markers)
  | none => .none

theorem CommonTable.ofVisits_tables (tables : List CommonTable) :
    ofVisits (CommonTable.tableVisits tables) = .joined (tables.map CommonTable.markers) := by
  induction tables with
  | nil => rfl
  | cons table tables inductionHypothesis =>
      rw [CommonTable.tableVisits, ofVisits_append, inductionHypothesis]
      rfl

theorem LimitClause.markers_some (count : Expr) (offset : Option Expr) (span : Span) :
    markers (some ⟨count, offset, span⟩) =
      count.markers ++ Expr.optionalMarkers offset ++
        ⟨[], reversesMarkers ⟨count, offset, span⟩⟩ := by
  rw [markers]
  cases offset <;> rw [visits, ofVisits_append] <;> rfl

@[simp] theorem Query.markers_mk (withClause : Option WithClause) (body : QueryBody)
    (orderBy : List OrderingTerm) (limit : Option LimitClause) (locking : Option LockingClause)
    (span : Span) :
    (Query.mk withClause body orderBy limit locking span).markers =
      WithClause.markers withClause ++ body.markers ++ OrderingTerm.markers orderBy ++
        LimitClause.markers limit := by
  have stop : ∀ visits : List Visit,
      ofVisits (.query ⟨withClause, body, orderBy, limit, locking, span⟩ :: visits) =
        ofVisits visits ++ ⟨[], limit.any LimitClause.reversesMarkers⟩ := by
    intro visits
    ext1
    · rw [append_numbers, List.append_nil]
      rfl
    · simp [ofVisits, Visit.reversesMarkers, Bool.or_comm]
  have unlimited : (⟨[], false⟩ : MarkerTrace) = .none := rfl
  have tables : ∀ tables : WithClause,
      ofVisits tables.visits = WithClause.markers (some tables) := by
    rintro ⟨recursive, tables, span⟩
    exact CommonTable.ofVisits_tables tables
  rw [markers]
  cases withClause <;> cases limit <;> cases locking <;>
    simp only [visits, stop, ofVisits_append, ofVisits_terms, ofVisits_tableNames, ofVisits_nil,
      append_none, none_append, Option.any_none, Option.any_some, unlimited, tables,
      WithClause.markers, LimitClause.markers, append_assoc] <;> rfl

/-! ### Statements -/

/-- The markers of assignments. -/
def Assignment.listMarkers (assignments : List Assignment) : MarkerTrace :=
  .joined (assignments.map Assignment.markers)

@[simp] theorem Assignment.markers_mk (column : ColumnRef) (value : Expr) (span : Span) :
    (Assignment.mk column value span).markers = value.markers := by
  rw [markers, visits, ofVisits_append, ofVisits_columnRef, none_append]
  rfl

@[simp] theorem Assignment.listMarkers_nil : Assignment.listMarkers [] = .none := rfl

@[simp] theorem Assignment.ofVisits_list (assignments : List Assignment) :
    ofVisits (assignments.flatMap Assignment.visits) = Assignment.listMarkers assignments :=
  ofVisits_flatMap _ _

/-- The markers of where an insert takes its rows from. -/
def InsertSource.markers (source : InsertSource) : MarkerTrace := .ofVisits source.visits

@[simp] theorem InsertSource.markers_values (rows : List (List Expr)) :
    (InsertSource.values rows).markers = .joined (rows.map Expr.itemMarkers) := by
  rw [markers, visits, ofVisits_flatMap]
  simp only [ofVisits_items]

@[simp] theorem InsertSource.markers_select (query : Query) :
    (InsertSource.select query).markers = query.markers := rfl

@[simp] theorem InsertSource.markers_set (assignments : List Assignment) :
    (InsertSource.set assignments).markers = Assignment.listMarkers assignments := by
  rw [markers, visits, Assignment.ofVisits_list]

@[simp] theorem MarkerTrace.ofVisits_tail (filter : Option Expr) (orderBy : List OrderingTerm)
    (limit : Option LimitClause) :
    ofVisits (tailVisits filter orderBy limit) =
      Expr.optionalMarkers filter ++ OrderingTerm.markers orderBy ++
        LimitClause.plainMarkers limit := by
  rw [tailVisits, ofVisits_append, ofVisits_append, ofVisits_terms]
  cases filter <;> cases limit <;> simp [LimitClause.plainMarkers]

/-- The markers of which rows a delete looks at. -/
def DeleteSource.markers (source : DeleteSource) : MarkerTrace := .ofVisits source.visits

@[simp] theorem DeleteSource.markers_single (table : NamedTable) :
    (DeleteSource.single table).markers = .none := ofVisits_namedTable table

@[simp] theorem DeleteSource.markers_multi (tables : List TableRef) (afterUsing : Bool) :
    (DeleteSource.multi tables afterUsing).markers = .joined (tables.map TableRef.markers) :=
  TableRef.ofVisits_refs tables

@[simp] theorem Insert.ofVisits_visits (insert : Insert) :
    ofVisits insert.visits =
      insert.source.markers ++ Assignment.listMarkers insert.onDuplicate := by
  simp only [Insert.visits, ofVisits_append, ofVisits_tableName, ofVisits_idents, none_append,
    Assignment.ofVisits_list]
  rfl

@[simp] theorem Update.ofVisits_visits (update : Update) :
    ofVisits update.visits =
      .joined (update.tables.map TableRef.markers) ++
        Assignment.listMarkers update.assignments ++ Expr.optionalMarkers update.filter ++
        OrderingTerm.markers update.orderBy ++ LimitClause.plainMarkers update.limit := by
  simp only [Update.visits, ofVisits_append, TableRef.ofVisits_refs, Assignment.ofVisits_list,
    ofVisits_tail, append_assoc]

@[simp] theorem Delete.ofVisits_visits (delete : Delete) :
    ofVisits delete.visits =
      delete.source.markers ++ Expr.optionalMarkers delete.filter ++
        OrderingTerm.markers delete.orderBy ++ LimitClause.plainMarkers delete.limit := by
  simp only [Delete.visits, ofVisits_append, ofVisits_tableNames, ofVisits_tail, none_append,
    append_assoc]
  rfl

/-- The markers of a statement. -/
def Statement.markers (statement : Statement) : MarkerTrace := .ofVisits statement.visits

@[simp] theorem Statement.markers_select (query : Query) :
    (Statement.select query).markers = query.markers := by
  rw [markers, visits, ofVisits_cons_of_unmarked rfl rfl]
  rfl

@[simp] theorem Statement.markers_insert (tree : Insert) :
    (Statement.insert tree).markers =
      tree.source.markers ++ Assignment.listMarkers tree.onDuplicate := by
  rw [markers, visits, ofVisits_cons_of_unmarked rfl rfl, Insert.ofVisits_visits]

@[simp] theorem Statement.markers_update (tree : Update) :
    (Statement.update tree).markers =
      .joined (tree.tables.map TableRef.markers) ++ Assignment.listMarkers tree.assignments ++
        Expr.optionalMarkers tree.filter ++ OrderingTerm.markers tree.orderBy ++
        LimitClause.plainMarkers tree.limit := by
  rw [markers, visits, ofVisits_cons_of_unmarked rfl rfl, Update.ofVisits_visits]

@[simp] theorem Statement.markers_delete (tree : Delete) :
    (Statement.delete tree).markers =
      tree.source.markers ++ Expr.optionalMarkers tree.filter ++
        OrderingTerm.markers tree.orderBy ++ LimitClause.plainMarkers tree.limit := by
  rw [markers, visits, ofVisits_cons_of_unmarked rfl rfl, Delete.ofVisits_visits]

end SqlDml
