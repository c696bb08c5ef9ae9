import SqlDml.Naming.Rename
import SqlDml.Proofs.Shapes.Shaped
import SqlDml.Traversal.Transform

/-!
Contract: the two walks over a tree meet the same places in the same order.

Owns:
- what the rebuilding walk reports where the observing walk stops;
- that an observed walk rebuilds the tree as it is, and reports its stops in order;
- that both walks have the same sequence of each kind of place.

Does not own: what is done at the places.
-/

namespace SqlDml

open Visit (idents ofQualifier)

/-! ### Reports -/

/-- What the rebuilding walk reports where the observing walk stops.  It passes over statements,
select items and qualifiers, and it reports a schema that no table follows. -/
def Visit.reports : Visit → List Visit
  | .statement _ | .selectItem _ | .qualifier _ _ => []
  | .columnRef ⟨schema, none, column, span⟩ =>
      .columnRef ⟨schema, none, column, span⟩ :: idents schema.toList
  | visit => [visit]

/-- What the rebuilding walk reports of a tree with these stops. -/
def reports (visits : List Visit) : List Visit := visits.flatMap Visit.reports

@[simp] theorem reports_nil : reports [] = [] := rfl

@[simp] theorem reports_cons (visit : Visit) (visits : List Visit) :
    reports (visit :: visits) = visit.reports ++ reports visits := List.flatMap_cons

@[simp] theorem reports_append (front back : List Visit) :
    reports (front ++ back) = reports front ++ reports back := List.flatMap_append

@[simp] theorem reports_flatMap {Tree : Type} (trees : List Tree) (visits : Tree → List Visit) :
    reports (trees.flatMap visits) = trees.flatMap fun tree => reports (visits tree) :=
  List.flatMap_assoc

@[simp] theorem reports_idents (names : List Ident) : reports (idents names) = idents names := by
  induction names with
  | nil => rfl
  | cons name names inductionHypothesis =>
      exact congrArg (Visit.ident name :: ·) inductionHypothesis

@[simp] theorem idents_nil : idents [] = [] := rfl

@[simp] theorem idents_cons (name : Ident) (names : List Ident) :
    idents (name :: names) = .ident name :: idents names := rfl

section

variable {m : Type → Type} [Monad m]

/-- Hooks that report each place to an observer and leave it as it is. -/
def TreeHooks.observing (see : Visit → m Unit) : TreeHooks m where
  onQuery tree := see (.query tree)
  onTableRef tree := see (.tableRef tree)
  onTableName name := see (.tableName name)
  onExpr tree := see (.expr tree)
  onColumnRef name := see (.columnRef name)
  ident name := do
    see (.ident name)
    return name
  span := pure

/-- Reports some places in order, and goes on. -/
def told {α : Type} (see : Visit → m Unit) (visits : List Visit) (next : m α) : m α := do
  forM visits see
  next

variable [LawfulMonad m] {α β : Type} (see : Visit → m Unit)

@[simp] theorem told_nil (next : m α) : told see [] next = next := by
  simp [told]

@[simp] theorem told_bind (visits : List Visit) (first : m α) (next : α → m β) :
    told see visits first >>= next = told see visits (first >>= next) := by
  simp [told]

@[simp] theorem told_map (visits : List Visit) (first : m α) (next : α → β) :
    next <$> told see visits first = told see visits (next <$> first) := by
  simp [told]

@[simp] theorem told_told (front back : List Visit) (next : m α) :
    told see front (told see back next) = told see (front ++ back) next := by
  simp [told]

namespace TreeHooks

@[simp] theorem observing_onQuery (tree : Query) :
    (observing see).onQuery tree = told see [.query tree] (pure ()) := by
  simp [told, observing]

@[simp] theorem observing_onTableRef (tree : TableRef) :
    (observing see).onTableRef tree = told see [.tableRef tree] (pure ()) := by
  simp [told, observing]

@[simp] theorem observing_onTableName (name : TableName) :
    (observing see).onTableName name = told see [.tableName name] (pure ()) := by
  simp [told, observing]

@[simp] theorem observing_onExpr (tree : Expr) :
    (observing see).onExpr tree = told see [.expr tree] (pure ()) := by
  simp [told, observing]

@[simp] theorem observing_onColumnRef (name : ColumnRef) :
    (observing see).onColumnRef name = told see [.columnRef name] (pure ()) := by
  simp [told, observing]

@[simp] theorem observing_ident (name : Ident) :
    (observing see).ident name = told see [.ident name] (pure name) := by
  simp [told, observing]

omit [LawfulMonad m] in
@[simp] theorem observing_span (span : Span) : (observing see).span span = pure span := rfl

@[simp] theorem observing_optionalIdent (name : Option Ident) :
    (observing see).optionalIdent name = told see (Visit.idents name.toList) (pure name) := by
  cases name <;> simp [optionalIdent]

@[simp] theorem observing_idents (names : List Ident) :
    (observing see).idents names = told see (Visit.idents names) (pure names) := by
  induction names with
  | nil => simp [idents]
  | cons name names inductionHypothesis =>
      simp [idents, inductionHypothesis]

end TreeHooks

namespace Observed

open TreeHooks (observing)

/-! ### Names -/

@[simp] theorem tableName (name : TableName) :
    name.transform (observing see) = told see (reports name.visits) (pure name) := by
  simp [TableName.transform, TableName.visits, Visit.reports]

@[simp] theorem tableNames (names : List TableName) :
    TableName.transformAll (observing see) names =
      told see (reports (names.flatMap TableName.visits)) (pure names) := by
  induction names with
  | nil => simp [TableName.transformAll]
  | cons name names inductionHypothesis => simp [TableName.transformAll, inductionHypothesis]

@[simp] theorem columnRef (name : ColumnRef) :
    name.transform (observing see) = told see (reports name.visits) (pure name) := by
  obtain ⟨schema, table, column, span⟩ := name
  cases table <;> simp [ColumnRef.transform, ColumnRef.visits, Visit.reports, ofQualifier]

@[simp] theorem hints (hints : List IndexHint) :
    IndexHint.transformAll (observing see) hints =
      told see (reports (hints.flatMap IndexHint.visits)) (pure hints) := by
  induction hints with
  | nil => simp [IndexHint.transformAll]
  | cons hint hints inductionHypothesis =>
      simp [IndexHint.transformAll, IndexHint.transform, IndexHint.visits, inductionHypothesis]

@[simp] theorem namedTable (table : NamedTable) :
    table.transform (observing see) = told see (reports table.visits) (pure table) := by
  simp [NamedTable.transform, NamedTable.visits]

@[simp] theorem locking (clause : LockingClause) :
    clause.transform (observing see) =
      told see (reports (clause.tables.flatMap TableName.visits)) (pure clause) := by
  simp [LockingClause.transform]

/-! ### Optional parts -/

section

variable {Tree : Type} (hooks : TreeHooks m) (span : Span)

/-- Walks over an optional tree. -/
def option (walk : Tree → m Tree) : Option Tree → m (Option Tree)
  | some tree => some <$> walk tree
  | none => pure none

omit [LawfulMonad m]

theorem transform_like (operand pattern : Expr) (escape : Option Expr) (op : LikeOp)
    (negated : Bool) :
    (Expr.like operand pattern escape op negated span).transform hooks = do
      hooks.onExpr (.like operand pattern escape op negated span)
      let span ← hooks.span span
      let operand ← operand.transform hooks
      let pattern ← pattern.transform hooks
      let escape ← option (Expr.transform hooks) escape
      return .like operand pattern escape op negated span := by
  cases escape <;> rfl

theorem transform_case (subject : Option Expr) (branches : List (Expr × Expr))
    (otherwise : Option Expr) :
    (Expr.case subject branches otherwise span).transform hooks = do
      hooks.onExpr (.case subject branches otherwise span)
      let span ← hooks.span span
      let subject ← option (Expr.transform hooks) subject
      let branches ← Expr.transformWhens hooks branches
      let otherwise ← option (Expr.transform hooks) otherwise
      return .case subject branches otherwise span := by
  cases subject <;> cases otherwise <;> rfl

theorem transform_query (tables : Option WithClause) (body : QueryBody)
    (orderBy : List OrderingTerm) (limit : Option LimitClause) (locking : Option LockingClause) :
    (Query.mk tables body orderBy limit locking span).transform hooks = do
      hooks.onQuery ⟨tables, body, orderBy, limit, locking, span⟩
      let span ← hooks.span span
      let tables ← option (WithClause.transform hooks) tables
      let body ← body.transform hooks
      let orderBy ← OrderingTerm.transformTerms hooks orderBy
      let limit ← option (LimitClause.transform hooks) limit
      let locking ← option (LockingClause.transform hooks) locking
      return ⟨tables, body, orderBy, limit, locking, span⟩ := by
  cases tables <;> cases limit <;> cases locking <;> rfl

theorem transform_core (modifiers : SelectModifiers) (columns : List SelectItem)
    (sources : List TableRef) (filter : Option Expr) (groupBy : List OrderingTerm)
    (withRollup : Bool) (having : Option Expr) :
    (SelectCore.mk modifiers columns sources filter groupBy withRollup having span).transform
        hooks = do
      let span ← hooks.span span
      let columns ← SelectItem.transformItems hooks columns
      let sources ← TableRef.transformRefs hooks sources
      let filter ← option (Expr.transform hooks) filter
      let groupBy ← OrderingTerm.transformTerms hooks groupBy
      let having ← option (Expr.transform hooks) having
      return ⟨modifiers, columns, sources, filter, groupBy, withRollup, having, span⟩ := by
  cases filter <;> cases having <;> rfl

theorem transform_limit (count : Expr) (offset : Option Expr) :
    (LimitClause.mk count offset span).transform hooks = do
      let span ← hooks.span span
      let count ← count.transform hooks
      let offset ← option (Expr.transform hooks) offset
      return ⟨count, offset, span⟩ := by
  cases offset <;> rfl

theorem transform_joined (left right : TableRef) (join : JoinType)
    (condition : Option JoinCondition) :
    (TableRef.joined left join right condition span).transform hooks = do
      hooks.onTableRef (.joined left join right condition span)
      let span ← hooks.span span
      let left ← left.transform hooks
      let right ← right.transform hooks
      let condition ← option (JoinCondition.transform hooks) condition
      return .joined left join right condition span := by
  cases condition <;> rfl

end

theorem optionalLocking (found : Option LockingClause) :
    option (LockingClause.transform (observing see)) found =
      told see (reports (found.toList.flatMap fun clause =>
        clause.tables.flatMap TableName.visits)) (pure found) := by
  cases found <;> simp [option]

/-! ### Expressions and queries -/

mutual
theorem expr : ∀ tree : Expr,
    tree.transform (observing see) = told see (reports tree.visits) (pure tree)
  | .literal _ _ | .column _ | .placeholder _ _ | .default _ => by simp [Visit.reports]
  | .binary left _ right _ => by simp [Visit.reports, expr left, expr right]
  | .unary _ operand _ | .is operand _ _ _ | .cast operand _ _ => by
      simp [Visit.reports, expr operand]
  | .collate operand _ _ => by simp [Visit.reports, expr operand]
  | .quantified left _ _ rows _ => by simp [Visit.reports, expr left, query rows]
  | .between operand low high _ _ => by
      simp [Visit.reports, expr operand, expr low, expr high]
  | .isIn operand set _ _ => by simp [Visit.reports, expr operand, inSet set]
  | .like operand pattern escape _ _ _ => by
      rw [transform_like, Expr.visits_like, expr operand, expr pattern, optional escape]
      simp [Visit.reports]
  | .soundsLike operand pattern _ => by simp [Visit.reports, expr operand, expr pattern]
  | .case subject branches otherwise _ => by
      rw [transform_case, Expr.visits_case, optional subject, whens branches, optional otherwise,
        Expr.whenVisits_eq]
      simp [Visit.reports]
  | .call _ args _ _ => by simp [Visit.reports, callArgs args]
  | .subquery rows _ => by simp [Visit.reports, query rows]
  | .exists rows _ => by simp [Visit.reports, query rows]
  | .row list _ => by simp [Visit.reports, items list]

theorem optional : ∀ found : Option Expr,
    option (Expr.transform (observing see)) found =
      told see (reports (found.toList.flatMap Expr.visits)) (pure found)
  | none => by simp [option]
  | some tree => by simp [option, expr tree]

theorem items : ∀ list : List Expr,
    Expr.transformItems (observing see) list = told see (reports (Expr.itemVisits list)) (pure list)
  | [] => by simp
  | item :: list => by simp [expr item, items list]

theorem whens : ∀ list : List (Expr × Expr),
    Expr.transformWhens (observing see) list = told see (reports (Expr.whenVisits list)) (pure list)
  | [] => by simp
  | (condition, result) :: list => by simp [expr condition, expr result, whens list]

theorem inSet : ∀ set : InSet,
    set.transform (observing see) = told see (reports set.visits) (pure set)
  | .list list => by simp [items list]
  | .subquery rows => by simp [query rows]

theorem callArgs : ∀ args : CallArgs,
    args.transform (observing see) = told see (reports args.visits) (pure args)
  | .star => by simp
  | .list list => by simp [items list]

theorem query : ∀ tree : Query,
    tree.transform (observing see) = told see (reports tree.visits) (pure tree)
  | ⟨tables, body, orderBy, limit, locking, span⟩ => by
      rw [transform_query, Query.visits_eq, optionalWith tables, queryBody body, terms orderBy,
        optionalLimit limit, optionalLocking, OrderingTerm.termVisits_eq]
      simp [Visit.reports]

theorem optionalWith : ∀ found : Option WithClause,
    option (WithClause.transform (observing see)) found =
      told see (reports (found.toList.flatMap WithClause.visits)) (pure found)
  | none => by simp [option]
  | some ⟨recursive, list, span⟩ => by simp [option, commonTables list]

theorem commonTable : ∀ table : CommonTable,
    table.transform (observing see) = told see (reports table.visits) (pure table)
  | ⟨_, _, rows, _⟩ => by simp [Visit.reports, query rows]

theorem commonTables : ∀ list : List CommonTable,
    CommonTable.transformTables (observing see) list =
      told see (reports (CommonTable.tableVisits list)) (pure list)
  | [] => by simp
  | table :: list => by simp [commonTable table, commonTables list]

theorem queryBody : ∀ body : QueryBody,
    body.transform (observing see) = told see (reports body.visits) (pure body)
  | ⟨first, others, _⟩ => by simp [queryTerm first, compounds others]

theorem queryTerm : ∀ term : QueryTerm,
    term.transform (observing see) = told see (reports term.visits) (pure term)
  | .select block => by simp [core block]
  | .nested rows => by simp [query rows]

theorem compounds : ∀ list : List (CompoundOp × QueryTerm),
    QueryTerm.transformCompounds (observing see) list =
      told see (reports (QueryTerm.compoundVisits list)) (pure list)
  | [] => by simp
  | (_, term) :: list => by simp [queryTerm term, compounds list]

theorem core : ∀ block : SelectCore,
    block.transform (observing see) = told see (reports block.visits) (pure block)
  | ⟨modifiers, columns, sources, filter, groupBy, withRollup, having, span⟩ => by
      rw [transform_core, SelectCore.visits_eq, selectItems columns, tableRefs sources,
        optional filter, terms groupBy, optional having, SelectItem.itemVisits_eq,
        TableRef.refVisits_eq, OrderingTerm.termVisits_eq]
      simp

theorem selectItem : ∀ item : SelectItem,
    item.transform (observing see) = told see (reports item.visits) (pure item)
  | .wildcard _ => by simp [Visit.reports]
  | .qualifiedWildcard _ _ _ => by simp [Visit.reports, ofQualifier]
  | .expr value _ _ => by simp [Visit.reports, expr value]

theorem selectItems : ∀ list : List SelectItem,
    SelectItem.transformItems (observing see) list =
      told see (reports (SelectItem.itemVisits list)) (pure list)
  | [] => by simp
  | item :: list => by simp [selectItem item, selectItems list]

theorem term : ∀ entry : OrderingTerm,
    entry.transform (observing see) = told see (reports entry.visits) (pure entry)
  | ⟨value, _, _⟩ => by simp [expr value]

theorem terms : ∀ list : List OrderingTerm,
    OrderingTerm.transformTerms (observing see) list =
      told see (reports (OrderingTerm.termVisits list)) (pure list)
  | [] => by simp
  | entry :: list => by simp [term entry, terms list]

theorem limit : ∀ clause : LimitClause,
    clause.transform (observing see) = told see (reports clause.visits) (pure clause)
  | ⟨count, offset, span⟩ => by
      rw [transform_limit, LimitClause.visits_eq, expr count, optional offset]
      simp

theorem optionalLimit : ∀ found : Option LimitClause,
    option (LimitClause.transform (observing see)) found =
      told see (reports (found.toList.flatMap LimitClause.visits)) (pure found)
  | none => by simp [option]
  | some clause => by simp [option, limit clause]

theorem tableRef : ∀ ref : TableRef,
    ref.transform (observing see) = told see (reports ref.visits) (pure ref)
  | .named table => by simp [Visit.reports]
  | .derived rows _ _ => by simp [Visit.reports, query rows]
  | .joined left join right test span => by
      rw [transform_joined, TableRef.visits_joined, tableRef left, tableRef right,
        optionalCondition test]
      simp [Visit.reports]
  | .parenthesized inner _ => by simp [Visit.reports, tableRefs inner]

theorem tableRefs : ∀ list : List TableRef,
    TableRef.transformRefs (observing see) list =
      told see (reports (TableRef.refVisits list)) (pure list)
  | [] => by simp
  | ref :: list => by simp [tableRef ref, tableRefs list]

theorem condition : ∀ test : JoinCondition,
    test.transform (observing see) = told see (reports test.visits) (pure test)
  | .on value => by simp [expr value]
  | .using _ => by simp

theorem optionalCondition : ∀ found : Option JoinCondition,
    option (JoinCondition.transform (observing see)) found =
      told see (reports (found.toList.flatMap JoinCondition.visits)) (pure found)
  | none => by simp [option]
  | some test => by simp [option, condition test]
end

/-! ### Statements -/

theorem assignments (list : List Assignment) :
    Assignment.transformAll (observing see) list =
      told see (reports (list.flatMap Assignment.visits)) (pure list) := by
  induction list with
  | nil => simp [Assignment.transformAll]
  | cons entry list inductionHypothesis =>
      simp [Assignment.transformAll, Assignment.transform, Assignment.visits, expr,
        inductionHypothesis]

theorem rows (list : List (List Expr)) :
    Expr.transformRows (observing see) list =
      told see (reports (list.flatMap Expr.itemVisits)) (pure list) := by
  induction list with
  | nil => simp [Expr.transformRows]
  | cons row list inductionHypothesis =>
      simp [Expr.transformRows, items, inductionHypothesis]

theorem insertSource (source : InsertSource) :
    source.transform (observing see) = told see (reports source.visits) (pure source) := by
  cases source <;>
    simp [InsertSource.transform, InsertSource.visits, rows, query, assignments]

theorem deleteSource (source : DeleteSource) :
    source.transform (observing see) = told see (reports source.visits) (pure source) := by
  cases source <;> simp [DeleteSource.transform, DeleteSource.visits, tableRefs]

theorem statement (tree : Statement) :
    tree.transform (observing see) = told see (reports tree.visits) (pure tree) := by
  have filters : ∀ found, Expr.transformOptional (observing see) found =
      option (Expr.transform (observing see)) found := by
    intro found
    cases found <;> rfl
  have limits : ∀ found, LimitClause.transformOptional (observing see) found =
      option (LimitClause.transform (observing see)) found := by
    intro found
    cases found <;> rfl
  cases tree with
  | select tree => simp [Statement.transform, Statement.visits, Visit.reports, query]
  | insert tree =>
      simp [Statement.transform, Statement.visits, Visit.reports, Insert.transform, Insert.visits,
        insertSource, assignments]
  | update tree =>
      simp [Statement.transform, Statement.visits, Visit.reports, Update.transform, Update.visits,
        tailVisits, tableRefs, assignments, filters, limits, optional, terms, optionalLimit]
  | delete tree =>
      simp [Statement.transform, Statement.visits, Visit.reports, Delete.transform, Delete.visits,
        tailVisits, deleteSource, filters, limits, optional, terms, optionalLimit]

end Observed

end

/-! ### The sequences of both walks -/

/-- The kinds of places that both walks meet. -/
inductive PlaceKind where
  | query
  | tableRef
  | tableName
  | expr
  | columnRef
  | ident
deriving DecidableEq

/-- The kind of a place, if both walks meet it. -/
def Visit.kind? : Visit → Option PlaceKind
  | .query _ => some .query
  | .tableRef _ => some .tableRef
  | .tableName _ => some .tableName
  | .expr _ => some .expr
  | .columnRef _ => some .columnRef
  | .ident _ => some .ident
  | .statement _ | .selectItem _ | .qualifier _ _ => none

/-- The places of one kind, in order. -/
def sequence (kind : PlaceKind) (visits : List Visit) : List Visit :=
  visits.filter fun visit => visit.kind? = some kind

/-- What the rebuilding walk makes of a statement, and what it reports of it, in order. -/
def Statement.recorded (tree : Statement) : Statement × List Visit :=
  (tree.transform (.observing fun visit => modifyGet fun log => ((), log ++ [visit])) :
    StateM (List Visit) Statement).run []

theorem run_forM_log (visits log : List Visit) :
    (forM visits fun visit => modifyGet fun log => ((), log ++ [visit]) :
      StateM (List Visit) Unit).run log = pure ((), log ++ visits) := by
  induction visits generalizing log with
  | nil => simp
  | cons visit visits inductionHypothesis =>
      have first : (modifyGet fun log => ((), log ++ [visit]) : StateM (List Visit) Unit).run log =
          pure ((), log ++ [visit]) := rfl
      rw [List.forM_cons, StateT.run_bind, first, pure_bind, inductionHypothesis, List.append_assoc,
        List.singleton_append]

/-- The rebuilding walk leaves an observed statement as it is, and its reports are those of the stops
of the observing walk. -/
theorem Statement.recorded_eq (tree : Statement) :
    tree.recorded = (tree, reports tree.visits) := by
  rw [Statement.recorded, Observed.statement, told, StateT.run_bind, run_forM_log]
  rfl

theorem sequence_append (kind : PlaceKind) (front back : List Visit) :
    sequence kind (front ++ back) = sequence kind front ++ sequence kind back :=
  List.filter_append front back

/-- The identifiers that only the rebuilding walk reports at a stop. -/
def Visit.passedOver : Visit → List Visit
  | .columnRef ⟨schema, none, _, _⟩ => idents schema.toList
  | _ => []

theorem sequence_idents (names : List Ident) : sequence .ident (idents names) = idents names :=
  List.filter_eq_self.mpr (by simp [idents, Visit.kind?])

theorem Visit.sequence_passedOver (visit : Visit) {kind : PlaceKind} (other : kind ≠ .ident) :
    sequence kind visit.passedOver = [] := by
  apply List.filter_eq_nil_iff.mpr
  intro place member
  unfold passedOver at member
  split at member
  · obtain ⟨name, _, rfl⟩ := List.mem_map.mp member
    simpa [kind?] using other.symm
  · cases member

theorem Visit.sequence_reports (visit : Visit) (kind : PlaceKind) :
    sequence kind visit.reports = sequence kind [visit] ++ sequence kind visit.passedOver := by
  cases visit with
  | columnRef ref =>
      obtain ⟨schema, table, column, span⟩ := ref
      cases table with
      | none => exact sequence_append kind [_] _
      | some table => exact (List.append_nil _).symm
  | _ => simp [Visit.reports, passedOver, sequence, kind?]

/-- A column is passed over in no part exactly where its schema has a table. -/
theorem ColumnRef.passedOver_eq_nil_iff {ref : ColumnRef} :
    (Visit.columnRef ref).passedOver = [] ↔ ref.Shaped := by
  obtain ⟨schema, table, column, span⟩ := ref
  cases schema <;> cases table <;> simp [Visit.passedOver, ColumnRef.Shaped]

/-- Where no place of a kind is passed over, both walks meet the same places of this kind. -/
theorem sequence_reports_eq {kind : PlaceKind} {visits : List Visit}
    (none : ∀ visit ∈ visits, sequence kind visit.passedOver = []) :
    sequence kind (reports visits) = sequence kind visits := by
  induction visits with
  | nil => rfl
  | cons visit visits inductionHypothesis =>
      obtain ⟨here, later⟩ := List.forall_mem_cons.mp none
      have first := visit.sequence_reports kind
      rw [here, List.append_nil] at first
      rw [reports_cons, sequence_append, first, inductionHypothesis later, ← sequence_append]
      rfl

/-- Both walks meet the same identifiers exactly where none is passed over. -/
theorem sequence_ident_reports_iff {visits : List Visit} :
    sequence .ident (reports visits) = sequence .ident visits ↔
      ∀ visit ∈ visits, visit.passedOver = [] := by
  have passed : ∀ visit : Visit, sequence .ident visit.passedOver = visit.passedOver := by
    intro visit
    unfold Visit.passedOver
    split
    · exact sequence_idents _
    · rfl
  constructor
  · intro same
    -- each identifier that is passed over makes the reports longer
    have count : (sequence .ident (reports visits)).length =
        (sequence .ident visits).length + (visits.flatMap Visit.passedOver).length := by
      clear same
      induction visits with
      | nil => rfl
      | cons visit visits inductionHypothesis =>
          have whole : sequence .ident (visit :: visits) =
              sequence .ident [visit] ++ sequence .ident visits :=
            sequence_append .ident [visit] visits
          rw [reports_cons, sequence_append, visit.sequence_reports, passed, whole,
            List.flatMap_cons]
          simp only [List.length_append, inductionHypothesis]
          omega
    rw [same] at count
    exact List.flatMap_eq_nil_iff.mp (List.length_eq_zero_iff.mp (by omega))
  · intro none
    apply sequence_reports_eq
    intro visit member
    rw [passed, none visit member]

/-- A statement passes over no identifier exactly where each schema of a column has a table. -/
theorem Statement.passedOver_eq_nil_iff (tree : Statement) :
    (∀ visit ∈ tree.visits, visit.passedOver = []) ↔
      ∀ ref, (Node.column ref).Within (.statement tree) → ref.Shaped := by
  constructor
  · intro none ref within
    exact ColumnRef.passedOver_eq_nil_iff.mp (none _ (Node.columnRef_mem_visits_iff.mpr within))
  · intro shaped visit member
    cases visit with
    | columnRef ref =>
        exact ColumnRef.passedOver_eq_nil_iff.mpr
          (shaped ref (Node.columnRef_mem_visits_iff.mp member))
    | _ => rfl

/-- Both walks over a statement meet the same places of every kind in the same order, exactly where
each column with a schema has a table.  All but the identifiers are the same in any case, and the walk
that rebuilds a statement leaves it as it is where it is only observed. -/
theorem walks_agree_iff (tree : Statement) :
    tree.recorded.1 = tree ∧
    (∀ kind, kind ≠ .ident → sequence kind tree.recorded.2 = sequence kind tree.visits) ∧
    ((∀ kind, sequence kind tree.recorded.2 = sequence kind tree.visits) ↔
      ∀ ref, (Node.column ref).Within (.statement tree) → ref.Shaped) := by
  have others : ∀ kind, kind ≠ .ident → sequence kind (reports tree.visits) =
      sequence kind tree.visits := fun kind other =>
    sequence_reports_eq fun visit _ => visit.sequence_passedOver other
  rw [tree.recorded_eq, ← tree.passedOver_eq_nil_iff, ← sequence_ident_reports_iff]
  refine ⟨rfl, others, fun all => all .ident, fun idents kind => ?_⟩
  by_cases ident : kind = .ident
  · rw [ident]
    exact idents
  · exact others kind ident

/-- The schema of a column without a table is met by one walk only. -/
example : ∀ tree : Statement,
    tree = .select ⟨none, ⟨.select ⟨{}, [.expr (.column ⟨some (.bare "s"), none, .bare "c", .zero⟩)
      none .zero], [], none, [], false, none, .zero⟩, [], .zero⟩, [], none, none, .zero⟩ →
    (sequence .ident tree.visits).length = 1 ∧ (sequence .ident tree.recorded.2).length = 2 := by
  rintro _ rfl
  decide

end SqlDml
