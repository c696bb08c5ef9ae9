import Mathlib.Logic.Basic
import SqlDml.Proofs.Trees.Relabel
import SqlDml.Traversal.Erase

/-!
Contract: setting every span to zero is a relabelling.

Owns:
- the relabelling that sets spans to zero and leaves all else;
- the walk with the hooks of the span eraser comes to the same, form by form.

Does not own: which trees are compared without their spans.
-/

namespace SqlDml

/-- Sets every span to zero. -/
def Relabelling.erasing : Relabelling where
  span _ := .zero
  ident name := { name with span := .zero }

namespace Erased

/-! ### Names -/

theorem optionalIdent (name : Option Ident) :
    (spanEraser.optionalIdent name).run = relabel .erasing name := by
  cases name <;> rfl

theorem idents (names : List Ident) : (spanEraser.idents names).run = relabel .erasing names := by
  induction names with
  | nil => rfl
  | cons name names inductionHypothesis =>
      exact congrArg (relabel Relabelling.erasing name :: ·) inductionHypothesis

theorem tableName (name : TableName) : (name.transform spanEraser).run = relabel .erasing name :=
  congrArg (TableName.mk · _ _) (optionalIdent name.schema)

theorem tableNames (names : List TableName) :
    (TableName.transformAll spanEraser names).run = relabel .erasing names := by
  induction names with
  | nil => rfl
  | cons name names inductionHypothesis =>
      exact congrArg₂ List.cons (tableName name) inductionHypothesis

theorem columnRef (ref : ColumnRef) : (ref.transform spanEraser).run = relabel .erasing ref :=
  congrArg₂ (ColumnRef.mk · · _ _) (optionalIdent ref.schema) (optionalIdent ref.table)

theorem hints (hints : List IndexHint) :
    (IndexHint.transformAll spanEraser hints).run = relabel .erasing hints := by
  induction hints with
  | nil => rfl
  | cons hint hints inductionHypothesis =>
      apply congrArg₂ List.cons _ inductionHypothesis
      exact congrArg (IndexHint.mk hint.action hint.scope · _) (idents hint.indexes)

theorem namedTable (table : NamedTable) :
    (table.transform spanEraser).run = relabel .erasing table := by
  have name := tableName table.name
  have partitions := idents table.partitions
  have aliasName := optionalIdent table.aliasName
  have indexHints := hints table.indexHints
  show NamedTable.mk (table.name.transform spanEraser).run (spanEraser.idents table.partitions).run
    (spanEraser.optionalIdent table.aliasName).run
    (IndexHint.transformAll spanEraser table.indexHints).run .zero = _
  rw [name, partitions, aliasName, indexHints]
  rfl

theorem locking (clause : LockingClause) :
    (clause.transform spanEraser).run = relabel .erasing clause :=
  congrArg (LockingClause.mk clause.mode · clause.wait _) (tableNames clause.tables)

theorem optionalLocking (found : Option LockingClause) :
    found.map (fun clause => (clause.transform spanEraser).run) = relabel .erasing found := by
  cases found with
  | none => rfl
  | some clause => exact congrArg some (locking clause)

/-! ### Optional parts -/

section

variable (span : Span) (hooks : TreeHooks Id)

theorem run_like (operand pattern : Expr) (escape : Option Expr) (op : LikeOp) (negated : Bool) :
    ((Expr.like operand pattern escape op negated span).transform hooks).run =
      .like (operand.transform hooks).run (pattern.transform hooks).run
        (Expr.transformOptional hooks escape).run op negated (hooks.span span).run := by
  cases escape <;> rfl

theorem run_case (subject : Option Expr) (branches : List (Expr × Expr)) (otherwise : Option Expr) :
    ((Expr.case subject branches otherwise span).transform hooks).run =
      .case (Expr.transformOptional hooks subject).run (Expr.transformWhens hooks branches).run
        (Expr.transformOptional hooks otherwise).run (hooks.span span).run := by
  cases subject <;> cases otherwise <;> rfl

theorem run_query (tables : Option WithClause) (body : QueryBody) (orderBy : List OrderingTerm)
    (limit : Option LimitClause) (locking : Option LockingClause) :
    ((Query.mk tables body orderBy limit locking span).transform hooks).run =
      ⟨tables.map fun tables => (tables.transform hooks).run, (body.transform hooks).run,
        (OrderingTerm.transformTerms hooks orderBy).run,
        (LimitClause.transformOptional hooks limit).run,
        locking.map fun clause => (clause.transform hooks).run, (hooks.span span).run⟩ := by
  cases tables <;> cases limit <;> cases locking <;> rfl

theorem run_core (modifiers : SelectModifiers) (columns : List SelectItem)
    (sources : List TableRef) (filter : Option Expr) (groupBy : List OrderingTerm)
    (withRollup : Bool) (having : Option Expr) :
    ((SelectCore.mk modifiers columns sources filter groupBy withRollup having span).transform
        hooks).run =
      ⟨modifiers, (SelectItem.transformItems hooks columns).run,
        (TableRef.transformRefs hooks sources).run, (Expr.transformOptional hooks filter).run,
        (OrderingTerm.transformTerms hooks groupBy).run, withRollup,
        (Expr.transformOptional hooks having).run, (hooks.span span).run⟩ := by
  cases filter <;> cases having <;> rfl

theorem run_limit (count : Expr) (offset : Option Expr) :
    ((LimitClause.mk count offset span).transform hooks).run =
      ⟨(count.transform hooks).run, (Expr.transformOptional hooks offset).run,
        (hooks.span span).run⟩ := by
  cases offset <;> rfl

theorem run_joined (left right : TableRef) (join : JoinType) (condition : Option JoinCondition) :
    ((TableRef.joined left join right condition span).transform hooks).run =
      .joined (left.transform hooks).run join (right.transform hooks).run
        (condition.map fun test => (test.transform hooks).run) (hooks.span span).run := by
  cases condition <;> rfl

end

/-! ### Expressions and queries -/

mutual
theorem expr : ∀ tree : Expr, (tree.transform spanEraser).run = relabel .erasing tree
  | .literal _ _ => rfl
  | .column ref => congrArg Expr.column (columnRef ref)
  | .placeholder _ _ => rfl
  | .default _ => rfl
  | .binary left op right _ => congrArg₂ (Expr.binary · op · _) (expr left) (expr right)
  | .unary op operand _ => congrArg (Expr.unary op · _) (expr operand)
  | .is operand negated value _ => congrArg (Expr.is · negated value _) (expr operand)
  | .quantified left op quantifier rows _ =>
      congrArg₂ (Expr.quantified · op quantifier · _) (expr left) (query rows)
  | .between operand low high negated _ =>
      (congr (congrArg₂ (Expr.between · · · negated Span.zero) (expr operand) (expr low))
        (expr high) :)
  | .isIn operand set negated _ => congrArg₂ (Expr.isIn · · negated _) (expr operand) (inSet set)
  | .like operand pattern escape op negated span => by
      rw [run_like, expr operand, expr pattern, optional escape]
      exact (Expr.relabel_like _ span operand pattern escape op negated).symm
  | .soundsLike operand pattern _ =>
      congrArg₂ (Expr.soundsLike · · _) (expr operand) (expr pattern)
  | .case subject branches otherwise span => by
      rw [run_case, optional subject, whens branches, optional otherwise]
      exact (Expr.relabel_case _ span subject branches otherwise).symm
  | .cast operand target _ => congrArg (Expr.cast · target _) (expr operand)
  | .call name args distinct _ => congrArg (Expr.call _ · distinct _) (callArgs args)
  | .subquery rows _ => congrArg (Expr.subquery · _) (query rows)
  | .exists rows _ => congrArg (Expr.exists · _) (query rows)
  | .row list span =>
      (congrArg (Expr.row · _) (items list)).trans (Expr.relabel_row _ span list).symm
  | .collate operand _ _ => congrArg (Expr.collate · _ _) (expr operand)

theorem items : ∀ list : List Expr,
    (Expr.transformItems spanEraser list).run = relabel .erasing list
  | [] => rfl
  | item :: list => congrArg₂ List.cons (expr item) (items list)

theorem whens : ∀ list : List (Expr × Expr),
    (Expr.transformWhens spanEraser list).run = relabel .erasing list
  | [] => rfl
  | (condition, result) :: list =>
      congrArg₂ List.cons (congrArg₂ Prod.mk (expr condition) (expr result)) (whens list)

theorem optional : ∀ found : Option Expr,
    (Expr.transformOptional spanEraser found).run = relabel .erasing found
  | none => rfl
  | some value => congrArg some (expr value)

theorem inSet : ∀ set : InSet, (set.transform spanEraser).run = relabel .erasing set
  | .list list => (congrArg InSet.list (items list)).trans (InSet.relabel_list _ list).symm
  | .subquery rows => congrArg InSet.subquery (query rows)

theorem callArgs : ∀ args : CallArgs, (args.transform spanEraser).run = args.mapLabels .erasing
  | .star => rfl
  | .list list => congrArg CallArgs.list ((items list).trans (Expr.mapItemsLabels_eq _ list).symm)

theorem query : ∀ tree : Query, (tree.transform spanEraser).run = relabel .erasing tree
  | ⟨tables, body, orderBy, limit, lock, span⟩ => by
      rw [run_query, optionalWith tables, queryBody body, terms orderBy, optionalLimit limit,
        optionalLocking lock]
      exact (Query.relabel_mk _ span tables body orderBy limit lock).symm

theorem optionalWith : ∀ found : Option WithClause,
    found.map (fun tables => (tables.transform spanEraser).run) = relabel .erasing found
  | none => rfl
  | some tables => congrArg some (withClause tables)

theorem withClause : ∀ tables : WithClause,
    (tables.transform spanEraser).run = relabel .erasing tables
  | ⟨recursive, list, span⟩ =>
      (congrArg (WithClause.mk recursive · _) (commonTables list)).trans
        (WithClause.relabel_mk _ span recursive list).symm

theorem commonTable : ∀ table : CommonTable,
    (table.transform spanEraser).run = relabel .erasing table
  | ⟨_, columns, rows, _⟩ => congrArg₂ (CommonTable.mk _ · · _) (idents columns) (query rows)

theorem commonTables : ∀ list : List CommonTable,
    (CommonTable.transformTables spanEraser list).run = relabel .erasing list
  | [] => rfl
  | table :: list => congrArg₂ List.cons (commonTable table) (commonTables list)

theorem queryBody : ∀ body : QueryBody, (body.transform spanEraser).run = relabel .erasing body
  | ⟨first, others, span⟩ =>
      (congrArg₂ (QueryBody.mk · · _) (queryTerm first) (compounds others)).trans
        (QueryBody.relabel_mk _ span first others).symm

theorem queryTerm : ∀ term : QueryTerm, (term.transform spanEraser).run = relabel .erasing term
  | .select block => congrArg QueryTerm.select (core block)
  | .nested rows => congrArg QueryTerm.nested (query rows)

theorem compounds : ∀ list : List (CompoundOp × QueryTerm),
    (QueryTerm.transformCompounds spanEraser list).run = relabel .erasing list
  | [] => rfl
  | (op, term) :: list =>
      congrArg₂ List.cons (congrArg (Prod.mk op) (queryTerm term)) (compounds list)

theorem core : ∀ block : SelectCore, (block.transform spanEraser).run = relabel .erasing block
  | ⟨modifiers, columns, sources, filter, groupBy, withRollup, having, span⟩ => by
      rw [run_core, selectItems columns, tableRefs sources, optional filter, terms groupBy,
        optional having]
      exact (SelectCore.relabel_mk _ span modifiers columns sources filter groupBy withRollup
        having).symm

theorem selectItem : ∀ item : SelectItem, (item.transform spanEraser).run = relabel .erasing item
  | .wildcard _ => rfl
  | .qualifiedWildcard schema _ _ =>
      congrArg (SelectItem.qualifiedWildcard · _ _) (optionalIdent schema)
  | .expr value aliasName _ =>
      congrArg₂ (SelectItem.expr · · _) (expr value) (optionalIdent aliasName)

theorem selectItems : ∀ list : List SelectItem,
    (SelectItem.transformItems spanEraser list).run = relabel .erasing list
  | [] => rfl
  | item :: list => congrArg₂ List.cons (selectItem item) (selectItems list)

theorem term : ∀ entry : OrderingTerm, (entry.transform spanEraser).run = relabel .erasing entry
  | ⟨value, direction, _⟩ => congrArg (OrderingTerm.mk · direction _) (expr value)

theorem terms : ∀ list : List OrderingTerm,
    (OrderingTerm.transformTerms spanEraser list).run = relabel .erasing list
  | [] => rfl
  | entry :: list => congrArg₂ List.cons (term entry) (terms list)

theorem limit : ∀ clause : LimitClause,
    (clause.transform spanEraser).run = relabel .erasing clause
  | ⟨count, offset, span⟩ => by
      rw [run_limit, expr count, optional offset]
      exact (LimitClause.relabel_mk _ span count offset).symm

theorem optionalLimit : ∀ found : Option LimitClause,
    (LimitClause.transformOptional spanEraser found).run = relabel .erasing found
  | none => rfl
  | some clause => congrArg some (limit clause)

theorem tableRef : ∀ ref : TableRef, (ref.transform spanEraser).run = relabel .erasing ref
  | .named table => congrArg TableRef.named (namedTable table)
  | .derived rows _ _ => congrArg (TableRef.derived · _ _) (query rows)
  | .joined left join right test span => by
      rw [run_joined, tableRef left, tableRef right, optionalCondition test]
      exact (TableRef.relabel_joined _ span left right join test).symm
  | .parenthesized inner span =>
      (congrArg (TableRef.parenthesized · _) (tableRefs inner)).trans
        (TableRef.relabel_parenthesized _ span inner).symm

theorem tableRefs : ∀ list : List TableRef,
    (TableRef.transformRefs spanEraser list).run = relabel .erasing list
  | [] => rfl
  | ref :: list => congrArg₂ List.cons (tableRef ref) (tableRefs list)

theorem condition : ∀ test : JoinCondition,
    (test.transform spanEraser).run = relabel .erasing test
  | .on value => congrArg JoinCondition.on (expr value)
  | .using columns => congrArg JoinCondition.using (idents columns)

theorem optionalCondition : ∀ found : Option JoinCondition,
    found.map (fun test => (test.transform spanEraser).run) = relabel .erasing found
  | none => rfl
  | some test => congrArg some (condition test)
end

/-! ### Statements -/

theorem assignment (entry : Assignment) :
    (entry.transform spanEraser).run = relabel .erasing entry :=
  congrArg₂ (Assignment.mk · · Span.zero) (columnRef entry.column) (expr entry.value)

theorem assignments (list : List Assignment) :
    (Assignment.transformAll spanEraser list).run = relabel .erasing list := by
  induction list with
  | nil => rfl
  | cons entry list inductionHypothesis =>
      exact congrArg₂ List.cons (assignment entry) inductionHypothesis

theorem rows (list : List (List Expr)) :
    (Expr.transformRows spanEraser list).run = relabel .erasing list := by
  induction list with
  | nil => rfl
  | cons row list inductionHypothesis =>
      exact congrArg₂ List.cons (items row) inductionHypothesis

theorem insertSource (source : InsertSource) :
    (source.transform spanEraser).run = relabel .erasing source := by
  cases source with
  | values list => exact congrArg InsertSource.values (rows list)
  | select tree => exact congrArg InsertSource.select (query tree)
  | set list => exact congrArg InsertSource.set (assignments list)

theorem insert (tree : Insert) : (tree.transform spanEraser).run = relabel .erasing tree := by
  obtain ⟨kind, priority, ignore, table, partitions, columns, source, onDuplicate, span⟩ := tree
  exact (congr (congr (congr (congrArg₂ (Insert.mk kind priority ignore · · · · · Span.zero)
    (tableName table) (idents partitions)) (idents columns)) (insertSource source))
    (assignments onDuplicate) :)

theorem update (tree : Update) : (tree.transform spanEraser).run = relabel .erasing tree := by
  obtain ⟨lowPriority, ignore, tables, assigned, filter, orderBy, limit, span⟩ := tree
  exact (congr (congr (congr (congrArg₂ (Update.mk lowPriority ignore · · · · · Span.zero)
    (tableRefs tables) (assignments assigned)) (optional filter)) (terms orderBy))
    (optionalLimit limit) :)

theorem deleteSource (source : DeleteSource) :
    (source.transform spanEraser).run = relabel .erasing source := by
  cases source with
  | single table => exact congrArg DeleteSource.single (namedTable table)
  | multi tables afterUsing => exact congrArg (DeleteSource.multi · afterUsing) (tableRefs tables)

theorem delete (tree : Delete) : (tree.transform spanEraser).run = relabel .erasing tree := by
  obtain ⟨lowPriority, quick, ignore, targets, source, filter, orderBy, limit, span⟩ := tree
  exact (congr (congr (congr (congrArg₂ (Delete.mk lowPriority quick ignore · · · · · Span.zero)
    (tableNames targets) (deleteSource source)) (optional filter)) (terms orderBy))
    (optionalLimit limit) :)

end Erased

theorem Expr.eraseSpans_eq (tree : Expr) : tree.eraseSpans = relabel .erasing tree :=
  Erased.expr tree

theorem Statement.eraseSpans_eq (tree : Statement) :
    tree.eraseSpans = relabel .erasing tree := by
  cases tree with
  | select tree => exact congrArg Statement.select (Erased.query tree)
  | insert tree => exact congrArg Statement.insert (Erased.insert tree)
  | update tree => exact congrArg Statement.update (Erased.update tree)
  | delete tree => exact congrArg Statement.delete (Erased.delete tree)

end SqlDml
