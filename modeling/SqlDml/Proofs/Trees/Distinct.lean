import Mathlib.Logic.Function.Basic
import SqlDml.Proofs.Trees.Induction
import SqlDml.Shape.Statement

/-!
Contract: the shape of a tree leaves nothing out.

Owns:
- trees of one shape are the same tree, for every form of tree.

Does not own: what is done to the spans in a shape.
-/

namespace SqlDml

open Shape (optional listOf plain)

/-! ### Lists and optional parts -/

/-- No other value has the shape of this one. -/
def Known {Tree : Type} (shape : Tree → Shape) (tree : Tree) : Prop :=
  ∀ other, shape other = shape tree → other = tree

namespace Known

variable {Tree : Type} {shape : Tree → Shape}

theorem injective (known : ∀ tree, Known shape tree) : Function.Injective shape :=
  fun left right same => known right left same

theorem of_injective (injective : Function.Injective shape) (tree : Tree) : Known shape tree :=
  fun _ same => injective same

/-- A list is known by the shapes of its items. -/
theorem list {trees : List Tree} (each : ∀ tree ∈ trees, Known shape tree) {others : List Tree}
    (same : others.map shape = trees.map shape) : others = trees := by
  induction trees generalizing others with
  | nil => exact List.map_eq_nil_iff.mp same
  | cons tree trees inductionHypothesis =>
      obtain ⟨first, later⟩ := List.forall_mem_cons.mp each
      obtain ⟨other, rest, rfl, here, behind⟩ := List.map_eq_cons_iff.mp same
      rw [first other here, inductionHypothesis later behind]

theorem optional {found : Option Tree} (each : ∀ tree ∈ found, Known shape tree) :
    Known (Shape.optional shape) found := by
  intro other same
  cases found with
  | none =>
      cases other with
      | none => rfl
      | some other => cases same
  | some tree =>
      cases other with
      | none => cases same
      | some other => rw [each tree rfl other (Shape.present.inj same)]

end Known

theorem optional_injective {Tree : Type} {shape : Tree → Shape}
    (injective : Function.Injective shape) : Function.Injective (optional shape) :=
  Known.injective fun _ => .optional fun tree _ => .of_injective injective tree

theorem listOf_injective {Tree : Type} {shape : Tree → Shape}
    (injective : Function.Injective shape) : Function.Injective (listOf shape) :=
  Known.injective fun _ _ same =>
    Known.list (fun tree _ => .of_injective injective tree) (Shape.list.inj same)

/-- Fields under one name have the same shapes, one by one. -/
theorem fields_iff {name : String} {first first' : Shape} {rest rest' : List (String × Shape)} :
    (name, first) :: rest = (name, first') :: rest' ↔ first = first' ∧ rest = rest' := by
  rw [List.cons.injEq, Prod.mk.injEq, eq_self, true_and]

/-! ### Values -/

theorem text_injective : Function.Injective Shape.text := fun _ _ => Shape.text.inj

theorem char_injective : Function.Injective Shape.char := fun _ _ => Shape.char.inj

theorem size_injective : Function.Injective fun size : Nat => Shape.number size :=
  fun _ _ same => Int.ofNat.inj (Shape.number.inj same)

theorem TemporalKind.shape_injective : Function.Injective TemporalKind.shape := by
  intro left right same
  cases left <;> cases right <;> first | rfl | simp [shape, plain] at same

theorem BinaryOp.shape_injective : Function.Injective BinaryOp.shape := by
  intro left right same
  cases left <;> cases right <;> first | rfl | simp [shape, shapeName, plain] at same

theorem UnaryOp.shape_injective : Function.Injective UnaryOp.shape := by
  intro left right same
  cases left <;> cases right <;> first | rfl | simp [shape, plain] at same

theorem IsValue.shape_injective : Function.Injective IsValue.shape := by
  intro left right same
  cases left <;> cases right <;> first | rfl | simp [shape, plain] at same

theorem Quantifier.shape_injective : Function.Injective Quantifier.shape := by
  intro left right same
  cases left <;> cases right <;> first | rfl | simp [shape, plain] at same

theorem LikeOp.shape_injective : Function.Injective LikeOp.shape := by
  intro left right same
  cases left <;> cases right <;> first | rfl | simp [shape, plain] at same

theorem Literal.known (value : Literal) : Known Literal.shape value := by
  induction value with
  | introduced charset value inductionHypothesis =>
      intro other same
      cases other <;> simp [shape] at same
      obtain ⟨rfl, same⟩ := same
      rw [inductionHypothesis _ same]
  | temporal kind value =>
      intro other same
      cases other <;> simp [shape] at same
      obtain ⟨kinds, rfl⟩ := same
      rw [TemporalKind.shape_injective kinds]
  | _ =>
      intro other same
      cases other <;> simp_all [shape]

theorem SetQuantifier.shape_injective : Function.Injective SetQuantifier.shape := by
  intro left right same
  cases left <;> cases right <;> first | rfl | simp [shape, plain] at same

theorem CacheOption.shape_injective : Function.Injective CacheOption.shape := by
  intro left right same
  cases left <;> cases right <;> first | rfl | simp [shape, plain] at same

theorem CompoundOp.shape_injective : Function.Injective CompoundOp.shape := by
  intro left right same
  cases left <;> cases right <;> first | rfl | simp [shape, plain] at same

theorem SortDirection.shape_injective : Function.Injective SortDirection.shape := by
  intro left right same
  cases left <;> cases right <;> first | rfl | simp [shape, plain] at same

theorem LockMode.shape_injective : Function.Injective LockMode.shape := by
  intro left right same
  cases left <;> cases right <;> first | rfl | simp [shape, plain] at same

theorem LockWait.shape_injective : Function.Injective LockWait.shape := by
  intro left right same
  cases left <;> cases right <;> first | rfl | simp [shape, plain] at same

theorem JoinType.shape_injective : Function.Injective JoinType.shape := by
  intro join other same
  cases join <;> cases other <;> first | rfl | simp [shape, plain] at same

theorem IndexHintAction.shape_injective : Function.Injective IndexHintAction.shape := by
  intro left right same
  cases left <;> cases right <;> first | rfl | simp [shape, plain] at same

theorem IndexHintScope.shape_injective : Function.Injective IndexHintScope.shape := by
  intro left right same
  cases left <;> cases right <;> first | rfl | simp [shape, plain] at same

theorem InsertKind.shape_injective : Function.Injective InsertKind.shape := by
  intro left right same
  cases left <;> cases right <;> first | rfl | simp [shape, plain] at same

theorem InsertPriority.shape_injective : Function.Injective InsertPriority.shape := by
  intro left right same
  cases left <;> cases right <;> first | rfl | simp [shape, plain] at same

theorem TypeName.shape_injective : Function.Injective TypeName.shape := by
  rintro ⟨name, length, scale⟩ ⟨name', length', scale'⟩ same
  simp only [shape, Shape.record.injEq, fields_iff, Shape.text.injEq, true_and,
    and_true] at same
  obtain ⟨rfl, lengths, scales⟩ := same
  rw [optional_injective size_injective lengths, optional_injective size_injective scales]

theorem SelectModifiers.shape_injective : Function.Injective SelectModifiers.shape := by
  rintro ⟨quantifier, _, _, _, _, _, cache, _⟩ ⟨quantifier', _, _, _, _, _, cache', _⟩ same
  simp only [shape, Shape.record.injEq, fields_iff, Shape.flag.injEq, true_and,
    and_true] at same
  obtain ⟨quantifiers, rfl, rfl, rfl, rfl, rfl, caches, rfl⟩ := same
  rw [optional_injective SetQuantifier.shape_injective quantifiers,
    optional_injective CacheOption.shape_injective caches]

/-! ### Names -/

theorem Ident.shape_injective : Function.Injective Ident.shape := by
  rintro ⟨value, quote, span⟩ ⟨value', quote', span'⟩ same
  simp only [shape, Shape.record.injEq, fields_iff, Shape.text.injEq,
    Shape.span.injEq, true_and, and_true] at same
  obtain ⟨rfl, quotes, rfl⟩ := same
  rw [optional_injective char_injective quotes]

theorem TableName.shape_injective : Function.Injective TableName.shape := by
  rintro ⟨schema, table, span⟩ ⟨schema', table', span'⟩ same
  simp only [shape, Shape.record.injEq, fields_iff, Shape.span.injEq, true_and,
    and_true] at same
  obtain ⟨schemas, tables, rfl⟩ := same
  rw [optional_injective Ident.shape_injective schemas, Ident.shape_injective tables]

theorem ColumnRef.shape_injective : Function.Injective ColumnRef.shape := by
  rintro ⟨schema, table, column, span⟩ ⟨schema', table', column', span'⟩ same
  simp only [shape, Shape.record.injEq, fields_iff, Shape.span.injEq, true_and,
    and_true] at same
  obtain ⟨schemas, tables, columns, rfl⟩ := same
  rw [optional_injective Ident.shape_injective schemas,
    optional_injective Ident.shape_injective tables, Ident.shape_injective columns]

theorem IndexHint.shape_injective : Function.Injective IndexHint.shape := by
  rintro ⟨action, scope, indexes, span⟩ ⟨action', scope', indexes', span'⟩ same
  simp only [shape, Shape.record.injEq, fields_iff, Shape.span.injEq, true_and,
    and_true] at same
  obtain ⟨actions, scopes, lists, rfl⟩ := same
  rw [IndexHintAction.shape_injective actions,
    optional_injective IndexHintScope.shape_injective scopes,
    listOf_injective Ident.shape_injective lists]

theorem NamedTable.shape_injective : Function.Injective NamedTable.shape := by
  rintro ⟨name, partitions, aliasName, hints, span⟩ ⟨name', partitions', aliasName', hints', span'⟩
    same
  simp only [shape, Shape.record.injEq, fields_iff, Shape.span.injEq, true_and,
    and_true] at same
  obtain ⟨names, lists, aliases, hinted, rfl⟩ := same
  rw [TableName.shape_injective names, listOf_injective Ident.shape_injective lists,
    optional_injective Ident.shape_injective aliases,
    listOf_injective IndexHint.shape_injective hinted]

theorem LockingClause.shape_injective : Function.Injective LockingClause.shape := by
  rintro ⟨mode, tables, wait, span⟩ ⟨mode', tables', wait', span'⟩ same
  simp only [shape, Shape.record.injEq, fields_iff, Shape.span.injEq, true_and,
    and_true] at same
  obtain ⟨modes, lists, waits, rfl⟩ := same
  rw [LockMode.shape_injective modes, listOf_injective TableName.shape_injective lists,
    optional_injective LockWait.shape_injective waits]

/-! ### Expressions and queries -/

section

attribute [local simp] Expr.shape Expr.itemShapes Expr.whenShapes Query.shape
  CommonTable.tableShapes QueryTerm.compoundShapes SelectCore.shape SelectItem.itemShapes
  OrderingTerm.termShapes LimitClause.shape TableRef.shape TableRef.refShapes

theorem Expr.itemShapes_eq (items : List Expr) : Expr.itemShapes items = items.map Expr.shape := by
  induction items with
  | nil => rfl
  | cons item items inductionHypothesis => simp [inductionHypothesis]

/-- The shape of a branch of a case. -/
def Expr.branchShape (branch : Expr × Expr) : Shape := .tuple [branch.1.shape, branch.2.shape]

theorem Expr.whenShapes_eq (whens : List (Expr × Expr)) :
    Expr.whenShapes whens = whens.map Expr.branchShape := by
  induction whens with
  | nil => rfl
  | cons branch whens inductionHypothesis => simp [inductionHypothesis, branchShape]

theorem CommonTable.tableShapes_eq (tables : List CommonTable) :
    CommonTable.tableShapes tables = tables.map CommonTable.shape := by
  induction tables with
  | nil => rfl
  | cons table tables inductionHypothesis => simp [inductionHypothesis]

/-- The shape of a term behind the operator that unites it with those in front. -/
def QueryTerm.compoundShape (compound : CompoundOp × QueryTerm) : Shape :=
  .tuple [compound.1.shape, compound.2.shape]

theorem QueryTerm.compoundShapes_eq (compounds : List (CompoundOp × QueryTerm)) :
    QueryTerm.compoundShapes compounds = compounds.map QueryTerm.compoundShape := by
  induction compounds with
  | nil => rfl
  | cons compound compounds inductionHypothesis => simp [inductionHypothesis, compoundShape]

theorem SelectItem.itemShapes_eq (items : List SelectItem) :
    SelectItem.itemShapes items = items.map SelectItem.shape := by
  induction items with
  | nil => rfl
  | cons item items inductionHypothesis => simp [inductionHypothesis]

theorem OrderingTerm.termShapes_eq (terms : List OrderingTerm) :
    OrderingTerm.termShapes terms = terms.map OrderingTerm.shape := by
  induction terms with
  | nil => rfl
  | cons term terms inductionHypothesis => simp [inductionHypothesis]

theorem TableRef.refShapes_eq (refs : List TableRef) :
    TableRef.refShapes refs = refs.map TableRef.shape := by
  induction refs with
  | nil => rfl
  | cons ref refs inductionHypothesis => simp [inductionHypothesis]

section

variable (span : Span)

@[simp] theorem Expr.shape_like (operand pattern : Expr) (escape : Option Expr) (op : LikeOp)
    (negated : Bool) :
    (Expr.like operand pattern escape op negated span).shape =
      .choiceWith .outside "Like" [("expr", operand.shape), ("pattern", pattern.shape),
        ("escape", optional Expr.shape escape), ("op", op.shape), ("not", .flag negated),
        ("span", .span span)] := by
  cases escape <;> simp [Shape.optional]

@[simp] theorem Expr.shape_case (subject : Option Expr) (whens : List (Expr × Expr))
    (otherwise : Option Expr) :
    (Expr.case subject whens otherwise span).shape =
      .choiceWith .outside "Case" [("operand", optional Expr.shape subject),
        ("whens", .list (whens.map Expr.branchShape)),
        ("else_expr", optional Expr.shape otherwise), ("span", .span span)] := by
  cases subject <;> cases otherwise <;> simp [Shape.optional, whenShapes_eq]

theorem Query.shape_mk (withClause : Option WithClause) (body : QueryBody)
    (orderBy : List OrderingTerm) (limit : Option LimitClause) (locking : Option LockingClause) :
    (Query.mk withClause body orderBy limit locking span).shape =
      .record "SelectStatement" [("with", optional WithClause.shape withClause),
        ("body", body.shape), ("order_by", listOf OrderingTerm.shape orderBy),
        ("limit", optional LimitClause.shape limit),
        ("locking", optional LockingClause.shape locking), ("span", .span span)] := by
  cases withClause <;> cases limit <;> simp [Shape.optional, Shape.listOf, OrderingTerm.termShapes_eq]

theorem SelectCore.shape_mk (modifiers : SelectModifiers) (columns : List SelectItem)
    (sources : List TableRef) (filter : Option Expr) (groupBy : List OrderingTerm)
    (withRollup : Bool) (having : Option Expr) :
    (SelectCore.mk modifiers columns sources filter groupBy withRollup having span).shape =
      .record "SelectCore" [("modifiers", modifiers.shape),
        ("columns", listOf SelectItem.shape columns), ("from", listOf TableRef.shape sources),
        ("where_clause", optional Expr.shape filter),
        ("group_by", listOf OrderingTerm.shape groupBy), ("with_rollup", .flag withRollup),
        ("having", optional Expr.shape having), ("span", .span span)] := by
  cases filter <;> cases having <;>
    simp [Shape.optional, Shape.listOf, SelectItem.itemShapes_eq, TableRef.refShapes_eq,
      OrderingTerm.termShapes_eq]

theorem LimitClause.shape_mk (count : Expr) (offset : Option Expr) :
    (LimitClause.mk count offset span).shape =
      .record "LimitClause" [("limit", count.shape), ("offset", optional Expr.shape offset),
        ("span", .span span)] := by
  cases offset <;> simp [Shape.optional]

@[simp] theorem TableRef.shape_named (table : NamedTable) :
    (TableRef.named table).shape = .choiceOf .outside "Named" [table.shape] := by
  simp

@[simp] theorem TableRef.shape_derived (query : Query) (aliasName : Ident) :
    (TableRef.derived query aliasName span).shape =
      .choiceWith .outside "Derived" [("subquery", query.shape), ("alias", aliasName.shape),
        ("span", .span span)] := by
  simp

@[simp] theorem TableRef.shape_parenthesized (refs : List TableRef) :
    (TableRef.parenthesized refs span).shape =
      .choiceWith .outside "Parenthesized" [("inner", listOf TableRef.shape refs),
        ("span", .span span)] := by
  simp [Shape.listOf, refShapes_eq]

@[simp] theorem TableRef.shape_joined (left right : TableRef) (join : JoinType)
    (condition : Option JoinCondition) :
    (TableRef.joined left join right condition span).shape =
      .choiceWith .outside "Joined" [("left", left.shape), ("join_type", join.shape),
        ("right", right.shape), ("condition", optional JoinCondition.shape condition),
        ("span", .span span)] := by
  cases condition <;> simp [Shape.optional]

end

end

namespace Known

theorem commonTable (table : CommonTable) (rows : Known Query.shape table.query) :
    Known CommonTable.shape table := by
  obtain ⟨name, columns, query, span⟩ := table
  rintro ⟨name', columns', query', span'⟩ same
  simp [CommonTable.shape] at same
  obtain ⟨names, lists, queries, rfl⟩ := same
  rw [Ident.shape_injective names, listOf_injective Ident.shape_injective lists, rows _ queries]

theorem withClause (clause : WithClause)
    (rows : ∀ table ∈ clause.tables, Known Query.shape table.query) :
    Known WithClause.shape clause := by
  obtain ⟨recursive, tables, span⟩ := clause
  rintro ⟨recursive', tables', span'⟩ same
  simp [WithClause.shape, CommonTable.tableShapes_eq] at same
  obtain ⟨rfl, lists, rfl⟩ := same
  rw [list (fun table member => commonTable table (rows table member)) lists]

theorem queryBody (body : QueryBody) (term : Known QueryTerm.shape body.first)
    (others : ∀ compound ∈ body.compounds, Known QueryTerm.shape compound.2) :
    Known QueryBody.shape body := by
  obtain ⟨first, compounds, span⟩ := body
  have each : ∀ compound ∈ compounds, Known QueryTerm.compoundShape compound := by
    rintro ⟨op, tree⟩ member ⟨op', tree'⟩ same
    simp [QueryTerm.compoundShape] at same
    rw [CompoundOp.shape_injective same.1, others _ member _ same.2]
  rintro ⟨first', compounds', span'⟩ same
  simp [QueryBody.shape, QueryTerm.compoundShapes_eq] at same
  obtain ⟨firsts, lists, rfl⟩ := same
  rw [term _ firsts, list each lists]

theorem limitClause (limit : LimitClause) (first : Known Expr.shape limit.count)
    (second : ∀ expr ∈ limit.offset, Known Expr.shape expr) : Known LimitClause.shape limit := by
  obtain ⟨count, offset, span⟩ := limit
  rintro ⟨count', offset', span'⟩ same
  simp [LimitClause.shape_mk] at same
  obtain ⟨counts, offsets, rfl⟩ := same
  rw [first _ counts, optional second _ offsets]

theorem orderingTerm (entry : OrderingTerm) (first : Known Expr.shape entry.expr) :
    Known OrderingTerm.shape entry := by
  obtain ⟨value, direction, span⟩ := entry
  rintro ⟨value', direction', span'⟩ same
  simp [OrderingTerm.shape] at same
  obtain ⟨values, directions, rfl⟩ := same
  rw [first _ values, optional_injective SortDirection.shape_injective directions]

theorem selectItem (item : SelectItem)
    (each : ∀ value aliasName place, item = .expr value aliasName place →
      Known Expr.shape value) : Known SelectItem.shape item := by
  intro other same
  cases item with
  | wildcard span =>
      cases other <;> simp [SelectItem.shape] at same
      rw [same]
  | qualifiedWildcard schema table span =>
      cases other <;> simp [SelectItem.shape] at same
      obtain ⟨schemas, tables, rfl⟩ := same
      rw [optional_injective Ident.shape_injective schemas, Ident.shape_injective tables]
  | expr value aliasName span =>
      cases other <;> simp [SelectItem.shape] at same
      obtain ⟨values, aliases, rfl⟩ := same
      rw [each value aliasName _ rfl _ values, optional_injective Ident.shape_injective aliases]

theorem joinCondition (test : JoinCondition)
    (each : ∀ value, test = .on value → Known Expr.shape value) :
    Known JoinCondition.shape test := by
  intro other same
  rcases test with value | columns
  · cases other <;> simp [JoinCondition.shape] at same
    rw [each value rfl _ same]
  · cases other <;> simp [JoinCondition.shape] at same
    rw [listOf_injective Ident.shape_injective same]

end Known

/-- What tells the choices of a shape apart. -/
def Shape.choiceName : Shape → String
  | .choiceOf _ name _ | .choiceWith _ name _ => name
  | _ => ""

theorem Expr.choiceName_shape (expr : Expr) : expr.shape.choiceName = expr.shapeName := by
  cases expr <;> simp [shape, Shape.choiceName, shapeName]

/-- The kinds of expressions, by their names. -/
def Expr.shapeNames : List String :=
  ["Literal", "Column", "Placeholder", "Default", "BinaryOp", "UnaryOp", "Is",
    "QuantifiedComparison", "Between", "In", "Like", "SoundsLike", "Case", "Cast",
    "FunctionCall", "Subquery", "Exists", "Row", "Collate"]

theorem Expr.idxOf_shapeName (expr : Expr) : shapeNames.idxOf expr.shapeName = expr.ctorIdx := by
  cases expr <;> rfl

/-- Expressions of one shape are of one kind. -/
theorem Expr.sameKind {left right : Expr} (same : left.shape = right.shape) :
    left.ctorIdx = right.ctorIdx := by
  rw [← idxOf_shapeName, ← idxOf_shapeName, ← choiceName_shape, same, choiceName_shape]

/-- Every tree is known by its shape: the shape tells the kind of an expression, and then its parts. -/
theorem knownTrees : TreeInduction (Known Expr.shape) (Known Query.shape) (Known QueryTerm.shape)
    (Known SelectCore.shape) (Known TableRef.shape) where
  literal value span := by
    intro other same
    cases other <;> cases Expr.sameKind same
    simp [Expr.shape] at same
    obtain ⟨values, rfl⟩ := same
    rw [value.known _ values]
  column name := by
    intro other same
    cases other <;> cases Expr.sameKind same
    simp [Expr.shape] at same
    rw [ColumnRef.shape_injective same]
  placeholder index span := by
    intro other same
    cases other <;> cases Expr.sameKind same
    next index' span' =>
      simp [Expr.shape] at same
      obtain ⟨numbers, rfl⟩ := same
      have indices : index' = index := by omega
      rw [indices]
  default span := by
    intro other same
    cases other <;> cases Expr.sameKind same
    simp [Expr.shape] at same
    rw [same]
  binary left op right span first second := by
    intro other same
    cases other <;> cases Expr.sameKind same
    simp [Expr.shape] at same
    obtain ⟨lefts, ops, rights, rfl⟩ := same
    rw [first _ lefts, BinaryOp.shape_injective ops, second _ rights]
  unary op operand span first := by
    intro other same
    cases other <;> cases Expr.sameKind same
    simp [Expr.shape] at same
    obtain ⟨ops, operands, rfl⟩ := same
    rw [first _ operands, UnaryOp.shape_injective ops]
  is operand negated value span first := by
    intro other same
    cases other <;> cases Expr.sameKind same
    simp [Expr.shape] at same
    obtain ⟨operands, rfl, values, rfl⟩ := same
    rw [first _ operands, IsValue.shape_injective values]
  quantified left op quantifier rows span first second := by
    intro other same
    cases other <;> cases Expr.sameKind same
    simp [Expr.shape] at same
    obtain ⟨lefts, ops, quantifiers, queries, rfl⟩ := same
    rw [first _ lefts, BinaryOp.shape_injective ops, Quantifier.shape_injective quantifiers,
      second _ queries]
  between operand low high negated span first second third := by
    intro other same
    cases other <;> cases Expr.sameKind same
    simp [Expr.shape] at same
    obtain ⟨operands, lows, highs, rfl, rfl⟩ := same
    rw [first _ operands, second _ lows, third _ highs]
  inList operand items negated span first each := by
    intro other same
    cases other <;> cases Expr.sameKind same
    simp [Expr.shape] at same
    next operand' set negated' span' =>
      obtain ⟨operands, sets, rfl, rfl⟩ := same
      cases set <;> simp [InSet.shape, Expr.itemShapes_eq] at sets
      rw [first _ operands, Known.list each sets]
  inQuery operand rows negated span first second := by
    intro other same
    cases other <;> cases Expr.sameKind same
    simp [Expr.shape] at same
    next operand' set negated' span' =>
      obtain ⟨operands, sets, rfl, rfl⟩ := same
      cases set <;> simp [InSet.shape] at sets
      rw [first _ operands, second _ sets]
  like operand pattern escape op negated span first second each := by
    intro other same
    cases other <;> cases Expr.sameKind same
    simp at same
    obtain ⟨operands, patterns, escapes, ops, rfl, rfl⟩ := same
    rw [first _ operands, second _ patterns, Known.optional each _ escapes,
      LikeOp.shape_injective ops]
  soundsLike operand pattern span first second := by
    intro other same
    cases other <;> cases Expr.sameKind same
    simp [Expr.shape] at same
    obtain ⟨operands, patterns, rfl⟩ := same
    rw [first _ operands, second _ patterns]
  case operand whens otherwise span subject branches last := by
    have each : ∀ branch ∈ whens, Known Expr.branchShape branch := by
      rintro ⟨condition, result⟩ member ⟨condition', result'⟩ same
      obtain ⟨first, second⟩ := branches _ member
      simp [Expr.branchShape] at same
      rw [first _ same.1, second _ same.2]
    intro other same
    cases other <;> cases Expr.sameKind same
    simp at same
    obtain ⟨operands, lists, lasts, rfl⟩ := same
    rw [Known.optional subject _ operands, Known.list each lists, Known.optional last _ lasts]
  cast operand target span first := by
    intro other same
    cases other <;> cases Expr.sameKind same
    simp [Expr.shape] at same
    obtain ⟨operands, targets, rfl⟩ := same
    rw [first _ operands, TypeName.shape_injective targets]
  callStar name distinct span := by
    intro other same
    cases other <;> cases Expr.sameKind same
    simp [Expr.shape] at same
    next name' args distinct' span' =>
      obtain ⟨names, arguments, rfl, rfl⟩ := same
      cases args <;> simp [CallArgs.shape, plain] at arguments
      rw [Ident.shape_injective names]
  call name items distinct span each := by
    intro other same
    cases other <;> cases Expr.sameKind same
    simp [Expr.shape] at same
    next name' args distinct' span' =>
      obtain ⟨names, arguments, rfl, rfl⟩ := same
      cases args <;> simp [CallArgs.shape, plain, Expr.itemShapes_eq] at arguments
      rw [Ident.shape_injective names, Known.list each arguments]
  subquery rows span first := by
    intro other same
    cases other <;> cases Expr.sameKind same
    simp [Expr.shape] at same
    obtain ⟨queries, rfl⟩ := same
    rw [first _ queries]
  existsRows rows span first := by
    intro other same
    cases other <;> cases Expr.sameKind same
    simp [Expr.shape] at same
    obtain ⟨queries, rfl⟩ := same
    rw [first _ queries]
  row items span each := by
    intro other same
    cases other <;> cases Expr.sameKind same
    simp [Expr.shape, Expr.itemShapes_eq] at same
    obtain ⟨lists, rfl⟩ := same
    rw [Known.list each lists]
  collate operand collation span first := by
    intro other same
    cases other <;> cases Expr.sameKind same
    simp [Expr.shape] at same
    obtain ⟨operands, names, rfl⟩ := same
    rw [first _ operands, Ident.shape_injective names]
  wholeQuery withClause body orderBy limit locking span tables first compounds entries numbers := by
    have withs : ∀ found ∈ withClause, Known WithClause.shape found := fun found member =>
      .withClause found (tables found member)
    have limits : ∀ found ∈ limit, Known LimitClause.shape found := fun found member =>
      .limitClause found (numbers found member).1 (numbers found member).2
    rintro ⟨withClause', body', orderBy', limit', locking', span'⟩ same
    simp [Query.shape_mk] at same
    obtain ⟨withClauses, bodies, orders, limited, locks, rfl⟩ := same
    rw [Known.optional withs _ withClauses, Known.queryBody body first compounds _ bodies,
      Known.list (fun entry member => .orderingTerm entry (entries entry member))
        (Shape.list.inj orders),
      Known.optional limits _ limited, optional_injective LockingClause.shape_injective locks]
  select block first := by
    intro other same
    cases other <;> simp [QueryTerm.shape] at same
    rw [first _ same]
  nested rows first := by
    intro other same
    cases other <;> simp [QueryTerm.shape] at same
    rw [first _ same]
  block modifiers columns sources filter groupBy withRollup having span items refs filtered entries
      kept := by
    have each : ∀ item ∈ columns, Known SelectItem.shape item := fun item member =>
      .selectItem item fun value aliasName place same =>
        items value aliasName place (same ▸ member)
    rintro ⟨modifiers', columns', sources', filter', groupBy', withRollup', having', span'⟩ same
    simp [SelectCore.shape_mk] at same
    obtain ⟨modified, lists, froms, filters, groups, rfl, havings, rfl⟩ := same
    rw [SelectModifiers.shape_injective modified, Known.list each (Shape.list.inj lists),
      Known.list refs (Shape.list.inj froms), Known.optional filtered _ filters,
      Known.list (fun entry member => .orderingTerm entry (entries entry member))
        (Shape.list.inj groups),
      Known.optional kept _ havings]
  named table := by
    intro other same
    cases other <;> simp at same
    rw [NamedTable.shape_injective same]
  derived rows aliasName span first := by
    intro other same
    cases other <;> simp at same
    obtain ⟨queries, names, rfl⟩ := same
    rw [first _ queries, Ident.shape_injective names]
  joined left join right condition span first second tested := by
    have each : ∀ test ∈ condition, Known JoinCondition.shape test := fun test member =>
      .joinCondition test fun value same => tested value (same ▸ Option.mem_def.mp member).symm
    intro other same
    cases other <;> simp at same
    obtain ⟨lefts, joins, rights, conditions, rfl⟩ := same
    rw [first _ lefts, JoinType.shape_injective joins, second _ rights,
      Known.optional each _ conditions]
  parenthesized inner span each := by
    intro other same
    cases other <;> simp at same
    obtain ⟨refs, rfl⟩ := same
    rw [Known.list each (Shape.list.inj refs)]

theorem Expr.shape_injective : Function.Injective Expr.shape :=
  Known.injective (TreeInduction.exprHolds knownTrees)

theorem Query.shape_injective : Function.Injective Query.shape :=
  Known.injective (TreeInduction.queryHolds knownTrees)

theorem TableRef.shape_injective : Function.Injective TableRef.shape :=
  Known.injective (TreeInduction.refHolds knownTrees)

theorem OrderingTerm.shape_injective : Function.Injective OrderingTerm.shape :=
  Known.injective fun entry => .orderingTerm entry (.of_injective Expr.shape_injective _)

theorem LimitClause.shape_injective : Function.Injective LimitClause.shape :=
  Known.injective fun limit => .limitClause limit (.of_injective Expr.shape_injective _)
    fun _ _ => .of_injective Expr.shape_injective _

/-! ### Statements -/

theorem Assignment.shape_injective : Function.Injective Assignment.shape := by
  rintro ⟨column, value, span⟩ ⟨column', value', span'⟩ same
  simp only [shape, Shape.record.injEq, fields_iff, Shape.span.injEq, true_and, and_true] at same
  obtain ⟨columns, values, rfl⟩ := same
  rw [ColumnRef.shape_injective columns, Expr.shape_injective values]

theorem TableRef.listShape_injective : Function.Injective TableRef.listShape := by
  intro refs others same
  simp only [listShape, refShapes_eq] at same
  exact listOf_injective TableRef.shape_injective same

theorem OrderingTerm.listShape_injective : Function.Injective OrderingTerm.listShape := by
  intro terms others same
  simp only [listShape, termShapes_eq] at same
  exact listOf_injective OrderingTerm.shape_injective same

theorem InsertSource.shape_injective : Function.Injective InsertSource.shape := by
  intro source other same
  cases source with
  | values rows =>
      cases other <;> simp [shape, Expr.itemShapes_eq] at same
      rw [listOf_injective (listOf_injective Expr.shape_injective) same]
  | select query =>
      cases other <;> simp [shape] at same
      rw [Query.shape_injective same]
  | set assignments =>
      cases other <;> simp [shape] at same
      rw [listOf_injective Assignment.shape_injective same]

theorem Insert.shape_injective : Function.Injective Insert.shape := by
  rintro ⟨kind, priority, ignore, table, partitions, columns, source, onDuplicate, span⟩
    ⟨kind', priority', ignore', table', partitions', columns', source', onDuplicate', span'⟩ same
  simp only [shape, Shape.record.injEq, fields_iff, Shape.flag.injEq, Shape.span.injEq, true_and,
    and_true] at same
  obtain ⟨kinds, priorities, rfl, tables, parts, lists, sources, assignments, rfl⟩ := same
  rw [InsertKind.shape_injective kinds, optional_injective InsertPriority.shape_injective priorities,
    TableName.shape_injective tables, listOf_injective Ident.shape_injective parts,
    listOf_injective Ident.shape_injective lists, InsertSource.shape_injective sources,
    listOf_injective Assignment.shape_injective assignments]

theorem Update.shape_injective : Function.Injective Update.shape := by
  rintro ⟨lowPriority, ignore, tables, assignments, filter, orderBy, limit, span⟩
    ⟨lowPriority', ignore', tables', assignments', filter', orderBy', limit', span'⟩ same
  simp only [shape, Shape.record.injEq, fields_iff, Shape.flag.injEq, Shape.span.injEq, true_and,
    and_true] at same
  obtain ⟨rfl, rfl, refs, lists, filters, orders, limits, rfl⟩ := same
  rw [TableRef.listShape_injective refs, listOf_injective Assignment.shape_injective lists,
    optional_injective Expr.shape_injective filters, OrderingTerm.listShape_injective orders,
    optional_injective LimitClause.shape_injective limits]

theorem DeleteSource.shape_injective : Function.Injective DeleteSource.shape := by
  intro source other same
  cases source with
  | single table =>
      cases other <;> simp [shape] at same
      rw [NamedTable.shape_injective same]
  | multi tables afterUsing =>
      cases other <;> simp [shape] at same
      obtain ⟨refs, rfl⟩ := same
      rw [TableRef.listShape_injective refs]

theorem Delete.shape_injective : Function.Injective Delete.shape := by
  rintro ⟨lowPriority, quick, ignore, targets, source, filter, orderBy, limit, span⟩
    ⟨lowPriority', quick', ignore', targets', source', filter', orderBy', limit', span'⟩ same
  simp only [shape, Shape.record.injEq, fields_iff, Shape.flag.injEq, Shape.span.injEq, true_and,
    and_true] at same
  obtain ⟨rfl, rfl, rfl, names, sources, filters, orders, limits, rfl⟩ := same
  rw [listOf_injective TableName.shape_injective names, DeleteSource.shape_injective sources,
    optional_injective Expr.shape_injective filters, OrderingTerm.listShape_injective orders,
    optional_injective LimitClause.shape_injective limits]

theorem Statement.shape_injective : Function.Injective Statement.shape := by
  intro tree other same
  cases tree with
  | select query =>
      cases other <;> simp [shape] at same
      rw [Query.shape_injective same]
  | insert tree =>
      cases other <;> simp [shape] at same
      rw [Insert.shape_injective same]
  | update tree =>
      cases other <;> simp [shape] at same
      rw [Update.shape_injective same]
  | delete tree =>
      cases other <;> simp [shape] at same
      rw [Delete.shape_injective same]

end SqlDml
