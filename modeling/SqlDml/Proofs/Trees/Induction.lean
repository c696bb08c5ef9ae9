import SqlDml.Tree.Query

/-!
Contract: induction over expressions, queries and table references at once.

Owns:
- what must be shown of each form of tree, given the same of its parts;
- that it then holds of every tree.

Does not own: statements, which no tree contains.
-/

namespace SqlDml

/-- Properties of trees that pass from the parts of each tree to the tree. -/
structure TreeInduction (expr : Expr → Prop) (query : Query → Prop) (term : QueryTerm → Prop)
    (core : SelectCore → Prop) (ref : TableRef → Prop) : Prop where
  literal : ∀ value span, expr (.literal value span)
  column : ∀ name, expr (.column name)
  placeholder : ∀ index span, expr (.placeholder index span)
  default : ∀ span, expr (.default span)
  binary : ∀ left op right span, expr left → expr right → expr (.binary left op right span)
  unary : ∀ op operand span, expr operand → expr (.unary op operand span)
  is : ∀ operand negated value span, expr operand → expr (.is operand negated value span)
  quantified : ∀ left op quantifier rows span, expr left → query rows →
    expr (.quantified left op quantifier rows span)
  between : ∀ operand low high negated span, expr operand → expr low → expr high →
    expr (.between operand low high negated span)
  inList : ∀ operand items negated span, expr operand → (∀ item ∈ items, expr item) →
    expr (.isIn operand (.list items) negated span)
  inQuery : ∀ operand rows negated span, expr operand → query rows →
    expr (.isIn operand (.subquery rows) negated span)
  like : ∀ operand pattern escape op negated span, expr operand → expr pattern →
    (∀ char ∈ escape, expr char) → expr (.like operand pattern escape op negated span)
  soundsLike : ∀ operand pattern span, expr operand → expr pattern →
    expr (.soundsLike operand pattern span)
  case : ∀ operand whens otherwise span, (∀ subject ∈ operand, expr subject) →
    (∀ branch ∈ whens, expr branch.1 ∧ expr branch.2) → (∀ last ∈ otherwise, expr last) →
    expr (.case operand whens otherwise span)
  cast : ∀ operand target span, expr operand → expr (.cast operand target span)
  callStar : ∀ name distinct span, expr (.call name .star distinct span)
  call : ∀ name items distinct span, (∀ item ∈ items, expr item) →
    expr (.call name (.list items) distinct span)
  subquery : ∀ rows span, query rows → expr (.subquery rows span)
  existsRows : ∀ rows span, query rows → expr (.exists rows span)
  row : ∀ items span, (∀ item ∈ items, expr item) → expr (.row items span)
  collate : ∀ operand collation span, expr operand → expr (.collate operand collation span)
  wholeQuery : ∀ withClause body orderBy limit locking span,
    (∀ tables ∈ withClause, ∀ table ∈ WithClause.tables tables, query table.query) →
    term (QueryBody.first body) → (∀ compound ∈ body.compounds, term compound.2) →
    (∀ entry ∈ orderBy, expr (OrderingTerm.expr entry)) →
    (∀ numbers ∈ limit, expr (LimitClause.count numbers) ∧ ∀ offset ∈ numbers.offset, expr offset) →
    query ⟨withClause, body, orderBy, limit, locking, span⟩
  select : ∀ block, core block → term (.select block)
  nested : ∀ rows, query rows → term (.nested rows)
  block : ∀ modifiers columns sources filter groupBy withRollup having span,
    (∀ value aliasName place, SelectItem.expr value aliasName place ∈ columns → expr value) →
    (∀ source ∈ sources, ref source) → (∀ condition ∈ filter, expr condition) →
    (∀ entry ∈ groupBy, expr (OrderingTerm.expr entry)) → (∀ condition ∈ having, expr condition) →
    core ⟨modifiers, columns, sources, filter, groupBy, withRollup, having, span⟩
  named : ∀ table, ref (.named table)
  derived : ∀ rows aliasName span, query rows → ref (.derived rows aliasName span)
  joined : ∀ left join right condition span, ref left → ref right →
    (∀ test, some (JoinCondition.on test) = condition → expr test) →
    ref (.joined left join right condition span)
  parenthesized : ∀ inner span, (∀ source ∈ inner, ref source) → ref (.parenthesized inner span)

namespace TreeInduction

variable {expr : Expr → Prop} {query : Query → Prop} {term : QueryTerm → Prop}
  {core : SelectCore → Prop} {ref : TableRef → Prop}
  (steps : TreeInduction expr query term core ref)

include steps

-- The linter does not see that the theorems of a mutual block use each other.
set_option linter.unusedSectionVars false

mutual
theorem exprHolds : ∀ tree, expr tree
  | .literal value span => steps.literal value span
  | .column name => steps.column name
  | .placeholder index span => steps.placeholder index span
  | .default span => steps.default span
  | .binary left op right span =>
      steps.binary left op right span (exprHolds left) (exprHolds right)
  | .unary op operand span => steps.unary op operand span (exprHolds operand)
  | .is operand negated value span => steps.is operand negated value span (exprHolds operand)
  | .quantified left op quantifier rows span =>
      steps.quantified left op quantifier rows span (exprHolds left) (queryHolds rows)
  | .between operand low high negated span =>
      steps.between operand low high negated span (exprHolds operand) (exprHolds low)
        (exprHolds high)
  | .isIn operand (.list items) negated span =>
      steps.inList operand items negated span (exprHolds operand) (itemsHold items)
  | .isIn operand (.subquery rows) negated span =>
      steps.inQuery operand rows negated span (exprHolds operand) (queryHolds rows)
  | .like operand pattern escape op negated span =>
      steps.like operand pattern escape op negated span (exprHolds operand) (exprHolds pattern)
        (optionHolds escape)
  | .soundsLike operand pattern span =>
      steps.soundsLike operand pattern span (exprHolds operand) (exprHolds pattern)
  | .case operand whens otherwise span =>
      steps.case operand whens otherwise span (optionHolds operand) (whensHold whens)
        (optionHolds otherwise)
  | .cast operand target span => steps.cast operand target span (exprHolds operand)
  | .call name .star distinct span => steps.callStar name distinct span
  | .call name (.list items) distinct span =>
      steps.call name items distinct span (itemsHold items)
  | .subquery rows span => steps.subquery rows span (queryHolds rows)
  | .exists rows span => steps.existsRows rows span (queryHolds rows)
  | .row items span => steps.row items span (itemsHold items)
  | .collate operand collation span => steps.collate operand collation span (exprHolds operand)

theorem itemsHold : ∀ items : List Expr, ∀ item ∈ items, expr item
  | [] => by simp
  | item :: items => by
      simp only [List.forall_mem_cons]
      exact ⟨exprHolds item, itemsHold items⟩

theorem optionHolds : ∀ found : Option Expr, ∀ tree ∈ found, expr tree
  | none => by simp
  | some tree => by
      simp only [Option.mem_some_iff, forall_eq']
      exact exprHolds tree

theorem whensHold : ∀ whens : List (Expr × Expr), ∀ branch ∈ whens, expr branch.1 ∧ expr branch.2
  | [] => by simp
  | (condition, result) :: whens => by
      simp only [List.forall_mem_cons]
      exact ⟨⟨exprHolds condition, exprHolds result⟩, whensHold whens⟩

theorem queryHolds : ∀ tree, query tree
  | ⟨withClause, ⟨first, compounds, place⟩, orderBy, limit, locking, span⟩ =>
      steps.wholeQuery withClause ⟨first, compounds, place⟩ orderBy limit locking span
        (withHolds withClause) (termHolds first) (compoundsHold compounds) (entriesHold orderBy)
        (limitHolds limit)

theorem withHolds : ∀ found : Option WithClause, ∀ tables ∈ found, ∀ table ∈ tables.tables,
    query table.query
  | none => by simp
  | some ⟨recursive, tables, span⟩ => by
      simp only [Option.mem_some_iff, forall_eq']
      exact tablesHold tables

theorem tablesHold : ∀ tables : List CommonTable, ∀ table ∈ tables, query table.query
  | [] => by simp
  | ⟨name, columns, rows, span⟩ :: tables => by
      simp only [List.forall_mem_cons]
      exact ⟨queryHolds rows, tablesHold tables⟩

theorem termHolds : ∀ tree, term tree
  | .select block => steps.select block (coreHolds block)
  | .nested rows => steps.nested rows (queryHolds rows)

theorem compoundsHold : ∀ compounds : List (CompoundOp × QueryTerm),
    ∀ compound ∈ compounds, term compound.2
  | [] => by simp
  | (op, tree) :: compounds => by
      simp only [List.forall_mem_cons]
      exact ⟨termHolds tree, compoundsHold compounds⟩

theorem entriesHold : ∀ entries : List OrderingTerm, ∀ entry ∈ entries, expr entry.expr
  | [] => by simp
  | ⟨tree, direction, span⟩ :: entries => by
      simp only [List.forall_mem_cons]
      exact ⟨exprHolds tree, entriesHold entries⟩

theorem limitHolds : ∀ found : Option LimitClause, ∀ numbers ∈ found,
    expr numbers.count ∧ ∀ offset ∈ numbers.offset, expr offset
  | none => by simp
  | some ⟨count, offset, span⟩ => by
      simp only [Option.mem_some_iff, forall_eq']
      exact ⟨exprHolds count, by simpa only [Option.mem_def] using optionHolds offset⟩

theorem coreHolds : ∀ tree, core tree
  | ⟨modifiers, columns, sources, filter, groupBy, withRollup, having, span⟩ =>
      steps.block modifiers columns sources filter groupBy withRollup having span
        (columnsHold columns) (refsHold sources) (optionHolds filter) (entriesHold groupBy)
        (optionHolds having)

theorem columnsHold : ∀ columns : List SelectItem, ∀ value aliasName place,
    SelectItem.expr value aliasName place ∈ columns → expr value
  | [] => by simp
  | .wildcard span :: columns => by
      simpa only [List.mem_cons, reduceCtorEq, false_or] using columnsHold columns
  | .qualifiedWildcard schema table span :: columns => by
      simpa only [List.mem_cons, reduceCtorEq, false_or] using columnsHold columns
  | .expr tree aliasName span :: columns => by
      have first := exprHolds tree
      have rest := columnsHold columns
      rintro value name place member
      rcases List.mem_cons.mp member with same | member
      · cases same
        exact first
      · exact rest value name place member

theorem refHolds : ∀ tree, ref tree
  | .named table => steps.named table
  | .derived rows aliasName span => steps.derived rows aliasName span (queryHolds rows)
  | .joined left join right condition span =>
      steps.joined left join right condition span (refHolds left) (refHolds right)
        (conditionHolds condition)
  | .parenthesized inner span => steps.parenthesized inner span (refsHold inner)

theorem refsHold : ∀ refs : List TableRef, ∀ source ∈ refs, ref source
  | [] => by simp
  | source :: refs => by
      simp only [List.forall_mem_cons]
      exact ⟨refHolds source, refsHold refs⟩

theorem conditionHolds : ∀ found : Option JoinCondition,
    ∀ test, some (JoinCondition.on test) = found → expr test
  | none => by simp
  | some (.on condition) => by
      rintro test ⟨⟩
      exact exprHolds condition
  | some (.using columns) => by simp
end

end TreeInduction

end SqlDml
