import SqlDml.Proofs.Parsing.Entry
import SqlDml.Proofs.Shapes.Expressions

/-!
Contract: every tree that is read is well shaped.

Owns:
- tables and joins, clauses, select blocks and queries;
- statements, at every nesting limit;
- every node of the tree of a source, statements and expressions alike.

Does not own: whether a source has a tree.
-/

namespace SqlDml

namespace Rule

/-! ### Tables -/

theorem identsInParens_yields : identsInParens.Yields fun names => names ≠ [] := by
  have each : identifier.Yields fun _ => True := fun _ => .of_on fun _ _ _ => trivial
  unfold identsInParens restOfIdents
  refine .skip fun _ => each.commaSeparated.bind fun names known => .skip fun _ => ?_
  exact .pure known.1

theorem indexHint_yields (action : IndexHintAction) :
    (indexHint action).Yields IndexHint.Shaped := by
  have closing : ∀ (start : Token) (scope : Option IndexHintScope) (indexes : List Ident),
      (indexes = [] → action = .use) →
      Yields (do return IndexHint.mk action scope indexes (start.span.merge (← previousSpan)))
        IndexHint.Shaped :=
    fun _ _ _ known => .skip fun stop => .pure known
  unfold indexHint
  refine .skip fun start => .skip fun _ => .skip fun scope => .ite (fun use => ?_) fun _ => ?_
  · exact .skip fun indexes => closing start scope indexes fun _ => use
  · exact identsInParens_yields.bind fun indexes filled =>
      closing start scope indexes fun none_ => absurd none_ filled

theorem indexHints_yields : indexHints.Yields fun hints => ∀ hint ∈ hints, hint.Shaped := by
  have repeats : (whileSome nextHint []).Yields fun hints => ∀ hint ∈ hints, hint.Shaped := by
    refine .whileSome (by simp) fun hints known => ?_
    unfold nextHint
    refine .skip fun kind => ?_
    split
    · exact .pure (by simp)
    · next action _ =>
        refine .skip fun kind => .ite (fun _ => ?_) fun _ => .pure (by simp)
        refine (indexHint_yields action).bind fun hint shaped => .skip fun _ => .pure ?_
        simpa using ⟨shaped, known⟩
  rw [indexHints_eq]
  exact repeats.bind fun hints known => .pure (by simpa using known)

theorem namedTable_yields : namedTable.Yields fun table => (Node.table table).WellShaped := by
  unfold namedTable
  refine .skip fun name => .skip fun partitions => .skip fun aliasName => ?_
  refine indexHints_yields.bind fun hints known => .skip fun stop => .pure ?_
  refine .of_children known ?_
  have alone : (Node.tableName name).WellShaped := .of_children trivial (by simp)
  simpa using alone

variable {inner : InnerRules} (shaped : inner.Shaped)

include shaped

theorem onCondition_yields : (onCondition inner).Yields fun found =>
    ∀ condition ∈ found, (∃ test, condition = .on test) ∧
      ∀ child ∈ condition.children, child.WellShaped := by
  unfold onCondition
  refine .skip fun found => .ite (fun _ => ?_) fun _ => .pure (by simp)
  exact (expr_yields shaped).bind fun test known => .pure (by simpa using known)

theorem onOrUsing_yields : (onOrUsing inner).Yields fun found =>
    ∀ condition ∈ found, ∀ child ∈ condition.children, child.WellShaped := by
  unfold onOrUsing
  refine (onCondition_yields shaped).bind fun found known => ?_
  split
  · exact .pure fun condition same => (known condition same).2
  · refine .skip fun using_ => .ite (fun _ => ?_) fun _ => .pure (by simp)
    exact .skip fun columns => .pure (by simp)

theorem joinCondition_yields (join : JoinType) : (joinCondition inner join).Yields fun found =>
    join.Admits found ∧ ∀ condition ∈ found, ∀ child ∈ condition.children, child.WellShaped := by
  unfold joinCondition
  refine .ite (fun forbids => ?_) fun admits => .ite (fun straight => ?_) fun bent => ?_
  · refine .pure ⟨?_, by simp⟩
    cases join <;> first | rfl | cases forbids
  · refine (onCondition_yields shaped).mono fun found known => ⟨?_, fun condition same =>
      (known condition same).2⟩
    subst straight
    intro columns same
    obtain ⟨test, onTest⟩ := (known _ same).1
    cases onTest
  · refine (onOrUsing_yields shaped).bind fun found known => ?_
    split
    · next condition =>
        refine .pure ⟨?_, known⟩
        cases join <;> first | rfl | trivial
    · refine .ite (fun _ => .fail) fun free => .pure ⟨?_, by simp⟩
      cases join <;> first | rfl | trivial

theorem tableFactor_yields : (tableFactor inner).Yields fun tree =>
    (Node.ref tree).WellShaped ∧ tree.isJoined = false := by
  unfold tableFactor
  refine .skip fun opened => .ite (fun _ => shaped.tableInParens) fun _ => ?_
  refine namedTable_yields.bind fun table known => .pure ⟨.of_children trivial ?_, rfl⟩
  simpa using known

theorem extendJoin_yields {left : TableRef} (before : (Node.ref left).WellShaped) :
    (extendJoin inner left).Yields fun found => ∀ tree ∈ found, (Node.ref tree).WellShaped := by
  have := shaped.lawful
  unfold extendJoin
  refine .skip fun found => ?_
  split
  · exact .pure (by simp)
  · next join =>
      refine (tableFactor_yields shaped).bind fun right second => ?_
      refine (joinCondition_yields shaped join).bind fun condition third => .skip fun stop => ?_
      refine .pure fun tree same => ?_
      cases same
      refine .of_children ⟨second.2, third.1⟩ ?_
      simp only [Node.children, TableRef.children, List.forall_mem_cons, List.forall_mem_flatMap,
        Option.mem_toList]
      exact ⟨before, second.1, third.2⟩

theorem tableRef_yields : (tableRef inner).Yields fun tree => (Node.ref tree).WellShaped := by
  have := shaped.lawful
  unfold tableRef
  refine (tableFactor_yields shaped).bind fun first known => ?_
  exact .whileSome known.1 fun left before => extendJoin_yields shaped before

theorem tableRefs_yields :
    (tableRefs inner).Yields fun refs => ∀ tree ∈ refs, (Node.ref tree).WellShaped :=
  have := shaped.lawful
  (tableRef_yields shaped).commaSeparated.mono fun _ known => known.2

theorem derivedTable_yields (start : Span) : (derivedTable inner start).Yields fun tree =>
    (Node.ref tree).WellShaped ∧ tree.isJoined = false := by
  unfold derivedTable
  refine .skip fun _ => shaped.query.bind fun query known => .skip fun _ => .skip fun found => ?_
  split
  · exact .skip fun stop => .pure ⟨.of_children trivial (by simpa using known), rfl⟩
  · exact .fail

theorem tableRefsInParens_yields (start : Span) :
    (tableRefsInParens inner start).Yields fun tree =>
      (Node.ref tree).WellShaped ∧ tree.isJoined = false := by
  unfold tableRefsInParens
  refine .skip fun _ => (tableRefs_yields shaped).bind fun refs known => .skip fun stop => ?_
  exact .pure ⟨.of_children trivial (by simpa using known), rfl⟩

theorem tableInParensBody_yields : (tableInParensBody inner).Yields fun tree =>
    (Node.ref tree).WellShaped ∧ tree.isJoined = false := by
  have := shaped.lawful
  unfold tableInParensBody
  refine .skip fun start => .skip fun next => .ite (fun _ => ?_) fun _ => ?_
  · refine .attempt (derivedTable_yields shaped start) (fun tree known => .pure known) ?_
    exact tableRefsInParens_yields shaped start
  · exact tableRefsInParens_yields shaped start

/-! ### Clauses -/

theorem whereClause_yields :
    (whereClause inner).Yields fun found => ∀ tree ∈ found, (Node.expr tree).WellShaped :=
  optionalClause_yields shaped .WHERE

theorem havingClause_yields :
    (havingClause inner).Yields fun found => ∀ tree ∈ found, (Node.expr tree).WellShaped :=
  optionalClause_yields shaped .HAVING

/-- A list of ordering terms has terms. -/
theorem orderingTerms_yields : (orderingTerms inner).Yields fun terms =>
    terms ≠ [] ∧ ∀ term ∈ terms, (Node.expr term.expr).WellShaped := by
  have := shaped.lawful
  have term : (orderingTerm inner).Yields fun term => (Node.expr term.expr).WellShaped := by
    unfold orderingTerm
    refine (expr_yields shaped).bind fun tree known => .skip fun direction => ?_
    split
    · exact .skip fun stop => .pure known
    · exact .pure known
  exact term.commaSeparated

theorem orderByClause_yields : (orderByClause inner).Yields fun terms =>
    ∀ term ∈ terms, (Node.expr term.expr).WellShaped := by
  unfold orderByClause
  refine .skip fun found => .ite (fun _ => .skip fun _ => ?_) fun _ => .pure (by simp)
  exact (orderingTerms_yields shaped).mono fun terms known => known.2

/-- A rollup is only read behind terms. -/
theorem groupByClause_yields : (groupByClause inner).Yields fun groups =>
    (groups.2 = true → groups.1 ≠ []) ∧
      ∀ term ∈ groups.1, (Node.expr term.expr).WellShaped := by
  unfold groupByClause
  refine .skip fun found => .ite (fun _ => .skip fun _ => ?_) fun _ => .pure (by simp)
  refine (orderingTerms_yields shaped).bind fun terms known => .skip fun rollup => .pure ?_
  exact ⟨fun _ => known.1, known.2⟩

omit shaped in
theorem limitOperand_yields : limitOperand.Yields fun tree =>
    tree.isLimitNumber = true ∧ (Node.expr tree).WellShaped := by
  unfold limitOperand
  refine .skip fun kind => ?_
  split
  · unfold tokenLiteral
    exact .skip fun token => .pure ⟨rfl, Node.wellShaped_literal trivial⟩
  · unfold placeholder
    exact .skip fun token => .skip fun number => .pure ⟨rfl, Node.wellShaped_placeholder⟩
  · exact .fail

omit shaped in
theorem limitNumbers_yields : limitNumbers.Yields fun numbers =>
    (numbers.1.isLimitNumber = true ∧ (Node.expr numbers.1).WellShaped) ∧
      ∀ offset ∈ numbers.2, offset.isLimitNumber = true ∧ (Node.expr offset).WellShaped := by
  unfold limitNumbers
  refine limitOperand_yields.bind fun first known => ?_
  refine .skip fun comma => .ite (fun _ => ?_) fun _ => ?_
  · exact limitOperand_yields.bind fun count second => .pure ⟨second, by simpa using known⟩
  · refine .skip fun word => .ite (fun _ => ?_) fun _ => .pure ⟨known, by simp⟩
    exact limitOperand_yields.bind fun offset second => .pure ⟨known, by simpa using second⟩

omit shaped in
theorem limitClause_yields (allowOffset : Bool) : (limitClause allowOffset).Yields fun found =>
    ∀ limit ∈ found, limit.Shaped ∧ (allowOffset = false → limit.offset = none) ∧
      ∀ child ∈ limit.children, child.WellShaped := by
  have closing : ∀ (start : Span) (numbers : Expr × Option Expr),
      (numbers.1.isLimitNumber = true ∧ (Node.expr numbers.1).WellShaped) →
      (∀ offset ∈ numbers.2, offset.isLimitNumber = true ∧ (Node.expr offset).WellShaped) →
      (allowOffset = false → numbers.2 = none) →
      Yields (do
        return some (LimitClause.mk numbers.1 numbers.2 (start.merge (← previousSpan))))
        fun found => ∀ limit ∈ found, limit.Shaped ∧ (allowOffset = false → limit.offset = none) ∧
          ∀ child ∈ limit.children, child.WellShaped := by
    intro start numbers count offset none_
    refine .skip fun stop => .pure fun limit same => ?_
    cases same
    refine ⟨⟨count.1, fun tree member => (offset tree member).1⟩, none_, ?_⟩
    simp only [LimitClause.children, List.forall_mem_cons, List.forall_mem_map, Option.mem_toList]
    exact ⟨count.2, fun tree member => (offset tree member).2⟩
  unfold limitClause
  refine .skip fun found => .ite (fun _ => .skip fun start => ?_) fun _ => .pure (by simp)
  refine .ite (fun allowed => ?_) fun _ => ?_
  · refine limitNumbers_yields.bind fun numbers known => closing start numbers known.1 known.2 ?_
    rw [allowed]
    exact fun absurd => Bool.noConfusion absurd
  · refine limitOperand_yields.bind fun count known => ?_
    exact closing start (count, none) known (by simp) fun _ => rfl

omit shaped in
theorem lockingClause_yields :
    lockingClause.Yields fun found => ∀ locking ∈ found, locking.Shaped := by
  have mode : lockMode.Yields fun mode => mode ≠ .lockInShareMode := by
    unfold lockMode
    refine .skip fun update => .ite (fun _ => .pure (by simp)) fun _ => ?_
    exact .skip fun share => .ite (fun _ => .pure (by simp)) fun _ => .fail
  unfold lockingClause
  refine .skip fun start => .skip fun found => .ite (fun _ => ?_) fun _ => ?_
  · refine .skip fun _ => .skip fun _ => .skip fun _ => .skip fun stop => .pure ?_
    simp [LockingClause.Shaped]
  · refine .skip fun found => .ite (fun _ => ?_) fun _ => .pure (by simp)
    refine mode.bind fun mode other => .skip fun tables => .skip fun wait => .skip fun stop => ?_
    refine .pure fun locking same => ?_
    cases same
    exact fun shares => absurd shares other

/-! ### Select blocks -/

theorem exprItem_yields : (exprItem inner).Yields fun item => (Node.item item).WellShaped := by
  unfold exprItem
  refine (expr_yields shaped).bind fun value known => .skip fun aliasName => .pure ?_
  exact .of_children trivial (by simpa using known)

theorem selectItem_yields : (selectItem inner).Yields fun item => (Node.item item).WellShaped := by
  have wildcard : ∀ schema table span,
      (Node.item (.qualifiedWildcard schema table span)).WellShaped :=
    fun _ _ _ => .of_children trivial (by simp)
  have dotted : (dottedItem inner).Yields fun item => (Node.item item).WellShaped := by
    unfold dottedItem tableWildcard schemaWildcard
    refine .skip fun star => .ite (fun _ => ?_) fun _ => ?_
    · exact .skip fun table => .skip fun _ => .skip fun star => .pure (wildcard _ _ _)
    · refine .skip fun follows => .ite (fun _ => ?_) fun _ => exprItem_yields shaped
      refine .skip fun schema => .skip fun _ => .skip fun table => .skip fun _ => ?_
      exact .skip fun star => .pure (wildcard _ _ _)
  unfold selectItem
  refine .skip fun star => .ite (fun _ => ?_) fun _ => .skip fun kind => ?_
  · exact .skip fun token => .pure (.of_children trivial (by simp))
  · refine .ite (fun _ => .skip fun dot => ?_) fun _ => exprItem_yields shaped
    exact .ite (fun _ => dotted) fun _ => exprItem_yields shaped

theorem fromClause_yields : (fromClause inner).Yields fun refs =>
    ∀ tree ∈ refs, (Node.ref tree).WellShaped := by
  unfold fromClause
  exact .skip fun found => .ite (fun _ => tableRefs_yields shaped) fun _ => .pure (by simp)

theorem selectCore_yields : (selectCore inner).Yields fun core => (Node.core core).WellShaped := by
  have := shaped.lawful
  unfold selectCore
  refine .skip fun start => .skip fun modifiers => ?_
  refine (selectItem_yields shaped).commaSeparated.bind fun columns first => ?_
  refine (fromClause_yields shaped).bind fun sources second => ?_
  refine (whereClause_yields shaped).bind fun filter third => ?_
  refine (groupByClause_yields shaped).bind fun groups fourth => ?_
  refine (havingClause_yields shaped).bind fun having fifth => .skip fun stop => .pure ?_
  refine .of_children fourth.1 ?_
  simp only [Node.children, SelectCore.children, List.forall_mem_append, List.forall_mem_map,
    Option.mem_toList]
  exact ⟨⟨⟨⟨first.2, second⟩, third⟩, fourth.2⟩, fifth⟩

/-! ### Queries -/

theorem queryTerm_yields : (queryTerm inner).Yields fun term => term.node.WellShaped := by
  unfold queryTerm
  refine .skip fun kind => ?_
  split
  · exact .skip fun _ => shaped.query.bind fun query known => .skip fun _ => .pure known
  · exact (selectCore_yields shaped).bind fun core known => .pure known
  · exact .fail

theorem queryBody_yields : (queryBody inner).Yields fun body =>
    body.first.node.WellShaped ∧ ∀ compound ∈ body.compounds, compound.2.node.WellShaped := by
  have := shaped.lawful
  have repeats : (whileSome (nextCompound inner) []).Yields fun compounds =>
      ∀ compound ∈ compounds, compound.2.node.WellShaped := by
    refine .whileSome (by simp) fun compounds before => ?_
    unfold nextCompound
    refine .skip fun found => .ite (fun _ => ?_) fun _ => .pure (by simp)
    refine .skip fun op => (queryTerm_yields shaped).bind fun term last => ?_
    refine .pure fun more same => ?_
    cases same
    exact List.forall_mem_cons.mpr ⟨last, before⟩
  rw [queryBody_eq]
  refine .skip fun start => (queryTerm_yields shaped).bind fun first known => ?_
  refine repeats.bind fun compounds all => .skip fun stop => .pure ⟨known, ?_⟩
  exact fun compound member => all compound (List.mem_reverse.mp member)

theorem commonTable_yields : (commonTable inner).Yields fun table =>
    (Node.query table.query).WellShaped := by
  have closing : ∀ (name : Ident) (columns : List Ident),
      Yields (do
        let _ ← expectWord .AS
        let _ ← expectMark .leftParen
        let query ← inner.query
        let stop ← expectMark .rightParen
        return CommonTable.mk name columns query (name.span.merge stop))
        fun table => (Node.query table.query).WellShaped := by
    intro name columns
    refine .skip fun _ => .skip fun _ => shaped.query.bind fun query known => ?_
    exact .skip fun stop => .pure known
  unfold commonTable
  refine .skip fun name => .skip fun listed => .ite (fun _ => ?_) fun _ => closing name []
  exact .skip fun columns => closing name columns

theorem withClause_yields : (withClause inner).Yields fun found =>
    ∀ clause ∈ found, ∀ table ∈ clause.tables, (Node.query table.query).WellShaped := by
  have := shaped.lawful
  unfold withClause
  refine .skip fun found => .ite (fun _ => .skip fun start => ?_) fun _ => .pure (by simp)
  refine .skip fun recursive => (commonTable_yields shaped).commaSeparated.bind ?_
  exact fun tables known => .skip fun stop => .pure (by simpa using known.2)

theorem wholeQuery_yields :
    (wholeQuery inner).Yields fun query => (Node.query query).WellShaped := by
  unfold wholeQuery
  refine .skip fun start => (withClause_yields shaped).bind fun withClause first => ?_
  refine (queryBody_yields shaped).bind fun body second => ?_
  refine (orderByClause_yields shaped).bind fun orderBy third => ?_
  refine (limitClause_yields true).bind fun limit fourth => ?_
  refine lockingClause_yields.bind fun locking fifth => .skip fun stop => .pure ?_
  refine .of_children ⟨fun one member => (fourth one member).1, fifth⟩ ?_
  have named : ∀ name, (Node.tableName name).WellShaped :=
    fun name => .of_children trivial (by simp)
  simp only [Node.children, Query.children, List.forall_mem_append, List.forall_mem_cons,
    List.forall_mem_flatMap, List.forall_mem_map, Option.mem_toList]
  exact ⟨⟨⟨⟨first, second⟩, third⟩, fun one member => (fourth one member).2.2⟩,
    fun _ _ name _ => named name⟩

/-! ### Inserts -/

theorem assignments_yields : (assignments inner).Yields fun items =>
    ∀ item ∈ items, ∀ child ∈ item.children, child.WellShaped := by
  have := shaped.lawful
  have item : (assignment inner).Yields fun item => ∀ child ∈ item.children, child.WellShaped := by
    unfold assignment
    refine columnRef_yields.bind fun column first => .skip fun _ => ?_
    exact (expr_yields shaped).bind fun value second => .pure (by simpa using ⟨first, second⟩)
  exact item.commaSeparated.mono fun items known => known.2

theorem valueRow_yields : (valueRow inner).Yields fun row =>
    ∀ tree ∈ row, (Node.expr tree).WellShaped := by
  unfold valueRow
  refine .skip fun _ => .skip fun closed => .ite (fun _ => .pure (by simp)) fun _ => ?_
  exact (exprs_yields shaped).bind fun row known => .skip fun _ => .pure known.2

omit shaped in
theorem insertPriority_yields (kind : InsertKind) : (insertPriority kind).Yields fun priority =>
    kind = .replace → priority ≠ some .highPriority := by
  unfold insertPriority
  refine .skip fun next => ?_
  split
  · next priority found =>
      refine .skip fun _ => .pure fun replaces same => ?_
      subst replaces
      cases same
      unfold insertPriority? at found
      split at found <;> simp at found
  · exact .pure (by simp)

omit shaped in
theorem eatInsertWord_yields (kind : InsertKind) (word : Keyword) :
    (eatInsertWord kind word).Yields fun found => kind = .replace → found = false := by
  unfold eatInsertWord
  refine .ite (fun inserts => ?_) fun _ => .pure fun _ => rfl
  have anything : (eatWord word).Yields fun _ => True := fun _ => .of_on fun _ _ _ => trivial
  refine anything.mono fun found _ replaces => ?_
  rw [inserts] at replaces
  cases replaces

theorem insertSource_yields : (insertSource inner).Yields fun found =>
    ∀ child ∈ found.2.children, child.WellShaped := by
  have := shaped.lawful
  have rows : Yields (do
      let _ ← advance
      return InsertSource.values (← commaSeparated (valueRow inner))) fun source =>
        ∀ child ∈ source.children, child.WellShaped := by
    refine .skip fun _ => (valueRow_yields shaped).commaSeparated.bind fun rows known => .pure ?_
    simp only [InsertSource.children, List.forall_mem_flatMap, List.forall_mem_map]
    exact known.2
  have body : (insertRows inner).Yields fun source =>
      ∀ child ∈ source.children, child.WellShaped := by
    unfold insertRows
    refine .skip fun kind => ?_
    split
    · exact rows
    · exact rows
    · refine .ite (fun _ => ?_) fun _ => .fail
      exact shaped.query.bind fun query known => .pure (by simpa using known)
  unfold insertSource
  refine .skip fun found => .ite (fun _ => ?_) fun _ => ?_
  · refine (assignments_yields shaped).bind fun items known => .pure ?_
    simp only [InsertSource.children, List.forall_mem_flatMap]
    exact known
  · exact .skip fun columns => body.bind fun source known => .pure known

theorem onDuplicate_yields (kind : InsertKind) : (onDuplicate inner kind).Yields fun items =>
    (kind = .replace → items = []) ∧ ∀ item ∈ items, ∀ child ∈ item.children, child.WellShaped := by
  unfold onDuplicate
  refine (eatInsertWord_yields kind .ON).bind fun found known => ?_
  refine .ite (fun follows => ?_) fun _ => .pure (by simp)
  refine .skip fun _ => .skip fun _ => .skip fun _ => ?_
  refine (assignments_yields shaped).mono fun items all => ⟨fun replaces => ?_, all⟩
  rw [known replaces] at follows
  cases follows

theorem insert_yields :
    (insert inner).Yields fun tree => (Node.statement (.insert tree)).WellShaped := by
  unfold insert
  refine .skip fun start => .skip fun kind => ?_
  refine (insertPriority_yields kind).bind fun priority first => ?_
  refine (eatInsertWord_yields kind .IGNORE).bind fun ignore second => ?_
  refine .skip fun _ => .skip fun table => .skip fun partitions => ?_
  refine (insertSource_yields shaped).bind fun source third => ?_
  refine (onDuplicate_yields shaped kind).bind fun onDuplicate fourth => .skip fun stop => ?_
  refine .pure (.of_children
    (fun replaces => ⟨second replaces, first replaces, fourth.1 replaces⟩) ?_)
  have named : (Node.tableName table).WellShaped := .of_children trivial (by simp)
  simp only [Node.children, Statement.children, List.cons_append, List.forall_mem_cons,
    List.forall_mem_append, List.forall_mem_flatMap]
  exact ⟨named, third, fourth.2⟩

/-! ### Updates and deletes -/

omit shaped in
theorem tailChildren_wellShaped {filter : Option Expr} {orderBy : List OrderingTerm}
    {limit : Option LimitClause} (first : ∀ tree ∈ filter, (Node.expr tree).WellShaped)
    (second : ∀ term ∈ orderBy, (Node.expr term.expr).WellShaped)
    (third : ∀ one ∈ limit, ∀ child ∈ one.children, child.WellShaped) :
    ∀ child ∈ tailChildren filter orderBy limit, child.WellShaped := by
  simp only [tailChildren, List.forall_mem_append, List.forall_mem_map, List.forall_mem_flatMap,
    Option.mem_toList]
  exact ⟨⟨first, second⟩, third⟩

theorem update_yields :
    (update inner).Yields fun tree => (Node.statement (.update tree)).WellShaped := by
  unfold update
  refine .skip fun start => .skip fun options => ?_
  refine (tableRefs_yields shaped).bind fun tables first => .skip fun _ => ?_
  refine (assignments_yields shaped).bind fun assignments second => ?_
  refine (whereClause_yields shaped).bind fun filter third => ?_
  refine (orderByClause_yields shaped).bind fun orderBy fourth => ?_
  refine (limitClause_yields false).bind fun limit fifth => .skip fun stop => .pure ?_
  refine .of_children (fun one member => ⟨(fifth one member).1, (fifth one member).2.1 rfl⟩) ?_
  have tail := tailChildren_wellShaped third fourth fun one member => (fifth one member).2.2
  simp only [Node.children, Statement.children, List.forall_mem_append, List.forall_mem_map,
    List.forall_mem_flatMap]
  exact ⟨⟨first, second⟩, tail⟩

/-- What a delete looks at fits the tables that it names as targets. -/
theorem deleteSource_yields : (deleteSource inner).Yields fun found =>
    (match found.2 with
      | .single _ => found.1 = []
      | .multi _ _ => found.1 ≠ []) ∧ ∀ child ∈ found.2.children, child.WellShaped := by
  have := shaped.lawful
  have targets : deleteTargets.Yields fun names => names ≠ [] := by
    have each : deleteTarget.Yields fun _ => True := fun _ => .of_on fun _ _ _ => trivial
    exact each.commaSeparated.mono fun names known => known.1
  have table : deleteTable.Yields fun table => (Node.table table).WellShaped := by
    have closing : ∀ name partitions aliasName,
        Yields (do
          return NamedTable.mk name partitions aliasName [] (name.span.merge (← previousSpan)))
          fun table => (Node.table table).WellShaped := by
      intro name partitions aliasName
      have named : (Node.tableName name).WellShaped := .of_children trivial (by simp)
      refine .skip fun stop => .pure (.of_children ?_ (by simpa using named))
      simp [Node.Shaped, NamedTable.Shaped]
    unfold deleteTable
    refine .skip fun name => .skip fun before => .skip fun aliasName => ?_
    refine .ite (fun _ => ?_) fun _ => ?_
    · exact .skip fun partitions => closing name partitions aliasName
    · exact closing name before aliasName
  have form : (deleteUsing inner).Yields fun found =>
      (∃ tables afterUsing, found.2 = .multi tables afterUsing) ∧ found.1 ≠ [] ∧
        ∀ child ∈ found.2.children, child.WellShaped := by
    unfold deleteUsing
    refine targets.bind fun names filled => .skip fun _ => ?_
    refine (tableRefs_yields shaped).bind fun tables known => .pure ⟨⟨_, _, rfl⟩, filled, ?_⟩
    simpa using known
  unfold deleteSource
  refine .skip fun found => .ite (fun _ => ?_) fun _ => ?_
  · refine .attempt form (fun found known => .pure ?_) ?_
    · obtain ⟨⟨tables, afterUsing, multi⟩, filled, children⟩ := known
      refine ⟨?_, children⟩
      rw [multi]
      exact filled
    · exact table.bind fun table known => .pure ⟨rfl, by simpa using known⟩
  · refine targets.bind fun names filled => .skip fun _ => ?_
    exact (tableRefs_yields shaped).bind fun tables known => .pure ⟨filled, by simpa using known⟩

theorem deleteTail_yields (source : DeleteSource) : (deleteTail inner source).Yields fun tail =>
    (∀ tables afterUsing, source = .multi tables afterUsing → tail.1 = [] ∧ tail.2 = none) ∧
      (∀ term ∈ tail.1, (Node.expr term.expr).WellShaped) ∧
      ∀ limit ∈ tail.2, limit.CountsOnly ∧ ∀ child ∈ limit.children, child.WellShaped := by
  unfold deleteTail
  split
  · refine (orderByClause_yields shaped).bind fun orderBy first => ?_
    refine (limitClause_yields false).bind fun limit second => .pure ⟨by simp, first, ?_⟩
    exact fun one member => ⟨⟨(second one member).1, (second one member).2.1 rfl⟩,
      (second one member).2.2⟩
  · exact .pure (by simp)

theorem delete_yields :
    (delete inner).Yields fun tree => (Node.statement (.delete tree)).WellShaped := by
  unfold delete
  refine .skip fun start => .skip fun options => ?_
  refine (deleteSource_yields shaped).bind fun source first => ?_
  obtain ⟨targets, source⟩ := source
  refine (whereClause_yields shaped).bind fun filter second => ?_
  refine (deleteTail_yields shaped source).bind fun tail third => .skip fun stop => .pure ?_
  refine .of_children ⟨?_, fun limit member => (third.2.2 limit member).1⟩ ?_
  · cases source with
    | single table => exact first.1
    | multi tables afterUsing => exact ⟨first.1, third.1 tables afterUsing rfl⟩
  · have named : ∀ name, (Node.tableName name).WellShaped :=
      fun name => .of_children trivial (by simp)
    have ending := tailChildren_wellShaped second third.2.1
      fun limit member => (third.2.2 limit member).2
    simp only [Node.children, Statement.children, List.forall_mem_append, List.forall_mem_map]
    exact ⟨⟨fun name _ => named name, first.2⟩, ending⟩

/-! ### Whole sources -/

theorem statement_yields :
    (statement inner).Yields fun tree => (Node.statement tree).WellShaped := by
  unfold statement
  refine .skip fun kind => ?_
  split
  · exact (insert_yields shaped).bind fun tree known => .pure known
  · exact (insert_yields shaped).bind fun tree known => .pure known
  · exact (update_yields shaped).bind fun tree known => .pure known
  · exact (delete_yields shaped).bind fun tree known => .pure known
  · refine .ite (fun _ => ?_) fun _ => .fail
    exact shaped.query.bind fun query known => .pure (.of_children trivial (by simpa using known))

omit shaped in
/-- At every nesting limit. -/
theorem innerAt_shaped (levels : Nat) : (innerAt levels).Shaped := by
  induction levels with
  | zero =>
      refine ⟨inferInstance, fun power => ?_, ?_, ?_⟩
      · rw [operand_zero]
        exact .tooDeep
      · rw [query_zero]
        exact .tooDeep
      · rw [tableInParens_zero]
        exact .tooDeep
  | succ levels inductionHypothesis =>
      refine ⟨inferInstance, fun power => ?_, ?_, ?_⟩
      · rw [operand_succ]
        exact (operandBody_yields inductionHypothesis power).enter
      · rw [query_succ]
        exact (wholeQuery_yields inductionHypothesis).enter
      · rw [tableInParens_succ]
        exact (tableInParensBody_yields inductionHypothesis).enter

end Rule

open Rule

theorem wellShaped_of_parseStatement {source : String} {settings : Settings}
    {parsed : ParsedStatement} (accepted : parseStatement source settings = .ok parsed) :
    (Node.statement parsed.statement).WellShaped := by
  obtain ⟨_, ⟨later, outcome, _⟩, _⟩ := (parseStatement_eq_ok source settings).mp accepted
  have yields : (statementTokens settings.maxDepth).Yields fun tree =>
      (Node.statement tree).WellShaped := by
    unfold statementTokens
    exact (statement_yields (innerAt_shaped _)).bind fun tree known => .skip fun _ => .pure known
  exact (yields _).on outcome

theorem wellShaped_of_parseExpression {source : String} {settings : Settings} {expr : Expr}
    (accepted : parseExpression source settings = .ok expr) : (Node.expr expr).WellShaped := by
  obtain ⟨_, later, outcome, _⟩ := (parseExpression_eq_ok source settings).mp accepted
  exact (expr_yields (innerAt_shaped _) _).on outcome

end SqlDml
