import SqlDml.Proofs.Parsing.Entry
import SqlDml.Proofs.Spelt.Subqueries

/-!
Contract: every tree that is read is made of written words.

Owns:
- tables and joins, clauses, select blocks and queries;
- statements, at every nesting limit;
- every node of the tree of a source, statements and expressions alike.

Does not own: whether a source has a tree.
-/

namespace SqlDml

variable {settings : Settings}

namespace Rule

/-! ### Tables -/

theorem indexHint_gives (action : IndexHintAction) :
    (indexHint action).Gives settings fun hint => ∀ index ∈ hint.indexes, index.Plain settings := by
  have closing : ∀ (start : Token) (scope : Option IndexHintScope) (indexes : List Ident),
      (∀ index ∈ indexes, index.Plain settings) →
      Gives settings (do
        return IndexHint.mk action scope indexes (start.span.merge (← previousSpan)))
        fun hint => ∀ index ∈ hint.indexes, index.Plain settings :=
    fun _ _ _ known => .skip fun stop => .pure known
  unfold indexHint
  refine .skip fun start => .skip fun _ => .skip fun scope => .ite (fun use => ?_) fun _ => ?_
  · exact identsInParensOrNone_gives.bind fun indexes plain => closing start scope indexes plain
  · exact identsInParens_gives.bind fun indexes known => closing start scope indexes known.2

theorem indexHints_gives : indexHints.Gives settings fun hints =>
    ∀ hint ∈ hints, ∀ index ∈ hint.indexes, index.Plain settings := by
  have repeats : (whileSome nextHint []).Gives settings fun hints =>
      ∀ hint ∈ hints, ∀ index ∈ hint.indexes, index.Plain settings := by
    refine .whileSome (by simp) fun hints known => ?_
    unfold nextHint
    refine .skip fun kind => ?_
    split
    · exact .pure (by simp)
    · next action _ =>
        refine .skip fun kind => .ite (fun _ => ?_) fun _ => .pure (by simp)
        refine (indexHint_gives action).bind fun hint plain => .skip fun _ => .pure ?_
        simpa using ⟨plain, known⟩
  rw [indexHints_eq]
  exact repeats.bind fun hints known => .pure (by simpa using known)

theorem namedTable_gives :
    namedTable.Gives settings fun table => (Node.table table).WellSpelt settings := by
  unfold namedTable
  refine tableName_gives.bind fun name named => partitions_gives.bind fun partitions first => ?_
  refine aliasName_gives.bind fun aliasName second => ?_
  refine indexHints_gives.bind fun hints third => .skip fun stop => .pure ?_
  exact .of_children ⟨first, second, third⟩ (by simpa using TableName.Named.wellSpelt named)

variable {inner : InnerRules} (given : inner.Spelt settings)

include given

theorem onCondition_gives : (onCondition inner).Gives settings fun found =>
    ∀ condition ∈ found, condition.Spelt settings ∧
      ∀ child ∈ condition.children, child.WellSpelt settings := by
  have := given.lawful
  unfold onCondition
  refine .skip fun found => .ite (fun _ => ?_) fun _ => .pure (by simp)
  refine (expr_gives given).bind fun test known => .pure fun condition same => ?_
  cases same
  exact ⟨trivial, by simpa using known⟩

theorem onOrUsing_gives : (onOrUsing inner).Gives settings fun found =>
    ∀ condition ∈ found, condition.Spelt settings ∧
      ∀ child ∈ condition.children, child.WellSpelt settings := by
  have := given.lawful
  unfold onOrUsing
  refine (onCondition_gives given).bind fun found known => ?_
  split
  · exact .pure known
  · refine .skip fun using_ => .ite (fun _ => ?_) fun _ => .pure (by simp)
    refine identsInParens_gives.bind fun columns plain => .pure fun condition same => ?_
    cases same
    exact ⟨plain, by simp⟩

theorem joinCondition_gives (join : JoinType) : (joinCondition inner join).Gives settings
    fun found => ∀ condition ∈ found, condition.Spelt settings ∧
      ∀ child ∈ condition.children, child.WellSpelt settings := by
  have := given.lawful
  unfold joinCondition
  refine .ite (fun _ => .pure (by simp)) fun _ => .ite (fun _ => onCondition_gives given) fun _ => ?_
  refine (onOrUsing_gives given).bind fun found known => ?_
  split
  · exact .pure known
  · exact .ite (fun _ => .fail) fun _ => .pure (by simp)

theorem tableFactor_gives :
    (tableFactor inner).Gives settings fun tree => (Node.ref tree).WellSpelt settings := by
  unfold tableFactor
  refine .skip fun opened => .ite (fun _ => given.tableInParens) fun _ => ?_
  refine namedTable_gives.bind fun table known => .pure (.of_children trivial ?_)
  simpa using known

theorem extendJoin_gives {left : TableRef} (before : (Node.ref left).WellSpelt settings) :
    (extendJoin inner left).Gives settings fun found =>
      ∀ tree ∈ found, (Node.ref tree).WellSpelt settings := by
  have := given.lawful
  unfold extendJoin
  refine .skip fun found => ?_
  split
  · exact .pure (by simp)
  · next join =>
      refine (tableFactor_gives given).bind fun right second => ?_
      refine (joinCondition_gives given join).bind fun condition third => .skip fun stop => ?_
      refine .pure fun tree same => ?_
      cases same
      refine .of_children (fun test member => (third test member).1) ?_
      simp only [Node.children, TableRef.children, List.forall_mem_cons, List.forall_mem_flatMap,
        Option.mem_toList]
      exact ⟨before, second, fun test member => (third test member).2⟩

theorem tableRef_gives :
    (tableRef inner).Gives settings fun tree => (Node.ref tree).WellSpelt settings := by
  have := given.lawful
  unfold tableRef
  refine (tableFactor_gives given).bind fun first known => ?_
  exact .whileSome known fun left before => extendJoin_gives given before

theorem tableRefs_gives : (tableRefs inner).Gives settings fun refs =>
    refs ≠ [] ∧ ∀ tree ∈ refs, (Node.ref tree).WellSpelt settings :=
  have := given.lawful
  (tableRef_gives given).commaSeparated

theorem derivedTable_gives (start : Span) : (derivedTable inner start).Gives settings fun tree =>
    (Node.ref tree).WellSpelt settings := by
  have := given.lawful
  unfold derivedTable
  refine .skip fun _ => given.query.bind fun query known => .skip fun _ => ?_
  refine aliasName_gives.bind fun found plain => ?_
  split
  · next name =>
      exact .skip fun stop => .pure (.of_children (plain name rfl) (by simpa using known))
  · exact .fail

theorem tableRefsInParens_gives (start : Span) :
    (tableRefsInParens inner start).Gives settings fun tree =>
      (Node.ref tree).WellSpelt settings := by
  have := given.lawful
  unfold tableRefsInParens
  refine .skip fun _ => (tableRefs_gives given).bind fun refs known => .skip fun stop => ?_
  exact .pure (.of_children known.1 (by simpa using known.2))

theorem tableInParensBody_gives :
    (tableInParensBody inner).Gives settings fun tree => (Node.ref tree).WellSpelt settings := by
  have := given.lawful
  unfold tableInParensBody
  refine .skip fun start => .skip fun next => .ite (fun _ => ?_) fun _ => ?_
  · refine .attempt (derivedTable_gives given start) (fun tree known => .pure known) ?_
    exact tableRefsInParens_gives given start
  · exact tableRefsInParens_gives given start

/-! ### Clauses -/

theorem whereClause_gives : (whereClause inner).Gives settings fun found =>
    ∀ tree ∈ found, (Node.expr tree).WellSpelt settings :=
  optionalClause_gives given .WHERE

theorem havingClause_gives : (havingClause inner).Gives settings fun found =>
    ∀ tree ∈ found, (Node.expr tree).WellSpelt settings :=
  optionalClause_gives given .HAVING

theorem orderingTerms_gives : (orderingTerms inner).Gives settings fun terms =>
    ∀ term ∈ terms, (Node.expr term.expr).WellSpelt settings := by
  have := given.lawful
  have term : (orderingTerm inner).Gives settings fun term =>
      (Node.expr term.expr).WellSpelt settings := by
    unfold orderingTerm
    refine (expr_gives given).bind fun tree known => .skip fun direction => ?_
    split
    · exact .skip fun stop => .pure known
    · exact .pure known
  exact term.commaSeparated.mono fun terms known => known.2

theorem orderByClause_gives : (orderByClause inner).Gives settings fun terms =>
    ∀ term ∈ terms, (Node.expr term.expr).WellSpelt settings := by
  unfold orderByClause
  refine .skip fun found => .ite (fun _ => .skip fun _ => ?_) fun _ => .pure (by simp)
  exact orderingTerms_gives given

theorem groupByClause_gives : (groupByClause inner).Gives settings fun groups =>
    ∀ term ∈ groups.1, (Node.expr term.expr).WellSpelt settings := by
  have := given.lawful
  unfold groupByClause
  refine .skip fun found => .ite (fun _ => .skip fun _ => ?_) fun _ => .pure (by simp)
  exact (orderingTerms_gives given).bind fun terms known => .skip fun rollup => .pure known

omit given in
theorem limitOperand_gives :
    limitOperand.Gives settings fun tree => (Node.expr tree).WellSpelt settings := by
  unfold limitOperand
  refine .peek fun kind text written => ?_
  split
  · exact tokenLiteral_gives (Literal.Spelt.natural written)
  · exact placeholder_gives
  · exact .fail

omit given in
theorem limitNumbers_gives : limitNumbers.Gives settings fun numbers =>
    (Node.expr numbers.1).WellSpelt settings ∧
      ∀ offset ∈ numbers.2, (Node.expr offset).WellSpelt settings := by
  unfold limitNumbers
  refine limitOperand_gives.bind fun first known => ?_
  refine .skip fun comma => .ite (fun _ => ?_) fun _ => ?_
  · exact limitOperand_gives.bind fun count second => .pure ⟨second, by simpa using known⟩
  · refine .skip fun word => .ite (fun _ => ?_) fun _ => .pure ⟨known, by simp⟩
    exact limitOperand_gives.bind fun offset second => .pure ⟨known, by simpa using second⟩

omit given in
theorem limitClause_gives (allowOffset : Bool) : (limitClause allowOffset).Gives settings
    fun found => ∀ limit ∈ found, ∀ child ∈ limit.children, child.WellSpelt settings := by
  have closing : ∀ (start : Span) (numbers : Expr × Option Expr),
      (Node.expr numbers.1).WellSpelt settings →
      (∀ offset ∈ numbers.2, (Node.expr offset).WellSpelt settings) →
      Gives settings (do
        return some (LimitClause.mk numbers.1 numbers.2 (start.merge (← previousSpan))))
        fun found => ∀ limit ∈ found, ∀ child ∈ limit.children, child.WellSpelt settings := by
    intro start numbers count offset
    refine .skip fun stop => .pure fun limit same => ?_
    cases same
    simp only [LimitClause.children, List.forall_mem_cons, List.forall_mem_map, Option.mem_toList]
    exact ⟨count, offset⟩
  unfold limitClause
  refine .skip fun found => .ite (fun _ => .skip fun start => ?_) fun _ => .pure (by simp)
  refine .ite (fun allowed => ?_) fun _ => ?_
  · exact limitNumbers_gives.bind fun numbers known => closing start numbers known.1 known.2
  · exact limitOperand_gives.bind fun count known => closing start (count, none) known (by simp)

omit given in
theorem lockingClause_gives : lockingClause.Gives settings fun found =>
    ∀ locking ∈ found, ∀ name ∈ locking.tables, (Node.tableName name).WellSpelt settings := by
  have tables : lockedTables.Gives settings fun names =>
      ∀ name ∈ names, (Node.tableName name).WellSpelt settings := by
    unfold lockedTables
    refine .skip fun found => .ite (fun _ => ?_) fun _ => .pure (by simp)
    exact tableName_gives.commaSeparated.mono fun names known name member =>
      TableName.Named.wellSpelt (known.2 name member)
  unfold lockingClause
  refine .skip fun start => .skip fun found => .ite (fun _ => ?_) fun _ => ?_
  · exact .skip fun _ => .skip fun _ => .skip fun _ => .skip fun stop => .pure (by simp)
  · refine .skip fun found => .ite (fun _ => ?_) fun _ => .pure (by simp)
    refine .skip fun mode => tables.bind fun names known => .skip fun wait => .skip fun stop => ?_
    refine .pure fun locking same => ?_
    cases same
    exact known

/-! ### Select blocks -/

theorem exprItem_gives :
    (exprItem inner).Gives settings fun item => (Node.item item).WellSpelt settings := by
  have := given.lawful
  unfold exprItem
  refine (expr_gives given).bind fun value known => aliasOrString_gives.bind fun found labels => ?_
  exact .pure (.of_children labels (by simpa using known))

theorem selectItem_gives :
    (selectItem inner).Gives settings fun item => (Node.item item).WellSpelt settings := by
  have dotted : (dottedItem inner).Gives settings fun item =>
      (Node.item item).WellSpelt settings := by
    unfold dottedItem tableWildcard schemaWildcard
    refine .skip fun star => .ite (fun _ => ?_) fun _ => ?_
    · refine Gives.identifier.bind fun table plain => .skip fun _ => .skip fun star => ?_
      exact .pure (.of_children plain (by simp))
    · refine .skip fun follows => .ite (fun _ => ?_) fun _ => exprItem_gives given
      refine Gives.identifier.bind fun schema plain => .skip fun _ => ?_
      refine Gives.identifierAfterDot.bind fun table behind => .skip fun _ => .skip fun star => ?_
      exact .pure (.of_children ⟨plain, behind⟩ (by simp))
  unfold selectItem
  refine .skip fun star => .ite (fun _ => ?_) fun _ => .skip fun kind => ?_
  · exact .skip fun token => .pure (.of_children trivial (by simp))
  · refine .ite (fun _ => .skip fun dot => ?_) fun _ => exprItem_gives given
    exact .ite (fun _ => dotted) fun _ => exprItem_gives given

theorem fromClause_gives : (fromClause inner).Gives settings fun refs =>
    ∀ tree ∈ refs, (Node.ref tree).WellSpelt settings := by
  unfold fromClause
  refine .skip fun found => .ite (fun _ => ?_) fun _ => .pure (by simp)
  exact (tableRefs_gives given).mono fun refs known => known.2

theorem selectCore_gives :
    (selectCore inner).Gives settings fun core => (Node.core core).WellSpelt settings := by
  have := given.lawful
  unfold selectCore
  refine .skip fun start => .skip fun modifiers => ?_
  refine (selectItem_gives given).commaSeparated.bind fun columns first => ?_
  refine (fromClause_gives given).bind fun sources second => ?_
  refine (whereClause_gives given).bind fun filter third => ?_
  refine (groupByClause_gives given).bind fun groups fourth => ?_
  refine (havingClause_gives given).bind fun having fifth => .skip fun stop => .pure ?_
  refine .of_children first.1 ?_
  simp only [Node.children, SelectCore.children, List.forall_mem_append, List.forall_mem_map,
    Option.mem_toList]
  exact ⟨⟨⟨⟨first.2, second⟩, third⟩, fourth⟩, fifth⟩

/-! ### Queries -/

theorem queryTerm_gives :
    (queryTerm inner).Gives settings fun term => term.node.WellSpelt settings := by
  have := given.lawful
  unfold queryTerm
  refine .skip fun kind => ?_
  split
  · exact .skip fun _ => given.query.bind fun query known => .skip fun _ => .pure known
  · exact (selectCore_gives given).bind fun core known => .pure known
  · exact .fail

theorem queryBody_gives : (queryBody inner).Gives settings fun body =>
    body.first.node.WellSpelt settings ∧
      ∀ compound ∈ body.compounds, compound.2.node.WellSpelt settings := by
  have := given.lawful
  have repeats : (whileSome (nextCompound inner) []).Gives settings fun compounds =>
      ∀ compound ∈ compounds, compound.2.node.WellSpelt settings := by
    refine .whileSome (by simp) fun compounds before => ?_
    unfold nextCompound
    refine .skip fun found => .ite (fun _ => ?_) fun _ => .pure (by simp)
    refine .skip fun op => (queryTerm_gives given).bind fun term last => ?_
    refine .pure fun more same => ?_
    cases same
    exact List.forall_mem_cons.mpr ⟨last, before⟩
  rw [queryBody_eq]
  refine .skip fun start => (queryTerm_gives given).bind fun first known => ?_
  refine repeats.bind fun compounds all => .skip fun stop => .pure ⟨known, ?_⟩
  exact fun compound member => all compound (List.mem_reverse.mp member)

theorem commonTable_gives : (commonTable inner).Gives settings fun table =>
    table.Spelt settings ∧ (Node.query table.query).WellSpelt settings := by
  have := given.lawful
  have closing : ∀ (name : Ident) (columns : List Ident), name.Plain settings →
      (∀ column ∈ columns, column.Plain settings) →
      Gives settings (do
        let _ ← expectWord .AS
        let _ ← expectMark .leftParen
        let query ← inner.query
        let stop ← expectMark .rightParen
        return CommonTable.mk name columns query (name.span.merge stop))
        fun table => table.Spelt settings ∧ (Node.query table.query).WellSpelt settings := by
    intro name columns first second
    refine .skip fun _ => .skip fun _ => given.query.bind fun query known => ?_
    exact .skip fun stop => .pure ⟨⟨first, second⟩, known⟩
  unfold commonTable
  refine Gives.identifier.bind fun name plain => .skip fun listed => .ite (fun _ => ?_) fun _ => ?_
  · exact identsInParens_gives.bind fun columns known => closing name columns plain known.2
  · have none_ : (Pure.pure [] : Rule (List Ident)).Gives settings fun columns => columns = [] :=
      .pure rfl
    exact none_.bind fun columns same => closing name columns plain (by simp [same])

theorem withClause_gives : (withClause inner).Gives settings fun found =>
    ∀ clause ∈ found, clause.tables ≠ [] ∧ ∀ table ∈ clause.tables,
      table.Spelt settings ∧ (Node.query table.query).WellSpelt settings := by
  have := given.lawful
  unfold withClause
  refine .skip fun found => .ite (fun _ => .skip fun start => ?_) fun _ => .pure (by simp)
  refine .skip fun recursive => (commonTable_gives given).commaSeparated.bind ?_
  exact fun tables known => .skip fun stop => .pure (by simpa using known)

theorem wholeQuery_gives :
    (wholeQuery inner).Gives settings fun query => (Node.query query).WellSpelt settings := by
  have := given.lawful
  unfold wholeQuery
  refine .skip fun start => (withClause_gives given).bind fun withClause first => ?_
  refine (queryBody_gives given).bind fun body second => ?_
  refine (orderByClause_gives given).bind fun orderBy third => ?_
  refine (limitClause_gives true).bind fun limit fourth => ?_
  refine lockingClause_gives.bind fun locking fifth => .skip fun stop => .pure ?_
  refine .of_children (fun clause member => ⟨(first clause member).1, fun table listed =>
    ((first clause member).2 table listed).1⟩) ?_
  simp only [Node.children, Query.children, List.forall_mem_append, List.forall_mem_cons,
    List.forall_mem_flatMap, List.forall_mem_map, Option.mem_toList]
  exact ⟨⟨⟨⟨fun clause member table listed => ((first clause member).2 table listed).2, second⟩,
    third⟩, fourth⟩, fifth⟩

/-! ### Statements -/

theorem assignments_gives : (assignments inner).Gives settings fun items =>
    ∀ item ∈ items, ∀ child ∈ item.children, child.WellSpelt settings := by
  have := given.lawful
  have item : (assignment inner).Gives settings fun item =>
      ∀ child ∈ item.children, child.WellSpelt settings := by
    unfold assignment
    refine columnRef_gives.bind fun column named => .skip fun _ => ?_
    refine (expr_gives given).bind fun value second => .pure ?_
    simpa using ⟨ColumnRef.Named.wellSpelt named, second⟩
  exact item.commaSeparated.mono fun items known => known.2

theorem valueRow_gives : (valueRow inner).Gives settings fun row =>
    ∀ tree ∈ row, (Node.expr tree).WellSpelt settings := by
  have := given.lawful
  unfold valueRow
  refine .skip fun _ => .skip fun closed => .ite (fun _ => .pure (by simp)) fun _ => ?_
  exact (exprs_gives given).bind fun row known => .skip fun _ => .pure known.2

omit given in
theorem insertColumns_gives : insertColumns.Gives settings fun columns =>
    ∀ column ∈ columns, column.Plain settings := by
  unfold insertColumns
  refine .skip fun opens => .ite (fun _ => ?_) fun _ => .pure (by simp)
  refine .skip fun kind => .ite (fun _ => .pure (by simp)) fun _ => ?_
  exact identsInParensOrNone_gives

theorem insertSource_gives : (insertSource inner).Gives settings fun found =>
    (∀ column ∈ found.1, column.Plain settings) ∧
      ∀ child ∈ found.2.children, child.WellSpelt settings := by
  have := given.lawful
  have rows : Gives settings (do
      let _ ← advance
      return InsertSource.values (← commaSeparated (valueRow inner))) fun source =>
        ∀ child ∈ source.children, child.WellSpelt settings := by
    refine .skip fun _ => (valueRow_gives given).commaSeparated.bind fun rows known => .pure ?_
    simp only [InsertSource.children, List.forall_mem_flatMap, List.forall_mem_map]
    exact known.2
  have body : (insertRows inner).Gives settings fun source =>
      ∀ child ∈ source.children, child.WellSpelt settings := by
    unfold insertRows
    refine .skip fun kind => ?_
    split
    · exact rows
    · exact rows
    · refine .ite (fun _ => ?_) fun _ => .fail
      exact given.query.bind fun query known => .pure (by simpa using known)
  unfold insertSource
  refine .skip fun found => .ite (fun _ => ?_) fun _ => ?_
  · refine (assignments_gives given).bind fun items known => .pure ⟨by simp, ?_⟩
    simp only [InsertSource.children, List.forall_mem_flatMap]
    exact known
  · exact insertColumns_gives.bind fun columns plain =>
      body.bind fun source known => .pure ⟨plain, known⟩

theorem onDuplicate_gives (kind : InsertKind) : (onDuplicate inner kind).Gives settings fun items =>
    ∀ item ∈ items, ∀ child ∈ item.children, child.WellSpelt settings := by
  unfold onDuplicate
  refine .skip fun found => .ite (fun follows => ?_) fun _ => .pure (by simp)
  exact .skip fun _ => .skip fun _ => .skip fun _ => assignments_gives given

theorem insert_gives : (insert inner).Gives settings fun tree =>
    (Node.statement (.insert tree)).WellSpelt settings := by
  have := given.lawful
  unfold insert
  refine .skip fun start => .skip fun kind => .skip fun priority => .skip fun ignore => ?_
  refine .skip fun _ => tableName_gives.bind fun table named => ?_
  refine partitions_gives.bind fun partitions plain => ?_
  refine (insertSource_gives given).bind fun source second => ?_
  refine (onDuplicate_gives given kind).bind fun onDuplicate third => .skip fun stop => .pure ?_
  refine .of_children ⟨plain, second.1⟩ ?_
  simp only [Node.children, Statement.children, List.cons_append, List.forall_mem_cons,
    List.forall_mem_append, List.forall_mem_flatMap]
  exact ⟨TableName.Named.wellSpelt named, second.2, third⟩

omit given in
theorem tailChildren_wellSpelt {filter : Option Expr} {orderBy : List OrderingTerm}
    {limit : Option LimitClause} (first : ∀ tree ∈ filter, (Node.expr tree).WellSpelt settings)
    (second : ∀ term ∈ orderBy, (Node.expr term.expr).WellSpelt settings)
    (third : ∀ one ∈ limit, ∀ child ∈ one.children, child.WellSpelt settings) :
    ∀ child ∈ tailChildren filter orderBy limit, child.WellSpelt settings := by
  simp only [tailChildren, List.forall_mem_append, List.forall_mem_map, List.forall_mem_flatMap,
    Option.mem_toList]
  exact ⟨⟨first, second⟩, third⟩

theorem update_gives : (update inner).Gives settings fun tree =>
    (Node.statement (.update tree)).WellSpelt settings := by
  have := given.lawful
  unfold update
  refine .skip fun start => .skip fun options => ?_
  refine (tableRefs_gives given).bind fun tables first => .skip fun _ => ?_
  refine (assignments_gives given).bind fun assignments second => ?_
  refine (whereClause_gives given).bind fun filter third => ?_
  refine (orderByClause_gives given).bind fun orderBy fourth => ?_
  refine (limitClause_gives false).bind fun limit fifth => .skip fun stop => .pure ?_
  refine .of_children trivial ?_
  simp only [Node.children, Statement.children, List.forall_mem_append, List.forall_mem_map,
    List.forall_mem_flatMap]
  exact ⟨⟨first.2, second⟩, tailChildren_wellSpelt third fourth fifth⟩

theorem deleteSource_gives : (deleteSource inner).Gives settings fun found =>
    (∀ name ∈ found.1, (Node.tableName name).WellSpelt settings) ∧
      ∀ child ∈ found.2.children, child.WellSpelt settings := by
  have := given.lawful
  have targets : deleteTargets.Gives settings fun names =>
      ∀ name ∈ names, (Node.tableName name).WellSpelt settings := by
    have each : deleteTarget.Gives settings fun name => name.Named settings := by
      unfold deleteTarget
      refine tableName_gives.bind fun target named => .skip fun dot => .ite (fun _ => ?_) ?_
      · refine .skip fun star => .ite (fun _ => ?_) fun _ => ?_
        · exact .skip fun _ => .skip fun _ => .pure named
        · exact .pure named
      · exact fun _ => .pure named
    exact each.commaSeparated.mono fun names known name member =>
      TableName.Named.wellSpelt (known.2 name member)
  have table : deleteTable.Gives settings fun table => (Node.table table).WellSpelt settings := by
    have closing : ∀ (name : TableName) (partitions : List Ident) (aliasName : Option Ident),
        name.Named settings → (∀ part ∈ partitions, part.Plain settings) →
        (∀ ident ∈ aliasName, ident.Plain settings) →
        Gives settings (do
          return NamedTable.mk name partitions aliasName [] (name.span.merge (← previousSpan)))
          fun table => (Node.table table).WellSpelt settings := by
      intro name partitions aliasName named first second
      refine .skip fun stop => .pure (.of_children ⟨first, second, by simp⟩ ?_)
      simpa using TableName.Named.wellSpelt named
    unfold deleteTable
    refine tableName_gives.bind fun name named => partitions_gives.bind fun before first => ?_
    refine aliasName_gives.bind fun aliasName second => .ite (fun _ => ?_) fun _ => ?_
    · exact partitions_gives.bind fun partitions third =>
        closing name partitions aliasName named third second
    · exact closing name before aliasName named first second
  have form : (deleteUsing inner).Gives settings fun found =>
      (∀ name ∈ found.1, (Node.tableName name).WellSpelt settings) ∧
        ∀ child ∈ found.2.children, child.WellSpelt settings := by
    unfold deleteUsing
    refine targets.bind fun names known => .skip fun _ => ?_
    refine (tableRefs_gives given).bind fun tables all => .pure ⟨known, ?_⟩
    simpa using all.2
  unfold deleteSource
  refine .skip fun found => .ite (fun _ => ?_) fun _ => ?_
  · refine .attempt form (fun found known => .pure known) ?_
    exact table.bind fun table known => .pure ⟨by simp, by simpa using known⟩
  · refine targets.bind fun names known => .skip fun _ => ?_
    exact (tableRefs_gives given).bind fun tables all => .pure ⟨known, by simpa using all.2⟩

theorem delete_gives : (delete inner).Gives settings fun tree =>
    (Node.statement (.delete tree)).WellSpelt settings := by
  have := given.lawful
  have ending : ∀ source, (deleteTail inner source).Gives settings fun tail =>
      (∀ term ∈ tail.1, (Node.expr term.expr).WellSpelt settings) ∧
        ∀ limit ∈ tail.2, ∀ child ∈ limit.children, child.WellSpelt settings := by
    intro source
    unfold deleteTail
    split
    · refine (orderByClause_gives given).bind fun orderBy first => ?_
      exact (limitClause_gives false).bind fun limit second => .pure ⟨first, second⟩
    · exact .pure (by simp)
  unfold delete
  refine .skip fun start => .skip fun options => ?_
  refine (deleteSource_gives given).bind fun source first => ?_
  refine (whereClause_gives given).bind fun filter second => ?_
  refine (ending _).bind fun tail third => .skip fun stop => .pure (.of_children trivial ?_)
  simp only [Node.children, Statement.children, List.forall_mem_append, List.forall_mem_map]
  exact ⟨first, tailChildren_wellSpelt second third.1 third.2⟩

/-! ### Whole sources -/

theorem statement_gives : (statement inner).Gives settings fun tree =>
    (Node.statement tree).WellSpelt settings := by
  have := given.lawful
  unfold statement
  refine .skip fun kind => ?_
  split
  · exact (insert_gives given).bind fun tree known => .pure known
  · exact (insert_gives given).bind fun tree known => .pure known
  · exact (update_gives given).bind fun tree known => .pure known
  · exact (delete_gives given).bind fun tree known => .pure known
  · refine .ite (fun _ => ?_) fun _ => .fail
    exact given.query.bind fun query known => .pure (.of_children trivial (by simpa using known))

omit given in
/-- At every nesting limit. -/
theorem innerAt_spelt (levels : Nat) : (innerAt levels).Spelt settings := by
  have sub := fun spot later tree => @subquery_innerAt levels spot later tree
  induction levels with
  | zero =>
      refine ⟨inferInstance, fun power => ?_, ?_, ?_, sub⟩
      · rw [operand_zero]
        exact .tooDeep
      · rw [query_zero]
        exact .tooDeep
      · rw [tableInParens_zero]
        exact .tooDeep
  | succ levels inductionHypothesis =>
      have deeper := inductionHypothesis fun spot later tree => subquery_innerAt levels
      refine ⟨inferInstance, fun power => ?_, ?_, ?_, sub⟩
      · rw [operand_succ]
        exact (operandBody_gives deeper power).enter
      · rw [query_succ]
        exact (wholeQuery_gives deeper).enter
      · rw [tableInParens_succ]
        exact (tableInParensBody_gives deeper).enter

end Rule

open Rule

/-- The tree of a statement is made of the words of its source. -/
theorem wellSpelt_of_parseStatement {source : String} {parsed : ParsedStatement}
    (accepted : parseStatement source settings = .ok parsed) :
    (Node.statement parsed.statement).WellSpelt settings := by
  obtain ⟨unfailed, ⟨later, outcome, _⟩, _⟩ := (parseStatement_eq_ok source settings).mp accepted
  have gives : (statementTokens settings.maxDepth).Gives settings fun tree =>
      (Node.statement tree).WellSpelt settings := by
    unfold statementTokens
    exact (statement_gives (innerAt_spelt _)).bind fun tree known => .skip fun _ => .pure known
  exact (gives _ (spelt_ofSource unfailed)).on outcome

/-- The tree of an expression is made of the words of its source. -/
theorem wellSpelt_of_parseExpression {source : String} {expr : Expr}
    (accepted : parseExpression source settings = .ok expr) :
    (Node.expr expr).WellSpelt settings := by
  obtain ⟨unfailed, later, outcome, _⟩ := (parseExpression_eq_ok source settings).mp accepted
  exact (expr_gives (innerAt_spelt _) _ (spelt_ofSource unfailed)).on outcome

/-- A node of the tree that a source has. -/
inductive Node.OfSource (source : String) (settings : Settings) (node : Node) : Prop where
  | statement {parsed : ParsedStatement} (accepted : parseStatement source settings = .ok parsed)
      (within : node.Within (.statement parsed.statement)) : Node.OfSource source settings node
  | expression {expr : Expr} (accepted : parseExpression source settings = .ok expr)
      (within : node.Within (.expr expr)) : Node.OfSource source settings node

theorem Node.OfSource.of_within {source : String} {node inner : Node}
    (read : node.OfSource source settings) (inside : inner.Within node) :
    inner.OfSource source settings := by
  cases read with
  | statement accepted within => exact .statement accepted (inside.trans within)
  | expression accepted within => exact .expression accepted (inside.trans within)

theorem Node.OfSource.spelt {source : String} {node : Node} (read : node.OfSource source settings) :
    node.Spelt settings := by
  cases read with
  | statement accepted within => exact wellSpelt_of_parseStatement accepted node within
  | expression accepted within => exact wellSpelt_of_parseExpression accepted node within

end SqlDml
