import SqlDml.Proofs.Parsing.Entry
import SqlDml.Proofs.Reading.Expressions

/-!
Contract: tables, queries and statements are read from the tokens that they consume.

Owns:
- table references, clauses, select blocks and queries;
- the limit with its offset in front and the partitions behind an alias, the only parts that stand
  in the tree in another order than in the source;
- statements, at every nesting limit, and the whole tree of a source.

Does not own: what is concluded about the names and markers of a tree.
-/

namespace SqlDml

open Visit (idents)

namespace Rule

variable {inner : InnerRules} (reads : inner.Reads)

include reads

/-! ### Tables -/

theorem onCondition_reads :
    (onCondition inner).Reads fun found => found.toList.flatMap JoinCondition.visits := by
  intro spot
  unfold onCondition
  refine .eat (fun found => ?_) fun _ => .pure (.nothing spot)
  refine .part (.passed (spot.plain_of_kind found)) (expr_reads reads) fun condition later read => ?_
  exact .pure (read.congr (by simp))

theorem onOrUsing_reads :
    (onOrUsing inner).Reads fun found => found.toList.flatMap JoinCondition.visits := by
  intro spot
  unfold onOrUsing
  refine .part (.nothing spot) (onCondition_reads reads) fun found middle read => ?_
  cases found with
  | some condition => exact .pure read
  | none =>
      refine .eat (fun using_ => ?_) fun _ => .pure read
      refine .part (read.past (middle.plain_of_kind using_)) identsInParens_reads ?_
      exact fun columns later read => .pure (read.congr (by simp))

theorem joinCondition_reads (join : JoinType) :
    (joinCondition inner join).Reads fun found => found.toList.flatMap JoinCondition.visits := by
  intro spot
  unfold joinCondition
  refine .ite (fun _ => .pure (.nothing spot)) fun _ => .ite (fun _ => ?_) fun _ => ?_
  · exact onCondition_reads reads spot
  · refine .part (.nothing spot) (onOrUsing_reads reads) fun found middle read => ?_
    cases found with
    | some condition => exact .pure read
    | none => exact .ite (fun _ => .fail) fun _ => .pure read

theorem tableFactor_reads : (tableFactor inner).Reads TableRef.visits := by
  intro spot
  unfold tableFactor
  refine .nextIs (fun _ => reads.tableInParens spot) fun _ => ?_
  refine .part (.nothing spot) namedTable_reads fun table later read => .pure ?_
  rw [TableRef.visits]
  exact .node rfl read

theorem extendJoin_reads {left : TableRef} {start spot : Spot}
    (before : Read left.visits start spot) :
    (extendJoin inner left).Ensures spot fun found later =>
      Read (found.getD left).visits start later := by
  unfold extendJoin
  refine .skip before fun found middle read => ?_
  cases found with
  | none => exact .pure read
  | some join =>
      refine .part read (tableFactor_reads reads) fun right _ read => ?_
      refine .part read (joinCondition_reads reads join) fun condition _ read => ?_
      refine .skip read fun stop later read => .pure ?_
      rw [Option.getD_some, TableRef.visits_joined]
      exact .node rfl read

theorem tableRef_reads : (tableRef inner).Reads TableRef.visits := by
  intro spot
  have := reads.lawful
  unfold tableRef
  refine (tableFactor_reads reads spot).bind fun first middle read => ?_
  exact .whileSome read fun left behind before => extendJoin_reads reads before

theorem tableRefs_reads : (tableRefs inner).Reads fun refs => refs.flatMap TableRef.visits :=
  have := reads.lawful
  (tableRef_reads reads).commaSeparated

theorem derivedTable_reads (start : Span) : (derivedTable inner start).Reads TableRef.visits := by
  intro spot
  unfold derivedTable
  refine .skip (.nothing spot) fun _ _ read => .part read reads.query fun query _ read => ?_
  refine .skip read fun _ _ read => .part read aliasName_reads fun found middle read => ?_
  cases found with
  | none => exact .fail
  | some name =>
      refine .skip read fun stop later read => .pure ?_
      rw [TableRef.visits]
      exact .node rfl read

theorem tableRefsInParens_reads (start : Span) :
    (tableRefsInParens inner start).Reads TableRef.visits := by
  intro spot
  unfold tableRefsInParens
  refine .skip (.nothing spot) fun _ _ read => .part read (tableRefs_reads reads) ?_
  refine fun refs _ read => .skip read fun stop later read => .pure ?_
  rw [TableRef.visits, TableRef.refVisits_eq]
  exact .node rfl read

theorem tableInParensBody_reads : (tableInParensBody inner).Reads TableRef.visits := by
  intro spot
  have := reads.lawful
  unfold tableInParensBody
  refine .step (on_currentSpan spot) (.step (on_peekAhead spot 1) (.ite (fun _ => ?_) fun _ => ?_))
  · refine .attempt (derivedTable_reads reads _ spot) (fun derived later read => .pure read) ?_
    exact tableRefsInParens_reads reads _ spot
  · exact tableRefsInParens_reads reads _ spot

/-! ### Clauses -/

theorem whereClause_reads :
    (whereClause inner).Reads fun filter => filter.toList.flatMap Expr.visits :=
  optionalClause_reads reads .WHERE

theorem havingClause_reads :
    (havingClause inner).Reads fun filter => filter.toList.flatMap Expr.visits :=
  optionalClause_reads reads .HAVING

theorem orderingTerms_reads :
    (orderingTerms inner).Reads fun terms => terms.flatMap OrderingTerm.visits := by
  have := reads.lawful
  have term : (orderingTerm inner).Reads OrderingTerm.visits := by
    intro spot
    unfold orderingTerm
    refine .part (.nothing spot) (expr_reads reads) fun expr _ read => ?_
    refine .skip read fun direction _ read => ?_
    cases direction with
    | some direction =>
        refine .skip read fun stop later read => .pure ?_
        rwa [OrderingTerm.visits]
    | none =>
        refine .pure ?_
        rwa [OrderingTerm.visits]
  exact term.commaSeparated

theorem orderByClause_reads :
    (orderByClause inner).Reads fun terms => terms.flatMap OrderingTerm.visits := by
  intro spot
  unfold orderByClause
  refine .eat (fun found => ?_) fun _ => .pure (.nothing spot)
  refine .skip (.passed (spot.plain_of_kind found)) fun _ _ read => ?_
  exact .last read (orderingTerms_reads reads)

theorem groupByClause_reads :
    (groupByClause inner).Reads fun groups => groups.1.flatMap OrderingTerm.visits := by
  intro spot
  unfold groupByClause
  refine .eat (fun found => ?_) fun _ => .pure (.nothing spot)
  refine .skip (.passed (spot.plain_of_kind found)) fun _ _ read => ?_
  refine .part read (orderingTerms_reads reads) fun terms _ read => ?_
  exact .skip read fun rollup later read => .pure read

omit reads in
/-- A number of a limit is a leaf. -/
theorem limitOperand_reads (spot : Spot) :
    limitOperand.Ensures spot fun expr later =>
      Read expr.visits spot later ∧ ∀ visit ∈ expr.visits, visit.isLeaf = true := by
  unfold limitOperand
  refine .step (on_peek spot) ?_
  split
  · next value kind =>
      unfold tokenLiteral
      refine .step (on_advance spot) (.pure ⟨?_, by simp [Visit.isLeaf]⟩)
      exact literal_read (.next (by simp [kind]) (by simp [kind])) fun _ => .singleton _
  · next kind =>
      refine .of_on fun expr later outcome => ⟨(placeholder_reads kind).on outcome, ?_⟩
      simp only [placeholder, on_bind, on_advance, on_nextPlaceholder, Outcome.bind_done,
        on_pure, Outcome.done.injEq] at outcome
      obtain ⟨rfl, _⟩ := outcome
      simp [Visit.isLeaf]
  · exact .fail

omit reads in
theorem limitNumbers_reads :
    limitNumbers.Reads fun numbers =>
      numbers.1.visits ++ numbers.2.toList.flatMap Expr.visits := by
  intro spot
  unfold limitNumbers
  refine (limitOperand_reads spot).bind fun first middle known => ?_
  obtain ⟨read, firstLeaf⟩ := known
  refine .eat (fun comma => ?_) fun _ => .eat (fun offset => ?_) fun _ => .pure ?_
  · -- the offset stands in front of the count
    have past := read.past (middle.plain_of_kind comma)
    refine (limitOperand_reads middle.next).bind fun count later known => .pure ?_
    obtain ⟨behind, countLeaf⟩ := known
    have leaves : ∀ visit ∈ first.visits ++ count.visits, visit.isLeaf = true := by
      intro visit member
      rcases List.mem_append.mp member with inFirst | inCount
      · exact firstLeaf visit inFirst
      · exact countLeaf visit inCount
    exact (Read.swap leaves (past.append behind)).congr (by simp)
  · have past := read.past (middle.plain_of_kind offset)
    refine (limitOperand_reads middle.next).bind fun second later known => .pure ?_
    exact (past.append known.1).congr (by simp)
  · exact read.congr (by simp)

omit reads in
theorem limit_read {count : Expr} {offset : Option Expr} {start later : Spot} (span : Span)
    (read : Read (count.visits ++ offset.toList.flatMap Expr.visits) start later) :
    Read ((some (LimitClause.mk count offset span)).toList.flatMap LimitClause.visits) start
      later := by
  rw [Option.toList_some, List.flatMap_singleton, LimitClause.visits_eq]
  exact read

omit reads in
theorem limitClause_reads (allowOffset : Bool) :
    (limitClause allowOffset).Reads fun limit => limit.toList.flatMap LimitClause.visits := by
  intro spot
  unfold limitClause
  refine .nextIs (fun _ => ?_) fun _ => .pure (.nothing spot)
  refine .skip (.nothing spot) fun start middle read => .ite (fun _ => ?_) fun _ => ?_
  · refine .part read limitNumbers_reads fun numbers _ read => ?_
    exact .skip read fun stop later read => .pure (limit_read _ read)
  · refine (limitOperand_reads middle).bind fun count behind known => ?_
    refine .step (on_pure _ behind) ?_
    have read := read.append known.1
    refine .skip read fun stop later read => .pure (limit_read _ (read.congr ?_))
    simp

omit reads in
theorem lockedTables_reads : lockedTables.Reads fun names => names.flatMap TableName.visits := by
  intro spot
  unfold lockedTables
  refine .eat (fun found => ?_) fun _ => .pure (.nothing spot)
  exact .last (.passed (spot.plain_of_kind found)) tableName_reads.commaSeparated

omit reads in
theorem lockingClause_reads :
    lockingClause.Reads fun found =>
      found.toList.flatMap fun clause => clause.tables.flatMap TableName.visits := by
  intro spot
  unfold lockingClause
  refine .step (on_currentSpan spot) (.eat (fun found => ?_) fun _ => .eat (fun found => ?_) ?_)
  · have read := Read.passed (spot.plain_of_kind found)
    refine .skip read fun _ _ read => .skip read fun _ _ read => .skip read fun _ _ read => ?_
    exact .skip read fun stop later read => .pure read
  · have read := Read.passed (spot.plain_of_kind found)
    refine .skip read fun mode _ read => .part read lockedTables_reads fun tables _ read => ?_
    refine .skip read fun wait _ read => .skip read fun stop later read => .pure (read.congr ?_)
    simp
  · exact fun _ => .pure (.nothing spot)

/-! ### Select blocks -/

omit reads in
theorem addModifier_of_payload (modifiers : SelectModifiers) {kind : TokenKind}
    (payload : kind.isPayload = true) : addModifier modifiers kind = none := by
  cases kind <;> first | rfl | cases payload

omit reads in
instance (modifiers : SelectModifiers) : (nextModifier modifiers).Silent where
  reads spot := by
    unfold nextModifier
    refine .step (on_peek spot) ?_
    split
    · next more found =>
        have plain := spot.plain_of_choice (addModifier_of_payload modifiers) found
        exact .advance (.nothing spot) plain fun read => .pure read
    · exact .pure (.nothing spot)

omit reads in
instance : selectModifiers.Silent := by
  rw [selectModifiers_eq]
  exact silent_whileSome nextModifier {}

theorem exprItem_reads : (exprItem inner).Reads SelectItem.visits := by
  intro spot
  unfold exprItem
  refine .part (.nothing spot) (expr_reads reads) fun value _ read => ?_
  refine .part read aliasOrString_reads fun aliasName later read => .pure ?_
  rw [SelectItem.visits]
  exact .node rfl read

omit reads in
theorem tableWildcard_reads {spot : Spot} (dot : (spot.token 1).kind = .punct .dot)
    (star : (spot.token 2).kind = .punct .star) :
    tableWildcard.Ensures spot fun item later => Read item.visits spot later := by
  unfold tableWildcard
  refine (name_takes false spot).bind fun table middle known => ?_
  obtain ⟨rfl, read, offers⟩ := known
  have dotNext : spot.next.kind = .punct .dot := by rw [Spot.kind, Spot.next_token, dot]
  have starNext : spot.next.next.kind = .punct .star := by
    rw [Spot.kind, Spot.next_token, Spot.next_token, star]
  refine .advance read (Spot.plain_of_kind dotNext) fun read => ?_
  refine .advance read (Spot.plain_of_kind starNext) fun read => .pure ?_
  rw [SelectItem.visits]
  exact .node rfl (.qualifier offers read)

omit reads in
theorem schemaWildcard_reads {spot : Spot} (dot : (spot.token 1).kind = .punct .dot)
    (second : (spot.token 3).kind = .punct .dot) (star : (spot.token 4).kind = .punct .star) :
    schemaWildcard.Ensures spot fun item later => Read item.visits spot later := by
  unfold schemaWildcard
  refine (name_takes false spot).bind fun schema middle known => ?_
  obtain ⟨rfl, read, _⟩ := known
  have dotNext : spot.next.kind = .punct .dot := by rw [Spot.kind, Spot.next_token, dot]
  refine .advance read (Spot.plain_of_kind dotNext) fun read => ?_
  refine (name_takes true spot.next.next).bind fun table middle known => ?_
  obtain ⟨rfl, more, offers⟩ := known
  have secondNext : spot.next.next.next.kind = .punct .dot := by
    rw [Spot.kind, Spot.next_token, Spot.next_token, Spot.next_token, second]
  have starNext : spot.next.next.next.next.kind = .punct .star := by
    rw [Spot.kind, Spot.next_token, Spot.next_token, Spot.next_token, Spot.next_token, star]
  refine .advance (read.append more) (Spot.plain_of_kind secondNext) fun read => ?_
  refine .advance read (Spot.plain_of_kind starNext) fun read => .pure ?_
  rw [SelectItem.visits]
  exact .node rfl (.qualifier offers.of_next.of_next read)

omit reads in
theorem schemaWildcardFollows_tells (spot : Spot) :
    schemaWildcardFollows.Ensures spot fun found later => later = spot ∧
      (found = true → (spot.token 3).kind = .punct .dot ∧ (spot.token 4).kind = .punct .star) := by
  unfold schemaWildcardFollows
  refine .step (on_peekAhead spot 2) (.ite (fun _ => ?_) fun _ => .pure ⟨rfl, by simp⟩)
  refine .aheadIs (fun dot => ?_) fun _ => .pure ⟨rfl, by simp⟩
  refine .of_on fun found later outcome => ?_
  rw [on_aheadIs] at outcome
  cases outcome
  exact ⟨rfl, fun star => ⟨dot, of_decide_eq_true star⟩⟩

theorem selectItem_reads : (selectItem inner).Reads SelectItem.visits := by
  intro spot
  have item : (exprItem inner).Ensures spot fun item later => Read item.visits spot later :=
    exprItem_reads reads spot
  unfold selectItem
  refine .nextIs (fun star => ?_) fun _ => .step (on_peek spot) (.ite (fun _ => ?_) fun _ => item)
  · refine .advance (.nothing spot) (spot.plain_of_kind star) fun read => .pure ?_
    rw [SelectItem.visits]
    exact .node rfl read
  · refine .aheadIs (fun dot => ?_) fun _ => item
    unfold dottedItem
    refine .aheadIs (fun star => tableWildcard_reads dot star) fun _ => ?_
    refine (schemaWildcardFollows_tells spot).bind fun found middle known => ?_
    obtain ⟨rfl, tells⟩ := known
    refine .ite (fun follows => ?_) fun _ => item
    obtain ⟨second, star⟩ := tells follows
    exact schemaWildcard_reads dot second star

theorem fromClause_reads :
    (fromClause inner).Reads fun refs => refs.flatMap TableRef.visits := by
  intro spot
  unfold fromClause
  refine .eat (fun found => ?_) fun _ => .pure (.nothing spot)
  exact .last (.passed (spot.plain_of_kind found)) (tableRefs_reads reads)

theorem selectCore_reads : (selectCore inner).Reads SelectCore.visits := by
  intro spot
  have := reads.lawful
  unfold selectCore
  refine .skip (.nothing spot) fun start _ read => .skip read fun modifiers _ read => ?_
  refine .part read (selectItem_reads reads).commaSeparated fun columns _ read => ?_
  refine .part read (fromClause_reads reads) fun sources _ read => ?_
  refine .part read (whereClause_reads reads) fun filter _ read => ?_
  refine .part read (groupByClause_reads reads) fun groups _ read => ?_
  refine .part read (havingClause_reads reads) fun having _ read => ?_
  refine .skip read fun stop later read => .pure ?_
  rw [SelectCore.visits_eq]
  exact read

/-! ### Queries -/

theorem queryTerm_reads : (queryTerm inner).Reads QueryTerm.visits := by
  intro spot
  unfold queryTerm
  refine .step (on_peek spot) ?_
  split
  · next kind =>
      refine .advance (.nothing spot) (spot.plain_of_kind kind) fun read => ?_
      refine .part read reads.query fun query _ read => .skip read fun _ later read => .pure ?_
      rwa [QueryTerm.visits]
  · refine .part (.nothing spot) (selectCore_reads reads) fun core later read => .pure ?_
    rwa [QueryTerm.visits]
  · exact .fail

theorem queryBody_reads : (queryBody inner).Reads QueryBody.visits := by
  have steps : ∀ compounds start spot,
      Read (compounds.reverse.flatMap fun compound => compound.2.visits) start spot →
      (nextCompound inner compounds).Ensures spot fun found later =>
        Read ((found.getD compounds).reverse.flatMap fun compound => compound.2.visits) start
          later := by
    intro compounds start spot read
    unfold nextCompound
    refine .eat (fun found => ?_) fun _ => .pure read
    refine .skip (read.past (spot.plain_of_kind found)) fun op _ read => ?_
    refine .part read (queryTerm_reads reads) fun term later read => .pure (read.congr ?_)
    simp
  have := reads.lawful
  rw [queryBody_eq]
  intro spot
  refine .skip (.nothing spot) fun start _ read => .part read (queryTerm_reads reads) ?_
  refine fun first _ read => .part read (.whileSome rfl steps) fun compounds _ read => ?_
  refine .skip read fun stop later read => .pure ?_
  rw [QueryBody.visits_eq]
  exact read

theorem commonTable_reads : (commonTable inner).Reads CommonTable.visits := by
  intro spot
  have closing : ∀ (name : Ident) (columns : List Ident) (middle : Spot),
      Read ([.ident name] ++ idents columns) spot middle →
      Ensures (do
        let _ ← expectWord .AS
        let _ ← expectMark .leftParen
        let query ← inner.query
        let stop ← expectMark .rightParen
        return CommonTable.mk name columns query (name.span.merge stop)) middle
        fun table later => Read table.visits spot later := by
    intro name columns middle read
    refine .skip read fun _ _ read => .skip read fun _ _ read => ?_
    refine .part read reads.query fun query _ read => .skip read fun stop later read => .pure ?_
    rw [CommonTable.visits]
    exact read.congr (by simp)
  unfold commonTable
  refine .part (.nothing spot) identifier_reads fun name middle read => ?_
  refine .nextIs (fun _ => ?_) fun _ => ?_
  · exact .part read identsInParens_reads fun columns behind read => closing name columns behind read
  · exact .step (on_pure [] middle) (closing name [] middle (read.congr (by simp [idents])))

theorem withClause_reads :
    (withClause inner).Reads fun found => found.toList.flatMap WithClause.visits := by
  intro spot
  have := reads.lawful
  unfold withClause
  refine .nextIs (fun _ => ?_) fun _ => .pure (.nothing spot)
  refine .skip (.nothing spot) fun start _ read => .skip read fun recursive _ read => ?_
  refine .part read (commonTable_reads reads).commaSeparated fun tables _ read => ?_
  refine .skip read fun stop later read => .pure (read.congr ?_)
  simp [CommonTable.tableVisits_eq]

theorem wholeQuery_reads : (wholeQuery inner).Reads Query.visits := by
  intro spot
  unfold wholeQuery
  refine .skip (.nothing spot) fun start _ read => ?_
  refine .part read (withClause_reads reads) fun withClause _ read => ?_
  refine .part read (queryBody_reads reads) fun body _ read => ?_
  refine .part read (orderByClause_reads reads) fun orderBy _ read => ?_
  refine .part read (limitClause_reads true) fun limit _ read => ?_
  refine .part read lockingClause_reads fun locking _ read => ?_
  refine .skip read fun stop later read => .pure ?_
  rw [Query.visits_eq]
  exact .node rfl read

/-! ### Inserts -/

theorem assignments_reads :
    (assignments inner).Reads fun items => items.flatMap Assignment.visits := by
  have := reads.lawful
  have item : (assignment inner).Reads Assignment.visits := by
    intro spot
    unfold assignment
    refine .part (.nothing spot) columnRef_reads fun column _ read => .skip read fun _ _ read => ?_
    exact .part read (expr_reads reads) fun value later read => .pure read
  exact item.commaSeparated

theorem valueRow_reads : (valueRow inner).Reads Expr.itemVisits := by
  intro spot
  unfold valueRow
  refine .skip (.nothing spot) fun _ middle read => .eat (fun closed => ?_) fun _ => ?_
  · exact .pure (read.past (middle.plain_of_kind closed))
  · refine .part read (exprs_reads reads) fun row _ read => .skip read fun _ later read => .pure ?_
    rw [Expr.itemVisits_eq]
    exact read

omit reads in
instance : insertKind.Silent := by
  unfold insertKind
  infer_instance

omit reads in
theorem insertPriority?_of_payload (form : InsertKind) {kind : TokenKind}
    (payload : kind.isPayload = true) : insertPriority? form kind = none := by
  cases kind <;> first | rfl | cases payload

omit reads in
instance (kind : InsertKind) : (insertPriority kind).Silent where
  reads spot := by
    unfold insertPriority
    refine .step (on_peek spot) ?_
    split
    · next priority found =>
        have plain := spot.plain_of_choice (insertPriority?_of_payload kind) found
        exact .advance (.nothing spot) plain fun read => .pure read
    · exact .pure (.nothing spot)

omit reads in
instance (kind : InsertKind) (word : Keyword) : (eatInsertWord kind word).Silent := by
  unfold eatInsertWord
  infer_instance

omit reads in
theorem insertColumns_reads : insertColumns.Reads idents := by
  intro spot
  unfold insertColumns
  refine .nextIs (fun _ => .step (on_peekAhead spot 1) (.ite (fun _ => ?_) fun _ => ?_)) fun _ => ?_
  · exact .pure (.nothing spot)
  · exact identsInParensOrNone_reads spot
  · exact .pure (.nothing spot)

theorem insertRows_reads : (insertRows inner).Reads InsertSource.visits := by
  intro spot
  have := reads.lawful
  have rows : ∀ {word : Keyword}, spot.kind = .keyword word → Ensures (do
      let _ ← advance
      return InsertSource.values (← commaSeparated (valueRow inner))) spot
      fun source later => Read source.visits spot later := by
    intro word kind
    refine .advance (.nothing spot) (spot.plain_of_kind kind) fun read => ?_
    exact .part read (valueRow_reads reads).commaSeparated fun rows later read => .pure read
  unfold insertRows
  refine .step (on_peek spot) ?_
  split
  · next kind => exact rows kind
  · next kind => exact rows kind
  · refine .ite (fun _ => ?_) fun _ => .fail
    exact .part (.nothing spot) reads.query fun query later read => .pure read

theorem insertSource_reads :
    (insertSource inner).Reads fun found => idents found.1 ++ found.2.visits := by
  intro spot
  unfold insertSource
  refine .eat (fun found => ?_) fun _ => ?_
  · refine .part (.passed (spot.plain_of_kind found)) (assignments_reads reads) ?_
    exact fun items later read => .pure read
  · refine .part (.nothing spot) insertColumns_reads fun columns _ read => ?_
    exact .part read (insertRows_reads reads) fun source later read => .pure read

theorem onDuplicate_reads (kind : InsertKind) :
    (onDuplicate inner kind).Reads fun items => items.flatMap Assignment.visits := by
  intro spot
  unfold onDuplicate
  refine .skip (.nothing spot) fun found middle read => .ite (fun _ => ?_) fun _ => .pure read
  refine .skip read fun _ _ read => .skip read fun _ _ read => .skip read fun _ _ read => ?_
  exact .last read (assignments_reads reads)

theorem insert_reads : (insert inner).Reads Insert.visits := by
  intro spot
  unfold insert
  refine .skip (.nothing spot) fun start _ read => .skip read fun kind _ read => ?_
  refine .skip read fun priority _ read => .skip read fun ignore _ read => ?_
  refine .skip read fun _ _ read => .part read tableName_reads fun table _ read => ?_
  refine .part read partitions_reads fun partitions _ read => ?_
  refine .part read (insertSource_reads reads) fun source _ read => ?_
  refine .part read (onDuplicate_reads reads kind) fun onDuplicate _ read => ?_
  refine .skip read fun stop later read => .pure (read.congr ?_)
  simp [Insert.visits]

/-! ### Updates -/

omit reads in
instance (options : Bool × Bool) : (nextUpdateOption options).Silent := by
  unfold nextUpdateOption
  infer_instance

omit reads in
instance : updateOptions.Silent := by
  rw [updateOptions_eq]
  exact silent_whileSome nextUpdateOption (false, false)

theorem update_reads : (update inner).Reads Update.visits := by
  intro spot
  unfold update
  refine .skip (.nothing spot) fun start _ read => .skip read fun options _ read => ?_
  refine .part read (tableRefs_reads reads) fun tables _ read => .skip read fun _ _ read => ?_
  refine .part read (assignments_reads reads) fun assignments _ read => ?_
  refine .part read (whereClause_reads reads) fun filter _ read => ?_
  refine .part read (orderByClause_reads reads) fun orderBy _ read => ?_
  refine .part read (limitClause_reads false) fun limit _ read => ?_
  refine .skip read fun stop later read => .pure (read.congr ?_)
  simp [Update.visits, tailVisits, TableRef.refVisits_eq, OrderingTerm.termVisits_eq]

/-! ### Deletes -/

omit reads in
theorem addDeleteOption_of_payload (options : DeleteOptions) {kind : TokenKind}
    (payload : kind.isPayload = true) : addDeleteOption options kind = none := by
  cases kind <;> first | rfl | cases payload

omit reads in
instance (options : DeleteOptions) : (nextDeleteOption options).Silent where
  reads spot := by
    unfold nextDeleteOption
    refine .step (on_peek spot) ?_
    split
    · next more found =>
        have plain := spot.plain_of_choice (addDeleteOption_of_payload options) found
        exact .advance (.nothing spot) plain fun read => .pure read
    · exact .pure (.nothing spot)

omit reads in
instance : deleteOptions.Silent := by
  rw [deleteOptions_eq]
  exact silent_whileSome nextDeleteOption {}

omit reads in
theorem deleteTarget_reads : deleteTarget.Reads TableName.visits := by
  intro spot
  unfold deleteTarget
  refine .part (.nothing spot) tableName_reads fun target middle read => ?_
  refine .nextIs (fun dot => .aheadIs (fun star => ?_) fun _ => .pure read) fun _ => .pure read
  have starNext : middle.next.kind = .punct .star := by rw [Spot.kind, Spot.next_token, star]
  refine .advance read (middle.plain_of_kind dot) fun read => ?_
  exact .advance read (Spot.plain_of_kind starNext) fun read => .pure read

omit reads in
theorem deleteTargets_reads :
    deleteTargets.Reads fun names => names.flatMap TableName.visits :=
  deleteTarget_reads.commaSeparated

omit reads in
/-- Two lists of names may stand in either order. -/
theorem read_swap {left right : List Ident} {spot later : Spot}
    (read : Read (idents left ++ idents right) spot later) :
    Read (idents right ++ idents left) spot later := by
  refine .swap (fun visit member => ?_) read
  simp only [idents, List.mem_append, List.mem_map] at member
  rcases member with ⟨name, _, rfl⟩ | ⟨name, _, rfl⟩ <;> rfl

omit reads in
theorem deleteTable_reads : deleteTable.Reads NamedTable.visits := by
  intro spot
  unfold deleteTable
  refine .part (.nothing spot) tableName_reads fun name _ read => ?_
  refine .part read partitions_reads fun before middle read => ?_
  refine (aliasName_reads middle).bind fun aliasName behind named => .ite (fun empty => ?_) ?_
  · -- the partitions stand behind the alias
    have none_ : before = [] := List.isEmpty_iff.mp empty
    refine (partitions_reads behind).bind fun partitions last listed => ?_
    have swapped := read.append (read_swap (named.append listed))
    refine .skip swapped fun stop later read => .pure (read.congr ?_)
    simp [NamedTable.visits, none_, idents]
  · intro _
    refine .step (on_pure before behind) ?_
    refine .skip (read.append named) fun stop later read => .pure (read.congr ?_)
    simp [NamedTable.visits]

theorem deleteUsing_reads :
    (deleteUsing inner).Reads fun found => found.1.flatMap TableName.visits ++ found.2.visits := by
  intro spot
  unfold deleteUsing
  refine .part (.nothing spot) deleteTargets_reads fun targets _ read => ?_
  refine .skip read fun _ _ read => .part read (tableRefs_reads reads) fun tables later read => ?_
  refine .pure (read.congr ?_)
  simp [DeleteSource.visits, TableRef.refVisits_eq]

theorem deleteSource_reads :
    (deleteSource inner).Reads fun found =>
      found.1.flatMap TableName.visits ++ found.2.visits := by
  intro spot
  have := reads.lawful
  unfold deleteSource
  refine .eat (fun found => ?_) fun _ => ?_
  · have past := Read.passed (spot.plain_of_kind found)
    refine .attempt (deleteUsing_reads reads spot.next) ?_ ?_
    · exact fun form later read => .pure (past.append read)
    · exact .part past deleteTable_reads fun table later read => .pure read
  · refine .part (.nothing spot) deleteTargets_reads fun targets _ read => ?_
    refine .skip read fun _ _ read => .part read (tableRefs_reads reads) ?_
    refine fun tables later read => .pure (read.congr ?_)
    simp [DeleteSource.visits, TableRef.refVisits_eq]

theorem deleteTail_reads (source : DeleteSource) :
    (deleteTail inner source).Reads fun tail =>
      tail.1.flatMap OrderingTerm.visits ++ tail.2.toList.flatMap LimitClause.visits := by
  intro spot
  unfold deleteTail
  split
  · refine .part (.nothing spot) (orderByClause_reads reads) fun orderBy _ read => ?_
    exact .part read (limitClause_reads false) fun limit later read => .pure read
  · exact .pure (.nothing spot)

theorem delete_reads : (delete inner).Reads Delete.visits := by
  intro spot
  unfold delete
  refine .skip (.nothing spot) fun start _ read => .skip read fun options _ read => ?_
  refine .part read (deleteSource_reads reads) fun source _ read => ?_
  refine .part read (whereClause_reads reads) fun filter _ read => ?_
  refine .part read (deleteTail_reads reads source.2) fun tail _ read => ?_
  refine .skip read fun stop later read => .pure (read.congr ?_)
  simp [Delete.visits, tailVisits, OrderingTerm.termVisits_eq]

/-! ### Whole sources -/

theorem statement_reads : (statement inner).Reads Statement.visits := by
  intro spot
  unfold statement
  refine .step (on_peek spot) ?_
  split
  · exact .part (.nothing spot) (insert_reads reads) fun tree later read => .pure (.node rfl read)
  · exact .part (.nothing spot) (insert_reads reads) fun tree later read => .pure (.node rfl read)
  · exact .part (.nothing spot) (update_reads reads) fun tree later read => .pure (.node rfl read)
  · exact .part (.nothing spot) (delete_reads reads) fun tree later read => .pure (.node rfl read)
  · refine .ite (fun _ => ?_) fun _ => .fail
    exact .part (.nothing spot) reads.query fun tree later read => .pure (.node rfl read)

omit reads in
/-- At every nesting limit. -/
theorem innerAt_reads (levels : Nat) : (innerAt levels).Reads := by
  induction levels with
  | zero =>
      refine ⟨inferInstance, fun power => ?_, ?_, ?_⟩
      · rw [operand_zero]
        exact fun _ => .tooDeep
      · rw [query_zero]
        exact fun _ => .tooDeep
      · rw [tableInParens_zero]
        exact fun _ => .tooDeep
  | succ levels inductionHypothesis =>
      refine ⟨inferInstance, fun power => ?_, ?_, ?_⟩
      · rw [operand_succ]
        exact fun spot => .enter (operandBody_reads inductionHypothesis power spot)
      · rw [query_succ]
        exact fun spot => .enter (wholeQuery_reads inductionHypothesis spot)
      · rw [tableInParens_succ]
        exact fun spot => .enter (tableInParensBody_reads inductionHypothesis spot)

end Rule

open Rule

variable {source : String} {settings : Settings}

/-- A parsed statement is read from all tokens of its source. -/
theorem read_of_parseStatement {parsed : ParsedStatement}
    (accepted : parseStatement source settings = .ok parsed) :
    ∃ later, Read parsed.statement.visits (Spot.ofSource source settings) later ∧
      later.ahead = [] := by
  obtain ⟨_, ⟨later, outcome, all⟩, _⟩ := (parseStatement_eq_ok source settings).mp accepted
  have reads : (statementTokens settings.maxDepth).Reads Statement.visits := by
    intro spot
    unfold statementTokens
    refine .part (.nothing spot) (statement_reads (innerAt_reads _)) fun tree _ read => ?_
    exact .skip read fun _ later read => .pure read
  exact ⟨later, (reads _).on outcome, all⟩

/-- A parsed expression is read from all tokens of its source. -/
theorem read_of_parseExpression {expr : Expr}
    (accepted : parseExpression source settings = .ok expr) :
    ∃ later, Read expr.visits (Spot.ofSource source settings) later ∧ later.ahead = [] := by
  obtain ⟨_, later, outcome, all⟩ := (parseExpression_eq_ok source settings).mp accepted
  exact ⟨later, (expr_reads (innerAt_reads _) _).on outcome, all⟩

end SqlDml
