import SqlDml.Proofs.Markers.Trees

/-!
Contract: every rule numbers the parameter markers of its tree without a gap.

Owns:
- the markers of expressions, tables, queries and statements that rules read;
- the limit with its offset in front, the only place where two markers change their order.

Does not own: what the order means for the text of a statement.
-/

namespace SqlDml

open MarkerTrace hiding none

/-- Rules for one nesting level deeper that number the markers of what they read. -/
structure InnerRules.Traces (inner : InnerRules) : Prop where
  operand : ∀ power, (inner.operand power).Traces .none Expr.markers
  query : inner.query.Traces .none Query.markers
  tableInParens : inner.tableInParens.Traces .none TableRef.markers

theorem InnerRules.Traces.lawful {inner : InnerRules} (traces : inner.Traces) : inner.Lawful :=
  ⟨fun power => (traces.operand power).lawful, traces.query.lawful, traces.tableInParens.lawful⟩

namespace Rule

variable {inner : InnerRules} (traces : inner.Traces)

include traces

/-! ### Behind an operand -/

theorem expr_traces : inner.expr.Traces .none Expr.markers := traces.operand 0

theorem exprs_traces : (exprs inner).Traces .none Expr.itemMarkers :=
  (expr_traces traces).commaSeparated

theorem queryInParens_traces : (queryInParens inner).Traces .none fun found => found.1.markers := by
  unfold queryInParens
  refine .skip fun start => .bind traces.query fun query => .skip fun stop => .pure ?_
  simp

theorem subquery_traces : (subquery inner).Traces .none Expr.markers := by
  unfold subquery
  refine .bind (queryInParens_traces traces) fun found => .pure ?_
  simp

theorem comparison_traces (left : Expr) (op : BinaryOp) :
    (comparison inner left op).Traces left.markers Expr.markers := by
  unfold comparison
  have plain : Rule.Traces (do return Expr.ofOperands left op (← inner.operand (op.power + 1)))
      left.markers Expr.markers :=
    .bind (traces.operand _) fun right => .pure (by simp)
  refine .skip fun kind => ?_
  split
  · exact plain
  · refine .skip fun follows => .ite ?_ plain
    refine .skip fun _ => .skip fun _ => .bind traces.query fun query => .skip fun stop => .pure ?_
    simp

omit traces in
theorem isTest_traces (left : Expr) : (isTest left).Traces left.markers Expr.markers := by
  unfold isTest
  refine .skip fun negated => .skip fun kind => ?_
  split
  · exact .skip fun stop => .pure (by simp)
  · exact .fail

theorem inSet_traces : (inSet inner).Traces .none InSet.markers := by
  have query : Rule.Traces (do return InSet.subquery (← inner.query)) .none InSet.markers :=
    .bind traces.query fun query => .pure (by simp)
  have items : Rule.Traces (do return InSet.list (← exprs inner)) .none InSet.markers :=
    .bind (exprs_traces traces) fun items => .pure (by simp)
  have beforeParen : (queryBeforeParen inner).Traces .none Query.markers := by
    unfold queryBeforeParen
    exact .bind traces.query fun query => .skip fun closes => .ite (.pure (by simp)) .fail
  unfold inSet
  refine .skip fun kind => ?_
  split
  · exact query
  · exact query
  · refine .bind beforeParen.attempt fun found => ?_
    cases found with
    | some query => exact .pure (by simp)
    | none => simpa using items
  · exact items

theorem inTest_traces (left : Expr) (negated : Bool) :
    (inTest inner left negated).Traces left.markers Expr.markers := by
  unfold inTest
  refine .skip fun _ => .bind (inSet_traces traces) fun set => .skip fun stop => .pure ?_
  simp

theorem betweenTest_traces (left : Expr) (negated : Bool) :
    (betweenTest inner left negated).Traces left.markers Expr.markers := by
  unfold betweenTest
  refine .bind (traces.operand _) fun low => .skip fun _ => ?_
  exact .bind (traces.operand _) fun high => .pure (by simp)

theorem escapeOperand_traces (op : LikeOp) :
    (escapeOperand inner op).Traces .none Expr.optionalMarkers := by
  unfold escapeOperand
  split
  · exact .pure rfl
  · refine .skip fun escapes => .ite ?_ (.pure rfl)
    exact .bind (traces.operand _) fun escape => .pure (by simp)

theorem likeTest_traces (left : Expr) (op : LikeOp) (negated : Bool) :
    (likeTest inner left op negated).Traces left.markers Expr.markers := by
  unfold likeTest
  refine .bind (traces.operand _) fun pattern => ?_
  exact .bind (escapeOperand_traces traces op) fun escape => .pure (by simp)

omit traces in
theorem collate_traces (left : Expr) : (collate left).Traces left.markers Expr.markers := by
  unfold collate
  exact .skip fun _ => .skip fun collation => .pure (by simp)

theorem continueWith_traces (left : Expr) (continuation : Continuation) :
    (continueWith inner left continuation).Traces left.markers Expr.markers := by
  unfold continueWith
  refine .skip fun _ => ?_
  cases continuation with
  | operator op => exact .bind (traces.operand _) fun right => .pure (by simp)
  | comparison op => exact comparison_traces traces left op
  | is => exact isTest_traces left
  | isIn negated => exact inTest_traces traces left negated
  | between negated => exact betweenTest_traces traces left negated
  | like op negated => exact likeTest_traces traces left op negated
  | soundsLike => exact .bind (traces.operand _) fun pattern => .pure (by simp)

theorem extendOperand_traces (power : Nat) (left : Expr) :
    (extendOperand inner power left).Traces left.markers fun found =>
      (found.getD left).markers := by
  unfold extendOperand
  refine .skip fun collates => .ite (.ite ?_ (.pure rfl)) (.skip fun found => ?_)
  · exact .bind_map (collate_traces left)
  · cases found with
    | none => exact .pure rfl
    | some continuation => exact .ite (.bind_map (continueWith_traces traces _ _)) (.pure rfl)

/-! ### Calls, casts and cases -/

theorem callArguments_traces (function : Ident) :
    (callArguments inner function).Traces .none Expr.markers := by
  unfold callArguments
  refine .skip fun _ => .skip fun star => .ite (.skip fun stop => .pure (by simp)) ?_
  refine .skip fun distinct => ?_
  have noItems : (pure [] : Rule (List Expr)).Traces .none Expr.itemMarkers := .pure rfl
  have closing : ∀ items : List Expr, Rule.Traces (do
      let stop ← expectMark .rightParen
      return Expr.call function (.list items) distinct (function.span.merge stop))
      (.none ++ Expr.itemMarkers items) Expr.markers :=
    fun items => .skip fun stop => .pure (by simp)
  exact .ite
    (.skip fun _ => .ite (.bind noItems closing) (.bind (exprs_traces traces) closing))
    (.skip fun _ => .ite (.bind noItems closing) (.bind (exprs_traces traces) closing))

theorem keywordCall_traces : (keywordCall inner).Traces .none Expr.markers := by
  unfold keywordCall
  exact .skip fun function => callArguments_traces traces function

theorem nameExpr_traces : (nameExpr inner).Traces .none Expr.markers := by
  unfold nameExpr
  refine .skip fun calls => .ite ?_ ?_
  · exact .skip fun function => callArguments_traces traces function
  · exact .skip fun ref => .pure (by simp)

theorem castExpr_traces : (castExpr inner).Traces .none Expr.markers := by
  unfold castExpr
  refine .skip fun start => .skip fun _ => .bind (expr_traces traces) fun operand => ?_
  exact .skip fun _ => .skip fun target => .skip fun stop => .pure (by simp)

theorem whenBranches_traces :
    (whenBranches inner).Traces .none fun whens => .joined (whens.map Expr.whenMarkers) := by
  have steps : ∀ whens, (nextWhen inner whens).Traces
      (.joined (whens.reverse.map Expr.whenMarkers))
      fun found => .joined ((found.getD whens).reverse.map Expr.whenMarkers) := by
    intro whens
    unfold nextWhen
    refine .skip fun found => .ite ?_ (.pure rfl)
    refine .bind (expr_traces traces) fun condition => .skip fun _ => ?_
    refine .bind (expr_traces traces) fun result => .pure ?_
    simp [joined_append, joined, Expr.whenMarkers, append_assoc]
  have := traces.lawful
  rw [whenBranches_eq]
  exact .bind (Traces.whileSome steps []) fun whens => .pure (by simp)

theorem caseExpr_traces : (caseExpr inner).Traces .none Expr.markers := by
  have noOperand : (pure none : Rule (Option Expr)).Traces .none Expr.optionalMarkers := .pure rfl
  have operand : Rule.Traces (some <$> inner.expr) .none Expr.optionalMarkers :=
    .bind_map (expr_traces traces)
  have closing : ∀ (start : Span) (subject : Option Expr) (whens : List (Expr × Expr))
      (otherwise : Option Expr), Rule.Traces (do
        let stop ← expectWord .END
        return Expr.case subject whens otherwise (start.merge stop))
      (.none ++ Expr.optionalMarkers subject ++ .joined (whens.map Expr.whenMarkers) ++
        Expr.optionalMarkers otherwise) Expr.markers :=
    fun _ _ _ _ => .skip fun stop => .pure (by simp)
  have branches : ∀ (start : Span) (subject : Option Expr), Rule.Traces (do
      let whens ← whenBranches inner
      if whens.isEmpty then
        fail [Keyword.WHEN.spelling]
      else
        let otherwise ← if ← eatWord .ELSE then some <$> inner.expr else pure none
        let stop ← expectWord .END
        return Expr.case subject whens otherwise (start.merge stop))
      (.none ++ Expr.optionalMarkers subject) Expr.markers := by
    intro start subject
    refine .bind (whenBranches_traces traces) fun whens => .ite .fail (.skip fun otherwise => ?_)
    exact .ite (.bind operand (closing _ _ _)) (.bind noOperand (closing _ _ _))
  unfold caseExpr
  refine .skip fun start => .skip fun bare => ?_
  exact .ite (.bind noOperand (branches start)) (.bind operand (branches start))

/-! ### In front of an operand -/

theorem unaryExpr_traces (op : UnaryOp) (power : Nat) :
    (unaryExpr inner op power).Traces .none Expr.markers := by
  unfold unaryExpr
  exact .skip fun start => .bind (traces.operand power) fun operand => .pure (by simp)

theorem existsExpr_traces : (existsExpr inner).Traces .none Expr.markers := by
  unfold existsExpr
  refine .skip fun start => .skip fun _ => .bind traces.query fun query => ?_
  exact .skip fun stop => .pure (by simp)

theorem rowExpr_traces : (rowExpr inner).Traces .none Expr.markers := by
  unfold rowExpr
  refine .skip fun start => .skip fun _ => .bind (exprs_traces traces) fun items => ?_
  exact .skip fun stop => .pure (by simp)

theorem exprInParens_traces : (exprInParens inner).Traces .none Expr.markers := by
  unfold exprInParens
  refine .skip fun start => .bind (expr_traces traces) fun first => .skip fun row => .ite ?_ ?_
  · exact .bind (exprs_traces traces) fun others => .skip fun stop => .pure (by simp)
  · exact .skip fun stop => .pure (by simp)

theorem parenExpr_traces : (parenExpr inner).Traces .none Expr.markers := by
  unfold parenExpr
  refine .skip fun kind => ?_
  split
  · exact subquery_traces traces
  · exact subquery_traces traces
  · refine .bind (subquery_traces traces).attempt fun found => ?_
    cases found with
    | some expr => exact .pure (by simp)
    | none => simpa using exprInParens_traces traces
  · exact exprInParens_traces traces

theorem keywordExpr_traces (word : Keyword) : (keywordExpr inner word).Traces .none Expr.markers := by
  unfold keywordExpr
  have asName : Rule.Traces (if word.isNonreserved then nameExpr inner else fail ["expression"])
      .none Expr.markers := .ite (nameExpr_traces traces) .fail
  exact .ite (.skip fun calls => .ite (keywordCall_traces traces) asName) asName

theorem temporalExpr_traces (word : Keyword) (kind : TemporalKind) :
    (temporalExpr inner word kind).Traces .none Expr.markers := by
  unfold temporalExpr temporalLiteral
  refine .skip fun next => .ite ?_ (keywordExpr_traces traces word)
  exact .skip fun start => .skip fun read => .pure (by simp)

omit traces in
theorem currentTimestamp_traces : currentTimestamp.Traces .none Expr.markers := by
  unfold currentTimestamp
  refine .skip fun start => .skip fun parens => .ite ?_ ?_
  · exact .skip fun _ => .skip fun stop => .pure (by simp)
  · exact .skip fun stop => .pure (by simp)

theorem currentTimestampExpr_traces : (currentTimestampExpr inner).Traces .none Expr.markers := by
  unfold currentTimestampExpr
  refine .skip fun parens => .ite (.skip fun empty => ?_) currentTimestamp_traces
  exact .ite currentTimestamp_traces (keywordCall_traces traces)

theorem defaultExpr_traces : (defaultExpr inner).Traces .none Expr.markers := by
  unfold defaultExpr
  refine .skip fun calls => .ite (keywordExpr_traces traces _) ?_
  exact .skip fun token => .pure (by simp)

theorem wordExpr_traces (text : String) : (wordExpr inner text).Traces .none Expr.markers := by
  unfold wordExpr introducedLiteral
  refine .skip fun next => .ite ?_ (nameExpr_traces traces)
  split
  · exact .skip fun word => .skip fun value => .skip fun stop => .pure (by simp)
  · exact nameExpr_traces traces

omit traces in
theorem placeholder_traces : placeholder.Traces .none Expr.markers := by
  unfold placeholder
  exact .skip fun token => .bind .nextPlaceholder fun index => .pure (by simp)

omit traces in
theorem tokenLiteral_traces (value : Literal) : (tokenLiteral value).Traces .none Expr.markers := by
  unfold tokenLiteral
  exact .skip fun token => .pure (by simp)

omit traces in
theorem odbcLiteral_traces : odbcLiteral.Traces .none Expr.markers := by
  unfold odbcLiteral
  refine .skip fun start => .skip fun kind => .skip fun next => .ite ?_ .fail
  exact .skip fun value => .skip fun stop => .pure (by simp)

theorem primaryExpr_traces : (primaryExpr inner).Traces .none Expr.markers := by
  unfold primaryExpr
  refine .skip fun kind => ?_
  split
  · exact tokenLiteral_traces _
  · exact tokenLiteral_traces _
  · exact .skip fun value => .pure (by simp)
  · exact tokenLiteral_traces _
  · exact tokenLiteral_traces _
  · exact wordExpr_traces traces _
  · exact nameExpr_traces traces
  · exact placeholder_traces
  · exact odbcLiteral_traces
  · exact unaryExpr_traces traces _ _
  · exact unaryExpr_traces traces _ _
  · exact unaryExpr_traces traces _ _
  · exact unaryExpr_traces traces _ _
  · exact parenExpr_traces traces
  · exact unaryExpr_traces traces _ _
  · exact unaryExpr_traces traces _ _
  · exact tokenLiteral_traces _
  · exact tokenLiteral_traces _
  · exact tokenLiteral_traces _
  · exact temporalExpr_traces traces _ _
  · exact temporalExpr_traces traces _ _
  · exact temporalExpr_traces traces _ _
  · exact currentTimestampExpr_traces traces
  · exact defaultExpr_traces traces
  · exact existsExpr_traces traces
  · exact castExpr_traces traces
  · exact caseExpr_traces traces
  · exact .skip fun calls => .ite (rowExpr_traces traces) .fail
  · exact keywordExpr_traces traces _
  · exact .fail
  · exact .fail

theorem operandBody_traces (power : Nat) :
    (operandBody inner power).Traces .none Expr.markers := by
  have := traces.lawful
  unfold operandBody
  refine .bind (primaryExpr_traces traces) fun first => ?_
  rw [MarkerTrace.none_append]
  exact .whileSome (extendOperand_traces traces power) first

/-! ### Tables -/

theorem onCondition_traces : (onCondition inner).Traces .none JoinCondition.markers := by
  unfold onCondition
  refine .skip fun found => .ite ?_ (.pure rfl)
  exact .bind (expr_traces traces) fun condition => .pure (by simp)

theorem onOrUsing_traces : (onOrUsing inner).Traces .none JoinCondition.markers := by
  unfold onOrUsing
  refine .bind (onCondition_traces traces) fun found => ?_
  cases found with
  | some condition => exact .pure (by simp)
  | none => exact .skip fun found => .ite (.skip fun columns => .pure (by simp)) (.pure rfl)

theorem joinCondition_traces (join : JoinType) :
    (joinCondition inner join).Traces .none JoinCondition.markers := by
  unfold joinCondition
  refine .ite (.pure rfl) (.ite (onCondition_traces traces) ?_)
  refine .bind (onOrUsing_traces traces) fun found => ?_
  cases found with
  | some condition => exact .pure (by simp)
  | none => exact .ite .fail (.pure rfl)

theorem tableFactor_traces : (tableFactor inner).Traces .none TableRef.markers := by
  unfold tableFactor
  refine .skip fun parens => .ite traces.tableInParens ?_
  exact .skip fun table => .pure (by simp)

theorem extendJoin_traces (left : TableRef) :
    (extendJoin inner left).Traces left.markers fun found => (found.getD left).markers := by
  unfold extendJoin
  refine .skip fun found => ?_
  cases found with
  | none => exact .pure rfl
  | some join =>
      refine .bind (tableFactor_traces traces) fun right => ?_
      refine .bind (joinCondition_traces traces join) fun condition => .skip fun stop => .pure ?_
      simp

theorem tableRef_traces : (tableRef inner).Traces .none TableRef.markers := by
  have := traces.lawful
  unfold tableRef
  refine .bind (tableFactor_traces traces) fun first => ?_
  rw [MarkerTrace.none_append]
  exact .whileSome (extendJoin_traces traces) first

theorem tableRefs_traces :
    (tableRefs inner).Traces .none fun refs => .joined (refs.map TableRef.markers) :=
  (tableRef_traces traces).commaSeparated

theorem derivedTable_traces (start : Span) :
    (derivedTable inner start).Traces .none TableRef.markers := by
  unfold derivedTable
  refine .skip fun _ => .bind traces.query fun query => .skip fun _ => .skip fun found => ?_
  cases found with
  | some name => exact .skip fun stop => .pure (by simp)
  | none => exact .fail

theorem tableRefsInParens_traces (start : Span) :
    (tableRefsInParens inner start).Traces .none TableRef.markers := by
  unfold tableRefsInParens
  refine .skip fun _ => .bind (tableRefs_traces traces) fun refs => .skip fun stop => .pure ?_
  simp

theorem tableInParensBody_traces : (tableInParensBody inner).Traces .none TableRef.markers := by
  unfold tableInParensBody
  refine .skip fun start => .skip fun kind => .ite ?_ (tableRefsInParens_traces traces start)
  refine .bind (derivedTable_traces traces start).attempt fun found => ?_
  cases found with
  | some derived => exact .pure (by simp)
  | none => simpa using tableRefsInParens_traces traces start

/-! ### Clauses -/

theorem whereClause_traces : (whereClause inner).Traces .none Expr.optionalMarkers := by
  unfold whereClause
  refine .skip fun found => .ite ?_ (.pure rfl)
  exact .bind (expr_traces traces) fun condition => .pure (by simp)

theorem havingClause_traces : (havingClause inner).Traces .none Expr.optionalMarkers := by
  unfold havingClause
  refine .skip fun found => .ite ?_ (.pure rfl)
  exact .bind (expr_traces traces) fun condition => .pure (by simp)

theorem orderingTerms_traces : (orderingTerms inner).Traces .none OrderingTerm.markers := by
  have term : (orderingTerm inner).Traces .none fun term => term.expr.markers := by
    unfold orderingTerm
    refine .bind (expr_traces traces) fun expr => .skip fun direction => ?_
    cases direction with
    | some direction => exact .skip fun stop => .pure (by simp)
    | none => exact .pure (by simp)
  exact term.commaSeparated

theorem orderByClause_traces : (orderByClause inner).Traces .none OrderingTerm.markers := by
  unfold orderByClause
  refine .skip fun found => .ite ?_ (.pure rfl)
  exact .skip fun _ => orderingTerms_traces traces

theorem groupByClause_traces :
    (groupByClause inner).Traces .none fun groups => OrderingTerm.markers groups.1 := by
  unfold groupByClause
  refine .skip fun found => .ite ?_ (.pure rfl)
  refine .skip fun _ => .bind (orderingTerms_traces traces) fun terms => ?_
  exact .skip fun rollup => .pure (by simp)

omit traces in
theorem limitOperand_traces : limitOperand.Traces .none Expr.markers := by
  unfold limitOperand
  refine .skip fun kind => ?_
  split
  · exact tokenLiteral_traces _
  · exact placeholder_traces
  · exact .fail

omit traces in
/-- A number of a limit is a literal or the next marker. -/
theorem on_limitOperand {spot later : Spot} {expr : Expr}
    (outcome : limitOperand.on spot = .done expr later) :
    (∃ value span, expr = .literal value span ∧ later.markers = spot.markers) ∨
      ∃ span, expr = .placeholder spot.markers span ∧ later.markers = spot.markers + 1 := by
  unfold limitOperand at outcome
  rw [on_bind_of, on_peek, Outcome.bind_done] at outcome
  · split at outcome
    · simp only [tokenLiteral, on_bind, on_advance, Outcome.bind_done, on_pure] at outcome
      cases outcome
      exact .inl ⟨_, _, rfl, rfl⟩
    · simp only [placeholder, on_bind, on_advance, Outcome.bind_done, on_pure,
        on_nextPlaceholder] at outcome
      cases outcome
      exact .inr ⟨_, rfl, rfl⟩
    · simp at outcome
  · intro kind
    split <;> infer_instance

omit traces in
theorem on_limitNumbers (spot : Spot) :
    limitNumbers.on spot = (limitOperand.on spot).bind fun first middle =>
      if middle.kind = .punct .comma then
        (limitOperand.on middle.next).bind fun count later => .done (count, some first) later
      else if middle.kind = .keyword .OFFSET then
        (limitOperand.on middle.next).bind fun offset later => .done (first, some offset) later
      else .done (first, none) middle := by
  simp [limitNumbers, on_ite, Outcome.ite_bind]

omit traces in
/-- Two numbers of a limit, in the order of the source: the markers among them are reversed exactly
if there are two and the offset stands in front. -/
theorem numbered_of_numbers {spot middle later : Spot} {first second : Expr} (span : Span)
    (readFirst : limitOperand.on spot = .done first middle)
    (readSecond : limitOperand.on middle.next = .done second later) :
    (LimitClause.markers (some ⟨second, some first, span⟩)).Numbered
        spot.markers later.markers ∧
      (LimitClause.markers (some ⟨first, some second, span⟩)).Numbered
        spot.markers later.markers := by
  rcases on_limitOperand readFirst with ⟨value, place, rfl, front⟩ | ⟨place, rfl, front⟩ <;>
    rcases on_limitOperand readSecond with ⟨other, spot, rfl, back⟩ | ⟨spot, rfl, back⟩ <;>
    rw [Spot.next_markers, front] at back <;>
    rw [LimitClause.markers_some, LimitClause.markers_some, back] <;>
    refine ⟨⟨?_, ?_⟩, ⟨?_, ?_⟩⟩ <;>
    simp [LimitClause.reversesMarkers, MarkerTrace.none, front, List.range'_succ]

omit traces in
/-- A limit without offset. -/
theorem numbered_of_count {spot later : Spot} {count : Expr} (span : Span)
    (read : limitOperand.on spot = .done count later) :
    (LimitClause.markers (some ⟨count, none, span⟩)).Numbered spot.markers later.markers := by
  obtain ⟨front, same, numbered⟩ := limitOperand_traces.numbered _ _ _ read
  have unreversed : LimitClause.reversesMarkers ⟨count, none, span⟩ = false := by
    unfold LimitClause.reversesMarkers
    split <;> simp_all
  rw [LimitClause.markers_some, unreversed, Expr.optionalMarkers_none, append_none, same,
    none_append]
  exact numbered.append (.none _)

omit traces in
/-- The markers of a limit are numbered without a gap, whatever the order of its numbers. -/
theorem numbered_of_limitNumbers {spot later : Spot} {numbers : Expr × Option Expr} (span : Span)
    (outcome : limitNumbers.on spot = .done numbers later) :
    (LimitClause.markers (some ⟨numbers.1, numbers.2, span⟩)).Numbered
      spot.markers later.markers := by
  rw [on_limitNumbers] at outcome
  obtain ⟨first, middle, readFirst, outcome⟩ := Outcome.bind_eq_done.mp outcome
  split at outcome
  · obtain ⟨count, last, readCount, finished⟩ := Outcome.bind_eq_done.mp outcome
    cases finished
    exact (numbered_of_numbers span readFirst readCount).1
  · split at outcome
    · obtain ⟨offset, last, readOffset, finished⟩ := Outcome.bind_eq_done.mp outcome
      cases finished
      exact (numbered_of_numbers span readFirst readOffset).2
    · cases outcome
      exact numbered_of_count span readFirst

omit traces in
theorem on_limitClause (allowOffset : Bool) (spot : Spot) :
    (limitClause allowOffset).on spot =
      if spot.kind = .keyword .LIMIT then
        (if allowOffset then limitNumbers.on spot.next
          else (limitOperand.on spot.next).bind fun count later => .done (count, none) later).bind
          fun numbers later => .done
            (some ⟨numbers.1, numbers.2, (spot.token 0).span.merge later.last⟩) later
      else .done none spot := by
  by_cases limited : spot.kind = .keyword .LIMIT <;> cases allowOffset <;>
    simp [limitClause, limited, on_ite, Outcome.bind_assoc]

omit traces in
theorem limitClause_traces (allowOffset : Bool) :
    (limitClause allowOffset).Traces .none LimitClause.markers where
  lawful := inferInstance
  numbered spot later limit outcome := by
    rw [on_limitClause] at outcome
    split at outcome
    · obtain ⟨numbers, middle, read, finished⟩ := Outcome.bind_eq_done.mp outcome
      cases finished
      refine ⟨_, (none_append _).symm, ?_⟩
      rw [← Spot.next_markers]
      cases allowOffset with
      | true =>
          rw [if_pos rfl] at read
          exact numbered_of_limitNumbers _ read
      | false =>
          rw [if_neg Bool.false_ne_true] at read
          obtain ⟨count, last, readCount, counted⟩ := Outcome.bind_eq_done.mp read
          cases counted
          exact numbered_of_count _ readCount
    · cases outcome
      exact ⟨.none, rfl, .none _⟩

/-! ### Select blocks and queries -/

theorem exprItem_traces : (exprItem inner).Traces .none SelectItem.markers := by
  unfold exprItem
  exact .bind (expr_traces traces) fun value => .skip fun aliasName => .pure (by simp)

omit traces in
theorem tableWildcard_traces : tableWildcard.Traces .none SelectItem.markers := by
  unfold tableWildcard
  exact .skip fun table => .skip fun _ => .skip fun star => .pure (by simp)

omit traces in
theorem schemaWildcard_traces : schemaWildcard.Traces .none SelectItem.markers := by
  unfold schemaWildcard
  refine .skip fun schema => .skip fun _ => .skip fun table => .skip fun _ => ?_
  exact .skip fun star => .pure (by simp)

theorem selectItem_traces : (selectItem inner).Traces .none SelectItem.markers := by
  unfold selectItem dottedItem
  refine .skip fun star => .ite (.skip fun token => .pure (by simp)) ?_
  refine .skip fun kind => .ite (.skip fun dotted => .ite ?_ ?_) (exprItem_traces traces)
  · refine .skip fun star => .ite tableWildcard_traces (.skip fun dotted => ?_)
    exact .ite schemaWildcard_traces (exprItem_traces traces)
  · exact exprItem_traces traces

theorem fromClause_traces :
    (fromClause inner).Traces .none fun refs => .joined (refs.map TableRef.markers) := by
  unfold fromClause
  exact .skip fun found => .ite (tableRefs_traces traces) (.pure rfl)

theorem selectCore_traces : (selectCore inner).Traces .none SelectCore.markers := by
  unfold selectCore
  refine .skip fun start => .skip fun modifiers => ?_
  refine .bind (selectItem_traces traces).commaSeparated fun columns => ?_
  refine .bind (fromClause_traces traces) fun sources => ?_
  refine .bind (whereClause_traces traces) fun filter => ?_
  refine .bind (groupByClause_traces traces) fun groups => ?_
  refine .bind (havingClause_traces traces) fun having => .skip fun stop => .pure ?_
  simp

theorem queryTerm_traces : (queryTerm inner).Traces .none QueryTerm.markers := by
  unfold queryTerm
  refine .skip fun kind => ?_
  split
  · refine .skip fun _ => .bind traces.query fun query => .skip fun _ => .pure ?_
    simp
  · exact .bind (selectCore_traces traces) fun core => .pure (by simp)
  · exact .fail

theorem queryBody_traces : (queryBody inner).Traces .none QueryBody.markers := by
  have steps : ∀ compounds, (nextCompound inner compounds).Traces
      (.joined (compounds.reverse.map fun compound => compound.2.markers))
      fun found => .joined ((found.getD compounds).reverse.map fun compound =>
        compound.2.markers) := by
    intro compounds
    unfold nextCompound
    refine .skip fun found => .ite (.skip fun op => ?_) (.pure rfl)
    refine .bind (queryTerm_traces traces) fun term => .pure ?_
    simp [joined_append, joined]
  have := traces.lawful
  rw [queryBody_eq]
  refine .skip fun start => .bind (queryTerm_traces traces) fun first => ?_
  exact .bind (Traces.whileSome steps []) fun compounds => .skip fun stop => .pure (by simp)

theorem commonTable_traces : (commonTable inner).Traces .none CommonTable.markers := by
  have closing : ∀ (name : Ident) (columns : List Ident), Rule.Traces (do
      let _ ← expectWord .AS
      let _ ← expectMark .leftParen
      let query ← inner.query
      let stop ← expectMark .rightParen
      return CommonTable.mk name columns query (name.span.merge stop)) .none
      CommonTable.markers := by
    intro name columns
    refine .skip fun _ => .skip fun _ => .bind traces.query fun query => .skip fun stop => ?_
    exact .pure (by simp)
  unfold commonTable
  refine .skip fun name => .skip fun listed => ?_
  exact .ite (.skip fun columns => closing name columns) (.skip fun columns => closing name columns)

theorem withClause_traces : (withClause inner).Traces .none WithClause.markers := by
  unfold withClause
  refine .skip fun found => .ite ?_ (.pure rfl)
  refine .skip fun start => .skip fun recursive => ?_
  exact .bind (commonTable_traces traces).commaSeparated fun tables => .skip fun stop =>
    .pure (by simp [WithClause.markers])

theorem wholeQuery_traces : (wholeQuery inner).Traces .none Query.markers := by
  unfold wholeQuery
  refine .skip fun start => .bind (withClause_traces traces) fun withClause => ?_
  refine .bind (queryBody_traces traces) fun body => ?_
  refine .bind (orderByClause_traces traces) fun orderBy => ?_
  refine .bind (limitClause_traces true) fun limit => .skip fun locking => .skip fun stop => ?_
  exact .pure (by simp)

/-! ### Statements -/

theorem assignments_traces : (assignments inner).Traces .none Assignment.listMarkers := by
  have item : (assignment inner).Traces .none Assignment.markers := by
    unfold assignment
    refine .skip fun column => .skip fun _ => .bind (expr_traces traces) fun value => .pure ?_
    simp
  exact item.commaSeparated

theorem valueRow_traces : (valueRow inner).Traces .none Expr.itemMarkers := by
  unfold valueRow
  refine .skip fun _ => .skip fun empty => .ite (.pure rfl) ?_
  exact .bind (exprs_traces traces) fun items => .skip fun _ => .pure (by simp)

theorem insertRows_traces : (insertRows inner).Traces .none InsertSource.markers := by
  have rows : Rule.Traces (do
      let _ ← advance
      return InsertSource.values (← commaSeparated (valueRow inner))) .none
      InsertSource.markers :=
    .skip fun _ => .bind (valueRow_traces traces).commaSeparated fun rows => .pure (by simp)
  unfold insertRows
  refine .skip fun kind => ?_
  split
  · exact rows
  · exact rows
  · exact .ite (.bind traces.query fun query => .pure (by simp)) .fail

theorem insertSource_traces :
    (insertSource inner).Traces .none fun found => found.2.markers := by
  unfold insertSource
  refine .skip fun sets => .ite ?_ ?_
  · exact .bind (assignments_traces traces) fun assignments => .pure (by simp)
  · exact .skip fun columns => .bind (insertRows_traces traces) fun source => .pure (by simp)

theorem onDuplicate_traces (kind : InsertKind) :
    (onDuplicate inner kind).Traces .none Assignment.listMarkers := by
  unfold onDuplicate
  refine .skip fun found => .ite ?_ (.pure rfl)
  exact .skip fun _ => .skip fun _ => .skip fun _ => assignments_traces traces

theorem insert_traces : (insert inner).Traces .none fun tree => .ofVisits tree.visits := by
  unfold insert
  refine .skip fun start => .skip fun kind => .skip fun priority => .skip fun ignore => ?_
  refine .skip fun _ => .skip fun table => .skip fun partitions => ?_
  refine .bind (insertSource_traces traces) fun source => ?_
  refine .bind (onDuplicate_traces traces kind) fun onDuplicate => .skip fun stop => .pure ?_
  simp

omit traces in
/-- A limit that takes no offset has its markers in order. -/
theorem plainLimit_traces : (limitClause false).Traces .none LimitClause.plainMarkers where
  lawful := inferInstance
  numbered spot later limit outcome := by
    rw [on_limitClause] at outcome
    split at outcome
    · obtain ⟨numbers, middle, read, finished⟩ := Outcome.bind_eq_done.mp outcome
      cases finished
      rw [if_neg Bool.false_ne_true] at read
      obtain ⟨count, last, readCount, counted⟩ := Outcome.bind_eq_done.mp read
      cases counted
      have numbered := limitOperand_traces.numbered _ _ _ readCount
      simpa [LimitClause.plainMarkers] using numbered
    · cases outcome
      exact ⟨.none, rfl, .none _⟩

theorem update_traces : (update inner).Traces .none fun tree => .ofVisits tree.visits := by
  unfold update
  refine .skip fun start => .skip fun options => .bind (tableRefs_traces traces) fun tables => ?_
  refine .skip fun _ => .bind (assignments_traces traces) fun assignments => ?_
  refine .bind (whereClause_traces traces) fun filter => ?_
  refine .bind (orderByClause_traces traces) fun orderBy => ?_
  refine .bind plainLimit_traces fun limit => .skip fun stop => .pure ?_
  simp

theorem deleteUsing_traces : (deleteUsing inner).Traces .none fun found => found.2.markers := by
  unfold deleteUsing
  refine .skip fun targets => .skip fun _ => ?_
  exact .bind (tableRefs_traces traces) fun tables => .pure (by simp)

theorem deleteSource_traces : (deleteSource inner).Traces .none fun found => found.2.markers := by
  unfold deleteSource
  refine .skip fun behindFrom => .ite ?_ ?_
  · refine .bind (deleteUsing_traces traces).attempt fun found => ?_
    cases found with
    | some form => exact .pure (by simp)
    | none => exact .skip fun table => .pure (by simp)
  · refine .skip fun targets => .skip fun _ => ?_
    exact .bind (tableRefs_traces traces) fun tables => .pure (by simp)

theorem deleteTail_traces (source : DeleteSource) :
    (deleteTail inner source).Traces .none fun tail =>
      OrderingTerm.markers tail.1 ++ LimitClause.plainMarkers tail.2 := by
  unfold deleteTail
  split
  · refine .bind (orderByClause_traces traces) fun orderBy => ?_
    exact .bind plainLimit_traces fun limit => .pure (by simp)
  · exact .pure rfl

theorem delete_traces : (delete inner).Traces .none fun tree => .ofVisits tree.visits := by
  unfold delete
  refine .skip fun start => .skip fun options => ?_
  refine .bind (deleteSource_traces traces) fun source => ?_
  refine .bind (whereClause_traces traces) fun filter => ?_
  refine .bind (deleteTail_traces traces source.2) fun tail => .skip fun stop => .pure ?_
  simp [append_assoc]

theorem statement_traces : (statement inner).Traces .none Statement.markers := by
  unfold statement
  refine .skip fun kind => ?_
  split
  · exact .bind (insert_traces traces) fun tree => .pure (by simp)
  · exact .bind (insert_traces traces) fun tree => .pure (by simp)
  · exact .bind (update_traces traces) fun tree => .pure (by simp)
  · exact .bind (delete_traces traces) fun tree => .pure (by simp)
  · exact .ite (.bind traces.query fun query => .pure (by simp)) .fail

/-! ### Nesting levels -/

omit traces in
theorem innerAt_traces (levels : Nat) : (innerAt levels).Traces := by
  have deep : ∀ {tree : Type} (trace : tree → MarkerTrace),
      (tooDeep : Rule tree).Traces .none trace :=
    fun _ => ⟨inferInstance, fun _ _ _ outcome => by simp at outcome⟩
  have entered : ∀ {tree : Type} {rule : Rule tree} {trace : tree → MarkerTrace},
      rule.Traces .none trace → (enter rule).Traces .none trace :=
    fun traces =>
      have := traces.lawful
      ⟨inferInstance, fun _ _ _ outcome => traces.numbered _ _ _ (by simpa using outcome)⟩
  induction levels with
  | zero =>
      exact ⟨fun power => operand_zero power ▸ deep _, query_zero ▸ deep _,
        tableInParens_zero ▸ deep _⟩
  | succ levels inductionHypothesis =>
      refine ⟨fun power => ?_, ?_, ?_⟩
      · rw [operand_succ]
        exact entered (operandBody_traces inductionHypothesis power)
      · rw [query_succ]
        exact entered (wholeQuery_traces inductionHypothesis)
      · rw [tableInParens_succ]
        exact entered (tableInParensBody_traces inductionHypothesis)

end Rule

end SqlDml
