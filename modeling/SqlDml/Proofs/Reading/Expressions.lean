import SqlDml.Proofs.Reading.Constants

/-!
Contract: expressions are read from the tokens that they consume.

Owns:
- what follows an operand, and what stands in front of one;
- operands of any power, given the rules of the next nesting level.

Does not own: queries and tables.
-/

namespace SqlDml

open Visit (idents)

/-- Rules for one nesting level deeper that read their trees from the tokens they consume. -/
structure InnerRules.Reads (inner : InnerRules) : Prop where
  lawful : inner.Lawful
  operand : ∀ power, (inner.operand power).Reads Expr.visits
  query : inner.query.Reads Query.visits
  tableInParens : inner.tableInParens.Reads TableRef.visits

/-! ### Tokens that are chosen -/

section Chosen

variable {kind : TokenKind} (payload : kind.isPayload = true)

include payload

theorem Continuation.afterNot?_of_payload : Continuation.afterNot? kind = none := by
  cases kind <;> first | rfl | cases payload

theorem Continuation.afterSounds?_of_payload : Continuation.afterSounds? kind = none := by
  cases kind <;> first | rfl | cases payload

theorem Continuation.ofToken?_of_payload (concat : Bool) :
    Continuation.ofToken? concat kind = none := by
  cases kind with
  | punct mark => cases mark <;> first | rfl | cases payload
  | keyword word => cases payload
  | _ => rfl

theorem Rule.quantifier?_of_payload : Rule.quantifier? kind = none := by
  cases kind <;> first | rfl | cases payload

theorem Rule.isValue?_of_payload : Rule.isValue? kind = none := by
  cases kind <;> first | rfl | cases payload

end Chosen

/-- The tokens that begin a continuation carry nothing. -/
theorem Spot.plain_of_continuation? {spot : Spot} {continuation : Continuation}
    (found : spot.continuation? = some continuation) :
    spot.kind.isPayload = false ∧
      (continuation.width = 2 → spot.next.kind.isPayload = false) := by
  have narrow : ∀ {concat : Bool} {kind : TokenKind},
      Continuation.ofToken? concat kind = some continuation → continuation.width = 1 := by
    intro concat kind known
    unfold Continuation.ofToken? at known
    split at known <;> cases known <;> rfl
  have second : spot.next.kind = (spot.token 1).kind := by rw [Spot.kind, Spot.next_token]
  unfold Spot.continuation? at found
  split at found
  · next kind =>
      refine ⟨spot.plain_of_kind kind, fun _ => ?_⟩
      rw [← second] at found
      exact spot.next.plain_of_choice Continuation.afterNot?_of_payload found
  · next kind =>
      refine ⟨spot.plain_of_kind kind, fun _ => ?_⟩
      rw [← second] at found
      exact spot.next.plain_of_choice Continuation.afterSounds?_of_payload found
  · refine ⟨spot.plain_of_choice (Continuation.ofToken?_of_payload · _) found, fun wide => ?_⟩
    rw [narrow found] at wide
    cases wide

namespace Rule

variable {inner : InnerRules} (reads : inner.Reads)

include reads

theorem expr_reads : inner.expr.Reads Expr.visits := reads.operand 0

/-- An expression behind a word, if the word follows. -/
theorem optionalClause_reads (word : Keyword) :
    Reads (do
      if ← eatWord word then
        return some (← inner.expr)
      else
        return none) fun found => found.toList.flatMap Expr.visits := by
  intro spot
  refine .eat (fun found => ?_) fun _ => .pure (.nothing spot)
  refine .part (.passed (spot.plain_of_kind found)) (expr_reads reads) fun expr later read => ?_
  exact .pure (read.congr (by simp))

theorem exprs_reads : (exprs inner).Reads fun items => items.flatMap Expr.visits :=
  have := reads.lawful
  (expr_reads reads).commaSeparated

theorem queryInParens_reads : (queryInParens inner).Reads fun found => found.1.visits := by
  intro spot
  unfold queryInParens
  refine .skip (.nothing spot) fun start _ read => .part read reads.query fun query _ read => ?_
  exact .skip read fun stop later read => .pure read

theorem subquery_reads : (subquery inner).Reads Expr.visits := by
  intro spot
  unfold subquery
  refine .part (.nothing spot) (queryInParens_reads reads) fun found later read => .pure ?_
  rw [Expr.visits]
  exact .node rfl read

/-! ### Behind an operand -/

section Continued

variable {left : Expr} {start spot : Spot} (before : Read left.visits start spot)

omit reads in
theorem ofOperands_read {right : Expr} {later : Spot} (op : BinaryOp)
    (read : Read (left.visits ++ right.visits) start later) :
    Read (Expr.ofOperands left op right).visits start later := by
  rw [Expr.ofOperands, Expr.visits]
  exact .node rfl read

omit reads in
theorem subqueryFollows_stays (ahead : Nat) (spot : Spot) :
    (subqueryFollows ahead).Ensures spot fun _ later => later = spot := by
  unfold subqueryFollows
  refine .aheadIs (fun _ => ?_) fun _ => .pure rfl
  exact .step (on_peekAhead spot _) (.pure rfl)

include before

theorem comparison_reads (op : BinaryOp) :
    (comparison inner left op).Ensures spot fun expr later => Read expr.visits start later := by
  have plain : Ensures (do return Expr.ofOperands left op (← inner.operand (op.power + 1))) spot
      fun expr later => Read expr.visits start later :=
    .part before (reads.operand _) fun right later read => .pure (ofOperands_read op read)
  unfold comparison
  refine .step (on_peek spot) ?_
  split
  · exact plain
  · next quantifier found =>
      have word := spot.plain_of_choice quantifier?_of_payload found
      refine (subqueryFollows_stays 1 spot).bind fun follows _ stays => ?_
      subst stays
      refine .ite (fun _ => ?_) fun _ => plain
      refine .advance before word fun read => .skip read fun _ _ read => ?_
      refine .part read reads.query fun query _ read => .skip read fun stop later read => .pure ?_
      rw [Expr.visits]
      exact .node rfl read

omit reads in
theorem isTest_reads :
    (isTest left).Ensures spot fun expr later => Read expr.visits start later := by
  unfold isTest
  refine .skip before fun negated middle read => .step (on_peek middle) ?_
  split
  · next value found =>
      have word := middle.plain_of_choice isValue?_of_payload found
      refine .advance read word fun read => .pure ?_
      rw [Expr.visits]
      exact .node rfl read
  · exact .fail

omit before in
theorem inSet_reads : (inSet inner).Reads InSet.visits := by
  intro spot
  have query : Ensures (do return InSet.subquery (← inner.query)) spot
      fun set later => Read set.visits spot later :=
    .part (.nothing spot) reads.query fun query later read => .pure (by rwa [InSet.visits])
  have items : Ensures (do return InSet.list (← exprs inner)) spot
      fun set later => Read set.visits spot later :=
    .part (.nothing spot) (exprs_reads reads) fun items later read => .pure (by
      rwa [InSet.visits, Expr.itemVisits_eq])
  have beforeParen : (queryBeforeParen inner).Reads Query.visits := by
    intro spot
    unfold queryBeforeParen
    refine .part (.nothing spot) reads.query fun query middle read => ?_
    exact .nextIs (fun _ => .pure read) fun _ => .fail
  have := reads.lawful
  unfold inSet
  refine .step (on_peek spot) ?_
  split
  · exact query
  · exact query
  · refine .attempt (beforeParen spot) (fun query later read => .pure ?_) items
    rwa [InSet.visits]
  · exact items

theorem inTest_reads (negated : Bool) :
    (inTest inner left negated).Ensures spot fun expr later => Read expr.visits start later := by
  unfold inTest
  refine .skip before fun _ _ read => .part read (inSet_reads reads) fun set _ read => ?_
  refine .skip read fun stop later read => .pure ?_
  rw [Expr.visits]
  exact .node rfl read

theorem betweenTest_reads (negated : Bool) :
    (betweenTest inner left negated).Ensures spot fun expr later =>
      Read expr.visits start later := by
  unfold betweenTest
  refine .part before (reads.operand _) fun low _ read => .skip read fun _ _ read => ?_
  refine .part read (reads.operand _) fun high later read => .pure ?_
  rw [Expr.visits]
  exact .node rfl read

omit before in
theorem escapeOperand_reads (op : LikeOp) :
    (escapeOperand inner op).Reads fun escape => escape.toList.flatMap Expr.visits := by
  intro spot
  unfold escapeOperand
  split
  · exact .pure (.nothing spot)
  · refine .eat (fun found => ?_) fun _ => .pure (.nothing spot)
    refine .part (.passed (spot.plain_of_kind found)) (reads.operand _) fun escape later read => ?_
    exact .pure (read.congr (by simp))

theorem likeTest_reads (op : LikeOp) (negated : Bool) :
    (likeTest inner left op negated).Ensures spot fun expr later =>
      Read expr.visits start later := by
  unfold likeTest
  refine .part before (reads.operand _) fun pattern _ read => ?_
  refine .part read (escapeOperand_reads reads op) fun escape later read => .pure ?_
  rw [Expr.visits_like]
  exact .node rfl read

omit reads in
theorem collate_reads : (collate left).Ensures spot fun expr later =>
    Read expr.visits start later := by
  unfold collate
  refine .skip before fun _ _ read => .part read collationName_reads fun name later read => ?_
  refine .pure ?_
  rw [Expr.visits]
  exact .node rfl read

theorem continueWith_reads {continuation : Continuation}
    (found : spot.continuation? = some continuation) :
    (continueWith inner left continuation).Ensures spot fun expr later =>
      Read expr.visits start later := by
  obtain ⟨first, second⟩ := Spot.plain_of_continuation? found
  have behind : Read left.visits start (behindContinuation continuation spot) := by
    unfold behindContinuation
    split
    · next wide => exact (before.past first).past (second wide)
    · exact before.past first
  unfold continueWith
  refine .step (on_skipContinuation continuation spot) ?_
  cases continuation with
  | operator op =>
      exact .part behind (reads.operand _) fun right later read => .pure (ofOperands_read op read)
  | comparison op => exact comparison_reads reads behind op
  | is => exact isTest_reads behind
  | isIn negated => exact inTest_reads reads behind negated
  | between negated => exact betweenTest_reads reads behind negated
  | like op negated => exact likeTest_reads reads behind op negated
  | soundsLike =>
      refine .part behind (reads.operand _) fun pattern later read => .pure ?_
      rw [Expr.visits]
      exact .node rfl read

theorem extendOperand_reads (power : Nat) :
    (extendOperand inner power left).Ensures spot fun found later =>
      Read (found.getD left).visits start later := by
  unfold extendOperand
  refine .nextIs (fun _ => .ite (fun _ => ?_) fun _ => .pure before) fun _ => ?_
  · exact (collate_reads before).bind fun expr later read => .pure read
  · refine .step (on_continuation? spot) ?_
    split
    · next continuation found =>
        refine .ite (fun _ => ?_) fun _ => .pure before
        exact (continueWith_reads reads before found).bind fun expr later read => .pure read
    · exact .pure before

end Continued

/-! ### Calls, casts and cases -/

theorem callArguments_reads {function : Ident} {start spot : Spot}
    (before : Read [.ident function] start spot) :
    (callArguments inner function).Ensures spot fun expr later => Read expr.visits start later := by
  have closing : ∀ (items : List Expr) (distinct : Bool) (spot : Spot),
      Read ([.ident function] ++ items.flatMap Expr.visits) start spot →
      Ensures (do
        let stop ← expectMark .rightParen
        return Expr.call function (.list items) distinct (function.span.merge stop)) spot
        fun expr later => Read expr.visits start later := by
    intro items distinct spot read
    refine .skip read fun stop later read => .pure ?_
    rw [Expr.visits, CallArgs.visits, Expr.itemVisits_eq]
    exact .node rfl read
  unfold callArguments
  refine .skip before fun _ middle read => .eat (fun star => ?_) fun _ => ?_
  · refine .skip (read.past (middle.plain_of_kind star)) fun stop later read => .pure ?_
    rw [Expr.visits, CallArgs.visits]
    exact .node rfl read
  · refine .skip read fun distinct behind read => ?_
    have listed : ∀ (noArguments : Bool) (spot : Spot), Read [.ident function] start spot →
        Ensures (if noArguments = true then do
            let items ← pure []
            let stop ← expectMark .rightParen
            return Expr.call function (.list items) distinct (function.span.merge stop)
          else do
            let items ← exprs inner
            let stop ← expectMark .rightParen
            return Expr.call function (.list items) distinct (function.span.merge stop)) spot
          fun expr later => Read expr.visits start later := by
      intro noArguments spot read
      refine .ite (fun _ => ?_) fun _ => ?_
      · exact .step (on_pure [] spot) (closing [] distinct spot read)
      · exact .part read (exprs_reads reads) fun items later read => closing items distinct later read
    refine .ite (fun _ => ?_) fun _ => ?_
    · exact .skip read fun noArguments last read => listed noArguments last read
    · exact .skip read fun noArguments last read => listed noArguments last read

theorem keywordCall_reads : (keywordCall inner).Reads Expr.visits := by
  intro spot
  unfold keywordCall
  refine (name_reads true spot).bind fun function middle read => ?_
  exact callArguments_reads reads read

theorem nameExpr_reads : (nameExpr inner).Reads Expr.visits := by
  intro spot
  unfold nameExpr
  refine .aheadIs (fun _ => ?_) fun _ => ?_
  · refine (identifier_reads spot).bind fun function middle read => ?_
    exact callArguments_reads reads read
  · refine .part (.nothing spot) columnRef_reads fun ref later read => .pure ?_
    rw [Expr.visits]
    exact .node rfl read

theorem castExpr_reads : (castExpr inner).Reads Expr.visits := by
  intro spot
  unfold castExpr
  refine .expecting (by simp) fun word => ?_
  have start : spot.next.last = (spot.token 0).span := Spot.next_last_of_inner (by simp [word])
  have read : Read [] spot spot.next := .passed (spot.plain_of_kind word)
  refine .skip read fun _ _ read => .part read (expr_reads reads) fun operand middle read => ?_
  refine .expecting (by simp) fun behind => ?_
  refine (typeName_takes middle.next).bind fun target last taken => ?_
  refine .expecting (by simp) fun closed => ?_
  obtain ⟨typed, takes, written⟩ := taken
  have front : middle.Takes [middle.token 0] middle.next :=
    .next (by simp [behind]) (by simp [behind])
  have all := front.trans (takes.step (by simp [closed]) (by simp [closed]))
  have ends : target.EndsCast (middle.token 0 :: (typed ++ [last.token 0])) :=
    ⟨_, typed, _, rfl, behind, written, closed⟩
  refine .pure ?_
  rw [start, Expr.visits]
  exact .cast read all ends

theorem whenBranches_reads :
    (whenBranches inner).Reads fun whens => whens.flatMap Expr.branchVisits := by
  have steps : ∀ whens start spot,
      Read (whens.reverse.flatMap Expr.branchVisits) start spot →
      (nextWhen inner whens).Ensures spot fun found later =>
        Read ((found.getD whens).reverse.flatMap Expr.branchVisits) start later := by
    intro whens start spot read
    unfold nextWhen
    refine .eat (fun found => ?_) fun _ => .pure read
    have read := read.past (spot.plain_of_kind found)
    refine .part read (expr_reads reads) fun condition _ read => .skip read fun _ _ read => ?_
    refine .part read (expr_reads reads) fun result later read => .pure (read.congr ?_)
    simp [Expr.branchVisits]
  have := reads.lawful
  rw [whenBranches_eq]
  intro spot
  refine .part (.nothing spot) (.whileSome rfl steps) fun whens later read => ?_
  exact .pure read

theorem optionalExpr_reads :
    Reads (some <$> inner.expr) fun found => found.toList.flatMap Expr.visits := by
  intro spot
  refine (expr_reads reads spot).map fun expr later read => read.congr ?_
  simp

theorem caseExpr_reads : (caseExpr inner).Reads Expr.visits := by
  intro spot
  have closing : ∀ (start : Span) (operand : Option Expr) (whens : List (Expr × Expr))
      (otherwise : Option Expr) (later : Spot),
      Read (operand.toList.flatMap Expr.visits ++ whens.flatMap Expr.branchVisits ++
        otherwise.toList.flatMap Expr.visits) spot later →
      Ensures (do
        let stop ← expectWord .END
        return Expr.case operand whens otherwise (start.merge stop)) later
        fun expr later => Read expr.visits spot later := by
    intro start operand whens otherwise later read
    refine .skip read fun stop last read => .pure ?_
    rw [Expr.visits_case]
    exact .node rfl read
  have branches : ∀ (start : Span) (operand : Option Expr) (middle : Spot),
      Read (operand.toList.flatMap Expr.visits) spot middle →
      Ensures (do
        let whens ← whenBranches inner
        if whens.isEmpty then
          fail [Keyword.WHEN.spelling]
        else
          let otherwise ← if ← eatWord .ELSE then some <$> inner.expr else pure none
          let stop ← expectWord .END
          return Expr.case operand whens otherwise (start.merge stop)) middle
        fun expr later => Read expr.visits spot later := by
    intro start operand middle read
    refine .part read (whenBranches_reads reads) fun whens behind read => ?_
    refine .ite (fun _ => .fail) fun _ => .eat (fun found => ?_) fun _ => ?_
    · refine .part (read.past (behind.plain_of_kind found)) (optionalExpr_reads reads) ?_
      exact fun otherwise later read => closing start operand whens otherwise later read
    · refine .step (on_pure none behind) (closing start operand whens none behind ?_)
      exact read.congr (by simp)
  unfold caseExpr
  refine .skip (.nothing spot) fun start middle read => .nextIs (fun _ => ?_) fun _ => ?_
  · exact .step (on_pure none middle) (branches start none middle read)
  · exact .part read (optionalExpr_reads reads) fun operand later read =>
      branches start operand later read

/-! ### In front of an operand -/

section Opening

variable {spot : Spot} (plain : spot.kind.isPayload = false)

include plain

theorem unaryExpr_reads (op : UnaryOp) (power : Nat) :
    (unaryExpr inner op power).Ensures spot fun expr later => Read expr.visits spot later := by
  unfold unaryExpr
  refine .advance (.nothing spot) plain fun read => ?_
  refine .part read (reads.operand power) fun operand later read => .pure ?_
  rw [Expr.visits]
  exact .node rfl read

theorem existsExpr_reads :
    (existsExpr inner).Ensures spot fun expr later => Read expr.visits spot later := by
  unfold existsExpr
  refine .advance (.nothing spot) plain fun read => .skip read fun _ _ read => ?_
  refine .part read reads.query fun query _ read => .skip read fun stop later read => .pure ?_
  rw [Expr.visits]
  exact .node rfl read

theorem rowExpr_reads :
    (rowExpr inner).Ensures spot fun expr later => Read expr.visits spot later := by
  unfold rowExpr
  refine .advance (.nothing spot) plain fun read => .skip read fun _ _ read => ?_
  refine .part read (exprs_reads reads) fun items _ read => ?_
  refine .skip read fun stop later read => .pure ?_
  rw [Expr.visits, Expr.itemVisits_eq]
  exact .node rfl read

end Opening

theorem exprInParens_reads : (exprInParens inner).Reads Expr.visits := by
  intro spot
  unfold exprInParens
  refine .skip (.nothing spot) fun start _ read => ?_
  refine .part read (expr_reads reads) fun first middle read => .eat (fun comma => ?_) fun _ => ?_
  · refine .part (read.past (middle.plain_of_kind comma)) (exprs_reads reads) ?_
    refine fun others _ read => .skip read fun stop later read => .pure ?_
    rw [Expr.visits, Expr.itemVisits_eq]
    exact .node rfl read
  · exact .skip read fun stop later read => .pure read

theorem parenExpr_reads : (parenExpr inner).Reads Expr.visits := by
  intro spot
  have := reads.lawful
  unfold parenExpr
  refine .step (on_peekAhead spot 1) ?_
  split
  · exact subquery_reads reads spot
  · exact subquery_reads reads spot
  · refine .attempt (subquery_reads reads spot) (fun expr later read => .pure read) ?_
    exact exprInParens_reads reads spot
  · exact exprInParens_reads reads spot

theorem keywordExpr_reads (word : Keyword) : (keywordExpr inner word).Reads Expr.visits := by
  intro spot
  have asName : Ensures (if word.isNonreserved then nameExpr inner else fail ["expression"]) spot
      fun expr later => Read expr.visits spot later :=
    .ite (fun _ => nameExpr_reads reads spot) fun _ => .fail
  unfold keywordExpr
  refine .ite (fun _ => .aheadIs (fun _ => ?_) fun _ => asName) fun _ => asName
  exact keywordCall_reads reads spot

theorem temporalExpr_reads {spot : Spot} {word : Keyword} (found : spot.kind = .keyword word)
    (kind : TemporalKind) :
    (temporalExpr inner word kind).Ensures spot fun expr later => Read expr.visits spot later := by
  unfold temporalExpr
  refine .step (on_peekAhead spot 1) (.ite (fun string => ?_) fun _ => ?_)
  · exact temporalLiteral_reads (by simp [found]) (by simp [found]) kind string
  · exact keywordExpr_reads reads word spot

theorem currentTimestampExpr_reads {spot : Spot} {word : Keyword}
    (found : spot.kind = .keyword word) :
    (currentTimestampExpr inner).Ensures spot fun expr later => Read expr.visits spot later := by
  have alone : currentTimestamp.Ensures spot fun expr later => Read expr.visits spot later :=
    currentTimestamp_reads (by simp [found]) (by simp [found])
  unfold currentTimestampExpr
  refine .aheadIs (fun _ => .aheadIs (fun _ => alone) fun _ => ?_) fun _ => alone
  exact keywordCall_reads reads spot

theorem defaultExpr_reads {spot : Spot} (plain : spot.kind.isPayload = false) :
    (defaultExpr inner).Ensures spot fun expr later => Read expr.visits spot later := by
  unfold defaultExpr
  refine .aheadIs (fun _ => keywordExpr_reads reads _ spot) fun _ => ?_
  refine .advance (.nothing spot) plain fun read => .pure ?_
  rw [Expr.visits]
  exact .node rfl read

theorem wordExpr_reads {spot : Spot} {text : String} (found : spot.kind = .word text) :
    (wordExpr inner text).Ensures spot fun expr later => Read expr.visits spot later := by
  unfold wordExpr
  refine .step (on_peekAhead spot 1) (.ite (fun _ => ?_) fun _ => nameExpr_reads reads spot)
  split
  · next charset _ => exact introducedLiteral_reads (by simp [found]) (by simp [found]) charset
  · exact nameExpr_reads reads spot

theorem primaryExpr_reads : (primaryExpr inner).Reads Expr.visits := by
  intro spot
  have unary : ∀ op power, spot.kind.isPayload = false →
      (unaryExpr inner op power).Ensures spot fun expr later => Read expr.visits spot later :=
    fun op power plain => unaryExpr_reads reads plain op power
  have word : ∀ {word : Keyword}, spot.kind = .keyword word → spot.kind.isPayload = false :=
    fun found => spot.plain_of_kind found
  unfold primaryExpr
  refine .step (on_peek spot) ?_
  split
  · next kind => exact tokenLiteral_reads (by simp [kind]) (by simp [kind]) _
  · next kind => exact tokenLiteral_reads (by simp [kind]) (by simp [kind]) _
  · next kind =>
      refine (stringRun_takes (by rw [kind]; rfl)).bind fun found later taken => .pure ?_
      obtain ⟨tokens, takes, place⟩ := taken
      exact literal_read takes (place ▸ takes.covers)
  · next kind => exact tokenLiteral_reads (by simp [kind]) (by simp [kind]) _
  · next kind => exact tokenLiteral_reads (by simp [kind]) (by simp [kind]) _
  · next kind => exact wordExpr_reads reads kind
  · exact nameExpr_reads reads spot
  · next kind => exact placeholder_reads kind
  · exact odbcLiteral_reads spot
  · next kind => exact unary _ _ (by rw [kind]; rfl)
  · next kind => exact unary _ _ (by rw [kind]; rfl)
  · next kind => exact unary _ _ (by rw [kind]; rfl)
  · next kind => exact unary _ _ (by rw [kind]; rfl)
  · exact parenExpr_reads reads spot
  · next kind => exact unary _ _ (word kind)
  · next kind => exact unary _ _ (word kind)
  · next kind => exact tokenLiteral_reads (by simp [kind]) (by simp [kind]) _
  · next kind => exact tokenLiteral_reads (by simp [kind]) (by simp [kind]) _
  · next kind => exact tokenLiteral_reads (by simp [kind]) (by simp [kind]) _
  · next kind => exact temporalExpr_reads reads kind _
  · next kind => exact temporalExpr_reads reads kind _
  · next kind => exact temporalExpr_reads reads kind _
  · next kind => exact currentTimestampExpr_reads reads kind
  · next kind => exact defaultExpr_reads reads (word kind)
  · next kind => exact existsExpr_reads reads (word kind)
  · exact castExpr_reads reads spot
  · exact caseExpr_reads reads spot
  · next kind => exact .aheadIs (fun _ => rowExpr_reads reads (word kind)) fun _ => .fail
  · exact keywordExpr_reads reads _ spot
  · exact .fail
  · exact .fail

theorem operandBody_reads (power : Nat) : (operandBody inner power).Reads Expr.visits := by
  intro spot
  have := reads.lawful
  unfold operandBody
  refine (primaryExpr_reads reads spot).bind fun first middle read => ?_
  exact .whileSome read fun left behind before => extendOperand_reads reads before power

end Rule

end SqlDml
