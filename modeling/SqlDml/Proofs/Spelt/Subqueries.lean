import SqlDml.Proofs.Replay.Expressions
import SqlDml.Proofs.Shapes.Shaped
import SqlDml.Proofs.Spelt.Expressions

/-!
Contract: where an expression is a subquery, the same tokens are a query.

Owns:
- that only a parenthesis makes a subquery, and that operands which are no extensions stand alone;
- the query that stands in the parentheses of a subquery.

Does not own: what the query is read as.
-/

namespace SqlDml

/-- The expression is no subquery. -/
def Expr.NoSubquery (tree : Expr) : Prop := tree.isSubquery = false

/-- The operand in front of the operator that an expression was extended by. -/
def Expr.front? : Expr → Option Expr
  | .binary left _ _ _ | .is left _ _ _ | .quantified left _ _ _ _ | .between left _ _ _ _
  | .isIn left _ _ _ | .like left _ _ _ _ _ | .soundsLike left _ _ | .collate left _ _ => some left
  | _ => none

namespace Rule

set_option synthInstance.maxSize 3000

variable {inner : InnerRules} [inner.Lawful]

/-! ### What is no subquery -/

theorem callArguments_other (function : Ident) :
    (callArguments inner function).Yields Expr.NoSubquery := by
  unfold callArguments
  refine .skip fun _ => .skip fun star => .ite (fun _ => .skip fun stop => .pure rfl) fun _ => ?_
  refine .skip fun distinct => .ite (fun _ => ?_) fun _ => .skip fun noArguments => ?_
  · exact .skip fun noArguments => .ite (fun _ => .skip fun _ => .skip fun _ => .pure rfl) fun _ =>
      .skip fun _ => .skip fun _ => .pure rfl
  · exact .ite (fun _ => .skip fun _ => .skip fun _ => .pure rfl) fun _ =>
      .skip fun _ => .skip fun _ => .pure rfl

theorem nameExpr_other : (nameExpr inner).Yields Expr.NoSubquery := by
  unfold nameExpr
  refine .skip fun called => .ite (fun _ => .skip fun function => callArguments_other function) ?_
  exact fun _ => .skip fun ref => .pure rfl

theorem tokenLiteral_other (value : Literal) : (tokenLiteral value).Yields Expr.NoSubquery := by
  unfold tokenLiteral
  exact .skip fun _ => .pure rfl

theorem unaryExpr_other (op : UnaryOp) (power : Nat) :
    (unaryExpr inner op power).Yields Expr.NoSubquery := by
  unfold unaryExpr
  exact .skip fun _ => .skip fun _ => .pure rfl

theorem keywordExpr_other (word : Keyword) : (keywordExpr inner word).Yields Expr.NoSubquery := by
  have asName : Yields (if word.isNonreserved then nameExpr inner else fail ["expression"])
      Expr.NoSubquery := .ite (fun _ => nameExpr_other) fun _ => .fail
  unfold keywordExpr keywordCall
  refine .ite (fun _ => .skip fun called => .ite (fun _ => ?_) fun _ => asName) fun _ => asName
  exact .skip fun function => callArguments_other function

theorem temporalExpr_other (word : Keyword) (kind : TemporalKind) :
    (temporalExpr inner word kind).Yields Expr.NoSubquery := by
  unfold temporalExpr temporalLiteral
  refine .skip fun _ => .ite (fun _ => ?_) fun _ => keywordExpr_other word
  exact .skip fun _ => .skip fun _ => .pure rfl

theorem currentTimestampExpr_other : (currentTimestampExpr inner).Yields Expr.NoSubquery := by
  have literal : currentTimestamp.Yields Expr.NoSubquery := by
    unfold currentTimestamp
    exact .skip fun _ => .skip fun _ => .ite (fun _ => .skip fun _ => .skip fun _ => .pure rfl)
      fun _ => .skip fun _ => .pure rfl
  unfold currentTimestampExpr keywordCall
  refine .skip fun _ => .ite (fun _ => .skip fun _ => .ite (fun _ => literal) fun _ => ?_)
    fun _ => literal
  exact .skip fun function => callArguments_other function

theorem caseExpr_other : (caseExpr inner).Yields Expr.NoSubquery := by
  have branches : ∀ (start : Span) (operand : Option Expr), Yields (do
        let whens ← whenBranches inner
        if whens.isEmpty then
          fail [Keyword.WHEN.spelling]
        else
          let otherwise ← if ← eatWord .ELSE then some <$> inner.expr else pure none
          let stop ← expectWord .END
          return Expr.case operand whens otherwise (start.merge stop)) Expr.NoSubquery := by
    intro start operand
    refine .skip fun whens => .ite (fun _ => .fail) fun _ => .skip fun found => ?_
    exact .ite (fun _ => .skip fun _ => .skip fun _ => .pure rfl) fun _ =>
      .skip fun _ => .skip fun _ => .pure rfl
  unfold caseExpr
  refine .skip fun start => .skip fun direct => .ite (fun _ => ?_) fun _ => ?_
  · exact .skip fun operand => branches start operand
  · exact .skip fun operand => branches start operand

theorem wordExpr_other (text : String) : (wordExpr inner text).Yields Expr.NoSubquery := by
  unfold wordExpr introducedLiteral
  refine .skip fun next => .ite (fun _ => ?_) fun _ => nameExpr_other
  split
  · exact .skip fun _ => .skip fun _ => .skip fun _ => .pure rfl
  · exact nameExpr_other

theorem placeholder_other : placeholder.Yields Expr.NoSubquery := by
  unfold placeholder
  exact .skip fun _ => .skip fun _ => .pure rfl

theorem odbcLiteral_other : odbcLiteral.Yields Expr.NoSubquery := by
  unfold odbcLiteral
  refine .skip fun _ => .skip fun _ => .skip fun _ => .ite (fun _ => ?_) fun _ => .fail
  exact .skip fun _ => .skip fun _ => .pure rfl

theorem defaultExpr_other : (defaultExpr inner).Yields Expr.NoSubquery := by
  unfold defaultExpr
  exact .skip fun _ => .ite (fun _ => keywordExpr_other _) fun _ => .skip fun _ => .pure rfl

theorem existsExpr_other : (existsExpr inner).Yields Expr.NoSubquery := by
  unfold existsExpr
  exact .skip fun _ => .skip fun _ => .skip fun _ => .skip fun _ => .pure rfl

theorem castExpr_other : (castExpr inner).Yields Expr.NoSubquery := by
  unfold castExpr
  exact .skip fun _ => .skip fun _ => .skip fun _ => .skip fun _ => .skip fun _ =>
    .skip fun _ => .pure rfl

theorem rowExpr_other : (rowExpr inner).Yields Expr.NoSubquery := by
  unfold rowExpr
  exact .skip fun _ => .skip fun _ => .skip fun _ => .skip fun _ => .pure rfl

/-- Only a parenthesis makes a subquery. -/
theorem primaryExpr_subquery (spot : Spot) :
    (primaryExpr inner).Ensures spot fun tree later => tree.isSubquery = true →
      spot.kind = .punct .leftParen ∧ (parenExpr inner).on spot = .done tree later := by
  have other : ∀ {rule : Rule Expr}, rule.Yields Expr.NoSubquery → rule.Ensures spot
      fun tree later => tree.isSubquery = true →
        spot.kind = .punct .leftParen ∧ (parenExpr inner).on spot = .done tree later :=
    fun yields => (yields spot).mono fun tree later no sub => by
      rw [show tree.isSubquery = false from no] at sub
      cases sub
  unfold primaryExpr
  refine .step (on_peek spot) ?_
  split
  case h_14 kind => exact .of_on fun tree later outcome _ => ⟨kind, outcome⟩
  all_goals apply other
  · exact tokenLiteral_other _
  · exact tokenLiteral_other _
  · exact .skip fun _ => .pure rfl
  · exact tokenLiteral_other _
  · exact tokenLiteral_other _
  · exact wordExpr_other _
  · exact nameExpr_other
  · exact placeholder_other
  · exact odbcLiteral_other
  · exact unaryExpr_other _ _
  · exact unaryExpr_other _ _
  · exact unaryExpr_other _ _
  · exact unaryExpr_other _ _
  · exact unaryExpr_other _ _
  · exact unaryExpr_other _ _
  · exact tokenLiteral_other _
  · exact tokenLiteral_other _
  · exact tokenLiteral_other _
  · exact temporalExpr_other _ _
  · exact temporalExpr_other _ _
  · exact temporalExpr_other _ _
  · exact currentTimestampExpr_other
  · exact defaultExpr_other
  · exact existsExpr_other
  · exact castExpr_other
  · exact caseExpr_other
  · exact .skip fun _ => .ite (fun _ => rowExpr_other) fun _ => .fail
  · exact keywordExpr_other _
  · exact .fail
  · exact .fail

/-! ### What extends an operand -/

theorem comparison_extended (left : Expr) (op : BinaryOp) :
    (comparison inner left op).Yields fun tree => tree.front? = some left := by
  have plain : Yields (do return Expr.ofOperands left op (← inner.operand (op.power + 1)))
      fun tree => tree.front? = some left := .skip fun _ => .pure rfl
  unfold comparison
  refine .skip fun kind => ?_
  split
  · exact plain
  · refine .skip fun follows => .ite (fun _ => ?_) fun _ => plain
    exact .skip fun _ => .skip fun _ => .skip fun _ => .skip fun _ => .pure rfl

theorem continueWith_extended (left : Expr) (continuation : Continuation) :
    (continueWith inner left continuation).Yields fun tree => tree.front? = some left := by
  unfold continueWith
  refine .skip fun _ => ?_
  cases continuation with
  | operator op => exact .skip fun _ => .pure rfl
  | comparison op => exact comparison_extended left op
  | is =>
      unfold isTest
      refine .skip fun negated => .skip fun kind => ?_
      split
      · exact .skip fun _ => .pure rfl
      · exact .fail
  | isIn negated =>
      unfold inTest
      exact .skip fun _ => .skip fun _ => .skip fun _ => .pure rfl
  | between negated =>
      unfold betweenTest
      exact .skip fun _ => .skip fun _ => .skip fun _ => .pure rfl
  | like op negated =>
      unfold likeTest
      exact .skip fun _ => .skip fun _ => .pure rfl
  | soundsLike => exact .skip fun _ => .pure rfl

/-- What extends an operand gives an extension of it. -/
theorem extendOperand_extended (power : Nat) (left : Expr) :
    (extendOperand inner power left).Yields fun found =>
      ∀ tree ∈ found, tree.front? = some left := by
  have one : ∀ {rule : Rule Expr}, rule.Yields (fun tree => tree.front? = some left) →
      Yields (do return some (← rule)) fun found => ∀ tree ∈ found, tree.front? = some left :=
    fun yields => yields.bind fun tree known => .pure (by simpa using known)
  have collates : (collate left).Yields fun tree => tree.front? = some left := by
    unfold collate
    exact .skip fun _ => .skip fun _ => .pure rfl
  unfold extendOperand
  refine .skip fun word => .ite (fun _ => ?_) fun _ => ?_
  · exact .ite (fun _ => one collates) fun _ => .pure (by simp)
  · refine .skip fun found => ?_
    split
    · exact .ite (fun _ => one (continueWith_extended left _)) fun _ => .pure (by simp)
    · exact .pure (by simp)

/-- An operand that is no extension stands alone. -/
theorem primary_of_operandBody {spot later : Spot} {tree : Expr} {power : Nat}
    (read : (operandBody inner power).on spot = .done tree later) (alone : tree.front? = none) :
    (primaryExpr inner).on spot = .done tree later := by
  unfold operandBody at read
  rw [on_bind, Outcome.bind_eq_done] at read
  obtain ⟨first, middle, primary, rest⟩ := read
  have same : first = tree ∧ middle = later := by
    have repeats := on_whileSome_eq_done.mp rest
    clear primary rest
    induction repeats with
    | stop nothing => exact ⟨rfl, (Steady.extendOperand_stays nothing).symm⟩
    | more extended _ inductionHypothesis =>
        obtain ⟨rfl, _⟩ := inductionHypothesis alone
        cases ((extendOperand_extended _ _ _).on extended _ rfl).symm.trans alone
  obtain ⟨rfl, rfl⟩ := same
  exact primary

/-- A subquery is what parentheses begin, with nothing behind it. -/
theorem operandBody_subquery {spot later : Spot} {tree : Expr} {power : Nat}
    (read : (operandBody inner power).on spot = .done tree later) (sub : tree.isSubquery = true) :
    spot.kind = .punct .leftParen ∧ (parenExpr inner).on spot = .done tree later := by
  have alone : tree.front? = none := by
    cases tree <;> first | cases sub; done | rfl
  exact (primaryExpr_subquery spot).on (primary_of_operandBody read alone) sub

/-! ### Queries in parentheses -/

/-- A query in parentheses is a query, in front of a parenthesis. -/
theorem wholeQuery_of_subquery {spot later : Spot} {tree : Expr}
    (read : (Rule.subquery inner).on spot = .done tree later)
    (closed : later.kind = .punct .rightParen) :
    ∃ query, (wholeQuery inner).on spot = .done query later := by
  have opened : spot.kind = .punct .leftParen := by
    by_contra other
    simp [Rule.subquery, queryInParens, other] at read
  have inside : ∃ query middle, inner.query.on spot.next = .done query middle ∧
      middle.kind = .punct .rightParen ∧ middle.next = later := by
    simp only [Rule.subquery, queryInParens, on_bind, on_expectMark, opened, if_true,
      Outcome.bind_done, Outcome.bind_eq_done, on_pure, Outcome.done.injEq] at read
    obtain ⟨_, middle, ⟨query, before, found, _, _, closes, _, rfl⟩, _, rfl⟩ := read
    split at closes
    · next closing =>
        cases closes
        exact ⟨query, before, found, closing, rfl⟩
    · cases closes
  have term : ∃ query, (queryTerm inner).on spot = .done (.nested query) later := by
    obtain ⟨query, middle, found, closes, rfl⟩ := inside
    refine ⟨query, ?_⟩
    unfold queryTerm
    rw [on_bind_of _ _ _ (fun kind => by split <;> infer_instance), on_peek, Outcome.bind_done,
      opened]
    simp [found, closes]
  obtain ⟨nested, term⟩ := term
  have noWith : (withClause inner).on spot = .done none spot := by
    simp [withClause, on_ite, opened]
  have noMore : (whileSome (nextCompound inner) []).on later = .done [] later :=
    on_whileSome_eq_done.mpr (.stop (by simp [nextCompound, on_ite, closed]))
  have noOrder : (orderByClause inner).on later = .done [] later := by
    simp [orderByClause, on_ite, closed]
  have noLimit : (limitClause true).on later = .done none later := by
    simp [limitClause, on_ite, closed]
  have noLocking : lockingClause.on later = .done none later := by
    simp [lockingClause, on_ite, closed]
  unfold wholeQuery
  simp [queryBody_eq, term, noWith, noMore, noOrder, noLimit, noLocking]

/-- An expression in parentheses that is a subquery. -/
theorem exprInParens_subquery {spot later : Spot} {tree : Expr}
    (read : (exprInParens inner).on spot = .done tree later) (sub : tree.isSubquery = true) :
    ∃ middle, inner.expr.on spot.next = .done tree middle ∧ middle.kind = .punct .rightParen ∧
      middle.next = later := by
  have ensures : (exprInParens inner).Ensures spot fun tree later => tree.isSubquery = true →
      ∃ middle, inner.expr.on spot.next = .done tree middle ∧
        middle.kind = .punct .rightParen ∧ middle.next = later := by
    have first : inner.expr.Ensures spot.next fun tree middle =>
        inner.expr.on spot.next = .done tree middle := .of_on fun _ _ outcome => outcome
    unfold exprInParens
    refine .expecting (by simp) fun _ => first.bind fun first middle found => .eat (fun _ => ?_) ?_
    · have row : Yields (do
          let others ← exprs inner
          let stop ← expectMark .rightParen
          return Expr.row (first :: others) (spot.next.last.merge stop)) Expr.NoSubquery :=
        .skip fun _ => .skip fun _ => .pure rfl
      refine (row middle.next).mono fun tree _ other sub => ?_
      rw [show tree.isSubquery = false from other] at sub
      cases sub
    · exact fun _ => .expecting (by simp) fun closes => .pure fun _ => ⟨middle, found, closes, rfl⟩
  exact ensures.on read sub

/-- At every nesting limit, a subquery in front of a parenthesis could be read as a query. -/
theorem subquery_innerAt (levels : Nat) {spot later : Spot} {tree : Expr}
    (read : (innerAt levels).expr.on spot = .done tree later) (sub : tree.isSubquery = true) :
    spot.kind = .punct .leftParen ∧ (later.kind = .punct .rightParen →
      ∃ query, (innerAt levels).query.on spot = .done query later) := by
  unfold InnerRules.expr at read
  induction levels generalizing spot later with
  | zero =>
      rw [operand_zero, on_tooDeep] at read
      cases read
  | succ levels inductionHypothesis =>
      rw [operand_succ, on_enter] at read
      obtain ⟨opened, paren⟩ := operandBody_subquery read sub
      refine ⟨opened, fun closed => ?_⟩
      rw [query_succ, on_enter]
      -- either the subquery itself was read, or one in further parentheses
      suffices found : ∃ tree, (Rule.subquery (innerAt levels)).on spot = .done tree later from
        wholeQuery_of_subquery found.choose_spec closed
      have deeper : (exprInParens (innerAt levels)).on spot = .done tree later →
          ∃ tree, (Rule.subquery (innerAt levels)).on spot = .done tree later := by
        intro nested
        obtain ⟨middle, below, closes, rfl⟩ := exprInParens_subquery nested sub
        obtain ⟨query, found⟩ := (inductionHypothesis below).2 closes
        have reads : (Rule.subquery (innerAt levels)).on spot =
            .done (.subquery query ((spot.token 0).span.merge (middle.token 0).span)) middle.next := by
          simp [Rule.subquery, queryInParens, opened, found, closes]
        exact ⟨_, reads⟩
      unfold parenExpr at paren
      rw [on_bind_of, on_peekAhead, Outcome.bind_done] at paren
      · split at paren
        · exact ⟨tree, paren⟩
        · exact ⟨tree, paren⟩
        · rw [on_bind_of _ _ _ (fun found => by split <;> infer_instance), on_attempt] at paren
          generalize attempted : (Rule.subquery (innerAt levels)).on spot = outcome at paren deeper ⊢
          cases outcome with
          | done found place =>
              rw [tried, Outcome.bind_done, on_pure] at paren
              cases paren
              exact ⟨_, rfl⟩
          | stuck => exact deeper paren
          | deep => cases paren
        · exact deeper paren
      · intro kind
        split
        · infer_instance
        · infer_instance
        · refine lawful_bind fun found => ?_
          split <;> infer_instance
        · infer_instance

end Rule

end SqlDml
