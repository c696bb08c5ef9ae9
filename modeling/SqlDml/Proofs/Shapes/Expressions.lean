import SqlDml.Proofs.Rules.Language
import SqlDml.Proofs.Shapes.Shaped

/-!
Contract: every expression that is read is well shaped.

Owns:
- column references, constants and the target types of casts;
- what follows an operand, and what stands in front of one;
- operands of any power, given the rules of the next nesting level.

Does not own: queries and tables.
-/

namespace SqlDml

/-! ### Nodes without a shape of their own -/

theorem Node.wellShaped_literal {value : Literal} {span : Span} (shaped : value.Shaped) :
    (Node.expr (.literal value span)).WellShaped :=
  .of_children shaped (by simp)

theorem Node.wellShaped_placeholder {index : Nat} {span : Span} :
    (Node.expr (.placeholder index span)).WellShaped :=
  .of_children trivial (by simp)

/-- Combining two operands never asks for a shape. -/
theorem Node.wellShaped_ofOperands {left right : Expr} (op : BinaryOp)
    (first : (Node.expr left).WellShaped) (second : (Node.expr right).WellShaped) :
    (Node.expr (.ofOperands left op right)).WellShaped :=
  .of_children trivial (by simp [Expr.ofOperands, first, second])

namespace Rule

/-! ### Names and constants -/

theorem columnRef_yields : columnRef.Yields fun ref => (Node.column ref).WellShaped := by
  have alone : ∀ ref : ColumnRef, ref.Shaped → (Node.column ref).WellShaped :=
    fun ref shaped => .of_children shaped (by simp)
  unfold columnRef
  refine .skip fun first => .skip fun dotted => .ite (fun _ => ?_) fun _ => ?_
  · refine .skip fun _ => .skip fun second => .skip fun dotted => .ite (fun _ => ?_) fun _ => ?_
    · exact .skip fun _ => .skip fun third => .pure (alone _ (by simp [ColumnRef.Shaped]))
    · exact .pure (alone _ (by simp [ColumnRef.Shaped]))
  · exact .pure (alone _ (by simp [ColumnRef.Shaped]))

theorem tokenLiteral_yields {value : Literal} (shaped : value.Shaped) :
    (tokenLiteral value).Yields fun tree => (Node.expr tree).WellShaped := by
  unfold tokenLiteral
  exact .skip fun token => .pure (Node.wellShaped_literal shaped)

theorem placeholder_yields : placeholder.Yields fun tree => (Node.expr tree).WellShaped := by
  unfold placeholder
  exact .skip fun token => .skip fun number => .pure Node.wellShaped_placeholder

theorem temporalLiteral_yields (kind : TemporalKind) :
    (temporalLiteral kind).Yields fun tree => (Node.expr tree).WellShaped := by
  unfold temporalLiteral
  exact .skip fun word => .skip fun found => .pure (Node.wellShaped_literal trivial)

theorem introducedValue_yields : introducedValue.Yields Literal.Introducible := by
  unfold introducedValue
  refine .skip fun kind => ?_
  split
  · exact .skip fun found => .pure trivial
  · exact .skip fun _ => .pure trivial
  · exact .skip fun _ => .pure trivial
  · exact .fail

theorem introducedLiteral_yields (charset : String) :
    (introducedLiteral charset).Yields fun tree => (Node.expr tree).WellShaped := by
  unfold introducedLiteral
  refine .skip fun word => introducedValue_yields.bind fun value introducible => ?_
  exact .skip fun stop => .pure (Node.wellShaped_literal introducible)

theorem odbcLiteral_yields : odbcLiteral.Yields fun tree => (Node.expr tree).WellShaped := by
  unfold odbcLiteral
  refine .skip fun start => .skip fun kind => .skip fun next => .ite (fun _ => ?_) fun _ => .fail
  exact .skip fun found => .skip fun stop => .pure (Node.wellShaped_literal trivial)

theorem currentTimestamp_yields :
    currentTimestamp.Yields fun tree => (Node.expr tree).WellShaped := by
  unfold currentTimestamp
  refine .skip fun start => .skip fun opened => .ite (fun _ => ?_) fun _ => ?_
  · exact .skip fun _ => .skip fun stop => .pure (Node.wellShaped_literal trivial)
  · exact .skip fun stop => .pure (Node.wellShaped_literal trivial)

/-- A scale is only read behind a length. -/
theorem typeSizes_yields :
    typeSizes.Yields fun sizes => sizes.2.isSome = true → sizes.1.isSome = true := by
  unfold typeSizes
  refine .skip fun opened => .ite (fun _ => ?_) fun _ => .pure (by simp)
  refine .skip fun length => .skip fun comma => .ite (fun _ => ?_) fun _ => ?_
  · exact .skip fun scale => .skip fun _ => .pure (by simp)
  · exact .skip fun scale => .skip fun _ => .pure (by simp)

theorem typeName_yields : typeName.Yields TypeName.Shaped := by
  rw [typeName_eq]
  refine .skip fun words => .ite (fun _ => .fail) fun _ => ?_
  exact typeSizes_yields.bind fun sizes known => .pure known

variable {inner : InnerRules} (shaped : inner.Shaped)

include shaped

theorem expr_yields : inner.expr.Yields fun tree => (Node.expr tree).WellShaped := shaped.operand 0

/-- A list of expressions has items. -/
theorem exprs_yields : (exprs inner).Yields fun items =>
    items ≠ [] ∧ ∀ item ∈ items, (Node.expr item).WellShaped :=
  have := shaped.lawful
  (expr_yields shaped).commaSeparated

/-- An expression behind a word, if the word follows. -/
theorem optionalClause_yields (word : Keyword) :
    Yields (do
      if ← eatWord word then
        return some (← inner.expr)
      else
        return none) fun found => ∀ tree ∈ found, (Node.expr tree).WellShaped := by
  refine .skip fun found => .ite (fun _ => ?_) fun _ => .pure (by simp)
  exact (expr_yields shaped).bind fun tree known => .pure (by simpa using known)

theorem queryInParens_yields :
    (queryInParens inner).Yields fun found => (Node.query found.1).WellShaped := by
  unfold queryInParens
  refine .skip fun start => shaped.query.bind fun query known => ?_
  exact .skip fun stop => .pure known

theorem subquery_yields : (subquery inner).Yields fun tree => (Node.expr tree).WellShaped := by
  unfold subquery
  refine (queryInParens_yields shaped).bind fun found known => .pure ?_
  exact .of_children trivial (by simpa using known)

/-! ### Behind an operand -/

omit shaped in
/-- Only comparisons are taken for comparisons. -/
theorem continuation?_yields : continuation?.Yields fun found =>
    ∀ op, found = some (.comparison op) → op.isComparison = true := by
  have alone : ∀ concat kind op, Continuation.ofToken? concat kind = some (.comparison op) →
      op.isComparison = true := by
    intro concat kind op found
    unfold Continuation.ofToken? at found
    split at found <;> cases found <;> rfl
  have pair : ∀ kind op, Continuation.afterNot? kind ≠ some (.comparison op) ∧
      Continuation.afterSounds? kind ≠ some (.comparison op) := by
    intro kind op
    constructor
    · unfold Continuation.afterNot?
      split <;> simp
    · unfold Continuation.afterSounds?
      split <;> simp
  rw [continuation?_eq]
  refine .skip fun kind => ?_
  split
  · exact .skip fun next => .pure fun op found => absurd found (pair next op).1
  · exact .skip fun next => .pure fun op found => absurd found (pair next op).2
  · exact .skip fun settings => .pure fun op found => alone _ _ op found

section Continued

variable {left : Expr} (before : (Node.expr left).WellShaped)

include before

theorem comparison_yields {op : BinaryOp} (compares : op.isComparison = true) :
    (comparison inner left op).Yields fun tree => (Node.expr tree).WellShaped := by
  have := shaped.lawful
  have plain : Yields (do return Expr.ofOperands left op (← inner.operand (op.power + 1)))
      fun tree => (Node.expr tree).WellShaped :=
    (shaped.operand _).bind fun right known => .pure (Node.wellShaped_ofOperands op before known)
  unfold comparison
  refine .skip fun kind => ?_
  split
  · exact plain
  · refine .skip fun follows => .ite (fun _ => ?_) fun _ => plain
    refine .skip fun _ => .skip fun _ => shaped.query.bind fun query known => .skip fun stop => ?_
    exact .pure (.of_children compares (by simpa using ⟨before, known⟩))

omit shaped in
theorem isTest_yields : (isTest left).Yields fun tree => (Node.expr tree).WellShaped := by
  unfold isTest
  refine .skip fun negated => .skip fun kind => ?_
  split
  · exact .skip fun stop => .pure (.of_children trivial (by simpa using before))
  · exact .fail

omit before in
theorem inSet_yields : (inSet inner).Yields fun set =>
    set.Shaped ∧ ∀ child ∈ set.children, child.WellShaped := by
  have := shaped.lawful
  have query : Yields (do return InSet.subquery (← inner.query)) fun set =>
      set.Shaped ∧ ∀ child ∈ set.children, child.WellShaped :=
    shaped.query.bind fun query known => .pure ⟨trivial, by simpa using known⟩
  have items : Yields (do return InSet.list (← exprs inner)) fun set =>
      set.Shaped ∧ ∀ child ∈ set.children, child.WellShaped :=
    (exprs_yields shaped).bind fun items known => .pure ⟨known.1, by simpa using known.2⟩
  have beforeParen :
      (queryBeforeParen inner).Yields fun query => (Node.query query).WellShaped := by
    unfold queryBeforeParen
    refine shaped.query.bind fun query known => .skip fun closed => ?_
    exact .ite (fun _ => .pure known) fun _ => .fail
  unfold inSet
  refine .skip fun kind => ?_
  split
  · exact query
  · exact query
  · refine .attempt beforeParen (fun query known => .pure ⟨trivial, ?_⟩) items
    simpa using known
  · exact items

theorem inTest_yields (negated : Bool) :
    (inTest inner left negated).Yields fun tree => (Node.expr tree).WellShaped := by
  unfold inTest
  refine .skip fun _ => (inSet_yields shaped).bind fun set known => .skip fun stop => ?_
  refine .pure (.of_children known.1 ?_)
  simpa using ⟨before, known.2⟩

theorem betweenTest_yields (negated : Bool) :
    (betweenTest inner left negated).Yields fun tree => (Node.expr tree).WellShaped := by
  unfold betweenTest
  refine (shaped.operand _).bind fun low first => .skip fun _ => ?_
  refine (shaped.operand _).bind fun high second => .pure (.of_children trivial ?_)
  simpa using ⟨before, first, second⟩

omit before in
theorem escapeOperand_yields (op : LikeOp) : (escapeOperand inner op).Yields fun found =>
    ∀ tree ∈ found, (Node.expr tree).WellShaped := by
  unfold escapeOperand
  split
  · exact .pure (by simp)
  · refine .skip fun found => .ite (fun _ => ?_) fun _ => .pure (by simp)
    exact (shaped.operand _).bind fun escape known => .pure (by simpa using known)

theorem likeTest_yields (op : LikeOp) (negated : Bool) :
    (likeTest inner left op negated).Yields fun tree => (Node.expr tree).WellShaped := by
  unfold likeTest
  refine (shaped.operand _).bind fun pattern first => ?_
  refine (escapeOperand_yields shaped op).bind fun escape second => .pure (.of_children trivial ?_)
  simpa using ⟨before, first, second⟩

omit shaped in
theorem collate_yields : (collate left).Yields fun tree => (Node.expr tree).WellShaped := by
  unfold collate
  refine .skip fun _ => .skip fun name => .pure (.of_children trivial ?_)
  simpa using before

theorem continueWith_yields {continuation : Continuation}
    (compares : ∀ op, continuation = .comparison op → op.isComparison = true) :
    (continueWith inner left continuation).Yields fun tree => (Node.expr tree).WellShaped := by
  unfold continueWith
  refine .skip fun _ => ?_
  cases continuation with
  | operator op =>
      refine (shaped.operand _).bind fun right known => .pure ?_
      exact Node.wellShaped_ofOperands op before known
  | comparison op => exact comparison_yields shaped before (compares op rfl)
  | is => exact isTest_yields before
  | isIn negated => exact inTest_yields shaped before negated
  | between negated => exact betweenTest_yields shaped before negated
  | like op negated => exact likeTest_yields shaped before op negated
  | soundsLike =>
      refine (shaped.operand _).bind fun pattern known => .pure (.of_children trivial ?_)
      simpa using ⟨before, known⟩

theorem extendOperand_yields (power : Nat) : (extendOperand inner power left).Yields fun found =>
    ∀ tree ∈ found, (Node.expr tree).WellShaped := by
  have one : ∀ {rule : Rule Expr}, rule.Yields (fun tree => (Node.expr tree).WellShaped) →
      Yields (do return some (← rule)) fun found =>
        ∀ tree ∈ found, (Node.expr tree).WellShaped :=
    fun yields => yields.bind fun tree known => .pure (by simpa using known)
  unfold extendOperand
  refine .skip fun collates => .ite (fun _ => ?_) fun _ => ?_
  · exact .ite (fun _ => one (collate_yields before)) fun _ => .pure (by simp)
  · refine continuation?_yields.bind fun found compares => ?_
    split
    · next continuation =>
        refine .ite (fun _ => ?_) fun _ => .pure (by simp)
        exact one (continueWith_yields shaped before fun op same => compares op (by rw [same]))
    · exact .pure (by simp)

end Continued

/-! ### Calls, casts and cases -/

theorem callArguments_yields (function : Ident) :
    (callArguments inner function).Yields fun tree => (Node.expr tree).WellShaped := by
  have closing : ∀ (items : List Expr) (distinct : Bool), (distinct = true → items ≠ []) →
      (∀ item ∈ items, (Node.expr item).WellShaped) →
      Yields (do
        let stop ← expectMark .rightParen
        return Expr.call function (.list items) distinct (function.span.merge stop))
        fun tree => (Node.expr tree).WellShaped := by
    intro items distinct filled known
    refine .skip fun stop => .pure (.of_children ?_ (by simpa using known))
    exact fun asked => ⟨items, filled asked, rfl⟩
  have listed : ∀ (distinct noArguments : Bool), (distinct = true → noArguments = false) →
      Yields (if noArguments = true then do
          let items ← pure []
          let stop ← expectMark .rightParen
          return Expr.call function (.list items) distinct (function.span.merge stop)
        else do
          let items ← exprs inner
          let stop ← expectMark .rightParen
          return Expr.call function (.list items) distinct (function.span.merge stop))
        fun tree => (Node.expr tree).WellShaped := by
    intro distinct noArguments some_
    refine .ite (fun none_ => ?_) fun _ => ?_
    · refine closing [] distinct (fun asked => ?_) (by simp)
      rw [some_ asked] at none_
      cases none_
    · exact (exprs_yields shaped).bind fun items known =>
        closing items distinct (fun _ => known.1) known.2
  unfold callArguments
  refine .skip fun _ => .skip fun star => .ite (fun _ => ?_) fun _ => ?_
  · refine .skip fun stop => .pure (.of_children ?_ (by simp))
    exact fun asked => Bool.noConfusion asked
  · refine .skip fun distinct => .ite (fun asked => ?_) fun plain => ?_
    · exact listed distinct false fun _ => rfl
    · exact .skip fun noArguments => listed distinct noArguments fun asked => absurd asked plain

theorem keywordCall_yields :
    (keywordCall inner).Yields fun tree => (Node.expr tree).WellShaped := by
  unfold keywordCall
  exact .skip fun function => callArguments_yields shaped function

theorem nameExpr_yields : (nameExpr inner).Yields fun tree => (Node.expr tree).WellShaped := by
  unfold nameExpr
  refine .skip fun called => .ite (fun _ => ?_) fun _ => ?_
  · exact .skip fun function => callArguments_yields shaped function
  · refine columnRef_yields.bind fun ref known => .pure ?_
    exact .of_children trivial (by simpa using known)

theorem castExpr_yields : (castExpr inner).Yields fun tree => (Node.expr tree).WellShaped := by
  unfold castExpr
  refine .skip fun start => .skip fun _ => (expr_yields shaped).bind fun operand known => ?_
  refine .skip fun _ => typeName_yields.bind fun target fits => .skip fun stop => ?_
  exact .pure (.of_children fits (by simpa using known))

theorem whenBranches_yields : (whenBranches inner).Yields fun whens =>
    ∀ branch ∈ whens, (Node.expr branch.1).WellShaped ∧ (Node.expr branch.2).WellShaped := by
  have := shaped.lawful
  have repeats : (whileSome (nextWhen inner) []).Yields fun whens =>
      ∀ branch ∈ whens, (Node.expr branch.1).WellShaped ∧ (Node.expr branch.2).WellShaped := by
    refine .whileSome (by simp) fun whens known => ?_
    unfold nextWhen
    refine .skip fun found => .ite (fun _ => ?_) fun _ => .pure (by simp)
    refine (expr_yields shaped).bind fun condition first => .skip fun _ => ?_
    refine (expr_yields shaped).bind fun result second => .pure fun more found => ?_
    cases found
    exact List.forall_mem_cons.mpr ⟨⟨first, second⟩, known⟩
  rw [whenBranches_eq]
  exact repeats.bind fun whens known => .pure (by simpa using known)

theorem optionalExpr_yields :
    Yields (some <$> inner.expr) fun found => ∀ tree ∈ found, (Node.expr tree).WellShaped :=
  (expr_yields shaped).map fun tree known => by simpa using known

theorem caseExpr_yields : (caseExpr inner).Yields fun tree => (Node.expr tree).WellShaped := by
  have closing : ∀ (start : Span) (operand : Option Expr) (whens : List (Expr × Expr))
      (otherwise : Option Expr), whens ≠ [] →
      (∀ child ∈ (Expr.case operand whens otherwise start).children, child.WellShaped) →
      Yields (do
        let stop ← expectWord .END
        return Expr.case operand whens otherwise (start.merge stop))
        fun tree => (Node.expr tree).WellShaped := by
    intro start operand whens otherwise filled known
    exact .skip fun stop => .pure (.of_children filled known)
  have branches : ∀ (start : Span) (operand : Option Expr),
      (∀ tree ∈ operand, (Node.expr tree).WellShaped) →
      Yields (do
        let whens ← whenBranches inner
        if whens.isEmpty then
          fail [Keyword.WHEN.spelling]
        else
          let otherwise ← if ← eatWord .ELSE then some <$> inner.expr else pure none
          let stop ← expectWord .END
          return Expr.case operand whens otherwise (start.merge stop))
        fun tree => (Node.expr tree).WellShaped := by
    intro start operand first
    refine (whenBranches_yields shaped).bind fun whens second => ?_
    refine .ite (fun _ => .fail) fun filled => ?_
    have nonempty : whens ≠ [] := fun none_ => filled (by simp [none_])
    have children : ∀ otherwise : Option Expr, (∀ tree ∈ otherwise, (Node.expr tree).WellShaped) →
        ∀ child ∈ (Expr.case operand whens otherwise start).children, child.WellShaped := by
      intro otherwise third
      simp only [Expr.children, List.forall_mem_append, List.forall_mem_map, Option.mem_toList,
        List.forall_mem_flatMap, List.forall_mem_cons, List.not_mem_nil, false_implies,
        implies_true, and_true]
      exact ⟨⟨first, second⟩, third⟩
    refine .skip fun found => .ite (fun _ => ?_) fun _ => ?_
    · exact (optionalExpr_yields shaped).bind fun otherwise third =>
        closing start operand whens otherwise nonempty (children otherwise third)
    · exact closing start operand whens none nonempty (children none (by simp))
  unfold caseExpr
  refine .skip fun start => .skip fun direct => .ite (fun _ => ?_) fun _ => ?_
  · exact branches start none (by simp)
  · exact (optionalExpr_yields shaped).bind fun operand known => branches start operand known

/-! ### In front of an operand -/

theorem unaryExpr_yields (op : UnaryOp) (power : Nat) :
    (unaryExpr inner op power).Yields fun tree => (Node.expr tree).WellShaped := by
  unfold unaryExpr
  refine .skip fun start => (shaped.operand power).bind fun operand known => .pure ?_
  exact .of_children trivial (by simpa using known)

theorem existsExpr_yields : (existsExpr inner).Yields fun tree => (Node.expr tree).WellShaped := by
  unfold existsExpr
  refine .skip fun start => .skip fun _ => shaped.query.bind fun query known => .skip fun stop => ?_
  exact .pure (.of_children trivial (by simpa using known))

theorem rowExpr_yields : (rowExpr inner).Yields fun tree => (Node.expr tree).WellShaped := by
  unfold rowExpr
  refine .skip fun start => .skip fun _ => (exprs_yields shaped).bind fun items known => ?_
  exact .skip fun stop => .pure (.of_children known.1 (by simpa using known.2))

theorem exprInParens_yields :
    (exprInParens inner).Yields fun tree => (Node.expr tree).WellShaped := by
  unfold exprInParens
  refine .skip fun start => (expr_yields shaped).bind fun first known => ?_
  refine .skip fun comma => .ite (fun _ => ?_) fun _ => ?_
  · refine (exprs_yields shaped).bind fun others all => .skip fun stop => .pure ?_
    exact .of_children (List.cons_ne_nil first others) (by simpa using ⟨known, all.2⟩)
  · exact .skip fun _ => .pure known

theorem parenExpr_yields : (parenExpr inner).Yields fun tree => (Node.expr tree).WellShaped := by
  have := shaped.lawful
  unfold parenExpr
  refine .skip fun next => ?_
  split
  · exact subquery_yields shaped
  · exact subquery_yields shaped
  · refine .attempt (subquery_yields shaped) (fun tree known => .pure known) ?_
    exact exprInParens_yields shaped
  · exact exprInParens_yields shaped

theorem keywordExpr_yields (word : Keyword) :
    (keywordExpr inner word).Yields fun tree => (Node.expr tree).WellShaped := by
  have asName : Yields (if word.isNonreserved then nameExpr inner else fail ["expression"])
      fun tree => (Node.expr tree).WellShaped :=
    .ite (fun _ => nameExpr_yields shaped) fun _ => .fail
  unfold keywordExpr
  refine .ite (fun _ => .skip fun called => .ite (fun _ => ?_) fun _ => asName) fun _ => asName
  exact keywordCall_yields shaped

theorem temporalExpr_yields (word : Keyword) (kind : TemporalKind) :
    (temporalExpr inner word kind).Yields fun tree => (Node.expr tree).WellShaped := by
  unfold temporalExpr
  refine .skip fun next => .ite (fun _ => temporalLiteral_yields kind) fun _ => ?_
  exact keywordExpr_yields shaped word

theorem currentTimestampExpr_yields :
    (currentTimestampExpr inner).Yields fun tree => (Node.expr tree).WellShaped := by
  unfold currentTimestampExpr
  refine .skip fun opened => .ite (fun _ => ?_) fun _ => currentTimestamp_yields
  refine .skip fun closed => .ite (fun _ => currentTimestamp_yields) fun _ => ?_
  exact keywordCall_yields shaped

theorem defaultExpr_yields :
    (defaultExpr inner).Yields fun tree => (Node.expr tree).WellShaped := by
  unfold defaultExpr
  refine .skip fun called => .ite (fun _ => keywordExpr_yields shaped _) fun _ => ?_
  exact .skip fun token => .pure (.of_children trivial (by simp))

theorem wordExpr_yields (text : String) :
    (wordExpr inner text).Yields fun tree => (Node.expr tree).WellShaped := by
  unfold wordExpr
  refine .skip fun next => .ite (fun _ => ?_) fun _ => nameExpr_yields shaped
  split
  · exact introducedLiteral_yields _
  · exact nameExpr_yields shaped

theorem primaryExpr_yields :
    (primaryExpr inner).Yields fun tree => (Node.expr tree).WellShaped := by
  unfold primaryExpr
  refine .skip fun kind => ?_
  split
  · exact tokenLiteral_yields trivial
  · exact tokenLiteral_yields trivial
  · exact .skip fun found => .pure (Node.wellShaped_literal trivial)
  · exact tokenLiteral_yields trivial
  · exact tokenLiteral_yields trivial
  · exact wordExpr_yields shaped _
  · exact nameExpr_yields shaped
  · exact placeholder_yields
  · exact odbcLiteral_yields
  · exact unaryExpr_yields shaped _ _
  · exact unaryExpr_yields shaped _ _
  · exact unaryExpr_yields shaped _ _
  · exact unaryExpr_yields shaped _ _
  · exact parenExpr_yields shaped
  · exact unaryExpr_yields shaped _ _
  · exact unaryExpr_yields shaped _ _
  · exact tokenLiteral_yields trivial
  · exact tokenLiteral_yields trivial
  · exact tokenLiteral_yields trivial
  · exact temporalExpr_yields shaped _ _
  · exact temporalExpr_yields shaped _ _
  · exact temporalExpr_yields shaped _ _
  · exact currentTimestampExpr_yields shaped
  · exact defaultExpr_yields shaped
  · exact existsExpr_yields shaped
  · exact castExpr_yields shaped
  · exact caseExpr_yields shaped
  · exact .skip fun opened => .ite (fun _ => rowExpr_yields shaped) fun _ => .fail
  · exact keywordExpr_yields shaped _
  · exact .fail
  · exact .fail

theorem operandBody_yields (power : Nat) :
    (operandBody inner power).Yields fun tree => (Node.expr tree).WellShaped := by
  have := shaped.lawful
  unfold operandBody
  refine (primaryExpr_yields shaped).bind fun first known => ?_
  exact .whileSome known fun left before => extendOperand_yields shaped before power

end Rule

end SqlDml
