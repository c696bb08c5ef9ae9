import SqlDml.Grammar.Parse
import SqlDml.Proofs.Rules.Language

/-!
Contract: every rule of the language is built from a few primitives.

Owns:
- the primitives, and rules that are built from them by going on, by alternatives, by nesting levels
  and by repetition, where the bound on repetitions is no rule of its own;
- that each rule of the language is built so, one instance for each rule, in the order of the grammar.

Does not own: what holds of all rules that are built so; that is shown by induction on `Built`.
-/

namespace SqlDml

namespace Rule

/-- The rules that the others are built from. -/
inductive Primitive : {α : Type} → Rule α → Prop where
  | pure {α : Type} (value : α) : Primitive (pure value : Rule α)
  | peekToken (ahead : Nat) : Primitive (peekToken ahead)
  | advance : Primitive advance
  | previousSpan : Primitive previousSpan
  | tokensAhead : Primitive tokensAhead
  | sourceChars : Primitive sourceChars
  | currentSettings : Primitive currentSettings
  | nextPlaceholder : Primitive nextPlaceholder
  | fail {α : Type} (expected : List String) : Primitive (fail expected : Rule α)
  | tooDeep {α : Type} : Primitive (tooDeep : Rule α)
  | innerRules : Primitive innerRules
  | endOfSource : Primitive endOfSource

/-- The primitives that stand alone: all but the bound on repetitions, which tells how much of the
source is read, and the rules of the present nesting level, which are given to another rule. -/
inductive Basic : {α : Type} → Rule α → Prop where
  | pure {α : Type} (value : α) : Basic (pure value : Rule α)
  | peekToken (ahead : Nat) : Basic (peekToken ahead)
  | advance : Basic advance
  | previousSpan : Basic previousSpan
  | sourceChars : Basic sourceChars
  | currentSettings : Basic currentSettings
  | nextPlaceholder : Basic nextPlaceholder
  | fail {α : Type} (expected : List String) : Basic (fail expected : Rule α)
  | tooDeep {α : Type} : Basic (tooDeep : Rule α)
  | endOfSource : Basic endOfSource

theorem Basic.primitive {α : Type} {rule : Rule α} (basic : Basic rule) : Primitive rule := by
  cases basic <;> constructor

/-- A rule that is built from primitives.  The rules of the present nesting level are those of some
number of levels that may still be opened.  A step that is repeated leaves fewer tokens whenever it
gives something, so that the bound on its repetitions makes no difference. -/
class inductive Built : {α : Type} → Rule α → Prop where
  | basic {α : Type} {rule : Rule α} (basic : Basic rule) : Built rule
  | bind {α β : Type} {rule : Rule α} {next : α → Rule β} (front : Built rule)
      (behind : ∀ value, Built (next value)) : Built (rule >>= next)
  | attempt {α : Type} {rule : Rule α} (inside : Built rule) : Built (attempt rule)
  | enter {α : Type} {rule : Rule α} (inside : Built rule) : Built (enter rule)
  | levels {β : Type} {next : InnerRules → Rule β} (behind : ∀ levels, Built (next (innerAt levels))) :
      Built (innerRules >>= next)
  | whileSome {σ : Type} {step : σ → Rule (Option σ)} (steps : ∀ value, Built (step value))
      (shortens : ∀ (value next : σ) (state later : ParserState), state.Ready →
        step value state = (.ok (some next), later) →
          later.spot.ahead.length < state.spot.ahead.length)
      (first : σ) : Built (whileSome step first)

variable {α β σ : Type}

/-! ### Rules put together -/

instance (value : α) : (pure value : Rule α).Built := .basic (.pure value)

instance (ahead : Nat) : (peekToken ahead).Built := .basic (.peekToken ahead)

instance : advance.Built := .basic .advance

instance : previousSpan.Built := .basic .previousSpan

instance : sourceChars.Built := .basic .sourceChars

instance : currentSettings.Built := .basic .currentSettings

instance : nextPlaceholder.Built := .basic .nextPlaceholder

instance (expected : List String) : (fail expected : Rule α).Built := .basic (.fail expected)

instance : (tooDeep : Rule α).Built := .basic .tooDeep

instance : endOfSource.Built := .basic .endOfSource

instance (rule : Rule α) (next : α → Rule β) [front : rule.Built]
    [behind : ∀ value, (next value).Built] : (rule >>= next).Built := .bind front behind

instance (rule : Rule α) [inside : rule.Built] : (attempt rule).Built := .attempt inside

instance (rule : Rule α) [inside : rule.Built] : (enter rule).Built := .enter inside

theorem built_bind {rule : Rule α} {next : α → Rule β} [rule.Built]
    (continued : ∀ value, (next value).Built) : (rule >>= next).Built := inferInstance

instance (change : α → β) (rule : Rule α) [rule.Built] : (change <$> rule).Built := by
  rw [map_eq_bind]
  infer_instance

instance (condition : Prop) [Decidable condition] (left right : Rule α) [left.Built]
    [right.Built] : (if condition then left else right).Built := by
  split <;> infer_instance

instance (step : σ → Rule (Option σ)) [∀ value, (step value).Lawful]
    [∀ value, (step value).Shortens] [steps : ∀ value, (step value).Built] (first : σ) :
    (whileSome step first).Built :=
  .whileSome steps (fun _ next _ _ ready run => Shortens.shorter _ _ next (on_of_run ready run)) first

/-! ### One token -/

instance (ahead : Nat) : (peekAhead ahead).Built := by
  unfold peekAhead
  infer_instance

instance : peek.Built := by
  unfold peek
  infer_instance

instance : currentSpan.Built := by
  unfold currentSpan
  infer_instance

instance (kind : TokenKind) : (nextIs kind).Built := by
  unfold nextIs
  infer_instance

instance (ahead : Nat) (kind : TokenKind) : (aheadIs ahead kind).Built := by
  unfold aheadIs
  infer_instance

instance (kind : TokenKind) : (eat kind).Built := by
  unfold eat
  infer_instance

instance (kind : TokenKind) : (expect kind).Built := by
  unfold expect
  infer_instance

instance (word : Keyword) : (nextIsWord word).Built := by
  unfold nextIsWord
  infer_instance

instance (word : Keyword) : (eatWord word).Built := by
  unfold eatWord
  infer_instance

instance (word : Keyword) : (expectWord word).Built := by
  unfold expectWord
  infer_instance

instance (mark : Punct) : (nextIsMark mark).Built := by
  unfold nextIsMark
  infer_instance

instance (mark : Punct) : (eatMark mark).Built := by
  unfold eatMark
  infer_instance

instance (mark : Punct) : (expectMark mark).Built := by
  unfold expectMark
  infer_instance

/-! ### Lists -/

instance (item : Rule α) [item.Built] (items : List α) : (nextItem item items).Built := by
  unfold nextItem
  infer_instance

instance (item : Rule α) [item.Lawful] [item.Built] : (commaSeparated item).Built := by
  rw [commaSeparated_eq]
  infer_instance

/-! ### Names -/

instance (anyKeyword : Bool) : (name anyKeyword).Built := by
  rw [name_eq]
  refine built_bind fun token => built_bind fun source => ?_
  split <;> infer_instance

instance : identifier.Built := inferInstanceAs (name false).Built

instance : identifierAfterDot.Built := inferInstanceAs (name true).Built

instance : dotNameFollows.Built := by
  unfold dotNameFollows
  infer_instance

instance : tableName.Built := by
  unfold tableName
  infer_instance

instance : columnRef.Built := by
  unfold columnRef
  infer_instance

instance : restOfIdents.Built := by
  unfold restOfIdents
  infer_instance

instance : identsInParens.Built := by
  unfold identsInParens
  infer_instance

instance : identsInParensOrNone.Built := by
  unfold identsInParensOrNone
  infer_instance

instance : aliasName.Built := by
  unfold aliasName
  infer_instance

instance : aliasOrString.Built := by
  unfold aliasOrString
  refine built_bind fun explicit => built_bind fun token => ?_
  split <;> infer_instance

instance : partitions.Built := by
  unfold partitions
  infer_instance

/-! ### Constants -/

instance (value : String) : (nextPart value).Built := by
  unfold nextPart
  refine built_bind fun kind => ?_
  split <;> infer_instance

instance : stringRun.Built := by
  rw [stringRun_eq]
  infer_instance

instance : placeholder.Built := by
  unfold placeholder
  infer_instance

instance (value : Literal) : (tokenLiteral value).Built := by
  unfold tokenLiteral
  infer_instance

instance (kind : TemporalKind) : (temporalLiteral kind).Built := by
  unfold temporalLiteral
  infer_instance

instance : introducedValue.Built := by
  unfold introducedValue
  refine built_bind fun kind => ?_
  split <;> infer_instance

instance (charset : String) : (introducedLiteral charset).Built := by
  unfold introducedLiteral
  infer_instance

instance : odbcLiteral.Built := by
  unfold odbcLiteral
  infer_instance

instance : currentTimestamp.Built := by
  unfold currentTimestamp
  infer_instance

instance : typeSize.Built := by
  unfold typeSize
  refine built_bind fun kind => ?_
  split <;> infer_instance

instance : typeSizes.Built := by
  unfold typeSizes
  infer_instance

instance (words : List String) : (nextTypeWord words).Built := by
  unfold nextTypeWord
  refine built_bind fun kind => ?_
  split <;> infer_instance

instance : typeName.Built := by
  rw [typeName_eq]
  infer_instance

end Rule

/-- Rules for one nesting level deeper that are built. -/
class InnerRules.Built (inner : InnerRules) : Prop where
  operand : ∀ power, (inner.operand power).Built
  query : inner.query.Built
  tableInParens : inner.tableInParens.Built

namespace Rule

variable (inner : InnerRules) [inner.Lawful] [built : inner.Built]

/-! ### Behind an operand -/

instance (power : Nat) : (inner.operand power).Built := built.operand power

instance : inner.query.Built := built.query

instance : inner.tableInParens.Built := built.tableInParens

instance : inner.expr.Built := inferInstanceAs (inner.operand 0).Built

instance : (exprs inner).Built := inferInstanceAs (commaSeparated inner.expr).Built

instance : (queryInParens inner).Built := by
  unfold queryInParens
  infer_instance

instance : (subquery inner).Built := by
  unfold subquery
  infer_instance

instance (ahead : Nat) : (subqueryFollows ahead).Built := by
  unfold subqueryFollows
  infer_instance

instance (left : Expr) (op : BinaryOp) : (comparison inner left op).Built := by
  unfold comparison
  refine built_bind fun kind => ?_
  split <;> infer_instance

instance (left : Expr) : (isTest left).Built := by
  unfold isTest
  refine built_bind fun negated => built_bind fun kind => ?_
  split <;> infer_instance

instance : (queryBeforeParen inner).Built := by
  unfold queryBeforeParen
  infer_instance

instance : (inSet inner).Built := by
  unfold inSet
  refine built_bind fun kind => ?_
  split
  · infer_instance
  · infer_instance
  · refine built_bind fun found => ?_
    split <;> infer_instance
  · infer_instance

instance (left : Expr) (negated : Bool) : (inTest inner left negated).Built := by
  unfold inTest
  infer_instance

instance (left : Expr) (negated : Bool) : (betweenTest inner left negated).Built := by
  unfold betweenTest
  infer_instance

instance (op : LikeOp) : (escapeOperand inner op).Built := by
  unfold escapeOperand
  split <;> infer_instance

instance (left : Expr) (op : LikeOp) (negated : Bool) : (likeTest inner left op negated).Built := by
  unfold likeTest
  infer_instance

instance : collationName.Built := by
  unfold collationName
  refine built_bind fun token => ?_
  split <;> infer_instance

instance (left : Expr) : (collate left).Built := by
  unfold collate
  infer_instance

instance : continuation?.Built := by
  rw [continuation?_eq]
  refine built_bind fun kind => ?_
  split <;> infer_instance

instance (continuation : Continuation) : (skipContinuation continuation).Built := by
  unfold skipContinuation
  infer_instance

instance (left : Expr) (continuation : Continuation) :
    (continueWith inner left continuation).Built := by
  unfold continueWith
  refine built_bind fun skipped => ?_
  split <;> infer_instance

instance (power : Nat) (left : Expr) : (extendOperand inner power left).Built := by
  unfold extendOperand
  refine built_bind fun collates => ?_
  split
  · infer_instance
  · refine built_bind fun found => ?_
    split <;> infer_instance

/-! ### Calls, casts and cases -/

instance (function : Ident) : (callArguments inner function).Built := by
  unfold callArguments
  refine built_bind fun opened => built_bind fun star => ?_
  split
  · infer_instance
  · refine built_bind fun distinct => ?_
    split <;> infer_instance

instance : (keywordCall inner).Built := by
  unfold keywordCall
  infer_instance

instance : (nameExpr inner).Built := by
  unfold nameExpr
  infer_instance

instance : (castExpr inner).Built := by
  unfold castExpr
  infer_instance

instance (whens : List (Expr × Expr)) : (nextWhen inner whens).Built := by
  unfold nextWhen
  infer_instance

instance : (whenBranches inner).Built := by
  rw [whenBranches_eq]
  infer_instance

instance : (caseExpr inner).Built := by
  unfold caseExpr
  refine built_bind fun start => built_bind fun bare => ?_
  split <;> infer_instance

/-! ### In front of an operand -/

instance (op : UnaryOp) (power : Nat) : (unaryExpr inner op power).Built := by
  unfold unaryExpr
  infer_instance

instance : (existsExpr inner).Built := by
  unfold existsExpr
  infer_instance

instance : (rowExpr inner).Built := by
  unfold rowExpr
  infer_instance

instance : (exprInParens inner).Built := by
  unfold exprInParens
  infer_instance

instance : (parenExpr inner).Built := by
  unfold parenExpr
  refine built_bind fun kind => ?_
  split
  · infer_instance
  · infer_instance
  · refine built_bind fun found => ?_
    split <;> infer_instance
  · infer_instance

instance (word : Keyword) : (keywordExpr inner word).Built := by
  unfold keywordExpr
  infer_instance

instance (word : Keyword) (kind : TemporalKind) : (temporalExpr inner word kind).Built := by
  unfold temporalExpr
  infer_instance

instance : (currentTimestampExpr inner).Built := by
  unfold currentTimestampExpr
  infer_instance

instance : (defaultExpr inner).Built := by
  unfold defaultExpr
  infer_instance

instance (text : String) : (wordExpr inner text).Built := by
  unfold wordExpr
  refine built_bind fun kind => ?_
  split
  · split <;> infer_instance
  · infer_instance

instance : (primaryExpr inner).Built := by
  unfold primaryExpr
  refine built_bind fun kind => ?_
  split <;> infer_instance

instance (power : Nat) : (operandBody inner power).Built := by
  unfold operandBody
  infer_instance

/-! ### Tables -/

instance : hintScope.Built := by
  unfold hintScope
  refine built_bind fun purpose => ?_
  split
  · refine built_bind fun join => ?_
    split <;> infer_instance
  · infer_instance

instance (action : IndexHintAction) : (indexHint action).Built := by
  unfold indexHint
  infer_instance

instance : skipHintComma.Built := by
  unfold skipHintComma
  infer_instance

instance (hints : List IndexHint) : (nextHint hints).Built := by
  unfold nextHint
  refine built_bind fun kind => ?_
  split <;> infer_instance

instance : indexHints.Built := by
  rw [indexHints_eq]
  infer_instance

instance : namedTable.Built := by
  unfold namedTable
  infer_instance

instance (join : JoinType) : (joinWord join).Built := by
  unfold joinWord
  infer_instance

instance : naturalJoin.Built := by
  unfold naturalJoin
  infer_instance

instance : joinType.Built := by
  unfold joinType
  refine built_bind fun kind => ?_
  split <;> infer_instance

instance : (onCondition inner).Built := by
  unfold onCondition
  infer_instance

instance : (onOrUsing inner).Built := by
  unfold onOrUsing
  refine built_bind fun found => ?_
  split <;> infer_instance

instance (join : JoinType) : (joinCondition inner join).Built := by
  unfold joinCondition
  split
  · infer_instance
  · split
    · infer_instance
    · refine built_bind fun found => ?_
      split <;> infer_instance

instance : (tableFactor inner).Built := by
  unfold tableFactor
  infer_instance

instance (left : TableRef) : (extendJoin inner left).Built := by
  unfold extendJoin
  refine built_bind fun found => ?_
  split <;> infer_instance

instance : (tableRef inner).Built := by
  unfold tableRef
  infer_instance

instance : (tableRefs inner).Built := inferInstanceAs (commaSeparated (tableRef inner)).Built

instance (start : Span) : (derivedTable inner start).Built := by
  unfold derivedTable
  refine built_bind fun _ => built_bind fun query => built_bind fun _ => built_bind fun found => ?_
  split <;> infer_instance

instance (start : Span) : (tableRefsInParens inner start).Built := by
  unfold tableRefsInParens
  infer_instance

instance : (tableInParensBody inner).Built := by
  unfold tableInParensBody
  refine built_bind fun start => built_bind fun kind => ?_
  split
  · refine built_bind fun found => ?_
    split <;> infer_instance
  · infer_instance

/-! ### Clauses -/

instance : (whereClause inner).Built := by
  unfold whereClause
  infer_instance

instance : sortDirection.Built := by
  unfold sortDirection
  infer_instance

instance : (orderingTerm inner).Built := by
  unfold orderingTerm
  refine built_bind fun expr => built_bind fun direction => ?_
  split <;> infer_instance

instance : (orderingTerms inner).Built :=
  inferInstanceAs (commaSeparated (orderingTerm inner)).Built

instance : (orderByClause inner).Built := by
  unfold orderByClause
  infer_instance

instance : limitOperand.Built := by
  unfold limitOperand
  refine built_bind fun kind => ?_
  split <;> infer_instance

instance : limitNumbers.Built := by
  unfold limitNumbers
  infer_instance

instance (allowOffset : Bool) : (limitClause allowOffset).Built := by
  unfold limitClause
  refine built_bind fun limited => ?_
  split
  · refine built_bind fun start => ?_
    dsimp only
    split <;> infer_instance
  · infer_instance

instance : lockMode.Built := by
  unfold lockMode
  infer_instance

instance : lockedTables.Built := by
  unfold lockedTables
  infer_instance

instance : lockWait.Built := by
  unfold lockWait
  infer_instance

instance : lockingClause.Built := by
  unfold lockingClause
  refine built_bind fun start => built_bind fun locks => ?_
  split <;> infer_instance

/-! ### Select blocks -/

instance (modifiers : SelectModifiers) : (nextModifier modifiers).Built := by
  unfold nextModifier
  refine built_bind fun kind => ?_
  split <;> infer_instance

instance : selectModifiers.Built := by
  rw [selectModifiers_eq]
  infer_instance

instance : (exprItem inner).Built := by
  unfold exprItem
  infer_instance

instance : tableWildcard.Built := by
  unfold tableWildcard
  infer_instance

instance : schemaWildcard.Built := by
  unfold schemaWildcard
  infer_instance

instance : schemaWildcardFollows.Built := by
  unfold schemaWildcardFollows
  infer_instance

instance : (dottedItem inner).Built := by
  unfold dottedItem
  infer_instance

instance : (selectItem inner).Built := by
  unfold selectItem
  infer_instance

instance : (fromClause inner).Built := by
  unfold fromClause
  infer_instance

instance : withRollup.Built := by
  unfold withRollup
  infer_instance

instance : (groupByClause inner).Built := by
  unfold groupByClause
  infer_instance

instance : (havingClause inner).Built := by
  unfold havingClause
  infer_instance

instance : (selectCore inner).Built := by
  unfold selectCore
  infer_instance

/-! ### Queries -/

instance : (queryTerm inner).Built := by
  unfold queryTerm
  refine built_bind fun kind => ?_
  split <;> infer_instance

instance : compoundOp.Built := by
  unfold compoundOp
  infer_instance

instance (compounds : List (CompoundOp × QueryTerm)) : (nextCompound inner compounds).Built := by
  unfold nextCompound
  infer_instance

instance : (queryBody inner).Built := by
  rw [queryBody_eq]
  infer_instance

instance : (commonTable inner).Built := by
  unfold commonTable
  refine built_bind fun name => built_bind fun listed => ?_
  dsimp only
  split <;> infer_instance

instance : (withClause inner).Built := by
  unfold withClause
  infer_instance

instance : (wholeQuery inner).Built := by
  unfold wholeQuery
  infer_instance

/-! ### Statements -/

instance : (assignment inner).Built := by
  unfold assignment
  infer_instance

instance : (assignments inner).Built :=
  inferInstanceAs (commaSeparated (assignment inner)).Built

instance : (valueRow inner).Built := by
  unfold valueRow
  infer_instance

instance : insertKind.Built := by
  unfold insertKind
  infer_instance

instance (kind : InsertKind) : (insertPriority kind).Built := by
  unfold insertPriority
  refine built_bind fun next => ?_
  split <;> infer_instance

instance (kind : InsertKind) (word : Keyword) : (eatInsertWord kind word).Built := by
  unfold eatInsertWord
  infer_instance

instance : insertColumns.Built := by
  unfold insertColumns
  infer_instance

instance : (insertRows inner).Built := by
  unfold insertRows
  refine built_bind fun kind => ?_
  split <;> infer_instance

instance : (insertSource inner).Built := by
  unfold insertSource
  infer_instance

instance (kind : InsertKind) : (onDuplicate inner kind).Built := by
  unfold onDuplicate
  infer_instance

instance : (insert inner).Built := by
  unfold insert
  infer_instance

instance (options : Bool × Bool) : (nextUpdateOption options).Built := by
  unfold nextUpdateOption
  infer_instance

instance : updateOptions.Built := by
  rw [updateOptions_eq]
  infer_instance

instance : (update inner).Built := by
  unfold update
  infer_instance

instance (options : DeleteOptions) : (nextDeleteOption options).Built := by
  unfold nextDeleteOption
  refine built_bind fun kind => ?_
  split <;> infer_instance

instance : deleteOptions.Built := by
  rw [deleteOptions_eq]
  infer_instance

instance : deleteTarget.Built := by
  unfold deleteTarget
  infer_instance

instance : deleteTargets.Built := inferInstanceAs (commaSeparated deleteTarget).Built

instance : deleteTable.Built := by
  unfold deleteTable
  infer_instance

instance : (deleteUsing inner).Built := by
  unfold deleteUsing
  infer_instance

instance : (deleteSource inner).Built := by
  unfold deleteSource
  refine built_bind fun behindFrom => ?_
  split
  · refine built_bind fun found => ?_
    split <;> infer_instance
  · infer_instance

instance (source : DeleteSource) : (deleteTail inner source).Built := by
  unfold deleteTail
  split <;> infer_instance

instance : (delete inner).Built := by
  unfold delete
  infer_instance

instance : (statement inner).Built := by
  unfold statement
  refine built_bind fun kind => ?_
  split <;> infer_instance

/-! ### Nesting levels -/

instance innerAt_built (levels : Nat) : (innerAt levels).Built := by
  induction levels with
  | zero =>
      refine ⟨fun power => ?_, ?_, ?_⟩
      · rw [operand_zero]
        infer_instance
      · rw [query_zero]
        infer_instance
      · rw [tableInParens_zero]
        infer_instance
  | succ levels inductionHypothesis =>
      refine ⟨fun power => ?_, ?_, ?_⟩
      · rw [operand_succ]
        infer_instance
      · rw [query_succ]
        infer_instance
      · rw [tableInParens_succ]
        infer_instance

/-! ### The whole source -/

instance : expression.Built := .levels fun levels => inferInstanceAs (innerAt levels).expr.Built

instance : wholeExpression.Built := by
  unfold wholeExpression
  infer_instance

instance : wholeStatement.Built := .levels fun _ => inferInstance

end Rule

end SqlDml
