import SqlDml.Proofs.Abreast.InStep

/-!
Contract: names, constants and expressions of two runs side by side.

Owns:
- one instance for each rule for names, constants, parameter markers and type names;
- rules of the next nesting level that keep two runs in step wherever a level may be opened;
- one instance for each rule for expressions;
- the rules that may come first behind an open level, which consume a token before they open the
  next one.

Does not own: queries and table references.
-/

/-! ## Names and constants -/

namespace SqlDml.Comparison

open Rule

set_option synthInstance.maxSize 1000

variable {C : Comparison} {need inside : Bool}

namespace InStep

/-! ### Names -/

instance : InStep C need dotNameFollows dotNameFollows := by
  unfold dotNameFollows
  infer_instance

instance : InStep C need tableName tableName := by
  unfold tableName
  infer_instance

instance : InStep C need columnRef columnRef := by
  unfold columnRef
  infer_instance

instance : InStep C need restOfIdents restOfIdents := by
  unfold restOfIdents
  infer_instance

instance : InStep C need identsInParens identsInParens := by
  unfold identsInParens
  infer_instance

instance : InStep C need identsInParensOrNone identsInParensOrNone := by
  unfold identsInParensOrNone
  infer_instance

instance : InStep C need aliasName aliasName := by
  unfold aliasName
  infer_instance

/-- By the kind of a token, which is the same on both sides. -/
theorem ofToken {α : Type} [Labelled α] {next other : Token → Rule α} (ahead : Nat)
    (rest : ∀ (kind : TokenKind) (spans : AlikePair C.likeness Span),
      InStep C need (next ⟨kind, spans.left⟩) (other ⟨kind, spans.right⟩)) :
    InStep C need (Rule.peekToken ahead >>= next) (Rule.peekToken ahead >>= other) := by
  refine behind ?_
  rintro ⟨⟨kind, span⟩, ⟨kind', span'⟩⟩
  rename_i alike
  obtain rfl : kind = kind' := alike.kind_eq
  have spans : Alike C.likeness span span' := ⟨congrArg Token.span alike.same⟩
  exact rest kind ⟨span, span'⟩

instance : InStep C need aliasOrString aliasOrString := by
  unfold aliasOrString
  refine behindPlain (fun explicit => ofToken 0 fun kind spans => ?_)
  dsimp only
  split <;> infer_instance

instance : InStep C need partitions partitions := by
  unfold partitions
  infer_instance

/-! ### Constants -/

instance (value : String) : InStep C need (nextPart value) (nextPart value) := by
  unfold nextPart
  refine behindPlain (fun kind => ?_)
  split <;> infer_instance

instance : InStep C need stringRun stringRun := by
  rw [stringRun_eq]
  infer_instance

/-- Behind a run of strings, whose texts are the same on both sides. -/
theorem ofStringRun {α : Type} [Labelled α] {next other : String × Span → Rule α}
    (rest : ∀ (value : String) (spans : AlikePair C.likeness Span),
      InStep C need (next (value, spans.left)) (other (value, spans.right))) :
    InStep C need (stringRun >>= next) (stringRun >>= other) := by
  refine both ?_
  rintro ⟨value, copied⟩ spans
  rename_i alike
  obtain rfl := alike.eq
  exact rest value spans

instance : InStep C need placeholder placeholder := by
  unfold placeholder
  refine behind (fun token => numbering fun index index' same => ?_)
  have alike : Alike C.likeness (Expr.placeholder index token.left.span)
      (.placeholder index' token.right.span) := Alike.placeholder same
  infer_instance

instance (value : Literal) : InStep C need (tokenLiteral value) (tokenLiteral value) := by
  unfold tokenLiteral
  infer_instance

instance (kind : TemporalKind) : InStep C need (temporalLiteral kind) (temporalLiteral kind) := by
  unfold temporalLiteral
  refine behind (fun word => ofStringRun fun value spans => ?_)
  dsimp only
  infer_instance

instance : InStep C need introducedValue introducedValue := by
  unfold introducedValue
  refine behindPlain (fun kind => ?_)
  split
  · refine ofStringRun fun value spans => ?_
    infer_instance
  · infer_instance
  · infer_instance
  · infer_instance

instance (charset : String) : InStep C need (introducedLiteral charset) (introducedLiteral charset) := by
  unfold introducedLiteral
  infer_instance

instance : InStep C need odbcLiteral odbcLiteral := by
  unfold odbcLiteral
  refine behind (fun start => behind (fun kind => behindPlain (fun next => ?_)))
  split
  · refine ofStringRun fun value spans => ?_
    dsimp only
    refine behind (fun stop => ?_)
    infer_instance
  · infer_instance

instance : InStep C need currentTimestamp currentTimestamp := by
  unfold currentTimestamp
  infer_instance

instance : InStep C need typeSize typeSize := by
  unfold typeSize
  refine behindPlain (fun kind => ?_)
  split <;> infer_instance

instance : InStep C need typeSizes typeSizes := by
  unfold typeSizes
  dsimp only
  infer_instance

instance (words : List String) : InStep C need (nextTypeWord words) (nextTypeWord words) := by
  unfold nextTypeWord
  refine behindPlain (fun kind => ?_)
  split <;> infer_instance

instance : InStep C need typeName typeName := by
  rw [typeName_eq]
  infer_instance

end InStep

namespace Consuming

instance : Consuming inside columnRef := by
  unfold columnRef
  infer_instance

instance : Consuming true placeholder := by
  unfold placeholder
  infer_instance

instance (value : Literal) : Consuming true (tokenLiteral value) := by
  unfold tokenLiteral
  infer_instance

instance (kind : TemporalKind) : Consuming true (temporalLiteral kind) := by
  unfold temporalLiteral
  infer_instance

instance (charset : String) : Consuming true (introducedLiteral charset) := by
  unfold introducedLiteral
  infer_instance

instance : Consuming inside odbcLiteral := by
  unfold odbcLiteral
  infer_instance

instance : Consuming true currentTimestamp := by
  unfold currentTimestamp
  infer_instance

/-- At a string a run of strings consumes a token. -/
theorem length_of_stringRun {spot later : Spot} {part : String} {quote : Char}
    {read : String × Span} (kind : spot.kind = .string part quote)
    (outcome : stringRun.on spot = .done read later) :
    later.ahead.length < spot.ahead.length := by
  rw [stringRun_eq, on_bind, on_currentSpan, Outcome.bind_done, on_bind, on_whileSome, on_nextPart,
    kind] at outcome
  obtain ⟨value, middle, repeated, rest⟩ := Outcome.bind_eq_done.mp outcome
  have first : spot.next.ahead.length < spot.ahead.length := Spot.length_next_lt (by simp [kind])
  have behind : middle.ahead.length ≤ spot.next.ahead.length := (leads_of_on repeated).length_le
  have same := (leads_of_on rest).length_le
  omega

end Consuming

end SqlDml.Comparison

/-! ## Expressions -/

namespace SqlDml.Comparison

open Rule

set_option synthInstance.maxSize 1000

/-- Rules of the next nesting level that keep in step wherever a level may be opened. -/
class InnerInStep (C : Comparison) (inner inner' : InnerRules) : Prop where
  operand : ∀ power, InStep C true (inner.operand power) (inner'.operand power)
  query : InStep C true inner.query inner'.query
  tableInParens : InStep C true inner.tableInParens inner'.tableInParens

variable {C : Comparison} {inside : Bool} {inner inner' : InnerRules} [inner.Lawful]
  [levels : InnerInStep C inner inner']

namespace InStep

instance (power : Nat) : InStep C true (inner.operand power) (inner'.operand power) :=
  levels.operand power

instance : InStep C true inner.query inner'.query := levels.query

instance : InStep C true inner.tableInParens inner'.tableInParens := levels.tableInParens

instance : InStep C true inner.expr inner'.expr := by
  unfold InnerRules.expr
  infer_instance

instance : InStep C true (exprs inner) (exprs inner') := by
  unfold exprs
  infer_instance

/-! ### Behind an operand -/

variable {left left' : Expr} [Alike C.likeness left left']

instance (ahead : Nat) : InStep C true (subqueryFollows ahead) (subqueryFollows ahead) := by
  unfold subqueryFollows
  infer_instance

instance (op : BinaryOp) : InStep C true (comparison inner left op) (comparison inner' left' op) := by
  unfold comparison
  refine behindPlain (fun kind => ?_)
  split <;> infer_instance

instance : InStep C true (isTest left) (isTest left') := by
  unfold isTest
  refine behindPlain (fun negated => behindPlain (fun kind => ?_))
  split <;> infer_instance

instance : InStep C true (queryBeforeParen inner) (queryBeforeParen inner') := by
  unfold queryBeforeParen
  infer_instance

instance : InStep C true (inSet inner) (inSet inner') := by
  unfold inSet
  refine behindPlain (fun kind => ?_)
  split
  · infer_instance
  · infer_instance
  · exact .attempt (fun pair => inferInstance) inferInstance
  · infer_instance

instance (negated : Bool) : InStep C true (inTest inner left negated) (inTest inner' left' negated) := by
  unfold inTest
  infer_instance

instance (negated : Bool) :
    InStep C true (betweenTest inner left negated) (betweenTest inner' left' negated) := by
  unfold betweenTest
  infer_instance

instance (op : LikeOp) : InStep C true (escapeOperand inner op) (escapeOperand inner' op) := by
  unfold escapeOperand
  split <;> infer_instance

instance (op : LikeOp) (negated : Bool) :
    InStep C true (likeTest inner left op negated) (likeTest inner' left' op negated) := by
  unfold likeTest
  refine behind (fun pattern => .found (fun escape => ?_) ?_)
  · dsimp only [Option.getD_some]
    infer_instance
  · dsimp only [Option.getD_none]
    infer_instance

instance : InStep C true collationName collationName := by
  unfold collationName
  refine ofToken 0 fun kind spans => ?_
  dsimp only
  split <;> infer_instance

instance : InStep C true (collate left) (collate left') := by
  unfold collate
  infer_instance

/-- Whether two bars join texts. -/
def pipesAsConcat : Rule Bool := fun state => (.ok state.settings.pipesAsConcat, state)

instance : InStep C true pipesAsConcat pipesAsConcat where
  abreast {state other} near _ := by
    obtain ⟨ready, ready'⟩ := C.ready near
    have same : Alike C.likeness state.settings.pipesAsConcat other.settings.pipesAsConcat := by
      rw [C.pipes near]
      infer_instance
    exact ⟨.refl ready, .refl ready', .done same near nofun⟩

theorem continuation?_eq_pipes :
    continuation? = (peek >>= fun kind =>
      match kind with
      | .keyword .NOT => peekAhead 1 >>= fun kind => Pure.pure (Continuation.afterNot? kind)
      | .keyword .SOUNDS => peekAhead 1 >>= fun kind => Pure.pure (Continuation.afterSounds? kind)
      | kind => pipesAsConcat >>= fun pipes => Pure.pure (Continuation.ofToken? pipes kind)) := rfl

instance : InStep C true continuation? continuation? := by
  rw [continuation?_eq_pipes]
  refine behindPlain (fun kind => ?_)
  split <;> infer_instance

instance (continuation : Continuation) :
    InStep C true (skipContinuation continuation) (skipContinuation continuation) := by
  unfold skipContinuation
  infer_instance

instance (continuation : Continuation) :
    InStep C true (continueWith inner left continuation) (continueWith inner' left' continuation) := by
  unfold continueWith
  refine behindPlain (fun skipped => ?_)
  split <;> infer_instance

instance (power : Nat) : InStep C true (extendOperand inner power left) (extendOperand inner' power left') := by
  unfold extendOperand
  refine behindPlain (fun collates => ?_)
  split
  · infer_instance
  · refine behindPlain (fun found => ?_)
    split <;> infer_instance

/-! ### Calls, casts and cases -/

variable {function function' : Ident} [Alike C.likeness function function']

instance : InStep C true (callArguments inner function) (callArguments inner' function') := by
  unfold callArguments
  refine behind (fun opened => behindPlain (fun star => ?_))
  split
  · infer_instance
  · refine behindPlain (fun distinct => ?_)
    dsimp only
    infer_instance

instance {whens whens' : List (Expr × Expr)} [Alike C.likeness whens whens'] :
    InStep C true (nextWhen inner whens) (nextWhen inner' whens') := by
  unfold nextWhen
  infer_instance

instance : InStep C true (whenBranches inner) (whenBranches inner') := by
  rw [whenBranches_eq, whenBranches_eq]
  infer_instance

end InStep

namespace Opening

/-! ### Calls, casts and cases -/

instance : Opening C inside (queryInParens inner) (queryInParens inner') := by
  unfold queryInParens
  infer_instance

instance : Opening C inside (subquery inner) (subquery inner') := by
  unfold subquery
  refine behind ?_
  rintro ⟨⟨query, span⟩, ⟨query', span'⟩⟩
  rename_i alike
  have queries : Alike C.likeness query query' := ⟨congrArg Prod.fst alike.same⟩
  have spans : Alike C.likeness span span' := ⟨congrArg Prod.snd alike.same⟩
  dsimp only
  infer_instance

instance : Opening C inside (keywordCall inner) (keywordCall inner') := by
  unfold keywordCall
  infer_instance

instance : Opening C inside (nameExpr inner) (nameExpr inner') := by
  unfold nameExpr
  refine lookPlain fun called => ?_
  infer_instance

instance : Opening C inside (castExpr inner) (castExpr inner') := by
  unfold castExpr
  infer_instance

instance : Opening C inside (caseExpr inner) (caseExpr inner') := by
  unfold caseExpr
  refine behind (fun start => .behindPlain (fun bare => ?_))
  dsimp only
  split
  all_goals
    refine .behind (fun operand => .behind (fun whens => ?_))
    rw [whens.alike.isEmpty_eq]
    infer_instance

/-! ### In front -/

instance (op : UnaryOp) (power : Nat) :
    Opening C true (unaryExpr inner op power) (unaryExpr inner' op power) := by
  unfold unaryExpr
  infer_instance

instance : Opening C true (existsExpr inner) (existsExpr inner') := by
  unfold existsExpr
  infer_instance

instance : Opening C true (rowExpr inner) (rowExpr inner') := by
  unfold rowExpr
  infer_instance

instance : Opening C inside (exprInParens inner) (exprInParens inner') := by
  unfold exprInParens
  infer_instance

instance : Opening C inside (parenExpr inner) (parenExpr inner') := by
  unfold parenExpr
  refine lookPlain fun kind => ?_
  split
  · infer_instance
  · infer_instance
  · exact .attempt (fun pair => inferInstance) inferInstance
  · infer_instance

instance (word : Keyword) : Opening C inside (keywordExpr inner word) (keywordExpr inner' word) := by
  unfold keywordExpr
  dsimp only
  split
  · exact lookPlain fun called => inferInstance
  · infer_instance

instance (word : Keyword) (kind : TemporalKind) :
    Opening C true (temporalExpr inner word kind) (temporalExpr inner' word kind) := by
  unfold temporalExpr
  exact lookPlain fun next => inferInstance

instance : Opening C true (currentTimestampExpr inner) (currentTimestampExpr inner') := by
  unfold currentTimestampExpr
  refine lookPlain fun called => ?_
  split
  · exact lookPlain fun bare => inferInstance
  · infer_instance

instance : Opening C true (defaultExpr inner) (defaultExpr inner') := by
  unfold defaultExpr
  exact lookPlain fun called => inferInstance

instance (text : String) : Opening C true (wordExpr inner text) (wordExpr inner' text) := by
  unfold wordExpr
  refine lookPlain fun next => ?_
  split
  · split <;> infer_instance
  · infer_instance

/-- `ROW` in front of a parenthesis. -/
theorem rowOrFail :
    Opening C true
      (aheadIs 1 (.punct .leftParen) >>= fun called =>
        if called then rowExpr inner else Rule.fail ["expression"])
      (aheadIs 1 (.punct .leftParen) >>= fun called =>
        if called then rowExpr inner' else Rule.fail ["expression"]) :=
  lookPlain fun _ => inferInstance

/-- A run of strings as a constant. -/
def stringLiteral : Rule Expr := do
  let (value, span) ← stringRun
  return .literal (.string value) span

omit levels in
theorem stringLiteral_abreast {state other : ParserState} (near : C.Near state other)
    {part : String} {quote : Char} (found : state.spot.kind = .string part quote) :
    C.Abreast true stringLiteral stringLiteral state other := by
  have lawful : stringLiteral.Lawful := by
    unfold stringLiteral
    infer_instance
  have inStep : InStep C false stringLiteral stringLiteral := by
    unfold stringLiteral
    refine .ofStringRun fun value spans => ?_
    dsimp only
    infer_instance
  refine .consuming near (inStep.abreast near nofun) fun read later outcome => ?_
  rw [stringLiteral, on_bind] at outcome
  obtain ⟨value, middle, run, rest⟩ := Outcome.bind_eq_done.mp outcome
  cases (on_pure _ _).symm.trans rest
  exact Consuming.length_of_stringRun found run

instance : Opening C inside (primaryExpr inner) (primaryExpr inner') := by
  unfold primaryExpr
  refine byKind fun {state other} near => ?_
  generalize found : state.spot.kind = kind
  split
  case h_3 => exact stringLiteral_abreast near found
  case h_28 => exact rowOrFail.abreast near fun _ => by rw [found]; nofun
  case h_30 => exact anywhere near
  case h_31 => exact anywhere near
  all_goals exact Opening.inner near (found ▸ nofun)

instance (power : Nat) : Opening C inside (operandBody inner power) (operandBody inner' power) := by
  unfold operandBody
  infer_instance

end Opening

end SqlDml.Comparison
