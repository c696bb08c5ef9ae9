import SqlDml.Grammar.Parse
import SqlDml.Proofs.Rules.Repeat

/-!
Contract: every rule of the language is lawful.

Owns:
- reading the source and the settings of a parse;
- one instance for each rule, in the order of the grammar;
- the three rules that open a nesting level, by induction on the levels.

Does not own: what the rules come to.
-/

namespace SqlDml

namespace Rule

variable {α β : Type}

theorem lawful_bind {rule : Rule α} {next : α → Rule β} [rule.Lawful]
    (continued : ∀ value, (next value).Lawful) : (rule >>= next).Lawful := inferInstance

/-! ### The surroundings of a spot -/

/-- The characters of the source. -/
def sourceChars : Rule (List Char) := do
  return (← get).source

/-- The settings of the parse. -/
def currentSettings : Rule Settings := do
  return (← get).settings

theorem sourceChars_agrees (state : ParserState) (ready : state.Ready) :
    sourceChars.Agrees state (.done state.spot.source state.spot) :=
  ⟨state, rfl, .refl ready, rfl⟩

instance : sourceChars.Lawful :=
  (lawful_of (fun spot => .done spot.source spot) sourceChars_agrees).2

@[simp] theorem on_sourceChars (spot : Spot) : sourceChars.on spot = .done spot.source spot :=
  (lawful_of (fun spot => .done spot.source spot) sourceChars_agrees).1 spot

theorem currentSettings_agrees (state : ParserState) (ready : state.Ready) :
    currentSettings.Agrees state (.done state.spot.settings state.spot) :=
  ⟨state, rfl, .refl ready, rfl⟩

instance : currentSettings.Lawful :=
  (lawful_of (fun spot => .done spot.settings spot) currentSettings_agrees).2

@[simp] theorem on_currentSettings (spot : Spot) :
    currentSettings.on spot = .done spot.settings spot :=
  (lawful_of (fun spot => .done spot.settings spot) currentSettings_agrees).1 spot

/-! ### Names -/

theorem name_eq (anyKeyword : Bool) :
    name anyKeyword = (peekToken 0 >>= fun token => sourceChars >>= fun source =>
      match identOfToken? source anyKeyword token with
      | some ident => advance >>= fun _ => pure ident
      | none => fail ["identifier"]) := rfl

instance (anyKeyword : Bool) : (name anyKeyword).Lawful := by
  rw [name_eq]
  refine lawful_bind fun token => lawful_bind fun source => ?_
  split <;> infer_instance

theorem on_name (anyKeyword : Bool) (spot : Spot) :
    (name anyKeyword).on spot =
      match identOfToken? spot.source anyKeyword (spot.token 0) with
      | some ident => .done ident spot.next
      | none => .stuck := by
  rw [name_eq, on_bind_of]
  · rw [on_peekToken, Outcome.bind_done, on_bind_of]
    · rw [on_sourceChars, Outcome.bind_done]
      cases identOfToken? spot.source anyKeyword (spot.token 0) <;> simp
    · intro source
      split <;> infer_instance
  · intro token
    refine lawful_bind fun source => ?_
    split <;> infer_instance

instance : identifier.Lawful := inferInstanceAs (name false).Lawful

instance : identifierAfterDot.Lawful := inferInstanceAs (name true).Lawful

instance : dotNameFollows.Lawful := by
  unfold dotNameFollows
  infer_instance

instance : tableName.Lawful := by
  unfold tableName
  infer_instance

instance : columnRef.Lawful := by
  unfold columnRef
  infer_instance

instance : restOfIdents.Lawful := by
  unfold restOfIdents
  infer_instance

instance : identsInParens.Lawful := by
  unfold identsInParens
  infer_instance

instance : identsInParensOrNone.Lawful := by
  unfold identsInParensOrNone
  infer_instance

instance : aliasName.Lawful := by
  unfold aliasName
  infer_instance

instance : aliasOrString.Lawful := by
  unfold aliasOrString
  refine lawful_bind fun explicit => lawful_bind fun token => ?_
  split <;> infer_instance

instance : partitions.Lawful := by
  unfold partitions
  infer_instance

/-! ### Constants -/

/-- One more of adjacent strings. -/
def nextPart (value : String) : Rule (Option String) := do
  match ← peek with
  | .string part _ =>
      let _ ← advance
      return some (value ++ part)
  | _ => return none

theorem stringRun_eq :
    stringRun = do
      let start ← currentSpan
      let value ← whileSome nextPart ""
      return (value, start.merge (← previousSpan)) := rfl

instance (value : String) : (nextPart value).Lawful := by
  unfold nextPart
  refine lawful_bind fun kind => ?_
  split <;> infer_instance

/-- A step that gives something only behind a token that it consumes. -/
theorem shortens_of_next {σ : Type} {step : Rule (Option σ)}
    (consumes : ∀ (spot later : Spot) (value : σ), step.on spot = .done (some value) later →
      spot.kind ≠ .endOfInput ∧ spot.next.Leads later) : step.Shortens where
  shorter spot later value outcome := by
    obtain ⟨inner, leads⟩ := consumes spot later value outcome
    exact Nat.lt_of_le_of_lt leads.length_le (Spot.length_next_lt inner)

theorem on_nextPart (value : String) (spot : Spot) :
    (nextPart value).on spot =
      match spot.kind with
      | .string part _ => .done (some (value ++ part)) spot.next
      | _ => .done none spot := by
  rw [nextPart, on_bind_of]
  · rw [on_peek, Outcome.bind_done]
    split <;> simp
  · intro kind
    split <;> infer_instance

instance (value : String) : (nextPart value).Shortens :=
  shortens_of_next fun spot later next outcome => by
    rw [on_nextPart] at outcome
    split at outcome
    · next part quote kind =>
        cases outcome
        exact ⟨by simp [kind], .refl _⟩
    · cases outcome

instance : stringRun.Lawful := by
  rw [stringRun_eq]
  infer_instance

instance : placeholder.Lawful := by
  unfold placeholder
  infer_instance

instance (value : Literal) : (tokenLiteral value).Lawful := by
  unfold tokenLiteral
  infer_instance

instance (kind : TemporalKind) : (temporalLiteral kind).Lawful := by
  unfold temporalLiteral
  infer_instance

instance : introducedValue.Lawful := by
  unfold introducedValue
  refine lawful_bind fun kind => ?_
  split <;> infer_instance

instance (charset : String) : (introducedLiteral charset).Lawful := by
  unfold introducedLiteral
  infer_instance

instance : odbcLiteral.Lawful := by
  unfold odbcLiteral
  infer_instance

instance : currentTimestamp.Lawful := by
  unfold currentTimestamp
  infer_instance

instance : typeSize.Lawful := by
  unfold typeSize
  refine lawful_bind fun kind => ?_
  split <;> infer_instance

instance : typeSizes.Lawful := by
  unfold typeSizes
  infer_instance

/-- One more word of a type name, with the words so far in reverse order. -/
def nextTypeWord (words : List String) : Rule (Option (List String)) := do
  match typeWord? (← peek) with
  | some word =>
      let _ ← advance
      return some (word :: words)
  | none => return none

theorem typeName_eq :
    typeName = do
      let words ← whileSome nextTypeWord []
      if words.isEmpty then
        fail ["type name"]
      else
        let (length, scale) ← typeSizes
        return ⟨" ".intercalate words.reverse, length, scale⟩ := rfl

instance (words : List String) : (nextTypeWord words).Lawful := by
  unfold nextTypeWord
  refine lawful_bind fun kind => ?_
  split <;> infer_instance

theorem on_nextTypeWord (words : List String) (spot : Spot) :
    (nextTypeWord words).on spot =
      match typeWord? spot.kind with
      | some word => .done (some (word :: words)) spot.next
      | none => .done none spot := by
  rw [nextTypeWord, on_bind_of]
  · rw [on_peek, Outcome.bind_done]
    split <;> simp
  · intro kind
    split <;> infer_instance

instance (words : List String) : (nextTypeWord words).Shortens :=
  shortens_of_next fun spot later next outcome => by
    rw [on_nextTypeWord] at outcome
    split at outcome
    · next word found =>
        cases outcome
        refine ⟨?_, .refl _⟩
        intro ended
        rw [ended] at found
        cases found
    · cases outcome

instance : typeName.Lawful := by
  rw [typeName_eq]
  infer_instance

/-! ### Behind an operand -/

end Rule

/-- Rules for one nesting level deeper that are lawful. -/
class InnerRules.Lawful (inner : InnerRules) : Prop where
  operand : ∀ power, (inner.operand power).Lawful
  query : inner.query.Lawful
  tableInParens : inner.tableInParens.Lawful

namespace Rule

variable (inner : InnerRules) [lawful : inner.Lawful]

instance (power : Nat) : (inner.operand power).Lawful := lawful.operand power

instance : inner.query.Lawful := lawful.query

instance : inner.tableInParens.Lawful := lawful.tableInParens

instance : inner.expr.Lawful := inferInstanceAs (inner.operand 0).Lawful

instance : (exprs inner).Lawful := inferInstanceAs (commaSeparated inner.expr).Lawful

instance : (queryInParens inner).Lawful := by
  unfold queryInParens
  infer_instance

instance : (subquery inner).Lawful := by
  unfold subquery
  infer_instance

instance (ahead : Nat) : (subqueryFollows ahead).Lawful := by
  unfold subqueryFollows
  infer_instance

instance (left : Expr) (op : BinaryOp) : (comparison inner left op).Lawful := by
  unfold comparison
  refine lawful_bind fun kind => ?_
  split <;> infer_instance

instance (left : Expr) : (isTest left).Lawful := by
  unfold isTest
  refine lawful_bind fun negated => lawful_bind fun kind => ?_
  split <;> infer_instance

instance : (queryBeforeParen inner).Lawful := by
  unfold queryBeforeParen
  infer_instance

instance : (inSet inner).Lawful := by
  unfold inSet
  refine lawful_bind fun kind => ?_
  split
  · infer_instance
  · infer_instance
  · refine lawful_bind fun found => ?_
    split <;> infer_instance
  · infer_instance

instance (left : Expr) (negated : Bool) : (inTest inner left negated).Lawful := by
  unfold inTest
  infer_instance

instance (left : Expr) (negated : Bool) : (betweenTest inner left negated).Lawful := by
  unfold betweenTest
  infer_instance

instance (op : LikeOp) : (escapeOperand inner op).Lawful := by
  unfold escapeOperand
  split <;> infer_instance

instance (left : Expr) (op : LikeOp) (negated : Bool) : (likeTest inner left op negated).Lawful := by
  unfold likeTest
  infer_instance

instance : collationName.Lawful := by
  unfold collationName
  refine lawful_bind fun token => ?_
  split <;> infer_instance

instance (left : Expr) : (collate left).Lawful := by
  unfold collate
  infer_instance

theorem continuation?_eq :
    continuation? = (peek >>= fun kind =>
      match kind with
      | .keyword .NOT => peekAhead 1 >>= fun kind => pure (Continuation.afterNot? kind)
      | .keyword .SOUNDS => peekAhead 1 >>= fun kind => pure (Continuation.afterSounds? kind)
      | kind => currentSettings >>= fun settings =>
          pure (Continuation.ofToken? settings.pipesAsConcat kind)) := rfl

instance : continuation?.Lawful := by
  rw [continuation?_eq]
  refine lawful_bind fun kind => ?_
  split <;> infer_instance

instance (continuation : Continuation) : (skipContinuation continuation).Lawful := by
  unfold skipContinuation
  infer_instance

instance (left : Expr) (continuation : Continuation) :
    (continueWith inner left continuation).Lawful := by
  unfold continueWith
  refine lawful_bind fun skipped => ?_
  split <;> infer_instance

instance (power : Nat) (left : Expr) : (extendOperand inner power left).Lawful := by
  unfold extendOperand
  refine lawful_bind fun collates => ?_
  split
  · infer_instance
  · refine lawful_bind fun found => ?_
    split <;> infer_instance

end Rule

/-- The continuation that the next tokens begin, if they begin one. -/
def Spot.continuation? (spot : Spot) : Option Continuation :=
  match spot.kind with
  | .keyword .NOT => Continuation.afterNot? (spot.token 1).kind
  | .keyword .SOUNDS => Continuation.afterSounds? (spot.token 1).kind
  | kind => Continuation.ofToken? spot.settings.pipesAsConcat kind

/-- The end of input begins no continuation. -/
theorem Spot.kind_of_continuation? {spot : Spot} {continuation : Continuation}
    (found : spot.continuation? = some continuation) : spot.kind ≠ .endOfInput := by
  intro ended
  rw [continuation?, ended] at found
  cases found

namespace Rule

variable (inner : InnerRules) [lawful : inner.Lawful]

@[simp] theorem on_continuation? (spot : Spot) :
    continuation?.on spot = .done spot.continuation? spot := by
  rw [continuation?_eq, on_bind_of]
  · rw [on_peek, Outcome.bind_done, Spot.continuation?]
    split <;> simp
  · intro kind
    split <;> infer_instance

/-- The spot behind the tokens that a continuation begins with. -/
def behindContinuation (continuation : Continuation) (spot : Spot) : Spot :=
  if continuation.width = 2 then spot.next.next else spot.next

@[simp] theorem on_skipContinuation (continuation : Continuation) (spot : Spot) :
    (skipContinuation continuation).on spot = .done () (behindContinuation continuation spot) := by
  unfold skipContinuation behindContinuation
  simp only [on_bind, on_advance, Outcome.bind_done, on_ite, on_pure]
  split <;> rfl

theorem on_continueWith (left : Expr) (continuation : Continuation) (spot : Spot) :
    (continueWith inner left continuation).on spot =
      match continuation with
      | .operator op =>
          ((inner.operand (op.power + 1)).on (behindContinuation continuation spot)).bind
            fun right later => .done (.ofOperands left op right) later
      | .comparison op => (comparison inner left op).on (behindContinuation continuation spot)
      | .is => (isTest left).on (behindContinuation continuation spot)
      | .isIn negated => (inTest inner left negated).on (behindContinuation continuation spot)
      | .between negated =>
          (betweenTest inner left negated).on (behindContinuation continuation spot)
      | .like op negated =>
          (likeTest inner left op negated).on (behindContinuation continuation spot)
      | .soundsLike =>
          ((inner.operand Power.predicateOperand).on (behindContinuation continuation spot)).bind
            fun pattern later =>
              .done (.soundsLike left pattern (left.span.merge pattern.span)) later := by
  unfold continueWith
  rw [on_bind_of]
  · rw [on_skipContinuation, Outcome.bind_done]
    cases continuation <;> simp
  · intro skipped
    cases continuation <;> infer_instance

theorem on_extendOperand (power : Nat) (left : Expr) (spot : Spot) :
    (extendOperand inner power left).on spot =
      if spot.kind = .keyword .COLLATE then
        if power ≤ Power.collate then
          ((collate left).on spot).bind fun extended later => .done (some extended) later
        else .done none spot
      else
        match spot.continuation? with
        | some continuation =>
            if power ≤ continuation.power then
              ((continueWith inner left continuation).on spot).bind fun extended later =>
                .done (some extended) later
            else .done none spot
        | none => .done none spot := by
  rw [extendOperand, on_bind_of]
  · rw [on_nextIsWord, Outcome.bind_done]
    simp only [on_ite, decide_eq_true_eq]
    split
    · split <;> simp
    · rw [on_bind_of]
      · rw [on_continuation?, Outcome.bind_done]
        split <;> simp [on_ite, *]
      · intro found
        split <;> infer_instance
  · intro collates
    split
    · infer_instance
    · refine lawful_bind fun found => ?_
      split <;> infer_instance

theorem leads_of_continueWith {left extended : Expr} {continuation : Continuation}
    {spot later : Spot} (outcome : (continueWith inner left continuation).on spot =
      .done extended later) : spot.next.Leads later := by
  have skipped : spot.next.Leads (behindContinuation continuation spot) := by
    unfold behindContinuation
    split
    · exact .next _
    · exact .refl _
  rw [on_continueWith] at outcome
  refine skipped.trans ?_
  cases continuation with
  | operator | soundsLike =>
      obtain ⟨right, middle, read, finished⟩ := Outcome.bind_eq_done.mp outcome
      cases finished
      exact leads_of_on read
  | comparison | is | isIn | between | like => exact leads_of_on outcome

theorem leads_of_collate {left extended : Expr} {spot later : Spot}
    (outcome : (collate left).on spot = .done extended later) : spot.next.Leads later := by
  simp only [collate, on_bind, on_expectWord, on_pure] at outcome
  split at outcome
  · rw [Outcome.bind_done] at outcome
    obtain ⟨collation, middle, read, finished⟩ := Outcome.bind_eq_done.mp outcome
    cases finished
    exact leads_of_on read
  · cases outcome

instance (power : Nat) (left : Expr) : (extendOperand inner power left).Shortens :=
  shortens_of_next fun spot later extended outcome => by
    rw [on_extendOperand] at outcome
    split at outcome
    · next collates =>
        split at outcome
        · obtain ⟨value, middle, read, finished⟩ := Outcome.bind_eq_done.mp outcome
          cases finished
          exact ⟨by simp [collates], leads_of_collate read⟩
        · cases outcome
    · split at outcome
      · next continuation found =>
          split at outcome
          · obtain ⟨value, middle, read, finished⟩ := Outcome.bind_eq_done.mp outcome
            cases finished
            exact ⟨Spot.kind_of_continuation? found, leads_of_continueWith inner read⟩
          · cases outcome
      · cases outcome

/-! ### Calls, casts and cases -/

instance (function : Ident) : (callArguments inner function).Lawful := by
  unfold callArguments
  refine lawful_bind fun opened => lawful_bind fun star => ?_
  split
  · infer_instance
  · refine lawful_bind fun distinct => ?_
    split <;> infer_instance

instance : (keywordCall inner).Lawful := by
  unfold keywordCall
  infer_instance

instance : (nameExpr inner).Lawful := by
  unfold nameExpr
  infer_instance

instance : (castExpr inner).Lawful := by
  unfold castExpr
  infer_instance

/-- One more branch of a case, with the branches so far in reverse order. -/
def nextWhen (whens : List (Expr × Expr)) : Rule (Option (List (Expr × Expr))) := do
  if ← eatWord .WHEN then
    let condition ← inner.expr
    let _ ← expectWord .THEN
    let result ← inner.expr
    return some ((condition, result) :: whens)
  else
    return none

omit lawful in
theorem whenBranches_eq :
    whenBranches inner = do
      let whens ← whileSome (nextWhen inner) []
      return whens.reverse := rfl

/-- A step that gives something only behind a token that it eats. -/
theorem shortens_of_eat {σ : Type} (kind : TokenKind) (inside : kind ≠ .endOfInput)
    {more : Rule (Option σ)} [more.Lawful] {step : Rule (Option σ)}
    (form : step = do if ← eat kind then more else return none) : step.Shortens :=
  shortens_of_next fun spot later value outcome => by
    subst form
    simp only [on_bind, on_eat, on_ite, on_pure] at outcome
    split at outcome
    · next found =>
        have read : more.on spot.next = .done (some value) later := outcome
        exact ⟨found ▸ inside, leads_of_on read⟩
    · cases outcome

instance (whens : List (Expr × Expr)) : (nextWhen inner whens).Lawful := by
  unfold nextWhen
  infer_instance

instance (whens : List (Expr × Expr)) : (nextWhen inner whens).Shortens :=
  shortens_of_eat (.keyword .WHEN) (by decide) rfl

instance : (whenBranches inner).Lawful := by
  rw [whenBranches_eq]
  infer_instance

instance : (caseExpr inner).Lawful := by
  unfold caseExpr
  refine lawful_bind fun start => lawful_bind fun bare => ?_
  split <;> infer_instance

/-! ### In front of an operand -/

instance (op : UnaryOp) (power : Nat) : (unaryExpr inner op power).Lawful := by
  unfold unaryExpr
  infer_instance

instance : (existsExpr inner).Lawful := by
  unfold existsExpr
  infer_instance

instance : (rowExpr inner).Lawful := by
  unfold rowExpr
  infer_instance

instance : (exprInParens inner).Lawful := by
  unfold exprInParens
  infer_instance

instance : (parenExpr inner).Lawful := by
  unfold parenExpr
  refine lawful_bind fun kind => ?_
  split
  · infer_instance
  · infer_instance
  · refine lawful_bind fun found => ?_
    split <;> infer_instance
  · infer_instance

instance (word : Keyword) : (keywordExpr inner word).Lawful := by
  unfold keywordExpr
  infer_instance

instance (word : Keyword) (kind : TemporalKind) : (temporalExpr inner word kind).Lawful := by
  unfold temporalExpr
  infer_instance

instance : (currentTimestampExpr inner).Lawful := by
  unfold currentTimestampExpr
  infer_instance

instance : (defaultExpr inner).Lawful := by
  unfold defaultExpr
  infer_instance

instance (text : String) : (wordExpr inner text).Lawful := by
  unfold wordExpr
  refine lawful_bind fun kind => ?_
  split
  · split <;> infer_instance
  · infer_instance

instance : (primaryExpr inner).Lawful := by
  unfold primaryExpr
  refine lawful_bind fun kind => ?_
  split <;> infer_instance

instance (power : Nat) : (operandBody inner power).Lawful := by
  unfold operandBody
  infer_instance

/-! ### Tables -/

instance : hintScope.Lawful := by
  unfold hintScope
  refine lawful_bind fun purpose => ?_
  split
  · refine lawful_bind fun join => ?_
    split <;> infer_instance
  · infer_instance

instance (action : IndexHintAction) : (indexHint action).Lawful := by
  unfold indexHint
  infer_instance

instance : skipHintComma.Lawful := by
  unfold skipHintComma
  infer_instance

/-- One more index hint, with the hints so far in reverse order. -/
def nextHint (hints : List IndexHint) : Rule (Option (List IndexHint)) := do
  match hintAction? (← peek) with
  | none => return none
  | some action =>
      if isIndexWord (← peekAhead 1) then
        let hint ← indexHint action
        skipHintComma
        return some (hint :: hints)
      else
        return none

theorem indexHints_eq :
    indexHints = do
      let hints ← whileSome nextHint []
      return hints.reverse := rfl

instance (hints : List IndexHint) : (nextHint hints).Lawful := by
  unfold nextHint
  refine lawful_bind fun kind => ?_
  split <;> infer_instance

theorem on_nextHint (hints : List IndexHint) (spot : Spot) :
    (nextHint hints).on spot =
      match hintAction? spot.kind with
      | none => .done none spot
      | some action =>
          if isIndexWord (spot.token 1).kind then
            ((indexHint action).on spot).bind fun hint middle =>
              (skipHintComma.on middle).bind fun _ later => .done (some (hint :: hints)) later
          else .done none spot := by
  rw [nextHint, on_bind_of]
  · rw [on_peek, Outcome.bind_done]
    split <;> simp [on_ite]
  · intro kind
    split <;> infer_instance

theorem leads_of_indexHint {action : IndexHintAction} {hint : IndexHint} {spot later : Spot}
    (outcome : (indexHint action).on spot = .done hint later) : spot.next.Leads later := by
  unfold indexHint at outcome
  rw [on_bind, on_advance, Outcome.bind_done] at outcome
  exact leads_of_on outcome

instance (hints : List IndexHint) : (nextHint hints).Shortens :=
  shortens_of_next fun spot later more outcome => by
    rw [on_nextHint] at outcome
    split at outcome
    · cases outcome
    · next action found =>
        split at outcome
        · obtain ⟨hint, middle, read, rest⟩ := Outcome.bind_eq_done.mp outcome
          obtain ⟨_, last, skipped, finished⟩ := Outcome.bind_eq_done.mp rest
          cases finished
          refine ⟨?_, (leads_of_indexHint read).trans (leads_of_on skipped)⟩
          intro ended
          rw [ended] at found
          cases found
        · cases outcome

instance : indexHints.Lawful := by
  rw [indexHints_eq]
  infer_instance

instance : namedTable.Lawful := by
  unfold namedTable
  infer_instance

instance (join : JoinType) : (joinWord join).Lawful := by
  unfold joinWord
  infer_instance

instance : naturalJoin.Lawful := by
  unfold naturalJoin
  infer_instance

instance : joinType.Lawful := by
  unfold joinType
  refine lawful_bind fun kind => ?_
  split <;> infer_instance

instance : (onCondition inner).Lawful := by
  unfold onCondition
  infer_instance

instance : (onOrUsing inner).Lawful := by
  unfold onOrUsing
  refine lawful_bind fun found => ?_
  split <;> infer_instance

instance (join : JoinType) : (joinCondition inner join).Lawful := by
  unfold joinCondition
  split
  · infer_instance
  · split
    · infer_instance
    · refine lawful_bind fun found => ?_
      split <;> infer_instance

instance : (tableFactor inner).Lawful := by
  unfold tableFactor
  infer_instance

instance (left : TableRef) : (extendJoin inner left).Lawful := by
  unfold extendJoin
  refine lawful_bind fun found => ?_
  split <;> infer_instance

theorem on_joinType (spot : Spot) :
    joinType.on spot =
      match spot.kind with
      | .keyword .JOIN => .done (some .inner) spot.next
      | .keyword .STRAIGHT_JOIN => .done (some .straight) spot.next
      | .keyword .INNER => (joinWord .inner).on spot.next
      | .keyword .CROSS => (joinWord .cross).on spot.next
      | .keyword .LEFT =>
          ((eatWord .OUTER).on spot.next).bind fun _ later => (joinWord .left).on later
      | .keyword .RIGHT =>
          ((eatWord .OUTER).on spot.next).bind fun _ later => (joinWord .right).on later
      | .keyword .NATURAL =>
          (naturalJoin.on spot.next).bind fun join later => (joinWord join).on later
      | _ => .done none spot := by
  rw [joinType, on_bind_of]
  · rw [on_peek, Outcome.bind_done]
    split <;> simp only [*, on_bind, on_advance, on_pure, Outcome.bind_done]
  · intro kind
    split <;> infer_instance

theorem leads_of_joinType {join : JoinType} {spot later : Spot}
    (outcome : joinType.on spot = .done (some join) later) :
    spot.kind ≠ .endOfInput ∧ spot.next.Leads later := by
  rw [on_joinType] at outcome
  refine ⟨?_, ?_⟩
  · intro ended
    rw [ended] at outcome
    cases outcome
  · split at outcome
    · cases outcome
      exact .refl _
    · cases outcome
      exact .refl _
    · exact leads_of_on outcome
    · exact leads_of_on outcome
    · obtain ⟨_, middle, first, rest⟩ := Outcome.bind_eq_done.mp outcome
      exact (leads_of_on first).trans (leads_of_on rest)
    · obtain ⟨_, middle, first, rest⟩ := Outcome.bind_eq_done.mp outcome
      exact (leads_of_on first).trans (leads_of_on rest)
    · obtain ⟨_, middle, first, rest⟩ := Outcome.bind_eq_done.mp outcome
      exact (leads_of_on first).trans (leads_of_on rest)
    · cases outcome

theorem on_extendJoin (left : TableRef) (spot : Spot) :
    (extendJoin inner left).on spot =
      (joinType.on spot).bind fun found middle =>
        match found with
        | none => .done none middle
        | some join =>
            ((tableFactor inner).on middle).bind fun right behind =>
              ((joinCondition inner join).on behind).bind fun condition later =>
                .done (some (.joined left join right condition (left.span.merge later.last)))
                  later := by
  rw [extendJoin, on_bind_of]
  · congr 1
    funext found middle
    cases found <;> simp
  · intro found
    split <;> infer_instance

instance (left : TableRef) : (extendJoin inner left).Shortens :=
  shortens_of_next fun spot later extended outcome => by
    rw [on_extendJoin] at outcome
    obtain ⟨found, middle, words, rest⟩ := Outcome.bind_eq_done.mp outcome
    cases found with
    | none => cases rest
    | some join =>
        obtain ⟨right, behind, factor, rest⟩ := Outcome.bind_eq_done.mp rest
        obtain ⟨condition, last, tested, finished⟩ := Outcome.bind_eq_done.mp rest
        cases finished
        obtain ⟨inside, leads⟩ := leads_of_joinType words
        exact ⟨inside, leads.trans ((leads_of_on factor).trans (leads_of_on tested))⟩

instance : (tableRef inner).Lawful := by
  unfold tableRef
  infer_instance

instance : (tableRefs inner).Lawful := inferInstanceAs (commaSeparated (tableRef inner)).Lawful

instance (start : Span) : (derivedTable inner start).Lawful := by
  unfold derivedTable
  refine lawful_bind fun _ => lawful_bind fun query => lawful_bind fun _ => lawful_bind fun found => ?_
  split <;> infer_instance

instance (start : Span) : (tableRefsInParens inner start).Lawful := by
  unfold tableRefsInParens
  infer_instance

instance : (tableInParensBody inner).Lawful := by
  unfold tableInParensBody
  refine lawful_bind fun start => lawful_bind fun kind => ?_
  split
  · refine lawful_bind fun found => ?_
    split <;> infer_instance
  · infer_instance

/-! ### Clauses -/

instance : (whereClause inner).Lawful := by
  unfold whereClause
  infer_instance

instance : sortDirection.Lawful := by
  unfold sortDirection
  infer_instance

instance : (orderingTerm inner).Lawful := by
  unfold orderingTerm
  refine lawful_bind fun expr => lawful_bind fun direction => ?_
  split <;> infer_instance

instance : (orderingTerms inner).Lawful :=
  inferInstanceAs (commaSeparated (orderingTerm inner)).Lawful

instance : (orderByClause inner).Lawful := by
  unfold orderByClause
  infer_instance

instance : limitOperand.Lawful := by
  unfold limitOperand
  refine lawful_bind fun kind => ?_
  split <;> infer_instance

instance : limitNumbers.Lawful := by
  unfold limitNumbers
  infer_instance

instance (allowOffset : Bool) : (limitClause allowOffset).Lawful := by
  unfold limitClause
  refine lawful_bind fun limited => ?_
  split
  · refine lawful_bind fun start => ?_
    dsimp only
    split <;> infer_instance
  · infer_instance

instance : lockMode.Lawful := by
  unfold lockMode
  infer_instance

instance : lockedTables.Lawful := by
  unfold lockedTables
  infer_instance

instance : lockWait.Lawful := by
  unfold lockWait
  infer_instance

instance : lockingClause.Lawful := by
  unfold lockingClause
  refine lawful_bind fun start => lawful_bind fun locks => ?_
  split <;> infer_instance

/-! ### Select blocks -/

/-- One more option of a select block. -/
def nextModifier (modifiers : SelectModifiers) : Rule (Option SelectModifiers) := do
  match addModifier modifiers (← peek) with
  | some more =>
      let _ ← advance
      return some more
  | none => return none

theorem selectModifiers_eq : selectModifiers = whileSome nextModifier {} := rfl

instance (modifiers : SelectModifiers) : (nextModifier modifiers).Lawful := by
  unfold nextModifier
  refine lawful_bind fun kind => ?_
  split <;> infer_instance

theorem on_nextModifier (modifiers : SelectModifiers) (spot : Spot) :
    (nextModifier modifiers).on spot =
      match addModifier modifiers spot.kind with
      | some more => .done (some more) spot.next
      | none => .done none spot := by
  rw [nextModifier, on_bind_of]
  · rw [on_peek, Outcome.bind_done]
    split <;> simp
  · intro kind
    split <;> infer_instance

instance (modifiers : SelectModifiers) : (nextModifier modifiers).Shortens :=
  shortens_of_next fun spot later more outcome => by
    rw [on_nextModifier] at outcome
    split at outcome
    · next more found =>
        cases outcome
        refine ⟨?_, .refl _⟩
        intro ended
        rw [ended] at found
        cases found
    · cases outcome

instance : selectModifiers.Lawful := by
  rw [selectModifiers_eq]
  infer_instance

instance : (exprItem inner).Lawful := by
  unfold exprItem
  infer_instance

instance : tableWildcard.Lawful := by
  unfold tableWildcard
  infer_instance

instance : schemaWildcard.Lawful := by
  unfold schemaWildcard
  infer_instance

instance : schemaWildcardFollows.Lawful := by
  unfold schemaWildcardFollows
  infer_instance

instance : (dottedItem inner).Lawful := by
  unfold dottedItem
  infer_instance

instance : (selectItem inner).Lawful := by
  unfold selectItem
  infer_instance

instance : (fromClause inner).Lawful := by
  unfold fromClause
  infer_instance

instance : withRollup.Lawful := by
  unfold withRollup
  infer_instance

instance : (groupByClause inner).Lawful := by
  unfold groupByClause
  infer_instance

instance : (havingClause inner).Lawful := by
  unfold havingClause
  infer_instance

instance : (selectCore inner).Lawful := by
  unfold selectCore
  infer_instance

/-! ### Queries -/

instance : (queryTerm inner).Lawful := by
  unfold queryTerm
  refine lawful_bind fun kind => ?_
  split <;> infer_instance

instance : compoundOp.Lawful := by
  unfold compoundOp
  infer_instance

/-- One more term of a query body, with the terms so far in reverse order. -/
def nextCompound (compounds : List (CompoundOp × QueryTerm)) :
    Rule (Option (List (CompoundOp × QueryTerm))) := do
  if ← eatWord .UNION then
    let op ← compoundOp
    return some ((op, ← queryTerm inner) :: compounds)
  else
    return none

omit lawful in
theorem queryBody_eq :
    queryBody inner = do
      let start ← currentSpan
      let first ← queryTerm inner
      let compounds ← whileSome (nextCompound inner) []
      return ⟨first, compounds.reverse, start.merge (← previousSpan)⟩ := rfl

instance (compounds : List (CompoundOp × QueryTerm)) : (nextCompound inner compounds).Lawful := by
  unfold nextCompound
  infer_instance

instance (compounds : List (CompoundOp × QueryTerm)) : (nextCompound inner compounds).Shortens :=
  shortens_of_eat (.keyword .UNION) (by decide) rfl

instance : (queryBody inner).Lawful := by
  rw [queryBody_eq]
  infer_instance

instance : (commonTable inner).Lawful := by
  unfold commonTable
  refine lawful_bind fun name => lawful_bind fun listed => ?_
  dsimp only
  split <;> infer_instance

instance : (withClause inner).Lawful := by
  unfold withClause
  infer_instance

instance : (wholeQuery inner).Lawful := by
  unfold wholeQuery
  infer_instance

/-! ### Statements -/

instance : (assignment inner).Lawful := by
  unfold assignment
  infer_instance

instance : (assignments inner).Lawful :=
  inferInstanceAs (commaSeparated (assignment inner)).Lawful

instance : (valueRow inner).Lawful := by
  unfold valueRow
  infer_instance

instance : insertKind.Lawful := by
  unfold insertKind
  infer_instance

instance (kind : InsertKind) : (insertPriority kind).Lawful := by
  unfold insertPriority
  refine lawful_bind fun next => ?_
  split <;> infer_instance

instance (kind : InsertKind) (word : Keyword) : (eatInsertWord kind word).Lawful := by
  unfold eatInsertWord
  infer_instance

instance : insertColumns.Lawful := by
  unfold insertColumns
  infer_instance

instance : (insertRows inner).Lawful := by
  unfold insertRows
  refine lawful_bind fun kind => ?_
  split <;> infer_instance

instance : (insertSource inner).Lawful := by
  unfold insertSource
  infer_instance

instance (kind : InsertKind) : (onDuplicate inner kind).Lawful := by
  unfold onDuplicate
  infer_instance

instance : (insert inner).Lawful := by
  unfold insert
  infer_instance

/-- One more option of an update. -/
def nextUpdateOption (options : Bool × Bool) : Rule (Option (Bool × Bool)) := do
  if ← eatWord .LOW_PRIORITY then
    return some (true, options.2)
  else if ← eatWord .IGNORE then
    return some (options.1, true)
  else
    return none

theorem updateOptions_eq : updateOptions = whileSome nextUpdateOption (false, false) := rfl

instance (options : Bool × Bool) : (nextUpdateOption options).Lawful := by
  unfold nextUpdateOption
  infer_instance

theorem on_nextUpdateOption (options : Bool × Bool) (spot : Spot) :
    (nextUpdateOption options).on spot =
      if spot.kind = .keyword .LOW_PRIORITY then .done (some (true, options.2)) spot.next
      else if spot.kind = .keyword .IGNORE then .done (some (options.1, true)) spot.next
      else .done none spot := by
  simp only [nextUpdateOption, on_bind, on_eatWord, Outcome.ite_bind, Outcome.bind_done, on_ite,
    on_pure, if_true, Bool.false_eq_true, if_false]

instance (options : Bool × Bool) : (nextUpdateOption options).Shortens :=
  shortens_of_next fun spot later more outcome => by
    rw [on_nextUpdateOption] at outcome
    split at outcome
    · next found =>
        cases outcome
        exact ⟨by simp [found], .refl _⟩
    · split at outcome
      · next found =>
          cases outcome
          exact ⟨by simp [found], .refl _⟩
      · cases outcome

instance : updateOptions.Lawful := by
  rw [updateOptions_eq]
  infer_instance

instance : (update inner).Lawful := by
  unfold update
  infer_instance

/-- One more option of a delete. -/
def nextDeleteOption (options : DeleteOptions) : Rule (Option DeleteOptions) := do
  match addDeleteOption options (← peek) with
  | some more =>
      let _ ← advance
      return some more
  | none => return none

theorem deleteOptions_eq : deleteOptions = whileSome nextDeleteOption {} := rfl

instance (options : DeleteOptions) : (nextDeleteOption options).Lawful := by
  unfold nextDeleteOption
  refine lawful_bind fun kind => ?_
  split <;> infer_instance

theorem on_nextDeleteOption (options : DeleteOptions) (spot : Spot) :
    (nextDeleteOption options).on spot =
      match addDeleteOption options spot.kind with
      | some more => .done (some more) spot.next
      | none => .done none spot := by
  rw [nextDeleteOption, on_bind_of]
  · rw [on_peek, Outcome.bind_done]
    split <;> simp
  · intro kind
    split <;> infer_instance

instance (options : DeleteOptions) : (nextDeleteOption options).Shortens :=
  shortens_of_next fun spot later more outcome => by
    rw [on_nextDeleteOption] at outcome
    split at outcome
    · next more found =>
        cases outcome
        refine ⟨?_, .refl _⟩
        intro ended
        rw [ended] at found
        cases found
    · cases outcome

instance : deleteOptions.Lawful := by
  rw [deleteOptions_eq]
  infer_instance

instance : deleteTarget.Lawful := by
  unfold deleteTarget
  infer_instance

instance : deleteTargets.Lawful := inferInstanceAs (commaSeparated deleteTarget).Lawful

instance : deleteTable.Lawful := by
  unfold deleteTable
  infer_instance

instance : (deleteUsing inner).Lawful := by
  unfold deleteUsing
  infer_instance

instance : (deleteSource inner).Lawful := by
  unfold deleteSource
  refine lawful_bind fun behindFrom => ?_
  split
  · refine lawful_bind fun found => ?_
    split <;> infer_instance
  · infer_instance

instance (source : DeleteSource) : (deleteTail inner source).Lawful := by
  unfold deleteTail
  split <;> infer_instance

instance : (delete inner).Lawful := by
  unfold delete
  infer_instance

instance : (statement inner).Lawful := by
  unfold statement
  refine lawful_bind fun kind => ?_
  split <;> infer_instance

/-! ### Nesting levels -/

theorem operand_zero (power : Nat) : (innerAt 0).operand power = tooDeep := by
  funext state
  exact operandAt.eq_1 power state

theorem query_zero : (innerAt 0).query = tooDeep := by
  funext state
  exact queryAt.eq_1 state

theorem tableInParens_zero : (innerAt 0).tableInParens = tooDeep := by
  funext state
  exact tableInParensAt.eq_1 state

theorem operand_succ (levels power : Nat) :
    (innerAt (levels + 1)).operand power = enter (operandBody (innerAt levels) power) := by
  funext state
  exact operandAt.eq_2 power state levels

theorem query_succ (levels : Nat) :
    (innerAt (levels + 1)).query = enter (wholeQuery (innerAt levels)) := by
  funext state
  exact queryAt.eq_2 state levels

theorem tableInParens_succ (levels : Nat) :
    (innerAt (levels + 1)).tableInParens = enter (tableInParensBody (innerAt levels)) := by
  funext state
  exact tableInParensAt.eq_2 state levels

instance innerAt_lawful (levels : Nat) : (innerAt levels).Lawful := by
  induction levels with
  | zero =>
      refine ⟨fun power => ?_, ?_, ?_⟩
      · rw [operand_zero]
        infer_instance
      · rw [query_zero]
        infer_instance
      · rw [tableInParens_zero]
        infer_instance
  | succ levels inductionHypothesis =>
      refine ⟨fun power => ?_, ?_, ?_⟩
      · rw [operand_succ]
        infer_instance
      · rw [query_succ]
        infer_instance
      · rw [tableInParens_succ]
        infer_instance

@[simp] theorem on_operand_zero (power : Nat) (spot : Spot) :
    ((innerAt 0).operand power).on spot = .deep := by
  rw [operand_zero, on_tooDeep]

@[simp] theorem on_query_zero (spot : Spot) : (innerAt 0).query.on spot = .deep := by
  rw [query_zero, on_tooDeep]

@[simp] theorem on_tableInParens_zero (spot : Spot) :
    (innerAt 0).tableInParens.on spot = .deep := by
  rw [tableInParens_zero, on_tooDeep]

end Rule

end SqlDml
