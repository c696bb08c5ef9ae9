import SqlDml.Grammar.Literal
import SqlDml.Grammar.Precedence

/-!
Contract: the rules for expressions.

Owns:
- expressions that begin with their own token: literals, names, calls, signs, parentheses;
- what may follow an operand, while it binds tightly enough.

Does not own: queries, and how deep expressions may nest.
-/

namespace SqlDml

namespace Rule

/-- One expression or more, with commas between them. -/
def exprs (inner : InnerRules) : Rule (List Expr) := commaSeparated inner.expr

/-- A query in parentheses, with the span of the parentheses. -/
def queryInParens (inner : InnerRules) : Rule (Query × Span) := do
  let start ← expectMark .leftParen
  let query ← inner.query
  let stop ← expectMark .rightParen
  return (query, start.merge stop)

/-- A query in parentheses, as a value. -/
def subquery (inner : InnerRules) : Rule Expr := do
  let (query, span) ← queryInParens inner
  return .subquery query span

/-! ## Behind an operand -/

/-- Whether the token some places ahead opens a query in parentheses. -/
def subqueryFollows (ahead : Nat) : Rule Bool := do
  if ← aheadIs ahead (.punct .leftParen) then
    return (← peekAhead (ahead + 1)).startsQuery
  else
    return false

/-- The quantifier that a token names. -/
def quantifier? : TokenKind → Option Quantifier
  | .keyword .ALL => some .all
  | .keyword .ANY | .keyword .SOME => some .any
  | _ => none

/-- The right side of a comparison: an operand, or `ALL`, `ANY` or `SOME` with a subquery.  The last
two words are names where no query follows. -/
def comparison (inner : InnerRules) (left : Expr) (op : BinaryOp) : Rule Expr := do
  let plain : Rule Expr := do
    return .ofOperands left op (← inner.operand (op.power + 1))
  match quantifier? (← peek) with
  | none => plain
  | some quantifier =>
      if ← subqueryFollows 1 then
        let _ ← advance
        let _ ← expectMark .leftParen
        let query ← inner.query
        let stop ← expectMark .rightParen
        return .quantified left op quantifier query (left.span.merge stop)
      else
        plain

/-- The value that a token names behind `IS`. -/
def isValue? : TokenKind → Option IsValue
  | .keyword .NULL => some .null
  | .keyword .TRUE => some .true
  | .keyword .FALSE => some .false
  | .keyword .UNKNOWN => some .unknown
  | _ => none

/-- `[NOT] NULL|TRUE|FALSE|UNKNOWN` behind `IS`. -/
def isTest (left : Expr) : Rule Expr := do
  let negated ← eatWord .NOT
  match isValue? (← peek) with
  | some value =>
      let stop ← advance
      return .is left negated value (left.span.merge stop.span)
  | none => fail ["NULL", "TRUE", "FALSE", "UNKNOWN"]

/-- A query that a closing parenthesis follows. -/
def queryBeforeParen (inner : InnerRules) : Rule Query := do
  let query ← inner.query
  if ← nextIsMark .rightParen then
    return query
  else
    fail [(TokenKind.punct .rightParen).describe]

/-- The set behind `IN (`.  A second parenthesis may open a query or the first item of a list, so
the query is tried first. -/
def inSet (inner : InnerRules) : Rule InSet := do
  match ← peek with
  | .keyword .SELECT | .keyword .WITH => return .subquery (← inner.query)
  | .punct .leftParen =>
      match ← attempt (queryBeforeParen inner) with
      | some query => return .subquery query
      | none => return .list (← exprs inner)
  | _ => return .list (← exprs inner)

/-- A set in parentheses behind `IN`. -/
def inTest (inner : InnerRules) (left : Expr) (negated : Bool) : Rule Expr := do
  let _ ← expectMark .leftParen
  let set ← inSet inner
  let stop ← expectMark .rightParen
  return .isIn left set negated (left.span.merge stop)

/-- The bounds behind `BETWEEN`. -/
def betweenTest (inner : InnerRules) (left : Expr) (negated : Bool) : Rule Expr := do
  let low ← inner.operand Power.predicateOperand
  let _ ← expectWord .AND
  let high ← inner.operand Power.predicateOperand
  return .between left low high negated (left.span.merge high.span)

/-- `[ESCAPE operand]`, which only `LIKE` takes. -/
def escapeOperand (inner : InnerRules) (op : LikeOp) : Rule (Option Expr) := do
  match op with
  | .regexp => return none
  | .like =>
      if ← eatWord .ESCAPE then
        return some (← inner.operand Power.predicateOperand)
      else
        return none

/-- The pattern behind `LIKE` or `REGEXP`. -/
def likeTest (inner : InnerRules) (left : Expr) (op : LikeOp) (negated : Bool) : Rule Expr := do
  let pattern ← inner.operand Power.predicateOperand
  let escape ← escapeOperand inner op
  let stop := (escape.getD pattern).span
  return .like left pattern escape op negated (left.span.merge stop)

/-- The name of a collation: a string, or a name for which every keyword may stand. -/
def collationName : Rule Ident := do
  let token ← peekToken 0
  match token.kind with
  | .string value quote =>
      let _ ← advance
      return ⟨value, some quote, token.span⟩
  | _ => name true

/-- `COLLATE name` behind an operand. -/
def collate (left : Expr) : Rule Expr := do
  let _ ← expectWord .COLLATE
  let collation ← collationName
  return .collate left collation (left.span.merge collation.span)

/-- The continuation at the cursor, if the next tokens begin one. -/
def continuation? : Rule (Option Continuation) := do
  match ← peek with
  | .keyword .NOT => return Continuation.afterNot? (← peekAhead 1)
  | .keyword .SOUNDS => return Continuation.afterSounds? (← peekAhead 1)
  | kind => return Continuation.ofToken? (← get).settings.pipesAsConcat kind

/-- Consumes the tokens that a continuation begins with. -/
def skipContinuation (continuation : Continuation) : Rule Unit := do
  let _ ← advance
  if continuation.width = 2 then
    let _ ← advance

/-- Reads a continuation behind its operand. -/
def continueWith (inner : InnerRules) (left : Expr) (continuation : Continuation) : Rule Expr := do
  skipContinuation continuation
  match continuation with
  | .operator op => return .ofOperands left op (← inner.operand (op.power + 1))
  | .comparison op => comparison inner left op
  | .is => isTest left
  | .isIn negated => inTest inner left negated
  | .between negated => betweenTest inner left negated
  | .like op negated => likeTest inner left op negated
  | .soundsLike =>
      let pattern ← inner.operand Power.predicateOperand
      return .soundsLike left pattern (left.span.merge pattern.span)

/-- Extends an operand by one continuation that binds at least as tightly as `power`, if there is
one. -/
def extendOperand (inner : InnerRules) (power : Nat) (left : Expr) : Rule (Option Expr) := do
  if ← nextIsWord .COLLATE then
    if power ≤ Power.collate then
      return some (← collate left)
    else
      return none
  else
    match ← continuation? with
    | some continuation =>
        if power ≤ continuation.power then
          return some (← continueWith inner left continuation)
        else
          return none
    | none => return none

/-! ## Calls, casts and cases -/

/-- The arguments and the closing parenthesis of a call. -/
def callArguments (inner : InnerRules) (function : Ident) : Rule Expr := do
  let _ ← expectMark .leftParen
  if ← eatMark .star then
    let stop ← expectMark .rightParen
    return .call function .star false (function.span.merge stop)
  else
    let distinct ← eatWord .DISTINCT
    let noArguments ← if distinct then pure false else nextIsMark .rightParen
    let items ← if noArguments then pure [] else exprs inner
    let stop ← expectMark .rightParen
    return .call function (.list items) distinct (function.span.merge stop)

/-- A call of the function that a keyword names. -/
def keywordCall (inner : InnerRules) : Rule Expr := do
  callArguments inner (← name true)

/-- A call or a column, both of which begin with a name. -/
def nameExpr (inner : InnerRules) : Rule Expr := do
  if ← aheadIs 1 (.punct .leftParen) then
    callArguments inner (← identifier)
  else
    return .column (← columnRef)

/-- `CAST(expr AS type)` -/
def castExpr (inner : InnerRules) : Rule Expr := do
  let start ← expectWord .CAST
  let _ ← expectMark .leftParen
  let operand ← inner.expr
  let _ ← expectWord .AS
  let target ← typeName
  let stop ← expectMark .rightParen
  return .cast operand target (start.merge stop)

/-- `WHEN condition THEN result`, as often as it follows. -/
def whenBranches (inner : InnerRules) : Rule (List (Expr × Expr)) := do
  let whens ← whileSome (fun whens => do
    if ← eatWord .WHEN then
      let condition ← inner.expr
      let _ ← expectWord .THEN
      let result ← inner.expr
      return some ((condition, result) :: whens)
    else
      return none) []
  return whens.reverse

/-- `CASE [operand] WHEN ... [ELSE ...] END` -/
def caseExpr (inner : InnerRules) : Rule Expr := do
  let start ← expectWord .CASE
  let operand ← if ← nextIsWord .WHEN then pure none else some <$> inner.expr
  let whens ← whenBranches inner
  if whens.isEmpty then
    fail [Keyword.WHEN.spelling]
  else
    let otherwise ← if ← eatWord .ELSE then some <$> inner.expr else pure none
    let stop ← expectWord .END
    return .case operand whens otherwise (start.merge stop)

/-! ## In front -/

/-- An operator in front of its operand. -/
def unaryExpr (inner : InnerRules) (op : UnaryOp) (power : Nat) : Rule Expr := do
  let start ← advance
  let operand ← inner.operand power
  return .unary op operand (start.span.merge operand.span)

/-- `EXISTS (query)` -/
def existsExpr (inner : InnerRules) : Rule Expr := do
  let start ← advance
  let _ ← expectMark .leftParen
  let query ← inner.query
  let stop ← expectMark .rightParen
  return .exists query (start.span.merge stop)

/-- `ROW(expr, ...)` -/
def rowExpr (inner : InnerRules) : Rule Expr := do
  let start ← advance
  let _ ← expectMark .leftParen
  let items ← exprs inner
  let stop ← expectMark .rightParen
  return .row items (start.span.merge stop)

/-- An expression in parentheses, or a row of several. -/
def exprInParens (inner : InnerRules) : Rule Expr := do
  let start ← expectMark .leftParen
  let first ← inner.expr
  if ← eatMark .comma then
    let others ← exprs inner
    let stop ← expectMark .rightParen
    return .row (first :: others) (start.merge stop)
  else
    let _ ← expectMark .rightParen
    return first

/-- What an opening parenthesis begins: a query, an expression or a row.  A second parenthesis
leaves it open, so the query is tried first. -/
def parenExpr (inner : InnerRules) : Rule Expr := do
  match ← peekAhead 1 with
  | .keyword .SELECT | .keyword .WITH => subquery inner
  | .punct .leftParen =>
      match ← attempt (subquery inner) with
      | some expr => return expr
      | none => exprInParens inner
  | _ => exprInParens inner

/-- An expression that begins with a name or with a keyword that is read as one. -/
def keywordExpr (inner : InnerRules) (word : Keyword) : Rule Expr := do
  let asName : Rule Expr :=
    if word.isNonreserved then nameExpr inner else fail ["expression"]
  if word.isFunctionName then
    if ← aheadIs 1 (.punct .leftParen) then
      keywordCall inner
    else
      asName
  else
    asName

/-- A word of `DATE`, `TIME` and `TIMESTAMP`: in front of a string it makes a literal. -/
def temporalExpr (inner : InnerRules) (word : Keyword) (kind : TemporalKind) : Rule Expr := do
  if (← peekAhead 1).isString then
    temporalLiteral kind
  else
    keywordExpr inner word

/-- `CURRENT_TIMESTAMP`, which is a call when it has an argument. -/
def currentTimestampExpr (inner : InnerRules) : Rule Expr := do
  if ← aheadIs 1 (.punct .leftParen) then
    if ← aheadIs 2 (.punct .rightParen) then
      currentTimestamp
    else
      keywordCall inner
  else
    currentTimestamp

/-- `DEFAULT`, which is a call in front of a parenthesis. -/
def defaultExpr (inner : InnerRules) : Rule Expr := do
  if ← aheadIs 1 (.punct .leftParen) then
    keywordExpr inner .DEFAULT
  else
    let token ← advance
    return .default token.span

/-- Whether the token can follow the name of a character set. -/
def isIntroducible : TokenKind → Bool
  | .string _ _ | .hex _ | .bit _ => true
  | _ => false

/-- An expression that begins with an unquoted name: a literal behind the name of a character set, a
call or a column. -/
def wordExpr (inner : InnerRules) (text : String) : Rule Expr := do
  if isIntroducible (← peekAhead 1) then
    match introducedCharset? text with
    | some charset => introducedLiteral charset
    | none => nameExpr inner
  else
    nameExpr inner

/-- An expression up to where an operator could follow. -/
def primaryExpr (inner : InnerRules) : Rule Expr := do
  match ← peek with
  | .integer value => tokenLiteral (.integer value)
  | .number text => tokenLiteral (.number text)
  | .string _ _ =>
      let (value, span) ← stringRun
      return .literal (.string value) span
  | .hex digits => tokenLiteral (.hex digits)
  | .bit digits => tokenLiteral (.bit digits)
  | .word text => wordExpr inner text
  | .quotedWord _ _ => nameExpr inner
  | .punct .question => placeholder
  | .punct .leftBrace => odbcLiteral
  | .punct .minus => unaryExpr inner .negate Power.unaryOperand
  | .punct .plus => unaryExpr inner .plus Power.unaryOperand
  | .punct .tilde => unaryExpr inner .bitNot Power.unaryOperand
  | .punct .bang => unaryExpr inner .not Power.unaryOperand
  | .punct .leftParen => parenExpr inner
  | .keyword .BINARY => unaryExpr inner .binary Power.unaryOperand
  | .keyword .NOT => unaryExpr inner .not Power.notOperand
  | .keyword .NULL => tokenLiteral .null
  | .keyword .TRUE => tokenLiteral .true
  | .keyword .FALSE => tokenLiteral .false
  | .keyword .DATE => temporalExpr inner .DATE .date
  | .keyword .TIME => temporalExpr inner .TIME .time
  | .keyword .TIMESTAMP => temporalExpr inner .TIMESTAMP .timestamp
  | .keyword .CURRENT_TIMESTAMP => currentTimestampExpr inner
  | .keyword .DEFAULT => defaultExpr inner
  | .keyword .EXISTS => existsExpr inner
  | .keyword .CAST => castExpr inner
  | .keyword .CASE => caseExpr inner
  | .keyword .ROW =>
      if ← aheadIs 1 (.punct .leftParen) then
        rowExpr inner
      else
        fail ["expression"]
  | .keyword word => keywordExpr inner word
  | .punct _ | .endOfInput => fail ["expression"]

/-- An expression whose operators bind at least as tightly as `power`, one nesting level deep. -/
def operandBody (inner : InnerRules) (power : Nat) : Rule Expr := do
  whileSome (extendOperand inner power) (← primaryExpr inner)

end Rule

end SqlDml
