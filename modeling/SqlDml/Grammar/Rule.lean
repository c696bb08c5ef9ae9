import SqlDml.Error.Parse
import SqlDml.TokenStream
import SqlDml.Tree.Query

/-!
Contract: what a grammar rule is, and how rules are put together.

Owns:
- the state that rules work on, and looking at and consuming its tokens;
- failing at a token with a set of expected descriptions;
- trying an alternative, which leaves no trace but the remembered failure when it does not match;
- entering a nesting level, and repeating a rule;
- the rules that a rule may use one nesting level deeper.

Does not own: any rule of the language itself.
-/

namespace SqlDml

/-- The state of one parse. -/
structure ParserState where
  settings : Settings
  /-- The whole source. -/
  source : List Char
  stream : TokenStream
  /-- How many nesting levels are open. -/
  depth : Nat
  /-- How many parameter markers are numbered. -/
  placeholders : Nat
  /-- The furthest failure among the rejected alternatives. -/
  furthest : Option SyntaxError
  /-- The failures of the rejected alternatives, the latest first. -/
  rejected : List SyntaxError
  /-- How many times the nesting limit was met. -/
  depthTrips : Nat

/-- The state at the beginning of a source. -/
def ParserState.ofSource (source : String) (settings : Settings) : ParserState where
  settings := settings
  source := source.toList
  stream := TokenStream.ofSource source settings
  depth := 0
  placeholders := 0
  furthest := none
  rejected := []
  depthTrips := 0

/-- How many alternatives were rejected. -/
def ParserState.backtracks (state : ParserState) : Nat := state.rejected.length

/-- A rule reads a tree or fails, and changes the state in both cases. -/
abbrev Rule (α : Type) := ExceptT ParseError (StateM ParserState) α

namespace Rule

/-! ## Tokens -/

/-- The token some places ahead. -/
def peekToken (ahead : Nat) : Rule Token := fun state =>
  let (token, stream) := state.stream.peek ahead
  (.ok token, { state with stream := stream })

/-- The kind of the token some places ahead. -/
def peekAhead (ahead : Nat) : Rule TokenKind := do
  return (← peekToken ahead).kind

/-- The kind of the next token. -/
def peek : Rule TokenKind := peekAhead 0

/-- Consumes the next token. -/
def advance : Rule Token := fun state =>
  let (token, stream) := state.stream.advance
  (.ok token, { state with stream := stream })

/-- The span of the next token. -/
def currentSpan : Rule Span := do
  return (← peekToken 0).span

/-- The span of the token consumed last. -/
def previousSpan : Rule Span := do
  return (← get).stream.previousSpan

/-- A bound on the tokens that are left. -/
def tokensAhead : Rule Nat := do
  return (← get).stream.tokensAhead

/-- Fails at the next token, which is none of what is expected. -/
def fail {α : Type} (expected : List String) : Rule α := do
  let token ← peekToken 0
  throw (.unexpected (.ofExpected token.span.position expected token.kind.describe))

/-- Whether the next token is of a given kind. -/
def nextIs (kind : TokenKind) : Rule Bool := do
  return (← peek) == kind

/-- Whether the token some places ahead is of a given kind. -/
def aheadIs (ahead : Nat) (kind : TokenKind) : Rule Bool := do
  return (← peekAhead ahead) == kind

/-- Consumes the next token if it is of a given kind, and tells whether it was. -/
def eat (kind : TokenKind) : Rule Bool := do
  if ← nextIs kind then
    let _ ← advance
    return true
  else
    return false

/-- Consumes the next token, which must be of a given kind. -/
def expect (kind : TokenKind) : Rule Span := do
  if ← nextIs kind then
    return (← advance).span
  else
    fail [kind.describe]

def nextIsWord (word : Keyword) : Rule Bool := nextIs (.keyword word)

def eatWord (word : Keyword) : Rule Bool := eat (.keyword word)

def expectWord (word : Keyword) : Rule Span := expect (.keyword word)

def nextIsMark (mark : Punct) : Rule Bool := nextIs (.punct mark)

def eatMark (mark : Punct) : Rule Bool := eat (.punct mark)

def expectMark (mark : Punct) : Rule Span := expect (.punct mark)

/-! ## Alternatives, nesting and repetition -/

/-- The further of a remembered failure and a new one. -/
def remember (furthest : Option SyntaxError) (error : SyntaxError) : SyntaxError :=
  match furthest with
  | some earlier => earlier.merge error
  | none => error

/-- Tries a rule.  When it meets an unexpected token, the tokens, the nesting depth and the
numbering of parameter markers are as before, and the failure is remembered.  Other failures go
through. -/
def attempt {α : Type} (rule : Rule α) : Rule (Option α) := fun state =>
  let mark := state.stream.cursor
  let depth := state.depth
  let placeholders := state.placeholders
  match rule state with
  | (.ok value, state) => (.ok (some value), state)
  | (.error (.unexpected error), state) =>
      (.ok none,
        { state with
          stream := state.stream.reset mark
          depth := depth
          placeholders := placeholders
          rejected := error :: state.rejected
          furthest := some (remember state.furthest error) })
  | (.error error, state) => (.error error, state)

/-- Runs a rule with one more nesting level open. -/
def enter {α : Type} (rule : Rule α) : Rule α := fun state =>
  let (outcome, state) := rule { state with depth := state.depth + 1 }
  (outcome, { state with depth := state.depth - 1 })

/-- Fails because no further nesting level may be opened. -/
def tooDeep {α : Type} : Rule α := do
  modify fun state => { state with depthTrips := state.depthTrips + 1 }
  let span ← currentSpan
  throw (.tooDeep (← get).settings.maxDepth span.position)

/-- The number of the next parameter marker. -/
def nextPlaceholder : Rule Nat := fun state =>
  (.ok state.placeholders, { state with placeholders := state.placeholders + 1 })

/-- Repeats a step, at most `fuel` times, until it gives nothing more. -/
def iterate {σ : Type} (step : σ → Rule (Option σ)) : Nat → σ → Rule σ
  | 0, value => pure value
  | fuel + 1, value => do
      match ← step value with
      | some next => iterate step fuel next
      | none => pure value

/-- Repeats a step until it gives nothing more.  Each step that gives something consumes a token, so
the tokens that are left bound the repetition. -/
def whileSome {σ : Type} (step : σ → Rule (Option σ)) (first : σ) : Rule σ := do
  iterate step (← tokensAhead) first

/-- One item or more, with commas between them. -/
def commaSeparated {α : Type} (item : Rule α) : Rule (List α) := do
  let first ← item
  let items ← whileSome (fun items => do
    if ← eatMark .comma then
      return some ((← item) :: items)
    else
      return none) [first]
  return items.reverse

end Rule

/-- The rules that open a nesting level, for use one level deeper. -/
structure InnerRules where
  /-- An expression whose operators bind at least as tightly as the given power. -/
  operand : Nat → Rule Expr
  query : Rule Query
  /-- A table reference that begins with a parenthesis. -/
  tableInParens : Rule TableRef

/-- An expression. -/
def InnerRules.expr (inner : InnerRules) : Rule Expr := inner.operand 0

end SqlDml
