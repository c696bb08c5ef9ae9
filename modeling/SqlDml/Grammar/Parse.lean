import SqlDml.Grammar.Query
import SqlDml.Grammar.Statement

/-!
Contract: from a source to its tree.

Owns:
- the three rules that open a nesting level, by recursion on the levels that may still be opened;
- reading one statement or one expression up to the end of a source;
- which failure is reported: a lexical one first, else the furthest syntax error;
- the entry points of the parser.

Does not own: the rules of the language.
-/

namespace SqlDml

namespace Rule

mutual
/-- An expression, with `levels` nesting levels left to open. -/
def operandAt : (levels : Nat) → (power : Nat) → (state : ParserState) →
    Except ParseError Expr × ParserState
  | 0, _, state => tooDeep state
  | levels + 1, power, state =>
      enter (operandBody ⟨operandAt levels, queryAt levels, tableInParensAt levels⟩ power) state

/-- A query, with `levels` nesting levels left to open. -/
def queryAt : (levels : Nat) → (state : ParserState) → Except ParseError Query × ParserState
  | 0, state => tooDeep state
  | levels + 1, state =>
      enter (wholeQuery ⟨operandAt levels, queryAt levels, tableInParensAt levels⟩) state

/-- A table reference in parentheses, with `levels` nesting levels left to open. -/
def tableInParensAt : (levels : Nat) → (state : ParserState) →
    Except ParseError TableRef × ParserState
  | 0, state => tooDeep state
  | levels + 1, state =>
      enter (tableInParensBody ⟨operandAt levels, queryAt levels, tableInParensAt levels⟩) state
end

/-- The rules that open a nesting level when `levels` may still be opened. -/
def innerAt (levels : Nat) : InnerRules :=
  ⟨operandAt levels, queryAt levels, tableInParensAt levels⟩

/-- The rules that open a nesting level in the present state. -/
def innerRules : Rule InnerRules := do
  let state ← get
  return innerAt (state.settings.maxDepth - state.depth)

/-- The end of the source.  A lexical failure ends the tokens early, so the end is only reached when
there is none. -/
def endOfSource : Rule Unit := do
  if ← nextIs .endOfInput then
    let state ← get
    let (error, stream) := state.stream.takeLexError
    set { state with stream := stream }
    match error with
    | some error => throw (.lexical error)
    | none => return ()
  else
    fail [TokenKind.endOfInput.describe]

/-- An expression in the present state. -/
def expression : Rule Expr := do
  (← innerRules).expr

/-- An expression and the end of the source. -/
def wholeExpression : Rule Expr := do
  let expr ← expression
  endOfSource
  return expr

/-- A statement, an optional semicolon and the end of the source. -/
def wholeStatement : Rule Statement := do
  let tree ← statement (← innerRules)
  let _ ← eatMark .semicolon
  endOfSource
  return tree

/-- The failure to report in place of the one that ended a parse.  A lexical failure wins; a syntax
error gives way to a further one that an alternative met. -/
def reported (error : ParseError) : ParserState → ParseError × ParserState := fun state =>
  match state.stream.takeLexError with
  | (some lexical, stream) => (.lexical lexical, { state with stream := stream })
  | (none, stream) =>
      match error with
      | .unexpected last =>
          (.unexpected (remember state.furthest last),
            { state with stream := stream, furthest := none })
      | other => (other, { state with stream := stream })

/-- Runs a rule to its end and puts the failure to report in place of its own. -/
def finish {α : Type} (rule : Rule α) : Rule α := fun state =>
  match rule state with
  | (.ok value, state) => (.ok value, state)
  | (.error error, state) =>
      let (error, state) := reported error state
      (.error error, state)

end Rule

/-- A statement and the spans of the tokens that it was read from, the end of input left out. -/
structure ParsedStatement where
  statement : Statement
  tokens : List Span

/-- Parses the source of a fresh state as one statement. -/
def ParserState.parseStatement (state : ParserState) :
    Except ParseError ParsedStatement × ParserState :=
  match Rule.finish Rule.wholeStatement state with
  | (.ok statement, state) => (.ok ⟨statement, state.stream.consumedSpans⟩, state)
  | (.error error, state) => (.error error, state)

/-- Parses the rest of a source as one expression. -/
def ParserState.parseExpression (state : ParserState) : Except ParseError Expr × ParserState :=
  Rule.finish Rule.wholeExpression state

/-- Reads one expression, and leaves the state behind it, or where it failed. -/
def ParserState.nextExpression (state : ParserState) : Except ParseError Expr × ParserState :=
  Rule.expression state

/-- Parses a source as one statement. -/
def parseStatement (source : String) (settings : Settings) : Except ParseError ParsedStatement :=
  (ParserState.ofSource source settings).parseStatement.1

/-- Parses a source as one expression. -/
def parseExpression (source : String) (settings : Settings) : Except ParseError Expr :=
  (ParserState.ofSource source settings).parseExpression.1

end SqlDml
