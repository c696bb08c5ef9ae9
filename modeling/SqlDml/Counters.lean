import SqlDml.Grammar.Parse
import SqlDml.Render.Statement

/-!
Contract: counting what was parsed and tokenized.

Owns:
- the counters and what each parse and each tokenizing adds to them;
- sessions, in which steps follow one another and the counters go on.

Does not own: the parses themselves.
-/

namespace SqlDml

/-- What parsers have done. -/
structure ParseCounters where
  /-- Statements and expressions that were parsed. -/
  statements : Nat := 0
  /-- Parses that failed. -/
  failures : Nat := 0
  /-- Alternatives that were rejected. -/
  backtracks : Nat := 0
  /-- How many times the nesting limit was met. -/
  depthTrips : Nat := 0
deriving DecidableEq, Repr

/-- What lexers have done. -/
structure TokenizeCounters where
  /-- Lexers that were made. -/
  calls : Nat := 0
  /-- Tokens that were produced, ends of input included. -/
  tokens : Nat := 0
  /-- Lexical failures. -/
  errors : Nat := 0
deriving DecidableEq, Repr

/-- All counters. -/
structure Counters where
  parse : ParseCounters := {}
  tokenize : TokenizeCounters := {}
deriving DecidableEq, Repr

namespace Counters

/-- The counters after one more lexer with its tokens and failures. -/
def addLexer (counters : TokenizeCounters) (tokens errors : Nat) : TokenizeCounters where
  calls := counters.calls + 1
  tokens := counters.tokens + tokens
  errors := counters.errors + errors

/-- The counters after a parse that ended in the given state. -/
def addParse (counters : Counters) (succeeded : Bool) (state : ParserState) : Counters where
  parse := {
    statements := counters.parse.statements + (if succeeded then 1 else 0)
    failures := counters.parse.failures + (if succeeded then 0 else 1)
    backtracks := counters.parse.backtracks + state.backtracks
    depthTrips := counters.parse.depthTrips + state.depthTrips }
  tokenize := addLexer counters.tokenize state.stream.lexer.tokens state.stream.lexer.errors

/-- The counters after a tokenizing. -/
def addTokenRun (counters : Counters) (run : TokenRun) : Counters :=
  { counters with
    tokenize := addLexer counters.tokenize run.tokens.length (if run.error.isSome then 1 else 0) }

/-- The JSON form of the counters. -/
def toJson (counters : Counters) : Json :=
  .object [
    ("parse", .object [("statements", .number counters.parse.statements),
      ("failures", .number counters.parse.failures),
      ("backtracks", .number counters.parse.backtracks),
      ("recursion_limit_trips", .number counters.parse.depthTrips)]),
    ("tokenize", .object [("calls", .number counters.tokenize.calls),
      ("tokens", .number counters.tokenize.tokens),
      ("errors", .number counters.tokenize.errors)])]

end Counters

/-- A step of a session. -/
inductive SessionStep where
  | statement (source : String) (settings : Settings)
  | expression (source : String) (settings : Settings)
  | tokenize (source : String) (settings : Settings)
  | resetParse
  | resetTokenize

/-- What a step of a session gave. -/
inductive SessionOutcome where
  | statement (outcome : Except ParseError ParsedStatement)
  | expression (outcome : Except ParseError Expr)
  | tokens (outcome : Except LexError (List Token))
  | reset

namespace SessionOutcome

/-- An outcome in a few words: canonical text, a number of tokens, or the wording of a failure. -/
def summary : SessionOutcome → String
  | .statement (.ok parsed) => parsed.statement.render
  | .expression (.ok expr) => expr.render
  | .statement (.error error) | .expression (.error error) => error.message
  | .tokens (.ok read) => s!"{read.length} tokens"
  | .tokens (.error error) => error.message
  | .reset => "reset"

end SessionOutcome

/-- Whether an outcome is no failure. -/
def succeeded {ε α : Type} : Except ε α → Bool
  | .ok _ => true
  | .error _ => false

namespace Counters

/-- Takes one step, and counts it. -/
def step (counters : Counters) : SessionStep → SessionOutcome × Counters
  | .statement source settings =>
      let (outcome, state) := (ParserState.ofSource source settings).parseStatement
      (.statement outcome, counters.addParse (succeeded outcome) state)
  | .expression source settings =>
      let (outcome, state) := (ParserState.ofSource source settings).parseExpression
      (.expression outcome, counters.addParse (succeeded outcome) state)
  | .tokenize source settings =>
      let run := TokenRun.ofSource source settings
      (.tokens run.toExcept, counters.addTokenRun run)
  | .resetParse => (.reset, { counters with parse := {} })
  | .resetTokenize => (.reset, { counters with tokenize := {} })

/-- Takes steps one after the other; each outcome comes with the counters after it. -/
def run (counters : Counters) : List SessionStep → List (SessionOutcome × Counters)
  | [] => []
  | next :: steps =>
      let taken := counters.step next
      taken :: taken.2.run steps

end Counters

end SqlDml
