import SqlDml.Error.Lexical
import SqlDml.Text.Cut

/-!
Contract: everything that can go wrong between a source and its tree.

Owns:
- a syntax error as the descriptions of what was expected, what was found, and where;
- merging the failures of two alternatives: the further one wins, and at one place their
  descriptions are united, sorted and free of duplicates;
- the three families of failure, their wording and their JSON form;
- the snippet that shows a failure below its source line.

Does not own: which alternatives are tried, and the choice between several failures of one parse;
that is the grammar.
-/

namespace SqlDml

/-! ## Failures of the grammar at a token -/

/-- Puts a description into a strictly increasing list; one that is already there stays single. -/
def insertDescription (description : String) : List String → List String
  | [] => [description]
  | head :: tail =>
      if description = head then head :: tail
      else if description < head then description :: head :: tail
      else head :: insertDescription description tail

/-- The descriptions of a list in strictly increasing order. -/
def sortDescriptions (descriptions : List String) : List String :=
  descriptions.foldr insertDescription []

/-- The grammar could not go on with the token at `position`. -/
structure SyntaxError where
  /-- Descriptions of what would have been accepted, strictly increasing. -/
  expected : List String
  /-- Description of the token that stands there. -/
  found : String
  position : Position
deriving DecidableEq, Repr

namespace SyntaxError

/-- A failure at a position, with the expected descriptions in any order. -/
def ofExpected (position : Position) (expected : List String) (found : String) : SyntaxError :=
  ⟨sortDescriptions expected, found, position⟩

/-- The failure of two competing alternatives.  The one that got further into the source stands; at
one offset both sets of expected descriptions are united. -/
def merge (left right : SyntaxError) : SyntaxError :=
  match compare left.position.offset right.position.offset with
  | .gt => left
  | .lt => right
  | .eq => ofExpected left.position (left.expected ++ right.expected) left.found

/-- The expected descriptions as words. -/
def describeExpected (expected : List String) : String :=
  match expected.getLast? with
  | none => "a valid token"
  | some last =>
      if expected.length = 1 then last
      else "one of " ++ ", ".intercalate expected.dropLast ++ ", or " ++ last

/-- The wording of a failure, with its position in front. -/
def message (error : SyntaxError) : String :=
  error.position.render ++ ": expected " ++ describeExpected error.expected ++ ", found " ++
    error.found

/-- The members of the JSON form. -/
def members (error : SyntaxError) : List (String × Json) :=
  [("expected", .array (error.expected.map Json.string)), ("found", .string error.found),
    ("position", error.position.toJson)]

end SyntaxError

/-! ## Failures of all kinds -/

/-- Why a source has no tree. -/
inductive ParseError where
  /-- The source cannot be read as tokens. -/
  | lexical (error : LexError)
  /-- No rule of the grammar goes on with some token. -/
  | unexpected (error : SyntaxError)
  /-- The nesting goes past the limit, at the token of the given position. -/
  | tooDeep (limit : Nat) (position : Position)
deriving DecidableEq, Repr

namespace ParseError

/-- The wording of a failure. -/
def message : ParseError → String
  | .lexical error => "lexical error at " ++ error.message
  | .unexpected error => "syntax error at " ++ error.message
  | .tooDeep limit position =>
      "statement too deeply nested at " ++ position.render ++ s!" (limit {limit})"

/-- Where a failure was met. -/
def position : ParseError → Position
  | .lexical error => error.position
  | .unexpected error => error.position
  | .tooDeep _ position => position

def isLexical : ParseError → Bool
  | .lexical _ => true
  | _ => false

def isUnexpected : ParseError → Bool
  | .unexpected _ => true
  | _ => false

/-- The JSON form: the family first, then the members of the failure itself. -/
def toJson : ParseError → Json
  | .lexical error => .object (("type", .string "lex") :: error.members)
  | .unexpected error => .object (("type", .string "syntax") :: error.members)
  | .tooDeep limit position =>
      .object [("type", .string "recursion_limit_exceeded"), ("limit", .number limit),
        ("position", position.toJson)]

/-- A run of blanks. -/
def blanks (count : Nat) : String := String.ofList (List.replicate count ' ')

/-- The failure, the source line where it was met, and a caret under its column. -/
def snippet (error : ParseError) (source : String) : String :=
  let position := error.position
  let text := String.ofList (Text.lineAt (position.line - 1) source.toList)
  let gutter := toString position.line
  let margin := blanks gutter.length
  error.message ++ "\n" ++ margin ++ " |\n" ++ gutter ++ " | " ++ text ++ "\n" ++ margin ++ " | " ++
    blanks (position.column - 1) ++ "^"

end ParseError

end SqlDml
