import SqlDml.Source.Position
import SqlDml.Text.Json

/-!
Contract: failures to read a source as tokens.

Owns:
- the causes of a lexical failure and the wording of each;
- a lexical failure with its position, and its JSON form.

Does not own: when a failure arises; that is the lexer.
-/

namespace SqlDml

/-- The JSON form of a position. -/
def Position.toJson (position : Position) : Json :=
  .object [("offset", .number position.offset), ("line", .number position.line),
    ("column", .number position.column)]

/-- The most bytes that a source may have. -/
def maxSourceLength : Nat := 4294967295

/-- Why a source cannot be read as tokens. -/
inductive LexErrorKind where
  /-- A character that cannot begin any token. -/
  | unexpectedChar (char : Char)
  /-- A string literal without its closing quote. -/
  | unterminatedString (quote : Char)
  /-- A quoted identifier without its closing quote. -/
  | unterminatedIdentifier (quote : Char)
  /-- A block comment without its end. -/
  | unterminatedComment
  /-- A numeric, hexadecimal or bit literal that is not well formed, as written. -/
  | malformedNumber (text : String)
  /-- A source of more bytes than a position can count. -/
  | inputTooLarge (length : Nat)
deriving DecidableEq, Repr

namespace LexErrorKind

/-- The wording of a cause. -/
def message : LexErrorKind → String
  | .unexpectedChar char => "unexpected character " ++ Text.quoteChar char
  | .unterminatedString quote =>
      "unterminated string literal (missing closing " ++ quote.toString ++ ")"
  | .unterminatedIdentifier quote =>
      "unterminated quoted identifier (missing closing " ++ quote.toString ++ ")"
  | .unterminatedComment => "unterminated block comment"
  | .malformedNumber text => "malformed numeric literal " ++ Text.quoteText text
  | .inputTooLarge length => s!"input of {length} bytes exceeds the {maxSourceLength} byte limit"

/-- The JSON form of a cause: its kind, and its detail if it has one. -/
def toJson : LexErrorKind → Json
  | .unexpectedChar char =>
      .object [("kind", .string "unexpected_char"), ("detail", .string char.toString)]
  | .unterminatedString quote =>
      .object [("kind", .string "unterminated_string"),
        ("detail", .object [("quote", .string quote.toString)])]
  | .unterminatedIdentifier quote =>
      .object [("kind", .string "unterminated_identifier"),
        ("detail", .object [("quote", .string quote.toString)])]
  | .unterminatedComment => .object [("kind", .string "unterminated_comment")]
  | .malformedNumber text =>
      .object [("kind", .string "malformed_number"), ("detail", .string text)]
  | .inputTooLarge length =>
      .object [("kind", .string "input_too_large"),
        ("detail", .object [("len", .number length)])]

end LexErrorKind

/-- A lexical failure: its cause, and where the failing token or comment begins. -/
structure LexError where
  kind : LexErrorKind
  position : Position
deriving DecidableEq, Repr

namespace LexError

/-- The wording of a failure, with its position in front. -/
def message (error : LexError) : String :=
  error.position.render ++ ": " ++ error.kind.message

/-- The offending character, when the cause is an unexpected one. -/
def unexpectedChar? (error : LexError) : Option Char :=
  match error.kind with
  | .unexpectedChar char => some char
  | _ => none

/-- Whether the source ended inside a literal, an identifier or a comment. -/
def isUnterminated (error : LexError) : Bool :=
  match error.kind with
  | .unterminatedString _ | .unterminatedIdentifier _ | .unterminatedComment => true
  | _ => false

/-- The members of the JSON form. -/
def members (error : LexError) : List (String × Json) :=
  [("kind", error.kind.toJson), ("position", error.position.toJson)]

end LexError

end SqlDml
