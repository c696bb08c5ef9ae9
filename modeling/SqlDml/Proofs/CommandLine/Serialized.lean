import SqlDml.Error.Parse

/-!
Contract: the document of a failure.

Owns:
- reading a failure from its document;
- that a failure is read back from the document that is made of it.

Does not own: the text of documents.
-/

namespace SqlDml

namespace Json

/-- The value under a key. -/
def member? (key : String) : Json → Option Json
  | .object members => (members.find? fun member => member.1 == key).map Prod.snd
  | _ => none

def number? : Json → Option Nat
  | .number (.ofNat value) => some value
  | _ => none

def string? : Json → Option String
  | .string value => some value
  | _ => none

/-- The only character of a text. -/
def char? (document : Json) : Option Char :=
  match document.string?.map String.toList with
  | some [char] => some char
  | _ => none

def strings? : Json → Option (List String)
  | .array items => items.mapM string?
  | _ => none

variable (number : Nat) (text : String) (char : Char) (texts : List String)

@[simp] theorem number?_number : (Json.number number).number? = some number := rfl

@[simp] theorem string?_string : (Json.string text).string? = some text := rfl

@[simp] theorem char?_singleton : (Json.string (.singleton char)).char? = some char := by
  simp [char?]

@[simp] theorem strings?_array : (Json.array (texts.map Json.string)).strings? = some texts := by
  simp only [strings?]
  induction texts with
  | nil => rfl
  | cons text texts inductionHypothesis => simp [List.mapM_cons, inductionHypothesis]

end Json

namespace Position

def ofJson? (document : Json) : Option Position := do
  let offset ← (← document.member? "offset").number?
  let line ← (← document.member? "line").number?
  let column ← (← document.member? "column").number?
  return ⟨offset, line, column⟩

@[simp] theorem ofJson?_toJson (position : Position) : ofJson? position.toJson = some position := rfl

end Position

namespace LexErrorKind

/-- A cause by the name of its kind, and by its detail. -/
def ofDetail? (detail : Option Json) : String → Option LexErrorKind
  | "unexpected_char" => return .unexpectedChar (← (← detail).char?)
  | "unterminated_string" => return .unterminatedString (← (← (← detail).member? "quote").char?)
  | "unterminated_identifier" =>
      return .unterminatedIdentifier (← (← (← detail).member? "quote").char?)
  | "unterminated_comment" => some .unterminatedComment
  | "malformed_number" => return .malformedNumber (← (← detail).string?)
  | "input_too_large" => return .inputTooLarge (← (← (← detail).member? "len").number?)
  | _ => none

def ofJson? (document : Json) : Option LexErrorKind := do
  ofDetail? (document.member? "detail") (← (← document.member? "kind").string?)

@[simp] theorem ofJson?_toJson (kind : LexErrorKind) : ofJson? kind.toJson = some kind := by
  cases kind <;> simp [toJson, ofJson?, ofDetail?, Json.member?]

end LexErrorKind

namespace ParseError

/-- A failure by the name of its family. -/
def ofFamily? (document : Json) : String → Option ParseError
  | "lex" => do
      let kind ← LexErrorKind.ofJson? (← document.member? "kind")
      let position ← Position.ofJson? (← document.member? "position")
      return .lexical ⟨kind, position⟩
  | "syntax" => do
      let expected ← (← document.member? "expected").strings?
      let found ← (← document.member? "found").string?
      let position ← Position.ofJson? (← document.member? "position")
      return .unexpected ⟨expected, found, position⟩
  | "recursion_limit_exceeded" => do
      let limit ← (← document.member? "limit").number?
      let position ← Position.ofJson? (← document.member? "position")
      return .tooDeep limit position
  | _ => none

/-- The failure that a document tells. -/
def ofJson? (document : Json) : Option ParseError := do
  ofFamily? document (← (← document.member? "type").string?)

/-- The document of a failure tells everything about it. -/
theorem ofJson?_toJson (error : ParseError) : ofJson? error.toJson = some error := by
  cases error <;>
    simp [toJson, ofJson?, ofFamily?, Json.member?, LexError.members, SyntaxError.members]

end ParseError

end SqlDml
