import SqlDml.Source.Span
import SqlDml.Text.Json

/-!
Contract: the shape of a tree: its records, choices, lists and values, each under its name.

Owns:
- shapes and their equality;
- the JSON form of a shape, for any form of its spans;
- the outline of a shape, an indented text with one entry a line.

Does not own: the names in the shape of any particular tree.
-/

namespace SqlDml

/-- Where the JSON form of a choice puts its name. -/
inductive Tagging where
  /-- As the only key, over the payload. -/
  | outside
  /-- Under `type`, beside the payload under `value`. -/
  | beside
  /-- Under `statement`, in front of the members of the payload. -/
  | inside
deriving DecidableEq, Repr

/-- The shape of a tree.  Names are written as in an outline. -/
inductive Shape where
  | text (value : String)
  | char (value : Char)
  | number (value : Int)
  | flag (value : Bool)
  | span (value : Span)
  | absent
  | present (inner : Shape)
  | list (items : List Shape)
  | tuple (items : List Shape)
  | record (name : String) (fields : List (String × Shape))
  /-- A choice without payload. -/
  | choice (tagging : Tagging) (name : String)
  /-- A choice with unnamed items. -/
  | choiceOf (tagging : Tagging) (name : String) (items : List Shape)
  /-- A choice with named fields. -/
  | choiceWith (tagging : Tagging) (name : String) (fields : List (String × Shape))

namespace Shape

/-- The shape of an optional value. -/
def optional {α : Type} (shape : α → Shape) : Option α → Shape
  | some value => .present (shape value)
  | none => .absent

/-- The shape of a list of values. -/
def listOf {α : Type} (shape : α → Shape) (values : List α) : Shape :=
  .list (values.map shape)

/-- A choice without payload, named outside. -/
def plain (name : String) : Shape := .choice .outside name

/-! ## Equality -/

mutual
/-- Whether two shapes are the same. -/
def same : Shape → Shape → Bool
  | .text left, .text right => left == right
  | .char left, .char right => left == right
  | .number left, .number right => left == right
  | .flag left, .flag right => left == right
  | .span left, .span right => left == right
  | .absent, .absent => true
  | .present left, .present right => same left right
  | .list left, .list right => sameItems left right
  | .tuple left, .tuple right => sameItems left right
  | .record leftName left, .record rightName right =>
      leftName == rightName && sameFields left right
  | .choice leftTagging leftName, .choice rightTagging rightName =>
      leftTagging == rightTagging && leftName == rightName
  | .choiceOf leftTagging leftName left, .choiceOf rightTagging rightName right =>
      leftTagging == rightTagging && leftName == rightName && sameItems left right
  | .choiceWith leftTagging leftName left, .choiceWith rightTagging rightName right =>
      leftTagging == rightTagging && leftName == rightName && sameFields left right
  | _, _ => false

def sameItems : List Shape → List Shape → Bool
  | [], [] => true
  | left :: lefts, right :: rights => same left right && sameItems lefts rights
  | _, _ => false

def sameFields : List (String × Shape) → List (String × Shape) → Bool
  | [], [] => true
  | (leftName, left) :: lefts, (rightName, right) :: rights =>
      leftName == rightName && same left right && sameFields lefts rights
  | _, _ => false
end

instance : BEq Shape := ⟨same⟩

/-! ## JSON -/

/-- A name in small letters, with an underscore before each capital but the first. -/
def snakeCase (name : String) : String :=
  match name.toList with
  | [] => ""
  | first :: rest =>
      String.ofList (first.toLower :: rest.flatMap fun char =>
        if char.isUpper then ['_', char.toLower] else [char])

/-- The members of an object; other documents have none. -/
def membersOf : Json → List (String × Json)
  | .object members => members
  | _ => []

/-- A payload under the name of its choice. -/
def tagged (tagging : Tagging) (name : String) (payload : Json) : Json :=
  match tagging with
  | .outside => .object [(snakeCase name, payload)]
  | .beside => .object [("type", .string (snakeCase name)), ("value", payload)]
  | .inside => .object (("statement", .string (snakeCase name)) :: membersOf payload)

/-- The name of a choice that has no payload. -/
def taggedName (tagging : Tagging) (name : String) : Json :=
  match tagging with
  | .outside => .string (snakeCase name)
  | .beside => .object [("type", .string (snakeCase name))]
  | .inside => .object [("statement", .string (snakeCase name))]

/-- A single item stands for itself, several make an array. -/
def payloadOf : List Json → Json
  | [item] => item
  | items => .array items

mutual
/-- The JSON form of a shape, with spans in a given form. -/
def toJson (spanForm : Span → Json) : Shape → Json
  | .text value => .string value
  | .char value => .string value.toString
  | .number value => .number value
  | .flag value => .bool value
  | .span value => spanForm value
  | .absent => .null
  | .present inner => toJson spanForm inner
  | .list items => .array (itemsToJson spanForm items)
  | .tuple items => .array (itemsToJson spanForm items)
  | .record _ fields => .object (fieldsToJson spanForm fields)
  | .choice tagging name => taggedName tagging name
  | .choiceOf tagging name items =>
      tagged tagging name (payloadOf (itemsToJson spanForm items))
  | .choiceWith tagging name fields =>
      tagged tagging name (.object (fieldsToJson spanForm fields))

def itemsToJson (spanForm : Span → Json) : List Shape → List Json
  | [] => []
  | item :: items => toJson spanForm item :: itemsToJson spanForm items

def fieldsToJson (spanForm : Span → Json) : List (String × Shape) → List (String × Json)
  | [] => []
  | (name, field) :: fields =>
      (name, toJson spanForm field) :: fieldsToJson spanForm fields
end

/-! ## Outline -/

/-- A line break followed by four blanks for each level. -/
def outlineBreak (level : Nat) : String :=
  "\n" ++ String.ofList (List.replicate (4 * level) ' ')

/-- Entries between brackets, each on a line of its own with a comma behind it. -/
def enclose (opening closing : String) (level : Nat) (entries : List String) : String :=
  opening ++
    String.join (entries.map fun entry => outlineBreak (level + 1) ++ entry ++ ",") ++
    outlineBreak level ++ closing

mutual
/-- The outline of a shape that stands at a given level. -/
def outlineAt (level : Nat) : Shape → String
  | .text value => Text.quoteText value
  | .char value => Text.quoteChar value
  | .number value => toString value
  | .flag value => if value then "true" else "false"
  | .span value => value.render
  | .absent => "None"
  | .present inner => enclose "Some(" ")" level [outlineAt (level + 1) inner]
  | .list items =>
      if items.isEmpty then "[]" else enclose "[" "]" level (outlineItems (level + 1) items)
  | .tuple items => enclose "(" ")" level (outlineItems (level + 1) items)
  | .record name fields =>
      enclose (name ++ " \x7b") "\x7d" level (outlineFields (level + 1) fields)
  | .choice _ name => name
  | .choiceOf _ name items => enclose (name ++ "(") ")" level (outlineItems (level + 1) items)
  | .choiceWith _ name fields =>
      enclose (name ++ " \x7b") "\x7d" level (outlineFields (level + 1) fields)

def outlineItems (level : Nat) : List Shape → List String
  | [] => []
  | item :: items => outlineAt level item :: outlineItems level items

def outlineFields (level : Nat) : List (String × Shape) → List String
  | [] => []
  | (name, field) :: fields =>
      (name ++ ": " ++ outlineAt level field) :: outlineFields level fields
end

/-- The outline of a shape. -/
def outline (shape : Shape) : String := outlineAt 0 shape

end Shape

end SqlDml
