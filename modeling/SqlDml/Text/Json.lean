import SqlDml.Text.Printable

/-!
Contract: JSON documents and their two written forms.

Owns:
- documents whose objects keep the order of their members;
- the form without blanks and the indented form;
- which characters a written string escapes.

Does not own: reading JSON.
-/

namespace SqlDml

/-- A JSON document.  All numbers of this library are whole. -/
inductive Json where
  | null
  | bool (value : Bool)
  | number (value : Int)
  | string (value : String)
  | array (items : List Json)
  | object (members : List (String × Json))
deriving Inhabited

namespace Json

/-- One character inside a written string.  Quotes, backslashes and the ASCII controls are escaped,
all else stands for itself. -/
def stringChar (char : Char) : String :=
  if char = '"' then "\\\""
  else if char = '\\' then "\\\\"
  else if char = '\x08' then "\\b"
  else if char = '\x0c' then "\\f"
  else if char = '\n' then "\\n"
  else if char = '\r' then "\\r"
  else if char = '\t' then "\\t"
  else if char.toNat < 0x10 then "\\u000" ++ Text.hexDigits char.toNat
  else if char.toNat < 0x20 then "\\u00" ++ Text.hexDigits char.toNat
  else char.toString

/-- A written string. -/
def quote (value : String) : String :=
  "\"" ++ String.join (value.toList.map stringChar) ++ "\""

mutual
/-- The written form without any blank. -/
def compact : Json → String
  | .null => "null"
  | .bool value => if value then "true" else "false"
  | .number value => toString value
  | .string value => quote value
  | .array items => "[" ++ ",".intercalate (compactItems items) ++ "]"
  | .object members => "\x7b" ++ ",".intercalate (compactMembers members) ++ "\x7d"

def compactItems : List Json → List String
  | [] => []
  | item :: items => compact item :: compactItems items

def compactMembers : List (String × Json) → List String
  | [] => []
  | (key, value) :: members => (quote key ++ ":" ++ compact value) :: compactMembers members
end

/-- A line break followed by two blanks for each level. -/
def lineBreak (level : Nat) : String :=
  "\n" ++ String.ofList (List.replicate (2 * level) ' ')

/-- Written items between brackets, each on a line of its own; brackets without items touch. -/
def bracketed (opening closing : String) (level : Nat) (items : List String) : String :=
  if items.isEmpty then
    opening ++ closing
  else
    opening ++ lineBreak (level + 1) ++ ("," ++ lineBreak (level + 1)).intercalate items ++
      lineBreak level ++ closing

mutual
/-- The indented form of a document that stands at the given level. -/
def prettyAt (level : Nat) : Json → String
  | .null => "null"
  | .bool value => if value then "true" else "false"
  | .number value => toString value
  | .string value => quote value
  | .array items => bracketed "[" "]" level (prettyItems level items)
  | .object members => bracketed "\x7b" "\x7d" level (prettyMembers level members)

def prettyItems (level : Nat) : List Json → List String
  | [] => []
  | item :: items => prettyAt (level + 1) item :: prettyItems level items

def prettyMembers (level : Nat) : List (String × Json) → List String
  | [] => []
  | (key, value) :: members =>
      (quote key ++ ": " ++ prettyAt (level + 1) value) :: prettyMembers level members
end

/-- The indented form. -/
def pretty (document : Json) : String := prettyAt 0 document

end Json

end SqlDml
