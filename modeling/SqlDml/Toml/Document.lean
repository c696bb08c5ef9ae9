import SqlDml.Toml.Scalar

/-!
Contract: TOML documents.

Owns:
- values, with what a table was opened by, and with arrays and tables inside one another up to a
  limit;
- defining a key, dotted or not, which no table allows twice, and opening tables and elements of
  table arrays by their headers;
- what the lines of a document say, and the tables that they build.

Does not own: what the keys of a document mean.
-/

namespace SqlDml.Toml

/-! ## Values and tables -/

/-- What opened a table, which decides what may still be added to it. -/
inductive Origin where
  /-- Its own header, or the document itself. -/
  | header
  /-- The header of a table inside it. -/
  | innerHeader
  /-- A dotted key. -/
  | dottedKey
  /-- A value between braces. -/
  | braces
deriving DecidableEq, Repr

/-- A value.  Of fractional numbers, dates and times only the kind is kept. -/
inductive Node where
  | text (value : String)
  | integer (value : Int)
  | fractional
  | boolean (value : Bool)
  /-- A date, a time, or both. -/
  | moment
  | array (items : List Node)
  | table (origin : Origin) (members : List (String × Node))
  /-- An array of tables that headers opened; `current` is the one that is still open. -/
  | tables (earlier : List (List (String × Node))) (current : List (String × Node))
deriving Inhabited

/-- The members of a table, each with its key. -/
abbrev Members := List (String × Node)

namespace Members

/-- The value of a key. -/
def valueOf? (members : Members) (key : String) : Option Node :=
  (members.find? fun member => member.1 == key).map Prod.snd

/-- Changes the value of a key in place, or adds the key at the end. -/
def alter (key : String) (change : Option Node → Option Node) : Members → Option Members
  | [] => (change none).map fun value => [(key, value)]
  | (name, value) :: members =>
      if name = key then
        (change (some value)).map fun changed => (name, changed) :: members
      else
        (alter key change members).map ((name, value) :: ·)

/-- Defines a key of a table, which must be new. -/
def defineKey (key : String) (value : Node) (members : Members) : Option Members :=
  alter key (fun present => if present.isSome then none else some value) members

/-- Defines a key under a path of dotted keys.  The steps lead through tables that no header and no
braces opened, and the last of them is a table that dotted keys opened. -/
def define : List String → String → Node → Members → Option Members
  | [], key, value, members => defineKey key value members
  | step :: path, key, value, members =>
      alter step (fun present =>
        match present with
        | none => (define path key value []).map (.table .dottedKey)
        | some (.table .dottedKey inner) =>
            (define path key value inner).map (.table .dottedKey)
        | some (.table .innerHeader inner) =>
            if path.isEmpty then none
            else (define path key value inner).map (.table .innerHeader)
        | some (.tables earlier current) =>
            if path.isEmpty then none
            else (define path key value current).map (.tables earlier)
        | some _ => none) members

/-- Changes the table at a path of headers; tables on the way are opened when they are missing, and
of a table array the open element is meant. -/
def within : List String → (Members → Option Members) → Members → Option Members
  | [], change, members => change members
  | step :: path, change, members =>
      alter step (fun present =>
        match present with
        | none => (within path change []).map (.table .innerHeader)
        | some (.table .braces _) => none
        | some (.table origin inner) => (within path change inner).map (.table origin)
        | some (.tables earlier current) => (within path change current).map (.tables earlier)
        | some _ => none) members

/-- Opens the table of a header.  It may be there already if only headers inside it opened it. -/
def openTable (path : List String) (key : String) (members : Members) : Option Members :=
  within path (alter key fun present =>
    match present with
    | none => some (.table .header [])
    | some (.table .innerHeader inner) => some (.table .header inner)
    | some _ => none) members

/-- Opens one more element of the table array of a header. -/
def openElement (path : List String) (key : String) (members : Members) : Option Members :=
  within path (alter key fun present =>
    match present with
    | none => some (.tables [] [])
    | some (.tables earlier current) => some (.tables (earlier ++ [current]) [])
    | some _ => none) members

end Members

/-! ## The written form -/

open Reader

/-- A value that holds no other values. -/
def scalar : Reader Node :=
  (.text <$> text) <|>
  (do moment; return .moment) <|>
  (do fractional; return .fractional) <|>
  (.integer <$> integer) <|>
  (do word "true"; return .boolean true) <|>
  (do word "false"; return .boolean false)

/-- An array; a comma may follow its last item. -/
def array (item : Reader Node) : Reader Node := do
  char '['
  let items ← separated (do blankLines; let node ← item; blankLines; return node) (char ',')
  if !items.isEmpty then
    let _ ← maybe (char ',')
  blankLines
  char ']'
  return .array items

/-- A key and its value. -/
def definition (item : Reader Node) : Reader ((List String × String) × Node) := do
  let name ← key
  char '='
  blanks
  return (name, ← item)

/-- The members that definitions build, if none of them defines a key again. -/
def membersOf (definitions : List ((List String × String) × Node)) : Option Members :=
  definitions.foldlM (fun members entry => members.define entry.1.1 entry.1.2 entry.2) []

/-- A table between braces, on one line and without a comma at its end. -/
def bracedTable (item : Reader Node) : Reader Node := do
  char '\x7b'
  let definitions ← separated (do let entry ← definition item; blanks; return entry) (char ',')
  blanks
  char '\x7d'
  match membersOf definitions with
  | some members => return .table .braces members
  | none => failure

/-- A value with at most so many levels of arrays and braced tables. -/
def value : Nat → Reader Node
  | 0 => scalar
  | levels + 1 => scalar <|> array (value levels) <|> bracedTable (value levels)

/-- What a line of a document says. -/
inductive Line where
  | nothing
  | define (path : List String) (key : String) (value : Node)
  | openTable (path : List String) (key : String)
  | openElement (path : List String) (key : String)

/-- What the front of a line says; nothing, when no key and no header stands there. -/
def saying : Reader Line :=
  (do
    word "[["
    let (path, last) ← key
    word "]]"
    return .openElement path last) <|>
  (do
    char '['
    let (path, last) ← key
    char ']'
    return .openTable path last) <|>
  (do
    let ((path, last), node) ← definition (value (nestingLimit - 1))
    return .define path last node) <|>
  pure .nothing

/-- The tables of a document, and the path of the one that is open. -/
structure Document where
  members : Members := []
  current : List String := []

/-- A document after one more line, if the line is allowed. -/
def Document.after (document : Document) : Line → Option Document
  | .nothing => some document
  | .define path key value => do
      let members ← document.members.within document.current (Members.define path key value)
      return { document with members := members }
  | .openTable path key => do
      return ⟨← document.members.openTable path key, path ++ [key]⟩
  | .openElement path key => do
      return ⟨← document.members.openElement path key, path ++ [key]⟩

/-- One line of a document, without its line ending: what it says, and perhaps a comment. -/
def line : Reader Line := do
  blanks
  let said ← saying
  blanks
  let _ ← maybe comment
  return said

/-- All lines of a document, which a byte order mark may precede. -/
def lines : Reader (List Line) := do
  let _ ← maybe (char '\ufeff')
  let said ← separatedSome line newline
  endOfText
  return said

/-- Reads a document: the members of its outermost table. -/
def document? (source : String) : Option Members := do
  let (said, _) ← lines source.toList
  let document ← said.foldlM Document.after {}
  return document.members

end SqlDml.Toml
