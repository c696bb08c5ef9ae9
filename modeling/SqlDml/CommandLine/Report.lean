import SqlDml.CommandLine.Options
import SqlDml.Counters
import SqlDml.Settings
import SqlDml.Shape.Statement
import SqlDml.Text.Json

/-!
Contract: what the command writes about a parsed statement.

Owns:
- what the command asks of a reader of configurations and of writers of documents;
- the text of a statement in each output format;
- the source with its tables renamed, when names for them are given.

Does not own: any particular reader or writer, and where the text goes.
-/

namespace SqlDml.CommandLine

/-- A reader of configurations and two writers of documents. -/
structure Codec where
  /-- The settings that a configuration file holds, the defaults where it says nothing, or what is
  wrong with it in the words of the reader. -/
  settings : String → Except String Settings
  /-- A document without blanks, if it can be written. -/
  compact : Json → Option String
  /-- A document that is indented, if it can be written. -/
  pretty : Json → Option String

/-- The JSON form of a span. -/
def spanToJson (span : Span) : Json :=
  .object [("start", .number span.start), ("end", .number span.stop), ("line", .number span.line),
    ("column", .number span.column)]

/-- The JSON form of a statement and its tokens. -/
def parsedToJson (parsed : ParsedStatement) : Json :=
  .object [("statement", parsed.statement.shape.toJson spanToJson),
    ("tokens", .array (parsed.tokens.map spanToJson))]

/-- Adds a text to a list, unless it is there. -/
def addNew (texts : List String) (text : String) : List String :=
  if texts.contains text then texts else texts ++ [text]

/-- The tables of a statement, each once, in the order of their first occurrence. -/
def tableList (statement : Statement) : List String :=
  (statement.tableNames.map TableName.render).foldl addNew []

/-- A token in one line: its position, its byte range and its text. -/
def tokenLine (source : String) (span : Span) : String :=
  let text := String.ofList ((span.slice? source.toList).getD [])
  s!"{span.line}:{span.column}\t" ++ span.render ++ "\t" ++ text

/-- A parsed statement in an output format.  It is empty where its document cannot be written. -/
def formatted (codec : Codec) (format : OutputFormat) (pretty : Bool) (source : String)
    (parsed : ParsedStatement) : String :=
  match format with
  | .sql => parsed.statement.render
  | .json =>
      let document := parsedToJson parsed
      (if pretty then codec.pretty document else codec.compact document).getD ""
  | .outline => parsed.statement.shape.outline
  | .tables => "\n".intercalate (tableList parsed.statement)
  | .tokens => "\n".intercalate (parsed.tokens.map (tokenLine source))

/-- The text to write about a statement: its source with tables renamed, if any are to be renamed,
else the statement in the output format. -/
def report (codec : Codec) (options : Options) (source : String) (parsed : ParsedStatement) :
    Except SpliceError String :=
  if options.renames.isEmpty then
    .ok (formatted codec options.format options.pretty source parsed)
  else
    renameTables source parsed.statement (RenameRule.newName? options.renames)

end SqlDml.CommandLine
