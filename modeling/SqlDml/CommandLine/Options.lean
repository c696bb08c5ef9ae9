import SqlDml.Naming.Rename
import SqlDml.Settings
import SqlDml.Text.Cut

/-!
Contract: the arguments of the command.

Owns:
- what an argument is: an option with a value, a switch, or the statement;
- the values of options, and the wording of what is wrong with arguments;
- the options that a list of arguments sets;
- the text of the help.

Does not own: reading the files that options name.
-/

namespace SqlDml.CommandLine

/-- How a parsed statement is written. -/
inductive OutputFormat where
  | sql
  | json
  | outline
  | tables
  | tokens
deriving DecidableEq, Repr

/-- The format of a name.  Capitals and small letters are the same. -/
def OutputFormat.ofName? (name : String) : Option OutputFormat :=
  match asciiLower name with
  | "sql" => some .sql
  | "json" => some .json
  | "debug" => some .outline
  | "tables" => some .tables
  | "tokens" => some .tokens
  | _ => none

/-- What is wrong with arguments. -/
inductive UsageError where
  | missingValue (option : String)
  | unknownFormat (name : String)
  | depthExpected (value : String)
  | renamingExpected (value : String)
  | unknownOption (argument : String)
  /-- Two statements in the arguments. -/
  | secondStatement
  /-- A statement in the arguments and one in a file. -/
  | statementAndFile
deriving DecidableEq, Repr

/-- A text between grave accents. -/
def quoted (text : String) : String := "\x60" ++ text ++ "\x60"

/-- The wording of what is wrong. -/
def UsageError.message : UsageError → String
  | .missingValue option => option ++ " requires a value"
  | .unknownFormat name => "unknown format " ++ quoted name
  | .depthExpected value => "--max-depth expects a number, got " ++ quoted value
  | .renamingExpected value => "--rename expects FROM=TO, got " ++ quoted value
  | .unknownOption argument => "unknown option " ++ quoted argument
  | .secondStatement => "expected a single SQL argument (quote the statement)"
  | .statementAndFile => "give the statement either inline or with --file, not both"

/-- A table to rename: in one schema, or in every schema and none. -/
structure RenameRule where
  schema : Option String
  table : String
  newName : String
deriving DecidableEq, Repr

namespace RenameRule

/-- Reads `FROM=TO`, in which neither part is empty.  A point in `FROM` stands behind a schema. -/
def ofText? (text : String) : Option RenameRule := do
  let (name, newName) ← Text.cutAt? '=' text.toList
  if name.isEmpty || newName.isEmpty then
    none
  else
    match Text.cutAt? '.' name with
    | some (schema, table) =>
        some ⟨some (String.ofList schema), String.ofList table, String.ofList newName⟩
    | none => some ⟨none, String.ofList name, String.ofList newName⟩

/-- Whether a rule is about a table. -/
def appliesTo (rule : RenameRule) (name : TableName) : Bool :=
  name.table.value == rule.table &&
    match rule.schema with
    | none => true
    | some schema =>
        match name.schema with
        | some ident => ident.value == schema
        | none => false

/-- The new name of a table by the first rule about it. -/
def newName? (rules : List RenameRule) (name : TableName) : Option String :=
  (rules.find? fun rule => rule.appliesTo name).map RenameRule.newName

end RenameRule

/-- Reads a nesting limit: decimal digits, perhaps with a plus sign in front. -/
def depth? (text : String) : Option Nat :=
  let digits := match text.toList with
    | '+' :: rest => rest
    | chars => chars
  if digits.isEmpty || digits.any fun digit => !digit.isDigit then
    none
  else
    let value := digits.foldl (fun sum digit => 10 * sum + (digit.toNat - '0'.toNat)) 0
    if value ≤ greatestMaxDepth then some value else none

/-- An option with a value. -/
inductive ValueOption where
  | format
  | config
  | file
  | maxDepth
  | rename
deriving DecidableEq, Repr

/-- An option without a value. -/
inductive Switch where
  | ansiQuotes
  | noBackslashEscapes
  | pipesAsConcat
  | pretty
  | stats
deriving DecidableEq, Repr

/-- What an argument is. -/
inductive Argument where
  | option (option : ValueOption)
  | switch (switch : Switch)
  /-- An argument that looks like an option and is none. -/
  | unknown
  | statement
deriving DecidableEq, Repr

/-- The kind of an argument.  A single `-` is a statement. -/
def Argument.ofText (text : String) : Argument :=
  match text with
  | "--format" | "-f" => .option .format
  | "--config" => .option .config
  | "--file" => .option .file
  | "--max-depth" => .option .maxDepth
  | "--rename" => .option .rename
  | "--ansi-quotes" => .switch .ansiQuotes
  | "--no-backslash-escapes" => .switch .noBackslashEscapes
  | "--pipes-as-concat" => .switch .pipesAsConcat
  | "--pretty" => .switch .pretty
  | "--stats" => .switch .stats
  | other =>
      match other.toList with
      | '-' :: _ :: _ => .unknown
      | _ => .statement

/-- Whether arguments ask for help, wherever they do. -/
def asksForHelp (arguments : List String) : Bool :=
  arguments.any fun argument => argument == "-h" || argument == "--help"

/-- What the arguments set. -/
structure Options where
  format : OutputFormat := .sql
  pretty : Bool := false
  /-- The file with settings. -/
  config : Option String := none
  /-- The file with the statement. -/
  file : Option String := none
  /-- The statement itself. -/
  statement : Option String := none
  ansiQuotes : Bool := false
  noBackslashEscapes : Bool := false
  pipesAsConcat : Bool := false
  maxDepth : Option Nat := none
  renames : List RenameRule := []
  stats : Bool := false
deriving DecidableEq, Repr

namespace Options

/-- Sets an option to a value.  The last value counts, but renamings add up. -/
def set (options : Options) (option : ValueOption) (value : String) :
    Except UsageError Options :=
  match option with
  | .format =>
      match OutputFormat.ofName? value with
      | some format => .ok { options with format := format }
      | none => .error (.unknownFormat value)
  | .config => .ok { options with config := some value }
  | .file => .ok { options with file := some value }
  | .maxDepth =>
      match depth? value with
      | some depth => .ok { options with maxDepth := some depth }
      | none => .error (.depthExpected value)
  | .rename =>
      match RenameRule.ofText? value with
      | some rule => .ok { options with renames := options.renames ++ [rule] }
      | none => .error (.renamingExpected value)

/-- Turns a switch on. -/
def turnOn (options : Options) : Switch → Options
  | .ansiQuotes => { options with ansiQuotes := true }
  | .noBackslashEscapes => { options with noBackslashEscapes := true }
  | .pipesAsConcat => { options with pipesAsConcat := true }
  | .pretty => { options with pretty := true }
  | .stats => { options with stats := true }

/-- Adds arguments to options, one after the other. -/
def read (options : Options) : List String → Except UsageError Options
  | [] => .ok options
  | argument :: rest =>
      match Argument.ofText argument with
      | .option option =>
          match rest with
          | [] => .error (.missingValue argument)
          | value :: rest =>
              match options.set option value with
              | .ok options => options.read rest
              | .error error => .error error
      | .switch switch => (options.turnOn switch).read rest
      | .unknown => .error (.unknownOption argument)
      | .statement =>
          if options.statement.isSome then .error .secondStatement
          else { options with statement := some argument }.read rest

/-- The options of arguments.  A statement comes from the arguments or from a file, not from both.
-/
def ofArguments (arguments : List String) : Except UsageError Options :=
  match ({} : Options).read arguments with
  | .ok options =>
      if options.statement.isSome && options.file.isSome then .error .statementAndFile
      else .ok options
  | .error error => .error error

/-- The settings of a run: switches are added to those of the file, and a nesting limit replaces
that of the file. -/
def settings (options : Options) (base : Settings) : Settings where
  maxDepth := options.maxDepth.getD base.maxDepth
  ansiQuotes := base.ansiQuotes || options.ansiQuotes
  noBackslashEscapes := base.noBackslashEscapes || options.noBackslashEscapes
  pipesAsConcat := base.pipesAsConcat || options.pipesAsConcat

end Options

/-! ## Help -/

/-- What the command says about itself. -/
def helpText : String :=
  String.join ([
    "shardsql - parse a MySQL DML statement",
    "",
    "USAGE:",
    "    shardsql [OPTIONS] [SQL]",
    "",
    "The statement is taken from SQL, from --file, or from standard input.",
    "",
    "OPTIONS:",
    "    -f, --format <FMT>        sql | json | debug | tables | tokens (default: sql)",
    "        --pretty              Pretty-print JSON output",
    "        --file <PATH>         Read the statement from a file",
    "        --config <PATH>       TOML file with a [parser] section",
    "        --ansi-quotes         Treat \"x\" as an identifier (ANSI_QUOTES)",
    "        --no-backslash-escapes",
    "                              Treat \\ as a literal character in strings",
    "        --pipes-as-concat     Parse || as concatenation (PIPES_AS_CONCAT)",
    "        --max-depth <N>       Nesting limit (default: 64)",
    "        --rename <FROM=TO>    Rewrite a table name in the original text;",
    "                              FROM is \x60table\x60 or \x60schema.table\x60. Repeatable.",
    "        --stats               Print parser counters to stderr as JSON",
    "    -h, --help                Show this help message",
    "",
    "ENVIRONMENT:",
    "    RUST_LOG                  tracing filter, e.g. \x60shardsql=debug\x60 (default: warn)",
    "",
    "EXAMPLES:",
    "    shardsql 'select a from t where id = 1'",
    "    shardsql --format tables 'DELETE t1 FROM t1 JOIN t2 USING (id)'",
    "    echo 'UPDATE t_order SET x = 1' | shardsql --rename t_order=t_order_03"
  ].map (· ++ "\n"))

end SqlDml.CommandLine
