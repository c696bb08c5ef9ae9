import SqlDml.CommandLine.Interaction
import SqlDml.CommandLine.Options
import SqlDml.CommandLine.Report

/-!
Contract: the steps of the command.

Owns:
- what is read before the statement is parsed, and why that may fail;
- which text goes to which output;
- the exit code: 0 for success, 1 for a statement that cannot be read, parsed or written, 2 for
  wrong arguments and settings.

Does not own: how readings and writings are performed, how configurations are read and how documents
are written.
-/

namespace SqlDml.CommandLine

/-- Why there is no statement to parse. -/
inductive StartError where
  | usage (error : UsageError)
  | configUnreadable (path cause : String)
  /-- The cause is in the words of the reader of configurations. -/
  | configInvalid (path cause : String)
  | fileUnreadable (path cause : String)
  | inputUnreadable (cause : String)
deriving DecidableEq, Repr

namespace StartError

/-- The wording of a failure. -/
def message : StartError → String
  | .usage error => error.message
  | .configUnreadable path cause => "cannot read config " ++ path ++ ": " ++ cause
  | .configInvalid path cause => "invalid config " ++ path ++ ": " ++ cause
  | .fileUnreadable path cause => "cannot read " ++ path ++ ": " ++ cause
  | .inputUnreadable cause => "cannot read standard input: " ++ cause

/-- The exit code of a failure. -/
def exitCode : StartError → Nat
  | .usage _ | .configUnreadable _ _ | .configInvalid _ _ => 2
  | .fileUnreadable _ _ | .inputUnreadable _ => 1

end StartError

/-- A statement to parse and how to parse it. -/
structure Job where
  options : Options
  settings : Settings
  source : String

variable (codec : Codec)

/-- The settings of the options, with those of the configuration file below them. -/
def settingsFor (options : Options) : Interaction (Except StartError Settings) :=
  match options.config with
  | none => .done (.ok (options.settings {}))
  | some path => .readFile path fun
      | .error cause => .done (.error (.configUnreadable path cause))
      | .ok text =>
          match codec.settings text with
          | .error cause => .done (.error (.configInvalid path cause))
          | .ok base => .done (.ok (options.settings base))

/-- The statement: from the arguments, else from its file, else from the standard input. -/
def sourceFor (options : Options) : Interaction (Except StartError String) :=
  match options.statement, options.file with
  | some statement, _ => .done (.ok statement)
  | none, some path => .readFile path fun
      | .error cause => .done (.error (.fileUnreadable path cause))
      | .ok text => .done (.ok text)
  | none, none => .readInput fun
      | .error cause => .done (.error (.inputUnreadable cause))
      | .ok text => .done (.ok text)

/-- Everything that is needed before a statement is parsed: options, then settings, then the source.
-/
def prepare (arguments : List String) : Interaction (Except StartError Job) :=
  match Options.ofArguments arguments with
  | .error error => .done (.error (.usage error))
  | .ok options => do
      match ← settingsFor codec options with
      | .error error => return .error error
      | .ok settings =>
          match ← sourceFor options with
          | .error error => return .error error
          | .ok source => return .ok ⟨options, settings, source⟩

/-- Writes a line about a failure. -/
def complain (message : String) : Interaction Unit :=
  .writeErrors ("error: " ++ message ++ "\n") (.done ())

/-- Writes the text of a success, and gives the exit code. -/
def deliver (text : String) : Interaction Nat :=
  .writeOutput (text ++ "\n") fun
    | .ok () => .done 0
    | .error cause => do
        complain ("cannot write output: " ++ cause)
        return 1

/-- Writes why a statement cannot be parsed: as a document to the standard output in that format,
else with its source line to the standard error output. -/
def explain (format : OutputFormat) (source : String) (error : ParseError) : Interaction Nat :=
  match format with
  | .json =>
      match codec.compact (.object [("error", error.toJson)]) with
      | some text => .writeOutput (text ++ "\n") fun _ => .done 1
      | none => .writeErrors (error.message ++ "\n") (.done 1)
  | _ => .writeErrors (error.snippet source ++ "\n") (.done 1)

/-- Writes about what a parse came to, and gives the exit code. -/
def conclude (options : Options) (source : String) :
    Except ParseError ParsedStatement → Interaction Nat
  | .error error => explain codec options.format source error
  | .ok parsed =>
      match report codec options source parsed with
      | .ok text => deliver text
      | .error error => do
          complain ("rewrite failed: " ++ error.message)
          return 1

/-- Parses the statement of a job and writes about it; the counters come last, if they are wanted.
-/
def perform (job : Job) : Interaction Nat := do
  let (outcome, state) := (ParserState.ofSource job.source job.settings).parseStatement
  let code ← conclude codec job.options job.source outcome
  if job.options.stats then
    match codec.compact (({} : Counters).addParse (succeeded outcome) state).toJson with
    | some text => Interaction.writeErrors (text ++ "\n") (.done ())
    | none => pure ()
  return code

/-- The command, with a reader of configurations and writers of documents: gives the exit code.  Help
comes before everything else. -/
def commandBy (arguments : List String) : Interaction Nat :=
  if asksForHelp arguments then
    .writeOutput helpText fun _ => .done 0
  else do
    match ← prepare codec arguments with
    | .ok job => perform codec job
    | .error error => do
        complain error.message
        return error.exitCode

end SqlDml.CommandLine
