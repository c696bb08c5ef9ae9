import Mathlib.Data.List.Basic
import SqlDml.Proofs.CommandLine.Arguments
import SqlDml.Proofs.CommandLine.Routes
import SqlDml.Proofs.CommandLine.Serialized
import SqlDml.Proofs.Naming.Renamed

/-!
Contract: what the exit code and the two outputs tell about a run.

Owns:
- that the written form of a JSON document without blanks is one line;
- the settings and the statement that the items of arguments come to at a host;
- a run that is not about help, from its options to what it writes;
- that the exit code tells wrong arguments and settings, a statement and none apart.

Does not own: the text that is written about a statement.
-/

/-! ## Documents on one line -/

namespace SqlDml.Json

/-- A text that holds no line feed. -/
def OneLine (text : String) : Prop := '\n' ∉ text.toList

namespace OneLine

variable {left right : String}

theorem append (first : OneLine left) (second : OneLine right) : OneLine (left ++ right) := by
  unfold OneLine at *
  rw [String.toList_append, List.mem_append]
  exact not_or.mpr ⟨first, second⟩

theorem join {texts : List String} (all : ∀ text ∈ texts, OneLine text) :
    OneLine (String.join texts) := by
  unfold OneLine
  rw [String.toList_join, List.mem_flatMap]
  rintro ⟨text, member, inside⟩
  exact all text member inside

/-- Commas between texts put them in no further line. -/
theorem intercalate {texts : List String} (all : ∀ text ∈ texts, OneLine text) :
    OneLine (",".intercalate texts) := by
  unfold OneLine
  rw [String.toList_intercalate]
  induction texts with
  | nil => simp
  | cons text texts inductionHypothesis =>
      rw [List.forall_mem_cons] at all
      cases texts with
      | nil => simpa using (show '\n' ∉ text.toList from all.1)
      | cons next others =>
          have behind := inductionHypothesis all.2
          rw [List.map_cons] at behind
          rw [List.map_cons, List.map_cons, List.intercalate_cons_cons, List.mem_append,
            List.mem_append]
          exact not_or.mpr ⟨not_or.mpr ⟨all.1, by decide⟩, behind⟩

end OneLine

theorem oneLine_stringChar (char : Char) : OneLine (stringChar char) := by
  have escapes : ∀ code < 0x20, OneLine (Text.hexDigits code) := by
    unfold OneLine
    decide
  unfold stringChar
  split_ifs with _ _ _ _ isLineFeed _ _ low control
  all_goals try exact (by unfold OneLine; decide)
  · exact .append (by unfold OneLine; decide) (escapes _ (by omega))
  · exact .append (by unfold OneLine; decide) (escapes _ control)
  · unfold OneLine
    rw [Char.toString_eq_singleton]
    simpa using Ne.symm isLineFeed

theorem oneLine_quote (value : String) : OneLine (quote value) := by
  have mark : OneLine "\"" := by unfold OneLine; decide
  refine .append (.append mark (.join ?_)) mark
  simp only [List.forall_mem_map]
  exact fun char _ => oneLine_stringChar char

theorem oneLine_natural (value : Nat) : OneLine value.repr := by
  unfold OneLine
  rw [Nat.toList_repr]
  intro member
  exact absurd (Nat.isDigit_of_mem_toDigits (by decide) (by decide) member) (by decide)

theorem oneLine_number (value : Int) : OneLine (toString value) := by
  cases value with
  | ofNat value => exact oneLine_natural value
  | negSucc value =>
      have minus : OneLine "-" := by unfold OneLine; decide
      exact minus.append (oneLine_natural (value + 1))

mutual
/-- A document is written in one line. -/
theorem oneLine_compact : (document : Json) → OneLine document.compact
  | .null => by unfold OneLine compact; decide
  | .bool value => by cases value <;> (unfold OneLine compact; decide)
  | .number value => by rw [compact]; exact oneLine_number value
  | .string value => by rw [compact]; exact oneLine_quote value
  | .array items => by
      rw [compact]
      have brackets : OneLine "[" ∧ OneLine "]" := by unfold OneLine; decide
      exact .append (.append brackets.1 (.intercalate (oneLine_compactItems items))) brackets.2
  | .object members => by
      rw [compact]
      have braces : OneLine "\x7b" ∧ OneLine "\x7d" := by unfold OneLine; decide
      exact .append (.append braces.1 (.intercalate (oneLine_compactMembers members))) braces.2

theorem oneLine_compactItems : (items : List Json) → ∀ text ∈ compactItems items, OneLine text
  | [] => by simp [compactItems]
  | item :: items => by
      rw [compactItems, List.forall_mem_cons]
      exact ⟨oneLine_compact item, oneLine_compactItems items⟩

theorem oneLine_compactMembers : (members : List (String × Json)) →
    ∀ text ∈ compactMembers members, OneLine text
  | [] => by simp [compactMembers]
  | (key, value) :: members => by
      rw [compactMembers, List.forall_mem_cons]
      have colon : OneLine ":" := by unfold OneLine; decide
      exact ⟨.append (.append (oneLine_quote key) colon) (oneLine_compact value),
        oneLine_compactMembers members⟩
end

end SqlDml.Json

/-! ## Runs -/

namespace SqlDml.CommandLine

/-! ### What a run begins with -/

/-- The settings below those of the arguments: those of the configuration file that is named last, or
the defaults if none is. -/
def baseAt (codec : Codec) (host : Host) (items : List Item) : Except StartError Settings :=
  match Item.lastValue? .config items with
  | none => .ok {}
  | some path =>
      match host.file path with
      | .error cause => .error (.configUnreadable path cause)
      | .ok text => (codec.settings text).mapError (StartError.configInvalid path)

/-- The statement: the one among the arguments, else that of the file that is named last, else the
standard input. -/
def sourceAt (host : Host) (items : List Item) : Except String String :=
  match items.filterMap Item.statement?, Item.lastValue? .file items with
  | statement :: _, _ => .ok statement
  | [], some path => host.file path
  | [], none => host.input

/-- The settings of a run, above those of its configuration: a switch is on where it is on below or
stands among the items, and the nesting limit that is asked for last replaces the one below. -/
structure Effective (items : List Item) (base settings : Settings) : Prop where
  maxDepth : settings.maxDepth = (Item.maxDepthOf? items).getD base.maxDepth
  ansiQuotes : settings.ansiQuotes = true ↔
    base.ansiQuotes = true ∨ Item.switch .ansiQuotes ∈ items
  noBackslashEscapes : settings.noBackslashEscapes = true ↔
    base.noBackslashEscapes = true ∨ Item.switch .noBackslashEscapes ∈ items
  pipesAsConcat : settings.pipesAsConcat = true ↔
    base.pipesAsConcat = true ∨ Item.switch .pipesAsConcat ∈ items

variable {codec : Codec} {arguments : List String} {options : Options} {items : List Item}
  {host : Host}

open Interaction

/-- The settings of a run are determined by its items and its configuration. -/
theorem Effective.eq (origin : options.From items) {base settings : Settings}
    (effective : Effective items base settings) : settings = options.settings base := by
  have same {left right : Bool} (alike : left = true ↔ right = true) : left = right :=
    Bool.eq_iff_iff.mpr alike
  obtain ⟨maxDepth, ansiQuotes, noBackslashEscapes, pipesAsConcat⟩ := settings
  rw [Options.settings, Settings.mk.injEq]
  refine ⟨origin.maxDepth ▸ effective.maxDepth, same ?_, same ?_, same ?_⟩
  · rw [effective.ansiQuotes, Bool.or_eq_true, origin.ansiQuotes]
  · rw [effective.noBackslashEscapes, Bool.or_eq_true, origin.noBackslashEscapes]
  · rw [effective.pipesAsConcat, Bool.or_eq_true, origin.pipesAsConcat]

theorem run_settingsFor (origin : options.From items) (host : Host) :
    (settingsFor codec options).run host =
      ⟨(baseAt codec host items).map fun base => options.settings base, "", ""⟩ := by
  unfold settingsFor baseAt
  rw [← origin.config]
  cases options.config with
  | none => rfl
  | some path =>
      dsimp only [run]
      cases host.file path with
      | error cause => rfl
      | ok text =>
          dsimp only
          cases codec.settings text <;> rfl

theorem run_sourceFor (origin : options.From items) {source : String}
    (given : sourceAt host items = .ok source) :
    (sourceFor options).run host = ⟨.ok source, "", ""⟩ := by
  unfold sourceAt at given
  unfold sourceFor
  rw [← origin.statement, ← origin.file] at given
  cases statement : options.statement with
  | some text =>
      rw [statement] at given
      cases given
      rfl
  | none =>
      rw [statement] at given
      cases file : options.file with
      | some path =>
          simp only [file, Option.toList_none] at given
          simp [run, given]
      | none =>
          simp only [file, Option.toList_none] at given
          simp [run, given]

/-- Settings that cannot be had are reported as a wrong use of the command. -/
theorem exitCode_of_baseAt {error : StartError} (failed : baseAt codec host items = .error error) :
    error.exitCode = 2 := by
  unfold baseAt at failed
  split at failed
  · cases failed
  · split at failed
    · cases failed
      rfl
    · next text _ =>
        cases read : codec.settings text with
        | ok base =>
            rw [read] at failed
            cases failed
        | error cause =>
            rw [read] at failed
            cases failed
            rfl

/-! ### What a run writes -/

/-- A run that starts with nothing to parse writes about it and does no more. -/
theorem run_commandBy_of_startError (noHelp : asksForHelp arguments = false) {error : StartError}
    (failed : (prepare codec arguments).run host = ⟨.error error, "", ""⟩) :
    (commandBy codec arguments).run host =
      ⟨error.exitCode, "", "error: " ++ error.message ++ "\n"⟩ := by
  unfold commandBy
  rw [noHelp, if_neg Bool.false_ne_true, run_bind, failed]
  simp [complain, run, Outcome.before, Bind.bind, andThen, pure]

theorem run_commandBy_of_job (noHelp : asksForHelp arguments = false) {job : Job}
    (prepared : (prepare codec arguments).run host = ⟨.ok job, "", ""⟩) :
    (commandBy codec arguments).run host = (perform codec job).run host := by
  unfold commandBy
  rw [noHelp, if_neg Bool.false_ne_true, run_bind, prepared]
  simp [Outcome.before]

theorem run_prepare_of_usage {error : UsageError}
    (refused : Options.ofArguments arguments = .error error) :
    (prepare codec arguments).run host = ⟨.error (.usage error), "", ""⟩ := by
  unfold prepare
  rw [refused]
  rfl

theorem run_prepare_of_baseAt (read : Options.ofArguments arguments = .ok options)
    (origin : options.From items) {error : StartError}
    (failed : baseAt codec host items = .error error) :
    (prepare codec arguments).run host = ⟨.error error, "", ""⟩ := by
  unfold prepare
  rw [read]
  dsimp only
  rw [run_bind, run_settingsFor origin, failed]
  rfl

theorem run_prepare (read : Options.ofArguments arguments = .ok options)
    (origin : options.From items) {base : Settings} {source : String}
    (configured : baseAt codec host items = .ok base) (given : sourceAt host items = .ok source) :
    (prepare codec arguments).run host =
      ⟨.ok ⟨options, options.settings base, source⟩, "", ""⟩ := by
  unfold prepare
  rw [read]
  dsimp only
  rw [run_bind, run_settingsFor origin, configured]
  dsimp only [Except.map]
  rw [run_bind, run_sourceFor origin given]
  rfl

/-- Tables of a parsed statement can always be renamed in its source, so there is always a text to
write about it. -/
theorem exists_report {source : String} {settings : Settings} {parsed : ParsedStatement}
    (accepted : parseStatement source settings = .ok parsed) (codec : Codec) (options : Options) :
    ∃ text, report codec options source parsed = .ok text := by
  unfold report
  split
  · exact ⟨_, rfl⟩
  · obtain ⟨_, laid, places⟩ := renameSplices_laid accepted (RenameRule.newName? options.renames)
    exact ⟨_, Splice.applySplices_of_laid laid places⟩

/-- What is documented of a writer of documents without blanks: it can write every document, and
breaks no line. -/
def Codec.WritesLines (codec : Codec) : Prop :=
  ∀ document, ∃ line, codec.compact document = some line ∧ Json.OneLine line

/-- The reader and the writers of this library write lines. -/
theorem ownCodec_writesLines : ownCodec.WritesLines :=
  fun document => ⟨_, rfl, Json.oneLine_compact document⟩

/-- The line about the counters, if they are wanted. -/
def countersLine (codec : Codec) (job : Job) : String :=
  if job.options.stats then
    let parse := (ParserState.ofSource job.source job.settings).parseStatement
    ((codec.compact (({} : Counters).addParse (succeeded parse.1) parse.2).toJson).map (· ++ "\n")).getD
      ""
  else ""

/-- The counters are written to the standard error output, behind all else. -/
theorem run_perform (codec : Codec) (job : Job) (host : Host) :
    (perform codec job).run host =
      let concluded :=
        (conclude codec job.options job.source (parseStatement job.source job.settings)).run host
      ⟨concluded.value, concluded.output, concluded.errors ++ countersLine codec job⟩ := by
  unfold perform countersLine parseStatement
  generalize (ParserState.ofSource job.source job.settings).parseStatement = parse
  obtain ⟨outcome, state⟩ := parse
  dsimp only
  rw [run_bind]
  split
  · cases codec.compact (({} : Counters).addParse (succeeded outcome) state).toJson <;>
      simp [run, Outcome.before, Bind.bind, andThen, pure]
  · simp [run, Outcome.before, pure]

theorem run_conclude_of_parsed (writable : host.outputRefusal = none) {source : String}
    {settings : Settings} {parsed : ParsedStatement}
    (accepted : parseStatement source settings = .ok parsed) :
    ∃ text, (conclude codec options source (.ok parsed)).run host = ⟨0, text ++ "\n", ""⟩ := by
  obtain ⟨text, reported⟩ := exists_report accepted codec options
  refine ⟨text, ?_⟩
  simp [conclude, reported, deliver, run, writable]

/-- About a statement that does not parse a line is written, the document of the failure, or the
snippet of the failure to the standard error output. -/
theorem run_conclude_of_error (writes : codec.WritesLines) (writable : host.outputRefusal = none)
    (source : String) (error : ParseError) :
    ∃ output errors, (conclude codec options source (.error error)).run host =
        ⟨1, output, errors⟩ ∧
      (options.format ≠ .json → output = "") ∧
      (options.format = .json → errors = "" ∧ ∃ line, output = line ++ "\n" ∧ Json.OneLine line ∧
        codec.compact (.object [("error", error.toJson)]) = some line) := by
  obtain ⟨line, written, oneLine⟩ := writes (.object [("error", error.toJson)])
  unfold conclude explain
  cases options.format with
  | json =>
      refine ⟨line ++ "\n", "", by simp [run, writable, written], fun other => absurd rfl other,
        fun _ => ⟨rfl, line, rfl, oneLine, written⟩⟩
  | sql | outline | tables | tokens =>
      exact ⟨"", _, rfl, fun _ => rfl, fun other => by cases other⟩

/-! ### What the exit code tells -/

/-- A run that is not about help ends in one of three ways, which its exit code tells apart.  With 2
it was told wrong: the arguments or the configuration cannot be used, and nothing is written to the
standard output.  With 0 the statement parses under the settings that the arguments and the
configuration come to, whatever the format and whichever tables are renamed; and it ends with 0 only
then.  With 1 the statement does not parse: the standard output stays empty, or holds in the JSON
format one line, whose document tells the failure, and the standard error output is left to the
counters. -/
theorem command_verdict (codec : Codec) (writes : codec.WritesLines) (arguments : List String)
    (host : Host) (noHelp : asksForHelp arguments = false)
    (writable : host.outputRefusal = none) :
    let ended := (commandBy codec arguments).run host
    (∀ error, Options.ofArguments arguments = .error error →
      ended.value = 2 ∧ ended.output = "") ∧
    ∀ options, Options.ofArguments arguments = .ok options →
      ∃ items, items? arguments = some items ∧
        (∀ error, baseAt codec host items = .error error →
          ended.value = 2 ∧ ended.output = "") ∧
        ∀ base settings source, baseAt codec host items = .ok base →
          Effective items base settings → sourceAt host items = .ok source →
          (ended.value = 0 ↔ ∃ parsed, parseStatement source settings = .ok parsed) ∧
          ∀ error, parseStatement source settings = .error error →
            ended.value = 1 ∧
            (Item.formatOf items ≠ .json → ended.output = "") ∧
            (Item.formatOf items = .json →
              (∃ line document, ended.output = line ++ "\n" ∧ Json.OneLine line ∧
                codec.compact (.object [("error", document)]) = some line ∧
                ParseError.ofJson? document = some error) ∧
              (Item.switch .stats ∉ items → ended.errors = "")) := by
  intro ended
  refine ⟨fun error refused => ?_, fun options read => ?_⟩
  · have ran : ended = _ := run_commandBy_of_startError noHelp (run_prepare_of_usage refused)
    rw [ran]
    exact ⟨rfl, rfl⟩
  obtain ⟨items, said, origin⟩ := Options.from_items read
  refine ⟨items, said, fun error failed => ?_, ?_⟩
  · have ran : ended = _ :=
      run_commandBy_of_startError noHelp (run_prepare_of_baseAt read origin failed)
    rw [ran]
    exact ⟨exitCode_of_baseAt failed, rfl⟩
  · intro base settings source configured effective given
    obtain rfl := effective.eq origin
    have ran : ended = _ :=
      run_commandBy_of_job noHelp (run_prepare read origin configured given)
    rw [ran, run_perform]
    dsimp only
    cases outcome : parseStatement source (options.settings base) with
    | ok parsed =>
        obtain ⟨text, concluded⟩ := @run_conclude_of_parsed codec options _ writable _ _ _ outcome
        rw [concluded]
        simp
    | error error =>
        obtain ⟨output, errors, concluded, other, json⟩ :=
          @run_conclude_of_error _ options _ writes writable source error
        rw [concluded, ← origin.format]
        refine ⟨by simp, ?_⟩
        rintro _ ⟨⟩
        refine ⟨rfl, other, fun format => ?_⟩
        obtain ⟨none, line, written, oneLine, document⟩ := json format
        refine ⟨⟨line, _, written, oneLine, document, ParseError.ofJson?_toJson error⟩, ?_⟩
        intro absent
        rw [← origin.stats, Bool.not_eq_true] at absent
        simp [none, countersLine, absent]

/-- A host with a configuration that asks for quoted names. -/
def Host.quoting : Host := ⟨fun _ => .ok "[parser]\nansi_quotes = true\n", .ok "", none⟩

/-- A select list without items, in the JSON format and with a configuration and a table to rename. -/
theorem command_verdict_of_broken_select :
    let arguments := ["--config", "c", "--format", "JSON", "--rename", "t=u", "SELECT FROM t"]
    ownCodec.WritesLines ∧ asksForHelp arguments = false ∧ Host.quoting.outputRefusal = none ∧
      ∃ error line document,
        parseStatement "SELECT FROM t" { ansiQuotes := true } = .error error ∧
        (command arguments).run Host.quoting = ⟨1, line ++ "\n", ""⟩ ∧ Json.OneLine line ∧
        ownCodec.compact (.object [("error", document)]) = some line ∧
        ParseError.ofJson? document = some error := by
  intro arguments
  have noHelp : asksForHelp arguments = false := by decide
  obtain ⟨items, said, classified⟩ :=
    (command_verdict ownCodec ownCodec_writesLines arguments Host.quoting noHelp rfl).2 _ rfl
  obtain rfl : [.valued .config "c", .valued .format "JSON", .valued .rename "t=u",
    .statement "SELECT FROM t"] = items := Option.some.inj said
  have configured : baseAt ownCodec Host.quoting [.valued .config "c", .valued .format "JSON",
      .valued .rename "t=u", .statement "SELECT FROM t"] = .ok { ansiQuotes := true } := by
    decide +kernel
  have failed : ∃ error, parseStatement "SELECT FROM t" { ansiQuotes := true } = .error error := by
    cases outcome : parseStatement "SELECT FROM t" { ansiQuotes := true } with
    | error error => exact ⟨error, rfl⟩
    | ok parsed =>
        have fails : (parseStatement "SELECT FROM t" { ansiQuotes := true }).toOption.isNone =
            true := by decide +kernel
        rw [outcome] at fails
        cases fails
  obtain ⟨error, failed⟩ := failed
  have effective : Effective [.valued .config "c", .valued .format "JSON", .valued .rename "t=u",
      .statement "SELECT FROM t"] { ansiQuotes := true } { ansiQuotes := true } := by
    constructor <;> simp [Item.maxDepthOf?, Item.lastValue?, Item.value?]
  obtain ⟨code, _, json⟩ := (classified.2 _ _ _ configured effective rfl).2 error failed
  obtain ⟨⟨line, document, output, oneLine, written, read⟩, errors⟩ := json rfl
  refine ⟨ownCodec_writesLines, noHelp, rfl, error, line, document, failed, ?_, oneLine, written,
    read⟩
  have quiet := errors (by simp)
  change (commandBy ownCodec arguments).run Host.quoting = _
  generalize (commandBy ownCodec arguments).run Host.quoting = ended at code output quiet
  obtain ⟨value, written, complaints⟩ := ended
  rw [Outcome.mk.injEq]
  exact ⟨code, output, quiet⟩

end SqlDml.CommandLine
