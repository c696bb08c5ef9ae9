import SqlDml.CommandLine.Command

/-!
Contract: a statement as an argument and the same statement on the standard input.

Owns:
- the run of one command after another, and commands that do not read the standard input;
- lists of arguments that are options only;
- which texts the command takes for a statement, and what it sets besides it;
- that both ways to give a statement come to the same, for every text that is taken for one.

Does not own: what is written about the statement.
-/

namespace SqlDml.CommandLine

/-! ### One command after another -/

namespace Outcome

variable {α β γ : Type}

/-- What a command wrote before another one ended. -/
def before (outcome : Outcome α) (behind : Outcome β) : Outcome β :=
  ⟨behind.value, outcome.output ++ behind.output, outcome.errors ++ behind.errors⟩

/-- The same writings with another value. -/
def map (change : α → β) (outcome : Outcome α) : Outcome β :=
  ⟨change outcome.value, outcome.output, outcome.errors⟩

theorem map_before (change : α → β) (outcome : Outcome α) (behind : Outcome γ) :
    (outcome.map change).before behind = outcome.before behind := rfl

end Outcome

namespace Interaction

variable {α β : Type}

/-- One command after another writes what both write, and ends as the second one does. -/
theorem run_andThen (host : Host) (first : Interaction α) (rest : α → Interaction β) :
    (first.andThen rest).run host =
      (first.run host).before ((rest (first.run host).value).run host) := by
  induction first with
  | done value => simp [andThen, run, Outcome.before]
  | readFile path next inductionHypothesis => exact inductionHypothesis _
  | readInput next inductionHypothesis => exact inductionHypothesis _
  | writeOutput text next inductionHypothesis =>
      simp only [andThen, run]
      cases host.outputRefusal with
      | some cause => exact inductionHypothesis _
      | none =>
          simp only [inductionHypothesis]
          simp [Outcome.before, String.append_assoc]
  | writeErrors text next inductionHypothesis =>
      simp only [andThen, run, inductionHypothesis]
      simp [Outcome.before, String.append_assoc]

theorem run_bind (host : Host) (first : Interaction α) (rest : α → Interaction β) :
    (first >>= rest).run host =
      (first.run host).before ((rest (first.run host).value).run host) :=
  run_andThen host first rest

/-- A command that does not read the standard input. -/
inductive Blind : Interaction α → Prop where
  | done (value : α) : Blind (.done value)
  | readFile (path : String) {next : Except String String → Interaction α}
      (behind : ∀ answer, Blind (next answer)) : Blind (.readFile path next)
  | writeOutput (text : String) {next : Except String Unit → Interaction α}
      (behind : ∀ answer, Blind (next answer)) : Blind (.writeOutput text next)
  | writeErrors (text : String) {next : Interaction α} (behind : Blind next) :
      Blind (.writeErrors text next)

theorem Blind.bind {first : Interaction α} {rest : α → Interaction β} (blind : first.Blind)
    (behind : ∀ value, (rest value).Blind) : (first >>= rest).Blind := by
  induction blind with
  | done value => exact behind value
  | readFile path _ inductionHypothesis => exact .readFile path inductionHypothesis
  | writeOutput text _ inductionHypothesis => exact .writeOutput text inductionHypothesis
  | writeErrors text _ inductionHypothesis => exact .writeErrors text inductionHypothesis

/-- What stands at the standard input does not matter to a command that does not read it. -/
theorem Blind.run_eq {command : Interaction α} (blind : command.Blind) (host : Host)
    (input : Except String String) : command.run { host with input := input } = command.run host := by
  induction blind with
  | done value => rfl
  | readFile path _ inductionHypothesis => exact inductionHypothesis _
  | writeOutput text _ inductionHypothesis => simp only [run, inductionHypothesis]
  | writeErrors text _ inductionHypothesis => simp only [run, inductionHypothesis]

end Interaction

/-! ### The parts of the command -/

open Interaction

theorem complain_blind (message : String) : (complain message).Blind :=
  .writeErrors _ (.done ())

theorem deliver_blind (text : String) : (deliver text).Blind :=
  .writeOutput _ fun answer =>
    match answer with
    | .ok () => .done 0
    | .error _ => (complain_blind _).bind fun _ => .done 1

section

variable (codec : Codec)

theorem explain_blind (format : OutputFormat) (source : String) (error : ParseError) :
    (explain codec format source error).Blind := by
  cases format with
  | json =>
      unfold explain
      dsimp only
      split
      · exact .writeOutput _ fun _ => .done 1
      · exact .writeErrors _ (.done 1)
  | _ => exact .writeErrors _ (.done 1)

theorem settingsFor_blind (options : Options) : (settingsFor codec options).Blind := by
  unfold settingsFor
  split
  · exact .done _
  · refine .readFile _ fun answer => ?_
    split
    · exact .done _
    · split <;> exact .done _

theorem conclude_blind (options : Options) (source : String)
    (outcome : Except ParseError ParsedStatement) : (conclude codec options source outcome).Blind := by
  unfold conclude
  split
  · exact explain_blind _ _ _ _
  · split
    · exact deliver_blind _
    · exact (complain_blind _).bind fun _ => .done 1

/-- Behind its reading of the statement the command reads nothing. -/
theorem perform_blind (job : Job) : (perform codec job).Blind := by
  unfold perform
  refine (conclude_blind _ _ _ _).bind fun code => ?_
  dsimp only
  split
  · split
    · exact .writeErrors _ (.done code)
    · exact .done code
  · exact .done code

end

/-! ### Arguments that are options -/

/-- Arguments among which there is no statement and none that names the file of one.  They wait when
the last one is an option without its value. -/
inductive OptionList : (waiting : Bool) → List String → Prop where
  | nothing : OptionList false []
  | valued {argument : String} {option : ValueOption} {others : List String} {waiting : Bool}
      (kind : Argument.ofText argument = .option option) (noFile : option ≠ .file) (value : String)
      (behind : OptionList waiting others) : OptionList waiting (argument :: value :: others)
  | switch {argument : String} {switch : Switch} {others : List String} {waiting : Bool}
      (kind : Argument.ofText argument = .switch switch) (behind : OptionList waiting others) :
      OptionList waiting (argument :: others)
  | unknown {argument : String} {others : List String} {waiting : Bool}
      (kind : Argument.ofText argument = .unknown) (behind : OptionList waiting others) :
      OptionList waiting (argument :: others)
  | waits {argument : String} {option : ValueOption}
      (kind : Argument.ofText argument = .option option) (noFile : option ≠ .file) :
      OptionList true [argument]

/-- A text that does not begin with a dash is taken for a statement, and so is a single dash. -/
theorem Argument.ofText_eq_statement {text : String}
    (plain : text.toList.head? = some '-' → text = "-") : Argument.ofText text = .statement := by
  by_cases dash : text = "-"
  · subst dash
    rfl
  · have apart : ∀ other : String, other.toList.head? = some '-' → text ≠ other := by
      rintro other begins rfl
      exact dash (plain begins)
    unfold Argument.ofText
    split
    all_goals try exact absurd rfl (apart _ (by decide))
    split
    · next begins => exact absurd (plain (by rw [begins]; rfl)) dash
    · rfl

theorem asksForHelp_append_cons {front back : List String} {text : String}
    (plain : text.toList.head? = some '-' → text = "-") :
    asksForHelp (front ++ text :: back) = asksForHelp (front ++ back) := by
  have noHelp : (text == "-h" || text == "--help") = false := by
    rw [Bool.or_eq_false_iff, beq_eq_false_iff_ne, beq_eq_false_iff_ne]
    constructor
    all_goals
      rintro rfl
      exact absurd (plain rfl) (by decide)
  simp [asksForHelp, noHelp]

namespace Options

/-- The same options with a statement. -/
def giving (options : Options) (text : String) : Options := { options with statement := some text }

variable {options later : Options} {front back arguments : List String} {waiting : Bool}

theorem set_giving (options : Options) (option : ValueOption) (value text : String) :
    (options.giving text).set option value =
      (options.set option value).map (fun later => later.giving text) := by
  cases option with
  | config | file => rfl
  | format =>
      simp only [set]
      cases OutputFormat.ofName? value <;> rfl
  | maxDepth =>
      simp only [set]
      cases depth? value <;> rfl
  | rename =>
      simp only [set]
      cases RenameRule.ofText? value <;> rfl

theorem turnOn_giving (options : Options) (switch : Switch) (text : String) :
    (options.giving text).turnOn switch = (options.turnOn switch).giving text := by
  cases switch <;> rfl

/-- Only the file option sets a file, and no option sets a statement. -/
theorem set_keeps {option : ValueOption} {value : String} (noFile : option ≠ .file)
    (read : options.set option value = .ok later) :
    later.statement = options.statement ∧ later.file = options.file := by
  cases option with
  | file => exact absurd rfl noFile
  | config =>
      cases read
      exact ⟨rfl, rfl⟩
  | format =>
      simp only [set] at read
      split at read <;> cases read
      exact ⟨rfl, rfl⟩
  | maxDepth =>
      simp only [set] at read
      split at read <;> cases read
      exact ⟨rfl, rfl⟩
  | rename =>
      simp only [set] at read
      split at read <;> cases read
      exact ⟨rfl, rfl⟩

theorem turnOn_keeps (options : Options) (switch : Switch) :
    (options.turnOn switch).statement = options.statement ∧
      (options.turnOn switch).file = options.file := by
  cases switch <;> exact ⟨rfl, rfl⟩

theorem read_keeps (list : OptionList waiting arguments)
    (read : options.read arguments = .ok later) :
    later.statement = options.statement ∧ later.file = options.file := by
  induction list generalizing options with
  | nothing =>
      cases read
      exact ⟨rfl, rfl⟩
  | valued kind noFile value _ inductionHypothesis =>
      simp only [Options.read, kind] at read
      split at read
      · next middle set =>
          have kept := set_keeps noFile set
          have behind := inductionHypothesis read
          exact ⟨behind.1.trans kept.1, behind.2.trans kept.2⟩
      · cases read
  | @switch _ switch _ _ kind _ inductionHypothesis =>
      simp only [Options.read, kind] at read
      have kept := options.turnOn_keeps switch
      have behind := inductionHypothesis read
      exact ⟨behind.1.trans kept.1, behind.2.trans kept.2⟩
  | unknown kind _ _ =>
      simp only [Options.read, kind] at read
      cases read
  | waits kind _ =>
      simp only [Options.read, kind] at read
      cases read

/-- Complete options are read before what stands behind them. -/
theorem read_append (list : OptionList false front) (options : Options)
    (arguments : List String) :
    options.read (front ++ arguments) =
      (options.read front).bind fun later => later.read arguments := by
  generalize complete : false = waiting at list
  induction list generalizing options with
  | nothing => rfl
  | valued kind noFile value _ inductionHypothesis =>
      simp only [List.cons_append, Options.read, kind]
      split
      · exact inductionHypothesis _ complete
      · rfl
  | switch kind _ inductionHypothesis =>
      simp only [List.cons_append, Options.read, kind]
      exact inductionHypothesis _ complete
  | unknown kind _ _ =>
      simp only [List.cons_append, Options.read, kind]
      rfl
  | waits kind _ => cases complete

/-- Options behind a statement are read as they are without it. -/
theorem read_giving (list : OptionList waiting arguments) (options : Options) (text : String) :
    (options.giving text).read arguments =
      (options.read arguments).map fun later => later.giving text := by
  induction list generalizing options with
  | nothing => rfl
  | valued kind noFile value _ inductionHypothesis =>
      simp only [Options.read, kind, set_giving]
      cases options.set _ value with
      | ok later => exact inductionHypothesis later
      | error error => rfl
  | switch kind _ inductionHypothesis =>
      simp only [Options.read, kind, turnOn_giving]
      exact inductionHypothesis _
  | unknown kind _ _ =>
      simp only [Options.read, kind]
      rfl
  | waits kind _ =>
      simp only [Options.read, kind]
      rfl

theorem read_statement (options : Options) {text : String} (none_ : options.statement = none)
    (kind : Argument.ofText text = .statement) (arguments : List String) :
    options.read (text :: arguments) = (options.giving text).read arguments := by
  rw [Options.read, kind]
  simp only [none_]
  rfl

/-- With a statement among the options, these are the options without it and the statement. -/
theorem read_with (complete : OptionList false front) (others : OptionList waiting back)
    {text : String} (kind : Argument.ofText text = .statement) (none_ : options.statement = none) :
    options.read (front ++ text :: back) =
      (options.read (front ++ back)).map fun later => later.giving text := by
  rw [read_append complete, read_append complete]
  cases read : options.read front with
  | error error => rfl
  | ok middle =>
      have kept := (read_keeps complete read).1
      change middle.read (text :: back) = (middle.read back).map _
      rw [read_statement middle (kept.trans none_) kind, read_giving others]

/-- The options of arguments among which there is no statement give none, and no file of one. -/
theorem ofArguments_plain (complete : OptionList false front) (others : OptionList waiting back) :
    (∃ error, ofArguments (front ++ back) = .error error ∧ ∀ text,
        Argument.ofText text = .statement →
          ofArguments (front ++ text :: back) = .error error) ∨
      ∃ options : Options, options.statement = none ∧ options.file = none ∧
        ofArguments (front ++ back) = .ok options ∧ ∀ text,
          Argument.ofText text = .statement →
            ofArguments (front ++ text :: back) = .ok (options.giving text) := by
  unfold ofArguments
  cases read : ({} : Options).read (front ++ back) with
  | error error =>
      refine .inl ⟨error, rfl, fun text kind => ?_⟩
      rw [read_with complete others kind rfl, read]
      rfl
  | ok options =>
      have kept : options.statement = none ∧ options.file = none := by
        rw [read_append complete] at read
        cases front_ : ({} : Options).read front with
        | error error =>
            rw [front_] at read
            cases read
        | ok middle =>
            rw [front_] at read
            have first := read_keeps complete front_
            have second := read_keeps others read
            exact ⟨second.1.trans first.1, second.2.trans first.2⟩
      refine .inr ⟨options, kept.1, kept.2, ?_, fun text kind => ?_⟩
      · simp [kept]
      · rw [read_with complete others kind rfl, read]
        simp [Except.map, giving, kept]

end Options

/-! ### Both routes -/

section

variable (codec : Codec)

theorem conclude_giving (options : Options) (text source : String)
    (outcome : Except ParseError ParsedStatement) :
    conclude codec (options.giving text) source outcome = conclude codec options source outcome := by
  cases outcome <;> rfl

/-- What is written about a job does not depend on where its statement came from. -/
theorem perform_giving (job : Job) (text : String) :
    perform codec { job with options := job.options.giving text } = perform codec job := by
  unfold perform
  simp only [conclude_giving]
  rfl

/-- A statement among the options is prepared as the same statement from the standard input. -/
theorem prepare_routes {front back : List String} {waiting : Bool}
    (complete : OptionList false front) (others : OptionList waiting back) {text : String}
    (kind : Argument.ofText text = .statement) (host : Host) :
    (prepare codec (front ++ text :: back)).run host =
      ((prepare codec (front ++ back)).run { host with input := .ok text }).map
        (Except.map fun job => { job with options := job.options.giving text }) := by
  unfold prepare
  rcases Options.ofArguments_plain complete others with
    ⟨error, plain, given⟩ | ⟨options, noStatement, noFile, plain, given⟩
  · rw [plain, given text kind]
    rfl
  · rw [plain, given text kind]
    have settings : settingsFor codec (options.giving text) = settingsFor codec options := rfl
    dsimp only
    rw [run_bind, run_bind, settings, (settingsFor_blind codec options).run_eq host (.ok text)]
    cases ((settingsFor codec options).run host).value with
    | error error => rfl
    | ok settings =>
        have inline : (sourceFor (options.giving text)).run host = ⟨.ok text, "", ""⟩ := rfl
        have input : (sourceFor options).run { host with input := .ok text } =
            ⟨.ok text, "", ""⟩ := by
          unfold sourceFor
          rw [noStatement, noFile]
          rfl
        dsimp only
        rw [run_bind, run_bind, inline, input]
        rfl

end

/-- A statement among options comes to the same exit code and the same writings as the same text on
the standard input, unless the text begins like an option: with a dash that is not all of it. -/
theorem command_routes (codec : Codec) {front back : List String} {waiting : Bool} {text : String}
    (complete : OptionList false front) (others : OptionList waiting back)
    (plain : text.toList.head? = some '-' → text = "-") (host : Host) :
    (commandBy codec (front ++ text :: back)).run host =
      (commandBy codec (front ++ back)).run { host with input := .ok text } := by
  unfold commandBy
  rw [asksForHelp_append_cons plain]
  split
  · exact ((Blind.writeOutput _ fun _ => .done 0).run_eq host (.ok text)).symm
  · have prepared :=
      prepare_routes codec complete others (Argument.ofText_eq_statement plain) host
    rw [run_bind, run_bind, prepared, Outcome.map_before]
    congr 1
    simp only [Outcome.map]
    cases ((prepare codec (front ++ back)).run { host with input := .ok text }).value with
    | error error => rfl
    | ok job =>
        simp only [Except.map, perform_giving]
        exact ((perform_blind codec job).run_eq host (.ok text)).symm

/-- A host without files, and with nothing on the standard input. -/
def Host.bare : Host := ⟨fun _ => .error "no such file", .ok "", none⟩

/-- A statement that ends in a comment, between options of which one has a value. -/
theorem command_routes_of_commented :
    OptionList false ["--rename", "t=u"] ∧ OptionList false ["--stats"] ∧
      ("SELECT a FROM t -- all".toList.head? = some '-' → "SELECT a FROM t -- all" = "-") ∧
      (command ["--rename", "t=u", "SELECT a FROM t -- all", "--stats"]).run Host.bare =
        (command ["--rename", "t=u", "--stats"]).run
          { Host.bare with input := .ok "SELECT a FROM t -- all" } ∧
      ((command ["--rename", "t=u", "SELECT a FROM t -- all", "--stats"]).run Host.bare).output =
        "SELECT a FROM u -- all\n" := by
  have complete : OptionList false ["--rename", "t=u"] :=
    .valued (show Argument.ofText "--rename" = .option .rename from rfl) (by decide) _ .nothing
  have others : OptionList false ["--stats"] :=
    .switch (show Argument.ofText "--stats" = .switch .stats from rfl) .nothing
  have plain : "SELECT a FROM t -- all".toList.head? = some '-' → "SELECT a FROM t -- all" = "-" := by
    decide
  exact ⟨complete, others, plain, command_routes ownCodec complete others plain Host.bare, by decide +kernel⟩

/-- A statement behind a comment that begins with dashes is read from the standard input, and taken
for an unknown option as an argument. -/
theorem dashed_comment_is_no_argument :
    OptionList false [] ∧
      (command ["-- c\nSELECT 1"]).run Host.bare =
        ⟨2, "", "error: unknown option \x60-- c\nSELECT 1\x60\n"⟩ ∧
      (command []).run { Host.bare with input := .ok "-- c\nSELECT 1" } =
        ⟨0, "SELECT 1\n", ""⟩ ∧
      (command ["-- c\nSELECT 1"]).run Host.bare ≠
        (command []).run { Host.bare with input := .ok "-- c\nSELECT 1" } := by
  have inline : (command ["-- c\nSELECT 1"]).run Host.bare =
      ⟨2, "", "error: unknown option \x60-- c\nSELECT 1\x60\n"⟩ := by decide +kernel
  have input : (command []).run { Host.bare with input := .ok "-- c\nSELECT 1" } =
      ⟨0, "SELECT 1\n", ""⟩ := by decide +kernel
  refine ⟨.nothing, inline, input, ?_⟩
  rw [inline, input]
  decide

end SqlDml.CommandLine
