import SqlDml.CommandLine.Options

/-!
Contract: what arguments say, item by item.

Owns:
- an option with its value, a switch and a statement, as the items of a list of arguments;
- which items decide about each option of a run.

Does not own: what the command does with its options.
-/

namespace SqlDml.CommandLine

/-- One thing that arguments say. -/
inductive Item where
  | valued (option : ValueOption) (value : String)
  | switch (switch : Switch)
  | statement (text : String)
deriving DecidableEq, Repr

/-- The items of arguments, if each argument belongs to one. -/
def items? : List String → Option (List Item)
  | [] => some []
  | argument :: others =>
      match Argument.ofText argument with
      | .option option =>
          match others with
          | [] => none
          | value :: others => (items? others).map (.valued option value :: ·)
      | .switch switch => (items? others).map (.switch switch :: ·)
      | .unknown => none
      | .statement => (items? others).map (.statement argument :: ·)

namespace Item

/-- The value that an item has for an option. -/
def value? (option : ValueOption) : Item → Option String
  | .valued other value => if other = option then some value else none
  | _ => none

def statement? : Item → Option String
  | .statement text => some text
  | _ => none

/-- The value that stands last for an option. -/
def lastValue? (option : ValueOption) (items : List Item) : Option String :=
  (items.filterMap (value? option)).getLast?

/-- The format that is asked for last. -/
def formatOf (items : List Item) : OutputFormat :=
  ((lastValue? .format items).bind OutputFormat.ofName?).getD .sql

/-- The nesting limit that is asked for last. -/
def maxDepthOf? (items : List Item) : Option Nat := (lastValue? .maxDepth items).bind depth?

variable (items : List Item) (option other : ValueOption) (value text : String) (switch_ : Switch)

@[simp] theorem lastValue?_concat_valued :
    lastValue? option (items ++ [.valued other value]) =
      if other = option then some value else lastValue? option items := by
  unfold lastValue?
  rw [List.filterMap_append]
  by_cases same : other = option <;> simp [value?, same]

@[simp] theorem lastValue?_concat_switch :
    lastValue? option (items ++ [.switch switch_]) = lastValue? option items := by
  simp [lastValue?, value?]

@[simp] theorem lastValue?_concat_statement :
    lastValue? option (items ++ [.statement text]) = lastValue? option items := by
  simp [lastValue?, value?]

end Item

namespace Options

/-- Options that come from items: the last value of an option counts, a switch is on wherever it
stands, renamings add up, and there is no statement but that of the items. -/
structure From (options : Options) (items : List Item) : Prop where
  format : options.format = Item.formatOf items
  pretty : options.pretty = true ↔ .switch .pretty ∈ items
  config : options.config = Item.lastValue? .config items
  file : options.file = Item.lastValue? .file items
  statement : options.statement.toList = items.filterMap Item.statement?
  ansiQuotes : options.ansiQuotes = true ↔ .switch .ansiQuotes ∈ items
  noBackslashEscapes : options.noBackslashEscapes = true ↔ .switch .noBackslashEscapes ∈ items
  pipesAsConcat : options.pipesAsConcat = true ↔ .switch .pipesAsConcat ∈ items
  maxDepth : options.maxDepth = Item.maxDepthOf? items
  renames : options.renames =
    (items.filterMap (Item.value? .rename)).filterMap RenameRule.ofText?
  stats : options.stats = true ↔ .switch .stats ∈ items

variable {options later : Options} {items : List Item}

theorem from_nothing : From {} [] := by
  constructor <;> simp [Item.formatOf, Item.maxDepthOf?, Item.lastValue?]

/-- A switch goes on, and nothing else changes. -/
theorem From.turnOn (origin : options.From items) (switch : Switch) :
    (options.turnOn switch).From (items ++ [.switch switch]) := by
  cases origin
  cases switch
  all_goals
    constructor <;>
      simp_all [Options.turnOn, Item.formatOf, Item.maxDepthOf?, Item.value?, Item.statement?]

/-- A value replaces the one that its option has, but a renaming is added. -/
theorem From.set (origin : options.From items) {option : ValueOption} {value : String}
    (read : options.set option value = .ok later) :
    later.From (items ++ [.valued option value]) := by
  cases origin
  cases option with
  | config | file =>
      cases read
      constructor <;> simp_all [Item.formatOf, Item.maxDepthOf?, Item.value?, Item.statement?]
  | format | maxDepth | rename =>
      simp only [Options.set] at read
      split at read <;> cases read
      constructor <;> simp_all [Item.formatOf, Item.maxDepthOf?, Item.value?, Item.statement?]

/-- The first statement is taken. -/
theorem From.statement_concat (origin : options.From items) (none_ : options.statement = none)
    (text : String) :
    From { options with statement := some text } (items ++ [.statement text]) := by
  cases origin
  constructor <;> simp_all [Item.formatOf, Item.maxDepthOf?, Item.value?, Item.statement?]

/-- Options that are read come from the items of their arguments, one after the other. -/
theorem From.read (origin : options.From items) {arguments : List String}
    (read : options.read arguments = .ok later) :
    ∃ others, items? arguments = some others ∧ later.From (items ++ others) := by
  induction arguments using items?.induct generalizing options items with
  | case1 =>
      cases read
      exact ⟨[], rfl, by rwa [List.append_nil]⟩
  | case2 argument option kind =>
      simp only [Options.read, kind] at read
      cases read
  | case3 argument option kind value others inductionHypothesis =>
      simp only [Options.read, kind] at read
      split at read
      · next middle set =>
          obtain ⟨behind, said, final⟩ := inductionHypothesis (origin.set set) read
          refine ⟨.valued option value :: behind, by simp [items?, kind, said], ?_⟩
          rwa [List.append_assoc] at final
      · cases read
  | case4 argument others switch kind inductionHypothesis =>
      simp only [Options.read, kind] at read
      obtain ⟨behind, said, final⟩ := inductionHypothesis (origin.turnOn switch) read
      refine ⟨.switch switch :: behind, by simp [items?, kind, said], ?_⟩
      rwa [List.append_assoc] at final
  | case5 argument others kind =>
      simp only [Options.read, kind] at read
      cases read
  | case6 argument others kind inductionHypothesis =>
      simp only [Options.read, kind] at read
      split at read
      · cases read
      · next second =>
          have none_ : options.statement = none := by simpa using second
          obtain ⟨behind, said, final⟩ :=
            inductionHypothesis (origin.statement_concat none_ argument) read
          refine ⟨.statement argument :: behind, by simp [items?, kind, said], ?_⟩
          rwa [List.append_assoc] at final

/-- The options of arguments come from the items of the arguments. -/
theorem from_items {arguments : List String} (read : ofArguments arguments = .ok options) :
    ∃ items, items? arguments = some items ∧ options.From items := by
  unfold ofArguments at read
  split at read
  · next given =>
      split at read
      · cases read
      · cases read
        exact from_nothing.read given
  · cases read

end Options

end SqlDml.CommandLine
