/-!
Contract: what a command does to the world around it, as data.

Owns:
- commands as trees of readings and writings, each followed by what depends on its result;
- running a command against a given host.

Does not own: performing a command in the real world.
-/

namespace SqlDml.CommandLine

/-- A command that ends with a value. -/
inductive Interaction (α : Type) where
  | done (value : α)
  /-- Reads a file; the failure is in the words of the host. -/
  | readFile (path : String) (next : Except String String → Interaction α)
  /-- Reads the standard input to its end. -/
  | readInput (next : Except String String → Interaction α)
  /-- Writes to the standard output, which may refuse. -/
  | writeOutput (text : String) (next : Except String Unit → Interaction α)
  /-- Writes to the standard error output. -/
  | writeErrors (text : String) (next : Interaction α)

namespace Interaction

/-- One command after another. -/
def andThen {α β : Type} : Interaction α → (α → Interaction β) → Interaction β
  | .done value, rest => rest value
  | .readFile path next, rest => .readFile path fun answer => (next answer).andThen rest
  | .readInput next, rest => .readInput fun answer => (next answer).andThen rest
  | .writeOutput text next, rest => .writeOutput text fun answer => (next answer).andThen rest
  | .writeErrors text next, rest => .writeErrors text (next.andThen rest)

instance : Monad Interaction where
  pure := .done
  bind := andThen

end Interaction

/-- What a command finds around it. -/
structure Host where
  /-- The text of a file, or why there is none. -/
  file : String → Except String String
  /-- The standard input, or why it is no text. -/
  input : Except String String
  /-- Why nothing can be written to the standard output, if so. -/
  outputRefusal : Option String := none

/-- How a command ended, and what it wrote. -/
structure Outcome (α : Type) where
  value : α
  output : String
  errors : String
deriving DecidableEq, Repr

namespace Interaction

/-- Runs a command against a host. -/
def run {α : Type} (host : Host) : Interaction α → Outcome α
  | .done value => ⟨value, "", ""⟩
  | .readFile path next => (next (host.file path)).run host
  | .readInput next => (next host.input).run host
  | .writeOutput text next =>
      match host.outputRefusal with
      | some cause => (next (.error cause)).run host
      | none =>
          let outcome := (next (.ok ())).run host
          { outcome with output := text ++ outcome.output }
  | .writeErrors text next =>
      let outcome := next.run host
      { outcome with errors := text ++ outcome.errors }

end Interaction

end SqlDml.CommandLine
