import SqlDml.CommandLine.Config
import SqlDml.CommandLine.Steps

/-!
Contract: the command as it is installed.

Owns:
- its reader of configurations and its writers of documents.

Does not own: what the command does with them, and how readings and writings are performed.
-/

namespace SqlDml.CommandLine

/-- The reader and the writers of this library. -/
def ownCodec : Codec where
  settings source := (configuredSettings source).mapError ConfigError.message
  compact document := some document.compact
  pretty document := some document.pretty

/-- The command: gives the exit code. -/
def command (arguments : List String) : Interaction Nat := commandBy ownCodec arguments

end SqlDml.CommandLine
