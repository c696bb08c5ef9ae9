import SqlDml.Settings
import SqlDml.Toml.Document

/-!
Contract: settings in a configuration file.

Owns:
- which keys of a document set what;
- what is wrong with a document that cannot be used.

Does not own: the form of documents.
-/

namespace SqlDml.CommandLine

open Toml (Node Members)

/-- Why a text is no configuration. -/
inductive ConfigError where
  | malformed
  /-- A key other than `parser`. -/
  | unknownKey (key : String)
  /-- Something else than settings under `parser`. -/
  | settingsExpected
  | depthExpected
  | flagExpected (key : String)
deriving DecidableEq, Repr

/-- The wording of what is wrong. -/
def ConfigError.message : ConfigError → String
  | .malformed => "not a TOML document"
  | .unknownKey key => "unknown key " ++ key
  | .settingsExpected => "parser is no table"
  | .depthExpected => "max_depth is no number up to 4294967295"
  | .flagExpected key => key ++ " is neither true nor false"

/-- A nesting limit, or the default for a missing one. -/
def depthOf (default : Nat) : Option Node → Except ConfigError Nat
  | none => .ok default
  | some (.integer value) =>
      if 0 ≤ value ∧ value ≤ greatestMaxDepth then .ok value.toNat else .error .depthExpected
  | some _ => .error .depthExpected

/-- A switch, or the default for a missing one. -/
def flagOf (key : String) (default : Bool) : Option Node → Except ConfigError Bool
  | none => .ok default
  | some (.boolean value) => .ok value
  | some _ => .error (.flagExpected key)

/-- Settings from their values, each of which may be missing. -/
def settingsFrom (maxDepth ansiQuotes noBackslashEscapes pipesAsConcat : Option Node) :
    Except ConfigError Settings := do
  let default : Settings := {}
  return {
    maxDepth := ← depthOf default.maxDepth maxDepth
    ansiQuotes := ← flagOf "ansi_quotes" default.ansiQuotes ansiQuotes
    noBackslashEscapes :=
      ← flagOf "no_backslash_escapes" default.noBackslashEscapes noBackslashEscapes
    pipesAsConcat := ← flagOf "pipes_as_concat" default.pipesAsConcat pipesAsConcat }

/-- Settings under a key: a table, in which other keys do not count, or an array in the order of the
settings.  A date or time holds no setting. -/
def settingsOf : Node → Except ConfigError Settings
  | .table _ members =>
      settingsFrom (Members.valueOf? members "max_depth") (Members.valueOf? members "ansi_quotes")
        (Members.valueOf? members "no_backslash_escapes")
        (Members.valueOf? members "pipes_as_concat")
  | .array items => settingsFrom items[0]? items[1]? items[2]? items[3]?
  | .moment => .ok {}
  | _ => .error .settingsExpected

/-- The settings of a configuration, the defaults where it says nothing. -/
def configuredSettings (source : String) : Except ConfigError Settings :=
  match Toml.document? source with
  | none => .error .malformed
  | some members =>
      match members.find? fun member => member.1 != "parser" with
      | some member => .error (.unknownKey member.1)
      | none =>
          match members.valueOf? "parser" with
          | none => .ok {}
          | some node => settingsOf node

end SqlDml.CommandLine
