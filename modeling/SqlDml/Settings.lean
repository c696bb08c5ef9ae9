/-!
Contract: the switches of one parse.

Owns:
- the dialect switches and the nesting limit, with their defaults.

Does not own: where settings come from; that is the command line.
-/

namespace SqlDml

/-- The nesting limit when none is given. -/
def defaultMaxDepth : Nat := 64

/-- The greatest nesting limit that can be asked for. -/
def greatestMaxDepth : Nat := 4294967295

/-- How a source is read. -/
structure Settings where
  /-- How many levels of nesting may be open at once. -/
  maxDepth : Nat := defaultMaxDepth
  /-- Whether double quotes surround an identifier and not a string. -/
  ansiQuotes : Bool := false
  /-- Whether a backslash in a string is an ordinary character. -/
  noBackslashEscapes : Bool := false
  /-- Whether `||` joins strings and does not mean `OR`. -/
  pipesAsConcat : Bool := false
deriving DecidableEq, Repr, Inhabited

end SqlDml
