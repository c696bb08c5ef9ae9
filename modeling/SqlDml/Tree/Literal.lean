/-!
Contract: the constants of expressions.

Owns:
- literals with their decoded values.

Does not own: how a literal is written or read.
-/

namespace SqlDml

/-- The word in front of a temporal literal. -/
inductive TemporalKind where
  | date | time | timestamp
deriving DecidableEq, Repr

/-- A constant. -/
inductive Literal where
  /-- An integer of 64 bits.  Sources hold none below zero, trees that are built by hand may. -/
  | integer (value : Int)
  /-- Any other decimal number, as written. -/
  | number (text : String)
  | string (value : String)
  /-- A string, hexadecimal or bit literal behind the name of a character set. -/
  | introduced (charset : String) (value : Literal)
  /-- The digits of a hexadecimal literal. -/
  | hex (digits : String)
  /-- The digits of a bit literal. -/
  | bit (digits : String)
  | null
  | true
  | false
  | temporal (kind : TemporalKind) (value : String)
  /-- An escape in braces: its kind and its value. -/
  | odbc (kind value : String)
  | currentTimestamp
deriving DecidableEq, Repr

end SqlDml
