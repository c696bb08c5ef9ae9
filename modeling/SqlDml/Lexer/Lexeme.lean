import SqlDml.Error.Lexical
import SqlDml.Token.Basic

/-!
Contract: what one scan takes from the front of a text.

Owns:
- a lexeme: a token or the cause of a failure, the characters it took and those it left.

Does not own: positions; a lexeme does not know where it stands.
-/

namespace SqlDml

/-- The outcome of one scan.  `taken` followed by `rest` is the text that was scanned. -/
structure Lexeme where
  outcome : Except LexErrorKind TokenKind
  taken : List Char
  rest : List Char

namespace Lexeme

/-- A scan that read a token. -/
def token (kind : TokenKind) (taken rest : List Char) : Lexeme := ⟨.ok kind, taken, rest⟩

/-- A scan that failed. -/
def failure (kind : LexErrorKind) (taken rest : List Char) : Lexeme := ⟨.error kind, taken, rest⟩

end Lexeme

end SqlDml
