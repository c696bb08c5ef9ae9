import SqlDml.Lexer.CharClass
import SqlDml.Tree.Name

/-!
Contract: how names and strings are written in a statement.

Owns:
- which names can stand without quotes;
- names between quotes, and strings between single quotes.

Does not own: reading them back; that is the lexer.
-/

namespace SqlDml

/-- Whether a name cannot stand without quotes: it is empty, begins with a digit, or holds a
character that no unquoted name has. -/
def needsQuoting (value : String) : Bool :=
  match value.toList with
  | [] => true
  | first :: rest => first.isDigit || !(first :: rest).all isNameChar

/-- Writes a quote inside a quoted name twice. -/
def doubleQuote (quote char : Char) : List Char :=
  if char = quote then [quote, quote] else [char]

/-- A name between quotes. -/
def quoteName (quote : Char) (value : String) : String :=
  String.ofList (quote :: (value.toList.flatMap (doubleQuote quote) ++ [quote]))

/-- One character inside a written string. -/
def escapeChar (char : Char) : List Char :=
  if char = '\'' then ['\'', '\'']
  else if char = '\\' then ['\\', '\\']
  else if char = '\x00' then ['\\', '0']
  else [char]

/-- A string between single quotes, for the default mode of the lexer. -/
def quoteString (value : String) : String :=
  String.ofList ('\'' :: (value.toList.flatMap escapeChar ++ ['\'']))

namespace Ident

/-- An identifier keeps the quotes that it had, and gets backticks where it cannot do without. -/
def render (ident : Ident) : String :=
  match ident.quote with
  | some quote => quoteName quote ident.value
  | none => if needsQuoting ident.value then quoteName '\x60' ident.value else ident.value

end Ident

end SqlDml
