import SqlDml.Source.Span
import SqlDml.Token.Keyword
import SqlDml.Token.Punct

/-!
Contract: the tokens of a source.

Owns:
- the kinds of token, with the decoded value of each literal and name;
- the description of a token in messages;
- which tokens can begin a statement or stand for a name.

Does not own: how characters become tokens; that is the lexer.
-/

namespace SqlDml

/-- What a token is. -/
inductive TokenKind where
  /-- An integer below 2^63. -/
  | integer (value : Nat)
  /-- Any other decimal literal, as written. -/
  | number (text : String)
  /-- A string literal with its escapes resolved, and the quote around it. -/
  | string (value : String) (quote : Char)
  /-- The digits of a hexadecimal literal. -/
  | hex (digits : String)
  /-- The digits of a bit literal. -/
  | bit (digits : String)
  /-- An unquoted name that is no keyword. -/
  | word (text : String)
  /-- A quoted name with its quotes resolved, and the quote around it. -/
  | quotedWord (value : String) (quote : Char)
  /-- An operator or punctuation mark. -/
  | punct (mark : Punct)
  /-- A keyword. -/
  | keyword (word : Keyword)
  /-- The end of the source. -/
  | endOfInput
deriving DecidableEq, Repr

namespace TokenKind

/-- The description of a token in messages. -/
def describe : TokenKind → String
  | .integer value => s!"integer {value}"
  | .number text => "number " ++ text
  | .string _ _ => "string literal"
  | .hex _ => "hex literal"
  | .bit _ => "bit literal"
  | .word text => "identifier \x60" ++ text ++ "\x60"
  | .quotedWord value quote => "identifier " ++ quote.toString ++ value ++ quote.toString
  | .punct mark => "'" ++ mark.text ++ "'"
  | .keyword kw => kw.spelling
  | .endOfInput => "end of input"

def keyword? : TokenKind → Option Keyword
  | .keyword kw => some kw
  | _ => none

/-- Whether the token is a keyword that may stand for a plain name. -/
def isNonreserved : TokenKind → Bool
  | .keyword kw => kw.isNonreserved
  | _ => false

/-- Whether the token is a keyword that may name a function. -/
def isFunctionName : TokenKind → Bool
  | .keyword kw => kw.isFunctionName
  | _ => false

/-- Whether the token can be read as a plain name. -/
def isName : TokenKind → Bool
  | .word _ | .quotedWord _ _ => true
  | .keyword kw => kw.isNonreserved
  | _ => false

/-- Whether the token can be read as a name after a dot, where every keyword is one. -/
def isNameAfterDot : TokenKind → Bool
  | .word _ | .quotedWord _ _ | .keyword _ => true
  | _ => false

def isString : TokenKind → Bool
  | .string _ _ => true
  | _ => false

/-- Whether a statement can begin with the token. -/
def startsStatement : TokenKind → Bool
  | .keyword .SELECT | .keyword .WITH | .keyword .INSERT | .keyword .REPLACE | .keyword .UPDATE
  | .keyword .DELETE | .punct .leftParen => true
  | _ => false

/-- Whether a query can begin with the token. -/
def startsQuery : TokenKind → Bool
  | .keyword .SELECT | .keyword .WITH | .punct .leftParen => true
  | _ => false

end TokenKind

/-- A token and the part of the source that it was read from. -/
structure Token where
  kind : TokenKind
  span : Span
deriving DecidableEq, Repr

/-- The end-of-input token at a position. -/
def Token.endAt (position : Position) : Token :=
  ⟨.endOfInput, Span.emptyAt position⟩

end SqlDml
