/-!
Contract: the operators and punctuation marks.

Owns:
- the marks and how each is written.

Does not own: which of two marks is read where one begins the other; that is the lexer.
-/

namespace SqlDml

/-- An operator or punctuation mark. -/
inductive Punct where
  | question | plus | minus | star | slash | percent | caret | ampersand | doubleAmpersand | pipe
  | doublePipe | tilde | bang | shiftLeft | shiftRight | equal | nullSafeEqual | bangEqual
  | lessGreater | less | lessEqual | greater | greaterEqual | dot | comma | semicolon | leftParen
  | rightParen | leftBrace | rightBrace
deriving DecidableEq, Repr

namespace Punct

/-- How a mark is written. -/
def text : Punct → String
  | .question => "?"
  | .plus => "+"
  | .minus => "-"
  | .star => "*"
  | .slash => "/"
  | .percent => "%"
  | .caret => "^"
  | .ampersand => "&"
  | .doubleAmpersand => "&&"
  | .pipe => "|"
  | .doublePipe => "||"
  | .tilde => "~"
  | .bang => "!"
  | .shiftLeft => "<<"
  | .shiftRight => ">>"
  | .equal => "="
  | .nullSafeEqual => "<=>"
  | .bangEqual => "!="
  | .lessGreater => "<>"
  | .less => "<"
  | .lessEqual => "<="
  | .greater => ">"
  | .greaterEqual => ">="
  | .dot => "."
  | .comma => ","
  | .semicolon => ";"
  | .leftParen => "("
  | .rightParen => ")"
  | .leftBrace => "\x7b"
  | .rightBrace => "\x7d"

end Punct

end SqlDml
