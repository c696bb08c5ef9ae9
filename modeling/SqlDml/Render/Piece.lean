import SqlDml.Render.Quoting
import SqlDml.Token.Keyword
import SqlDml.Token.Punct
import SqlDml.Tree.Clause
import SqlDml.Tree.Literal
import SqlDml.Tree.Operator

/-!
Contract: the pieces that canonical text is made of.

Owns:
- a piece as a keyword, a mark, a name, a constant or a blank, and its text;
- the pieces of names, literals, operators and clauses without expressions.

Does not own: the order of the clauses of a statement.
-/

namespace SqlDml

/-- A piece of canonical text. -/
inductive Piece where
  | blank
  | word (keyword : Keyword)
  | mark (punct : Punct)
  | ident (name : Ident)
  /-- A string literal with the given value. -/
  | string (value : String)
  /-- Text that is written as it is: numbers, type names, and names of character sets. -/
  | verbatim (text : String)
deriving DecidableEq, Repr

namespace Piece

/-- The text of a piece. -/
def text : Piece → String
  | .blank => " "
  | .word keyword => keyword.spelling
  | .mark punct => punct.text
  | .ident name => name.render
  | .string value => quoteString value
  | .verbatim written => written

/-- The text of a sequence of pieces. -/
def textOf (pieces : List Piece) : String := String.join (pieces.map text)

/-! ## Putting pieces together -/

/-- Keywords with a blank between them. -/
def words (keywords : List Keyword) : List Piece :=
  List.intersperse .blank (keywords.map Piece.word)

/-- A blank and keywords behind it. -/
def clause (keywords : List Keyword) : List Piece := .blank :: words keywords

/-- A blank and a keyword behind it, if wanted. -/
def flag (wanted : Bool) (keyword : Keyword) : List Piece :=
  if wanted then clause [keyword] else []

/-- A comma and a blank. -/
def comma : List Piece := [.mark .comma, .blank]

/-- Items with commas between them. -/
def commaList (items : List (List Piece)) : List Piece := (List.intersperse comma items).flatten

/-- Pieces in parentheses. -/
def parens (pieces : List Piece) : List Piece :=
  .mark .leftParen :: (pieces ++ [.mark .rightParen])

/-- Pieces in parentheses where they are needed. -/
def parensIf (needed : Bool) (pieces : List Piece) : List Piece :=
  if needed then parens pieces else pieces

/-- Identifiers with commas between them, in parentheses. -/
def identsInParens (idents : List Ident) : List Piece :=
  parens (commaList (idents.map fun ident => [.ident ident]))

/-- A list of identifiers in parentheses behind a lead, left out when there is none. -/
def optionalIdents (lead : List Piece) (idents : List Ident) : List Piece :=
  if idents.isEmpty then [] else lead ++ identsInParens idents

/-- `AS` and an alias, left out when there is none. -/
def optionalAlias : Option Ident → List Piece
  | some aliasName => clause [.AS] ++ [.blank, .ident aliasName]
  | none => []

end Piece

open Piece

/-! ## Names -/

/-- An optional qualifier and the dot behind it. -/
def Ident.qualifierPieces : Option Ident → List Piece
  | some qualifier => [.ident qualifier, .mark .dot]
  | none => []

def TableName.pieces (name : TableName) : List Piece :=
  Ident.qualifierPieces name.schema ++ [.ident name.table]

def ColumnRef.pieces (ref : ColumnRef) : List Piece :=
  Ident.qualifierPieces ref.schema ++ Ident.qualifierPieces ref.table ++ [.ident ref.column]

/-- A table name as canonical text. -/
def TableName.render (name : TableName) : String := textOf name.pieces

/-- A column reference as canonical text. -/
def ColumnRef.render (ref : ColumnRef) : String := textOf ref.pieces

/-! ## Literals -/

def TemporalKind.keyword : TemporalKind → Keyword
  | .date => .DATE
  | .time => .TIME
  | .timestamp => .TIMESTAMP

/-- A string literal touches the name of its character set, other literals do not. -/
def Literal.pieces : Literal → List Piece
  | .integer value => [.verbatim (toString value)]
  | .number text => [.verbatim text]
  | .string value => [.string value]
  | .introduced charset (.string value) => [.verbatim ("_" ++ charset), .string value]
  | .introduced charset value => .verbatim ("_" ++ charset) :: .blank :: value.pieces
  | .hex digits => [.verbatim (if digits.isEmpty then "X''" else "0x" ++ digits)]
  | .bit digits => [.verbatim (if digits.isEmpty then "B''" else "0b" ++ digits)]
  | .null => [.word .NULL]
  | .true => [.word .TRUE]
  | .false => [.word .FALSE]
  | .temporal kind value => [.word kind.keyword, .blank, .string value]
  | .odbc kind value =>
      [.mark .leftBrace, .verbatim kind, .blank, .string value, .mark .rightBrace]
  | .currentTimestamp => [.word .CURRENT_TIMESTAMP]

/-! ## Operators -/

/-- A binary operator in its canonical spelling. -/
def BinaryOp.piece : BinaryOp → Piece
  | .or => .word .OR
  | .xor => .word .XOR
  | .and => .word .AND
  | .equal => .mark .equal
  | .nullSafeEqual => .mark .nullSafeEqual
  | .notEqual => .mark .lessGreater
  | .less => .mark .less
  | .lessEqual => .mark .lessEqual
  | .greater => .mark .greater
  | .greaterEqual => .mark .greaterEqual
  | .bitOr => .mark .pipe
  | .bitAnd => .mark .ampersand
  | .shiftLeft => .mark .shiftLeft
  | .shiftRight => .mark .shiftRight
  | .bitXor => .mark .caret
  | .add => .mark .plus
  | .subtract => .mark .minus
  | .multiply => .mark .star
  | .divide => .mark .slash
  | .intDivide => .word .DIV
  | .modulo => .mark .percent
  | .concat => .mark .doublePipe

/-- The canonical spelling of a binary operator. -/
def BinaryOp.render (op : BinaryOp) : String := op.piece.text

/-- A unary operator, with a blank behind it when it is a word. -/
def UnaryOp.pieces : UnaryOp → List Piece
  | .negate => [.mark .minus]
  | .plus => [.mark .plus]
  | .bitNot => [.mark .tilde]
  | .not => [.word .NOT, .blank]
  | .binary => [.word .BINARY, .blank]

def IsValue.keyword : IsValue → Keyword
  | .null => .NULL
  | .true => .TRUE
  | .false => .FALSE
  | .unknown => .UNKNOWN

def Quantifier.keyword : Quantifier → Keyword
  | .all => .ALL
  | .any => .ANY

def LikeOp.keyword : LikeOp → Keyword
  | .like => .LIKE
  | .regexp => .REGEXP

/-! ## Clauses without expressions -/

def SelectModifiers.pieces (modifiers : SelectModifiers) : List Piece :=
  (match modifiers.quantifier with
    | some .all => clause [.ALL]
    | some .distinct => clause [.DISTINCT]
    | some .distinctRow => clause [.DISTINCTROW]
    | none => []) ++
  flag modifiers.highPriority .HIGH_PRIORITY ++
  flag modifiers.straightJoin .STRAIGHT_JOIN ++
  flag modifiers.smallResult .SQL_SMALL_RESULT ++
  flag modifiers.bigResult .SQL_BIG_RESULT ++
  flag modifiers.bufferResult .SQL_BUFFER_RESULT ++
  (match modifiers.cache with
    | some .cache => clause [.SQL_CACHE]
    | some .noCache => clause [.SQL_NO_CACHE]
    | none => []) ++
  flag modifiers.calcFoundRows .SQL_CALC_FOUND_ROWS

def CompoundOp.keywords : CompoundOp → List Keyword
  | .union => [.UNION]
  | .unionAll => [.UNION, .ALL]

/-- A direction behind an ordering term. -/
def SortDirection.pieces : Option SortDirection → List Piece
  | some .asc => clause [.ASC]
  | some .desc => clause [.DESC]
  | none => []

def LockMode.keywords : LockMode → List Keyword
  | .forUpdate => [.FOR, .UPDATE]
  | .forShare => [.FOR, .SHARE]
  | .lockInShareMode => [.LOCK, .IN, .SHARE, .MODE]

def LockingClause.pieces (locking : LockingClause) : List Piece :=
  words locking.mode.keywords ++
  (if locking.tables.isEmpty then []
    else clause [.OF] ++ .blank :: commaList (locking.tables.map TableName.pieces)) ++
  match locking.wait with
  | some .noWait => clause [.NOWAIT]
  | some .skipLocked => clause [.SKIP, .LOCKED]
  | none => []

def JoinType.keywords : JoinType → List Keyword
  | .inner => [.INNER, .JOIN]
  | .cross => [.CROSS, .JOIN]
  | .straight => [.STRAIGHT_JOIN]
  | .left => [.LEFT, .JOIN]
  | .right => [.RIGHT, .JOIN]
  | .natural => [.NATURAL, .JOIN]
  | .naturalLeft => [.NATURAL, .LEFT, .JOIN]
  | .naturalRight => [.NATURAL, .RIGHT, .JOIN]

/-- The words that join two tables. -/
def JoinType.render (join : JoinType) : String := textOf (words join.keywords)

def IndexHintAction.keyword : IndexHintAction → Keyword
  | .use => .USE
  | .ignore => .IGNORE
  | .force => .FORCE

def IndexHint.pieces (hint : IndexHint) : List Piece :=
  words [hint.action.keyword, .INDEX] ++
  (match hint.scope with
    | some .join => clause [.FOR, .JOIN]
    | some .orderBy => clause [.FOR, .ORDER, .BY]
    | some .groupBy => clause [.FOR, .GROUP, .BY]
    | none => []) ++
  .blank :: identsInParens hint.indexes

/-- A list of partitions, left out when it is empty. -/
def partitionPieces (partitions : List Ident) : List Piece :=
  optionalIdents (clause [.PARTITION] ++ [.blank]) partitions

def NamedTable.pieces (table : NamedTable) : List Piece :=
  table.name.pieces ++ partitionPieces table.partitions ++ optionalAlias table.aliasName ++
  table.indexHints.flatMap fun hint => .blank :: hint.pieces

/-- A type name with its sizes; a scale without a length is not written. -/
def TypeName.pieces (target : TypeName) : List Piece :=
  .verbatim target.name ::
  match target.length, target.scale with
  | some length, some scale =>
      parens ([.verbatim (toString length)] ++ comma ++ [.verbatim (toString scale)])
  | some length, none => parens [.verbatim (toString length)]
  | none, _ => []

end SqlDml
