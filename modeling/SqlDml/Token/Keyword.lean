/-!
Contract: the words that the grammar treats as keywords.

Owns:
- the keywords and their spelling in capitals;
- finding the keyword that a word spells, in any mixture of ASCII cases;
- which keywords may stand for a plain name, and which may name a function.

Does not own: where a keyword is expected; that is the grammar.
-/

namespace SqlDml

/-- A keyword, named by its spelling. -/
inductive Keyword where
  | ALL | AND | ANY | AS | ASC | BETWEEN | BINARY | BY | CASE | CAST | CHAR | CHARSET | COLLATE
  | CROSS | CURRENT_TIMESTAMP | DATE | DEFAULT | DELAYED | DELETE | DESC | DISTINCT | DISTINCTROW
  | DIV | DUPLICATE | ELSE | END | ESCAPE | EXISTS | FALSE | FOR | FORCE | FROM | GROUP | HAVING
  | HIGH_PRIORITY | IF | IGNORE | IN | INDEX | INNER | INSERT | INTO | IS | JOIN | KEY | LEFT
  | LIKE | LIMIT | LOCK | LOCKED | LOW_PRIORITY | MOD | MODE | NATURAL | NOT | NOWAIT | NULL | OF
  | OFFSET | ON | OR | ORDER | OUTER | PARTITION | QUICK | RECURSIVE | REGEXP | REPLACE | RIGHT
  | RLIKE | ROLLUP | ROW | SELECT | SET | SHARE | SKIP | SOME | SOUNDS | SQL_BIG_RESULT
  | SQL_BUFFER_RESULT | SQL_CACHE | SQL_CALC_FOUND_ROWS | SQL_NO_CACHE | SQL_SMALL_RESULT
  | STRAIGHT_JOIN | THEN | TIME | TIMESTAMP | TRUE | UNION | UNKNOWN | UPDATE | USE | USING
  | VALUE | VALUES | WHEN | WHERE | WITH | XOR
deriving DecidableEq, Repr

namespace Keyword

/-- Every keyword, in alphabetical order. -/
def all : List Keyword :=
  [.ALL, .AND, .ANY, .AS, .ASC, .BETWEEN, .BINARY, .BY, .CASE, .CAST, .CHAR, .CHARSET, .COLLATE,
   .CROSS, .CURRENT_TIMESTAMP, .DATE, .DEFAULT, .DELAYED, .DELETE, .DESC, .DISTINCT,
   .DISTINCTROW, .DIV, .DUPLICATE, .ELSE, .END, .ESCAPE, .EXISTS, .FALSE, .FOR, .FORCE, .FROM,
   .GROUP, .HAVING, .HIGH_PRIORITY, .IF, .IGNORE, .IN, .INDEX, .INNER, .INSERT, .INTO, .IS,
   .JOIN, .KEY, .LEFT, .LIKE, .LIMIT, .LOCK, .LOCKED, .LOW_PRIORITY, .MOD, .MODE, .NATURAL, .NOT,
   .NOWAIT, .NULL, .OF, .OFFSET, .ON, .OR, .ORDER, .OUTER, .PARTITION, .QUICK, .RECURSIVE,
   .REGEXP, .REPLACE, .RIGHT, .RLIKE, .ROLLUP, .ROW, .SELECT, .SET, .SHARE, .SKIP, .SOME,
   .SOUNDS, .SQL_BIG_RESULT, .SQL_BUFFER_RESULT, .SQL_CACHE, .SQL_CALC_FOUND_ROWS, .SQL_NO_CACHE,
   .SQL_SMALL_RESULT, .STRAIGHT_JOIN, .THEN, .TIME, .TIMESTAMP, .TRUE, .UNION, .UNKNOWN, .UPDATE,
   .USE, .USING, .VALUE, .VALUES, .WHEN, .WHERE, .WITH, .XOR]

/-- The spelling in capitals. -/
def spelling : Keyword → String
  | .ALL => "ALL"
  | .AND => "AND"
  | .ANY => "ANY"
  | .AS => "AS"
  | .ASC => "ASC"
  | .BETWEEN => "BETWEEN"
  | .BINARY => "BINARY"
  | .BY => "BY"
  | .CASE => "CASE"
  | .CAST => "CAST"
  | .CHAR => "CHAR"
  | .CHARSET => "CHARSET"
  | .COLLATE => "COLLATE"
  | .CROSS => "CROSS"
  | .CURRENT_TIMESTAMP => "CURRENT_TIMESTAMP"
  | .DATE => "DATE"
  | .DEFAULT => "DEFAULT"
  | .DELAYED => "DELAYED"
  | .DELETE => "DELETE"
  | .DESC => "DESC"
  | .DISTINCT => "DISTINCT"
  | .DISTINCTROW => "DISTINCTROW"
  | .DIV => "DIV"
  | .DUPLICATE => "DUPLICATE"
  | .ELSE => "ELSE"
  | .END => "END"
  | .ESCAPE => "ESCAPE"
  | .EXISTS => "EXISTS"
  | .FALSE => "FALSE"
  | .FOR => "FOR"
  | .FORCE => "FORCE"
  | .FROM => "FROM"
  | .GROUP => "GROUP"
  | .HAVING => "HAVING"
  | .HIGH_PRIORITY => "HIGH_PRIORITY"
  | .IF => "IF"
  | .IGNORE => "IGNORE"
  | .IN => "IN"
  | .INDEX => "INDEX"
  | .INNER => "INNER"
  | .INSERT => "INSERT"
  | .INTO => "INTO"
  | .IS => "IS"
  | .JOIN => "JOIN"
  | .KEY => "KEY"
  | .LEFT => "LEFT"
  | .LIKE => "LIKE"
  | .LIMIT => "LIMIT"
  | .LOCK => "LOCK"
  | .LOCKED => "LOCKED"
  | .LOW_PRIORITY => "LOW_PRIORITY"
  | .MOD => "MOD"
  | .MODE => "MODE"
  | .NATURAL => "NATURAL"
  | .NOT => "NOT"
  | .NOWAIT => "NOWAIT"
  | .NULL => "NULL"
  | .OF => "OF"
  | .OFFSET => "OFFSET"
  | .ON => "ON"
  | .OR => "OR"
  | .ORDER => "ORDER"
  | .OUTER => "OUTER"
  | .PARTITION => "PARTITION"
  | .QUICK => "QUICK"
  | .RECURSIVE => "RECURSIVE"
  | .REGEXP => "REGEXP"
  | .REPLACE => "REPLACE"
  | .RIGHT => "RIGHT"
  | .RLIKE => "RLIKE"
  | .ROLLUP => "ROLLUP"
  | .ROW => "ROW"
  | .SELECT => "SELECT"
  | .SET => "SET"
  | .SHARE => "SHARE"
  | .SKIP => "SKIP"
  | .SOME => "SOME"
  | .SOUNDS => "SOUNDS"
  | .SQL_BIG_RESULT => "SQL_BIG_RESULT"
  | .SQL_BUFFER_RESULT => "SQL_BUFFER_RESULT"
  | .SQL_CACHE => "SQL_CACHE"
  | .SQL_CALC_FOUND_ROWS => "SQL_CALC_FOUND_ROWS"
  | .SQL_NO_CACHE => "SQL_NO_CACHE"
  | .SQL_SMALL_RESULT => "SQL_SMALL_RESULT"
  | .STRAIGHT_JOIN => "STRAIGHT_JOIN"
  | .THEN => "THEN"
  | .TIME => "TIME"
  | .TIMESTAMP => "TIMESTAMP"
  | .TRUE => "TRUE"
  | .UNION => "UNION"
  | .UNKNOWN => "UNKNOWN"
  | .UPDATE => "UPDATE"
  | .USE => "USE"
  | .USING => "USING"
  | .VALUE => "VALUE"
  | .VALUES => "VALUES"
  | .WHEN => "WHEN"
  | .WHERE => "WHERE"
  | .WITH => "WITH"
  | .XOR => "XOR"

/-- The keyword that a word spells, ignoring the case of ASCII letters. -/
def ofWord? (word : List Char) : Option Keyword :=
  let capitals := String.ofList (word.map Char.toUpper)
  all.find? fun keyword => keyword.spelling == capitals

/-- Whether the keyword may also stand for a plain name. -/
def isNonreserved : Keyword → Bool
  | .DATE | .TIME | .TIMESTAMP | .VALUE | .ANY | .SOME | .UNKNOWN | .ROLLUP | .QUICK | .MODE
  | .SHARE | .NOWAIT | .LOCKED | .SKIP | .OFFSET | .SOUNDS | .ESCAPE | .DUPLICATE | .CHARSET => true
  | _ => false

/-- Whether the keyword names a built-in function when an opening parenthesis follows. -/
def isFunctionName : Keyword → Bool
  | .LEFT | .RIGHT | .REPLACE | .IF | .INSERT | .MOD | .CHAR | .DATE | .TIME | .TIMESTAMP
  | .VALUES | .DEFAULT | .CURRENT_TIMESTAMP => true
  | _ => false

theorem mem_all (keyword : Keyword) : keyword ∈ all := by
  cases keyword <;> decide

/-- Every keyword is found again by its spelling. -/
theorem ofWord?_spelling (keyword : Keyword) :
    ofWord? keyword.spelling.toList = some keyword :=
  have found : ∀ keyword ∈ all, ofWord? keyword.spelling.toList = some keyword := by
    decide +kernel
  found keyword (mem_all keyword)

end Keyword

end SqlDml
