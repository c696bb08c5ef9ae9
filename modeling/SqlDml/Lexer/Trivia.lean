import SqlDml.Lexer.CharClass

/-!
Contract: the text between tokens.

Owns:
- runs of blanks, line comments after `#` or `--`, and block comments;
- finding the first piece of trivia at the front of a text.

Does not own: skipping piece after piece; that is the lexer.
-/

namespace SqlDml

/-- The trivia at the front of a text. -/
inductive Trivia where
  /-- The text begins with no trivia. -/
  | absent
  /-- A run of blanks or a whole comment, and the text after it. -/
  | piece (taken rest : List Char)
  /-- A block comment that has no end. -/
  | openComment

namespace Trivia

/-- Cuts a text after its first line feed, or at its end. -/
def splitLine (chars : List Char) : List Char × List Char :=
  let before := chars.takeWhile (· != '\n')
  match chars.dropWhile (· != '\n') with
  | [] => (before, [])
  | lineFeed :: rest => (before ++ [lineFeed], rest)

/-- Cuts the text behind the opening of a block comment after the first end of comment. -/
def splitComment? : List Char → Option (List Char × List Char)
  | [] => none
  | '*' :: '/' :: rest => some (['*', '/'], rest)
  | char :: rest => (splitComment? rest).map fun cut => (char :: cut.1, cut.2)

/-- Whether two dashes begin a comment before this text: the text must end, or go on with a blank or
a control character. -/
def opensLineComment : List Char → Bool
  | [] => true
  | char :: _ => char.toNat ≤ 0x20

/-- The line at the front of a text, as a comment. -/
def lineComment (chars : List Char) : Trivia :=
  .piece (splitLine chars).1 (splitLine chars).2

/-- The first piece of trivia at the front of a text. -/
def first : List Char → Trivia
  | [] => .absent
  | '#' :: rest => lineComment ('#' :: rest)
  | '-' :: '-' :: rest =>
      if opensLineComment rest then lineComment ('-' :: '-' :: rest) else .absent
  | '/' :: '*' :: rest =>
      match splitComment? rest with
      | some (inside, after) => .piece ('/' :: '*' :: inside) after
      | none => .openComment
  | char :: rest =>
      if isBlank char then
        .piece ((char :: rest).takeWhile isBlank) ((char :: rest).dropWhile isBlank)
      else
        .absent

end Trivia

end SqlDml
