/-!
Contract: places in a source text.

Owns:
- a position as byte offset, line and column;
- the width of lines and columns, which start again at 0 behind their largest number;
- how reading one character, or a run of characters, moves a position.

Does not own: ranges of text, which are spans.
-/

namespace SqlDml

/-- A place in a source text.  The offset counts bytes from 0; line and column count from 1, and the
column counts characters. -/
structure Position where
  offset : Nat
  line : Nat
  column : Nat
deriving DecidableEq, Repr, Inhabited

namespace Position

/-- The first character of every source. -/
def start : Position := ⟨0, 1, 1⟩

/-- How many lines and columns can be told apart: their numbers have 32 bits. -/
def numberCount : Nat := 4294967296

/-- The number of the next line or column.  Behind the largest one comes 0. -/
def nextNumber (number : Nat) : Nat := (number + 1) % numberCount

/-- The place after reading one character.  Only a line feed starts a new line. -/
def advance (position : Position) (char : Char) : Position :=
  if char = '\n' then
    ⟨position.offset + 1, nextNumber position.line, 1⟩
  else
    ⟨position.offset + char.utf8Size, position.line, nextNumber position.column⟩

/-- The place after reading a run of characters. -/
def advanceAll (position : Position) (chars : List Char) : Position :=
  chars.foldl advance position

/-- Positions are shown as `line:column`. -/
def render (position : Position) : String :=
  s!"{position.line}:{position.column}"

@[simp] theorem advanceAll_nil (position : Position) : position.advanceAll [] = position := rfl

@[simp] theorem advanceAll_cons (position : Position) (char : Char) (chars : List Char) :
    position.advanceAll (char :: chars) = (position.advance char).advanceAll chars := rfl

theorem advanceAll_append (position : Position) (left right : List Char) :
    position.advanceAll (left ++ right) = (position.advanceAll left).advanceAll right := by
  simp [advanceAll, List.foldl_append]

end Position

end SqlDml
