import SqlDml.Source.Position
import SqlDml.Text.Cut

/-!
Contract: ranges of a source text.

Owns:
- a span as a byte range with the line and column of its first character;
- merging two spans, and the text that a span covers.

Does not own: the text itself.
-/

namespace SqlDml

/-- A byte range of a source text, with the line and column of its first character.  `stop` is the
offset just past the last byte. -/
structure Span where
  start : Nat
  stop : Nat
  line : Nat
  column : Nat
deriving DecidableEq, Repr, Inhabited

namespace Span

/-- The span of a node that no text stands for. -/
def zero : Span := ⟨0, 0, 0, 0⟩

/-- The span from one position to the offset of another. -/
def between (first : Position) (stop : Position) : Span :=
  ⟨first.offset, stop.offset, first.line, first.column⟩

/-- The empty span at a position. -/
def emptyAt (position : Position) : Span := between position position

/-- Where a span begins. -/
def position (span : Span) : Position := ⟨span.start, span.line, span.column⟩

/-- The least span that covers two spans.  Line and column follow the one that begins first, the
left one if both begin together. -/
def merge (left right : Span) : Span :=
  if left.start ≤ right.start then
    ⟨left.start, max left.stop right.stop, left.line, left.column⟩
  else
    ⟨right.start, max right.stop left.stop, right.line, right.column⟩

/-- Length in bytes. -/
def length (span : Span) : Nat := span.stop - span.start

def isEmpty (span : Span) : Bool := span.start == span.stop

/-- The characters under a span, if both its ends are character boundaries of the text. -/
def slice? (span : Span) (chars : List Char) : Option (List Char) :=
  Text.sliceBytes? span.start span.stop chars

/-- Spans are shown as `start..stop`. -/
def render (span : Span) : String := s!"{span.start}..{span.stop}"

end Span

end SqlDml
