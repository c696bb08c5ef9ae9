import SqlDml.Source.Span

/-!
Contract: replacing parts of a text.

Owns:
- a splice as a span and the text to put there;
- when splices can be applied together, and why not otherwise;
- the text after all splices.

Does not own: which parts of a statement are replaced.
-/

namespace SqlDml

/-- The text to put in place of what a span covers. -/
structure Splice where
  span : Span
  replacement : String
deriving DecidableEq, Repr

/-- Why splices cannot be applied together. -/
inductive SpliceError where
  | outOfBounds (span : Span) (length : Nat)
  | notCharBoundary (span : Span)
  | overlap (first second : Span)
deriving DecidableEq, Repr

/-- The wording of a failure. -/
def SpliceError.message : SpliceError → String
  | .outOfBounds span length => s!"splice {span.render} lies outside the {length}-byte source"
  | .notCharBoundary span => s!"splice {span.render} does not fall on character boundaries"
  | .overlap first second => s!"splices {first.render} and {second.render} overlap"

namespace Splice

/-- Whether a splice comes before another one, or at the same place. -/
def notAfter (left right : Splice) : Bool :=
  left.span.start < right.span.start ||
    (left.span.start == right.span.start && left.span.stop ≤ right.span.stop)

/-- Puts a splice into an ordered list, in front of those at the same place. -/
def insert (splice : Splice) : List Splice → List Splice
  | [] => [splice]
  | head :: tail =>
      if splice.notAfter head then splice :: head :: tail else head :: insert splice tail

/-- Splices in the order of their places.  Those at the same place keep their order. -/
def sort (splices : List Splice) : List Splice := splices.foldr insert []

/-- Checks one splice against the text and against the span before it. -/
def check (length : Nat) (chars : List Char) (previous : Option Span) (span : Span) :
    Except SpliceError Unit :=
  if span.stop < span.start ∨ length < span.stop then
    .error (.outOfBounds span length)
  else if !(Text.isBoundary span.start chars && Text.isBoundary span.stop chars) then
    .error (.notCharBoundary span)
  else
    match previous with
    | some first => if span.start < first.stop then .error (.overlap first span) else .ok ()
    | none => .ok ()

/-- Checks ordered splices from left to right. -/
def checkAll (length : Nat) (chars : List Char) : Option Span → List Splice →
    Except SpliceError Unit
  | _, [] => .ok ()
  | previous, splice :: splices => do
      check length chars previous splice.span
      checkAll length chars (some splice.span) splices

/-- The two parts of a text around a byte offset; all of it is in front when there is no cut. -/
def cut (offset : Nat) (chars : List Char) : List Char × List Char :=
  (Text.splitAtByte? offset chars).getD (chars, [])

/-- Applies ordered splices to the text that begins at the byte offset `cursor`. -/
def applyFrom : (cursor : Nat) → List Char → List Splice → List Char
  | _, chars, [] => chars
  | cursor, chars, splice :: splices =>
      let front := cut (splice.span.start - cursor) chars
      let back := cut (splice.span.stop - splice.span.start) front.2
      front.1 ++ splice.replacement.toList ++ applyFrom splice.span.stop back.2 splices

end Splice

/-- Applies splices, given in any order, to a text. -/
def applySplices (source : String) (splices : List Splice) : Except SpliceError String := do
  let ordered := Splice.sort splices
  Splice.checkAll source.utf8ByteSize source.toList none ordered
  return String.ofList (Splice.applyFrom 0 source.toList ordered)

end SqlDml
