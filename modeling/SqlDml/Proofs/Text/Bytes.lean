import Mathlib.Algebra.GroupWithZero.Nat
import Mathlib.Data.List.Pairwise
import SqlDml.Source.Position
import SqlDml.Source.Span

/-!
Contract: counting the bytes of a text, and spans that lie one behind the other in it.

Owns:
- the number of bytes of a list of characters, and that it agrees with the size of a string;
- how positions move over a text, and what a cut at a counted offset gives;
- spans that have no byte in common;
- the relation of a text to spans of its parts, in the order of the text and with no overlap;
- parts of such lists, and the text in front of, under and behind one of the spans.

Does not own: what the spans are of.
-/

namespace SqlDml.Text

/-- How many bytes a text takes in UTF-8. -/
def byteCount (chars : List Char) : Nat := (chars.map Char.utf8Size).sum

@[simp] theorem byteCount_nil : byteCount [] = 0 := rfl

@[simp] theorem byteCount_cons (char : Char) (chars : List Char) :
    byteCount (char :: chars) = char.utf8Size + byteCount chars := by
  simp [byteCount]

@[simp] theorem byteCount_append (left right : List Char) :
    byteCount (left ++ right) = byteCount left + byteCount right := by
  simp [byteCount]

/-- Every character takes a byte at least. -/
theorem length_le_byteCount (chars : List Char) : chars.length ≤ byteCount chars := by
  induction chars with
  | nil => simp
  | cons char chars inductionHypothesis =>
      have positive := char.utf8Size_pos
      simp only [List.length_cons, byteCount_cons]
      omega

theorem byteCount_pos {chars : List Char} (nonempty : chars ≠ []) : 0 < byteCount chars :=
  Nat.lt_of_lt_of_le (List.length_pos_iff.mpr nonempty) (length_le_byteCount chars)

theorem utf8ByteSize_ofList (chars : List Char) :
    (String.ofList chars).utf8ByteSize = byteCount chars := by
  induction chars with
  | nil => simp
  | cons char chars inductionHypothesis =>
      have split : String.ofList (char :: chars) = String.singleton char ++ String.ofList chars := by
        apply String.toList_injective
        simp
      rw [split, String.utf8ByteSize_append, String.utf8ByteSize_singleton, inductionHypothesis,
        byteCount_cons]

/-- The size of a string counts the bytes of its characters. -/
theorem utf8ByteSize_eq_byteCount (source : String) :
    source.utf8ByteSize = byteCount source.toList := by
  rw [← utf8ByteSize_ofList, String.ofList_toList]

theorem utf8ByteSize_blanks (count : Nat) :
    (String.ofList (List.replicate count ' ')).utf8ByteSize = count := by
  rw [utf8ByteSize_ofList, byteCount, List.map_replicate, List.sum_replicate_nat]
  exact Nat.mul_one count

/-! ### Cuts -/

/-- A cut at the size of a front part gives back both parts. -/
theorem splitAtByte?_append (front rest : List Char) :
    splitAtByte? (byteCount front) (front ++ rest) = some (front, rest) := by
  induction front with
  | nil => simp [splitAtByte?]
  | cons char front inductionHypothesis =>
      have positive := char.utf8Size_pos
      obtain ⟨count, counted⟩ : ∃ count, char.utf8Size + byteCount front = count + 1 :=
        ⟨char.utf8Size + byteCount front - 1, by omega⟩
      rw [byteCount_cons, List.cons_append, counted, splitAtByte?, if_pos (by omega), ← counted,
        Nat.add_sub_cancel_left, inductionHypothesis]
      rfl

theorem isBoundary_append (front rest : List Char) :
    isBoundary (byteCount front) (front ++ rest) = true := by
  rw [isBoundary, splitAtByte?_append]
  rfl

/-- The text between two counted offsets. -/
theorem sliceBytes?_append (before inside after : List Char) :
    sliceBytes? (byteCount before) (byteCount before + byteCount inside)
      (before ++ (inside ++ after)) = some inside := by
  unfold sliceBytes?
  rw [if_pos (Nat.le_add_right _ _), splitAtByte?_append, Nat.add_sub_cancel_left]
  simp [splitAtByte?_append]

end SqlDml.Text

namespace SqlDml.Position

open SqlDml.Text

theorem advance_offset (position : Position) (char : Char) :
    (position.advance char).offset = position.offset + char.utf8Size := by
  unfold advance
  split
  · next lineFeed => rw [lineFeed]; rfl
  · rfl

@[simp] theorem advanceAll_offset (position : Position) (chars : List Char) :
    (position.advanceAll chars).offset = position.offset + byteCount chars := by
  induction chars generalizing position with
  | nil => rfl
  | cons char chars inductionHypothesis =>
      rw [advanceAll_cons, inductionHypothesis, advance_offset, byteCount_cons, Nat.add_assoc]

end SqlDml.Position

namespace SqlDml

open Text

/-- The spans cover parts of a text that begins at a byte offset, one behind the other.  None of them
is empty. -/
inductive Laid : Nat → List Char → List Span → Prop where
  | nothing (offset : Nat) (chars : List Char) : Laid offset chars []
  | span {offset : Nat} {before inside rest : List Char} {span : Span} {spans : List Span}
      (start : span.start = offset + byteCount before)
      (stop : span.stop = span.start + byteCount inside) (nonempty : inside ≠ [])
      (behind : Laid span.stop rest spans) :
      Laid offset (before ++ (inside ++ rest)) (span :: spans)

/-- Two spans with no byte in common. -/
def Span.Apart (left right : Span) : Prop := left.stop ≤ right.start ∨ right.stop ≤ left.start

namespace Laid

variable {offset : Nat} {chars : List Char} {spans : List Span}

/-- More text in front moves no span. -/
theorem extend {front : List Char} (laid : Laid (offset + byteCount front) chars spans) :
    Laid offset (front ++ chars) spans := by
  cases laid with
  | nothing => exact .nothing _ _
  | span start stop nonempty behind =>
      rw [← List.append_assoc]
      refine .span ?_ stop nonempty behind
      rw [start, byteCount_append, Nat.add_assoc]

/-- Some of the spans lie in the text in the same way. -/
theorem sublist {some : List Span} (laid : Laid offset chars spans) (part : some.Sublist spans) :
    Laid offset chars some := by
  induction laid generalizing some with
  | nothing offset chars =>
      rw [List.sublist_nil.mp part]
      exact .nothing _ _
  | @span offset before inside rest span spans start stop nonempty behind inductionHypothesis =>
      cases part with
      | cons _ part =>
          have later := inductionHypothesis part
          rw [stop, start] at later
          exact later.extend.extend
      | cons_cons _ part => exact .span start stop nonempty (inductionHypothesis part)

theorem bounds (laid : Laid offset chars spans) {span : Span} (member : span ∈ spans) :
    offset ≤ span.start ∧ span.start < span.stop ∧ span.stop ≤ offset + byteCount chars := by
  induction laid with
  | nothing => cases member
  | @span offset before inside rest first spans start stop nonempty _ inductionHypothesis =>
      have positive := byteCount_pos nonempty
      rw [byteCount_append, byteCount_append]
      rcases List.mem_cons.mp member with rfl | member
      · omega
      · have later := inductionHypothesis member
        omega

/-- Each span ends before the next one begins. -/
theorem pairwise (laid : Laid offset chars spans) :
    spans.Pairwise fun left right => left.stop ≤ right.start := by
  induction laid with
  | nothing => exact .nil
  | span _ _ _ behind inductionHypothesis =>
      exact .cons (fun later member => (behind.bounds member).1) inductionHypothesis

/-- The spans begin at different places, in order. -/
theorem starts (laid : Laid offset chars spans) :
    spans.Pairwise fun left right => left.start < right.start := by
  refine laid.pairwise.imp_of_mem fun leftMember _ apart => ?_
  exact Nat.lt_of_lt_of_le (laid.bounds leftMember).2.1 apart

theorem nodup (laid : Laid offset chars spans) : spans.Nodup := by
  refine laid.starts.imp fun before => ?_
  rintro rfl
  exact Nat.lt_irrefl _ before

/-- One place belongs to one span. -/
theorem eq_of_start {left right : Span} (laid : Laid offset chars spans)
    (leftMember : left ∈ spans) (rightMember : right ∈ spans) (same : left.start = right.start) :
    left = right := by
  have apart : spans.Pairwise fun left right => left.start = right.start → left = right :=
    laid.starts.imp fun before same => absurd same (Nat.ne_of_lt before)
  have : Std.Symm fun left right : Span => left.start = right.start → left = right :=
    ⟨fun _ _ equal same => (equal same.symm).symm⟩
  exact apart.forall_of_forall (fun _ _ _ => rfl) leftMember rightMember same

/-- A span cuts the text in three, with the spans before it in front and the others behind. -/
theorem split {front back : List Span} {span : Span}
    (laid : Laid offset chars (front ++ span :: back)) :
    ∃ before inside after, chars = before ++ (inside ++ after) ∧
      span.start = offset + byteCount before ∧ span.stop = span.start + byteCount inside ∧
      Laid offset before front ∧ Laid span.start (inside ++ after) (span :: back) ∧
      Laid span.stop after back := by
  induction front generalizing offset chars with
  | nil =>
      cases laid with
      | span start stop nonempty behind =>
          have first : span.start = span.start + byteCount [] := (Nat.add_zero _).symm
          exact ⟨_, _, _, rfl, start, stop, .nothing _ _, .span first stop nonempty behind, behind⟩
  | cons first front inductionHypothesis =>
      cases laid with
      | @span _ skipped taken rest _ _ firstStart firstStop nonempty behind =>
          obtain ⟨before, inside, after, rfl, start, stop, laidFront, laidBack⟩ :=
            inductionHypothesis behind
          refine ⟨skipped ++ (taken ++ before), inside, after, by simp, ?_, stop, ?_, laidBack⟩
          · rw [start, firstStop, firstStart, byteCount_append, byteCount_append]
            omega
          · exact .span firstStart firstStop nonempty laidFront

/-- There is text under each span. -/
theorem slice? {span : Span} (laid : Laid 0 chars spans) (member : span ∈ spans) :
    ∃ text, span.slice? chars = some text := by
  obtain ⟨front, back, rfl⟩ := List.append_of_mem member
  obtain ⟨before, inside, after, rfl, start, stop, _⟩ := laid.split
  rw [Nat.zero_add] at start
  refine ⟨inside, ?_⟩
  rw [Span.slice?, stop, start]
  exact sliceBytes?_append before inside after

end Laid

end SqlDml
