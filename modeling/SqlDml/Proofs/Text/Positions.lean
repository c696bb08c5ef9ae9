import SqlDml.Error.Lexical
import SqlDml.Proofs.Text.Bytes
import SqlDml.Proofs.Text.Lines

/-!
Contract: positions against the lines and columns of a text.

Owns:
- what line and column an offset of a text has, counted in the text itself in numbers of any size;
- that reading a text keeps 32 bits of these numbers;
- that no more are needed, but at the end of a source of the full length that is a single line of
  narrow characters, or nothing but line feeds.

Does not own: which positions are told.
-/

namespace SqlDml

open Text

namespace Position

/-! ### Numbers of any size -/

/-- A position is true of a text: in front of its offset there are as many line feeds as whole lines,
and behind the last of them as many characters as whole columns. -/
def TrueOf (position : Position) (source : List Char) : Prop :=
  ∃ before after, source = before ++ after ∧ position.offset = byteCount before ∧
    position.line = 1 + before.count '\n' ∧
    position.column = 1 + (before.rtakeWhile (· != '\n')).length

/-- The position behind a part of a text. -/
def behind (before : List Char) : Position :=
  ⟨byteCount before, 1 + before.count '\n', 1 + (lineBefore before).length⟩

theorem behind_trueOf (before after : List Char) : (behind before).TrueOf (before ++ after) :=
  ⟨before, after, rfl, rfl, rfl, rfl⟩

theorem behind_concat_lineFeed (before : List Char) :
    behind (before ++ ['\n']) = ⟨(behind before).offset + 1, (behind before).line + 1, 1⟩ := by
  unfold behind lineBefore
  rw [List.rtakeWhile_concat_neg _ _ _ (by simp), byteCount_append, List.count_append]
  rfl

theorem behind_concat_inLine {char : Char} (inLine : char ≠ '\n') (before : List Char) :
    behind (before ++ [char]) =
      ⟨(behind before).offset + char.utf8Size, (behind before).line,
        (behind before).column + 1⟩ := by
  unfold behind lineBefore
  rw [List.rtakeWhile_concat_pos _ _ _ (by simpa using inLine), byteCount_append,
    List.count_append, List.count_singleton, List.length_append]
  simp [inLine, Nat.add_assoc]

/-- The end of a source of the full length, behind line feeds alone or in the first line. -/
structure IsFullEnd (position : Position) (source : String) : Prop where
  size : source.utf8ByteSize = maxSourceLength
  offset : position.offset = maxSourceLength
  full : (position.line = numberCount ∧ position.column = 1) ∨
    (position.line = 1 ∧ position.column = numberCount)

variable {position : Position} {source : String}

/-- Each byte in front of a position adds to its line or to its column, and to one of them only. -/
theorem TrueOf.line_add_column_le (trueOf : position.TrueOf source.toList) :
    1 ≤ position.line ∧ 1 ≤ position.column ∧
      position.line + position.column ≤ position.offset + 2 ∧
      position.offset ≤ source.utf8ByteSize := by
  obtain ⟨before, after, split, offset, line, column⟩ := trueOf
  have size : source.utf8ByteSize = byteCount before + byteCount after := by
    rw [utf8ByteSize_eq_byteCount, split, byteCount_append]
  have feeds : before.count '\n' ≤ (linesBefore before).length := by
    rw [← count_linesBefore]
    exact List.count_le_length
  have lengths := congrArg List.length (linesBefore_append_lineBefore before)
  rw [List.length_append] at lengths
  have bytes := length_le_byteCount before
  rw [← lineBefore] at column
  omega

/-! ### Numbers of 32 bits -/

/-- A position of which the numbers of line and column keep 32 bits. -/
def stored (position : Position) : Position :=
  ⟨position.offset, position.line % numberCount, position.column % numberCount⟩

theorem advance_lineFeed (position : Position) :
    position.advance '\n' = ⟨position.offset + 1, nextNumber position.line, 1⟩ := rfl

theorem advance_inLine (position : Position) {char : Char} (inLine : char ≠ '\n') :
    position.advance char =
      ⟨position.offset + char.utf8Size, position.line, nextNumber position.column⟩ := if_neg inLine

/-- Counting on from what is kept of a number gives what is kept of the next one. -/
theorem nextNumber_mod (number : Nat) :
    nextNumber (number % numberCount) = (number + 1) % numberCount := Nat.mod_add_mod _ _ _

/-- Reading a text character by character counts its lines, and the columns of its last line, and
keeps 32 bits of both. -/
theorem advanceAll_start (before : List Char) :
    start.advanceAll before = (behind before).stored := by
  induction before using List.reverseRecOn with
  | nil => rfl
  | append_singleton before char inductionHypothesis =>
      rw [advanceAll_append, inductionHypothesis, advanceAll_cons, advanceAll_nil]
      by_cases lineFeed : char = '\n'
      · subst lineFeed
        rw [behind_concat_lineFeed, advance_lineFeed]
        simp only [stored, nextNumber_mod]
        rfl
      · rw [behind_concat_inLine lineFeed, advance_inLine _ lineFeed]
        simp only [stored, nextNumber_mod]

/-- Of a true position of a source that is not too long 32 bits are all, unless it is the end of a
full one. -/
theorem TrueOf.isFullEnd_or_stored_eq (trueOf : position.TrueOf source.toList)
    (fits : source.utf8ByteSize ≤ maxSourceLength) :
    position.IsFullEnd source ∨ position.stored = position := by
  obtain ⟨line, column, counted, inside⟩ := trueOf.line_add_column_le
  have width : numberCount = maxSourceLength + 1 := rfl
  by_cases small : position.line < numberCount ∧ position.column < numberCount
  · refine .inr ?_
    unfold stored
    rw [Nat.mod_eq_of_lt small.1, Nat.mod_eq_of_lt small.2]
  · refine .inl ⟨?_, ?_, ?_⟩ <;> omega

/-- 32 bits of the number of a line are enough to find the line. -/
theorem lineAt_stored {before after : List Char}
    (fits : byteCount (before ++ after) ≤ maxSourceLength) :
    lineAt ((behind before).stored.line - 1) (before ++ after) =
      lineAt (before.count '\n') (before ++ after) := by
  rw [byteCount_append] at fits
  have feeds : before.count '\n' ≤ before.length := List.count_le_length
  have bytes := length_le_byteCount before
  have width : numberCount = maxSourceLength + 1 := rfl
  by_cases small : before.count '\n' < maxSourceLength
  · have inside : 1 + before.count '\n' < numberCount := by omega
    have told : (behind before).stored.line = 1 + before.count '\n' := Nat.mod_eq_of_lt inside
    rw [told, Nat.add_sub_cancel_left]
  · -- the line behind line feeds alone is empty, like the one that has the number instead
    have all : ∀ char ∈ before, '\n' = char := List.count_eq_length.mp (by omega)
    have nothing : after = [] := by
      by_contra some_
      have positive := byteCount_pos some_
      omega
    have told : (behind before).stored.line = 0 := by
      change (1 + before.count '\n') % numberCount = 0
      rw [show 1 + before.count '\n' = numberCount by omega, Nat.mod_self]
    rw [told, nothing, lineAt_append fun char last => (all char (List.mem_of_getLast? last)).symm]
    cases before with
    | nil => rfl
    | cons char before =>
        obtain rfl := all char List.mem_cons_self
        rfl

/-- The column of a place tells how many characters stand in front of it in its line, unless the line
takes all bytes that a source may have. -/
theorem column_stored {before : List Char} (inside : (lineBefore before).length < maxSourceLength) :
    (behind before).stored.column - 1 = (lineBefore before).length := by
  have width : numberCount = maxSourceLength + 1 := rfl
  have small : 1 + (lineBefore before).length < numberCount := by omega
  have told : (behind before).stored.column = 1 + (lineBefore before).length :=
    Nat.mod_eq_of_lt small
  rw [told, Nat.add_sub_cancel_left]

/-- A position of a source as it is told: a true one in numbers of any size, of which 32 bits are kept.
These are all of it, unless it is the end of a full source. -/
def KeptIn (position : Position) (source : String) : Prop :=
  ∃ exact : Position, exact.TrueOf source.toList ∧ position = exact.stored ∧
    (exact.IsFullEnd source ∨ position = exact)

/-- A place that is reached from the beginning of a source is told so.  In a source that is too long
only the beginning is. -/
theorem keptIn_advanceAll {before after : List Char} (split : source.toList = before ++ after)
    (reached : source.utf8ByteSize ≤ maxSourceLength ∨ before = []) :
    (start.advanceAll before).KeptIn source := by
  have trueOf : (behind before).TrueOf source.toList := split ▸ behind_trueOf before after
  refine ⟨behind before, trueOf, advanceAll_start before, ?_⟩
  rcases reached with fits | rfl
  · rw [advanceAll_start]
    exact trueOf.isFullEnd_or_stored_eq fits
  · exact .inr rfl

theorem KeptIn.offset_le (kept : position.KeptIn source) :
    position.offset ≤ source.utf8ByteSize := by
  obtain ⟨exact_, trueOf, rfl, _⟩ := kept
  exact trueOf.line_add_column_le.2.2.2

/-- A line of blanks is as many columns wide. -/
theorem behind_blanks (count : Nat) :
    behind (List.replicate count ' ') = ⟨count, 1, 1 + count⟩ := by
  have blank : (' ' != '\n') = true := by decide
  have bytes : byteCount (List.replicate count ' ') = count := by
    rw [← utf8ByteSize_ofList, utf8ByteSize_blanks]
  unfold behind lineBefore
  rw [bytes, List.rtakeWhile_eq_self_iff.mpr, List.length_replicate]
  · simp [List.count_replicate]
  · intro char member
    rw [List.eq_of_mem_replicate member]
    exact blank

end Position

end SqlDml
