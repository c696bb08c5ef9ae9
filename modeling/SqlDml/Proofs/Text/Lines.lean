import Mathlib.Data.List.DropRight
import SqlDml.Lexer.CharClass
import SqlDml.Text.Cut

/-!
Contract: the line of a text that a place lies in.

Owns:
- a line of a text, apart from its ending and from what stands in front of it and behind it;
- the line with the number of line feeds in front of a place, which is the line of the place;
- that a place in front of no blank lies in its line, and not in the ending of the line.

Does not own: positions, which number lines and columns.
-/

namespace SqlDml.Text

/-- A line of a text between what stands in front of it and behind it.  It ends with a line feed,
perhaps after a carriage return, or where the text ends. -/
structure LineOf (chars front line ending back : List Char) : Prop where
  split : chars = front ++ (line ++ ending ++ back)
  begins : ∀ char ∈ front.getLast?, char = '\n'
  inLine : '\n' ∉ line
  ends : ending = ['\r', '\n'] ∨ (ending = ['\n'] ∧ line.getLast? ≠ some '\r') ∨
    (ending = [] ∧ back = [])

/-! ### Lines from the front -/

/-- A line feed ends the line that is open. -/
theorem lines_go_append (current : List Char) {line : List Char} (inLine : '\n' ∉ line)
    (rest : List Char) :
    lines.go current (line ++ '\n' :: rest) =
      dropCarriageReturn (current.reverse ++ line) :: lines rest := by
  induction line generalizing current with
  | nil => simp [lines.go, lines]
  | cons char line inductionHypothesis =>
      have other : char ≠ '\n' := fun same => inLine (same ▸ List.mem_cons_self)
      have behind : '\n' ∉ line := fun member => inLine (List.mem_cons_of_mem _ member)
      rw [List.cons_append, lines.go, if_neg other, inductionHypothesis _ behind]
      simp

/-- The last line of a text keeps all its characters. -/
theorem lines_go_last (current : List Char) {line : List Char} (inLine : '\n' ∉ line) :
    ((lines.go current line)[0]?).getD [] = current.reverse ++ line := by
  induction line generalizing current with
  | nil => cases current <;> simp [lines.go]
  | cons char line inductionHypothesis =>
      have other : char ≠ '\n' := fun same => inLine (same ▸ List.mem_cons_self)
      have behind : '\n' ∉ line := fun member => inLine (List.mem_cons_of_mem _ member)
      rw [lines.go, if_neg other, inductionHypothesis _ behind]
      simp

/-- Behind a line feed stand the lines of the rest, as many lines further as there are line feeds. -/
theorem drop_lines_go (current front rest : List Char) :
    (lines.go current (front ++ '\n' :: rest)).drop (front.count '\n' + 1) = lines rest := by
  induction front generalizing current with
  | nil => simp [lines.go, lines]
  | cons char front inductionHypothesis =>
      rw [List.cons_append, lines.go]
      split
      · next lineFeed =>
          subst lineFeed
          rw [List.count_cons_self, List.drop_succ_cons, inductionHypothesis]
      · next other => rw [List.count_cons_of_ne other, inductionHypothesis]

/-- Behind whole lines the lines are counted anew. -/
theorem lineAt_append {front : List Char} (begins : ∀ char ∈ front.getLast?, char = '\n')
    (rest : List Char) : lineAt (front.count '\n') (front ++ rest) = lineAt 0 rest := by
  induction front using List.reverseRecOn with
  | nil => rfl
  | append_singleton front char _ =>
      obtain rfl : char = '\n' := begins char (by simp)
      have behind := congrArg (fun lines => lines[0]?) (drop_lines_go [] front rest)
      simp only [List.getElem?_drop, Nat.add_zero] at behind
      rw [List.append_assoc, List.singleton_append, List.count_append, List.count_singleton_self]
      unfold lineAt
      rw [lines, behind]

/-- The first line of a text and its ending. -/
theorem exists_first_line {body : List Char} (inLine : '\n' ∉ body) (tail : List Char)
    (ends : ∀ char ∈ tail.head?, char = '\n') :
    ∃ line ending back, LineOf (body ++ tail) [] line ending back ∧ body <+: line ++ ending ∧
      lineAt 0 (body ++ tail) = line := by
  cases tail with
  | nil =>
      refine ⟨body, [], [], ⟨by simp, by simp, inLine, .inr (.inr ⟨rfl, rfl⟩)⟩, by simp, ?_⟩
      rw [List.append_nil]
      exact lines_go_last [] inLine
  | cons char back =>
      obtain rfl : char = '\n' := ends char (by simp)
      have first : lineAt 0 (body ++ '\n' :: back) = dropCarriageReturn body :=
        congrArg (fun lines => (lines[0]?).getD []) (lines_go_append [] inLine back)
      rw [first]
      by_cases returns : body.getLast? = some '\r'
      · obtain ⟨line, rfl⟩ := List.getLast?_eq_some_iff.mp returns
        refine ⟨line, ['\r', '\n'], back, ⟨by simp, by simp, ?_, .inl rfl⟩, ⟨['\n'], by simp⟩, ?_⟩
        · exact fun member => inLine (List.mem_append_left _ member)
        · simp [dropCarriageReturn]
      · refine ⟨body, ['\n'], back, ⟨by simp, by simp, inLine, .inr (.inl ⟨rfl, returns⟩)⟩,
          List.prefix_append _ _, ?_⟩
        rw [dropCarriageReturn, if_neg returns]

/-! ### The line of a place -/

/-- The whole lines in front of a place. -/
def linesBefore (before : List Char) : List Char := before.rdropWhile (· != '\n')

/-- What stands in front of a place in its line. -/
def lineBefore (before : List Char) : List Char := before.rtakeWhile (· != '\n')

theorem linesBefore_append_lineBefore (before : List Char) :
    linesBefore before ++ lineBefore before = before := List.rdropWhile_append_rtakeWhile

theorem lineFeed_notMem_lineBefore (before : List Char) : '\n' ∉ lineBefore before := by
  intro member
  simpa using List.mem_rtakeWhile_imp member

theorem getLast?_linesBefore (before : List Char) :
    ∀ char ∈ (linesBefore before).getLast?, char = '\n' := by
  intro char last
  have nonempty : linesBefore before ≠ [] := by
    intro nothing
    simp [nothing] at last
  have stopped := List.rdropWhile_last_not (· != '\n') before nonempty
  rw [List.getLast?_eq_some_getLast nonempty] at last
  cases last
  simpa [linesBefore] using stopped

theorem count_linesBefore (before : List Char) :
    (linesBefore before).count '\n' = before.count '\n' := by
  have inLine := List.count_eq_zero.mpr (lineFeed_notMem_lineBefore before)
  have split := congrArg (List.count '\n') (linesBefore_append_lineBefore before)
  rw [List.count_append, inLine, Nat.add_zero] at split
  exact split

/-- The line whose number counts the line feeds in front of a place is the line of the place. -/
theorem exists_line (before after : List Char) :
    ∃ line ending back, LineOf (before ++ after) (linesBefore before) line ending back ∧
      lineBefore before <+: line ++ ending ∧
      lineAt (before.count '\n') (before ++ after) = line := by
  have inLine : '\n' ∉ lineBefore before ++ after.takeWhile (· != '\n') := by
    rw [List.mem_append, not_or]
    refine ⟨lineFeed_notMem_lineBefore before, fun member => ?_⟩
    simpa using List.mem_takeWhile_imp member
  have ends : ∀ char ∈ (after.dropWhile (· != '\n')).head?, char = '\n' := by
    intro char first
    have stopped := List.head?_dropWhile_not (· != '\n') after
    rw [first] at stopped
    simpa using stopped
  obtain ⟨line, ending, back, first, shown, number⟩ := exists_first_line inLine _ ends
  have rest : lineBefore before ++ after.takeWhile (· != '\n') ++ after.dropWhile (· != '\n') =
      lineBefore before ++ after := by
    rw [List.append_assoc, List.takeWhile_append_dropWhile]
  have whole : before ++ after = linesBefore before ++ (lineBefore before ++ after) := by
    rw [← List.append_assoc, linesBefore_append_lineBefore]
  rw [rest] at first number
  refine ⟨line, ending, back, ⟨?_, getLast?_linesBefore before, first.inLine, first.ends⟩,
    (List.prefix_append _ _).trans shown, ?_⟩
  · rw [whole, first.split, List.nil_append]
  · rw [← count_linesBefore, whole, lineAt_append (getLast?_linesBefore before), number]

/-- The first character of a text is in its first line, unless it belongs to a line ending. -/
theorem LineOf.head?_eq_iff {chars line ending back : List Char}
    (line_ : LineOf chars [] line ending back) (some_ : chars ≠ []) :
    line.head? = chars.head? ↔ ¬ (['\n'] <+: chars ∨ ['\r', '\n'] <+: chars) := by
  have split := line_.split
  rw [List.nil_append] at split
  cases line with
  | nil =>
      have begins : ['\n'] <+: chars ∨ ['\r', '\n'] <+: chars := by
        rcases line_.ends with rfl | ⟨rfl, _⟩ | ⟨rfl, rfl⟩
        · exact .inr ⟨back, split.symm⟩
        · exact .inl ⟨back, split.symm⟩
        · exact absurd split some_
      refine iff_of_false (fun same => ?_) (not_not.mpr begins)
      exact some_ (List.head?_eq_none_iff.mp same.symm)
  | cons char line =>
      have inLine := line_.inLine
      simp only [List.mem_cons, not_or] at inLine
      refine iff_of_true (by rw [split]; rfl) ?_
      rw [split]
      rintro (⟨_, begins⟩ | ⟨_, begins⟩)
      · exact inLine.1 (List.cons.inj begins).1
      · -- a line feed behind the first character would end the line behind a carriage return
        obtain ⟨rfl, behind⟩ := List.cons.inj begins
        cases line with
        | nil =>
            rcases line_.ends with rfl | ⟨rfl, apart⟩ | ⟨rfl, rfl⟩
            · cases (List.cons.inj behind).1
            · exact apart rfl
            · cases behind
        | cons second line => exact inLine.2 ((List.cons.inj behind).1 ▸ List.mem_cons_self)

/-- What follows a place in front of no blank follows it in its line: the same character, or the end
of the line where the text ends. -/
theorem LineOf.shows_of_visible {before after line ending back : List Char}
    (line_ : LineOf (before ++ after) (linesBefore before) line ending back)
    (visible : ∀ char ∈ after.head?, isBlank char = false) :
    (line.drop (lineBefore before).length).head? = after.head? ∧
      (after = [] → lineBefore before = line) := by
  have whole := line_.split
  rw [← linesBefore_append_lineBefore before, List.append_assoc,
    linesBefore_append_lineBefore before, List.append_assoc] at whole
  have inLine := lineFeed_notMem_lineBefore before
  -- the place is in the line, at its end, or inside its ending
  rcases List.append_eq_append_iff.mp (List.append_cancel_left whole) with
    ⟨more, shown, behind⟩ | ⟨more, shown, behind⟩
  · cases more with
    | cons char more => exact ⟨by simp [shown, behind], by simp [behind]⟩
    | nil =>
        have same : lineBefore before = line := by simpa using shown.symm
        rcases line_.ends with rfl | ⟨rfl, _⟩ | ⟨rfl, rfl⟩
        · cases visible '\r' (by simp [behind])
        · cases visible '\n' (by simp [behind])
        · exact ⟨by simp [same, behind], fun _ => same⟩
  · rw [shown, List.mem_append, not_or] at inLine
    rcases line_.ends with rfl | ⟨rfl, _⟩ | ⟨rfl, rfl⟩
    · rcases more with _ | ⟨first, _ | ⟨second, more⟩⟩
      · obtain rfl : after = '\r' :: '\n' :: back := behind.symm
        cases visible '\r' rfl
      · obtain rfl : after = '\n' :: back := (List.cons.inj behind).2.symm
        cases visible '\n' rfl
      · obtain rfl : '\n' = second := (List.cons.inj (List.cons.inj behind).2).1
        exact absurd (by simp) inLine.2
    · rcases more with _ | ⟨first, more⟩
      · obtain rfl : after = '\n' :: back := behind.symm
        cases visible '\n' rfl
      · obtain rfl : '\n' = first := (List.cons.inj behind).1
        exact absurd (by simp) inLine.2
    · obtain ⟨rfl, rfl⟩ := List.append_eq_nil_iff.mp behind.symm
      have same : lineBefore before = line := by simpa using shown
      exact ⟨by simp [same], fun _ => same⟩

end SqlDml.Text
