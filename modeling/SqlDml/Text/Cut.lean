/-!
Contract: cutting a text that is held as a list of characters.

Owns:
- cutting at a byte offset, which succeeds only on a character boundary, and the part of a text
  between two byte offsets;
- the parts of a text before and after the first occurrence of a character;
- the lines of a text, each without its line ending.

Does not own: positions of tokens, and their line numbers, which count line feeds alone.
-/

namespace SqlDml.Text

/-! ### At a byte offset -/

/-- Cuts a text after `count` bytes.  There is no cut inside a character and none past the end. -/
def splitAtByte? : Nat → List Char → Option (List Char × List Char)
  | 0, chars => some ([], chars)
  | _ + 1, [] => none
  | count + 1, char :: chars =>
      if char.utf8Size ≤ count + 1 then
        (splitAtByte? (count + 1 - char.utf8Size) chars).map fun cut =>
          (char :: cut.1, cut.2)
      else
        none

/-- Whether a byte offset lies between two characters, or at either end of the text. -/
def isBoundary (offset : Nat) (chars : List Char) : Bool :=
  (splitAtByte? offset chars).isSome

/-- The text between two byte offsets, when both are boundaries in order. -/
def sliceBytes? (start stop : Nat) (chars : List Char) : Option (List Char) :=
  if start ≤ stop then
    (splitAtByte? start chars).bind fun before =>
      (splitAtByte? (stop - start) before.2).map Prod.fst
  else
    none

/-- A cut loses nothing. -/
theorem append_of_splitAtByte? {count : Nat} {chars : List Char}
    {before after : List Char} (cut : splitAtByte? count chars = some (before, after)) :
    before ++ after = chars := by
  fun_induction splitAtByte? count chars generalizing before with
  | case1 chars => simp_all
  | case2 => simp at cut
  | case3 count char chars fits inductionHypothesis =>
      simp only [Option.map_eq_some_iff, Prod.mk.injEq] at cut
      obtain ⟨⟨left, right⟩, inner, rfl, rfl⟩ := cut
      simp [inductionHypothesis inner]
  | case4 => simp at cut

/-! ### At a character -/

/-- The text before and the text after the first occurrence of a character, if it occurs. -/
def cutAt? (mark : Char) : List Char → Option (List Char × List Char)
  | [] => none
  | char :: rest =>
      if char = mark then some ([], rest)
      else (cutAt? mark rest).map fun cut => (char :: cut.1, cut.2)

/-- A cut is at the first occurrence. -/
theorem cutAt?_eq_some_iff {mark : Char} {chars before after : List Char} :
    cutAt? mark chars = some (before, after) ↔
      chars = before ++ mark :: after ∧ mark ∉ before := by
  induction chars generalizing before with
  | nil => simp [cutAt?]
  | cons char rest inductionHypothesis =>
      by_cases isMark : char = mark
      · cases before <;> simp_all [cutAt?]
      · cases before with
        | nil => simp_all [cutAt?]
        | cons head tail =>
            simp only [cutAt?, isMark, if_false, Option.map_eq_some_iff, Prod.mk.injEq,
              List.cons.injEq, List.cons_append, List.mem_cons, not_or]
            constructor
            · rintro ⟨⟨left, right⟩, cut, ⟨rfl, rfl⟩, rfl⟩
              have found := inductionHypothesis.mp cut
              exact ⟨⟨rfl, found.1⟩, Ne.symm isMark, found.2⟩
            · rintro ⟨⟨rfl, split⟩, -, absent⟩
              exact ⟨(tail, after), inductionHypothesis.mpr ⟨split, absent⟩, ⟨rfl, rfl⟩, rfl⟩

/-! ### Into lines -/

/-- A line without the carriage return that may stand before its line feed. -/
def dropCarriageReturn (line : List Char) : List Char :=
  if line.getLast? = some '\r' then line.dropLast else line

/-- The lines of a text.  A line ends with a line feed, perhaps after a carriage return; a text that
ends with a line feed has no further line, and the last line keeps its carriage return when no line
feed follows. -/
def lines (chars : List Char) : List (List Char) :=
  go [] chars
where
  /-- `current` holds the characters of the open line, last one first. -/
  go (current : List Char) : List Char → List (List Char)
    | [] => if current.isEmpty then [] else [current.reverse]
    | char :: rest =>
        if char = '\n' then dropCarriageReturn current.reverse :: go [] rest
        else go (char :: current) rest

/-- The line with the given index, empty when the text has no such line. -/
def lineAt (index : Nat) (chars : List Char) : List Char :=
  ((lines chars)[index]?).getD []

end SqlDml.Text
