import SqlDml.Proofs.Lexing.Sliced
import SqlDml.Proofs.Parsing.Entry

/-!
Contract: the tokens of a source tile it.

Owns:
- what may stand between two tokens: blanks and whole comments, told by their characters alone;
- that the trivia a lexer skips is such a gap;
- the places of all tokens of a source, with the gaps between them.

Does not own: what the text under a token spells.
-/

namespace SqlDml

open Text

/-! ### Gaps -/

/-- The rest of a line in front of a text: all up to the first line feed, or all there is. -/
inductive LineEnd : List Char → List Char → Prop where
  | lineFeed {inside : List Char} (within : '\n' ∉ inside) (behind : List Char) :
      LineEnd (inside ++ ['\n']) behind
  | ended {inside : List Char} (within : '\n' ∉ inside) : LineEnd inside []

/-- One blank, or one whole comment, in front of a text. -/
inductive Filler : List Char → List Char → Prop where
  | blank {char : Char} (blank : isBlank char = true) (behind : List Char) : Filler [char] behind
  | hash {line behind : List Char} (ends : LineEnd line behind) : Filler ('#' :: line) behind
  | dashes {line behind : List Char} (ends : LineEnd line behind)
      (spaced : ∀ next ∈ line.head?, next.toNat ≤ 0x20) : Filler ('-' :: '-' :: line) behind
  | block {inside : List Char} (open_ : ¬ ['*', '/'] <:+: inside) (behind : List Char) :
      Filler ('/' :: '*' :: (inside ++ ['*', '/'])) behind

/-- Blanks and whole comments, one behind the other, in front of a text. -/
inductive Gap : List Char → List Char → Prop where
  | nothing (behind : List Char) : Gap [] behind
  | filler {first others behind : List Char} (filler : Filler first (others ++ behind))
      (gap : Gap others behind) : Gap (first ++ others) behind

namespace Trivia

theorem lineEnd_splitLine (chars : List Char) :
    LineEnd (splitLine chars).1 (splitLine chars).2 := by
  have within : '\n' ∉ chars.takeWhile (· != '\n') := fun member => by
    simpa using takeWhile_holds (· != '\n') chars _ member
  have stopped := dropWhile_ends (· != '\n') chars
  unfold splitLine
  split
  · exact .ended within
  · next lineFeed rest found =>
      rw [found] at stopped
      obtain rfl : lineFeed = '\n' := by simpa using stopped
      exact .lineFeed within rest

/-- Any character but a line feed at the front of a line belongs to the line. -/
theorem splitLine_cons {char : Char} (chars : List Char) (inLine : char ≠ '\n') :
    splitLine (char :: chars) = (char :: (splitLine chars).1, (splitLine chars).2) := by
  have keeps : (char != '\n') = true := by simpa using inLine
  unfold splitLine
  rw [List.takeWhile_cons, List.dropWhile_cons, if_pos keeps, if_pos keeps]
  split <;> rfl

/-- What is cut off behind the opening of a comment ends with the first end of comment. -/
theorem splitComment?_closes {chars inside rest : List Char}
    (cut : splitComment? chars = some (inside, rest)) :
    ∃ before, inside = before ++ ['*', '/'] ∧ ¬ ['*', '/'] <:+: before := by
  fun_induction splitComment? chars generalizing inside with
  | case1 => cases cut
  | case2 after =>
      simp only [Option.some.injEq, Prod.mk.injEq] at cut
      exact ⟨[], cut.1.symm, by simp⟩
  | case3 char chars open_ inductionHypothesis =>
      simp only [Option.map_eq_some_iff, Prod.mk.injEq] at cut
      obtain ⟨⟨left, right⟩, inner, rfl, rfl⟩ := cut
      obtain ⟨before, rfl, apart⟩ := inductionHypothesis inner
      refine ⟨char :: before, rfl, fun inside => ?_⟩
      rcases List.infix_cons_iff.mp inside with ⟨after, same⟩ | later
      · -- a star and a slash at the front would have ended the comment there
        obtain ⟨rfl, rfl⟩ := List.cons.inj same
        exact open_ _ rfl (splitComment?_append inner).symm
      · exact apart later

end Trivia

theorem Gap.append {left right behind : List Char} (front : Gap left (right ++ behind))
    (back : Gap right behind) : Gap (left ++ right) behind := by
  generalize joined : right ++ behind = rest at front
  induction front with
  | nothing => exact back
  | filler filler _ inductionHypothesis =>
      subst joined
      rw [List.append_assoc]
      exact .filler (by rwa [List.append_assoc]) (inductionHypothesis rfl)

theorem Filler.gap {chars behind : List Char} (filler : Filler chars behind) : Gap chars behind := by
  have alone : Gap (chars ++ []) behind := .filler filler (.nothing behind)
  rwa [List.append_nil] at alone

theorem Gap.blanks {chars : List Char} (blank : ∀ char ∈ chars, isBlank char = true)
    (behind : List Char) : Gap chars behind := by
  induction chars with
  | nil => exact .nothing behind
  | cons char chars inductionHypothesis =>
      exact .filler (.blank (blank char List.mem_cons_self) _)
        (inductionHypothesis fun other later => blank other (List.mem_cons_of_mem _ later))

namespace Trivia

/-- A piece of trivia is a run of blanks or one whole comment. -/
theorem gap_of_first {chars taken rest : List Char} (found : first chars = .piece taken rest) :
    Gap taken rest := by
  fun_cases first chars with
  | case1 => simp [first] at found
  | case2 line =>
      simp only [first, lineComment, splitLine_cons _ (show '#' ≠ '\n' by decide),
        piece.injEq] at found
      obtain ⟨rfl, rfl⟩ := found
      exact (Filler.hash (lineEnd_splitLine line)).gap
  | case3 line opens =>
      simp only [first, opens, if_true, lineComment,
        splitLine_cons _ (show '-' ≠ '\n' by decide), piece.injEq] at found
      obtain ⟨rfl, rfl⟩ := found
      refine (Filler.dashes (lineEnd_splitLine line) fun next heads => ?_).gap
      have joined := splitLine_append line
      cases front : (splitLine line).1 with
      | nil =>
          rw [front] at heads
          cases heads
      | cons char others =>
          rw [front] at heads joined
          obtain rfl := Option.some.inj heads
          rw [← joined] at opens
          simpa [opensLineComment] using opens
  | case4 line opens => simp [first, opens] at found
  | case5 comment inside after cut =>
      simp only [first, cut, piece.injEq] at found
      obtain ⟨rfl, rfl⟩ := found
      obtain ⟨before, rfl, apart⟩ := splitComment?_closes cut
      exact (Filler.block apart after).gap
  | case6 comment cut => simp [first, cut] at found
  | case7 char others noHash noDashes noComment blank =>
      rw [first.eq_5 _ _ noHash noDashes noComment, if_pos blank] at found
      simp only [piece.injEq] at found
      obtain ⟨rfl, rfl⟩ := found
      exact Gap.blanks (takeWhile_holds isBlank _) _
  | case8 char others noHash noDashes noComment blank =>
      rw [first.eq_5 _ _ noHash noDashes noComment, if_neg blank] at found
      simp at found

/-- Skipped trivia is a gap. -/
theorem Run.gap {trivia rest : List Char} (run : Run trivia rest) : Gap trivia rest := by
  induction run with
  | nothing rest => exact .nothing rest
  | piece found _ inductionHypothesis => exact (gap_of_first found).append inductionHypothesis

end Trivia

/-! ### Tilings -/

/-- Where a list of tokens ends. -/
def stopOf (tokens : List Token) : Nat := (tokens.getLast?.map (·.span.stop)).getD 0

/-- Tokens with an end of input behind them tile a source.  They lie in it one behind the other, each
over a part of it that is not empty, and only gaps are left in front of, between and behind them. -/
structure Tiling (source : String) (inner : List Token) (stop : Token) : Prop where
  unended : ∀ token ∈ inner, token.kind ≠ .endOfInput
  stops : stop.kind = .endOfInput
  ended : stop.span.start = source.utf8ByteSize ∧ stop.span.stop = source.utf8ByteSize
  nonempty : ∀ token ∈ inner, token.span.start < token.span.stop
  boundaries : ∀ token ∈ inner, isBoundary token.span.start source.toList = true ∧
    isBoundary token.span.stop source.toList = true
  ordered : inner.Pairwise fun left right => left.span.stop ≤ right.span.start
  gaps : ∀ front token back, inner ++ [stop] = front ++ token :: back →
    ∃ before gap behind, source.toList = before ++ (gap ++ behind) ∧
      byteCount before = stopOf front ∧ byteCount (before ++ gap) = token.span.start ∧
      Gap gap behind

namespace Laid

/-- Both ends of each span are boundaries of the text. -/
theorem boundaries {chars : List Char} {spans : List Span} (laid : Laid 0 chars spans)
    {span : Span} (member : span ∈ spans) :
    isBoundary span.start chars = true ∧ isBoundary span.stop chars = true := by
  obtain ⟨front, back, rfl⟩ := List.append_of_mem member
  obtain ⟨before, inside, after, rfl, start, stop, _⟩ := laid.split
  rw [Nat.zero_add] at start
  constructor
  · rw [start]
    exact isBoundary_append before _
  · rw [stop, start, ← byteCount_append, ← List.append_assoc]
    exact isBoundary_append (before ++ inside) after

end Laid

namespace Item

variable {settings : Settings} {items front back : List Item} {item : Item}

/-- A sequence of items ends with the end of its text, and nowhere else. -/
theorem Sequence.ends (sequence : Sequence settings items) :
    ∃ front last, items = front ++ [last] ∧ (∀ item ∈ front, item.kind ≠ .endOfInput) ∧
      last.kind = .endOfInput ∧ last.text = [] := by
  induction sequence with
  | ended read stops => exact ⟨[], _, rfl, by simp, stops, (read.ended stops).1⟩
  | inner _ inner _ inductionHypothesis =>
      obtain ⟨front, last, rfl, inside, stops, text⟩ := inductionHypothesis
      exact ⟨_ :: front, last, rfl, List.forall_mem_cons.mpr ⟨inner, inside⟩, stops, text⟩

theorem stopOf_placeAll (items : List Item) :
    stopOf (placeAll Position.start items) = byteCount (charsAll items) := by
  cases closes : (placeAll Position.start items).getLast? with
  | none =>
      cases items with
      | nil => rfl
      | cons item items => simp [placeAll] at closes
  | some last =>
      have stop := stop_of_getLast? closes
      rw [stopOf, closes]
      simpa [Position.start] using stop

/-- In front of each token of a sequence there is a gap, which begins where the token before it
ends. -/
theorem Sequence.gap (sequence : Sequence settings items) {before after : List Token}
    {token : Token} (placed : placeAll Position.start items = before ++ token :: after) :
    ∃ front gap behind, charsAll items = front ++ (gap ++ behind) ∧
      byteCount front = stopOf before ∧ byteCount (front ++ gap) = token.span.start ∧
      Gap gap behind := by
  obtain ⟨front, back, rfl, rfl, behind⟩ := placeAll_eq_append placed
  cases back with
  | nil => cases behind
  | cons item back =>
      obtain ⟨rfl, _⟩ := List.cons.inj behind
      have read := (sequence_cons_iff.mp (sequence.of_append (List.cons_ne_nil item back))).1
      refine ⟨charsAll front, item.trivia, item.text ++ charsAll back, by simp [chars],
        (stopOf_placeAll front).symm, ?_, read.trivia.gap⟩
      rw [(item.place_span _).1, Position.advanceAll_offset, byteCount_append]
      simp [Position.start]

/-- The tokens of a sequence of items tile its text. -/
theorem Sequence.tiling (sequence : Sequence settings items) {source : String}
    (split : source.toList = charsAll items) :
    ∃ inner stop, placeAll Position.start items = inner ++ [stop] ∧ Tiling source inner stop := by
  obtain ⟨front, last, rfl, inside, stops, text⟩ := sequence.ends
  have laid := sequence.laid Position.start
  have size : source.utf8ByteSize = byteCount (charsAll front) + byteCount last.trivia := by
    rw [utf8ByteSize_eq_byteCount, split]
    simp [chars, text]
  obtain ⟨start, stop⟩ := last.place_span (Position.start.advanceAll (charsAll front))
  have placed : placeAll Position.start (front ++ [last]) = placeAll Position.start front ++
      [last.place (Position.start.advanceAll (charsAll front))] := placeAll_append _ _ _
  rw [placed, List.dropLast_concat, ← split] at laid
  refine ⟨_, _, placed, ?_, stops, ?_, ?_, ?_, ?_, ?_⟩
  · intro token member
    obtain ⟨before, item, after, rfl, rfl⟩ := mem_placeAll_iff.mp member
    exact inside item (by simp)
  · rw [text, byteCount_nil, Nat.add_zero] at stop
    rw [stop, start, Position.advanceAll_offset, size]
    simp [Position.start]
  · exact fun token member => (laid.bounds (List.mem_map_of_mem member)).2.1
  · exact fun token member => Laid.boundaries laid (List.mem_map_of_mem member)
  · exact List.pairwise_map.mp laid.pairwise
  · intro before token after same
    rw [split]
    exact sequence.gap (placed.trans same)

end Item

/-- The tokens of a source tile it. -/
theorem tiling_of_tokenize {source : String} {settings : Settings} {tokens : List Token}
    (read : tokenize source settings = .ok tokens) :
    ∃ inner stop, tokens = inner ++ [stop] ∧ Tiling source inner stop := by
  obtain ⟨_, items, sequence, split, rfl⟩ := tokenize_eq_ok_iff.mp read
  exact sequence.tiling split

/-- Comments of every kind, one of which looks ended too early, beside names of several bytes. -/
theorem tiling_of_commented_query :
    ∃ tokens inner stop,
      tokenize "SELECT é--1 -- ü\n/*/ x **/FROM`é`# end" {} = .ok tokens ∧
      tokens.map (fun token => (token.span.start, token.span.stop)) =
        [(0, 6), (7, 9), (9, 10), (10, 11), (11, 12), (28, 32), (32, 36), (41, 41)] ∧
      tokens = inner ++ [stop] ∧
      Tiling "SELECT é--1 -- ü\n/*/ x **/FROM`é`# end" inner stop := by
  obtain ⟨tokens, read, spans⟩ := @exists_tokens "SELECT é--1 -- ü\n/*/ x **/FROM`é`# end" {}
    (fun tokens => tokens.map (fun token => (token.span.start, token.span.stop)) =
      [(0, 6), (7, 9), (9, 10), (10, 11), (11, 12), (28, 32), (32, 36), (41, 41)]) _ _ rfl
    (by decide +kernel)
  obtain ⟨inner, stop, same, tiling⟩ := tiling_of_tokenize read
  exact ⟨tokens, inner, stop, read, spans, same, tiling⟩

end SqlDml
