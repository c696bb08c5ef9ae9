import SqlDml.Proofs.Lexing.Calls
import SqlDml.Proofs.Lexing.Items
import SqlDml.Proofs.Parsing.Entry
import SqlDml.Proofs.Text.Positions

/-!
Contract: a snippet points at the failure that it shows.

Owns:
- the failures that a source has, as a statement, as an expression or as tokens;
- that each of them is at the place of a token, or where a lexical failure ended the tokens;
- the last two lines of a snippet: the line of the failure behind its number, and a caret in the
  column of the failure;
- the two sources of which a snippet does not show its failure so: one of the full length that is a
  single line, whose last column has no number, and one that is too long and has an empty first line.

Does not own: which failure a source has, and how it is worded.
-/

namespace SqlDml

open Text Rule

/-! ### Failures of a source -/

/-- The failures that a source is turned down with. -/
inductive Fails (source : String) (settings : Settings) : ParseError → Prop
  | statement {error : ParseError} (failed : parseStatement source settings = .error error) :
      Fails source settings error
  | expression {error : ParseError} (failed : parseExpression source settings = .error error) :
      Fails source settings error
  | tokens {error : LexError} (failed : tokenize source settings = .error error) :
      Fails source settings (.lexical error)

variable {source : String} {settings : Settings}

/-- A lexical failure is where the tokens end. -/
theorem exists_token_of_lexical {error : LexError}
    (failed : (TokenRun.ofSource source settings).error = some error) :
    ∃ token ∈ (TokenStream.ofSource source settings).whole,
      token.span.position = error.position := by
  refine ⟨Token.endAt error.position, ?_, rfl⟩
  rw [TokenStream.ofSource_whole, TokenRun.closed, failed]
  exact List.mem_append_right _ (List.mem_singleton_self _)

/-- A rule that reads a source to its end fails where a token begins. -/
theorem exists_token_of_toEnd {α : Type} {rule : Rule α} [rule.Lawful] {error : ParseError}
    (failed : (Rule.toEnd rule (ParserState.ofSource source settings)).1 = .error error) :
    ∃ token ∈ (TokenStream.ofSource source settings).whole,
      token.span.position = error.position := by
  have spec := Rule.toEnd_spec rule _ (ParserState.ready_ofSource source settings)
  have failure : (ParserState.ofSource source settings).stream.failure =
      (TokenRun.ofSource source settings).error := TokenStream.ofSource_failure source settings
  generalize Rule.toEnd rule (ParserState.ofSource source settings) = result at spec failed
  cases spec with
  | ok => cases failed
  | lexical ended =>
      cases failed
      exact exists_token_of_lexical (failure ▸ ended)
  | inner _ leads _ met _ =>
      cases failed
      obtain ⟨token, ⟨index, _, found⟩, place⟩ := met
      rw [leads.stream.whole] at found
      exact ⟨token, List.mem_of_getElem? found, place⟩

/-- Every failure is at the place of a token, or where a lexical failure ended the tokens. -/
theorem Fails.exists_token {error : ParseError} (fails : Fails source settings error) :
    ∃ token ∈ (TokenStream.ofSource source settings).whole,
      token.span.position = error.position := by
  cases fails with
  | statement failed =>
      rw [parseStatement_eq] at failed
      split at failed
      · cases failed
      · next ended =>
          cases failed
          exact exists_token_of_toEnd ended
  | expression failed =>
      rw [parseExpression, parseExpression_run] at failed
      exact exists_token_of_toEnd failed
  | tokens failed => exact exists_token_of_lexical (tokenize_eq_error.mp failed)

/-- The places of all tokens are reached from the beginning of the source.  A source that is not too
long has no blank there, and in one that is too long no other place is reached. -/
theorem exists_before (source : String) (settings : Settings) :
    ∀ token ∈ (TokenStream.ofSource source settings).whole,
      ∃ before after, source.toList = before ++ after ∧
        token.span.position = Position.start.advanceAll before ∧
        ((source.utf8ByteSize ≤ maxSourceLength ∧ ∀ char ∈ after.head?, isBlank char = false) ∨
          (maxSourceLength < source.utf8ByteSize ∧ before = [])) := by
  have run : (TokenStream.ofSource source settings).whole =
      (Lexer.ofSource source settings).run.closed := TokenStream.ofSource_whole source settings
  rw [run]
  intro token member
  rcases Nat.lt_or_ge maxSourceLength source.utf8ByteSize with long | fits
  · have refused : (Lexer.ofSource source settings).nextToken =
        (.error ⟨.inputTooLarge source.utf8ByteSize, Position.start⟩, _) :=
      Lexer.nextToken_of_scanToken_error (if_pos long)
    rw [Lexer.run_of_error refused] at member
    obtain rfl := List.mem_singleton.mp member
    exact ⟨[], source.toList, rfl, rfl, .inr ⟨long, rfl⟩⟩
  · obtain ⟨before, after, split, place, visible⟩ :=
      (Lexer.Stands.ofSource source settings).marks_closed_run fits token member
    exact ⟨before, after, split, place, .inl ⟨fits, visible⟩⟩

/-! ### Snippets -/

/-- The last two lines of a text. -/
theorem splitOn_last_two (above : List Char) {shown last : List Char} (inShown : '\n' ∉ shown)
    (inLast : '\n' ∉ last) :
    (above ++ '\n' :: (shown ++ '\n' :: last)).splitOn '\n' =
      above.splitOn '\n' ++ [shown, last] := by
  have whole : ∀ line : List Char, '\n' ∉ line → line.splitOnP (· == '\n') = [line] := by
    intro line inLine
    refine List.splitOnP_eq_singleton fun char member => ?_
    exact beq_false_of_ne fun same => inLine (same ▸ member)
  rw [List.splitOn_eq_splitOnP, List.splitOn_eq_splitOnP, List.splitOnP_append_cons _ _ (by simp),
    List.splitOnP_append_cons _ _ (by simp), whole shown inShown, whole last inLast]
  rfl

/-- A line of a source behind its number. -/
def numberedLine (number : Nat) (line : List Char) : List Char :=
  (toString number).toList ++ [' ', '|', ' '] ++ line

/-- A caret behind as many blanks as the number of a line and some columns take. -/
def caretLine (number columns : Nat) : List Char :=
  List.replicate (toString number).length ' ' ++ [' ', '|', ' '] ++
    List.replicate columns ' ' ++ ['^']

/-- A failure as its snippet shows it in the source: the line that it was met in, apart from what
stands in front of the line, ends it and stands behind it, and what the line holds in front of the
failure and from it on. -/
structure ShownIn (error : ParseError) (source : String)
    (front line ending back seen rest : List Char) : Prop where
  split : LineOf source.toList front line ending back
  /-- The failure is met in the line or in its ending. -/
  place : line ++ ending = seen ++ rest
  offset : error.position.offset = byteCount (front ++ seen)
  /-- The line stands behind its number, and the caret behind the part in front of the failure. -/
  snippet : ∃ above, (error.snippet source).toList.splitOn '\n' =
    above ++ [numberedLine error.position.line line, caretLine error.position.line seen.length]
  /-- Above the caret stands the character at the offset of the failure.  Where the source has ended
  there is none, and the line has ended there, too. -/
  above : (line.drop seen.length).head? = (rest ++ back).head? ∧ (rest ++ back = [] → seen = line)

/-- A source of the full length is a single line, and each of its characters takes one byte. -/
structure IsFullLine (source : String) : Prop where
  size : source.utf8ByteSize = maxSourceLength
  narrow : source.toList.length = maxSourceLength
  inLine : '\n' ∉ source.toList

/-- The first line of a source is empty, and a line ending stands behind it. -/
def BeginsWithLineEnding (source : String) : Prop :=
  ['\n'] <+: source.toList ∨ ['\r', '\n'] <+: source.toList

theorem lineFeed_notMem_toString (number : Nat) : '\n' ∉ (toString number).toList := by
  rw [Nat.toString_eq_repr, Nat.toList_repr]
  intro member
  exact absurd (Nat.isDigit_of_mem_toDigits (by decide) (by decide) member) (by decide)

/-- The last two lines of a snippet are the numbered line and the caret. -/
theorem splitOn_snippet {error : ParseError} {source : String} {line : List Char}
    (shown : lineAt (error.position.line - 1) source.toList = line) (inLine : '\n' ∉ line) :
    ∃ above, (error.snippet source).toList.splitOn '\n' =
      above ++ [numberedLine error.position.line line,
        caretLine error.position.line (error.position.column - 1)] := by
  have text : (error.snippet source).toList =
      (error.message.toList ++ '\n' ::
        (List.replicate (toString error.position.line).length ' ' ++ [' ', '|'])) ++
      '\n' :: (numberedLine error.position.line line ++
        '\n' :: caretLine error.position.line (error.position.column - 1)) := by
    unfold ParseError.snippet ParseError.blanks
    dsimp only
    rw [shown]
    simp [numberedLine, caretLine]
  rw [text, splitOn_last_two]
  · exact ⟨_, rfl⟩
  · simpa [numberedLine, inLine] using lineFeed_notMem_toString _
  · simp [caretLine]
/-! ### A failure behind a part of its source -/

section

variable {error : ParseError} {before after front line ending back seen rest : List Char}

/-- The line of a failure, and the parts of it in front of the failure and from it on. -/
theorem ShownIn.of_line (split : source.toList = before ++ after)
    (place : error.position = Position.start.advanceAll before)
    (lineOf : LineOf (before ++ after) (linesBefore before) line ending back)
    (whole : lineBefore before ++ rest = line ++ ending)
    (told : lineAt (error.position.line - 1) source.toList = line)
    (column : error.position.column - 1 = (lineBefore before).length)
    (above : (line.drop (lineBefore before).length).head? = after.head? ∧
      (after = [] → lineBefore before = line)) :
    ShownIn error source (linesBefore before) line ending back (lineBefore before) rest := by
  have behind : rest ++ back = after := by
    have joined := lineOf.split
    rw [← whole, ← List.append_assoc, ← List.append_assoc, linesBefore_append_lineBefore,
      List.append_assoc] at joined
    exact (List.append_cancel_left joined).symm
  refine ⟨split ▸ lineOf, whole.symm, ?_, ?_, behind ▸ above⟩
  · rw [linesBefore_append_lineBefore, place, Position.advanceAll_offset]
    exact Nat.zero_add _
  · rw [← column]
    exact splitOn_snippet told lineOf.inLine

/-- The column that a snippet shows a failure in is the one that is told of it. -/
theorem ShownIn.column (shown : ShownIn error source front line ending back seen rest)
    (inLine : '\n' ∉ lineAt (error.position.line - 1) source.toList) :
    seen.length = error.position.column - 1 := by
  obtain ⟨above, ends⟩ := shown.snippet
  obtain ⟨above', ends'⟩ := splitOn_snippet rfl inLine
  have last := (List.append_inj' (ends.symm.trans ends') rfl).2
  simp only [List.cons.injEq, and_true] at last
  have lengths := congrArg List.length last.2
  simp only [caretLine, List.length_append, List.length_replicate, List.length_cons,
    List.length_nil] at lengths
  omega

/-- A line that takes all bytes of a source of the full length is the source. -/
theorem isFullLine_iff (split : source.toList = before ++ after)
    (fits : source.utf8ByteSize ≤ maxSourceLength) :
    (IsFullLine source ∧ byteCount before = maxSourceLength) ↔
      maxSourceLength ≤ (lineBefore before).length := by
  have size : source.utf8ByteSize = byteCount before + byteCount after := by
    rw [utf8ByteSize_eq_byteCount, split, byteCount_append]
  have characters := length_le_byteCount before
  have parts := congrArg List.length (linesBefore_append_lineBefore before)
  rw [List.length_append] at parts
  have ended : byteCount before = maxSourceLength → after = [] := fun full => by
    by_contra some_
    have positive := byteCount_pos some_
    omega
  constructor
  · rintro ⟨full, offset⟩
    obtain rfl := ended offset
    rw [List.append_nil] at split
    have first : linesBefore before = [] := by
      by_contra some_
      have last := getLast?_linesBefore before _ (List.getLast?_eq_some_getLast some_)
      have member : (linesBefore before).getLast some_ ∈ linesBefore before ++ lineBefore before :=
        List.mem_append_left _ (List.getLast_mem some_)
      rw [last, linesBefore_append_lineBefore, ← split] at member
      exact full.inLine member
    have narrow := full.narrow
    rw [split] at narrow
    rw [first, List.length_nil] at parts
    omega
  · intro wide
    have offset : byteCount before = maxSourceLength := by omega
    obtain rfl := ended offset
    have first : linesBefore before = [] := List.length_eq_zero_iff.mp (by omega)
    have all : lineBefore before = source.toList := by
      rw [split, List.append_nil]
      simpa [first] using linesBefore_append_lineBefore before
    refine ⟨⟨by omega, ?_, all ▸ lineFeed_notMem_lineBefore before⟩, offset⟩
    rw [split, List.append_nil]
    omega

/-- The last column of a full line has no number, and the caret stands in the first one. -/
theorem IsFullLine.not_shownIn (full : IsFullLine source)
    (split : source.toList = before ++ after)
    (place : error.position = Position.start.advanceAll before)
    (offset : byteCount before = maxSourceLength) :
    ¬ ShownIn error source front line ending back seen rest := by
  intro shown
  have fits : source.utf8ByteSize ≤ maxSourceLength := full.size.le
  have wide := (isFullLine_iff split fits).mp ⟨full, offset⟩
  have characters := length_le_byteCount before
  have parts := congrArg List.length (linesBefore_append_lineBefore before)
  rw [List.length_append] at parts
  have told : error.position = (Position.behind before).stored :=
    place.trans (Position.advanceAll_start before)
  have column : error.position.column = 0 := by
    rw [told]
    change (1 + (lineBefore before).length) % Position.numberCount = 0
    rw [show (lineBefore before).length = maxSourceLength by omega]
    rfl
  have inLine : '\n' ∉ lineAt (error.position.line - 1) source.toList := by
    obtain ⟨line, _, _, lineOf, _, same⟩ := exists_line before after
    rw [utf8ByteSize_eq_byteCount, split] at fits
    rw [told, split, Position.lineAt_stored fits, same]
    exact lineOf.inLine
  have nothing : seen = [] := by
    rw [← List.length_eq_zero_iff, shown.column inLine, column]
  -- without a line feed nothing stands in front of the line
  have first : front = [] := by
    by_contra some_
    have last := shown.split.begins _ (List.getLast?_eq_some_getLast some_)
    refine full.inLine ?_
    rw [shown.split.split]
    exact List.mem_append_left _ (last ▸ List.getLast_mem some_)
  have start := shown.offset
  rw [place, Position.advanceAll_offset, offset, nothing, first] at start
  cases start

/-- A failure at the beginning of a source is shown, unless a line ending stands there. -/
theorem shownIn_start_iff (some_ : source.toList ≠ []) (place : error.position = Position.start) :
    (∃ front line ending back seen rest, ShownIn error source front line ending back seen rest) ↔
      ¬ BeginsWithLineEnding source := by
  constructor
  · rintro ⟨front, line, ending, back, seen, rest, shown⟩
    have offset := shown.offset
    rw [place] at offset
    have none : front ++ seen = [] := by
      by_contra inner
      exact absurd (byteCount_pos inner) (Nat.not_lt.mpr offset.ge)
    obtain ⟨rfl, rfl⟩ := List.append_eq_nil_iff.mp none
    have heads := shown.above.1
    rw [← List.nil_append rest, ← shown.place, ← List.nil_append (line ++ ending ++ back),
      ← shown.split.split] at heads
    exact (shown.split.head?_eq_iff some_).mp heads
  · intro other
    obtain ⟨line, ending, back, lineOf, ⟨rest, whole⟩, shown⟩ := exists_line [] source.toList
    have heads := (lineOf.head?_eq_iff some_).mpr other
    have reached : error.position = Position.start.advanceAll [] := place
    refine ⟨_, _, _, _, _, _, ShownIn.of_line rfl reached lineOf whole ?_ ?_
      ⟨heads, fun none => absurd none some_⟩⟩
    · rw [place]
      exact shown
    · rw [place]
      rfl

end

/-! ### Sources of blanks -/

theorem Trivia.Run.blanks (count : Nat) : Trivia.Run (List.replicate count ' ') [] := by
  cases count with
  | zero => exact .nothing []
  | succ count =>
      have all : ∀ char ∈ List.replicate (count + 1) ' ', isBlank char = true := fun char member => by
        rw [List.eq_of_mem_replicate member]
        rfl
      have found : Trivia.first (List.replicate (count + 1) ' ') =
          .piece (List.replicate (count + 1) ' ') [] := by
        rw [List.replicate_succ, Trivia.first_of_blank rfl, ← List.replicate_succ,
          List.takeWhile_eq_self_iff.mpr all, List.dropWhile_eq_nil_iff.mpr all]
      rw [← List.append_nil (List.replicate (count + 1) ' ')]
      exact .piece (by rw [List.append_nil, List.append_nil]; exact found) (.nothing [])

/-- A source of blanks has nothing but its end, one column behind them. -/
theorem tokenize_blanks (settings : Settings) {count : Nat} (fits : count ≤ maxSourceLength) :
    tokenize (String.ofList (List.replicate count ' ')) settings =
      .ok [Token.endAt (Position.stored ⟨count, 1, 1 + count⟩)] := by
  have place : Position.start.advanceAll (List.replicate count ' ') =
      Position.stored ⟨count, 1, 1 + count⟩ := by
    rw [Position.advanceAll_start, Position.behind_blanks]
  have read : Item.ReadBefore settings ⟨List.replicate count ' ', .endOfInput, []⟩ [] :=
    ⟨.blanks count, rfl, rfl⟩
  refine tokenize_eq_ok_iff.mpr ⟨?_, _, .ended read rfl, ?_, ?_⟩
  · rw [utf8ByteSize_blanks]
    exact fits
  · simp [Item.chars]
  · simp [Item.placeAll, Item.place, place, Token.endAt, Item.chars]
    rfl

/-- Where nothing stands no statement is read. -/
theorem statementTokens_ne_done {levels : Nat} {spot later : Spot} {tree : Statement}
    (ended : spot.kind = .endOfInput) : (statementTokens levels).on spot ≠ .done tree later := by
  intro read
  rw [statementTokens, on_bind, Rule.statement, on_bind_of, on_peek, Outcome.bind_done, ended] at read
  · cases read
  · intro kind
    split <;> infer_instance

/-- Blanks are no statement, which shows at their end. -/
theorem exists_error_of_blanks (settings : Settings) {count : Nat} (fits : count ≤ maxSourceLength) :
    ∃ error, parseStatement (String.ofList (List.replicate count ' ')) settings = .error error ∧
      error.position = Position.start.advanceAll (List.replicate count ' ') := by
  have read := tokenize_blanks settings fits
  generalize String.ofList (List.replicate count ' ') = source at read
  have whole := (tokenize_eq_ok.mp read).2
  cases parsed : parseStatement source settings with
  | ok tree =>
      obtain ⟨_, ⟨later, done, _⟩, _⟩ := (parseStatement_eq_ok _ _).mp parsed
      have none : (Spot.ofSource source settings).ahead = [] := by
        have lengths := congrArg List.length (ofSource_whole source settings)
        rw [whole, List.length_append] at lengths
        exact List.length_eq_zero_iff.mp (Nat.succ.inj lengths.symm)
      refine absurd done (statementTokens_ne_done ?_)
      rw [Spot.kind, Spot.token, none]
      exact (Spot.ofSource source settings).ended
  | error error =>
      obtain ⟨token, member, place⟩ := (Fails.statement parsed).exists_token
      rw [whole, List.mem_singleton] at member
      refine ⟨error, rfl, ?_⟩
      rw [← place, member, Position.advanceAll_start, Position.behind_blanks]
      rfl

/-! ### All failures -/

/-- Snippets point at the failure.  Every failure of a source is met on a boundary between two
characters, or at one of its ends, and its snippet ends with the line that it was met in, without the
ending of the line, and a caret below the character there, or behind the line where the source
ends.  It does so for all failures but two: at the end of a source of the full length that is a single
line of narrow characters, and at the beginning of a source that is too long and begins with a line
ending. -/
theorem snippet_points_at_failure {error : ParseError} (fails : Fails source settings error) :
    error.position.offset ≤ source.utf8ByteSize ∧
      isBoundary error.position.offset source.toList = true ∧
      ((∃ front line ending back seen rest,
          ShownIn error source front line ending back seen rest) ↔
        ¬ (IsFullLine source ∧ error.position.offset = maxSourceLength) ∧
          ¬ (maxSourceLength < source.utf8ByteSize ∧ BeginsWithLineEnding source)) := by
  obtain ⟨token, member, place⟩ := fails.exists_token
  obtain ⟨before, after, split, reached, where_⟩ := exists_before source settings token member
  rw [place] at reached
  have offset : error.position.offset = byteCount before := by
    rw [reached, Position.advanceAll_offset]
    exact Nat.zero_add _
  have size : source.utf8ByteSize = byteCount before + byteCount after := by
    rw [utf8ByteSize_eq_byteCount, split, byteCount_append]
  refine ⟨?_, ?_, ?_⟩
  · rw [offset, size]
    exact Nat.le_add_right _ _
  · rw [offset, split]
    exact isBoundary_append before after
  rw [offset]
  rcases where_ with ⟨fits, visible⟩ | ⟨long, rfl⟩
  · rw [and_iff_left (fun ⟨long, _⟩ => absurd fits (Nat.not_le.mpr long))]
    constructor
    · rintro ⟨_, _, _, _, _, _, shown⟩ ⟨full, ends⟩
      exact full.not_shownIn split reached ends shown
    · intro other
      rw [isFullLine_iff split fits, Nat.not_le] at other
      have told : error.position = (Position.behind before).stored :=
        reached.trans (Position.advanceAll_start before)
      obtain ⟨line, ending, back, lineOf, ⟨rest, whole⟩, shown⟩ := exists_line before after
      refine ⟨_, _, _, _, _, _, ShownIn.of_line split reached lineOf whole ?_ ?_
        (lineOf.shows_of_visible visible)⟩
      · rw [utf8ByteSize_eq_byteCount, split] at fits
        rw [told, split, Position.lineAt_stored fits, shown]
      · rw [told, Position.column_stored other]
  · have some_ : source.toList ≠ [] := by
      intro none
      rw [utf8ByteSize_eq_byteCount, none] at long
      cases long
    rw [shownIn_start_iff some_ reached]
    constructor
    · exact fun other => ⟨fun ⟨full, _⟩ => absurd full.size (Nat.ne_of_gt long),
        fun ⟨_, begins⟩ => other begins⟩
    · exact fun ⟨_, other⟩ begins => other ⟨long, begins⟩

/-- Blanks of the full length are no statement, and the snippet does not point behind them. -/
theorem snippet_of_full_blanks :
    let source := String.ofList (List.replicate maxSourceLength ' ')
    ∃ error, parseStatement source {} = .error error ∧
      ¬ ∃ front line ending back seen rest, ShownIn error source front line ending back seen rest := by
  intro source
  obtain ⟨error, failed, place⟩ := exists_error_of_blanks {} (Nat.le_refl maxSourceLength)
  have characters : source.toList = List.replicate maxSourceLength ' ' := String.toList_ofList
  have size : source.utf8ByteSize = maxSourceLength := utf8ByteSize_blanks maxSourceLength
  have full : IsFullLine source := by
    refine ⟨size, ?_, ?_⟩
    · rw [characters, List.length_replicate]
    · rw [characters]
      exact fun member => absurd (List.eq_of_mem_replicate member) (by decide)
  refine ⟨error, failed, ?_⟩
  rintro ⟨_, _, _, _, _, _, shown⟩
  refine full.not_shownIn (characters.trans (List.append_nil _).symm) place ?_ shown
  rw [← characters, ← utf8ByteSize_eq_byteCount, size]

/-- An unexpected parenthesis, behind characters of two bytes and between line endings of two
characters. -/
theorem snippet_points_at_parenthesis :
    let error := ParseError.unexpected ⟨["end of input"], "')'", ⟨10, 2, 4⟩⟩
    Fails "ä +\r\n ä )\r\n" {} error ∧ 10 ≤ "ä +\r\n ä )\r\n".utf8ByteSize ∧
      isBoundary 10 "ä +\r\n ä )\r\n".toList = true ∧
      ∃ front line ending back seen rest,
        ShownIn error "ä +\r\n ä )\r\n" front line ending back seen rest := by
  intro error
  have fails : Fails "ä +\r\n ä )\r\n" {} error :=
    .expression (eq_error_of_computed (by decide +kernel))
  obtain ⟨inside, boundary, shown⟩ := snippet_points_at_failure fails
  refine ⟨fails, inside, boundary, shown.mpr ⟨?_, ?_⟩⟩
  · rintro ⟨_, ends⟩
    cases ends
  · rintro ⟨long, _⟩
    exact absurd long (by decide +kernel)

example : (ParseError.unexpected ⟨["end of input"], "')'", ⟨10, 2, 4⟩⟩).snippet
      "ä +\r\n ä )\r\n" =
    "syntax error at 2:4: expected end of input, found ')'\n  |\n2 |  ä )\n  |    ^" := by
  decide +kernel

end SqlDml
