import SqlDml.Proofs.Lexing.Run
import SqlDml.Proofs.Lexing.Spelled

/-!
Contract: a source as a sequence of items.

Owns:
- trivia, apart from what follows it;
- an item in front of a rest, by its trivia, the spelling of its token and the comments that could
  begin there instead;
- that the tokens of a source are those of its items.

Does not own: changing the text of an item.
-/

namespace SqlDml

open Text

/-! ### Trivia apart from what follows it -/

namespace Trivia

theorem splitLine_eq {before : List Char} (inLine : ∀ char ∈ before, char ≠ '\n')
    (rest : List Char) : splitLine (before ++ '\n' :: rest) = (before ++ ['\n'], rest) := by
  obtain ⟨taken, left⟩ := @takeWhile_append (· != '\n') before ('\n' :: rest)
    (by simpa using inLine) (by simp)
  rw [splitLine, taken, left]

/-- A line in front of more text ends with a line feed. -/
theorem splitLine_ended {chars : List Char} (more : (splitLine chars).2 ≠ []) :
    ∃ before, (splitLine chars).1 = before ++ ['\n'] ∧ ∀ char ∈ before, char ≠ '\n' := by
  have inLine := takeWhile_holds (· != '\n') chars
  have stopped := dropWhile_ends (· != '\n') chars
  unfold splitLine at more ⊢
  dsimp only at more ⊢
  split
  · next ended => simp [ended] at more
  · next lineFeed rest found =>
      rw [found] at stopped
      obtain rfl : lineFeed = '\n' := by simpa using stopped
      exact ⟨_, rfl, by simpa using inLine⟩

/-- The end of a comment is found whatever follows it. -/
theorem splitComment?_change {chars inside rest : List Char}
    (cut : splitComment? chars = some (inside, rest)) (other : List Char) :
    splitComment? (inside ++ other) = some (inside, other) := by
  fun_induction splitComment? chars generalizing inside with
  | case1 => cases cut
  | case2 after =>
      simp only [Option.some.injEq, Prod.mk.injEq] at cut
      obtain ⟨rfl, rfl⟩ := cut
      rfl
  | case3 char chars open_ inductionHypothesis =>
      simp only [Option.map_eq_some_iff, Prod.mk.injEq] at cut
      obtain ⟨⟨left, right⟩, inner, rfl, rfl⟩ := cut
      have behind := inductionHypothesis inner
      rw [List.cons_append, splitComment?, behind]
      · rfl
      · -- a star and a slash would have ended the comment before
        rintro after rfl same
        have joined := splitComment?_append inner
        cases left with
        | nil => cases inner : splitComment? chars <;> simp_all [splitComment?]
        | cons first left =>
            simp only [List.cons_append, List.cons.injEq] at same
            obtain ⟨rfl, _⟩ := same
            exact open_ (left ++ right) rfl joined.symm

/-- A line comment in front of more text ends with a line feed, and is one in front of any text. -/
theorem lineComment_change {chars taken rest : List Char}
    (found : lineComment chars = .piece taken rest) (more : rest ≠ []) :
    taken.getLast? = some '\n' ∧
      ∀ other, lineComment (taken ++ other) = .piece taken other := by
  simp only [lineComment, piece.injEq] at found
  obtain ⟨before, ended, inside⟩ := splitLine_ended (by rw [found.2]; exact more)
  rw [found.1] at ended
  subst ended
  refine ⟨by simp, fun other => ?_⟩
  have cut := splitLine_eq inside other
  rw [lineComment, List.append_assoc, List.singleton_append, cut]

theorem first_of_blank {char : Char} {rest : List Char} (blank : isBlank char = true) :
    first (char :: rest) =
      .piece ((char :: rest).takeWhile isBlank) ((char :: rest).dropWhile isBlank) := by
  unfold first
  split
  · next same => cases same
  · next same => cases same; cases blank
  · next same => cases same; cases blank
  · next same => cases same; cases blank
  · next same => cases same; exact if_pos blank

/-- A piece of trivia is found in front of any character but another blank. -/
theorem first_change {taken rest : List Char} {char : Char}
    (found : first (taken ++ char :: rest) = .piece taken (char :: rest)) {other : Char}
    (visible : other = char ∨ isBlank other = false) (behind : List Char) :
    first (taken ++ other :: behind) = .piece taken (other :: behind) := by
  have nonempty := (first_eq_piece found).2
  generalize whole : taken ++ char :: rest = chars at found
  fun_cases first chars with
  | case1 => cases found
  | case2 line =>
      obtain ⟨first, inside, rfl⟩ := List.exists_cons_of_ne_nil nonempty
      obtain ⟨rfl, _⟩ := List.cons.inj whole
      exact (lineComment_change found (by simp)).2 _
  | case3 line opens =>
      simp only [first, opens, if_true] at found
      obtain ⟨ended, change⟩ := lineComment_change found (by simp)
      -- the third character is part of the comment
      rcases taken with _ | ⟨first, _ | ⟨second, _ | ⟨third, inside⟩⟩⟩
      · exact absurd rfl nonempty
      · obtain ⟨rfl, _⟩ := List.cons.inj whole
        simp at ended
      · simp only [List.cons_append, List.nil_append, List.cons.injEq] at whole
        obtain ⟨rfl, rfl, _⟩ := whole
        simp at ended
      · simp only [List.cons_append, List.cons.injEq] at whole
        obtain ⟨rfl, rfl, rfl⟩ := whole
        have same : opensLineComment (third :: (inside ++ other :: behind)) = true := opens
        have read := change (other :: behind)
        simp only [List.cons_append] at read ⊢
        rw [first, if_pos same, read]
  | case4 line opens => simp [first, opens] at found
  | case5 comment inside after cut =>
      simp only [first, cut, piece.injEq] at found
      obtain ⟨rfl, rfl⟩ := found
      simp [first, splitComment?_change cut]
  | case6 comment cut => simp [first, cut] at found
  | case7 head others noHash noDashes noComment blank =>
      rw [first.eq_5 _ _ noHash noDashes noComment, if_pos blank, piece.injEq] at found
      have inside := takeWhile_holds isBlank (head :: others)
      have ends := dropWhile_ends isBlank (head :: others)
      rw [found.1] at inside
      rw [found.2] at ends
      have apart : isBlank other = false := by
        rcases visible with rfl | apart
        · exact ends other rfl
        · exact apart
      obtain ⟨front, left⟩ := @takeWhile_append _ _ (other :: behind) inside (by simpa using apart)
      obtain ⟨first, spaces, rfl⟩ := List.exists_cons_of_ne_nil nonempty
      obtain ⟨rfl, _⟩ := List.cons.inj whole
      rw [List.cons_append] at front left ⊢
      rw [first_of_blank blank, front, left]
  | case8 head others noHash noDashes noComment blank =>
      rw [first.eq_5 _ _ noHash noDashes noComment, if_neg blank] at found
      cases found

/-- A run of trivia stands in front of any character but another blank. -/
theorem Run.change {trivia rest : List Char} {char : Char} (run : Run trivia (char :: rest))
    {other : Char} (visible : other = char ∨ isBlank other = false) (behind : List Char) :
    Run trivia (other :: behind) := by
  generalize whole : char :: rest = chars at run
  induction run with
  | nothing => exact .nothing _
  | @piece taken trivia rest found _ inductionHypothesis =>
      subst whole
      refine .piece ?_ (inductionHypothesis rfl)
      cases trivia with
      | nil => exact first_change found visible behind
      | cons head trivia => exact first_change found (.inl rfl) _

/-- A run of trivia that begins with a dash begins with two of them. -/
theorem Run.dashes {trivia rest : List Char} (run : Run ('-' :: trivia) rest) :
    ∃ behind, trivia = '-' :: behind := by
  generalize whole : '-' :: trivia = chars at run
  cases run with
  | nothing => cases whole
  | @piece taken others _ found _ =>
      obtain ⟨start, inside, rfl⟩ := List.exists_cons_of_ne_nil (first_eq_piece found).2
      simp only [List.cons_append, List.cons.injEq] at whole
      obtain ⟨rfl, rfl⟩ := whole
      generalize behind : inside ++ (others ++ rest) = chars at found
      rw [List.cons_append, behind] at found
      cases chars with
      | nil => simp [first, isBlank] at found
      | cons second chars =>
          by_cases dash : second = '-'
          · subst dash
            have taken := (first_eq_piece found).1
            simp only [first] at found
            split at found
            · simp only [lineComment, piece.injEq] at found
              have start : (splitLine ('-' :: '-' :: chars)).1.take 2 = ['-', '-'] := by
                unfold splitLine
                split <;> simp
              rw [found.1] at start
              cases inside with
              | nil => simp at start
              | cons next inside =>
                  simp at start
                  exact ⟨inside ++ others, by simp [start]⟩
            · cases found
          · simp [first, dash, isBlank] at found

theorem splitComment?_getLast? {chars inside rest : List Char}
    (cut : splitComment? chars = some (inside, rest)) : inside.getLast? = some '/' := by
  fun_induction splitComment? chars generalizing inside with
  | case1 => cases cut
  | case2 after =>
      cases cut
      rfl
  | case3 char chars _ inductionHypothesis =>
      simp only [Option.map_eq_some_iff, Prod.mk.injEq] at cut
      obtain ⟨⟨left, right⟩, inner, rfl, rfl⟩ := cut
      rw [List.getLast?_cons, inductionHypothesis inner]
      rfl

/-- A piece of trivia in front of more text ends with a blank or a slash. -/
theorem getLast?_of_piece {chars taken rest : List Char} (found : first chars = .piece taken rest)
    (more : rest ≠ []) : ∃ char, taken.getLast? = some char ∧ (isBlank char = true ∨ char = '/') := by
  have nonempty := (first_eq_piece found).2
  fun_cases first chars with
  | case1 => cases found
  | case2 line => exact ⟨_, (lineComment_change found more).1, .inl rfl⟩
  | case3 line opens =>
      simp only [first, opens, if_true] at found
      exact ⟨_, (lineComment_change found more).1, .inl rfl⟩
  | case4 line opens => simp [first, opens] at found
  | case5 comment inside after cut =>
      simp only [first, cut, piece.injEq] at found
      obtain ⟨rfl, rfl⟩ := found
      refine ⟨'/', ?_, .inr rfl⟩
      rw [List.getLast?_cons, List.getLast?_cons, splitComment?_getLast? cut]
      rfl
  | case6 comment cut => simp [first, cut] at found
  | case7 head others _ _ _ blank =>
      rw [first_of_blank blank, piece.injEq] at found
      have inside := takeWhile_holds isBlank (head :: others)
      rw [found.1] at inside
      exact ⟨_, List.getLast?_eq_some_getLast nonempty, .inl (inside _ (List.getLast_mem _))⟩
  | case8 head others noHash noDashes noComment blank =>
      rw [first.eq_5 _ _ noHash noDashes noComment, if_neg blank] at found
      cases found

/-- Trivia in front of more text ends with a blank or a slash. -/
theorem Run.getLast?_ne {trivia rest : List Char} (run : Run trivia rest) (more : rest ≠ [])
    {char : Char} (plain : isBlank char = false) (noSlash : char ≠ '/') :
    trivia.getLast? ≠ some char := by
  induction run with
  | nothing => simp
  | @piece taken trivia rest found _ inductionHypothesis =>
      have later := inductionHypothesis more
      rw [List.getLast?_append]
      cases trivia with
      | cons head trivia =>
          rw [List.getLast?_cons] at later ⊢
          simpa using later
      | nil =>
          obtain ⟨last, ends, known⟩ := getLast?_of_piece found more
          rw [List.getLast?_nil, Option.none_or, ends]
          rintro ⟨⟩
          rcases known with blank | slash
          · rw [plain] at blank
            cases blank
          · exact noSlash slash

/-- Trivia ends where a token begins. -/
theorem Run.unique {trivia rest other otherRest : List Char} (run : Run trivia rest)
    (absent : first rest = .absent) (again : Run other otherRest)
    (absentAgain : first otherRest = .absent) (same : trivia ++ rest = other ++ otherRest) :
    trivia = other ∧ rest = otherRest := by
  let lexer : Lexer := ⟨{}, 0, trivia ++ rest, Position.start, false, 0, 0⟩
  have skipped := Lexer.skipTriviaWith_of_run run absent _ lexer rfl (Nat.le_refl _)
  have skippedAgain := Lexer.skipTriviaWith_of_run again absentAgain _ lexer same (Nat.le_refl _)
  have behind : rest = otherRest := by
    rw [skipped] at skippedAgain
    exact congrArg (fun found => found.2.rest) skippedAgain
  exact ⟨List.append_cancel_right (behind ▸ same), behind⟩

end Trivia

/-! ### Comments where a token could be -/

/-- A character that begins no trivia whatever follows it. -/
def isPlainStart (char : Char) : Bool := char != '#' && char != '-' && char != '/' && !isBlank char

theorem Trivia.first_of_plainStart {char : Char} {rest : List Char}
    (plain : isPlainStart char = true) : Trivia.first (char :: rest) = .absent := by
  simp only [isPlainStart, Bool.and_eq_true, bne_iff_ne, ne_eq, Bool.not_eq_true'] at plain
  unfold Trivia.first
  split
  · next same => cases same
  · next same => cases same; simp at plain
  · next same => cases same; simp at plain
  · next same => cases same; simp at plain
  · next same =>
      cases same
      rw [plain.2]
      rfl

theorem isPlainStart_of_isNameChar {char : Char} (inside : isNameChar char = true) :
    isPlainStart char = true := by
  have different : ∀ other, isNameChar other = false → char ≠ other := by
    rintro other outside rfl
    rw [outside] at inside
    cases inside
  have blank : isBlank char = false := by
    simp only [isBlank, Bool.or_eq_false_iff, beq_eq_false_iff_ne]
    exact ⟨⟨⟨⟨⟨different _ (by decide), different _ (by decide)⟩, different _ (by decide)⟩,
      different _ (by decide)⟩, different _ (by decide)⟩, different _ (by decide)⟩
  simp [isPlainStart, blank, different '#' (by decide), different '-' (by decide),
    different '/' (by decide)]

/-- A minus or a slash begins a comment together with the text behind it. -/
def BeginsComment (text rest : List Char) : Prop :=
  text = ['-'] ∧ (∃ behind, rest = '-' :: behind ∧ Trivia.opensLineComment behind = true) ∨
    text = ['/'] ∧ rest.head? = some '*'

variable {settings : Settings}

namespace Spelled

variable {kind : TokenKind} {text rest : List Char} {next : Option Char}

/-- Every token but a minus and a slash begins with a character that begins no trivia. -/
theorem start (spelled : Spelled settings kind text next) :
    text = ['-'] ∨ text = ['/'] ∨
      ∃ first others, text = first :: others ∧ isPlainStart first = true := by
  have letter : ∀ {letter : Char}, isNameChar letter = true → ∀ others : List Char,
      ∃ first behind, letter :: others = first :: behind ∧ isPlainStart first = true :=
    fun inside _ => ⟨_, _, rfl, isPlainStart_of_isNameChar inside⟩
  cases spelled with
  | string opens _ _ =>
      cases opens with
      | single => exact .inr (.inr ⟨'\'', _, rfl, by decide⟩)
      | double plain => exact .inr (.inr ⟨'"', _, rfl, by decide⟩)
      | national mark =>
          exact .inr (.inr (letter (by rcases mark with rfl | rfl <;> decide) _))
  | quotedWord quotes _ _ =>
      exact .inr (.inr ⟨_, _, rfl, by rcases quotes with rfl | ⟨rfl, _⟩ <;> decide⟩)
  | hexString mark _ _ => exact .inr (.inr (letter (by rcases mark with rfl | rfl <;> decide) _))
  | bitString mark _ => exact .inr (.inr (letter (by rcases mark with rfl | rfl <;> decide) _))
  | number numeral =>
      obtain ⟨first, others, rfl, opens⟩ := numeral.opens
      refine .inr (.inr ⟨first, others, rfl, ?_⟩)
      rcases opens [] with digit | ⟨rfl, _⟩
      · exact isPlainStart_of_isNameChar (by simp [isNameChar, digit])
      · decide
  | word starts _ _ _ => exact .inr (.inr (letter (by simp [isNameChar, starts]) _))
  | @mark mark _ _ _ =>
      cases mark with
      | minus => exact .inl rfl
      | slash => exact .inr (.inl rfl)
      | _ => exact .inr (.inr ⟨_, _, rfl, by decide⟩)

/-- A token stands where no comment begins. -/
theorem first_eq_absent_iff (spelled : Spelled settings kind text next) :
    Trivia.first (text ++ rest) = .absent ↔ ¬ BeginsComment text rest := by
  rcases spelled.start with rfl | rfl | ⟨first, others, rfl, plain⟩
  · simp only [BeginsComment, List.singleton_append]
    rcases rest with _ | ⟨second, rest⟩
    · simp [Trivia.first, isBlank]
    · by_cases dash : second = '-'
      · subst dash
        cases opens : Trivia.opensLineComment rest <;>
          simp [Trivia.first, opens, Trivia.lineComment]
      · simp [Trivia.first, dash, isBlank]
  · simp only [BeginsComment, List.singleton_append]
    rcases rest with _ | ⟨second, rest⟩
    · simp [Trivia.first, isBlank]
    · by_cases star : second = '*'
      · subst star
        simp only [Trivia.first]
        split <;> simp
      · simp [Trivia.first, star, isBlank]
  · have other : ∀ char, isPlainStart char = false → first ≠ char := by
      rintro char begins rfl
      rw [begins] at plain
      cases plain
    simp [BeginsComment, Trivia.first_of_plainStart plain, other '-' (by decide),
      other '/' (by decide)]

theorem text_ne_nil (spelled : Spelled settings kind text next) : text ≠ [] := by
  rcases spelled.start with rfl | rfl | ⟨first, others, rfl, _⟩ <;> simp

theorem inner (spelled : Spelled settings kind text next) : kind ≠ .endOfInput := by
  cases spelled with
  | number numeral =>
      cases numeral with
      | decimal _ _ _ =>
          unfold decimalKind
          split
          · exact integerToken_inner _
          · simp
      | _ => simp
  | word _ _ _ _ =>
      unfold wordKind
      split <;> simp
  | _ => simp

end Spelled

namespace Item

variable {item : Item} {rest : List Char}

/-- An item is read where its trivia can stand, where no comment begins instead of its token, and
where its token is spelled. -/
theorem readBefore_iff (inner : item.kind ≠ .endOfInput) :
    item.ReadBefore settings rest ↔
      Trivia.Run item.trivia (item.text ++ rest) ∧ ¬ BeginsComment item.text rest ∧
        Spelled settings item.kind item.text rest.head? := by
  constructor
  · rintro ⟨run, absent, scan⟩
    cases whole : item.text ++ rest with
    | nil =>
        rw [whole, scanLexeme] at scan
        simp only [Lexeme.token, Lexeme.mk.injEq, Except.ok.injEq] at scan
        exact absurd scan.1.symm inner
    | cons first others =>
        have spelled : Spelled settings item.kind item.text rest.head? := by
          rw [whole] at scan
          exact spelled_of_scanLexeme scan
        rw [← whole]
        exact ⟨run, spelled.first_eq_absent_iff.mp absent, spelled⟩
  · rintro ⟨run, noComment, spelled⟩
    refine ⟨run, spelled.first_eq_absent_iff.mpr noComment, spelled.scanLexeme_eq ?_⟩
    have counted := length_le_byteCount (item.text ++ rest)
    simp only [List.length_append] at counted
    omega

/-- The end of input has no text and nothing behind it. -/
theorem ReadBefore.ended (read : item.ReadBefore settings rest) (stops : item.kind = .endOfInput) :
    item.text = [] ∧ rest = [] := by
  have scan := read.scan
  rw [stops] at scan
  cases whole : item.text ++ rest with
  | nil => exact List.append_eq_nil_iff.mp whole
  | cons first others =>
      rw [whole] at scan
      exact absurd rfl (spelled_of_scanLexeme scan).inner

/-- A text begins with one item only. -/
theorem ReadBefore.unique {other : Item} {otherRest : List Char}
    (read : item.ReadBefore settings rest) (again : other.ReadBefore settings otherRest)
    (same : item.chars ++ rest = other.chars ++ otherRest) : item = other ∧ rest = otherRest := by
  rw [chars, chars, List.append_assoc, List.append_assoc] at same
  obtain ⟨trivia, behind⟩ := read.trivia.unique read.front again.trivia again.front same
  have scan := read.scan
  rw [behind, again.scan] at scan
  simp only [Lexeme.token, Lexeme.mk.injEq, Except.ok.injEq] at scan
  obtain ⟨kind, text, left⟩ := scan
  obtain ⟨_, _, _⟩ := item
  obtain ⟨_, _, _⟩ := other
  simp_all

/-! ### Sequences of items -/

/-- The characters of items, one behind the other. -/
def charsAll (items : List Item) : List Char := items.flatMap chars

@[simp] theorem charsAll_nil : charsAll [] = [] := rfl

@[simp] theorem charsAll_cons (item : Item) (items : List Item) :
    charsAll (item :: items) = item.chars ++ charsAll items := List.flatMap_cons

@[simp] theorem charsAll_append (front back : List Item) :
    charsAll (front ++ back) = charsAll front ++ charsAll back := List.flatMap_append

/-- The tokens of items, the first of which begins at a position. -/
def placeAll (position : Position) : List Item → List Token
  | [] => []
  | item :: items => item.place position :: placeAll (position.advanceAll item.chars) items

theorem placeAll_append (position : Position) (front back : List Item) :
    placeAll position (front ++ back) =
      placeAll position front ++ placeAll (position.advanceAll (charsAll front)) back := by
  induction front generalizing position with
  | nil => rfl
  | cons item front inductionHypothesis =>
      simp [placeAll, inductionHypothesis, Position.advanceAll_append]

/-- Items that the lexer reads one behind the other, the end of input last. -/
inductive Sequence (settings : Settings) : List Item → Prop where
  | ended {item : Item} (read : item.ReadBefore settings []) (stops : item.kind = .endOfInput) :
      Sequence settings [item]
  | inner {item : Item} {items : List Item} (read : item.ReadBefore settings (charsAll items))
      (inner : item.kind ≠ .endOfInput) (behind : Sequence settings items) :
      Sequence settings (item :: items)

/-- A sequence is its first item in front of the others, and ends with the end of input. -/
theorem sequence_cons_iff {items : List Item} :
    Sequence settings (item :: items) ↔ item.ReadBefore settings (charsAll items) ∧
      (item.kind = .endOfInput ∧ items = [] ∨ item.kind ≠ .endOfInput ∧ Sequence settings items) := by
  constructor
  · intro sequence
    cases sequence with
    | ended read stops => exact ⟨read, .inl ⟨stops, rfl⟩⟩
    | inner read inner behind => exact ⟨read, .inr ⟨inner, behind⟩⟩
  · rintro ⟨read, ⟨stops, rfl⟩ | ⟨inner, behind⟩⟩
    · exact .ended read stops
    · exact .inner read inner behind

/-- One text is one sequence of items. -/
theorem Sequence.unique {items others : List Item} (sequence : Sequence settings items)
    (again : Sequence settings others) (same : charsAll items = charsAll others) :
    items = others := by
  induction sequence generalizing others with
  | ended read stops =>
      rw [charsAll_cons, charsAll_nil] at same
      cases again with
      | ended more _ =>
          rw [charsAll_cons, charsAll_nil] at same
          rw [(read.unique more same).1]
      | inner more inner _ =>
          rw [charsAll_cons] at same
          rw [(read.unique more same).1] at stops
          exact absurd stops inner
  | inner read inner _ inductionHypothesis =>
      rw [charsAll_cons] at same
      cases again with
      | ended more stops =>
          rw [charsAll_cons, charsAll_nil] at same
          rw [← (read.unique more same).1] at stops
          exact absurd stops inner
      | inner more _ behind =>
          rw [charsAll_cons] at same
          obtain ⟨rfl, rest⟩ := read.unique more same
          rw [inductionHypothesis behind rest]

end Item

/-! ### The tokens of a source -/

open Item

namespace Lexer

/-- A lexer in front of a sequence of items reads their tokens. -/
theorem run_of_sequence {items : List Item} (sequence : Sequence settings items) (lexer : Lexer)
    (sound : lexer.Sound) (fits : lexer.size ≤ maxSourceLength) (same : lexer.settings = settings)
    (split : lexer.rest = charsAll items) :
    lexer.run = ⟨placeAll lexer.position items, none⟩ := by
  induction sequence generalizing lexer with
  | ended read stops =>
      rw [charsAll_cons, charsAll_nil] at split
      rw [← same] at read
      exact run_of_end (nextToken_of_readBefore sound fits split read) stops
  | inner read inner _ inductionHypothesis =>
      rw [charsAll_cons] at split
      rw [← same] at read
      rw [run_of_inner sound split read (nextToken_of_readBefore sound fits split read) inner,
        inductionHypothesis (lexer.past _ _) (sound.past split) fits same rfl]
      rfl

/-- What a lexer reads without a failure is a sequence of items. -/
theorem sequence_of_run (lexer : Lexer) (sound : lexer.Sound) (done : lexer.run.error = none) :
    lexer.size ≤ maxSourceLength ∧ ∃ items, Sequence lexer.settings items ∧
      lexer.rest = charsAll items ∧ lexer.run.tokens = placeAll lexer.position items := by
  induction lexer, sound using run_induction with
  | failed lexer after error _ next _ =>
      rw [run_of_error next] at done
      cases done
  | ended lexer item rest _ fits split read next stops =>
      obtain ⟨_, rfl⟩ := read.ended stops
      refine ⟨fits, [item], .ended read stops, by simpa using split, ?_⟩
      rw [run_of_end next stops]
      rfl
  | inner lexer item rest sound fits split read next inner inductionHypothesis =>
      rw [run_of_inner sound split read next inner] at done ⊢
      obtain ⟨_, items, behind, left, tokens⟩ := inductionHypothesis done
      rw [past_rest] at left
      subst left
      refine ⟨fits, item :: items, .inner read inner behind, by simpa using split, ?_⟩
      rw [TokenRun.cons, tokens]
      rfl

end Lexer

/-- A source has tokens if it is not too long and is a sequence of items; the tokens are those of the
items. -/
theorem tokenize_eq_ok_iff {source : String} {tokens : List Token} :
    tokenize source settings = .ok tokens ↔
      source.utf8ByteSize ≤ maxSourceLength ∧ ∃ items, Sequence settings items ∧
        source.toList = charsAll items ∧ tokens = placeAll Position.start items := by
  have sound := Lexer.Sound.ofSource source settings
  have whole : TokenRun.ofSource source settings = (Lexer.ofSource source settings).run :=
    Lexer.runWith_eq_run sound (by
      rw [utf8ByteSize_eq_byteCount]
      exact Nat.lt_succ_self _)
  rw [tokenize, whole, TokenRun.toExcept]
  constructor
  · intro read
    cases done : (Lexer.ofSource source settings).run.error with
    | some error =>
        rw [done] at read
        cases read
    | none =>
        rw [done] at read
        obtain ⟨fits, items, sequence, split, placed⟩ := Lexer.sequence_of_run _ sound done
        exact ⟨fits, items, sequence, split, (Except.ok.inj read).symm.trans placed⟩
  · rintro ⟨fits, items, sequence, split, rfl⟩
    rw [Lexer.run_of_sequence sequence _ sound fits rfl split]
    rfl

end SqlDml
