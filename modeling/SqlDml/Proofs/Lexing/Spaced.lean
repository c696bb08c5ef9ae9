import SqlDml.Proofs.Lexing.Tiled

/-!
Contract: the tokens of a source, spaced anew.

Owns:
- that every gap in front of a token is trivia that the lexer skips;
- spacing, which is blanks and whole comments that end on their own;
- that a token ends where spacing begins;
- the tokens of a text in which the slices of given tokens stand with any spacing between them.

Does not own: texts in which tokens touch.
-/

namespace SqlDml

open Text

/-! ### Gaps are skipped -/

namespace Trivia

/-- The first end of comment is found behind a text that has none. -/
theorem splitComment?_of_apart {inside : List Char} (apart : ¬ ['*', '/'] <:+: inside)
    (behind : List Char) :
    splitComment? (inside ++ ('*' :: '/' :: behind)) = some (inside ++ ['*', '/'], behind) := by
  induction inside with
  | nil => rfl
  | cons char inside inductionHypothesis =>
      have later : ¬ ['*', '/'] <:+: inside := fun found => apart (List.infix_cons found)
      rw [List.cons_append, splitComment?, inductionHypothesis later]
      · rfl
      · -- a star and a slash at the front would be an end of comment inside
        rintro rest rfl same
        cases inside with
        | nil => cases same
        | cons second inside =>
            obtain ⟨rfl, _⟩ := List.cons.inj same
            exact apart ⟨[], inside, rfl⟩

/-- A blank in front of trivia belongs to the trivia. -/
theorem Run.blank {char : Char} {trivia rest : List Char} (blank : isBlank char = true)
    (run : Run trivia rest) (front : first rest = .absent) : Run (char :: trivia) rest := by
  have whole := @first_of_blank char (trivia ++ rest) blank
  rw [List.takeWhile_cons_of_pos blank, List.dropWhile_cons_of_pos blank] at whole
  by_cases ends : ∀ other ∈ (trivia ++ rest).head?, isBlank other = false
  · obtain ⟨none, left⟩ := takeWhile_of_ends ends
    rw [none, left] at whole
    have alone : first ([char] ++ (trivia ++ rest)) = .piece [char] (trivia ++ rest) := whole
    exact .piece alone run
  · -- the blank makes the run of blanks behind it longer
    simp only [Option.mem_def, not_forall, Bool.not_eq_false] at ends
    obtain ⟨second, heads, blanks⟩ := ends
    obtain ⟨others, same⟩ := List.head?_eq_some_iff.mp heads
    have found := @first_of_blank second others blanks
    cases run with
    | nothing =>
        rw [List.nil_append] at same
        rw [← same, front] at found
        cases found
    | @piece taken trivia _ read behind =>
        rw [List.append_assoc] at whole same
        rw [← same, read, piece.injEq] at found
        rw [← found.1, ← found.2] at whole
        have longer : first ((char :: taken) ++ (trivia ++ rest)) =
            .piece (char :: taken) (trivia ++ rest) := whole
        exact .piece longer behind

end Trivia

theorem LineEnd.splitLine_eq {line behind : List Char} (ends : LineEnd line behind) :
    Trivia.splitLine (line ++ behind) = (line, behind) := by
  cases ends with
  | lineFeed within =>
      rw [List.append_assoc]
      exact Trivia.splitLine_eq (fun char member => by rintro rfl; exact within member) behind
  | ended within =>
      obtain ⟨taken, left⟩ := @takeWhile_append (· != '\n') line []
        (fun char member => bne_iff_ne.mpr (by rintro rfl; exact within member)) (by simp)
      rw [Trivia.splitLine, taken, left]

/-- A filler in front of trivia is trivia with it. -/
theorem Filler.run {first trivia rest : List Char} (filler : Filler first (trivia ++ rest))
    (run : Trivia.Run trivia rest) (front : Trivia.first rest = .absent) :
    Trivia.Run (first ++ trivia) rest := by
  generalize behind : trivia ++ rest = more at filler
  cases filler with
  | blank blank => exact run.blank blank front
  | hash ends =>
      refine .piece ?_ run
      rw [behind, List.cons_append, Trivia.first, Trivia.lineComment,
        Trivia.splitLine_cons _ (by decide), ends.splitLine_eq]
  | @dashes line _ ends spaced =>
      have opens : Trivia.opensLineComment (line ++ more) = true := by
        rcases line with _ | ⟨next, line⟩
        · generalize none : [] = line at ends
          cases ends with
          | lineFeed => simp at none
          | ended => rw [← none]; rfl
        · exact decide_eq_true (spaced next rfl)
      refine .piece ?_ run
      rw [behind, List.cons_append, List.cons_append, Trivia.first, if_pos opens,
        Trivia.lineComment, Trivia.splitLine_cons _ (by decide),
        Trivia.splitLine_cons _ (by decide), ends.splitLine_eq]
  | @block inside apart =>
      have cut := Trivia.splitComment?_of_apart apart more
      refine .piece ?_ run
      rw [behind, List.cons_append, List.cons_append, List.append_assoc, Trivia.first]
      simp only [List.cons_append, List.nil_append, cut]

/-- A gap in front of a token is trivia that the lexer skips. -/
theorem Gap.run {gap rest : List Char} (skipped : Gap gap rest)
    (front : Trivia.first rest = .absent) : Trivia.Run gap rest := by
  induction skipped with
  | nothing => exact .nothing _
  | filler filler _ inductionHypothesis => exact filler.run (inductionHypothesis front) front

/-! ### Spacing -/

/-- One blank, or one whole comment that ends on its own: a line comment has its line feed. -/
inductive Spacer : List Char → Prop where
  | blank {char : Char} (blank : isBlank char = true) : Spacer [char]
  | hash {line : List Char} (within : '\n' ∉ line) : Spacer ('#' :: (line ++ ['\n']))
  | dashes {line : List Char} (within : '\n' ∉ line)
      (spaced : ∀ next ∈ line.head?, next.toNat ≤ 0x20) :
      Spacer ('-' :: '-' :: (line ++ ['\n']))
  | block {inside : List Char} (apart : ¬ ['*', '/'] <:+: inside) :
      Spacer ('/' :: '*' :: (inside ++ ['*', '/']))

/-- Blanks and whole comments, one behind the other. -/
inductive Spacing : List Char → Prop where
  | nothing : Spacing []
  | spacer {first others : List Char} (spacer : Spacer first) (spacing : Spacing others) :
      Spacing (first ++ others)

theorem Spacer.filler {chars : List Char} (spacer : Spacer chars) (behind : List Char) :
    Filler chars behind := by
  cases spacer with
  | blank blank => exact .blank blank behind
  | hash within => exact .hash (.lineFeed within behind)
  | @dashes line within spaced =>
      refine .dashes (.lineFeed within behind) fun next heads => ?_
      cases line with
      | nil =>
          obtain rfl := Option.some.inj heads
          decide
      | cons first line => exact spaced next heads
  | block apart => exact .block apart behind

/-- Spacing is a gap in front of any text. -/
theorem Spacing.gap {chars : List Char} (spacing : Spacing chars) (behind : List Char) :
    Gap chars behind := by
  induction spacing with
  | nothing => exact .nothing behind
  | spacer spacer _ inductionHypothesis => exact .filler (spacer.filler _) inductionHypothesis

theorem Spacing.blanks (count : Nat) : Spacing (List.replicate count ' ') := by
  induction count with
  | zero => exact .nothing
  | succ count inductionHypothesis => exact .spacer (.blank rfl) inductionHypothesis

theorem Spacer.spacing {chars : List Char} (spacer : Spacer chars) : Spacing chars := by
  have alone : Spacing (chars ++ []) := .spacer spacer .nothing
  rwa [List.append_nil] at alone

/-! ### In front of spacing -/

/-- A text that is at its end, or begins with trivia by its first characters. -/
structure BeginsSpaced (rest : List Char) : Prop where
  head : ∀ char ∈ rest.head?, isPlainStart char = false
  behindDash : ∀ behind, rest = '-' :: behind → behind.head? = some '-'

theorem BeginsSpaced.nothing : BeginsSpaced [] := ⟨by simp, by simp⟩

theorem Spacer.begins {chars : List Char} (spacer : Spacer chars) (behind : List Char) :
    BeginsSpaced (chars ++ behind) := by
  cases spacer with
  | @blank char blank =>
      refine ⟨?_, ?_⟩
      · rintro _ ⟨⟩
        simp [isPlainStart, blank]
      · rintro _ ⟨⟩
        cases blank
  | hash within => exact ⟨by rintro _ ⟨⟩; decide, by simp⟩
  | dashes within spaced => exact ⟨by rintro _ ⟨⟩; decide, by rintro _ ⟨⟩; rfl⟩
  | block apart => exact ⟨by rintro _ ⟨⟩; decide, by simp⟩

/-- Spacing between two texts, and spacing at the end of a text, begins as such. -/
theorem Spacing.begins {chars : List Char} (spacing : Spacing chars) {behind : List Char}
    (between : chars = [] → behind = []) : BeginsSpaced (chars ++ behind) := by
  cases spacing with
  | nothing =>
      rw [between rfl]
      exact .nothing
  | spacer spacer _ =>
      rw [List.append_assoc]
      exact spacer.begins _

section

variable {settings : Settings} {kind : TokenKind} {text rest : List Char} {next : Option Char}

theorem BeginsSpaced.ne (begins : BeginsSpaced rest) {char : Char}
    (plain : isPlainStart char = true) : rest.head? ≠ some char := by
  intro heads
  rw [begins.head char heads] at plain
  cases plain

theorem BeginsSpaced.noNameChar (begins : BeginsSpaced rest) :
    ∀ char ∈ rest.head?, isNameChar char = false := by
  intro char heads
  rw [Bool.eq_false_iff]
  intro inside
  exact begins.ne (isPlainStart_of_isNameChar inside) heads

/-- No comment begins with a token in front of spacing. -/
theorem BeginsSpaced.noComment (begins : BeginsSpaced rest) : ¬ BeginsComment text rest := by
  rintro (⟨_, behind, same, opens⟩ | ⟨_, star⟩)
  · -- a third dash behind two others opens no comment
    obtain ⟨others, rfl⟩ := List.head?_eq_some_iff.mp (begins.behindDash behind same)
    exact absurd opens (by simp [Trivia.opensLineComment])
  · exact begins.ne (by decide) star

theorem Numeral.beforeSpacing (numeral : Numeral kind text next) (begins : BeginsSpaced rest) :
    Numeral kind text rest.head? := by
  cases numeral with
  | decimal parts _ _ =>
      exact .decimal parts begins.noNameChar fun _ _ => begins.ne (by decide)
  | hex mark nonempty all _ => exact .hex mark nonempty all begins.noNameChar
  | bit mark nonempty all _ => exact .bit mark nonempty all begins.noNameChar

/-- No character that would make a mark longer begins trivia. -/
theorem Punct.isPlainStart_of_mem_longer {mark : Punct} {char : Char}
    (member : char ∈ mark.longer) : isPlainStart char = true := by
  have all : mark.longer.all isPlainStart = true := by cases mark <;> decide
  exact List.all_eq_true.mp all char member

/-- Every token may stand in front of spacing. -/
theorem Spelled.beforeSpacing (spelled : Spelled settings kind text next)
    (begins : BeginsSpaced rest) : Spelled settings kind text rest.head? := by
  cases spelled with
  | string opens body _ =>
      refine .string opens body ?_
      cases opens <;> exact begins.ne (by decide)
  | quotedWord quotes body _ =>
      refine .quotedWord quotes body ?_
      rcases quotes with rfl | ⟨rfl, _⟩ <;> exact begins.ne (by decide)
  | hexString mark all even => exact .hexString mark all even
  | bitString mark all => exact .bitString mark all
  | number numeral => exact .number (numeral.beforeSpacing begins)
  | word starts all _ _ =>
      exact .word starts all begins.noNameChar fun _ => begins.ne (by decide)
  | mark _ _ =>
      refine .mark (fun char heads longer => ?_) fun _ char heads => ?_
      · exact begins.ne (Punct.isPlainStart_of_mem_longer longer) heads
      · exact isDigit_of_not_nameChar (begins.noNameChar char heads)

end

/-! ### Tokens with new spacing -/

theorem kinds_of_sameText {source source' : List Char} {tokens tokens' : List Token}
    (same : List.Forall₂ (SameText source source') tokens tokens') :
    tokens'.map (·.kind) = tokens.map (·.kind) := by
  induction same with
  | nil => rfl
  | cons first _ inductionHypothesis =>
      rw [List.map_cons, List.map_cons, first.1, inductionHypothesis]

/-- A source that is too long is refused. -/
theorem tokenize_of_long {source : String} {settings : Settings}
    (long : maxSourceLength < source.utf8ByteSize) :
    tokenize source settings = .error ⟨.inputTooLarge source.utf8ByteSize, Position.start⟩ := by
  have refused : (Lexer.ofSource source settings).scanToken =
      (.error ⟨.inputTooLarge source.utf8ByteSize, Position.start⟩,
        Lexer.ofSource source settings) := by
    rw [Lexer.scanToken]
    exact if_pos long
  rw [tokenize, TokenRun.ofSource, Lexer.runWith, Lexer.nextToken_of_scanToken_error refused]
  rfl

/-- The slices of tokens in a source, one behind the other, with spacing between them. -/
inductive Respaced (source : List Char) : List Token → List Char → Prop where
  | nothing : Respaced source [] []
  | token {token : Token} {later : List Token} {text gap rest : List Char}
      (slice : token.span.slice? source = some text) (spacing : Spacing gap)
      (between : gap = [] → later = []) (behind : Respaced source later rest) :
      Respaced source (token :: later) (text ++ (gap ++ rest))

namespace Item

variable {settings : Settings} {source : List Char} {tokens : List Token}

/-- A token with spacing in front of it and behind it is read. -/
theorem readBefore_of_spacing {lead text rest : List Char} {kind : TokenKind} {next : Option Char}
    (spelled : Spelled settings kind text next) (spacing : Spacing lead)
    (begins : BeginsSpaced rest) : ReadBefore settings ⟨lead, kind, text⟩ rest := by
  have front := spelled.first_eq_absent_iff.mpr begins.noComment
  exact (readBefore_iff spelled.inner).mpr
    ⟨(spacing.gap _).run front, begins.noComment, spelled.beforeSpacing begins⟩

/-- The token of an item among others stands for it in the text of all. -/
theorem standsFor_place (front : List Item) (item : Item) (back : List Item) :
    StandsFor (charsAll (front ++ item :: back))
      (item.place (Position.start.advanceAll (charsAll front))) item := by
  have offset : (Position.start.advanceAll (charsAll front)).offset = byteCount (charsAll front) := by
    rw [Position.advanceAll_offset]
    exact Nat.zero_add _
  have stands := standsFor_placeAll (item :: back) offset []
  rw [List.append_nil, ← charsAll_append] at stands
  exact (List.forall₂_cons.mp stands).1

/-- The slices of the tokens of a source spell them, and that of the end of input is empty. -/
theorem Sequence.slices {items : List Item} (sequence : Sequence settings items)
    {inner : List Token} {stop : Token} (placed : placeAll Position.start items = inner ++ [stop]) :
    (∀ token ∈ inner, ∃ text next, token.span.slice? (charsAll items) = some text ∧
      Spelled settings token.kind text next) ∧
    stop.kind = .endOfInput ∧ stop.span.slice? (charsAll items) = some [] := by
  obtain ⟨front, last, rfl, _, stops, none⟩ := sequence.ends
  rw [placeAll_append] at placed
  obtain ⟨rfl, stopped⟩ := List.append_inj' placed rfl
  constructor
  · intro token member
    obtain ⟨before, item, after, rfl, rfl⟩ := mem_placeAll_iff.mp member
    have here : item ∈ before ++ item :: after := List.mem_append_right _ List.mem_cons_self
    obtain ⟨next, spelled⟩ := sequence.spelled_of_mem (List.cons_ne_nil _ _) here
    refine ⟨item.text, next, ?_, spelled⟩
    rw [List.append_assoc]
    exact (standsFor_place before item _).2
  · obtain rfl := List.head_eq_of_cons_eq stopped
    have stands := standsFor_place front last []
    exact ⟨stops, none ▸ stands.2⟩

/-- The respaced slices of tokens are a sequence of items, one for each token. -/
theorem sequence_of_respaced {text : List Char} (respaced : Respaced source tokens text)
    (spelled : ∀ token ∈ tokens, ∃ text next, token.span.slice? source = some text ∧
      Spelled settings token.kind text next) {lead : List Char} (leads : Spacing lead) :
    ∃ items ended, Sequence settings (items ++ [ended]) ∧ ended.kind = .endOfInput ∧
      ended.text = [] ∧ charsAll (items ++ [ended]) = lead ++ text ∧
      List.Forall₂ (StandsFor source) tokens items := by
  induction respaced generalizing lead with
  | nothing =>
      have run := (leads.gap []).run rfl
      refine ⟨[], ⟨lead, .endOfInput, []⟩, .ended ⟨run, rfl, rfl⟩ rfl, rfl, rfl, ?_, .nil⟩
      simp [chars]
  | @token token later text gap rest slice spacing between behind inductionHypothesis =>
      obtain ⟨⟨_, next, found, spells⟩, others⟩ := List.forall_mem_cons.mp spelled
      obtain rfl := Option.some.inj (slice.symm.trans found)
      obtain ⟨items, ended, sequence, kind, none, whole, stands⟩ := inductionHypothesis others spacing
      have begins : BeginsSpaced (charsAll (items ++ [ended])) := by
        rw [whole]
        apply spacing.begins
        intro touching
        obtain rfl := between touching
        cases behind
        rfl
      refine ⟨⟨lead, token.kind, text⟩ :: items, ended,
        .inner (readBefore_of_spacing spells leads begins) spells.inner sequence, kind, none, ?_,
        .cons ⟨rfl, slice⟩ stands⟩
      rw [List.cons_append, charsAll_cons, whole]
      simp [chars]

end Item

open Item in
/-- Only the spacing between tokens may change: a text in which the slices of the tokens of a source
stand one behind the other, with blanks and whole comments between them, has tokens of the same kinds
over the same texts.  It is refused where it is longer than a source may be. -/
theorem tokenize_respaced {source : String} {settings : Settings} {tokens : List Token}
    {stop : Token} (read : tokenize source settings = .ok (tokens ++ [stop]))
    {lead text : List Char} (leads : Spacing lead)
    (respaced : Respaced source.toList tokens text) :
    ((String.ofList (lead ++ text)).utf8ByteSize ≤ maxSourceLength →
      ∃ again, tokenize (String.ofList (lead ++ text)) settings = .ok again ∧
        again.map (·.kind) = (tokens ++ [stop]).map (·.kind) ∧
        List.Forall₂ (SameText source.toList (lead ++ text)) (tokens ++ [stop]) again) ∧
    (maxSourceLength < (String.ofList (lead ++ text)).utf8ByteSize →
      tokenize (String.ofList (lead ++ text)) settings =
        .error ⟨.inputTooLarge (String.ofList (lead ++ text)).utf8ByteSize, Position.start⟩) := by
  refine ⟨fun fits => ?_, tokenize_of_long⟩
  obtain ⟨_, items, sequence, split, placed⟩ := tokenize_eq_ok_iff.mp read
  obtain ⟨spelled, stopped, empty⟩ := sequence.slices placed.symm
  rw [← split] at spelled empty
  obtain ⟨spaced, ended, again, stops, none, whole, stands⟩ :=
    sequence_of_respaced respaced spelled leads
  have stopStands : StandsFor source.toList stop ended :=
    ⟨stopped.trans stops.symm, empty.trans (congrArg some none.symm)⟩
  have left : List.Forall₂ (StandsFor source.toList) (tokens ++ [stop]) (spaced ++ [ended]) :=
    List.rel_append stands (.cons stopStands .nil)
  have right := @standsFor_placeAll (spaced ++ [ended]) Position.start [] rfl []
  rw [List.nil_append, List.append_nil, whole] at right
  have same := sameText_of_standsFor left right
  refine ⟨_, tokenize_eq_ok_iff.mpr ⟨fits, _, again, ?_, rfl⟩, kinds_of_sameText same, same⟩
  rw [String.toList_ofList, whole]

/-- More blanks between two tokens than a source may have leave no tokens. -/
theorem tokenize_respaced_too_far :
    let tokens : List Token := [⟨.integer 1, ⟨0, 1, 1, 1⟩⟩, ⟨.integer 2, ⟨2, 3, 1, 3⟩⟩]
    let gap := List.replicate (maxSourceLength + 1) ' '
    tokenize "1 2" {} = .ok (tokens ++ [⟨.endOfInput, ⟨3, 3, 1, 4⟩⟩]) ∧ Spacing gap ∧
      Respaced "1 2".toList tokens ("1".toList ++ (gap ++ ("2".toList ++ ([] ++ [])))) ∧
      ∀ again, tokenize (String.ofList ("1".toList ++ (gap ++ ("2".toList ++ ([] ++ []))))) {} ≠
        .ok again := by
  intro tokens gap
  have spacing : Spacing gap := .blanks _
  have second : Respaced "1 2".toList (tokens.drop 1) ("2".toList ++ ([] ++ [])) :=
    .token (by decide) .nothing (fun _ => rfl) .nothing
  have some_ : gap ≠ [] := by simp [gap]
  refine ⟨by decide +kernel, spacing,
    .token (by decide) spacing (fun none => absurd none some_) second, fun again => ?_⟩
  rw [tokenize_of_long]
  · nofun
  · have blanks : byteCount gap = maxSourceLength + 1 := by
      rw [← utf8ByteSize_ofList, utf8ByteSize_blanks]
    rw [utf8ByteSize_ofList, byteCount_append, byteCount_append, blanks]
    omega

/-- A dash in front of a comment of dashes, a number in front of a dash, and a comment that looks
ended too early. -/
theorem tokenize_respaced_dashes :
    let tokens : List Token := [⟨.integer 1, ⟨0, 1, 1, 1⟩⟩, ⟨.punct .minus, ⟨1, 2, 1, 2⟩⟩,
      ⟨.number ".5", ⟨2, 4, 1, 3⟩⟩]
    tokenize "1-.5" {} = .ok (tokens ++ [⟨.endOfInput, ⟨4, 4, 1, 5⟩⟩]) ∧
      Spacing "/*/ */".toList ∧ Respaced "1-.5".toList tokens "1--\n--- x\n.5".toList ∧
      ∃ again, tokenize "/*/ */1--\n--- x\n.5" {} = .ok again ∧
        again.map (·.kind) = [.integer 1, .punct .minus, .number ".5", .endOfInput] := by
  intro tokens
  have read : tokenize "1-.5" {} = .ok (tokens ++ [⟨.endOfInput, ⟨4, 4, 1, 5⟩⟩]) := by
    decide +kernel
  have lead : Spacing "/*/ */".toList := (@Spacer.block ['/', ' '] (by decide)).spacing
  have lineFeed : Spacing "--\n".toList := (@Spacer.dashes [] (by simp) (by simp)).spacing
  have comment : Spacing "-- x\n".toList :=
    (@Spacer.dashes [' ', 'x'] (by simp) (by simp)).spacing
  have third : Respaced "1-.5".toList (tokens.drop 2) (".5".toList ++ ([] ++ [])) :=
    .token (by decide) .nothing (fun _ => rfl) .nothing
  have second : Respaced "1-.5".toList (tokens.drop 1) ("-".toList ++ ("-- x\n".toList ++ _)) :=
    .token (by decide) comment (by decide) third
  have respaced : Respaced "1-.5".toList tokens ("1".toList ++ ("--\n".toList ++ _)) :=
    .token (by decide) lineFeed (by decide) second
  obtain ⟨again, same, kinds, _⟩ := (tokenize_respaced read lead respaced).1 (by decide +kernel)
  exact ⟨read, lead, respaced, again, same, kinds⟩

end SqlDml
