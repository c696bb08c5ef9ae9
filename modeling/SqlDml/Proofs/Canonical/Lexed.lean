import SqlDml.Proofs.Canonical.Spellings
import SqlDml.Proofs.Extents.Alone

/-!
Contract: canonical text is read as the tokens that it was written for.

Owns:
- texts of tokens with at most one blank in front of each, and the signs of these tokens;
- what may stand directly behind each piece of canonical text;
- that a source of such a text has tokens with these signs.

Does not own: how trees are written in pieces.
-/

namespace SqlDml

open Text Item

variable {settings : Settings} {spaced : Bool}

/-! ### Texts of tokens -/

/-- A text and the signs of its tokens, with at most one blank in front of each.  A text is spaced if
no blank may be put in front of it: it begins with one, or there is nothing left. -/
inductive Lexed (settings : Settings) : Bool → List Char → List Sign → Prop where
  | ended : Lexed settings true [] []
  | token {spaced : Bool} {kind : TokenKind} {text rest : List Char} {signs : List Sign}
      (spelled : Spelled settings kind text rest.head?) (plain : ¬ BeginsComment text rest)
      (behind : Lexed settings spaced rest signs) :
      Lexed settings false (text ++ rest) (⟨kind, some (String.ofList text)⟩ :: signs)
  | blank {text : List Char} {signs : List Sign} (behind : Lexed settings false text signs) :
      Lexed settings true (' ' :: text) signs

/-- The sign of an item. -/
def Item.sign (item : Item) : Sign := ⟨item.kind, some (String.ofList item.text)⟩

/-- No token begins with a blank. -/
theorem Spelled.run_blank {kind : TokenKind} {text rest : List Char}
    (spelled : Spelled settings kind text rest.head?) : Trivia.Run [' '] (text ++ rest) := by
  obtain ⟨first, others, rfl, visible⟩ : ∃ first others, text = first :: others ∧
      isBlank first = false := by
    rcases spelled.start with rfl | rfl | ⟨first, others, rfl, plain⟩
    · exact ⟨_, _, rfl, by decide⟩
    · exact ⟨_, _, rfl, by decide⟩
    · refine ⟨first, others, rfl, ?_⟩
      simp only [isPlainStart, Bool.and_eq_true, Bool.not_eq_true'] at plain
      exact plain.2
  have blank : isBlank ' ' = true := by decide
  have found := @Trivia.first_of_blank ' ' (first :: (others ++ rest)) blank
  have inside : ∀ char ∈ [' '], isBlank char = true := by simpa using blank
  obtain ⟨taken, left⟩ := @takeWhile_append isBlank [' '] (first :: (others ++ rest)) inside
    (by simpa using visible)
  rw [List.singleton_append] at taken left
  rw [taken, left] at found
  have run : Trivia.Run ([' '] ++ []) (first :: (others ++ rest)) := .piece found (.nothing _)
  exact run

/-- Such a text is a sequence of items with these signs. -/
theorem Lexed.exists_items {chars : List Char} {signs : List Sign}
    (lexed : Lexed settings spaced chars signs) :
    ∃ items, Sequence settings (items ++ [ending]) ∧ charsAll items = chars ∧
      items.map Item.sign = signs ∧
      (spaced = false → ∃ first others, items = first :: others ∧ first.trivia = []) := by
  have whole : ∀ items : List Item, charsAll (items ++ [ending]) = charsAll items := by
    simp [ending, Item.chars]
  induction lexed with
  | ended => exact ⟨[], sequence_ending, rfl, rfl, by simp⟩
  | @token spaced kind text rest signs spelled plain _ inductionHypothesis =>
      obtain ⟨items, sequence, split, same, _⟩ := inductionHypothesis
      refine ⟨⟨[], kind, text⟩ :: items, .inner ?_ spelled.inner sequence, ?_, ?_, ?_⟩
      · have front := whole items
        rw [split] at front
        refine (readBefore_iff spelled.inner).mpr ?_
        rw [List.append_eq, front]
        exact ⟨.nothing _, plain, spelled⟩
      · simp [split, Item.chars]
      · rw [List.map_cons, same]
        rfl
      · exact fun _ => ⟨_, _, rfl, rfl⟩
  | @blank text signs _ inductionHypothesis =>
      obtain ⟨_, sequence, split, same, first⟩ := inductionHypothesis
      obtain ⟨item, items, rfl, none_⟩ := first rfl
      obtain ⟨read, ⟨_, absurd_⟩ | ⟨inner, behind⟩⟩ := sequence_cons_iff.mp sequence
      · simp at absurd_
      obtain ⟨_, plain, spelled⟩ := (readBefore_iff inner).mp read
      refine ⟨⟨[' '], item.kind, item.text⟩ :: items, .inner ?_ inner behind, ?_, same, by simp⟩
      · exact (@readBefore_iff settings ⟨[' '], item.kind, item.text⟩ _ inner).mpr
          ⟨spelled.run_blank, plain, spelled⟩
      · rw [← split]
        simp [Item.chars, none_]

theorem sign_of_standsFor {source : List Char} {tokens : List Token} {items : List Item}
    (stands : List.Forall₂ (StandsFor source) tokens items) :
    tokens.map (Token.sign source) = items.map Item.sign := by
  induction stands with
  | nil => rfl
  | cons stands _ inductionHypothesis =>
      rw [List.map_cons, List.map_cons, inductionHypothesis, Token.sign, Item.sign, stands.1,
        stands.2]
      rfl

/-- A source of such a text has tokens with these signs. -/
theorem Lexed.signs_ofSource {chars : List Char} {signs : List Sign}
    (lexed : Lexed settings spaced chars signs) (fits : byteCount chars ≤ maxSourceLength) :
    (TokenRun.ofSource (String.ofList chars) settings).error = none ∧
      (Spot.ofSource (String.ofList chars) settings).signs = signs := by
  obtain ⟨items, sequence, rfl, same, _⟩ := lexed.exists_items
  have read := sequence.tokenize_eq fits
  have stands := @standsFor_placeAll items Position.start [] rfl []
  rw [List.nil_append, List.append_nil] at stands
  have source : (Spot.ofSource (String.ofList (charsAll items)) settings).source =
      charsAll items := String.toList_ofList
  refine ⟨(tokenize_eq_ok.mp read).1, ?_⟩
  rw [Spot.signs, (ahead_of_tokenize read).1, source, sign_of_standsFor stands, same]

/-! ### Text without blanks -/

section

variable {kind : TokenKind} {text : List Char} {next : Option Char}

theorem noBlank_of_all {holds : Char → Bool} (outside : holds ' ' = false)
    (all : ∀ char ∈ text, holds char = true) : ' ' ∉ text := by
  intro member
  rw [all ' ' member] at outside
  cases outside

theorem Decimal.noBlank {whole fraction exponent : List Char}
    (decimal : Decimal whole fraction exponent) : ' ' ∉ whole ++ fraction ++ exponent := by
  have digits : ∀ {chars : List Char}, (∀ char ∈ chars, char.isDigit = true) → ' ' ∉ chars :=
    noBlank_of_all (by decide)
  have noWhole := digits decimal.digits
  have noFraction : ' ' ∉ fraction := by
    rcases decimal.afterDot with rfl | ⟨others, rfl, all⟩
    · simp
    · simpa using digits all
  have noExponent : ' ' ∉ exponent := by
    rcases decimal.afterLetter with rfl | ⟨letter, sign, others, rfl, mark, signs, _, all⟩
    · simp
    · have noDigits := digits all
      rcases mark with rfl | rfl <;> rcases signs with rfl | rfl | rfl <;> simpa using noDigits
  simp [noWhole, noFraction, noExponent]

theorem Numeral.noBlank (numeral : Numeral kind text next) : ' ' ∉ text := by
  cases numeral with
  | decimal parts => exact parts.noBlank
  | hex mark _ all =>
      have none := noBlank_of_all (show isHexDigit ' ' = false by decide) all
      rcases mark with rfl | rfl <;> simpa using none
  | bit mark _ all =>
      have none := noBlank_of_all (show isBitDigit ' ' = false by decide) all
      rcases mark with rfl | rfl <;> simpa using none

/-- No number is a mark. -/
theorem Numeral.unmarked (numeral : Numeral kind text next) (mark : Punct) : kind ≠ .punct mark := by
  cases numeral with
  | decimal _ _ _ =>
      unfold decimalKind
      split
      · unfold integerToken
        split <;> simp
      · simp
  | _ => simp

theorem noBlank_of_needsQuoting {name : String} (plain : needsQuoting name = false) :
    ' ' ∉ name.toList := by
  obtain ⟨first, others, chars, starts, all⟩ := needsQuoting_eq_false_iff.mp plain
  rw [chars]
  rintro (_ | ⟨_, member⟩)
  · exact absurd starts (by decide)
  · exact absurd (all ' ' member) (by decide)

theorem Sign.ofText_eq (spelled : Spelled {} kind text none) :
    Sign.ofText text = [⟨kind, some (String.ofList text)⟩] := by
  have none : ([] : List Char).head? = none := rfl
  have scanned := (none ▸ spelled).scanLexeme_eq (Text.length_le_byteCount text)
  rw [List.append_nil] at scanned
  rw [Sign.ofText, scanned]
  rfl

theorem splitOn_blank {text : List Char} (noBlank : ' ' ∉ text) : text.splitOn ' ' = [text] := by
  have whole := @List.splitOn_intercalate _ [text] _ _ ' ' (by simpa using noBlank) (by simp)
  simpa using whole

end

/-! ### Pieces -/

/-- Whether a mark begins no longer mark, no number and no comment. -/
def Punct.isSingle (mark : Punct) : Bool :=
  mark.longer = [] ∧ mark ≠ .dot ∧ mark ≠ .minus ∧ mark ≠ .slash

theorem Punct.text_injective {mark other : Punct} (same : mark.text.toList = other.text.toList) :
    mark = other := by
  have read := @punctAt?_text mark [] (by simp)
  have again := @punctAt?_text other [] (by simp)
  rw [same, again] at read
  simpa using read.symm

namespace Piece

/-- The characters of pieces. -/
def chars (pieces : List Piece) : List Char := pieces.flatMap fun piece => piece.text.toList

@[simp] theorem chars_nil : chars [] = [] := rfl

@[simp] theorem chars_cons (piece : Piece) (pieces : List Piece) :
    chars (piece :: pieces) = piece.text.toList ++ chars pieces := List.flatMap_cons

theorem textOf_eq (pieces : List Piece) : textOf pieces = String.ofList (chars pieces) := by
  rw [← String.toList_inj, String.toList_ofList, textOf]
  induction pieces with
  | nil => rfl
  | cons piece pieces inductionHypothesis =>
      rw [List.map_cons, String.join_cons, String.toList_append, inductionHypothesis, chars_cons]

/-- The text of pieces is read as their signs. -/
def Lexed (settings : Settings) (spaced : Bool) (pieces : List Piece) : Prop :=
  SqlDml.Lexed settings spaced (chars pieces) (signsOf settings pieces)

/-- Whether a name may stand in front of pieces. -/
def endsName : List Piece → Bool
  | [] | .blank :: _ | .mark _ :: _ => true
  | _ => false

/-- Whether any token may stand in front of pieces. -/
def ends : List Piece → Bool
  | [] | .blank :: _ | .mark .comma :: _ | .mark .leftParen :: _ | .mark .rightParen :: _
  | .mark .rightBrace :: _ => true
  | _ => false

variable {pieces : List Piece}

theorem endsToken_of_ends (ended : ends pieces = true) : EndsToken (chars pieces).head? := by
  unfold ends at ended
  split at ended
  case h_1 => exact nofun
  case h_7 => cases ended
  all_goals
    rintro char ⟨⟩
    decide

theorem endsName_of_endsName (ended : endsName pieces = true) : EndsName (chars pieces).head? := by
  unfold endsName at ended
  split at ended
  · exact nofun
  · rintro char ⟨⟩
    decide
  · next mark _ =>
      rw [chars_cons]
      intro char first
      cases mark <;> (cases first; decide)
  · cases ended

/-- The sign of text that is one token and has no blank in it. -/
theorem signs_verbatim {text : String} {kind : TokenKind} (alone : Spelled {} kind text.toList none)
    (noBlank : ' ' ∉ text.toList) : (verbatim text).signs settings = [⟨kind, some text⟩] := by
  have whole := Sign.ofText_eq alone
  rw [String.ofList_toList] at whole
  rw [signs, splitOn_blank noBlank, List.flatMap_singleton, whole]

namespace Lexed

theorem nil : Lexed settings true [] := .ended

theorem blank (behind : Lexed settings false pieces) : Lexed settings true (.blank :: pieces) :=
  SqlDml.Lexed.blank behind

/-- A piece that is one token. -/
theorem token {piece : Piece} {kind : TokenKind}
    (sign : piece.signs settings = [⟨kind, some piece.text⟩])
    (spelled : Spelled settings kind piece.text.toList (chars pieces).head?)
    (plain : ¬ BeginsComment piece.text.toList (chars pieces))
    (behind : Lexed settings spaced pieces) : Lexed settings false (piece :: pieces) := by
  have lexed := SqlDml.Lexed.token spelled plain behind
  rw [String.ofList_toList] at lexed
  unfold Lexed signsOf
  rw [List.flatMap_cons, sign, chars_cons]
  exact lexed

/-- No comment begins with a token that neither a minus nor a slash begins. -/
theorem plain_of_ne {text rest : List Char} (noMinus : text ≠ ['-']) (noSlash : text ≠ ['/']) :
    ¬ BeginsComment text rest := by
  rintro (⟨minus, _⟩ | ⟨slash, _⟩)
  · exact noMinus minus
  · exact noSlash slash

/-- No comment begins with a token that is no mark. -/
theorem plain_of_unmarked {kind : TokenKind} {text rest : List Char} {next : Option Char}
    (spelled : Spelled settings kind text next) (unmarked : ∀ mark, kind ≠ .punct mark) :
    ¬ BeginsComment text rest := by
  refine plain_of_ne ?_ ?_
  · rintro rfl
    exact unmarked _ (spelled.kind_of_mark .minus)
  · rintro rfl
    exact unmarked _ (spelled.kind_of_mark .slash)

/-- No comment begins in front of what ends a token. -/
theorem plain_of_ends {text : List Char} (ended : ends pieces = true) :
    ¬ BeginsComment text (chars pieces) := by
  have stops := endsToken_of_ends ended
  rintro (⟨_, behind, same, _⟩ | ⟨_, star⟩)
  · rw [same] at stops
    exact absurd (stops '-' rfl) (by decide)
  · exact absurd (stops '*' star) (by decide)

theorem word (keyword : Keyword) (ended : ends pieces = true)
    (behind : Lexed settings spaced pieces) : Lexed settings false (.word keyword :: pieces) :=
  .token rfl (keyword.spelled (endsToken_of_ends ended).name) (plain_of_ends ended) behind

theorem string (value : String) (ended : ends pieces = true)
    (behind : Lexed settings spaced pieces) : Lexed settings false (.string value :: pieces) :=
  .token rfl (spelled_string settings value ((endsToken_of_ends ended).name.ne_quote (.inl rfl)))
    (plain_of_ends ended) behind

/-- A name or a label is written in front of a blank or a mark. -/
theorem ident {name : Ident} {accepts : Keyword → Bool} (labels : name.Labels settings accepts)
    (regular : name.Regular settings) (ended : endsName pieces = true)
    (behind : Lexed settings spaced pieces) : Lexed settings false (.ident name :: pieces) := by
  have spelled := Ident.Labels.spelled labels regular (endsName_of_endsName ended)
  exact .token rfl spelled (plain_of_unmarked spelled labels.unmarked) behind

theorem mark (punct : Punct) (ended : ends pieces = true)
    (behind : Lexed settings spaced pieces) : Lexed settings false (.mark punct :: pieces) :=
  .token rfl (punct.spelled (endsToken_of_ends ended)) (plain_of_ends ended) behind

/-- Text that is one token and has no blank in it. -/
theorem verbatim {text : String} {kind : TokenKind}
    (spelled : Spelled settings kind text.toList (chars pieces).head?)
    (alone : Spelled {} kind text.toList none) (noBlank : ' ' ∉ text.toList)
    (unmarked : ∀ mark, kind ≠ .punct mark) (behind : Lexed settings spaced pieces) :
    Lexed settings false (.verbatim text :: pieces) :=
  .token (signs_verbatim alone noBlank) spelled (plain_of_unmarked spelled unmarked) behind

/-- A mark that begins no longer mark, no number and no comment stands in front of anything. -/
theorem single (punct : Punct) (alone : punct.isSingle = true)
    (behind : Lexed settings spaced pieces) : Lexed settings false (.mark punct :: pieces) := by
  simp only [Punct.isSingle, decide_eq_true_eq] at alone
  obtain ⟨short, noDot, noMinus, noSlash⟩ := alone
  refine .token rfl (Punct.spelled_single short noDot) (plain_of_ne ?_ ?_) behind
  · intro minus
    exact noMinus (Punct.text_injective minus)
  · intro slash
    exact noSlash (Punct.text_injective slash)

end Lexed

end Piece

end SqlDml
