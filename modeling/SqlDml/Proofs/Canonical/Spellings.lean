import SqlDml.Proofs.Canonical.Names
import SqlDml.Proofs.Lexing.Respelled
import SqlDml.Proofs.Shapes.Shaped

/-!
Contract: what is written for a token spells it.

Owns:
- the characters that can stand behind the tokens of canonical text;
- the spelling of written numbers, strings, names, keywords and marks;
- constants and names that their canonical text does not change.

Does not own: sequences of tokens.
-/

namespace SqlDml

/-! ### Behind a token -/

/-- The characters that can stand behind any token of canonical text but an opening mark or a dot. -/
def delimiters : List Char := [' ', ',', '(', ')', '\x7d']

/-- What stands behind a token ends it. -/
def EndsToken (next : Option Char) : Prop := ∀ char ∈ next, char ∈ delimiters

/-- What stands behind a name ends it, in quotes or not. -/
def EndsName (next : Option Char) : Prop :=
  ∀ char ∈ next, isNameChar char = false ∧ char ≠ '\'' ∧ char ≠ '"' ∧ char ≠ '\x60'

variable {next : Option Char}

theorem EndsToken.name (ends : EndsToken next) : EndsName next := by
  have all : delimiters.all (fun char =>
      !isNameChar char && char != '\'' && char != '"' && char != '\x60') = true := by decide
  intro char first
  simpa [and_assoc] using List.all_eq_true.mp all char (ends char first)

theorem EndsToken.noDot (ends : EndsToken next) : next ≠ some '.' := by
  rintro rfl
  exact absurd (ends '.' rfl) (by decide)

theorem EndsName.word (ends : EndsName next) : ∀ char ∈ next, isNameChar char = false :=
  fun char first => (ends char first).1

theorem EndsName.ne_quote (ends : EndsName next) {quote : Char}
    (quotes : quote = '\'' ∨ quote = '"' ∨ quote = '\x60') : next ≠ some quote := by
  rintro rfl
  have known := ends quote rfl
  rcases quotes with rfl | rfl | rfl <;> simp at known

/-! ### Numbers -/

variable {settings : Settings}

/-- The digits of an integer are a decimal number, and stand for the integer. -/
theorem decimal_toString (value : Nat) :
    Decimal (toString value).toList [] [] ∧ decimalValue (toString value).toList = value := by
  have known : (toString value).toList = Nat.toDigits 10 value := by
    simp [toString, Nat.repr]
  have nonempty : Nat.toDigits 10 value ≠ [] := by
    rw [Nat.toDigits_eq_if (by decide)]
    split <;> simp
  have folded : decimalValue (Nat.toDigits 10 value) =
      Nat.ofDigitChars 10 (Nat.toDigits 10 value) 0 := rfl
  rw [known]
  refine ⟨⟨?_, .inl rfl, .inl rfl, .inl nonempty⟩, ?_⟩
  · exact fun char member => Nat.isDigit_of_mem_toDigits (by decide) (by decide) member
  · rw [folded, Nat.ofDigitChars_toDigits (by decide) (by decide)]

theorem numeral_integer {value : Nat} (small : value < 9223372036854775808)
    (ends : EndsToken next) : Numeral (.integer value) (toString value).toList next := by
  obtain ⟨decimal, same⟩ := decimal_toString value
  have numeral := Numeral.decimal decimal ends.name.word fun _ _ => ends.noDot
  simpa only [decimalKind, and_self, if_true, integerToken, same, if_pos small, List.append_nil]
    using numeral

/-- The text of a decimal number that is no small integer. -/
def IsNumberText (text : String) : Prop := Numeral (.number text) text.toList none

theorem numeral_number {text : String} (number : IsNumberText text) (ends : EndsToken next) :
    Numeral (.number text) text.toList next := by
  unfold IsNumberText at number
  generalize kind : TokenKind.number text = found at number ⊢
  generalize text.toList = chars at number ⊢
  cases number with
  | decimal parts _ _ => exact .decimal parts ends.name.word fun _ _ => ends.noDot
  | hex _ _ _ _ => cases kind
  | bit _ _ _ _ => cases kind

/-- What is written for a hexadecimal literal. -/
theorem spelled_hex {digits : String} (all : ∀ char ∈ digits.toList, isHexDigit char = true)
    (ends : EndsToken next) :
    Spelled settings (.hex digits) (if digits.isEmpty then "X''" else "0x" ++ digits).toList
      next := by
  split
  · next empty =>
      rw [String.isEmpty_iff.mp empty]
      have none : ∀ char ∈ ([] : List Char), isHexDigit char = true := by simp
      exact .hexString (.inr rfl) none rfl
  · next some =>
      have nonempty : digits.toList ≠ [] := by simpa [String.isEmpty_iff] using some
      have numeral := Numeral.hex (.inl rfl) nonempty all ends.name.word
      rw [String.ofList_toList] at numeral
      have spelled : Spelled settings _ _ next := .number numeral
      simpa using spelled

/-- What is written for a bit literal. -/
theorem spelled_bit {digits : String} (all : ∀ char ∈ digits.toList, isBitDigit char = true)
    (ends : EndsToken next) :
    Spelled settings (.bit digits) (if digits.isEmpty then "B''" else "0b" ++ digits).toList
      next := by
  split
  · next empty =>
      rw [String.isEmpty_iff.mp empty]
      have none : ∀ char ∈ ([] : List Char), isBitDigit char = true := by simp
      exact .bitString (.inr rfl) none
  · next some =>
      have nonempty : digits.toList ≠ [] := by simpa [String.isEmpty_iff] using some
      have numeral := Numeral.bit (.inl rfl) nonempty all ends.name.word
      rw [String.ofList_toList] at numeral
      have spelled : Spelled settings _ _ next := .number numeral
      simpa using spelled

/-! ### Strings -/

/-- A string that needs no escapes, where strings have none. -/
def Unescaped (settings : Settings) (value : String) : Prop :=
  settings.noBackslashEscapes = true → '\\' ∉ value.toList ∧ '\x00' ∉ value.toList

/-- A written string is read as its value where strings have escapes. -/
theorem quotedText_escapeChar (value : List Char) :
    QuotedText '\'' true value (value.flatMap escapeChar ++ ['\'']) := by
  induction value with
  | nil => exact .closed
  | cons char value behind =>
      rw [List.flatMap_cons, List.append_assoc, escapeChar]
      by_cases quote : char = '\''
      · subst quote
        exact .doubled behind
      by_cases backslash : char = '\\'
      · subst backslash
        exact .escaped '\\' rfl (by decide) behind
      by_cases zero : char = '\x00'
      · subst zero
        exact .escaped '0' rfl (by decide) behind
      · rw [if_neg quote, if_neg backslash, if_neg zero]
        exact .plain quote (fun _ => backslash) behind

/-- Where strings have no escapes, a written string is read with what was to escape something. -/
theorem quotedText_unescapedChar (value : List Char) :
    QuotedText '\'' false (value.flatMap unescapedChar) (value.flatMap escapeChar ++ ['\'']) := by
  induction value with
  | nil => exact .closed
  | cons char value behind =>
      rw [List.flatMap_cons, List.flatMap_cons, List.append_assoc, escapeChar, unescapedChar]
      by_cases quote : char = '\''
      · subst quote
        exact .doubled behind
      by_cases backslash : char = '\\'
      · subst backslash
        exact .plain (by decide) (by simp) (.plain (by decide) (by simp) behind)
      by_cases zero : char = '\x00'
      · subst zero
        exact .plain (by decide) (by simp) (.plain (by decide) (by simp) behind)
      · rw [if_neg quote, if_neg backslash, if_neg zero]
        exact .plain quote (by simp) behind

theorem spelled_string (settings : Settings) (value : String) (ends : next ≠ some '\'') :
    Spelled settings (.string (settings.reread value) '\'') (quoteString value).toList next := by
  have opens : settings.OpensString ['\''] '\'' := .single
  have written : (quoteString value).toList =
      ['\''] ++ (value.toList.flatMap escapeChar ++ ['\'']) := by
    simp [quoteString]
  rw [written, Settings.reread]
  cases off : settings.noBackslashEscapes with
  | true =>
      refine .string opens ?_ ends
      rw [off]
      exact quotedText_unescapedChar value.toList
  | false =>
      have body : QuotedText '\'' (!settings.noBackslashEscapes) value.toList
          (value.toList.flatMap escapeChar ++ ['\'']) := by
        rw [off]
        exact quotedText_escapeChar value.toList
      have spelled := Spelled.string opens body ends
      rwa [String.ofList_toList] at spelled

/-- What is read for characters without escapes is longer than they are, one character for each that
was to be escaped. -/
theorem length_flatMap_unescapedChar (value : List Char) :
    (value.flatMap unescapedChar).length =
      value.length + value.countP fun char => char = '\\' ∨ char = '\x00' := by
  induction value with
  | nil => rfl
  | cons char value inductionHypothesis =>
      rw [List.flatMap_cons, List.length_append, inductionHypothesis, List.countP_cons,
        List.length_cons, unescapedChar]
      by_cases backslash : char = '\\'
      · simp [backslash]
        omega
      by_cases zero : char = '\x00'
      · simp [zero]
        omega
      · simp [backslash, zero]
        omega

/-- A written string is read as itself if it needs no escapes. -/
theorem reread_eq_iff {value : String} : settings.reread value = value ↔ Unescaped settings value := by
  rw [Settings.reread, Unescaped]
  cases off : settings.noBackslashEscapes with
  | false => simp
  | true =>
      simp only [if_true, true_implies]
      constructor
      · intro same
        have chars : value.toList.flatMap unescapedChar = value.toList := by
          rw [← String.toList_inj, String.toList_ofList] at same
          exact same
        have none_ := length_flatMap_unescapedChar value.toList
        rw [chars, Nat.left_eq_add, List.countP_eq_zero] at none_
        exact ⟨fun member => none_ _ member (by decide), fun member => none_ _ member (by decide)⟩
      · rintro ⟨noBackslash, noZero⟩
        have plain : ∀ char ∈ value.toList, unescapedChar char = [char] := by
          intro char member
          rw [unescapedChar, if_neg, if_neg]
          · rintro rfl
            exact noZero member
          · rintro rfl
            exact noBackslash member
        rw [List.flatMap_congr plain, List.flatMap_singleton', String.ofList_toList]

/-! ### Names -/

/-- Whether every backslash stands in front of a wildcard, where it is kept. -/
def keepsBackslashes : List Char → Bool
  | [] => true
  | '\\' :: '%' :: chars => keepsBackslashes chars
  | '\\' :: '_' :: chars => keepsBackslashes chars
  | char :: chars => char != '\\' && keepsBackslashes chars

/-- A label that its canonical text does not change: as a string it has no backslash that would
escape something. -/
def Ident.Regular (settings : Settings) (ident : Ident) : Prop :=
  settings.noBackslashEscapes = false →
    (∃ quote, ident.quote = some quote ∧ settings.QuotesString quote) →
      keepsBackslashes ident.value.toList = true

/-- A string between quotes that are written twice inside. -/
theorem quotedText_of_keepsBackslashes {quote : Char} {escapes : Bool} {value : List Char}
    (mark : settings.QuotesString quote) (kept : escapes = true → keepsBackslashes value = true) :
    QuotedText quote escapes value (value.flatMap (doubleQuote quote) ++ [quote]) := by
  cases escapes with
  | false => exact quotedText_doubleQuote quote value
  | true =>
      have others : quote ≠ '\\' ∧ '%' ≠ quote ∧ '_' ≠ quote ∧ '\\' ≠ quote := by
        rcases mark with rfl | ⟨rfl, _⟩ <;> decide
      obtain ⟨noEscape, noPercent, noLine, noBackslash⟩ := others
      specialize kept rfl
      -- a backslash and the wildcard behind it are one escape, which stands for both
      induction value using keepsBackslashes.induct with
      | case1 => exact .closed
      | case2 chars inductionHypothesis =>
          have escaped := QuotedText.escaped '%' rfl noEscape (inductionHypothesis kept)
          simpa [doubleQuote, noBackslash, noPercent, unescape] using escaped
      | case3 chars inductionHypothesis =>
          have escaped := QuotedText.escaped '_' rfl noEscape (inductionHypothesis kept)
          simpa [doubleQuote, noBackslash, noLine, unescape] using escaped
      | case4 char chars apart apartLine inductionHypothesis =>
          rw [keepsBackslashes, Bool.and_eq_true, bne_iff_ne] at kept
          · rw [List.flatMap_cons, List.append_assoc, doubleQuote]
            split
            · next same =>
                subst same
                exact .doubled (inductionHypothesis kept.2)
            · next other => exact .plain other (fun _ => kept.1) (inductionHypothesis kept.2)
          · exact apart
          · exact apartLine

variable {accepts : Keyword → Bool} {ident : Ident}

theorem spelled_wordKind {name : String} (plain : needsQuoting name = false)
    (ends : EndsName next) : Spelled settings (wordKind name.toList) name.toList next := by
  obtain ⟨first, others, chars, starts, all⟩ := needsQuoting_eq_false_iff.mp plain
  rw [chars]
  exact .word starts all ends.word fun _ => ends.ne_quote (.inl rfl)

/-- What is written for a name or a label spells it. -/
theorem Ident.Labels.spelled (labels : ident.Labels settings accepts)
    (regular : ident.Regular settings) (ends : EndsName next) :
    Spelled settings (ident.kind settings) ident.render.toList next := by
  have quoteMark : ∀ {quote : Char}, settings.QuotesName quote →
      quote = '\'' ∨ quote = '"' ∨ quote = '\x60' := by
    rintro quote (rfl | ⟨rfl, _⟩)
    · exact .inr (.inr rfl)
    · exact .inr (.inl rfl)
  rcases labels with named | ⟨quote, quoted, surrounds⟩
  · unfold Ident.Named at named
    rcases Ident.Named.kind_cases named with
      ⟨quote, quoted, kind⟩ | ⟨unquoted, render, kind⟩
    · rw [quoted] at named
      have written : ident.render = quoteName quote ident.value := by rw [Ident.render, quoted]
      rw [kind, written]
      exact spelled_quotedWord_iff.mpr ⟨named, rfl, ends.ne_quote (quoteMark named)⟩
    · rw [unquoted] at named
      have spelled : Spelled settings _ _ next := spelled_wordKind named.1 ends
      rw [render]
      rcases kind with ⟨kind, unknown⟩ | ⟨keyword, kind, known, _⟩
      · rw [wordKind, unknown, String.ofList_toList] at spelled
        rwa [kind]
      · rw [wordKind, known] at spelled
        rwa [kind]
  · have kind : ident.kind settings = .string ident.value quote := by
      unfold Ident.kind
      rw [quoted]
      exact if_pos surrounds
    have written : ident.render = quoteName quote ident.value := by rw [Ident.render, quoted]
    have body : QuotedText quote (!settings.noBackslashEscapes) ident.value.toList
        (ident.value.toList.flatMap (doubleQuote quote) ++ [quote]) :=
      quotedText_of_keepsBackslashes surrounds fun on =>
        regular (by simpa using on) ⟨quote, quoted, surrounds⟩
    have opens : settings.OpensString [quote] quote := by
      rcases surrounds with rfl | ⟨rfl, plain⟩
      · exact .single
      · exact .double plain
    have apart : next ≠ some quote := by
      refine ends.ne_quote ?_
      rcases surrounds with rfl | ⟨rfl, _⟩
      · exact .inl rfl
      · exact .inr (.inl rfl)
    have spelled := Spelled.string opens body apart
    rw [String.ofList_toList] at spelled
    rw [kind, written, toList_quoteName]
    exact spelled

/-- A name in quotes keeps them, and a word is no string. -/
theorem Ident.Named.regular (named : ident.Named settings accepts) : ident.Regular settings := by
  rintro _ ⟨quote, quoted, surrounds⟩
  unfold Ident.Named at named
  rw [quoted] at named
  rcases named with rfl | ⟨rfl, ansi⟩
  · rcases surrounds with same | ⟨same, _⟩ <;> cases same
  · rcases surrounds with same | ⟨_, plain⟩
    · cases same
    · rw [plain] at ansi
      cases ansi

/-! ### Keywords and marks -/

theorem Keyword.spelled (keyword : Keyword) (ends : EndsName next) :
    Spelled settings (.keyword keyword) keyword.spelling.toList next := by
  have plain : needsQuoting keyword.spelling = false := by cases keyword <;> decide
  have spelled : Spelled settings _ _ next := spelled_wordKind plain ends
  rwa [wordKind, Keyword.ofWord?_spelling] at spelled

theorem Punct.spelled (mark : Punct) (ends : EndsToken next) :
    Spelled settings (.punct mark) mark.text.toList next := by
  have apart : delimiters.all (fun char => !mark.longer.contains char && !char.isDigit) = true := by
    cases mark <;> decide
  have holds : ∀ char ∈ next, char ∉ mark.longer ∧ char.isDigit = false := by
    intro char first
    simpa using List.all_eq_true.mp apart char (ends char first)
  exact .mark (fun char first => (holds char first).1) fun _ char first => (holds char first).2

/-- A mark that begins no longer mark and no number is read in front of anything. -/
theorem Punct.spelled_single {mark : Punct} (alone : mark.longer = []) (noDot : mark ≠ .dot) :
    Spelled settings (.punct mark) mark.text.toList next :=
  .mark (by simp [alone]) fun same => absurd same noDot

end SqlDml
