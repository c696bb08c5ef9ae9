import SqlDml.Proofs.Lexing.Calls

/-!
Contract: number tokens as the longest texts of a grammar.

Owns:
- the texts of the three forms of numbers, and the longest one at the front of a text;
- the forms in the order in which they are tried;
- a number is read as far as the longest text of its form reaches, and is malformed if and only if
  the characters of a name follow it.

Does not own: the same grammar in terms of what may follow a number; that is the numerals.
-/

namespace SqlDml

open Text

/-! ### Forms of numbers -/

/-- The forms that a number is written in. -/
inductive NumberForm where
  | hexadecimal
  | bits
  | decimal

namespace NumberForm

/-- The texts of a form.  The letter behind the zero, which marks the base, is of either case. -/
inductive Matches : NumberForm → List Char → Prop where
  | hexadecimal {letter : Char} {digits : List Char} (mark : letter = 'x' ∨ letter = 'X')
      (nonempty : digits ≠ []) (all : ∀ char ∈ digits, isHexDigit char = true) :
      Matches .hexadecimal ('0' :: letter :: digits)
  | bits {letter : Char} {digits : List Char} (mark : letter = 'b' ∨ letter = 'B')
      (nonempty : digits ≠ []) (all : ∀ char ∈ digits, isBitDigit char = true) :
      Matches .bits ('0' :: letter :: digits)
  | decimal {whole fraction exponent : List Char} (parts : Decimal whole fraction exponent) :
      Matches .decimal (whole ++ fraction ++ exponent)

/-- A text of a form stands at the front of some characters. -/
def OpensAt (form : NumberForm) (chars : List Char) : Prop :=
  ∃ text, form.Matches text ∧ text <+: chars

/-- The longest text of a form at the front of some characters. -/
structure Longest (form : NumberForm) (chars text : List Char) : Prop where
  isText : form.Matches text
  front : text <+: chars
  longest : ∀ other, form.Matches other → other <+: chars → other.length ≤ text.length

/-- The longest match at the front of some characters: the longest text of the first form that
matches there at all, where hexadecimal numbers come first and decimal ones last. -/
inductive Munch (chars : List Char) : NumberForm → List Char → Prop where
  | hexadecimal {text : List Char} (longest : Longest .hexadecimal chars text) :
      Munch chars .hexadecimal text
  | bits {text : List Char} (noHexadecimal : ¬ hexadecimal.OpensAt chars)
      (longest : Longest .bits chars text) : Munch chars .bits text
  | decimal {text : List Char} (noHexadecimal : ¬ hexadecimal.OpensAt chars)
      (noBits : ¬ bits.OpensAt chars) (longest : Longest .decimal chars text) :
      Munch chars .decimal text

/-- The token that a text of a form is: the digits behind the mark, the value of decimal digits that
a signed word of 64 bits can hold, and the text itself for every other number. -/
def token (form : NumberForm) (text : List Char) : TokenKind :=
  match form with
  | hexadecimal => .hex (String.ofList (text.drop 2))
  | bits => .bit (String.ofList (text.drop 2))
  | decimal =>
      if text.all Char.isDigit ∧ Nat.ofDigitChars 10 text 0 ≤ 2 ^ 63 - 1 then
        .integer (Nat.ofDigitChars 10 text 0)
      else .number (String.ofList text)

/-! ### Longest texts -/

/-- Where a text of a form stands at the front, there is a longest one. -/
theorem OpensAt.exists_longest {form : NumberForm} {chars : List Char}
    (opens : form.OpensAt chars) : ∃ text, Longest form chars text := by
  obtain ⟨text, isText, front⟩ := opens
  induction room : chars.length - text.length using Nat.strongRecOn generalizing text with
  | ind room inductionHypothesis =>
      by_cases longest : ∀ other, form.Matches other → other <+: chars → other.length ≤ text.length
      · exact ⟨text, isText, front, longest⟩
      · push Not at longest
        obtain ⟨other, otherText, otherFront, longer⟩ := longest
        have within := otherFront.length_le
        exact inductionHypothesis _ (by omega) other otherText otherFront rfl

/-- Behind the longest text of a form nothing stands that goes on with it. -/
theorem Longest.not_matches {form : NumberForm} {text more rest : List Char}
    (longest : Longest form (text ++ (more ++ rest)) text) (some_ : more ≠ []) :
    ¬ form.Matches (text ++ more) := by
  intro isText
  have short := longest.longest _ isText ⟨rest, by rw [List.append_assoc]⟩
  have positive := List.length_pos_iff.mpr some_
  rw [List.length_append] at short
  omega

/-- Behind the longest text of a form no character stands that goes on with it. -/
theorem Longest.next {form : NumberForm} {text rest : List Char}
    (longest : Longest form (text ++ rest) text) {isDigit : Char → Bool}
    (extends_ : ∀ char, isDigit char = true → form.Matches (text ++ [char])) :
    ∀ char ∈ rest.head?, isDigit char = false := by
  intro char first
  obtain ⟨behind, rfl⟩ := List.head?_eq_some_iff.mp first
  rw [← List.singleton_append] at longest
  rw [Bool.eq_false_iff]
  exact fun digit => longest.not_matches (List.cons_ne_nil _ _) (extends_ char digit)

end NumberForm

open NumberForm

/-! ### Decimal numbers -/

namespace Decimal

variable {whole fraction exponent : List Char}

theorem digits_concat {digits : List Char} (all : ∀ char ∈ digits, char.isDigit = true)
    {char : Char} (digit : char.isDigit = true) :
    ∀ other ∈ digits ++ [char], other.isDigit = true :=
  List.forall_mem_append.mpr ⟨all, List.forall_mem_singleton.mpr digit⟩

/-- Every decimal number goes on with a digit, in its last part. -/
theorem matches_concat (decimal : Decimal whole fraction exponent) {char : Char}
    (digit : char.isDigit = true) :
    NumberForm.decimal.Matches (whole ++ fraction ++ exponent ++ [char]) := by
  rcases decimal.afterLetter with rfl | ⟨letter, sign, digits, rfl, isLetter, isSign, some_, all⟩
  · rcases decimal.afterDot with rfl | ⟨digits, rfl, all⟩
    · have longer : Decimal (whole ++ [char]) [] [] :=
        ⟨digits_concat decimal.digits digit, .inl rfl, .inl rfl, .inl (by simp)⟩
      simpa using Matches.decimal longer
    · have nonempty : whole ≠ [] ∨ ∃ first others,
          '.' :: (digits ++ [char]) = '.' :: first :: others := by
        cases digits with
        | nil => exact .inr ⟨char, [], rfl⟩
        | cons first others => exact .inr ⟨first, others ++ [char], rfl⟩
      have longer : Decimal whole ('.' :: (digits ++ [char])) [] :=
        ⟨decimal.digits, .inr ⟨_, rfl, digits_concat all digit⟩, .inl rfl, nonempty⟩
      simpa using Matches.decimal longer
  · have longer : Decimal whole fraction (letter :: (sign ++ (digits ++ [char]))) :=
      ⟨decimal.digits, decimal.afterDot,
        .inr ⟨letter, sign, _, rfl, isLetter, isSign, by simp, digits_concat all digit⟩,
        decimal.nonempty⟩
    simpa using Matches.decimal longer

/-- The longest decimal number at the front of a text is taken by the scan. -/
theorem decimalRun_of_longest (decimal : Decimal whole fraction exponent) {rest : List Char}
    (longest : Longest .decimal (whole ++ fraction ++ exponent ++ rest)
      (whole ++ fraction ++ exponent)) :
    (decimalRun (whole ++ fraction ++ exponent ++ rest)).taken = whole ++ fraction ++ exponent ∧
      (decimalRun (whole ++ fraction ++ exponent ++ rest)).rest = rest ∧
      (decimalRun (whole ++ fraction ++ exponent ++ rest)).form (whole ++ fraction ++ exponent) =
        decimalKind whole fraction exponent := by
  refine decimal.decimalRun_eq (longest.next fun _ => decimal.matches_concat) ?_ ?_
  · -- a dot behind bare digits would be a fraction
    rintro rfl rfl dot
    have some_ : whole ≠ [] := decimal.nonempty.resolve_right (by simp)
    have dotted : Decimal whole ['.'] [] :=
      ⟨decimal.digits, .inr ⟨[], rfl, by simp⟩, .inl rfl, .inl some_⟩
    obtain ⟨behind, rfl⟩ := List.head?_eq_some_iff.mp dot
    rw [← List.singleton_append] at longest
    exact longest.not_matches (List.cons_ne_nil _ _) (by simpa using Matches.decimal dotted)
  · -- a whole exponent behind digits or a fraction would belong to the number
    rintro rfl
    have split := splitExponent_append rest
    have none_ : (splitExponent rest).1 = [] := by
      by_contra some_
      have more : Decimal whole fraction (splitExponent rest).1 :=
        ⟨decimal.digits, decimal.afterDot, splitExponent_form rest, decimal.nonempty⟩
      rw [← split] at longest
      exact longest.not_matches some_ (by simpa using Matches.decimal more)
    rw [none_, List.nil_append] at split
    exact Prod.ext none_ split

/-- The token of a decimal number by its text alone: only bare digits have no other character. -/
theorem decimalKind_eq (decimal : Decimal whole fraction exponent) :
    decimalKind whole fraction exponent =
      NumberForm.decimal.token (whole ++ fraction ++ exponent) := by
  by_cases bare : fraction = [] ∧ exponent = []
  · obtain ⟨rfl, rfl⟩ := bare
    have all : whole.all Char.isDigit = true := List.all_eq_true.mpr decimal.digits
    simp only [decimalKind, and_self, if_true, NumberForm.token, List.append_nil, all, true_and]
    have value : decimalValue whole = Nat.ofDigitChars 10 whole 0 := rfl
    rw [integerToken, value]
    exact if_congr (by omega) rfl rfl
  · have marked : (whole ++ fraction ++ exponent).all Char.isDigit = false := by
      rw [List.all_append, List.all_append]
      rcases decimal.afterDot with rfl | ⟨digits, rfl, _⟩
      · rcases decimal.afterLetter with rfl | ⟨letter, sign, digits, rfl, isLetter, _⟩
        · exact absurd ⟨rfl, rfl⟩ bare
        · have noDigit : letter.isDigit = false := by
            rcases isLetter with rfl | rfl <;> decide
          simp [noDigit]
      · have noDigit : Char.isDigit '.' = false := by decide
        simp [noDigit]
    rw [decimalKind, if_neg bare, NumberForm.token, marked]
    simp

end Decimal

/-! ### Hexadecimal and bit numbers -/

theorem markedRun?_eq_none {isDigit : Char → Bool} {build : String → TokenKind}
    {mark others : List Char} (noDigit : ¬ others.takeWhile isDigit ≠ []) :
    markedRun? isDigit build mark others = none := by
  rw [not_ne_iff] at noDigit
  simp [markedRun?, noDigit]

/-- Where no hexadecimal and no bit number opens, none is taken. -/
theorem radixRun?_eq_none {chars : List Char} (noHexadecimal : ¬ hexadecimal.OpensAt chars)
    (noBits : ¬ bits.OpensAt chars) : radixRun? chars = none := by
  have front : ∀ (isDigit : Char → Bool) (zero letter : Char) (others : List Char),
      zero :: letter :: others.takeWhile isDigit <+: zero :: letter :: others :=
    fun isDigit zero letter others =>
      (List.prefix_append_right_inj [zero, letter]).mpr (List.takeWhile_prefix isDigit)
  unfold radixRun?
  split
  case h_5 => rfl
  all_goals refine markedRun?_eq_none fun some_ => ?_
  · exact noHexadecimal ⟨_, .hexadecimal (.inl rfl) some_ (takeWhile_holds _ _), front _ _ _ _⟩
  · exact noHexadecimal ⟨_, .hexadecimal (.inr rfl) some_ (takeWhile_holds _ _), front _ _ _ _⟩
  · exact noBits ⟨_, .bits (.inl rfl) some_ (takeWhile_holds _ _), front _ _ _ _⟩
  · exact noBits ⟨_, .bits (.inr rfl) some_ (takeWhile_holds _ _), front _ _ _ _⟩

/-- The longest digits behind a mark are taken by the scan. -/
theorem radixRun?_of_longest {form : NumberForm} {text rest : List Char}
    (longest : Longest form (text ++ rest) text) (marked : form ≠ .decimal) :
    radixRun? (text ++ rest) = some ⟨fun _ => form.token text, text, rest⟩ := by
  obtain ⟨isText, -, -⟩ := id longest
  cases isText with
  | decimal _ => exact absurd rfl marked
  | @hexadecimal letter digits mark nonempty all =>
      have ends : ∀ char ∈ rest.head?, isHexDigit char = false := longest.next fun char digit =>
        .hexadecimal mark (by simp)
          (List.forall_mem_append.mpr ⟨all, List.forall_mem_singleton.mpr digit⟩)
      rcases mark with rfl | rfl <;> exact markedRun?_eq .hex ['0', _] nonempty all ends
  | @bits letter digits mark nonempty all =>
      have ends : ∀ char ∈ rest.head?, isBitDigit char = false := longest.next fun char digit =>
        .bits mark (by simp)
          (List.forall_mem_append.mpr ⟨all, List.forall_mem_singleton.mpr digit⟩)
      rcases mark with rfl | rfl <;> exact markedRun?_eq .bit ['0', _] nonempty all ends

/-! ### All forms -/

/-- The scan takes the longest match as the token that it is, whatever follows. -/
theorem NumberForm.Munch.run {form : NumberForm} {text rest : List Char}
    (munch : Munch (text ++ rest) form text) :
    let run := (radixRun? (text ++ rest)).getD (decimalRun (text ++ rest))
    run.taken = text ∧ run.rest = rest ∧ run.form text = form.token text := by
  cases munch with
  | hexadecimal longest =>
      rw [radixRun?_of_longest longest (by simp)]
      exact ⟨rfl, rfl, rfl⟩
  | bits _ longest =>
      rw [radixRun?_of_longest longest (by simp)]
      exact ⟨rfl, rfl, rfl⟩
  | decimal noHexadecimal noBits longest =>
      rw [radixRun?_eq_none noHexadecimal noBits]
      obtain ⟨isText, -, -⟩ := id longest
      cases isText with
      | decimal parts =>
          rw [← parts.decimalKind_eq]
          exact parts.decimalRun_of_longest longest

/-- A number runs on where the character of a name follows it. -/
theorem finishNumber_of_runsOn {run : NumberRun}
    (runsOn : ∃ char ∈ run.rest.head?, isNameChar char = true) :
    finishNumber run =
      .failure (.malformedNumber (String.ofList (run.taken ++ run.rest.takeWhile isNameChar)))
        (run.taken ++ run.rest.takeWhile isNameChar) (run.rest.dropWhile isNameChar) := by
  obtain ⟨char, first, inside⟩ := runsOn
  obtain ⟨behind, split⟩ := List.head?_eq_some_iff.mp first
  have some_ : (run.rest.takeWhile isNameChar).isEmpty = false := by
    rw [split, List.takeWhile_cons_of_pos inside]
    rfl
  simp [finishNumber, some_]

/-- Where a number may begin, there is a longest match. -/
theorem NumberForm.exists_munch {first : Char} {others : List Char}
    (opens : first.isDigit = true ∨ first = '.' ∧ opensDigits others = true) :
    ∃ form text, Munch (first :: others) form text := by
  by_cases hex : hexadecimal.OpensAt (first :: others)
  · obtain ⟨text, longest⟩ := hex.exists_longest
    exact ⟨_, text, .hexadecimal longest⟩
  by_cases bit : bits.OpensAt (first :: others)
  · obtain ⟨text, longest⟩ := bit.exists_longest
    exact ⟨_, text, .bits hex longest⟩
  have opensDecimal : decimal.OpensAt (first :: others) := by
    rcases opens with digit | ⟨rfl, digits⟩
    · have parts : Decimal [first] [] [] :=
        ⟨List.forall_mem_singleton.mpr digit, .inl rfl, .inl rfl, .inl (by simp)⟩
      exact ⟨_, .decimal parts, others, rfl⟩
    · cases others with
      | nil => cases digits
      | cons digit behind =>
          have parts : Decimal [] ['.', digit] [] :=
            ⟨by simp, .inr ⟨[digit], rfl, List.forall_mem_singleton.mpr digits⟩, .inl rfl,
              .inr ⟨digit, [], rfl⟩⟩
          exact ⟨_, .decimal parts, behind, rfl⟩
  obtain ⟨text, longest⟩ := opensDecimal.exists_longest
  exact ⟨_, text, .decimal hex bit longest⟩

/-- Wherever a number may begin there is a longest match of the grammar, and the lexer reads as far
as it reaches.  Unless the character of a name follows, the token is the one of the match and covers
it; else the number is malformed together with all such characters, and the lexer stands behind
them. -/
theorem Lexer.scanToken_of_number {source : String} {lexer : Lexer} (stands : lexer.Stands source)
    (fits : source.utf8ByteSize ≤ maxSourceLength) {first : Char} {others : List Char}
    (ahead : lexer.rest = first :: others)
    (opens : first.isDigit = true ∨ first = '.' ∧ opensDigits others = true) :
    (∃ form text, Munch lexer.rest form text) ∧
      ∀ form text rest, Munch lexer.rest form text → lexer.rest = text ++ rest →
        ((∃ next ∈ rest.head?, isNameChar next = true) →
          lexer.scanToken =
            (.error ⟨.malformedNumber (String.ofList (text ++ rest.takeWhile isNameChar)),
                lexer.position⟩,
              lexer.move (text ++ rest.takeWhile isNameChar) (rest.dropWhile isNameChar))) ∧
        ((∀ next ∈ rest.head?, isNameChar next = false) →
          lexer.scanToken =
            (.ok ⟨form.token text,
                Span.between lexer.position (lexer.position.advanceAll text)⟩,
              lexer.move text rest)) := by
  have plain : isPlainStart first = true := by
    rcases opens with digit | ⟨rfl, _⟩
    · exact isPlainStart_of_isNameChar (by simp [isNameChar, digit])
    · decide
  have scanned := scanToken_of_absent stands.sound (stands.size ▸ fits)
    (ahead ▸ Trivia.first_of_plainStart plain)
  rw [ahead, scanLexeme_number opens, ← ahead] at scanned
  refine ⟨ahead ▸ exists_munch opens, fun form text rest munch split => ?_⟩
  rw [split] at munch scanned
  obtain ⟨taken, left, token⟩ := munch.run
  rw [scanNumber] at scanned
  constructor
  · intro runsOn
    rw [finishNumber_of_runsOn (by rwa [left]), taken, left] at scanned
    exact scanned
  · intro ends
    rw [finishNumber_of_ends (by rwa [left]), taken, left, token] at scanned
    exact scanned

/-- A digit alone is an integer, and a hexadecimal number runs on into a letter that is no digit. -/
theorem Lexer.scanToken_of_integer_and_malformed :
    let integer := Lexer.ofSource "7" {}
    let runsOn := Lexer.ofSource "0x1g" {}
    integer.scanToken.1 = .ok ⟨.integer 7, ⟨0, 1, 1, 1⟩⟩ ∧
      runsOn.scanToken.1 = .error ⟨.malformedNumber "0x1g", Position.start⟩ ∧
      runsOn.scanToken.2.rest = [] := by
  intro integer runsOn
  have unmarked : ∀ form : NumberForm, form ≠ .decimal → ¬ form.OpensAt ['7'] := by
    rintro form marked ⟨text, isText, front⟩
    cases isText with
    | decimal _ => exact marked rfl
    | _ => simp at front
  have seven : Munch ['7'] .decimal ['7'] := by
    have parts : Decimal ['7'] [] [] := ⟨by simp, .inl rfl, .inl rfl, .inl (by simp)⟩
    exact .decimal (unmarked _ (by simp)) (unmarked _ (by simp))
      ⟨.decimal parts, List.prefix_rfl, fun _ _ front => front.length_le⟩
  have hex : Munch ['0', 'x', '1', 'g'] .hexadecimal ['0', 'x', '1'] := by
    have one : ∀ digit ∈ ['1'], isHexDigit digit = true := List.forall_mem_singleton.mpr rfl
    refine .hexadecimal ⟨.hexadecimal (.inl rfl) (by simp) one, ⟨['g'], rfl⟩, ?_⟩
    intro other isText front
    by_contra longer
    simp only [List.length_cons, List.length_nil] at longer
    -- the only longer prefix is all of the text, in which `g` is no digit
    have whole := front.eq_of_length_le (by simp only [List.length_cons, List.length_nil]; omega)
    subst whole
    cases isText with
    | hexadecimal _ _ all => exact absurd (all 'g' (by simp)) (by decide)
  have read := ((scanToken_of_number (Stands.ofSource "7" {}) (by decide +kernel)
    (show _ = '7' :: [] from rfl) (.inl (by decide))).2 _ _ [] seven rfl).2 (by simp)
  have stuck := ((scanToken_of_number (Stands.ofSource "0x1g" {}) (by decide +kernel)
    (show _ = '0' :: ['x', '1', 'g'] from rfl) (.inl (by decide))).2 _ _ ['g'] hex rfl).1
    ⟨'g', rfl, by decide⟩
  rw [read, stuck]
  exact ⟨by decide +kernel, by decide +kernel, by decide +kernel⟩

end SqlDml
