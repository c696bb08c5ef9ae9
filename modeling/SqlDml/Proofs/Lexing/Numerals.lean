import SqlDml.Proofs.Lexing.Taken

/-!
Contract: the texts of numbers, apart from what follows them.

Owns:
- characters of one kind in front of others;
- decimal, hexadecimal and bit numerals, and which characters may stand behind them;
- that exactly these are read as numbers.

Does not own: numbers that are written as quoted digits.
-/

namespace SqlDml

/-! ### Stretches of characters -/

/-- A text that begins with no character of a kind. -/
theorem takeWhile_of_ends {holds : Char → Bool} {rest : List Char}
    (ends : ∀ char ∈ rest.head?, holds char = false) :
    rest.takeWhile holds = [] ∧ rest.dropWhile holds = rest := by
  cases rest with
  | nil => exact ⟨rfl, rfl⟩
  | cons char rest =>
      have first := ends char rfl
      exact ⟨List.takeWhile_cons_of_neg (by simp [first]),
        List.dropWhile_cons_of_neg (by simp [first])⟩

/-- Characters of a kind in front of a text that begins with none. -/
theorem takeWhile_append {holds : Char → Bool} {front rest : List Char}
    (all : ∀ char ∈ front, holds char = true) (ends : ∀ char ∈ rest.head?, holds char = false) :
    (front ++ rest).takeWhile holds = front ∧ (front ++ rest).dropWhile holds = rest := by
  have none := takeWhile_of_ends ends
  rw [List.takeWhile_append_of_pos all, List.dropWhile_append_of_pos all, none.1, none.2]
  simp

theorem takeWhile_holds (holds : Char → Bool) (chars : List Char) :
    ∀ char ∈ chars.takeWhile holds, holds char = true :=
  List.all_eq_true.mp List.all_takeWhile

theorem dropWhile_ends (holds : Char → Bool) (chars : List Char) :
    ∀ char ∈ (chars.dropWhile holds).head?, holds char = false := by
  intro char first
  have stopped := List.head?_dropWhile_not holds chars
  rw [first] at stopped
  simpa using stopped

theorem isDigit_of_not_nameChar {char : Char} (outside : isNameChar char = false) :
    char.isDigit = false := by
  simp only [isNameChar, Bool.or_eq_false_iff] at outside
  exact outside.2

/-! ### Numerals -/

/-- The parts of a decimal number: its digits, its fraction and its exponent. -/
structure Decimal (whole fraction exponent : List Char) : Prop where
  digits : ∀ char ∈ whole, char.isDigit = true
  afterDot : fraction = [] ∨ ∃ digits, fraction = '.' :: digits ∧
    ∀ char ∈ digits, char.isDigit = true
  afterLetter : exponent = [] ∨ ∃ letter sign digits, exponent = letter :: (sign ++ digits) ∧
    (letter = 'e' ∨ letter = 'E') ∧ (sign = [] ∨ sign = ['+'] ∨ sign = ['-']) ∧ digits ≠ [] ∧
    ∀ char ∈ digits, char.isDigit = true
  nonempty : whole ≠ [] ∨ ∃ digit digits, fraction = '.' :: digit :: digits

/-- The token of a decimal number. -/
def decimalKind (whole fraction exponent : List Char) : TokenKind :=
  if fraction = [] ∧ exponent = [] then integerToken whole
  else .number (String.ofList (whole ++ fraction ++ exponent))

/-- A numeral, with the token that it is and the character behind it. -/
inductive Numeral : TokenKind → List Char → Option Char → Prop where
  | decimal {whole fraction exponent : List Char} {next : Option Char}
      (parts : Decimal whole fraction exponent) (ends : ∀ char ∈ next, isNameChar char = false)
      (noDot : fraction = [] → exponent = [] → next ≠ some '.') :
      Numeral (decimalKind whole fraction exponent) (whole ++ fraction ++ exponent) next
  | hex {letter : Char} {digits : List Char} {next : Option Char}
      (mark : letter = 'x' ∨ letter = 'X') (nonempty : digits ≠ [])
      (all : ∀ char ∈ digits, isHexDigit char = true)
      (ends : ∀ char ∈ next, isNameChar char = false) :
      Numeral (.hex (String.ofList digits)) ('0' :: letter :: digits) next
  | bit {letter : Char} {digits : List Char} {next : Option Char}
      (mark : letter = 'b' ∨ letter = 'B') (nonempty : digits ≠ [])
      (all : ∀ char ∈ digits, isBitDigit char = true)
      (ends : ∀ char ∈ next, isNameChar char = false) :
      Numeral (.bit (String.ofList digits)) ('0' :: letter :: digits) next

/-! ### What follows a number -/

/-- A number ends where no character of a name follows it. -/
theorem finishNumber_of_ends {run : NumberRun}
    (ends : ∀ char ∈ run.rest.head?, isNameChar char = false) :
    finishNumber run = .token (run.form run.taken) run.taken run.rest := by
  simp [finishNumber, (takeWhile_of_ends ends).1]

/-! ### Decimal numbers -/

namespace Decimal

variable {whole fraction exponent rest : List Char} (decimal : Decimal whole fraction exponent)
  (noDigit : ∀ char ∈ rest.head?, char.isDigit = false)
  (noDot : fraction = [] → exponent = [] → rest.head? ≠ some '.')
  (noExponent : exponent = [] → splitExponent rest = ([], rest))

section

include decimal noDigit

theorem exponent_head : ∀ char ∈ (exponent ++ rest).head?, char.isDigit = false := by
  rcases decimal.afterLetter with rfl | ⟨letter, sign, digits, rfl, rfl | rfl, _⟩
  · exact noDigit
  · rintro char ⟨⟩
    decide
  · rintro char ⟨⟩
    decide

theorem fraction_head :
    ∀ char ∈ (fraction ++ (exponent ++ rest)).head?, char.isDigit = false := by
  rcases decimal.afterDot with rfl | ⟨digits, rfl, _⟩
  · exact decimal.exponent_head noDigit
  · rintro char ⟨⟩
    decide

theorem splitDigits_eq :
    splitDigits (whole ++ (fraction ++ (exponent ++ rest))) =
      (whole, fraction ++ (exponent ++ rest)) := by
  obtain ⟨taken, left⟩ := takeWhile_append decimal.digits (decimal.fraction_head noDigit)
  rw [splitDigits, taken, left]

include noExponent in
theorem splitExponent_eq : splitExponent (exponent ++ rest) = (exponent, rest) := by
  rcases decimal.afterLetter with rfl | ⟨letter, sign, digits, rfl, isLetter, isSign, some, all⟩
  · exact noExponent rfl
  · obtain ⟨taken, left⟩ := takeWhile_append all noDigit
    have signed : splitSign (sign ++ digits ++ rest) = (sign, digits ++ rest) := by
      rcases isSign with rfl | rfl | rfl
      · obtain ⟨digit, digits, rfl⟩ := List.exists_cons_of_ne_nil some
        have first := all digit List.mem_cons_self
        simp only [List.nil_append, List.cons_append]
        unfold splitSign
        split
        · next same => cases same; simp at first
        · next same => cases same; simp at first
        · rfl
      · rfl
      · rfl
    simp only [List.cons_append, splitExponent]
    rw [if_pos isLetter, signed]
    simp [splitDigits, taken, left, some]

include noDot

theorem splitFraction_eq :
    splitFraction (fraction ++ (exponent ++ rest)) = (fraction, exponent ++ rest) := by
  rcases decimal.afterDot with rfl | ⟨digits, rfl, all⟩
  · have dotless : (exponent ++ rest).head? ≠ some '.' := by
      rcases decimal.afterLetter with rfl | ⟨letter, sign, digits, rfl, rfl | rfl, _⟩
      · exact noDot rfl rfl
      · simp
      · simp
    rw [List.nil_append]
    unfold splitFraction
    split
    · next others same =>
        rw [same] at dotless
        exact absurd rfl dotless
    · rfl
  · obtain ⟨taken, left⟩ := takeWhile_append all (decimal.exponent_head noDigit)
    simp only [splitFraction, List.cons_append, splitDigits, taken, left]

include noExponent

/-- A decimal number is taken up to a text that does not go on with it. -/
theorem decimalRun_eq :
    (decimalRun (whole ++ fraction ++ exponent ++ rest)).taken = whole ++ fraction ++ exponent ∧
      (decimalRun (whole ++ fraction ++ exponent ++ rest)).rest = rest ∧
      (decimalRun (whole ++ fraction ++ exponent ++ rest)).form (whole ++ fraction ++ exponent) =
        decimalKind whole fraction exponent := by
  rw [List.append_assoc, List.append_assoc]
  unfold decimalRun decimalKind
  simp only [decimal.splitDigits_eq noDigit, decimal.splitFraction_eq noDigit noDot,
    decimal.splitExponent_eq noDigit noExponent]
  by_cases bare : fraction = [] ∧ exponent = []
  · obtain ⟨rfl, rfl⟩ := bare
    simp
  · have parts : (fraction.isEmpty && exponent.isEmpty) = false := by
      simpa [List.isEmpty_iff, Decidable.not_and_iff_not_or_not] using bare
    rw [if_neg bare]
    simp only [parts, Bool.false_eq_true, if_false, List.append_assoc, and_self]

end

variable (ends : ∀ char ∈ rest.head?, isNameChar char = false)

include decimal ends

/-- No decimal number begins like a hexadecimal or bit literal. -/
theorem radixRun?_eq : radixRun? (whole ++ (fraction ++ (exponent ++ rest))) = none := by
  have second : ∀ mark others, whole ++ (fraction ++ (exponent ++ rest)) = '0' :: mark :: others →
      mark.isDigit = true ∨ mark = '.' ∨ mark = 'e' ∨ mark = 'E' ∨ isNameChar mark = false := by
    intro mark others same
    match whole, decimal.digits, decimal.nonempty, same with
    | [], _, nonempty, same =>
        obtain ⟨digit, digits, rfl⟩ := nonempty.resolve_left (fun some => some rfl)
        simp at same
    | [digit], _, _, same =>
        simp only [List.cons_append, List.nil_append, List.cons.injEq] at same
        rcases decimal.afterDot with rfl | ⟨digits, rfl, _⟩
        · rcases decimal.afterLetter with rfl | ⟨letter, sign, digits, rfl, isLetter, _⟩
          · refine .inr (.inr (.inr (.inr (ends mark ?_))))
            simp only [List.nil_append] at same
            rw [same.2]
            rfl
          · simp only [List.nil_append, List.cons_append, List.cons.injEq] at same
            rw [← same.2.1]
            exact .inr (.inr (isLetter.imp_right .inl))
        · simp only [List.cons_append, List.cons.injEq] at same
          exact .inr (.inl same.2.1.symm)
    | first :: digit :: others, all, _, same =>
        simp only [List.cons_append, List.cons.injEq] at same
        exact .inl (same.2.1 ▸ all digit (by simp))
  unfold radixRun?
  split
  case h_5 => rfl
  all_goals
    next others same =>
      rcases second _ _ same with wrong | wrong | wrong | wrong | wrong <;>
        exact absurd wrong (by decide)

include noDot

/-- A decimal number is read up to a text that ends it. -/
theorem scanNumber_eq :
    scanNumber (whole ++ fraction ++ exponent ++ rest) =
      .token (decimalKind whole fraction exponent) (whole ++ fraction ++ exponent) rest := by
  have noExponent : splitExponent rest = ([], rest) := by
    cases rest with
    | nil => rfl
    | cons char rest =>
        have first := ends char rfl
        rw [splitExponent, if_neg]
        rintro (rfl | rfl) <;> exact absurd first (by decide)
  obtain ⟨taken, left, form⟩ := decimal.decimalRun_eq
    (fun char first => isDigit_of_not_nameChar (ends char first)) noDot fun _ => noExponent
  have marked := decimal.radixRun?_eq ends
  rw [← List.append_assoc, ← List.append_assoc] at marked
  rw [scanNumber, marked, Option.getD_none, finishNumber_of_ends (by rwa [left]), taken, left, form]

end Decimal

/-- What is read as an exponent is none, or a letter, an optional sign and digits. -/
theorem splitExponent_form (chars : List Char) :
    (splitExponent chars).1 = [] ∨ ∃ letter sign digits,
      (splitExponent chars).1 = letter :: (sign ++ digits) ∧ (letter = 'e' ∨ letter = 'E') ∧
        (sign = [] ∨ sign = ['+'] ∨ sign = ['-']) ∧ digits ≠ [] ∧
        ∀ char ∈ digits, char.isDigit = true := by
  unfold splitExponent
  split
  · exact .inl rfl
  · next letter others =>
      dsimp only
      split
      · next isLetter =>
          split
          · exact .inl rfl
          · next nonempty =>
              refine .inr ⟨letter, (splitSign others).1, _, rfl, isLetter, ?_, ?_, takeWhile_holds _ _⟩
              · unfold splitSign
                split
                · exact .inr (.inl rfl)
                · exact .inr (.inr rfl)
                · exact .inl rfl
              · simpa [List.isEmpty_iff] using nonempty
      · exact .inl rfl

/-- The parts that a decimal number is read in. -/
theorem decimal_of_splits {first : Char} {rest : List Char}
    (opens : first.isDigit = true ∨ first = '.' ∧ opensDigits rest = true) :
    Decimal (splitDigits (first :: rest)).1 (splitFraction (splitDigits (first :: rest)).2).1
      (splitExponent (splitFraction (splitDigits (first :: rest)).2).2).1 where
  digits := takeWhile_holds _ _
  afterDot := by
    unfold splitFraction
    split
    · exact .inr ⟨_, rfl, takeWhile_holds _ _⟩
    · exact .inl rfl
  afterLetter := splitExponent_form _
  nonempty := by
    rcases opens with digit | ⟨rfl, digits⟩
    · exact .inl (by simp [splitDigits, digit])
    · have noDigit : Char.isDigit '.' = false := by decide
      cases rest with
      | nil => cases digits
      | cons digit rest =>
          have first : digit.isDigit = true := digits
          exact .inr ⟨digit, rest.takeWhile Char.isDigit, by
            simp [splitDigits, splitFraction, noDigit, first]⟩

/-- Where neither a fraction nor an exponent is read, no dot follows the digits. -/
theorem splitExponent_dotless (chars : List Char) (noFraction : (splitFraction chars).1 = [])
    (noExponent : (splitExponent (splitFraction chars).2).1 = []) :
    (splitExponent (splitFraction chars).2).2.head? ≠ some '.' := by
  have whole := splitExponent_append (splitFraction chars).2
  rw [noExponent, List.nil_append] at whole
  rw [whole]
  unfold splitFraction at noFraction ⊢
  split at noFraction
  · cases noFraction
  · next noDot => cases chars with
    | nil => simp
    | cons char chars =>
        simp only [List.head?_cons, ne_eq, Option.some.injEq]
        rintro rfl
        exact noDot chars rfl

/-! ### Hexadecimal and bit numbers -/

theorem isNameChar_of_isHexDigit {char : Char} (digit : isHexDigit char = true) :
    isNameChar char = true := by
  simp only [isHexDigit, Bool.or_eq_true, Bool.and_eq_true, decide_eq_true_eq] at digit
  simp only [isNameChar, isNameStart, Bool.or_eq_true]
  rcases digit with (digit | ⟨low, high⟩) | ⟨low, high⟩
  · exact .inr digit
  · refine .inl (.inl (.inl (.inl ?_)))
    have below : char ≤ 'z' := Char.le_trans high (by decide)
    have lower : char.isLower = true :=
      Bool.and_eq_true_iff.mpr ⟨decide_eq_true low, decide_eq_true below⟩
    exact Bool.or_eq_true_iff.mpr (.inr lower)
  · refine .inl (.inl (.inl (.inl ?_)))
    have below : char ≤ 'Z' := Char.le_trans high (by decide)
    have upper : char.isUpper = true := decide_eq_true ⟨low, below⟩
    exact Bool.or_eq_true_iff.mpr (.inl upper)

theorem isNameChar_of_isBitDigit {char : Char} (digit : isBitDigit char = true) :
    isNameChar char = true := by
  simp only [isBitDigit, Bool.or_eq_true, beq_iff_eq] at digit
  rcases digit with rfl | rfl <;> decide

/-- Digits behind a mark such as `0x` are taken up to a text that does not go on with them. -/
theorem markedRun?_eq {isDigit : Char → Bool} (build : String → TokenKind) (mark : List Char)
    {digits rest : List Char} (nonempty : digits ≠ [])
    (all : ∀ char ∈ digits, isDigit char = true)
    (noDigit : ∀ char ∈ rest.head?, isDigit char = false) :
    markedRun? isDigit build mark (digits ++ rest) =
      some ⟨fun _ => build (String.ofList digits), mark ++ digits, rest⟩ := by
  obtain ⟨taken, left⟩ := takeWhile_append all noDigit
  simp [markedRun?, taken, left, nonempty]

/-- Digits behind a mark such as `0x` are read up to a text that ends them. -/
theorem finishNumber_markedRun? {isDigit : Char → Bool} (build : String → TokenKind)
    (mark : List Char) {digits rest : List Char}
    (inside : ∀ char, isDigit char = true → isNameChar char = true) (nonempty : digits ≠ [])
    (all : ∀ char ∈ digits, isDigit char = true)
    (ends : ∀ char ∈ rest.head?, isNameChar char = false) (other : NumberRun) :
    finishNumber ((markedRun? isDigit build mark (digits ++ rest)).getD other) =
      .token (build (String.ofList digits)) (mark ++ digits) rest := by
  have outside : ∀ char ∈ rest.head?, isDigit char = false := fun char first => by
    rw [Bool.eq_false_iff]
    intro digit
    exact absurd (inside char digit) (by simp [ends char first])
  rw [markedRun?_eq build mark nonempty all outside, Option.getD_some, finishNumber_of_ends ends]

/-! ### All numerals -/

/-- A numeral is read up to the text behind it. -/
theorem Numeral.scanNumber_eq {kind : TokenKind} {text rest : List Char}
    (numeral : Numeral kind text rest.head?) :
    scanNumber (text ++ rest) = .token kind text rest := by
  generalize following : rest.head? = next at numeral
  cases numeral with
  | decimal parts ends noDot =>
      subst following
      exact parts.scanNumber_eq noDot ends
  | hex mark nonempty all ends =>
      subst following
      rcases mark with rfl | rfl <;>
        exact finishNumber_markedRun? .hex ['0', _] (fun _ => isNameChar_of_isHexDigit) nonempty
          all ends _
  | bit mark nonempty all ends =>
      subst following
      rcases mark with rfl | rfl <;>
        exact finishNumber_markedRun? .bit ['0', _] (fun _ => isNameChar_of_isBitDigit) nonempty
          all ends _

/-- What a run for digits behind a mark takes, in front of a text that ends it. -/
theorem markedRun?_eq_some {isDigit : Char → Bool} {build : String → TokenKind} {mark : List Char}
    {chars : List Char} {run : NumberRun} (read : markedRun? isDigit build mark chars = some run) :
    ∃ digits, digits ≠ [] ∧ (∀ char ∈ digits, isDigit char = true) ∧
      run.taken = mark ++ digits ∧ run.form run.taken = build (String.ofList digits) := by
  unfold markedRun? at read
  dsimp only at read
  split at read
  · cases read
  · next nonempty =>
      cases read
      exact ⟨_, by simpa using nonempty, takeWhile_holds _ _, rfl, rfl⟩

/-- What is read as a number is a numeral. -/
theorem numeral_of_scanNumber {first : Char} {others : List Char} {kind : TokenKind}
    {taken rest : List Char}
    (opens : first.isDigit = true ∨ first = '.' ∧ opensDigits others = true)
    (read : scanNumber (first :: others) = .token kind taken rest) :
    Numeral kind taken rest.head? := by
  unfold scanNumber finishNumber at read
  dsimp only at read
  split at read
  case isFalse => simp [Lexeme.token, Lexeme.failure] at read
  next ended =>
  simp only [Lexeme.token, Lexeme.mk.injEq, Except.ok.injEq] at read
  obtain ⟨rfl, rfl, rfl⟩ := read
  have ends : ∀ char ∈ ((radixRun? (first :: others)).getD
      (decimalRun (first :: others))).rest.head?, isNameChar char = false := by
    intro char follows
    obtain ⟨behind, same⟩ := List.head?_eq_some_iff.mp follows
    rw [same] at ended
    by_contra inside
    simp [Bool.not_eq_false _ ▸ inside] at ended
  cases radix : radixRun? (first :: others) with
  | none =>
      rw [radix, Option.getD_none] at ends
      have parts := decimal_of_splits opens
      have dotless := splitExponent_dotless (splitDigits (first :: others)).2
      rw [Option.getD_none]
      unfold decimalRun at ends ⊢
      dsimp only at ends ⊢
      split
      · next bare =>
          simp only [Bool.and_eq_true, List.isEmpty_iff] at bare
          rw [if_pos (by simpa using bare)] at ends
          have numeral := Numeral.decimal parts ends fun left right => dotless left right
          simpa [decimalKind, bare.1, bare.2] using numeral
      · next more =>
          have some := more
          simp only [Bool.and_eq_true, List.isEmpty_iff] at some
          rw [if_neg more] at ends
          have numeral := Numeral.decimal parts ends fun left right => dotless left right
          simpa only [decimalKind, if_neg some] using numeral
  | some run =>
      rw [radix, Option.getD_some] at ends
      rw [Option.getD_some]
      unfold radixRun? at radix
      split at radix
      case h_5 => cases radix
      all_goals
        obtain ⟨digits, nonempty, all, taken, form⟩ := markedRun?_eq_some radix
        rw [form, taken]
      · exact .hex (.inl rfl) nonempty all ends
      · exact .hex (.inr rfl) nonempty all ends
      · exact .bit (.inl rfl) nonempty all ends
      · exact .bit (.inr rfl) nonempty all ends

end SqlDml
