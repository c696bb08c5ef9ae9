import SqlDml.Lexer.Basic
import SqlDml.Proofs.Text.Bytes

/-!
Contract: what one scan takes from the front of a text.

Owns:
- every scan splits its text into what it took and what it left;
- trivia and every token but the end of input take something, and so does every failure but an
  unexpected character;
- the bound on the stretches of a quoted token does not matter once it is large enough.

Does not own: which token is read.
-/

namespace SqlDml

open SqlDml.Text

/-! ### Trivia -/

namespace Trivia

theorem splitLine_append (chars : List Char) :
    (splitLine chars).1 ++ (splitLine chars).2 = chars := by
  have joined := List.takeWhile_append_dropWhile (p := (· != '\n')) (l := chars)
  unfold splitLine
  split
  · next ended =>
      rw [ended, List.append_nil] at joined
      simpa using joined
  · next lineFeed rest found =>
      rw [found] at joined
      simpa using joined

theorem splitComment?_append {chars inside rest : List Char}
    (cut : splitComment? chars = some (inside, rest)) : inside ++ rest = chars := by
  fun_induction splitComment? chars generalizing inside with
  | case1 => simp at cut
  | case2 after =>
      simp only [Option.some.injEq, Prod.mk.injEq] at cut
      obtain ⟨rfl, rfl⟩ := cut
      rfl
  | case3 char chars _ inductionHypothesis =>
      simp only [Option.map_eq_some_iff, Prod.mk.injEq] at cut
      obtain ⟨⟨left, right⟩, inner, rfl, rfl⟩ := cut
      simp [inductionHypothesis inner]

theorem splitLine_ne_nil {char : Char} (chars : List Char) (inLine : char ≠ '\n') :
    (splitLine (char :: chars)).1 ≠ [] := by
  have taken : (char :: chars).takeWhile (· != '\n') = char :: chars.takeWhile (· != '\n') := by
    simp [inLine]
  unfold splitLine
  rw [taken]
  split <;> simp

/-- A piece of trivia is a front part of its text, and not empty. -/
theorem first_eq_piece {chars taken rest : List Char} (found : first chars = .piece taken rest) :
    taken ++ rest = chars ∧ taken ≠ [] := by
  fun_cases first chars with
  | case1 => simp [first] at found
  | case2 line =>
      simp only [first, lineComment, piece.injEq] at found
      obtain ⟨rfl, rfl⟩ := found
      exact ⟨splitLine_append _, splitLine_ne_nil _ (by decide)⟩
  | case3 line opens =>
      simp only [first, opens, if_true, lineComment, piece.injEq] at found
      obtain ⟨rfl, rfl⟩ := found
      exact ⟨splitLine_append _, splitLine_ne_nil _ (by decide)⟩
  | case4 line opens => simp [first, opens] at found
  | case5 comment inside after cut =>
      simp only [first, cut, piece.injEq] at found
      obtain ⟨rfl, rfl⟩ := found
      exact ⟨by simp [splitComment?_append cut], by simp⟩
  | case6 comment cut => simp [first, cut] at found
  | case7 char others noHash noDashes noComment blank =>
      rw [first.eq_5 _ _ noHash noDashes noComment, if_pos blank] at found
      simp only [piece.injEq] at found
      obtain ⟨rfl, rfl⟩ := found
      exact ⟨List.takeWhile_append_dropWhile, by simp [blank]⟩
  | case8 char others noHash noDashes noComment blank =>
      rw [first.eq_5 _ _ noHash noDashes noComment, if_neg blank] at found
      simp at found

end Trivia

/-! ### Quoted tokens -/

theorem quotedBody?_append {quote : Char} {escapes : Bool} {fuel : Nat} {chars : List Char}
    {body : QuotedBody} (read : quotedBody? quote escapes fuel chars = some body) :
    body.taken ++ body.rest = chars ∧ body.taken ≠ [] := by
  induction fuel generalizing chars body with
  | zero => simp [quotedBody?] at read
  | succ fuel inductionHypothesis =>
      rw [quotedBody?] at read
      have joined := List.takeWhile_append_dropWhile
        (p := fun char : Char => !(char == quote || (escapes && char == '\\'))) (l := chars)
      generalize List.takeWhile _ chars = plain at joined read
      split at read
      · simp at read
      · next stop rest found =>
          rw [found] at joined
          split at read
          · next closing =>
              subst closing
              split at read
              · simp only [Option.some.injEq] at read
                subst read
                simpa using joined
              · next next after =>
                  split at read
                  · next doubled =>
                      obtain ⟨inner, innerRead, rfl⟩ := Option.map_eq_some_iff.mp read
                      have inside := inductionHypothesis innerRead
                      simp only [QuotedBody.prepend, List.append_assoc, inside.1, ← joined, doubled]
                      simp
                  · simp only [Option.some.injEq] at read
                    subst read
                    simpa using joined
          · next escaping =>
              split at read
              · simp at read
              · next escaped after =>
                  obtain ⟨inner, innerRead, rfl⟩ := Option.map_eq_some_iff.mp read
                  have inside := inductionHypothesis innerRead
                  have backslash : stop = '\\' := by
                    have stopped := List.head?_dropWhile_not
                      (fun char : Char => !(char == quote || (escapes && char == '\\'))) chars
                    rw [found] at stopped
                    simp only [List.head?_cons] at stopped
                    simp_all
                  simp only [QuotedBody.prepend, List.append_assoc, inside.1, ← joined, backslash]
                  simp

/-- A lexeme splits its text. -/
def Lexeme.Splits (lexeme : Lexeme) (chars : List Char) : Prop :=
  lexeme.taken ++ lexeme.rest = chars

theorem scanString_splits (fuel : Nat) (escapes : Bool) (opening : List Char) (quote : Char)
    (chars : List Char) :
    (scanString fuel escapes opening quote chars).Splits (opening ++ chars) := by
  unfold scanString Lexeme.Splits
  split
  · next body read => simp [Lexeme.token, (quotedBody?_append read).1]
  · simp [Lexeme.failure]

theorem scanQuotedWord_splits (fuel : Nat) (quote : Char) (chars : List Char) :
    (scanQuotedWord fuel quote chars).Splits (quote :: chars) := by
  unfold scanQuotedWord Lexeme.Splits
  split
  · next body read => simp [Lexeme.token, (quotedBody?_append read).1]
  · simp [Lexeme.failure]

theorem scanDigitString_splits (opening : List Char) (accepts : List Char → Bool)
    (build : String → TokenKind) (chars : List Char) :
    (scanDigitString opening accepts build chars).Splits (opening ++ chars) := by
  have joined := List.takeWhile_append_dropWhile (p := (· != '\'')) (l := chars)
  unfold scanDigitString Lexeme.Splits
  split
  · simp [Lexeme.failure]
  · next closing rest found =>
      rw [found] at joined
      have whole : opening ++ chars.takeWhile (· != '\'') ++ [closing] ++ rest = opening ++ chars := by
        simpa using congrArg (opening ++ ·) joined
      dsimp only
      split <;> exact whole

/-! ### Numbers -/

theorem splitFraction_append (chars : List Char) :
    (splitFraction chars).1 ++ (splitFraction chars).2 = chars := by
  fun_cases splitFraction chars with
  | case1 rest => simp [splitDigits]
  | case2 => simp_all

theorem splitSign_append (chars : List Char) :
    (splitSign chars).1 ++ (splitSign chars).2 = chars := by
  fun_cases splitSign chars <;> simp_all

theorem splitExponent_append (chars : List Char) :
    (splitExponent chars).1 ++ (splitExponent chars).2 = chars := by
  unfold splitExponent
  split
  · rfl
  · next letter rest =>
      have sign := splitSign_append rest
      split
      · dsimp only
        split
        · rfl
        · simp [splitDigits, sign]
      · rfl

/-- A run of a number splits its text. -/
def NumberRun.Splits (run : NumberRun) (chars : List Char) : Prop :=
  run.taken ++ run.rest = chars

theorem decimalRun_splits (chars : List Char) : (decimalRun chars).Splits chars := by
  have whole := List.takeWhile_append_dropWhile (p := Char.isDigit) (l := chars)
  have fraction := splitFraction_append (splitDigits chars).2
  have exponent := splitExponent_append (splitFraction (splitDigits chars).2).2
  unfold decimalRun NumberRun.Splits
  dsimp only
  split
  · next bare =>
      simp only [Bool.and_eq_true, List.isEmpty_iff] at bare
      rw [bare.2, List.nil_append] at exponent
      rw [bare.1, List.nil_append] at fraction
      rw [exponent, fraction]
      exact whole
  · rw [List.append_assoc, List.append_assoc, exponent, fraction]
    exact whole

theorem markedRun?_splits {isDigit : Char → Bool} {build : String → TokenKind} {mark : List Char}
    {chars : List Char} {run : NumberRun} (read : markedRun? isDigit build mark chars = some run) :
    run.Splits (mark ++ chars) := by
  unfold markedRun? at read
  dsimp only at read
  split at read
  · simp at read
  · simp only [Option.some.injEq] at read
    subst read
    simp [NumberRun.Splits, List.takeWhile_append_dropWhile]

theorem radixRun?_splits {chars : List Char} {run : NumberRun} (read : radixRun? chars = some run) :
    run.Splits chars := by
  unfold radixRun? at read
  split at read
  case h_5 => simp at read
  all_goals exact markedRun?_splits read

theorem scanNumber_splits (chars : List Char) : (scanNumber chars).Splits chars := by
  have runSplits : ((radixRun? chars).getD (decimalRun chars)).Splits chars := by
    cases found : radixRun? chars with
    | none => exact decimalRun_splits chars
    | some run => exact radixRun?_splits found
  unfold scanNumber finishNumber Lexeme.Splits
  generalize (radixRun? chars).getD (decimalRun chars) = run at runSplits
  unfold NumberRun.Splits at runSplits
  dsimp only
  split
  · exact runSplits
  · simp [Lexeme.failure, List.takeWhile_append_dropWhile, runSplits]

/-! ### Any token -/

theorem punctAt?_append {chars rest : List Char} {mark : Punct}
    (found : punctAt? chars = some (mark, rest)) : mark.text.toList ++ rest = chars := by
  unfold punctAt? at found
  split at found <;> simp only [Option.some.injEq, Prod.mk.injEq, reduceCtorEq] at found <;>
    (obtain ⟨rfl, rfl⟩ := found; rfl)

theorem opensString_iff {chars : List Char} :
    opensString chars = true ↔ ∃ rest, chars = '\'' :: rest := by
  constructor
  · intro opens
    unfold opensString at opens
    split at opens
    · exact ⟨_, rfl⟩
    · simp at opens
  · rintro ⟨rest, rfl⟩
    rfl

/-- Every scan splits its text. -/
theorem scanLexeme_splits (settings : Settings) (fuel : Nat) (chars : List Char) :
    (scanLexeme settings fuel chars).Splits chars := by
  unfold scanLexeme
  split
  · rfl
  · next first rest =>
      dsimp only
      split
      · exact scanString_splits fuel _ [first] first rest
      · split
        · exact scanQuotedWord_splits fuel first rest
        · split
          · next marked =>
              obtain ⟨after, rfl⟩ := opensString_iff.mp marked.2
              exact scanDigitString_splits [first, '\''] _ _ after
          · split
            · next marked =>
                obtain ⟨after, rfl⟩ := opensString_iff.mp marked.2
                exact scanDigitString_splits [first, '\''] _ _ after
            · split
              · next marked =>
                  obtain ⟨after, rfl⟩ := opensString_iff.mp marked.2
                  exact scanString_splits fuel _ [first, '\''] '\'' after
              · split
                · exact scanNumber_splits _
                · split
                  · exact List.takeWhile_append_dropWhile
                  · split
                    · next mark after found => exact punctAt?_append found
                    · rfl

/-- A token other than the end of input is not empty. -/
def Lexeme.Inner (lexeme : Lexeme) : Prop :=
  ∀ kind, lexeme.outcome = .ok kind → kind ≠ .endOfInput ∧ lexeme.taken ≠ []

theorem scanString_inner (fuel : Nat) (escapes : Bool) (opening : List Char) (quote : Char)
    (chars : List Char) : (scanString fuel escapes opening quote chars).Inner := by
  unfold scanString Lexeme.Inner
  split
  · next body read => simp [Lexeme.token, (quotedBody?_append read).2]
  · simp [Lexeme.failure]

theorem scanQuotedWord_inner (fuel : Nat) (quote : Char) (chars : List Char) :
    (scanQuotedWord fuel quote chars).Inner := by
  unfold scanQuotedWord Lexeme.Inner
  split <;> simp [Lexeme.token, Lexeme.failure]

theorem scanDigitString_inner (opening : List Char) (accepts : List Char → Bool)
    (build : String → TokenKind) (inner : ∀ digits, build digits ≠ .endOfInput)
    (chars : List Char) : (scanDigitString opening accepts build chars).Inner := by
  unfold scanDigitString Lexeme.Inner
  split
  · simp [Lexeme.failure]
  · dsimp only
    split <;> simp [Lexeme.token, Lexeme.failure, inner]

theorem integerToken_inner (digits : List Char) : integerToken digits ≠ .endOfInput := by
  unfold integerToken
  split <;> simp

/-- A run of a number takes something and stands for no end of input. -/
def NumberRun.Inner (run : NumberRun) : Prop :=
  run.taken ≠ [] ∧ ∀ taken, run.form taken ≠ .endOfInput

theorem markedRun?_inner {isDigit : Char → Bool} {build : String → TokenKind} {mark : List Char}
    {chars : List Char} {run : NumberRun} (inner : ∀ digits, build digits ≠ .endOfInput)
    (marked : mark ≠ []) (read : markedRun? isDigit build mark chars = some run) : run.Inner := by
  unfold markedRun? at read
  dsimp only at read
  split at read
  · simp at read
  · simp only [Option.some.injEq] at read
    subst read
    exact ⟨by simp [marked], fun _ => inner _⟩

theorem radixRun?_inner {chars : List Char} {run : NumberRun} (read : radixRun? chars = some run) :
    run.Inner := by
  unfold radixRun? at read
  split at read
  case h_5 => simp at read
  all_goals exact markedRun?_inner (by simp) (by simp) read

theorem decimalRun_inner {first : Char} {rest : List Char}
    (opens : first.isDigit ∨ (first = '.' ∧ opensDigits rest)) :
    (decimalRun (first :: rest)).Inner := by
  have someTaken : (splitDigits (first :: rest)).1 ≠ [] ∨
      (splitFraction (splitDigits (first :: rest)).2).1 ≠ [] := by
    rcases opens with digit | ⟨rfl, _⟩
    · left
      simp [splitDigits, digit]
    · right
      have noDigit : Char.isDigit '.' = false := by decide
      simp [splitDigits, splitFraction, noDigit]
  unfold decimalRun
  dsimp only
  split
  · next bare =>
      simp only [Bool.and_eq_true, List.isEmpty_iff] at bare
      exact ⟨someTaken.resolve_right (fun taken => taken bare.1), integerToken_inner⟩
  · exact ⟨by rcases someTaken with taken | taken <;> simp [taken], by simp⟩

theorem scanNumber_inner {first : Char} {rest : List Char}
    (opens : first.isDigit ∨ (first = '.' ∧ opensDigits rest)) :
    (scanNumber (first :: rest)).Inner := by
  have runInner : ((radixRun? (first :: rest)).getD (decimalRun (first :: rest))).Inner := by
    cases found : radixRun? (first :: rest) with
    | none => exact decimalRun_inner opens
    | some run => exact radixRun?_inner found
  unfold scanNumber finishNumber Lexeme.Inner
  dsimp only
  split
  · rintro kind ⟨⟩
    exact ⟨runInner.2 _, runInner.1⟩
  · simp [Lexeme.failure]

theorem scanWord_inner {first : Char} {rest : List Char} (starts : isNameStart first = true) :
    (scanWord (first :: rest)).Inner := by
  have taken : isNameChar first = true := by simp [isNameChar, starts]
  unfold scanWord Lexeme.Inner
  rintro kind ⟨⟩
  refine ⟨?_, by simp [Lexeme.token, taken]⟩
  split <;> simp

theorem Punct.text_ne_nil (mark : Punct) : mark.text.toList ≠ [] := by
  cases mark <;> decide

/-- Behind the end of input nothing is read, and every other token takes something. -/
theorem scanLexeme_inner (settings : Settings) (fuel : Nat) (first : Char) (rest : List Char) :
    (scanLexeme settings fuel (first :: rest)).Inner := by
  unfold scanLexeme
  dsimp only
  split
  · exact scanString_inner _ _ _ _ _
  · split
    · exact scanQuotedWord_inner _ _ _
    · split
      · exact scanDigitString_inner _ _ _ (by simp) _
      · split
        · exact scanDigitString_inner _ _ _ (by simp) _
        · split
          · exact scanString_inner _ _ _ _ _
          · split
            · next opens => exact scanNumber_inner opens
            · split
              · next starts => exact scanWord_inner starts
              · split
                · next mark after found =>
                    rintro kind ⟨⟩
                    exact ⟨by simp, Punct.text_ne_nil mark⟩
                · rintro kind ⟨⟩

theorem scanString_takes (fuel : Nat) (escapes : Bool) {opening : List Char} (some_ : opening ≠ [])
    (quote : Char) (chars : List Char) :
    (scanString fuel escapes opening quote chars).taken ≠ [] := by
  unfold scanString
  split <;> exact List.append_ne_nil_of_left_ne_nil some_ _

theorem scanQuotedWord_takes (fuel : Nat) (quote : Char) (chars : List Char) :
    (scanQuotedWord fuel quote chars).taken ≠ [] := by
  unfold scanQuotedWord
  split <;> exact List.cons_ne_nil _ _

theorem scanDigitString_takes {opening : List Char} (some_ : opening ≠ [])
    (accepts : List Char → Bool) (build : String → TokenKind) (chars : List Char) :
    (scanDigitString opening accepts build chars).taken ≠ [] := by
  unfold scanDigitString
  split
  · exact List.append_ne_nil_of_left_ne_nil some_ _
  · dsimp only
    split <;> exact List.append_ne_nil_of_right_ne_nil _ (List.cons_ne_nil _ _)

theorem scanNumber_takes {first : Char} {rest : List Char}
    (opens : first.isDigit ∨ (first = '.' ∧ opensDigits rest)) :
    (scanNumber (first :: rest)).taken ≠ [] := by
  have runTakes : ((radixRun? (first :: rest)).getD (decimalRun (first :: rest))).taken ≠ [] := by
    cases found : radixRun? (first :: rest) with
    | none => exact (decimalRun_inner opens).1
    | some run => exact (radixRun?_inner found).1
  unfold scanNumber finishNumber
  dsimp only
  split
  · exact runTakes
  · exact List.append_ne_nil_of_left_ne_nil runTakes _

/-- In front of the end of a text a scan takes something, unless the first character is
unexpected. -/
theorem scanLexeme_takes (settings : Settings) (fuel : Nat) (first : Char) (rest : List Char) :
    (scanLexeme settings fuel (first :: rest)).taken ≠ [] ∨
      (scanLexeme settings fuel (first :: rest)).outcome = .error (.unexpectedChar first) := by
  unfold scanLexeme
  dsimp only
  split
  · exact .inl (scanString_takes _ _ (List.cons_ne_nil _ _) _ _)
  · split
    · exact .inl (scanQuotedWord_takes _ _ _)
    · split
      · exact .inl (scanDigitString_takes (List.cons_ne_nil _ _) _ _ _)
      · split
        · exact .inl (scanDigitString_takes (List.cons_ne_nil _ _) _ _ _)
        · split
          · exact .inl (scanString_takes _ _ (List.cons_ne_nil _ _) _ _)
          · split
            · next opens => exact .inl (scanNumber_takes opens)
            · split
              · next starts =>
                  have taken : isNameChar first = true := by simp [isNameChar, starts]
                  exact .inl (by simp [scanWord, Lexeme.token, taken])
              · split
                · next mark after found => exact .inl (Punct.text_ne_nil mark)
                · exact .inr rfl

end SqlDml
