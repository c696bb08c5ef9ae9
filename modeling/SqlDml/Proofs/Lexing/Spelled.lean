import SqlDml.Proofs.Lexing.Numerals
import SqlDml.Proofs.Lexing.Scanned
import SqlDml.Proofs.Lexing.Taken
import SqlDml.Render.Quoting

/-!
Contract: the texts of tokens, with the characters that may stand behind them.

Owns:
- the texts that stand for a value between two quotes, and the one that doubles its quotes;
- the lexical grammar of tokens: names, strings, numbers and marks;
- that exactly these texts are read as tokens, in front of any text that begins with a character
  that may stand behind them;
- where the first characters of a token begin a comment instead.

Does not own: the trivia between tokens, and sequences of them.
-/

/-! ## Between two quotes -/

namespace SqlDml

open Text

/-- The characters behind an opening quote, up to the closing one, and the value they stand for. -/
inductive QuotedText (quote : Char) (escapes : Bool) : List Char → List Char → Prop where
  | closed : QuotedText quote escapes [] [quote]
  | plain {char : Char} {value taken : List Char} (other : char ≠ quote)
      (unescaped : escapes = true → char ≠ '\\') (behind : QuotedText quote escapes value taken) :
      QuotedText quote escapes (char :: value) (char :: taken)
  | doubled {value taken : List Char} (behind : QuotedText quote escapes value taken) :
      QuotedText quote escapes (quote :: value) (quote :: quote :: taken)
  | escaped (char : Char) {value taken : List Char} (on : escapes = true) (other : quote ≠ '\\')
      (behind : QuotedText quote escapes value taken) :
      QuotedText quote escapes (unescape char ++ value) ('\\' :: char :: taken)

variable {quote : Char} {escapes : Bool} {value taken rest : List Char}

namespace QuotedText

/-- A stretch of characters that stand for themselves. -/
theorem prepend {stretch : List Char}
    (plain : ∀ char ∈ stretch, !(char == quote || (escapes && char == '\\')))
    (behind : QuotedText quote escapes value taken) :
    QuotedText quote escapes (stretch ++ value) (stretch ++ taken) := by
  induction stretch with
  | nil => exact behind
  | cons char stretch inductionHypothesis =>
      obtain ⟨first, others⟩ := List.forall_mem_cons.mp plain
      simp only [Bool.not_eq_true', Bool.or_eq_false_iff, beq_eq_false_iff_ne, ne_eq,
        Bool.and_eq_false_imp] at first
      exact .plain first.1 first.2 (inductionHypothesis others)

/-- The closing quote is the last character. -/
theorem getLast? (text : QuotedText quote escapes value taken) : taken.getLast? = some quote := by
  induction text with
  | closed => rfl
  | plain _ _ _ inductionHypothesis => rw [List.getLast?_cons, inductionHypothesis]; rfl
  | doubled _ inductionHypothesis =>
      rw [List.getLast?_cons, List.getLast?_cons, inductionHypothesis]; rfl
  | escaped _ _ _ _ inductionHypothesis =>
      rw [List.getLast?_cons, List.getLast?_cons, inductionHypothesis]; rfl

end QuotedText

/-! ### Reading forward -/

theorem map_prepend_prepend (body : Option QuotedBody) (value taken more others : List Char) :
    (body.map (QuotedBody.prepend more others)).map (QuotedBody.prepend value taken) =
      body.map (QuotedBody.prepend (value ++ more) (taken ++ others)) := by
  cases body <;> simp [QuotedBody.prepend]

/-- A character that stands for itself. -/
theorem quotedBody?_plain {fuel : Nat} {char : Char} {chars : List Char} (other : char ≠ quote)
    (unescaped : escapes = true → char ≠ '\\') :
    quotedBody? quote escapes fuel (char :: chars) =
      (quotedBody? quote escapes fuel chars).map (QuotedBody.prepend [char] [char]) := by
  have isPlain : (!(char == quote || (escapes && char == '\\'))) = true := by
    cases escapes <;> simp_all
  cases fuel with
  | zero => rfl
  | succ fuel =>
      rw [quotedBody?, quotedBody?]
      simp only [List.dropWhile_cons, List.takeWhile_cons, isPlain, if_true]
      split
      · rfl
      · next stop rest left =>
          split
          · cases rest with
            | nil => rfl
            | cons next after =>
                dsimp only
                split
                · rw [map_prepend_prepend]
                  rfl
                · rfl
          · cases rest with
            | nil => rfl
            | cons escaped after =>
                rw [map_prepend_prepend]
                rfl

theorem quotedBody?_doubled {fuel : Nat} {chars : List Char} :
    quotedBody? quote escapes (fuel + 1) (quote :: quote :: chars) =
      (quotedBody? quote escapes fuel chars).map (QuotedBody.prepend [quote] [quote, quote]) := by
  rw [quotedBody?]
  simp

theorem quotedBody?_escaped {fuel : Nat} {char : Char} {chars : List Char} (other : quote ≠ '\\') :
    quotedBody? quote true (fuel + 1) ('\\' :: char :: chars) =
      (quotedBody? quote true fuel chars).map
        (QuotedBody.prepend (unescape char) ['\\', char]) := by
  rw [quotedBody?]
  simp [Ne.symm other]

theorem quotedBody?_closed {fuel : Nat} (ends : rest.head? ≠ some quote) :
    quotedBody? quote escapes (fuel + 1) (quote :: rest) = some ⟨[], [quote], rest⟩ := by
  rw [quotedBody?]
  simp only [beq_self_eq_true, Bool.true_or, Bool.not_true, Bool.false_eq_true, not_false_eq_true,
    List.takeWhile_cons_of_neg, List.dropWhile_cons_of_neg, if_true]
  cases rest with
  | nil => rfl
  | cons next rest =>
      have different : next ≠ quote := by simpa using ends
      simp [different]

/-- A text is read up to its closing quote, with room for its characters. -/
theorem QuotedText.quotedBody?_eq (text : QuotedText quote escapes value taken)
    (ends : rest.head? ≠ some quote) (fuel : Nat) (room : taken.length ≤ fuel) :
    quotedBody? quote escapes fuel (taken ++ rest) = some ⟨value, taken, rest⟩ := by
  induction text generalizing fuel with
  | closed =>
      obtain ⟨fuel, rfl⟩ : ∃ smaller, fuel = smaller + 1 := ⟨fuel - 1, by simp at room; omega⟩
      exact quotedBody?_closed ends
  | plain other unescaped _ inductionHypothesis =>
      simp only [List.length_cons] at room
      rw [List.cons_append, quotedBody?_plain other unescaped, inductionHypothesis _ (by omega)]
      rfl
  | doubled _ inductionHypothesis =>
      simp only [List.length_cons] at room
      obtain ⟨fuel, rfl⟩ : ∃ smaller, fuel = smaller + 1 := ⟨fuel - 1, by omega⟩
      rw [List.cons_append, List.cons_append, quotedBody?_doubled, inductionHypothesis _ (by omega)]
      rfl
  | escaped char on other _ inductionHypothesis =>
      subst on
      simp only [List.length_cons] at room
      obtain ⟨fuel, rfl⟩ : ∃ smaller, fuel = smaller + 1 := ⟨fuel - 1, by omega⟩
      rw [List.cons_append, List.cons_append, quotedBody?_escaped other,
        inductionHypothesis _ (by omega)]
      simp [QuotedBody.prepend]

/-! ### What was read -/

/-- What is read between quotes is such a text, and no quote follows it. -/
theorem quotedText_of_quotedBody? {fuel : Nat} {chars : List Char} {body : QuotedBody}
    (read : quotedBody? quote escapes fuel chars = some body) :
    QuotedText quote escapes body.value body.taken ∧ body.rest.head? ≠ some quote := by
  induction fuel generalizing chars body with
  | zero => cases read
  | succ fuel inductionHypothesis =>
      rw [quotedBody?] at read
      have plain := List.all_eq_true.mp (List.all_takeWhile (l := chars)
        (p := fun char : Char => !(char == quote || (escapes && char == '\\'))))
      have stopped := List.head?_dropWhile_not
        (fun char : Char => !(char == quote || (escapes && char == '\\'))) chars
      generalize List.takeWhile _ chars = stretch at plain read
      split at read
      · cases read
      · next stop others found =>
          rw [found] at stopped
          split at read
          · next closing =>
              subst closing
              split at read
              · cases read
                exact ⟨by simpa using QuotedText.prepend plain .closed, by simp⟩
              · next next after =>
                  split at read
                  · next doubled =>
                      obtain ⟨inner, innerRead, rfl⟩ := Option.map_eq_some_iff.mp read
                      obtain ⟨behind, ends⟩ := inductionHypothesis innerRead
                      refine ⟨?_, ends⟩
                      simpa [QuotedBody.prepend] using QuotedText.prepend plain (.doubled behind)
                  · next single =>
                      cases read
                      exact ⟨by simpa using QuotedText.prepend plain .closed, by simpa using single⟩
          · next open_ =>
              obtain ⟨on, rfl⟩ : escapes = true ∧ stop = '\\' := by simpa [open_] using stopped
              split at read
              · cases read
              · next escaped after =>
                  obtain ⟨inner, innerRead, rfl⟩ := Option.map_eq_some_iff.mp read
                  obtain ⟨behind, ends⟩ := inductionHypothesis innerRead
                  refine ⟨?_, ends⟩
                  have text := QuotedText.prepend plain
                    (.escaped escaped on (Ne.symm open_) behind)
                  simpa [QuotedBody.prepend] using text

/-! ### Writing -/

/-- The text that writes a value with its quotes doubled stands for that value. -/
theorem quotedText_doubleQuote (quote : Char) (value : List Char) :
    QuotedText quote false value (value.flatMap (doubleQuote quote) ++ [quote]) := by
  induction value with
  | nil => exact .closed
  | cons char value inductionHypothesis =>
      rw [List.flatMap_cons, List.append_assoc, doubleQuote]
      split
      · next same =>
          subst same
          exact .doubled inductionHypothesis
      · next other => exact .plain other (by simp) inductionHypothesis

end SqlDml

/-! ## Tokens -/

namespace SqlDml

open Text

/-- A quote that surrounds a name. -/
def Settings.QuotesName (settings : Settings) (quote : Char) : Prop :=
  quote = '\x60' ∨ quote = '"' ∧ settings.ansiQuotes = true

/-- What opens a string literal, and the quote that closes it. -/
inductive Settings.OpensString (settings : Settings) : List Char → Char → Prop where
  | single : settings.OpensString ['\''] '\''
  | double (plain : settings.ansiQuotes = false) : settings.OpensString ['"'] '"'
  | national {letter : Char} (mark : letter = 'n' ∨ letter = 'N') :
      settings.OpensString [letter, '\''] '\''

/-- The kind of token that a word is. -/
def wordKind (text : List Char) : TokenKind :=
  match Keyword.ofWord? text with
  | some keyword => .keyword keyword
  | none => .word (String.ofList text)

/-- Whether a quote behind a word makes a literal of both. -/
def marksLiteral (text : List Char) : Bool :=
  match text with
  | [letter] =>
      letter == 'x' || letter == 'X' || letter == 'b' || letter == 'B' || letter == 'n' ||
        letter == 'N'
  | _ => false

/-- The characters that make a longer mark of a mark. -/
def Punct.longer : Punct → List Char
  | .less => ['=', '>', '<']
  | .lessEqual => ['>']
  | .greater => ['=', '>']
  | .bang => ['=']
  | .pipe => ['|']
  | .ampersand => ['&']
  | _ => []

/-- A token, its text, and the character behind it if there is one. -/
inductive Spelled (settings : Settings) : TokenKind → List Char → Option Char → Prop where
  | string {opening : List Char} {quote : Char} {value taken : List Char} {next : Option Char}
      (opens : settings.OpensString opening quote)
      (body : QuotedText quote (!settings.noBackslashEscapes) value taken)
      (apart : next ≠ some quote) :
      Spelled settings (.string (String.ofList value) quote) (opening ++ taken) next
  | quotedWord {quote : Char} {value taken : List Char} {next : Option Char}
      (quotes : settings.QuotesName quote) (body : QuotedText quote false value taken)
      (apart : next ≠ some quote) :
      Spelled settings (.quotedWord (String.ofList value) quote) (quote :: taken) next
  | hexString {letter : Char} {digits : List Char} {next : Option Char}
      (mark : letter = 'x' ∨ letter = 'X') (all : ∀ char ∈ digits, isHexDigit char = true)
      (even : digits.length % 2 = 0) :
      Spelled settings (.hex (String.ofList digits)) (letter :: '\'' :: (digits ++ ['\''])) next
  | bitString {letter : Char} {digits : List Char} {next : Option Char}
      (mark : letter = 'b' ∨ letter = 'B') (all : ∀ char ∈ digits, isBitDigit char = true) :
      Spelled settings (.bit (String.ofList digits)) (letter :: '\'' :: (digits ++ ['\''])) next
  | number {kind : TokenKind} {text : List Char} {next : Option Char}
      (numeral : Numeral kind text next) : Spelled settings kind text next
  | word {first : Char} {others : List Char} {next : Option Char}
      (starts : isNameStart first = true) (all : ∀ char ∈ others, isNameChar char = true)
      (ends : ∀ char ∈ next, isNameChar char = false)
      (apart : marksLiteral (first :: others) = true → next ≠ some '\'') :
      Spelled settings (wordKind (first :: others)) (first :: others) next
  | mark {mark : Punct} {next : Option Char} (ends : ∀ char ∈ next, char ∉ mark.longer)
      (apart : mark = .dot → ∀ char ∈ next, char.isDigit = false) :
      Spelled settings (.punct mark) mark.text.toList next

/-! ### The first character decides -/

section

variable {settings : Settings} {fuel : Nat} {first : Char} {rest : List Char}

theorem isDigit_of_isNameStart (starts : isNameStart first = true) : first.isDigit = false := by
  rw [Bool.eq_false_iff]
  intro digit
  simp only [Char.isDigit, Bool.and_eq_true, decide_eq_true_eq] at digit
  have low : 48 ≤ first.toNat := UInt32.le_iff_toNat_le.mp digit.1
  have high : first.toNat ≤ 57 := UInt32.le_iff_toNat_le.mp digit.2
  have outside : ∀ code < 58, 48 ≤ code → isNameStart (Char.ofNat code) = false := by decide
  have none := outside first.toNat (by omega) low
  rw [Char.ofNat_toNat, starts] at none
  cases none

theorem opensString_eq_false (apart : rest.head? ≠ some '\'') : opensString rest = false := by
  rw [Bool.eq_false_iff]
  intro opens
  obtain ⟨after, rfl⟩ := opensString_iff.mp opens
  exact apart rfl

theorem scanLexeme_string (quotes : settings.OpensString [first] first) :
    scanLexeme settings fuel (first :: rest) =
      scanString fuel (!settings.noBackslashEscapes) [first] first rest := by
  cases quotes with
  | single => rw [scanLexeme, if_pos (.inl rfl)]
  | double plain => rw [scanLexeme, if_pos (.inr ⟨rfl, plain⟩)]

theorem scanLexeme_national (mark : first = 'n' ∨ first = 'N') :
    scanLexeme settings fuel (first :: '\'' :: rest) =
      scanString fuel (!settings.noBackslashEscapes) [first, '\''] '\'' rest := by
  rcases mark with rfl | rfl <;> simp [scanLexeme, opensString]

theorem scanLexeme_hexString (mark : first = 'x' ∨ first = 'X') :
    scanLexeme settings fuel (first :: '\'' :: rest) = scanHexString [first, '\''] rest := by
  rcases mark with rfl | rfl <;> simp [scanLexeme, opensString]

theorem scanLexeme_bitString (mark : first = 'b' ∨ first = 'B') :
    scanLexeme settings fuel (first :: '\'' :: rest) = scanBitString [first, '\''] rest := by
  rcases mark with rfl | rfl <;> simp [scanLexeme, opensString]

theorem scanLexeme_quotedWord (quotes : settings.QuotesName first) :
    scanLexeme settings fuel (first :: rest) = scanQuotedWord fuel first rest := by
  rcases quotes with rfl | ⟨rfl, ansi⟩ <;> simp [scanLexeme, *]

theorem scanLexeme_number (opens : first.isDigit = true ∨ first = '.' ∧ opensDigits rest = true) :
    scanLexeme settings fuel (first :: rest) = scanNumber (first :: rest) := by
  have different : ∀ other, other.isDigit = false → other ≠ '.' → first ≠ other := by
    rintro other noDigit noDot rfl
    rcases opens with digit | ⟨rfl, _⟩
    · rw [noDigit] at digit
      cases digit
    · exact noDot rfl
  rw [scanLexeme, if_neg, if_neg, if_neg, if_neg, if_neg, if_pos opens]
  · rintro ⟨rfl | rfl, _⟩ <;> exact different _ (by decide) (by decide) rfl
  · rintro ⟨rfl | rfl, _⟩ <;> exact different _ (by decide) (by decide) rfl
  · rintro ⟨rfl | rfl, _⟩ <;> exact different _ (by decide) (by decide) rfl
  · rintro (rfl | rfl) <;> exact different _ (by decide) (by decide) rfl
  · rintro (rfl | ⟨rfl, _⟩) <;> exact different _ (by decide) (by decide) rfl

theorem scanLexeme_word (starts : isNameStart first = true)
    (apart : marksLiteral [first] = true → rest.head? ≠ some '\'') :
    scanLexeme settings fuel (first :: rest) = scanWord (first :: rest) := by
  have unmarked : ∀ letter, marksLiteral [letter] = true → ¬ (first = letter ∧
      opensString rest = true) := by
    rintro letter marks ⟨rfl, opens⟩
    rw [opensString_eq_false (apart marks)] at opens
    cases opens
  have noDigit := isDigit_of_isNameStart starts
  rw [scanLexeme, if_neg, if_neg, if_neg, if_neg, if_neg, if_neg, if_pos starts]
  · rintro (digit | ⟨rfl, _⟩)
    · rw [noDigit] at digit
      cases digit
    · exact absurd starts (by decide)
  · rintro ⟨same | same, opens⟩ <;> exact unmarked _ (by rfl) ⟨same, opens⟩
  · rintro ⟨same | same, opens⟩ <;> exact unmarked _ (by rfl) ⟨same, opens⟩
  · rintro ⟨same | same, opens⟩ <;> exact unmarked _ (by rfl) ⟨same, opens⟩
  · rintro (rfl | rfl) <;> exact absurd starts (by decide)
  · rintro (rfl | ⟨rfl, _⟩) <;> exact absurd starts (by decide)

/-- Whether a character begins nothing but a mark. -/
def beginsMark (char : Char) : Bool :=
  !(char == '\'' || char == '"' || char == '\x60' || char.isDigit || isNameStart char)

theorem scanLexeme_mark (begins : beginsMark first = true)
    (apart : first = '.' → opensDigits rest = false) :
    scanLexeme settings fuel (first :: rest) =
      match punctAt? (first :: rest) with
      | some (mark, after) => .token (.punct mark) mark.text.toList after
      | none => .failure (.unexpectedChar first) [] (first :: rest) := by
  simp only [beginsMark, Bool.not_eq_true', Bool.or_eq_false_iff, beq_eq_false_iff_ne] at begins
  obtain ⟨⟨⟨⟨noQuote, noDouble⟩, noBacktick⟩, noDigit⟩, noName⟩ := begins
  have noLetter : ∀ letter, isNameStart letter = true → first ≠ letter := by
    rintro letter starts rfl
    rw [noName] at starts
    cases starts
  rewrite [scanLexeme, if_neg, if_neg, if_neg, if_neg, if_neg, if_neg, if_neg]
  · rfl
  · simp [noName]
  · rintro (digit | ⟨dot, digits⟩)
    · rw [noDigit] at digit
      cases digit
    · rw [apart dot] at digits
      cases digits
  · rintro ⟨same | same, _⟩ <;> exact noLetter _ (by decide) same
  · rintro ⟨same | same, _⟩ <;> exact noLetter _ (by decide) same
  · rintro ⟨same | same, _⟩ <;> exact noLetter _ (by decide) same
  · rintro (same | same)
    · exact noDouble same
    · exact noBacktick same
  · rintro (same | ⟨same, _⟩)
    · exact noQuote same
    · exact noDouble same

end

/-! ### Marks -/

theorem Punct.text_eq_cons (mark : Punct) :
    ∃ first others, mark.text.toList = first :: others ∧ beginsMark first = true := by
  cases mark <;> exact ⟨_, _, rfl, by decide⟩

/-- A mark is read up to a text that makes no longer one of it. -/
theorem punctAt?_text {mark : Punct} {rest : List Char}
    (ends : ∀ char ∈ rest.head?, char ∉ mark.longer) :
    punctAt? (mark.text.toList ++ rest) = some (mark, rest) := by
  cases rest with
  | nil => cases mark <;> rfl
  | cons char rest =>
      have other : char ∉ mark.longer := ends char rfl
      cases mark <;> first
        | rfl
        | simp only [Punct.longer, List.mem_cons, List.not_mem_nil, or_false, not_or] at other
          simp [Punct.text, punctAt?, other]

/-- No longer mark is read than the one that was. -/
theorem longer_of_punctAt? {mark : Punct} {chars rest : List Char}
    (read : punctAt? chars = some (mark, rest)) : ∀ char ∈ rest.head?, char ∉ mark.longer := by
  unfold punctAt? at read
  split at read
  case h_31 => cases read
  all_goals
    cases read
    intro char first
    simp only [Punct.longer, List.not_mem_nil, not_false_eq_true, List.mem_cons, or_false, not_or]
  all_goals
    obtain ⟨behind, rfl⟩ := List.head?_eq_some_iff.mp first
    simp_all

/-! ### What is spelled is read -/

variable {settings : Settings} {kind : TokenKind} {text rest : List Char}

theorem Settings.OpensString.length_pos {opening : List Char} {quote : Char}
    (opens : settings.OpensString opening quote) : 0 < opening.length := by
  cases opens <;> simp

/-- Quoted digits are read up to their closing quote. -/
theorem scanDigitString_eq (opening : List Char) (accepts : List Char → Bool)
    (build : String → TokenKind) {digits : List Char} (rest : List Char)
    (noQuote : ∀ char ∈ digits, char ≠ '\'') (accepted : accepts digits = true) :
    scanDigitString opening accepts build (digits ++ '\'' :: rest) =
      .token (build (String.ofList digits)) (opening ++ digits ++ ['\'']) rest := by
  obtain ⟨taken, left⟩ := @takeWhile_append (· != '\'') digits ('\'' :: rest)
    (by simpa using noQuote) (by simp)
  unfold scanDigitString
  rw [taken, left]
  simp [accepted]

/-- A numeral opens a number. -/
theorem Numeral.opens {next : Option Char} (numeral : Numeral kind text next) :
    ∃ first others, text = first :: others ∧
      ∀ rest, first.isDigit = true ∨ first = '.' ∧ opensDigits (others ++ rest) = true := by
  cases numeral with
  | @decimal whole fraction exponent _ parts _ _ =>
      cases whole with
      | cons digit whole =>
          exact ⟨digit, _, rfl, fun _ => .inl (parts.digits digit List.mem_cons_self)⟩
      | nil =>
          obtain ⟨digit, digits, rfl⟩ := parts.nonempty.resolve_left fun some => some rfl
          rcases parts.afterDot with same | ⟨others, same, all⟩
          · cases same
          · cases same
            exact ⟨'.', _, rfl, fun _ => .inr ⟨rfl, all digit List.mem_cons_self⟩⟩
  | hex _ _ _ _ => exact ⟨'0', _, rfl, fun _ => .inl (by decide)⟩
  | bit _ _ _ _ => exact ⟨'0', _, rfl, fun _ => .inl (by decide)⟩

/-- A token is read off its text, where the character behind it may stand there. -/
theorem Spelled.scanLexeme_eq (spelled : Spelled settings kind text rest.head?) {fuel : Nat}
    (room : text.length ≤ fuel) :
    scanLexeme settings fuel (text ++ rest) = .token kind text rest := by
  generalize following : rest.head? = next at spelled
  cases spelled with
  | @string opening quote value taken _ opens body apart =>
      subst following
      have size := opens.length_pos
      have read := body.quotedBody?_eq apart fuel
        (by simp only [List.length_append] at room; omega)
      have scanned : scanString fuel (!settings.noBackslashEscapes) opening quote (taken ++ rest) =
          .token (.string (String.ofList value) quote) (opening ++ taken) rest := by
        rw [scanString, read]
      cases opens with
      | single => exact (scanLexeme_string .single).trans scanned
      | double plain => exact (scanLexeme_string (.double plain)).trans scanned
      | national mark => exact (scanLexeme_national mark).trans scanned
  | @quotedWord quote value taken _ quotes body apart =>
      subst following
      have read := body.quotedBody?_eq apart fuel
        (by simp only [List.length_cons] at room; omega)
      rw [List.cons_append, scanLexeme_quotedWord quotes, scanQuotedWord, read]
  | @hexString letter digits _ mark all even =>
      have scanned := scanDigitString_eq [letter, '\'']
        (fun digits => digits.all isHexDigit && digits.length % 2 == 0) .hex rest
        (fun char member => by rintro rfl; exact absurd (all _ member) (by decide))
        (by simpa [even] using all)
      simpa [scanLexeme_hexString mark, scanHexString] using scanned
  | @bitString letter digits _ mark all =>
      have scanned := scanDigitString_eq [letter, '\''] (fun digits => digits.all isBitDigit) .bit rest
        (fun char member => by rintro rfl; exact absurd (all _ member) (by decide))
        (by simpa using all)
      simpa [scanLexeme_bitString mark, scanBitString] using scanned
  | number numeral =>
      subst following
      obtain ⟨first, others, rfl, opens⟩ := numeral.opens
      rw [List.cons_append, scanLexeme_number (opens rest), ← List.cons_append]
      exact numeral.scanNumber_eq
  | @word first others _ starts all ends apart =>
      subst following
      have inside : ∀ char ∈ first :: others, isNameChar char = true :=
        List.forall_mem_cons.mpr ⟨by simp [isNameChar, starts], all⟩
      obtain ⟨taken, left⟩ := takeWhile_append inside ends
      rw [List.cons_append, scanLexeme_word starts, scanWord, ← List.cons_append, taken, left]
      · rfl
      · -- a second character of the word is no quote
        intro marks
        cases others with
        | nil => exact apart marks
        | cons second others =>
            simp only [List.cons_append, List.head?_cons, ne_eq, Option.some.injEq]
            rintro rfl
            exact absurd (all _ List.mem_cons_self) (by decide)
  | @mark mark _ ends apart =>
      subst following
      obtain ⟨first, others, same, begins⟩ := mark.text_eq_cons
      have read := punctAt?_text ends
      rw [same] at read ⊢
      rw [List.cons_append, scanLexeme_mark begins, ← List.cons_append, read]
      · simp only [same]
      -- a dot that is a whole mark has no digit behind it
      rintro rfl
      obtain rfl : mark = .dot := by
        revert same
        cases mark <;> simp [Punct.text]
      obtain rfl : others = [] := by simpa [Punct.text] using same.symm
      have noDigit := apart rfl
      cases rest with
      | nil => rfl
      | cons char rest => exact noDigit char rfl

/-! ### What is read is spelled -/

/-- What is read as quoted digits. -/
theorem scanDigitString_eq_token {opening chars : List Char} {accepts : List Char → Bool}
    {build : String → TokenKind}
    (read : scanDigitString opening accepts build chars = .token kind text rest) :
    ∃ digits, accepts digits = true ∧ kind = build (String.ofList digits) ∧
      text = opening ++ digits ++ ['\''] := by
  have stopped := dropWhile_ends (· != '\'') chars
  unfold scanDigitString at read
  dsimp only at read
  split at read
  · simp [Lexeme.token, Lexeme.failure] at read
  · next closing behind found =>
      rw [found] at stopped
      obtain rfl : closing = '\'' := by simpa using stopped
      split at read
      · next accepted =>
          simp only [Lexeme.token, Lexeme.mk.injEq, Except.ok.injEq] at read
          exact ⟨_, accepted, read.1.symm, read.2.1.symm⟩
      · simp [Lexeme.token, Lexeme.failure] at read

theorem spelled_of_scanString {fuel : Nat} {opening chars : List Char} {quote : Char}
    (opens : settings.OpensString opening quote)
    (read : scanString fuel (!settings.noBackslashEscapes) opening quote chars =
      .token kind text rest) : Spelled settings kind text rest.head? := by
  unfold scanString at read
  split at read
  · next body found =>
      simp only [Lexeme.token, Lexeme.mk.injEq, Except.ok.injEq] at read
      obtain ⟨rfl, rfl, rfl⟩ := read
      obtain ⟨inside, apart⟩ := quotedText_of_quotedBody? found
      exact .string opens inside apart
  · simp [Lexeme.token, Lexeme.failure] at read

theorem spelled_of_scanQuotedWord {fuel : Nat} {chars : List Char} {quote : Char}
    (quotes : settings.QuotesName quote)
    (read : scanQuotedWord fuel quote chars = .token kind text rest) :
    Spelled settings kind text rest.head? := by
  unfold scanQuotedWord at read
  split at read
  · next body found =>
      simp only [Lexeme.token, Lexeme.mk.injEq, Except.ok.injEq] at read
      obtain ⟨rfl, rfl, rfl⟩ := read
      obtain ⟨inside, apart⟩ := quotedText_of_quotedBody? found
      exact .quotedWord quotes inside apart
  · simp [Lexeme.token, Lexeme.failure] at read

/-- A word ends where no character of a name follows; one letter in front of a quote is none. -/
theorem spelled_of_scanWord {first : Char} {chars : List Char} (starts : isNameStart first = true)
    (apart : marksLiteral [first] = true → opensString chars = false)
    (read : scanWord (first :: chars) = .token kind text rest) :
    Spelled settings kind text rest.head? := by
  have inside : isNameChar first = true := by simp [isNameChar, starts]
  have ends := dropWhile_ends isNameChar (first :: chars)
  unfold scanWord at read
  simp only [Lexeme.token, Lexeme.mk.injEq, Except.ok.injEq] at read
  obtain ⟨rfl, rfl, rfl⟩ := read
  rw [List.takeWhile_cons_of_pos inside]
  refine .word starts (takeWhile_holds _ _) ends fun marks quoted => ?_
  have joined := List.takeWhile_append_dropWhile (p := isNameChar) (l := chars)
  rw [List.dropWhile_cons_of_pos inside] at quoted
  have alone : chars.takeWhile isNameChar = [] := by
    generalize chars.takeWhile isNameChar = others at marks
    cases others with
    | nil => rfl
    | cons second others => simp [marksLiteral] at marks
  rw [alone, List.nil_append] at joined
  rw [joined] at quoted
  rw [alone] at marks
  obtain ⟨behind, rfl⟩ := List.head?_eq_some_iff.mp quoted
  exact absurd (apart marks) (by simp [opensString])

/-- What is read as a token is spelled so. -/
theorem spelled_of_scanLexeme {fuel : Nat} {first : Char} {others : List Char}
    (read : scanLexeme settings fuel (first :: others) = .token kind text rest) :
    Spelled settings kind text rest.head? := by
  unfold scanLexeme at read
  dsimp only at read
  split at read
  · next quotes =>
      refine spelled_of_scanString ?_ read
      rcases quotes with rfl | ⟨rfl, plain⟩
      · exact .single
      · exact .double plain
  rename_i noString
  split at read
  · next quotes =>
      refine spelled_of_scanQuotedWord ?_ read
      rcases quotes with rfl | rfl
      · exact .inr ⟨rfl, by simpa using noString⟩
      · exact .inl rfl
  split at read
  · next marked =>
      obtain ⟨after, rfl⟩ := opensString_iff.mp marked.2
      obtain ⟨digits, accepted, rfl, rfl⟩ := scanDigitString_eq_token read
      simp only [Bool.and_eq_true, List.all_eq_true, beq_iff_eq] at accepted
      simpa using Spelled.hexString marked.1 accepted.1 accepted.2
  rename_i noHex
  split at read
  · next marked =>
      obtain ⟨after, rfl⟩ := opensString_iff.mp marked.2
      obtain ⟨digits, accepted, rfl, rfl⟩ := scanDigitString_eq_token read
      simp only [List.all_eq_true] at accepted
      simpa using Spelled.bitString marked.1 accepted
  rename_i noBit
  split at read
  · next marked =>
      obtain ⟨after, rfl⟩ := opensString_iff.mp marked.2
      exact spelled_of_scanString (.national marked.1) read
  rename_i noNational
  split at read
  · next opens => exact .number (numeral_of_scanNumber opens read)
  rename_i noNumber
  split at read
  · next starts =>
      refine spelled_of_scanWord starts (fun marks => ?_) read
      simp only [marksLiteral, Bool.or_eq_true, beq_iff_eq] at marks
      rw [Bool.eq_false_iff]
      intro opens
      simp_all
  split at read
  · next mark after found =>
      simp only [Lexeme.token, Lexeme.mk.injEq, Except.ok.injEq] at read
      obtain ⟨rfl, rfl, rfl⟩ := read
      refine .mark (longer_of_punctAt? found) ?_
      -- a dot in front of a digit begins a number
      rintro rfl char follows
      obtain ⟨behind, rfl⟩ := List.head?_eq_some_iff.mp follows
      have whole := punctAt?_append found
      simp only [Punct.text, String.reduceToList, List.cons_append, List.nil_append,
        List.cons.injEq] at whole
      obtain ⟨rfl, rfl⟩ := whole
      simpa [opensDigits] using noNumber
  · simp [Lexeme.token, Lexeme.failure] at read

end SqlDml
