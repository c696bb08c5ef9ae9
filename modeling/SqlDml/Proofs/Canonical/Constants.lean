import SqlDml.Proofs.Canonical.Lexed

/-!
Contract: constants and columns are read back from canonical text.

Owns:
- constants with values that tokens can give them, and what they are read back as;
- the text and the signs of constants;
- that the rules for constants read these signs;
- that an operand which begins with a name and no call is read by the rule for names, as a column is.

Does not own: which constants a source can spell, calls, and type names.
-/

/-! ## Constants -/

namespace SqlDml

/-! ### Values of tokens -/

/-- A word that is no keyword and needs no quotes. -/
def IsPlainWord (text : String) : Prop :=
  needsQuoting text = false ∧ Keyword.ofWord? text.toList = none

/-- A constant with a value that tokens can give it. -/
def Literal.Spelt : Literal → Prop
  | .integer value => 0 ≤ value ∧ value < 9223372036854775808
  | .number text => IsNumberText text
  | .introduced charset value =>
      IsPlainWord ("_" ++ charset) ∧ introducedCharset? ("_" ++ charset) = some charset ∧
        value.Introducible ∧ value.Spelt
  | .hex digits => ∀ char ∈ digits.toList, isHexDigit char
  | .bit digits => ∀ char ∈ digits.toList, isBitDigit char
  | .string _ | .null | .true | .false | .temporal _ _ | .odbc _ _ | .currentTimestamp => True

theorem Literal.Spelt.natural {value : Nat} (small : value < 9223372036854775808) :
    (Literal.integer value).Spelt :=
  ⟨Int.natCast_nonneg value, Int.ofNat_lt.mpr small⟩

theorem Literal.Spelt.exists_natural {value : Int} (spelt : (Literal.integer value).Spelt) :
    ∃ natural : Nat, value = natural ∧ natural < 9223372036854775808 := by
  obtain ⟨natural, rfl⟩ := Int.eq_ofNat_of_zero_le spelt.1
  exact ⟨natural, rfl, Int.ofNat_lt.mp spelt.2⟩

/-- The kind of an escape in braces, which is written without quotes, is a plain name. -/
def Literal.Worded (settings : Settings) : Literal → Prop
  | .odbc kind _ => (Ident.bare kind).Plain settings
  | _ => True

/-- What a constant is read back as. -/
def Literal.reread (settings : Settings) : Literal → Literal
  | .string value => .string (settings.reread value)
  | .introduced charset (.string value) => .introduced charset (.string (settings.reread value))
  | .temporal kind value => .temporal kind (settings.reread value)
  | .odbc kind value => .odbc kind (settings.reread value)
  | other => other

/-- A constant that its canonical text does not change: the kind of an escape is a plain name, and
without escapes in strings no character needs one. -/
def Literal.Ordinary (settings : Settings) (value : Literal) : Prop :=
  value.Worded settings ∧ value.reread settings = value

/-- The signs of a constant. -/
def Literal.signs (settings : Settings) (value : Literal) : List Sign :=
  Piece.signsOf settings value.pieces

/-! ### Texts of constants -/

section

variable {settings : Settings} {spaced : Bool} {pieces : List Piece}

namespace Piece.Lexed

/-- Text that is one number. -/
theorem number {text : String} {kind : TokenKind}
    (numeral : ∀ next, EndsToken next → Numeral kind text.toList next) (ended : ends pieces = true)
    (behind : Lexed settings spaced pieces) : Lexed settings false (.verbatim text :: pieces) := by
  have alone := numeral none nofun
  exact .verbatim (.number (numeral _ (endsToken_of_ends ended))) (.number alone) alone.noBlank
    alone.unmarked behind

/-- A word that is written as it is. -/
theorem plainWord {text : String} (plain : needsQuoting text = false) (ended : ends pieces = true)
    (behind : Lexed settings spaced pieces) : Lexed settings false (.verbatim text :: pieces) :=
  .verbatim (spelled_wordKind plain (endsToken_of_ends ended).name) (spelled_wordKind plain nofun)
    (noBlank_of_needsQuoting plain) (by unfold wordKind; split <;> simp) behind

/-- The name of a character set touches the string behind it. -/
theorem charset {name value : String} (plain : needsQuoting ("_" ++ name) = false)
    (behind : Lexed settings spaced (.string value :: pieces)) :
    Lexed settings false (.verbatim ("_" ++ name) :: .string value :: pieces) := by
  have alone : Spelled {} _ _ none := spelled_wordKind plain nofun
  refine .verbatim ?_ alone (noBlank_of_needsQuoting plain) (by unfold wordKind; split <;> simp) behind
  obtain ⟨first, others, chars, starts, all⟩ := needsQuoting_eq_false_iff.mp plain
  obtain rfl : '_' = first := by
    rw [String.toList_append] at chars
    exact (List.cons.inj chars).1
  have next : (Piece.chars (.string value :: pieces)).head? = some '\'' := by
    simp [Piece.text, quoteString]
  rw [chars, next]
  refine .word starts all ?_ fun marks => ?_
  · rintro char ⟨⟩
    decide
  · cases others <;> cases marks

theorem constant {value : Literal} (spelt : value.Spelt) (worded : value.Worded settings)
    (ended : ends pieces = true) (behind : Lexed settings spaced pieces) :
    Lexed settings false (value.pieces ++ pieces) := by
  have hex : ∀ {digits : String}, (∀ char ∈ digits.toList, isHexDigit char = true) →
      Lexed settings false
        (.verbatim (if digits.isEmpty then "X''" else "0x" ++ digits) :: pieces) := by
    intro digits all
    have noBlank := noBlank_of_all (show isHexDigit ' ' = false by decide) all
    exact .verbatim (spelled_hex all (endsToken_of_ends ended)) (spelled_hex all nofun)
      (by split <;> simp [noBlank]) (by simp) behind
  have bit : ∀ {digits : String}, (∀ char ∈ digits.toList, isBitDigit char = true) →
      Lexed settings false
        (.verbatim (if digits.isEmpty then "B''" else "0b" ++ digits) :: pieces) := by
    intro digits all
    have noBlank := noBlank_of_all (show isBitDigit ' ' = false by decide) all
    exact .verbatim (spelled_bit all (endsToken_of_ends ended)) (spelled_bit all nofun)
      (by split <;> simp [noBlank]) (by simp) behind
  cases value with
  | integer value =>
      obtain ⟨natural, rfl, small⟩ := spelt.exists_natural
      exact .number (fun _ => numeral_integer small) ended behind
  | number text => exact .number (fun _ => numeral_number spelt) ended behind
  | string value => exact .string value ended behind
  | introduced charset value =>
      obtain ⟨⟨plain, _⟩, _, introducible, spelt⟩ := spelt
      cases value with
      | string value => exact .charset plain (.string value ended behind)
      | hex digits => exact .plainWord plain rfl (.blank (hex spelt))
      | bit digits => exact .plainWord plain rfl (.blank (bit spelt))
      | _ => exact introducible.elim
  | hex digits => exact hex spelt
  | bit digits => exact bit spelt
  | null => exact .word .NULL ended behind
  | true => exact .word .TRUE ended behind
  | false => exact .word .FALSE ended behind
  | temporal kind value => exact .word kind.keyword rfl (.blank (.string value ended behind))
  | odbc kind value =>
      have closed : Lexed settings false (.mark .rightBrace :: pieces) :=
        .single .rightBrace rfl behind
      exact .single .leftBrace rfl (.plainWord worded.1 rfl (.blank (.string value rfl closed)))
  | currentTimestamp => exact .word .CURRENT_TIMESTAMP ended behind

end Piece.Lexed

/-! ### Signs of constants -/

namespace Piece

theorem signs_number {text : String} {kind : TokenKind}
    (numeral : Numeral kind text.toList none) :
    (verbatim text).signs settings = [⟨kind, some text⟩] :=
  signs_verbatim (.number numeral) numeral.noBlank

theorem signs_hex {digits : String} (all : ∀ char ∈ digits.toList, isHexDigit char = true) :
    ∃ text, (verbatim (if digits.isEmpty then "X''" else "0x" ++ digits)).signs settings =
      [⟨.hex digits, some text⟩] := by
  have noBlank := noBlank_of_all (show isHexDigit ' ' = false by decide) all
  exact ⟨_, signs_verbatim (spelled_hex all nofun) (by split <;> simp [noBlank])⟩

theorem signs_bit {digits : String} (all : ∀ char ∈ digits.toList, isBitDigit char = true) :
    ∃ text, (verbatim (if digits.isEmpty then "B''" else "0b" ++ digits)).signs settings =
      [⟨.bit digits, some text⟩] := by
  have noBlank := noBlank_of_all (show isBitDigit ' ' = false by decide) all
  exact ⟨_, signs_verbatim (spelled_bit all nofun) (by split <;> simp [noBlank])⟩

/-- The kind of an escape stands for a name without quotes. -/
theorem signs_kind {kind : String} (plain : (Ident.bare kind).Plain settings) :
    (verbatim kind).signs settings = [(Ident.bare kind).sign settings] := by
  have written : needsQuoting kind = false := plain.1
  rw [signs_verbatim (spelled_wordKind written nofun) (noBlank_of_needsQuoting written), Ident.sign,
    Ident.kind, Ident.render, wordKind]
  simp only [Ident.bare, written, Bool.false_eq_true, if_false]
  split <;> simp_all

end Piece

end

/-! ### Signs in any spelling -/

/-- Adjacent strings, and the text that they make. -/
inductive Sign.Strings : List Sign → String → Prop where
  | nil : Strings [] ""
  | cons {sign : Sign} {signs : List Sign} {part value : String} {quote : Char}
      (first : sign.kind = .string part quote) (others : Strings signs value) :
      Strings (sign :: signs) (part ++ value)

/-- The strings that one string is. -/
theorem Sign.strings_single {sign : Sign} {value : String} {quote : Char}
    (kind : sign.kind = .string value quote) : Sign.Strings [sign] value := by
  have all := Sign.Strings.cons kind .nil
  rwa [String.append_empty] at all

/-- One string or more in front of something else. -/
theorem Sign.Strings.isString {strings : List Sign} {value : String} (all : Sign.Strings strings value)
    (nonempty : strings ≠ []) (rest : List Sign) :
    (kindAt (strings ++ rest) 0).isString = true := by
  cases all with
  | nil => exact absurd rfl nonempty
  | cons first _ =>
      rw [List.cons_append, kindAt_zero, first]
      rfl

/-- The constant that a token is on its own, strings left out. -/
def TokenKind.constant? : TokenKind → Option Literal
  | .integer value => some (.integer value)
  | .number text => some (.number text)
  | .hex digits => some (.hex digits)
  | .bit digits => some (.bit digits)
  | .keyword .NULL => some .null
  | .keyword .TRUE => some .true
  | .keyword .FALSE => some .false
  | _ => none

/-- The signs of a constant behind the name of a character set. -/
inductive Literal.IntroducedFrom : List Sign → Literal → Prop where
  | string {strings : List Sign} {value : String} (all : Sign.Strings strings value)
      (nonempty : strings ≠ []) : IntroducedFrom strings (.string value)
  | hex {sign : Sign} {digits : String} (kind : sign.kind = .hex digits) :
      IntroducedFrom [sign] (.hex digits)
  | bit {sign : Sign} {digits : String} (kind : sign.kind = .bit digits) :
      IntroducedFrom [sign] (.bit digits)

/-- The signs of a constant, in any spelling. -/
inductive Literal.ReadFrom (settings : Settings) : List Sign → Literal → Prop where
  | token {sign : Sign} {value : Literal} (known : sign.kind.constant? = some value) :
      ReadFrom settings [sign] value
  | string {strings : List Sign} {value : String} (all : Sign.Strings strings value)
      (nonempty : strings ≠ []) : ReadFrom settings strings (.string value)
  | introduced {word : Sign} {signs : List Sign} {text charset : String} {value : Literal}
      (kind : word.kind = .word text) (known : introducedCharset? text = some charset)
      (introduced : value.IntroducedFrom signs) :
      ReadFrom settings (word :: signs) (.introduced charset value)
  | temporal {word : Sign} {strings : List Sign} {value : String} (kind : TemporalKind)
      (named : word.kind = .keyword kind.keyword) (all : Sign.Strings strings value)
      (nonempty : strings ≠ []) : ReadFrom settings (word :: strings) (.temporal kind value)
  | odbc {opening closing : Sign} {strings : List Sign} {kind : Ident} {value : String}
      (opens : opening.kind = .punct .leftBrace) (plain : kind.Plain settings)
      (all : Sign.Strings strings value) (nonempty : strings ≠ [])
      (closes : closing.kind = .punct .rightBrace) :
      ReadFrom settings (opening :: kind.sign settings :: (strings ++ [closing]))
        (.odbc kind.value value)
  | currentTimestamp {word : Sign} (named : word.kind = .keyword .CURRENT_TIMESTAMP) :
      ReadFrom settings [word] .currentTimestamp
  | currentTimestampCall {word opening closing : Sign}
      (named : word.kind = .keyword .CURRENT_TIMESTAMP) (opens : opening.kind = .punct .leftParen)
      (closes : closing.kind = .punct .rightParen) :
      ReadFrom settings [word, opening, closing] .currentTimestamp

/-- The canonical text of a constant has the signs of what it is read back as. -/
theorem Literal.readFrom_signs {settings : Settings} {value : Literal} (spelt : value.Spelt)
    (worded : value.Worded settings) :
    (value.reread settings).ReadFrom settings (value.signs settings) := by
  have string : ∀ value, Sign.Strings [Sign.string settings value] (settings.reread value) :=
    fun _ => Sign.strings_single rfl
  have filled : ∀ value, [Sign.string settings value] ≠ [] := fun _ => List.cons_ne_nil _ _
  have single : ∀ {text : String} {sign : Sign}, (Piece.verbatim text).signs settings = [sign] →
      Piece.signsOf settings [.verbatim text] = [sign] := by
    intro text sign same
    rw [Piece.signsOf, List.flatMap_singleton, same]
  unfold Literal.signs
  cases value with
  | integer value =>
      obtain ⟨natural, rfl, small⟩ := spelt.exists_natural
      have alone : Piece.signsOf settings (integer natural).pieces =
          [⟨.integer natural, some (toString natural)⟩] :=
        single (Piece.signs_number (numeral_integer small nofun))
      rw [alone]
      exact .token rfl
  | number text =>
      rw [Literal.pieces, single (Piece.signs_number (numeral_number spelt nofun))]
      exact .token rfl
  | string value => exact .string (string value) (filled value)
  | introduced charset value =>
      obtain ⟨⟨plain, noKeyword⟩, known, introducible, spelt⟩ := spelt
      have word : (Piece.verbatim ("_" ++ charset)).signs settings =
          [⟨.word ("_" ++ charset), some ("_" ++ charset)⟩] := by
        have spelled : Spelled {} _ _ none := spelled_wordKind plain nofun
        rw [Piece.signs_verbatim spelled (noBlank_of_needsQuoting plain), wordKind, noKeyword,
          String.ofList_toList]
      have front : ∀ pieces, Piece.signsOf settings (.verbatim ("_" ++ charset) :: pieces) =
          ⟨.word ("_" ++ charset), some ("_" ++ charset)⟩ :: Piece.signsOf settings pieces := by
        intro pieces
        rw [Piece.signsOf, List.flatMap_cons, word]
        rfl
      cases value with
      | string value =>
          rw [Literal.pieces, front]
          exact .introduced rfl known (.string (string value) (filled value))
      | hex digits =>
          obtain ⟨text, sign⟩ := @Piece.signs_hex settings digits spelt
          have signs : Piece.signsOf settings (introduced charset (hex digits)).pieces = _ :=
            front _
          rw [signs, Piece.signsOf_blank, Literal.pieces, single sign]
          exact .introduced rfl known (.hex rfl)
      | bit digits =>
          obtain ⟨text, sign⟩ := @Piece.signs_bit settings digits spelt
          have signs : Piece.signsOf settings (introduced charset (bit digits)).pieces = _ :=
            front _
          rw [signs, Piece.signsOf_blank, Literal.pieces, single sign]
          exact .introduced rfl known (.bit rfl)
      | _ => exact introducible.elim
  | hex digits =>
      obtain ⟨text, sign⟩ := @Piece.signs_hex settings digits spelt
      rw [Literal.pieces, single sign]
      exact .token rfl
  | bit digits =>
      obtain ⟨text, sign⟩ := @Piece.signs_bit settings digits spelt
      rw [Literal.pieces, single sign]
      exact .token rfl
  | null | true | false => exact .token rfl
  | temporal kind value => exact .temporal kind rfl (string value) (filled value)
  | odbc kind value =>
      rw [Literal.pieces, Piece.signsOf, List.flatMap_cons, List.flatMap_cons,
        Piece.signs_kind worded]
      exact .odbc rfl worded (string value) (filled value) rfl
  | currentTimestamp => exact .currentTimestamp rfl

/-! ### Rules for constants -/

namespace Rule.Takes

variable {concat : Bool} {rest strings : List Sign} {value : String}

theorem nextParts (all : Sign.Strings strings value) (ends : (kindAt rest 0).isString = false)
    (before : String) :
    (whileSome nextPart before).Takes concat (strings ++ rest) rest (before ++ value) := by
  induction all generalizing before with
  | nil =>
      refine .whileSome_stop ?_ (by rw [String.append_empty]; infer_instance)
      unfold nextPart
      refine .peek ?_
      split
      · next part quote string =>
          rw [List.nil_append] at string
          rw [string] at ends
          cases ends
      · exact .pure
  | @cons sign signs part value quote first _ inductionHypothesis =>
      have more : (nextPart before).Takes concat (sign :: (signs ++ rest)) (signs ++ rest)
          (some (before ++ part)) := by
        unfold nextPart
        refine .peek ?_
        rw [kindAt_zero, first]
        exact .advance fun _ _ => .pure
      refine whileSome_more more fun found same => ?_
      obtain rfl := same.eq
      rw [← String.append_assoc]
      exact inductionHypothesis _

theorem stringRun {β : Type} [Labelled β] {next : String × Span → Rule β} {after : List Sign}
    {whole : β} (all : Sign.Strings strings value) (ends : (kindAt rest 0).isString = false)
    (second : ∀ span, (next (value, span)).Takes concat rest after whole) :
    (Rule.stringRun >>= next).Takes concat (strings ++ rest) after whole := by
  have run : Rule.stringRun.Takes concat (strings ++ rest) rest (value, Span.zero) := by
    rw [stringRun_eq]
    refine .currentSpan fun start => (nextParts all ends "").step (.previousSpan fun stop => ?_)
    rw [String.empty_append]
    exact .pure
  refine run.bind fun found alike => ?_
  obtain ⟨text, span⟩ := found
  have same : Alike .plain (value, Span.zero).1 (text, span).1 := Alike.fst
  cases same.eq
  exact second span

/-- A constant that is one token. -/
theorem tokenLiteral {sign : Sign} (value : Literal) :
    (Rule.tokenLiteral value).Takes concat (sign :: rest) rest (.literal value Span.zero) := by
  unfold Rule.tokenLiteral
  exact .advance fun _ _ => .pure

theorem temporalLiteral {sign : Sign} (kind : TemporalKind) (all : Sign.Strings strings value)
    (ends : (kindAt rest 0).isString = false) :
    (Rule.temporalLiteral kind).Takes concat (sign :: (strings ++ rest)) rest
      (.literal (.temporal kind value) Span.zero) := by
  unfold Rule.temporalLiteral
  exact .advance fun word _ => stringRun all ends fun span => .pure

theorem introducedLiteral {sign : Sign} {signs : List Sign} (charset : String) {literal : Literal}
    (introduced : introducedValue.Takes concat (signs ++ rest) rest literal) :
    (Rule.introducedLiteral charset).Takes concat (sign :: (signs ++ rest)) rest
      (.literal (.introduced charset literal) Span.zero) := by
  unfold Rule.introducedLiteral
  refine .advance fun word _ => introduced.bind fun found alike => .previousSpan fun stop => ?_
  obtain rfl := alike.eq
  exact .pure

theorem odbcLiteral {settings : Settings} {opening closing : Sign} {kind : Ident}
    (opens : opening.kind = .punct .leftBrace) (plain : kind.Plain settings)
    (all : Sign.Strings strings value) (nonempty : strings ≠ [])
    (closes : closing.kind = .punct .rightBrace) :
    Rule.odbcLiteral.Takes concat
      (opening :: kind.sign settings :: (strings ++ closing :: rest)) rest
      (.literal (.odbc kind.value value) Span.zero) := by
  unfold Rule.odbcLiteral
  refine .expect opens fun start => (identifier plain).bind fun found alike => .peek ?_
  rw [if_pos (all.isString nonempty _)]
  have ends : (kindAt (closing :: rest) 0).isString = false := by
    rw [kindAt_zero, closes]
    rfl
  exact stringRun all ends fun span => .expect closes fun stop => .pure

theorem currentTimestamp {sign : Sign} (noParen : kindAt rest 0 ≠ .punct .leftParen) :
    Rule.currentTimestamp.Takes concat (sign :: rest) rest
      (.literal .currentTimestamp Span.zero) := by
  unfold Rule.currentTimestamp
  exact .advance fun start _ => .eat_none noParen (.previousSpan fun stop => .pure)

theorem currentTimestampCall {sign opening closing : Sign}
    (opens : opening.kind = .punct .leftParen) (closes : closing.kind = .punct .rightParen) :
    Rule.currentTimestamp.Takes concat (sign :: opening :: closing :: rest) rest
      (.literal .currentTimestamp Span.zero) := by
  unfold Rule.currentTimestamp
  exact .advance fun start _ => .eat opens (.expect closes fun _ => .previousSpan fun stop => .pure)

theorem introducedValue {signs : List Sign} {literal : Literal}
    (introduced : literal.IntroducedFrom signs) (ends : (kindAt rest 0).isString = false) :
    isIntroducible (kindAt (signs ++ rest) 0) = true ∧
      Rule.introducedValue.Takes concat (signs ++ rest) rest literal := by
  unfold Rule.introducedValue
  cases introduced with
  | string all nonempty =>
      have opens := all.isString nonempty rest
      obtain ⟨part, quote, kind⟩ : ∃ part quote,
          kindAt (signs ++ rest) 0 = .string part quote := by
        cases same : kindAt (signs ++ rest) 0 with
        | string part quote => exact ⟨part, quote, rfl⟩
        | _ =>
            rw [same] at opens
            cases opens
      refine ⟨by rw [kind]; rfl, .peek ?_⟩
      rw [kind]
      exact stringRun all ends fun span => .pure
  | hex kind =>
      rw [List.singleton_append, kindAt_zero, kind]
      refine ⟨rfl, .peek ?_⟩
      rw [kindAt_zero, kind]
      exact .advance fun _ _ => .pure
  | bit kind =>
      rw [List.singleton_append, kindAt_zero, kind]
      refine ⟨rfl, .peek ?_⟩
      rw [kindAt_zero, kind]
      exact .advance fun _ _ => .pure

/-- A constant is read up to where neither a string nor a parenthesis follows. -/
theorem constant (inner : InnerRules) {settings : Settings} {signs : List Sign} {literal : Literal}
    (read : literal.ReadFrom settings signs) (noString : (kindAt rest 0).isString = false)
    (noParen : kindAt rest 0 ≠ .punct .leftParen) :
    (primaryExpr inner).Takes concat (signs ++ rest) rest (.literal literal Span.zero) := by
  unfold primaryExpr
  refine .peek ?_
  cases read with
  | @token sign _ known =>
      rw [List.singleton_append, kindAt_zero]
      unfold TokenKind.constant? at known
      split at known
      case h_8 => cases known
      all_goals
        next kind =>
          cases known
          rw [kind]
          exact tokenLiteral _
  | string all nonempty =>
      have opens := all.isString nonempty rest
      cases same : kindAt (signs ++ rest) 0 with
      | string part quote => exact stringRun all noString fun span => .pure
      | _ =>
          rw [same] at opens
          cases opens
  | @introduced word signs text charset value kind known introduced =>
      obtain ⟨opens, takes⟩ := @introducedValue concat _ _ _ introduced noString
      rw [List.cons_append, kindAt_zero, kind]
      unfold wordExpr
      refine .peekAhead 1 ?_
      rw [kindAt_succ, if_pos opens, known]
      exact introducedLiteral charset takes
  | @temporal word strings value kind named all nonempty =>
      have opens := all.isString nonempty rest
      have takes := @temporalLiteral concat _ _ _ word kind all noString
      rw [List.cons_append, kindAt_zero, named]
      have expr : ∀ keyword, (temporalExpr inner keyword kind).Takes concat
          (word :: (strings ++ rest)) rest (.literal (.temporal kind value) Span.zero) := by
        intro keyword
        unfold temporalExpr
        refine .peekAhead 1 ?_
        rw [kindAt_succ, if_pos opens]
        exact takes
      cases kind <;> exact expr _
  | @odbc opening closing strings kind value opens plain all nonempty closes =>
      rw [List.cons_append, kindAt_zero, opens]
      simp only [List.cons_append, List.append_assoc, List.nil_append]
      exact odbcLiteral opens plain all nonempty closes
  | @currentTimestamp word named =>
      rw [List.singleton_append, kindAt_zero, named]
      refine .aheadIs 1 _ ?_
      have plain : ¬ decide (kindAt rest 0 = .punct .leftParen) = true := by simpa using noParen
      exact (if_neg plain) ▸ Takes.currentTimestamp noParen
  | @currentTimestampCall word opening closing named opens closes =>
      rw [List.cons_append, kindAt_zero, named]
      refine .aheadIs 1 _ ?_
      split
      · refine .aheadIs 2 _ ?_
        split
        · exact Takes.currentTimestampCall opens closes
        · next other => exact absurd (decide_eq_true closes) other
      · next other => exact absurd (decide_eq_true opens) other

end Rule.Takes

/-! ### First tokens -/

/-- Whether a constant can begin with the token. -/
def TokenKind.beginsConstant : TokenKind → Bool
  | .integer _ | .number _ | .string _ _ | .hex _ | .bit _ | .word _ | .punct .leftBrace
  | .keyword .NULL | .keyword .TRUE | .keyword .FALSE | .keyword .DATE | .keyword .TIME
  | .keyword .TIMESTAMP | .keyword .CURRENT_TIMESTAMP => true
  | _ => false

/-- A constant begins with a token of its own. -/
theorem beginsConstant_of_readFrom {settings : Settings} {signs : List Sign} {value : Literal}
    (read : value.ReadFrom settings signs) (rest : List Sign) :
    (kindAt (signs ++ rest) 0).beginsConstant = true := by
  cases read with
  | @token sign _ known =>
      rw [List.singleton_append, kindAt_zero]
      unfold TokenKind.constant? at known
      split at known
      case h_8 => cases known
      all_goals
        next kind =>
          rw [kind]
          rfl
  | string all nonempty =>
      have opens := all.isString nonempty rest
      cases kind : kindAt (_ ++ rest) 0 with
      | string part quote => rfl
      | _ =>
          rw [kind] at opens
          cases opens
  | introduced kind _ _ =>
      rw [List.cons_append, kindAt_zero, kind]
      rfl
  | temporal kind named _ _ =>
      rw [List.cons_append, kindAt_zero, named]
      cases kind <;> rfl
  | odbc opens _ _ _ _ =>
      rw [List.cons_append, kindAt_zero, opens]
      rfl
  | currentTimestamp named =>
      rw [List.cons_append, kindAt_zero, named]
      rfl
  | currentTimestampCall named _ _ =>
      rw [List.cons_append, kindAt_zero, named]
      rfl

/-- No quantifier begins a constant. -/
theorem quantifier?_of_beginsConstant {kind : TokenKind} (begins : kind.beginsConstant = true) :
    Rule.quantifier? kind = none := by
  unfold Rule.quantifier?
  split <;> first | rfl | cases begins

end SqlDml

/-! ## Columns -/

namespace SqlDml.Rule.Takes

variable {settings : Settings} {concat : Bool} {before rest : List Sign} {name : Ident}
  {tree : Expr}

/-- An operand that begins with a name, in front of neither a string nor a parenthesis. -/
theorem primary_of_name (inner : InnerRules) (plain : name.Plain settings)
    (front : kindAt before 0 = name.kind settings)
    (noValue : isIntroducible (kindAt before 1) = false)
    (noParen : kindAt before 1 ≠ .punct .leftParen)
    (read : (nameExpr inner).Takes concat before rest tree) :
    (primaryExpr inner).Takes concat before rest tree := by
  have noString : (kindAt before 1).isString = false := by
    cases kind : kindAt before 1 with
    | string value quote =>
        rw [kind] at noValue
        cases noValue
    | _ => rfl
  have word : ∀ keyword : Keyword, keyword.isNonreserved = true →
      (keywordExpr inner keyword).Takes concat before rest tree := by
    intro keyword nonreserved
    unfold keywordExpr
    dsimp only
    rw [nonreserved]
    split
    · refine .aheadIs 1 _ ?_
      split
      · next opens => exact absurd (of_decide_eq_true opens) noParen
      · exact read
    · exact read
  have temporal : ∀ (keyword : Keyword) (kind : TemporalKind), keyword.isNonreserved = true →
      (temporalExpr inner keyword kind).Takes concat before rest tree := by
    intro keyword kind nonreserved
    unfold temporalExpr
    refine .peekAhead 1 ?_
    rw [noString]
    exact word keyword nonreserved
  unfold primaryExpr
  refine .peek ?_
  rw [front]
  rcases plain.kind_cases with ⟨quote, _, kind⟩ | ⟨_, _, ⟨kind, _⟩ | ⟨keyword, kind, _, accepted⟩⟩
  · rw [kind]
    exact read
  · rw [kind]
    dsimp only
    unfold wordExpr
    refine .peekAhead 1 ?_
    rw [noValue]
    exact read
  · rw [kind]
    unfold Keyword.isNonreserved at accepted
    split at accepted
    case h_1 => exact temporal .DATE .date rfl
    case h_2 => exact temporal .TIME .time rfl
    case h_3 => exact temporal .TIMESTAMP .timestamp rfl
    case h_20 => cases accepted
    all_goals exact word _ rfl

/-- A column begins with a plain name, in front of a dot or of what follows the column. -/
theorem begins_column {ref : ColumnRef} (named : ref.Named settings) (rest : List Sign) :
    ∃ first : Ident, first.Plain settings ∧
      kindAt (ref.signs settings ++ rest) 0 = first.kind settings ∧
      (kindAt (ref.signs settings ++ rest) 1 = .punct .dot ∨
        kindAt (ref.signs settings ++ rest) 1 = kindAt rest 0) := by
  obtain ⟨schema, table, column, place⟩ := ref
  cases table with
  | none =>
      cases schema with
      | some schema => exact named.elim
      | none => exact ⟨column, named, rfl, .inr rfl⟩
  | some table =>
      cases schema with
      | some schema => exact ⟨schema, named.1, rfl, .inl rfl⟩
      | none => exact ⟨table, named.1, rfl, .inl rfl⟩

/-- A column is read up to where neither a dot, a value nor a parenthesis follows. -/
theorem column (inner : InnerRules) {ref : ColumnRef} (named : ref.Named settings)
    (noDot : kindAt rest 0 ≠ .punct .dot) (noValue : isIntroducible (kindAt rest 0) = false)
    (noParen : kindAt rest 0 ≠ .punct .leftParen) :
    (primaryExpr inner).Takes concat (ref.signs settings ++ rest) rest (.column ref) := by
  obtain ⟨first, plain, front, behind⟩ := begins_column named rest
  have value : isIntroducible (kindAt (ref.signs settings ++ rest) 1) = false := by
    rcases behind with dot | same
    · rw [dot]
      rfl
    · rw [same, noValue]
  have opens : kindAt (ref.signs settings ++ rest) 1 ≠ .punct .leftParen := by
    rcases behind with dot | same
    · simp [dot]
    · rwa [same]
  refine primary_of_name inner plain front value opens ?_
  unfold nameExpr
  refine .aheadIs_other opens ?_
  exact (columnRef named noDot).bind fun found alike => .pure

end SqlDml.Rule.Takes
