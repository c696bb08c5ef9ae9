import SqlDml.Proofs.Canonical.Parsed
import SqlDml.Proofs.Replay.Expressions
import SqlDml.Proofs.Shapes.Shaped
import SqlDml.Proofs.Spelt.Statements

/-!
Contract: which constants of a source are read back from their canonical text.

Owns:
- how often the quote of a name occurs in the texts of tokens and in their values;
- that no text without quotes around a kind that needs them is read as an escape of that kind;
- the constants that are read back, under the settings of their source.

Does not own: what the others are read as.
-/

namespace SqlDml

variable {settings : Settings} {quote : Char}

/-! ### Quotes in texts and values -/

theorem Settings.QuotesName.cases (quotes : settings.QuotesName quote) :
    quote = '\x60' ∨ quote = '"' := by
  rcases quotes with same | ⟨same, _⟩
  · exact .inl same
  · exact .inr same

/-- No escape stands for a quote of names but the quote itself. -/
theorem count_unescape_le (quotes : settings.QuotesName quote) (char : Char) :
    (unescape char).count quote ≤ [char].count quote := by
  unfold unescape
  rcases quotes.cases with rfl | rfl <;> split <;> simp

/-- The value of a quoted text has no quotes of names but those of the text. -/
theorem QuotedText.count_le {around : Char} {escapes : Bool} {value taken : List Char}
    (quotes : settings.QuotesName quote) (body : QuotedText around escapes value taken) :
    value.count quote ≤ taken.count quote := by
  induction body with
  | closed => simp
  | plain other unescaped behind inductionHypothesis =>
      simp only [List.count_cons]
      omega
  | doubled behind inductionHypothesis =>
      simp only [List.count_cons]
      omega
  | escaped char on other behind inductionHypothesis =>
      have inside := count_unescape_le quotes char
      simp only [List.count_append, List.count_cons, List.count_nil] at inside ⊢
      omega

/-- No number is a string. -/
theorem Numeral.ne_string {kind : TokenKind} {text : List Char} {next : Option Char}
    (numeral : Numeral kind text next) (value : String) (around : Char) :
    kind ≠ .string value around := by
  cases numeral with
  | @decimal whole fraction exponent _ _ _ _ =>
      rcases decimalKind_cases whole fraction exponent with ⟨_, same⟩ | ⟨_, same⟩ <;> simp [same]
  | _ => simp

/-- The text of a string is what opens it, and the value behind it. -/
theorem Spelled.string_cases {value : String} {around : Char} {text : List Char}
    {next : Option Char} (spelled : Spelled settings (.string value around) text next) :
    ∃ opening taken, text = opening ++ taken ∧ settings.OpensString opening around ∧
      QuotedText around (!settings.noBackslashEscapes) value.toList taken := by
  generalize same : TokenKind.string value around = kind at spelled
  cases spelled with
  | string opens body apart =>
      cases same
      exact ⟨_, _, rfl, opens, by rwa [String.toList_ofList]⟩
  | number numeral =>
      exact absurd same.symm (numeral.ne_string value around)
  | word starts all ends apart =>
      unfold wordKind at same
      split at same <;> cases same
  | _ => cases same

/-- The value of a string has no quotes of names but those of its text. -/
theorem Spelled.count_string_le {value : String} {around : Char} {text : List Char}
    {next : Option Char} (quotes : settings.QuotesName quote)
    (spelled : Spelled settings (.string value around) text next) :
    value.toList.count quote ≤ text.count quote := by
  obtain ⟨opening, taken, rfl, _, body⟩ := spelled.string_cases
  rw [List.count_append]
  exact Nat.le_trans (body.count_le quotes) (Nat.le_add_left _ _)

/-- A written name has its quotes twice, and one at each end. -/
theorem count_quoteName (quote : Char) (value : String) :
    (quoteName quote value).toList.count quote = 2 * value.toList.count quote + 2 := by
  have inside : ∀ chars : List Char,
      (chars.flatMap (doubleQuote quote)).count quote = 2 * chars.count quote := by
    intro chars
    induction chars with
    | nil => rfl
    | cons char chars inductionHypothesis =>
        rw [List.flatMap_cons, List.count_append, inductionHypothesis, List.count_cons, doubleQuote]
        split
        · next same => simp [same]; omega
        · next other => simp [other]
  rw [toList_quoteName, List.count_cons, List.count_append, inside]
  simp

/-- A written string has no quotes of names but its own. -/
theorem count_quoteString (quotes : settings.QuotesName quote) (value : String) :
    (quoteString value).toList.count quote = value.toList.count quote := by
  have one : ∀ char, (escapeChar char).count quote = [char].count quote := by
    intro char
    unfold escapeChar
    split
    · next same => rcases quotes.cases with rfl | rfl <;> simp [same]
    split
    · next same => rcases quotes.cases with rfl | rfl <;> simp [same]
    split
    · next same => rcases quotes.cases with rfl | rfl <;> simp [same]
    · rfl
  have inside : ∀ chars : List Char, (chars.flatMap escapeChar).count quote = chars.count quote := by
    intro chars
    induction chars with
    | nil => rfl
    | cons char chars inductionHypothesis =>
        rw [List.flatMap_cons, List.count_append, inductionHypothesis, one, ← List.count_append,
          List.singleton_append]
  have noString : ∀ chars : List Char, ('\'' :: chars).count quote = chars.count quote := by
    intro chars
    rcases quotes.cases with rfl | rfl <;> simp
  rw [quoteString, String.toList_ofList, noString, List.count_append, inside, noString,
    List.count_nil, Nat.add_zero]

/-! ### Signs of a source -/

/-- What the lexer read the signs of a source from. -/
theorem exists_items_ofSource {source : String}
    (unfailed : (TokenRun.ofSource source settings).error = none) :
    ∃ items last, Item.Sequence settings (items ++ [last]) ∧
      source.toList = Item.charsAll (items ++ [last]) ∧
      (Spot.ofSource source settings).signs = items.map Item.sign := by
  obtain ⟨_, items, sequence, split, placed⟩ :=
    tokenize_eq_ok_iff.mp (tokenize_of_ahead unfailed)
  obtain ⟨front, back, rfl, ahead, stop⟩ := Item.placeAll_eq_append placed.symm
  obtain ⟨last, rfl⟩ : ∃ last, back = [last] := by
    cases back with
    | nil => cases stop
    | cons last others =>
        cases others with
        | nil => exact ⟨last, rfl⟩
        | cons other others => cases (List.cons.inj stop).2
  refine ⟨front, last, sequence, split, ?_⟩
  have stands := @Item.standsFor_placeAll front Position.start [] rfl (Item.charsAll [last])
  rw [List.nil_append, ← Item.charsAll_append, ← split, ← ahead] at stands
  exact sign_of_standsFor stands

/-- How often a quote occurs in the texts of signs. -/
def Sign.quotesOf (quote : Char) (signs : List Sign) : Nat :=
  (signs.map fun sign => (sign.text.getD "").toList.count quote).sum

@[simp] theorem Sign.quotesOf_cons (sign : Sign) (signs : List Sign) :
    Sign.quotesOf quote (sign :: signs) =
      (sign.text.getD "").toList.count quote + Sign.quotesOf quote signs := by
  simp [Sign.quotesOf]

/-- A sign is that of a token with some text. -/
def Sign.Spelled (settings : Settings) (sign : Sign) : Prop :=
  ∃ text next, sign.text = some (String.ofList text) ∧ SqlDml.Spelled settings sign.kind text next

/-- The tokens ahead are written in the source, and so are their signs. -/
structure Spot.Written (settings : Settings) (spot : Spot) : Prop where
  spelt : spot.Spelt settings
  spelled : ∀ sign ∈ spot.signs, sign.Spelled settings

theorem Spot.Written.next {spot : Spot} (written : spot.Written settings) :
    spot.next.Written settings where
  spelt := written.spelt.of_leads (.next spot)
  spelled sign member := by
    rw [spot.next_signs] at member
    exact written.spelled sign (List.mem_of_mem_tail member)

/-- The signs ahead are those of the next token and of the tokens behind it. -/
theorem Spot.Written.signs_eq {spot : Spot} (written : spot.Written settings)
    (inner : spot.kind ≠ .endOfInput) (quote : Char) :
    ∃ text next, SqlDml.Spelled settings spot.kind text next ∧
      Sign.quotesOf quote spot.signs = text.count quote + Sign.quotesOf quote spot.next.signs := by
  cases front : spot.signs with
  | nil => exact absurd (spot.kind_eq_of_signs front) inner
  | cons sign signs =>
      have kind := spot.kind_eq_of_signs front
      obtain ⟨text, next, same, spelled⟩ :=
        written.spelled sign (front ▸ List.mem_cons_self)
      refine ⟨text, next, kind ▸ spelled, ?_⟩
      rw [spot.next_signs, front, Sign.quotesOf_cons, same]
      simp

/-- The beginning of a source has no quotes but those of the source. -/
theorem written_ofSource {source : String}
    (unfailed : (TokenRun.ofSource source settings).error = none) :
    (Spot.ofSource source settings).Written settings ∧
      ∀ quote, Sign.quotesOf quote (Spot.ofSource source settings).signs ≤
        source.toList.count quote := by
  obtain ⟨items, last, sequence, split, signs⟩ := exists_items_ofSource unfailed
  refine ⟨⟨spelt_ofSource unfailed, ?_⟩, ?_⟩
  · rw [signs]
    intro sign member
    obtain ⟨item, among, rfl⟩ := List.mem_map.mp member
    obtain ⟨next, spelled⟩ := sequence.spelled_of_mem (by simp) among
    exact ⟨item.text, next, rfl, spelled⟩
  · intro quote
    have inside : ∀ items : List Item, Sign.quotesOf quote (items.map Item.sign) ≤
        (Item.charsAll items).count quote := by
      intro items
      induction items with
      | nil => simp [Sign.quotesOf]
      | cons item items inductionHypothesis =>
          simp only [List.map_cons, Sign.quotesOf_cons, Item.sign, Item.charsAll_cons, Item.chars,
            List.count_append, Option.getD_some, String.toList_ofList]
          omega
    rw [signs, split, Item.charsAll_append, List.count_append]
    exact Nat.le_trans (inside items) (Nat.le_add_right _ _)

/-! ### Escapes in braces -/

namespace Rule

variable {spot : Spot}

/-- A run of strings has no quotes of names but those of its tokens. -/
theorem stringRun_quotes (quotes : settings.QuotesName quote) (written : spot.Written settings) :
    stringRun.Ensures spot fun found later =>
      found.1.toList.count quote + Sign.quotesOf quote later.signs ≤
        Sign.quotesOf quote spot.signs := by
  have repeats : (whileSome nextPart "").Ensures spot fun value later =>
      later.Written settings ∧ value.toList.count quote + Sign.quotesOf quote later.signs ≤
        Sign.quotesOf quote spot.signs := by
    refine .whileSome ⟨written, by simp⟩ fun value middle known => ?_
    refine .of_on fun found later outcome => ?_
    rw [on_nextPart] at outcome
    split at outcome
    · next part around string =>
        cases outcome
        obtain ⟨text, next, spelled, whole⟩ := known.1.signs_eq (by simp [string]) quote
        rw [string] at spelled
        have inside := spelled.count_string_le quotes
        refine ⟨known.1.next, ?_⟩
        rw [Option.getD_some, String.toList_append, List.count_append]
        omega
    · cases outcome
      exact known
  rw [stringRun_eq]
  refine .step (on_currentSpan spot) (repeats.bind fun value later known => ?_)
  exact .step (on_previousSpan later) (.pure known.2)

/-- The value of a name is a plain one or was written with quotes, which its token has twice as
often as the value, and twice more. -/
theorem identifier_quotes (written : spot.Written settings) :
    identifier.Ensures spot fun ident later => later.Written settings ∧
      ((Ident.bare ident.value).Plain settings ∨
        ∃ quote, settings.QuotesName quote ∧
          2 * ident.value.toList.count quote + 2 + Sign.quotesOf quote later.signs ≤
            Sign.quotesOf quote spot.signs) := by
  refine .of_on fun ident later outcome => ?_
  have plain : ident.Plain settings := (Gives.identifier spot written.spelt).on outcome
  rw [identifier, on_name] at outcome
  split at outcome
  · next read =>
      cases outcome
      refine ⟨written.next, ?_⟩
      cases quoted : ident.quote with
      | none =>
          left
          unfold Ident.Plain Ident.Named at plain ⊢
          rw [quoted] at plain
          exact plain
      | some quote =>
          right
          have kind : spot.kind = .quotedWord ident.value quote := by
            unfold identOfToken? at read
            split at read
            · cases read
              cases quoted
            · next same =>
                cases read
                cases quoted
                exact same
            · split at read
              · cases read
                cases quoted
              · cases read
            · cases read
          obtain ⟨text, next, spelled, whole⟩ := written.signs_eq (by simp [kind]) quote
          rw [kind, spelled_quotedWord_iff] at spelled
          obtain ⟨quotes, rfl, _⟩ := spelled
          rw [count_quoteName] at whole
          exact ⟨quote, quotes, whole.ge⟩
  · cases outcome

/-- The kind of an escape in braces is a plain name or was written with quotes, which its signs have
then twice as often as the kind, and twice more, beside those of the string. -/
def EscapesAmong (settings : Settings) (signs : List Sign) (tree : Expr) : Prop :=
  ∀ kind value span, tree = .literal (.odbc kind value) span →
    (Ident.bare kind).Plain settings ∨ ∃ quote, settings.QuotesName quote ∧
      2 * kind.toList.count quote + 2 + value.toList.count quote ≤ Sign.quotesOf quote signs

theorem odbcLiteral_escapes (written : spot.Written settings) :
    odbcLiteral.Ensures spot fun tree _ => EscapesAmong settings spot.signs tree := by
  have opens : (expectMark .leftBrace).Ensures spot fun _ later => later = spot.next ∧
      spot.kind ≠ .endOfInput := by
    refine .of_on fun _ later outcome => ?_
    rw [on_expectMark] at outcome
    split at outcome
    · next found =>
        cases outcome
        exact ⟨rfl, by simp [found]⟩
    · cases outcome
  have closes : ∀ spot, (expectMark .rightBrace).Ensures spot fun _ _ => True :=
    fun _ => .of_on fun _ _ _ => trivial
  unfold odbcLiteral
  refine opens.bind fun start inside same => ?_
  obtain ⟨rfl, inner⟩ := same
  refine (identifier_quotes written.next).bind fun ident behind named => ?_
  refine .step (on_peek behind) (.ite (fun _ => ?_) fun _ => .fail)
  obtain ⟨laterWritten, plain | ⟨quote, quotes, bound⟩⟩ := named
  · refine (Ensures.of_on fun found later _ => trivial : stringRun.Ensures behind fun _ _ => True).bind
      fun found later _ => (closes later).bind fun stop last _ => .pure ?_
    rintro kind value span ⟨⟩
    exact .inl plain
  · refine (stringRun_quotes quotes laterWritten).bind fun found later strings =>
      (closes later).bind fun stop last _ => .pure ?_
    rintro kind value span ⟨⟩
    obtain ⟨text, next, _, whole⟩ := written.signs_eq inner quote
    exact .inr ⟨quote, quotes, by omega⟩

/-- A brace begins an escape. -/
theorem primaryExpr_escapes (inner : InnerRules) (written : spot.Written settings)
    (opens : spot.kind = .punct .leftBrace) :
    (primaryExpr inner).Ensures spot fun tree _ => EscapesAmong settings spot.signs tree := by
  unfold primaryExpr
  refine .step (on_peek spot) ?_
  rw [opens]
  exact odbcLiteral_escapes written

end Rule

/-- A text that begins with a brace is read so. -/
theorem kind_ofSource_brace {source : String} {rest : List Char}
    (unfailed : (TokenRun.ofSource source settings).error = none)
    (begins : source.toList = '{' :: rest) :
    (Spot.ofSource source settings).kind = .punct .leftBrace := by
  obtain ⟨items, last, sequence, split, signs⟩ := exists_items_ofSource unfailed
  have brace : ∀ rest, Item.ReadBefore settings ⟨[], .punct .leftBrace, ['{']⟩ rest := fun rest =>
    (Item.readBefore_iff (by simp)).mpr ⟨.nothing _, Piece.Lexed.plain_of_ne (by simp) (by simp),
      @Punct.spelled_single _ _ .leftBrace rfl (by simp)⟩
  rw [begins] at split
  cases items with
  | nil =>
      obtain ⟨read, ⟨ended, _⟩ | ⟨_, behind⟩⟩ := Item.sequence_cons_iff.mp sequence
      · have same := (read.unique (brace rest) split.symm).1
        rw [same] at ended
        cases ended
      · cases behind
  | cons first items =>
      obtain ⟨read, _⟩ := Item.sequence_cons_iff.mp sequence
      have same := (read.unique (brace rest) split.symm).1
      rw [Spot.kind_eq_of_signs signs, same]
      rfl

/-- An escape in braces is read back only if its kind is a plain name. -/
theorem plain_of_parseExpression_odbc {kind value : String} {span : Span}
    (parsed : parseExpression (Piece.textOf (Literal.odbc kind value).pieces) settings =
      .ok (.literal (.odbc kind value) span)) : (Ident.bare kind).Plain settings := by
  obtain ⟨unfailed, later, outcome, _⟩ := (parseExpression_eq_ok _ settings).mp parsed
  have text : (Piece.textOf (Literal.odbc kind value).pieces).toList =
      '{' :: (kind.toList ++ ' ' :: ((quoteString value).toList ++ ['}'])) := by
    rw [Piece.textOf_eq, String.toList_ofList]
    rfl
  have opens := kind_ofSource_brace unfailed text
  obtain ⟨levels, depth⟩ : ∃ levels, settings.maxDepth = levels + 1 := by
    refine Nat.exists_eq_succ_of_ne_zero fun zero => ?_
    rw [zero, InnerRules.expr, Rule.on_operand_zero] at outcome
    cases outcome
  rw [depth, InnerRules.expr, Rule.operand_succ, Rule.on_enter] at outcome
  have primary := Rule.primary_of_operandBody outcome rfl
  obtain ⟨written, within⟩ := written_ofSource unfailed
  have escapes := (Rule.primaryExpr_escapes (Rule.innerAt levels) written opens).on primary
  rcases escapes kind value span rfl with plain | ⟨quote, quotes, bound⟩
  · exact plain
  · -- the text has the quotes of the kind once, its token would have them twice
    have all := within quote
    have noBrace : ∀ chars : List Char, ('{' :: chars).count quote = chars.count quote := by
      intro chars
      rcases quotes.cases with rfl | rfl <;> simp
    have noBlank : ∀ chars : List Char, (' ' :: chars).count quote = chars.count quote := by
      intro chars
      rcases quotes.cases with rfl | rfl <;> simp
    have noEnd : ['}'].count quote = 0 := by
      rcases quotes.cases with rfl | rfl <;> rfl
    rw [text, noBrace, List.count_append, noBlank, List.count_append, count_quoteString quotes,
      noEnd] at all
    omega

/-! ### Constants of a source -/

/-- A constant of a source is read back from its canonical text, under the settings of the source,
if and only if these allow a nesting level, the text is not too long, and the constant is an ordinary
one: the kind of an escape in braces can do without quotes, and no string holds a character that is
written with an escape, unless strings may have them. -/
theorem literal_read_back_iff {source : String} {value : Literal} {span : Span}
    (read : (Node.expr (.literal value span)).OfSource source settings) :
    (∃ place, parseExpression (Expr.literal value span).render settings =
        .ok (.literal value place)) ↔
      0 < settings.maxDepth ∧ (Expr.literal value span).render.utf8ByteSize ≤ maxSourceLength ∧
        value.Ordinary settings := by
  have text : (Expr.literal value span).render = Piece.textOf value.pieces := by
    rw [Expr.render, Expr.pieces]
  have size : (Piece.textOf value.pieces).utf8ByteSize =
      Text.byteCount (Piece.chars value.pieces) := by
    rw [Text.utf8ByteSize_eq_byteCount, Piece.textOf_eq, String.toList_ofList]
  rw [text, size]
  have spelt : value.Spelt := read.spelt
  constructor
  · rintro ⟨place, parsed⟩
    obtain ⟨unfailed, later, outcome, _⟩ := (parseExpression_eq_ok _ settings).mp parsed
    have opens : 0 < settings.maxDepth := by
      refine Nat.pos_of_ne_zero fun zero => ?_
      rw [zero, InnerRules.expr, Rule.on_operand_zero] at outcome
      cases outcome
    have fits : Text.byteCount (Piece.chars value.pieces) ≤ maxSourceLength :=
      size ▸ (tokenize_eq_ok_iff.mp (tokenize_of_ahead unfailed)).1
    have worded : value.Worded settings := by
      cases value with
      | odbc kind value => exact plain_of_parseExpression_odbc parsed
      | _ => trivial
    obtain ⟨again, other⟩ := parseExpression_constant spelt worded opens fits
    rw [parsed] at other
    have same := (Expr.literal.inj (Except.ok.inj other)).1
    exact ⟨opens, fits, worded, same.symm⟩
  · rintro ⟨opens, fits, worded, same⟩
    have parsed := parseExpression_constant spelt worded opens fits
    rwa [same] at parsed

/-- The constant that an expression is. -/
def Expr.constant? : Expr → Option Literal
  | .literal value _ => some value
  | _ => none

theorem Expr.eq_of_constant? {expr : Expr} {value : Literal} (found : expr.constant? = some value) :
    ∃ span, expr = .literal value span := by
  unfold constant? at found
  split at found
  · cases found
    exact ⟨_, rfl⟩
  · cases found

/-- A kind that cannot do without its quotes is written without them, and is not read back. -/
theorem quoted_kind_not_read_back :
    ∃ span, parseExpression "\x7b`a b` 'x'\x7d" {} = .ok (.literal (.odbc "a b" "x") span) ∧
      (Expr.literal (.odbc "a b" "x") span).render = "\x7ba b 'x'\x7d" ∧
      ∀ place, parseExpression "\x7ba b 'x'\x7d" {} ≠ .ok (.literal (.odbc "a b" "x") place) := by
  obtain ⟨expr, accepted, found⟩ := @exists_expr "\x7b`a b` 'x'\x7d" {}
    (fun expr => expr.constant? = some (.odbc "a b" "x")) _ _ rfl (by decide +kernel)
  obtain ⟨span, rfl⟩ := Expr.eq_of_constant? found
  have text : (Expr.literal (.odbc "a b" "x") span).render = "\x7ba b 'x'\x7d" := by
    rw [Expr.render, Expr.pieces]
    decide
  refine ⟨span, accepted, text, fun place parsed => ?_⟩
  obtain ⟨_, _, worded, _⟩ :=
    (literal_read_back_iff (.expression accepted .refl)).mp ⟨place, text ▸ parsed⟩
  have plain : needsQuoting "a b" = false := worded.1
  exact absurd plain (by decide)

end SqlDml
