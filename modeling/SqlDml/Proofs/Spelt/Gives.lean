import SqlDml.Proofs.Canonical.Constants
import SqlDml.Proofs.Rules.Ensures
import SqlDml.Proofs.Spelling.Written
import SqlDml.Proofs.Spelt.Nodes

/-!
Contract: what holds of every value that a rule reads where the tokens ahead are written in the
source.

Owns:
- values that the tokens of each kind can carry, told by their texts;
- spots whose tokens ahead are written in the source, as at its beginning;
- how properties of what is read there pass through sequences, choices, attempts and repetitions;
- what is known of the kinds and the names that are read;
- rules that read trees of written words, for use one nesting level deeper.

Does not own: any property of the rules of the language but those for single names.
-/

/-! ## Tokens as they are written -/

namespace SqlDml

variable {settings : Settings} {kind : TokenKind} {text : List Char} {next : Option Char}

/-- The value of a token can be given by a text.  The text itself matters for keywords only, which
may stand for names. -/
def TokenKind.SpeltBy (settings : Settings) (text : List Char) : TokenKind → Prop
  | .integer value => value < 9223372036854775808
  | .number written => IsNumberText written
  | .string _ quote => settings.QuotesString quote
  | .hex digits => ∀ char ∈ digits.toList, isHexDigit char = true
  | .bit digits => ∀ char ∈ digits.toList, isBitDigit char = true
  | .word written => IsPlainWord written
  | .quotedWord _ quote => settings.QuotesName quote
  | .keyword known =>
      needsQuoting (String.ofList text) = false ∧ Keyword.ofWord? text = some known
  | .punct _ | .endOfInput => True

/-- The text of a number is its own text. -/
theorem Numeral.text_eq {written : String} (numeral : Numeral (.number written) text next) :
    written.toList = text := by
  generalize same : TokenKind.number written = kind at numeral
  cases numeral with
  | decimal _ _ _ =>
      unfold decimalKind at same
      split at same
      · next plain =>
          obtain ⟨rfl, rfl⟩ := plain
          unfold integerToken at same
          split at same
          · cases same
          · cases same
            simp
      · cases same
        simp
  | hex _ _ _ _ => cases same
  | bit _ _ _ _ => cases same

/-- An integer is a small one. -/
theorem Numeral.small {value : Nat} (numeral : Numeral (.integer value) text next) :
    value < 9223372036854775808 := by
  generalize same : TokenKind.integer value = kind at numeral
  cases numeral with
  | decimal _ _ _ =>
      unfold decimalKind integerToken at same
      split at same
      · split at same
        · next small =>
            cases same
            exact small
        · cases same
      · cases same
  | hex _ _ _ _ => cases same
  | bit _ _ _ _ => cases same

theorem decimalKind_cases (whole fraction exponent : List Char) :
    (∃ value, decimalKind whole fraction exponent = .integer value) ∨
      ∃ written, decimalKind whole fraction exponent = .number written := by
  unfold decimalKind integerToken
  split
  · split
    · exact .inl ⟨_, rfl⟩
    · exact .inr ⟨_, rfl⟩
  · exact .inr ⟨_, rfl⟩

theorem Numeral.speltBy (numeral : Numeral kind text next) : kind.SpeltBy settings text := by
  have alone := numeral.atEnd
  cases numeral with
  | @decimal whole fraction exponent _ _ _ _ =>
      rcases decimalKind_cases whole fraction exponent with ⟨value, same⟩ | ⟨written, same⟩
      · rw [same] at alone ⊢
        exact alone.small
      · rw [same] at alone ⊢
        rw [← alone.text_eq] at alone
        exact alone
  | hex _ _ all _ =>
      rw [TokenKind.SpeltBy, String.toList_ofList]
      exact all
  | bit _ _ all _ =>
      rw [TokenKind.SpeltBy, String.toList_ofList]
      exact all

theorem Spelled.speltBy (spelled : Spelled settings kind text next) :
    kind.SpeltBy settings text := by
  cases spelled with
  | string opens _ _ =>
      cases opens with
      | single => exact Or.inl rfl
      | double plain => exact Or.inr ⟨rfl, plain⟩
      | national _ => exact Or.inl rfl
  | quotedWord quotes _ _ => exact quotes
  | hexString _ all _ =>
      rw [TokenKind.SpeltBy, String.toList_ofList]
      exact all
  | bitString _ all =>
      rw [TokenKind.SpeltBy, String.toList_ofList]
      exact all
  | number numeral => exact numeral.speltBy
  | @word first others _ starts all _ _ =>
      have plain : needsQuoting (String.ofList (first :: others)) = false :=
        needsQuoting_eq_false_iff.mpr ⟨first, others, String.toList_ofList, starts, all⟩
      unfold wordKind
      split
      · next keyword known => exact ⟨plain, known⟩
      · next unknown => exact ⟨plain, by rwa [String.toList_ofList]⟩
  | mark _ _ => trivial

/-! ### Spots -/

/-- A token is written in a source. -/
def Token.Spelt (settings : Settings) (source : List Char) (token : Token) : Prop :=
  ∃ text, token.span.slice? source = some text ∧ token.kind.SpeltBy settings text

/-- The tokens ahead are written in the source. -/
structure Spot.Spelt (settings : Settings) (spot : Spot) : Prop where
  same : spot.settings = settings
  tokens : ∀ token ∈ spot.ahead, token.Spelt settings spot.source

namespace Spot.Spelt

variable {spot later : Spot}

theorem of_leads (spelt : spot.Spelt settings) (leads : spot.Leads later) :
    later.Spelt settings where
  same := leads.settings.trans spelt.same
  tokens token member := by
    rw [leads.source]
    exact spelt.tokens token (leads.ahead.subset member)

/-- The next token carries a value that some text gives. -/
theorem token (spelt : spot.Spelt settings) (ahead : Nat) :
    ∃ text, (spot.token ahead).kind.SpeltBy settings text := by
  unfold Spot.token
  cases found : spot.ahead[ahead]? with
  | none =>
      refine ⟨[], ?_⟩
      rw [Option.getD_none, spot.ended]
      trivial
  | some token =>
      obtain ⟨text, _, spelt⟩ := spelt.tokens token (List.mem_of_getElem? found)
      exact ⟨text, spelt⟩

end Spot.Spelt

/-- The next token is written in the source, unless it is the end of input. -/
theorem Spot.Spelt.written {spot : Spot} (spelt : spot.Spelt settings)
    (inner : spot.kind ≠ .endOfInput) : (spot.token 0).Spelt settings spot.source :=
  spelt.tokens _ (spot.ahead_of_inner inner ▸ List.mem_cons_self)

/-- A written token that is read as a name gives it the words of a name. -/
theorem Token.Spelt.named {source : List Char} {token : Token} {anyKeyword : Bool} {ident : Ident}
    (spelt : token.Spelt settings source)
    (read : identOfToken? source anyKeyword token = some ident) :
    (ident.Named settings fun keyword => anyKeyword || keyword.isNonreserved) ∧
      ∀ keyword, token.kind = .keyword keyword →
        ident.quote = none ∧ Keyword.ofWord? ident.value.toList = some keyword := by
  obtain ⟨text, slice, given⟩ := spelt
  unfold identOfToken? at read
  split at read
  · next word kind =>
      cases read
      rw [kind] at given ⊢
      exact ⟨⟨given.1, by simp [given.2]⟩, by simp⟩
  · next value quote kind =>
      cases read
      rw [kind] at given ⊢
      exact ⟨given, by simp⟩
  · next keyword kind =>
      split at read
      · next accepted =>
          cases read
          rw [kind] at given ⊢
          obtain ⟨plain, known⟩ := given
          have value : ((token.span.slice? source).map String.ofList).getD keyword.spelling =
              String.ofList text := by
            rw [slice]
            rfl
          have spells : Keyword.ofWord? (String.ofList text).toList = some keyword := by
            rwa [String.toList_ofList]
          rw [value]
          refine ⟨⟨plain, fun other found => ?_⟩, fun other same => ⟨rfl, ?_⟩⟩
          · rw [spells] at found
            cases found
            exact accepted
          · cases same
            exact spells
      · cases read
  · cases read

/-- The tokens of a source are written in it. -/
theorem spelt_ofSource {source : String} (unfailed : (TokenRun.ofSource source settings).error = none) :
    (Spot.ofSource source settings).Spelt settings where
  same := rfl
  tokens token member := by
    have inner := (Spot.ofSource source settings).inner token member
    obtain ⟨_, text, _, next, _, slice, spelled⟩ :=
      spelled_of_tokenize (tokenize_of_ahead unfailed) (List.mem_append_left _ member) inner
    exact ⟨text, slice, spelled.speltBy⟩

end SqlDml

/-! ## What is read from them -/

namespace SqlDml

namespace Rule

variable {α β σ : Type} {settings : Settings} {holds : α → Prop} {after : β → Prop} {spot : Spot}

/-- Where the tokens ahead are written in the source, every value that a rule reads has a property. -/
def Gives (settings : Settings) (rule : Rule α) (holds : α → Prop) : Prop :=
  ∀ spot : Spot, spot.Spelt settings → rule.Ensures spot fun value _ => holds value

/-- The tokens behind what a rule reads are written in the source as well. -/
theorem Ensures.spelt {rule : Rule α} [rule.Lawful] (spelt : spot.Spelt settings)
    (ensures : rule.Ensures spot fun value _ => holds value) :
    rule.Ensures spot fun value later => holds value ∧ later.Spelt settings :=
  .of_on fun _ _ outcome => ⟨ensures.on outcome, spelt.of_leads (leads_of_on outcome)⟩

namespace Gives

theorem pure {value : α} (known : holds value) : (Pure.pure value : Rule α).Gives settings holds :=
  fun _ _ => .pure known

theorem fail {expected : List String} : (Rule.fail expected : Rule α).Gives settings holds :=
  fun _ _ => .fail

theorem tooDeep : (Rule.tooDeep : Rule α).Gives settings holds := fun _ _ => .tooDeep

theorem bind {rule : Rule α} {next : α → Rule β} [rule.Lawful]
    (first : rule.Gives settings holds)
    (rest : ∀ value, holds value → (next value).Gives settings after) :
    (rule >>= next).Gives settings after :=
  fun spot spelt => ((first spot spelt).spelt spelt).bind fun value later known =>
    rest value known.1 later known.2

/-- Going on behind a rule of whose value nothing needs to be known. -/
theorem skip {rule : Rule α} {next : α → Rule β} [rule.Lawful]
    (rest : ∀ value, (next value).Gives settings after) : (rule >>= next).Gives settings after :=
  have anything : rule.Gives settings fun _ => True := fun _ _ => .of_on fun _ _ _ => trivial
  anything.bind fun value _ => rest value

theorem mono {rule : Rule α} {weaker : α → Prop} (gives : rule.Gives settings holds)
    (weakens : ∀ value, holds value → weaker value) : rule.Gives settings weaker :=
  fun spot spelt => (gives spot spelt).mono fun value _ known => weakens value known

theorem map {rule : Rule α} {change : α → β} (first : rule.Gives settings holds)
    (known : ∀ value, holds value → after (change value)) :
    (change <$> rule).Gives settings after :=
  fun spot spelt => (first spot spelt).map fun value _ read => known value read

theorem enter {rule : Rule α} [rule.Lawful] (gives : rule.Gives settings holds) :
    (Rule.enter rule).Gives settings holds :=
  fun spot spelt => .enter (gives spot spelt)

theorem ite {condition : Prop} [Decidable condition] {left right : Rule α}
    (known : condition → left.Gives settings holds)
    (missing : ¬condition → right.Gives settings holds) :
    (if condition then left else right).Gives settings holds :=
  fun spot spelt => .ite (fun found => known found spot spelt) fun absent =>
    missing absent spot spelt

theorem attempt {rule : Rule α} {next : Option α → Rule β} [rule.Lawful]
    (tried : rule.Gives settings holds)
    (found : ∀ value, holds value → (next (some value)).Gives settings after)
    (missing : (next none).Gives settings after) :
    (Rule.attempt rule >>= next).Gives settings after :=
  fun spot spelt => .attempt ((tried spot spelt).spelt spelt)
    (fun value later known => found value known.1 later known.2) (missing spot spelt)

/-- What every step of a repetition keeps holds of what all of it gives. -/
theorem whileSome {step : σ → Rule (Option σ)} [∀ value, (step value).Lawful]
    [∀ value, (step value).Shortens] {holds : σ → Prop} {first : σ} (start : holds first)
    (steps : ∀ value, holds value →
      (step value).Gives settings fun found => ∀ next ∈ found, holds next) :
    (Rule.whileSome step first).Gives settings holds := by
  intro spot spelt
  have kept : (Rule.whileSome step first).Ensures spot fun value later =>
      holds value ∧ later.Spelt settings := by
    refine .whileSome ⟨start, spelt⟩ fun value spot known => ?_
    apply (Ensures.spelt known.2 (steps value known.1 spot known.2)).mono
    rintro (_ | next) later ⟨kept, behind⟩
    · exact ⟨known.1, behind⟩
    · exact ⟨kept next rfl, behind⟩
  exact kept.mono fun value _ known => known.1

/-- A list with commas has items, each of which is read by the rule of the items. -/
theorem commaSeparated {item : Rule α} [item.Lawful] (each : item.Gives settings holds) :
    (Rule.commaSeparated item).Gives settings fun items =>
      items ≠ [] ∧ ∀ value ∈ items, holds value := by
  have steps : ∀ items : List α, (items ≠ [] ∧ ∀ value ∈ items, holds value) →
      (nextItem item items).Gives settings fun found =>
        ∀ more ∈ found, more ≠ [] ∧ ∀ value ∈ more, holds value := by
    intro items known
    refine skip fun comma => ite (fun _ => each.bind fun value read => pure ?_) fun _ => pure ?_
    · simpa using ⟨read, known.2⟩
    · simp
  rw [commaSeparated_eq]
  refine each.bind fun first read => bind (whileSome (by simpa using read) steps) ?_
  exact fun items known => pure (by simpa using known)

/-! ### Tokens and names -/

/-- Going on with the kind of a token, which some text gives. -/
theorem peekAhead {next : TokenKind → Rule β} (ahead : Nat)
    (rest : ∀ kind text, kind.SpeltBy settings text → (next kind).Gives settings after) :
    (Rule.peekAhead ahead >>= next).Gives settings after := by
  intro spot spelt
  obtain ⟨text, given⟩ := spelt.token ahead
  exact .step (on_peekAhead spot ahead) (rest _ text given spot spelt)

theorem peek {next : TokenKind → Rule β}
    (rest : ∀ kind text, kind.SpeltBy settings text → (next kind).Gives settings after) :
    (Rule.peek >>= next).Gives settings after :=
  peekAhead 0 rest

/-- Going on with the next token, the kind of which some text gives. -/
theorem peekToken {next : Token → Rule β}
    (rest : ∀ token text, token.kind.SpeltBy settings text → (next token).Gives settings after) :
    (Rule.peekToken 0 >>= next).Gives settings after := by
  intro spot spelt
  obtain ⟨text, given⟩ := spelt.token 0
  exact .step (on_peekToken 0 spot) (rest _ text given spot spelt)

/-- Going on behind a name, which a token that may stand for one gives. -/
theorem name (anyKeyword : Bool) : (Rule.name anyKeyword).Gives settings fun ident =>
    ident.Named settings fun keyword => anyKeyword || keyword.isNonreserved := by
  intro spot spelt
  refine .of_on fun ident later outcome => ?_
  rw [on_name] at outcome
  split at outcome
  · next found read =>
      cases outcome
      have inner : spot.kind ≠ .endOfInput := fun ended => by
        rw [identOfToken?, show (spot.token 0).kind = .endOfInput from ended] at read
        cases read
      exact ((spelt.written inner).named read).1
  · cases outcome

theorem identifier : Rule.identifier.Gives settings fun ident => ident.Plain settings := name false

theorem identifierAfterDot : Rule.identifierAfterDot.Gives settings fun ident =>
    ident.Dotted settings := name true

end Gives

end Rule

/-- Rules for one nesting level deeper that read trees of written words.  A subquery begins with a
parenthesis, and in front of a closing one it could be read as a query as well. -/
structure InnerRules.Spelt (settings : Settings) (inner : InnerRules) : Prop where
  lawful : inner.Lawful
  operand : ∀ power, (inner.operand power).Gives settings fun tree =>
    (Node.expr tree).WellSpelt settings
  query : inner.query.Gives settings fun tree => (Node.query tree).WellSpelt settings
  tableInParens : inner.tableInParens.Gives settings fun tree =>
    (Node.ref tree).WellSpelt settings
  subquery : ∀ spot later tree, inner.expr.on spot = .done tree later → tree.isSubquery = true →
    spot.kind = .punct .leftParen ∧ (later.kind = .punct .rightParen →
      ∃ query, inner.query.on spot = .done query later)

end SqlDml
