import SqlDml.Proofs.Canonical.ReadBack
import SqlDml.Proofs.Reading.Kept
import SqlDml.Proofs.Spelt.Places

/-!
Contract: which identifiers of a source are read back from their canonical text.

Owns:
- what the rule for each place of an identifier reads from one token;
- that the text of an identifier is no longer than the text of its token;
- that a string with an escape for itself is written without one, and is read as another string;
- the identifiers that are read back, under the settings of their source and at their places.

Does not own: the text of anything around an identifier.
-/

namespace SqlDml

open Rule

variable {settings : Settings} {ident : Ident} {place : NamePlace}

/-! ### One token -/

/-- Reads a token as an identifier where a string may stand for one. -/
def labelOfToken? (source : List Char) (anyKeyword : Bool) (token : Token) : Option Ident :=
  match token.kind with
  | .string value quote => some ⟨value, some quote, token.span⟩
  | _ => identOfToken? source anyKeyword token

/-- The identifier that a token is read as at a place, where nothing is in front of it. -/
def NamePlace.read? (source : List Char) (token : Token) : NamePlace → Option Ident
  | .name => identOfToken? source false token
  | .behindDot | .call => identOfToken? source true token
  | .label => labelOfToken? source false token
  | .collation => labelOfToken? source true token

theorem labelOfToken?_of_string {source : List Char} {anyKeyword : Bool} {token : Token}
    {value : String} {quote : Char} (kind : token.kind = .string value quote) :
    labelOfToken? source anyKeyword token = some ⟨value, some quote, token.span⟩ := by
  rw [labelOfToken?, kind]

theorem labelOfToken?_other {source : List Char} {anyKeyword : Bool} {token : Token}
    (other : ∀ value quote, token.kind ≠ .string value quote) :
    labelOfToken? source anyKeyword token = identOfToken? source anyKeyword token := by
  unfold labelOfToken?
  split
  · next kind => exact absurd kind (other _ _)
  · rfl

/-- A token that is no name is read as none. -/
theorem identOfToken?_eq_none {source : List Char} {token : Token}
    (unnamed : token.kind.isName = false) : identOfToken? source false token = none := by
  unfold identOfToken?
  split
  · next kind => simp [kind, TokenKind.isName] at unnamed
  · next kind => simp [kind, TokenKind.isName] at unnamed
  · next kind =>
      rw [if_neg]
      simpa [kind, TokenKind.isName] using unnamed
  · rfl

namespace Rule

variable {spot later : Spot}

theorem on_name_eq_done {anyKeyword : Bool} : (name anyKeyword).on spot = .done ident later ↔
    identOfToken? spot.source anyKeyword (spot.token 0) = some ident ∧ later = spot.next := by
  rw [on_name]
  cases identOfToken? spot.source anyKeyword (spot.token 0) with
  | none => simp
  | some found => simp [eq_comm]

theorem on_some_eq_done {rule : Rule Ident} [rule.Lawful] :
    (some <$> rule).on spot = .done (some ident) later ↔ rule.on spot = .done ident later := by
  rw [on_map]
  cases rule.on spot <;> simp

theorem on_collationName_eq_done : collationName.on spot = .done ident later ↔
    labelOfToken? spot.source true (spot.token 0) = some ident ∧ later = spot.next := by
  unfold collationName
  rw [on_bind_of, on_peekToken, Outcome.bind_done]
  · split
    · next kind =>
        rw [labelOfToken?_of_string kind, on_bind, on_advance, Outcome.bind_done, on_pure]
        simp [eq_comm]
    · next other =>
        rw [on_name_eq_done, labelOfToken?_other other]
  · intro token
    split <;> infer_instance

/-- What is read behind an optional `AS`. -/
def labelBehind (explicit : Bool) : Rule (Option Ident) := do
  let token ← peekToken 0
  match token.kind with
  | .string value quote =>
      let _ ← advance
      return some ⟨value, some quote, token.span⟩
  | kind =>
      if explicit || kind.isName then
        return some (← identifier)
      else
        return none

theorem aliasOrString_eq : aliasOrString = eatWord .AS >>= labelBehind := rfl

instance (explicit : Bool) : (labelBehind explicit).Lawful := by
  unfold labelBehind
  refine lawful_bind fun token => ?_
  split <;> infer_instance

theorem on_labelBehind_eq_done {explicit : Bool} :
    (labelBehind explicit).on spot = .done (some ident) later ↔
      labelOfToken? spot.source false (spot.token 0) = some ident ∧ later = spot.next := by
  unfold labelBehind
  rw [on_bind_of, on_peekToken, Outcome.bind_done]
  · split
    · next kind =>
        rw [labelOfToken?_of_string kind, on_bind, on_advance, Outcome.bind_done, on_pure]
        simp [eq_comm]
    · next other =>
        rw [labelOfToken?_other other]
        split
        · rw [← on_name_eq_done, ← map_eq_bind some, on_some_eq_done, identifier]
        · next unnamed =>
            simp only [Bool.or_eq_true, not_or, Bool.not_eq_true] at unnamed
            rw [identOfToken?_eq_none unnamed.2, on_pure]
            simp
  · intro token
    split <;> infer_instance

end Rule

/-- The last token of a source is read at a place if it may stand for an identifier there. -/
theorem NamePlace.on_rule_alone {spot later : Spot} (alone : spot.next.kind = .endOfInput) :
    place.rule.on spot = .done (some ident) later ↔
      place.read? spot.source (spot.token 0) = some ident ∧ later = spot.next := by
  cases place with
  | label =>
      rw [rule, aliasOrString_eq, on_bind, on_eatWord]
      split
      · next opens =>
          have ended : identOfToken? spot.next.source false (spot.next.token 0) = none :=
            identOfToken?_eq_none (by rw [show (spot.next.token 0).kind = _ from alone]; rfl)
          have reserved : identOfToken? spot.source false (spot.token 0) = none :=
            identOfToken?_eq_none (by rw [show (spot.token 0).kind = _ from opens]; rfl)
          have behind : ∀ value quote, (spot.next.token 0).kind ≠ .string value quote := by
            simp [show (spot.next.token 0).kind = _ from alone]
          have here : ∀ value quote, (spot.token 0).kind ≠ .string value quote := by
            simp [show (spot.token 0).kind = _ from opens]
          rw [Outcome.bind_done, on_labelBehind_eq_done, labelOfToken?_other behind, ended, read?,
            labelOfToken?_other here, reserved]
          simp
      · rw [Outcome.bind_done, on_labelBehind_eq_done]
        rfl
  | collation => exact on_some_eq_done.trans on_collationName_eq_done
  | _ => exact on_some_eq_done.trans on_name_eq_done

/-! ### Reading back -/

/-- A text is read as one token, from which the identifier is read at a place. -/
def Ident.ReadBackAt (settings : Settings) (place : NamePlace) (ident : Ident) : Prop :=
  ∃ token stop found later, tokenize ident.render settings = .ok [token, stop] ∧
    stop.kind = .endOfInput ∧
    place.rule.on (Spot.ofSource ident.render settings) = .done (some found) later ∧
    later.ahead = [] ∧ found.value = ident.value ∧ found.quote = ident.quote

/-- The place of an identifier takes it as a label. -/
theorem NamePlace.Takes.labels (taken : place.Takes settings ident) :
    ∃ accepts, ident.Labels settings accepts := by
  cases place with
  | label => exact ⟨_, taken⟩
  | collation => exact ⟨_, taken⟩
  | _ => exact ⟨_, .inl taken⟩

/-- A token that spells a name is read as that name. -/
theorem Ident.Named.exists_identOfToken? {accepts : Keyword → Bool} {anyKeyword : Bool}
    (named : ident.Named settings accepts)
    (covers : ∀ keyword, accepts keyword = true → (anyKeyword || keyword.isNonreserved) = true)
    {source : List Char} {token : Token} (sign : token.sign source = ident.sign settings) :
    ∃ found, identOfToken? source anyKeyword token = some found ∧ found.value = ident.value ∧
      found.quote = ident.quote := by
  obtain ⟨found, read, alike⟩ := identOfToken?_of_sign named covers sign
  obtain ⟨value, quote⟩ := Ident.alike_iff.mp alike
  exact ⟨found, read, value.symm, quote.symm⟩

/-- A token that spells a label is read as that label. -/
theorem Ident.Labels.exists_labelOfToken? {accepts : Keyword → Bool} {anyKeyword : Bool}
    (labels : ident.Labels settings accepts)
    (covers : ∀ keyword, accepts keyword = true → (anyKeyword || keyword.isNonreserved) = true)
    {source : List Char} {token : Token} (sign : token.sign source = ident.sign settings) :
    ∃ found, labelOfToken? source anyKeyword token = some found ∧ found.value = ident.value ∧
      found.quote = ident.quote := by
  have kind : token.kind = ident.kind settings := congrArg Sign.kind sign
  rcases labels.kind_cases with named | ⟨quote, quoted, string⟩
  · rw [labelOfToken?_other]
    · exact named.exists_identOfToken? covers sign
    · intro value quote
      rw [kind]
      rcases named.kind_cases with ⟨_, _, known⟩ | ⟨_, _, ⟨known, _⟩ | ⟨_, known, _⟩⟩ <;> simp [known]
  · exact ⟨_, labelOfToken?_of_string (kind.trans string), rfl, quoted.symm⟩

/-- A token that spells an identifier is read as that identifier at a place that takes it. -/
theorem NamePlace.Takes.exists_read? (taken : place.Takes settings ident) {source : List Char}
    {token : Token} (sign : token.sign source = ident.sign settings) :
    ∃ found, place.read? source token = some found ∧ found.value = ident.value ∧
      found.quote = ident.quote := by
  cases place with
  | name => exact @Ident.Named.exists_identOfToken? _ _ _ false taken (fun _ known => known) _ _ sign
  | behindDot => exact Ident.Named.exists_identOfToken? taken (fun _ _ => rfl) sign
  | call => exact Ident.Named.exists_identOfToken? taken (fun _ _ => rfl) sign
  | label =>
      exact @Ident.Labels.exists_labelOfToken? _ _ _ false taken (fun _ known => known) _ _ sign
  | collation => exact Ident.Labels.exists_labelOfToken? taken (fun _ _ => rfl) sign

/-- A text that spells an identifier is read back. -/
theorem NamePlace.Takes.readBackAt (taken : place.Takes settings ident)
    (regular : ident.Regular settings)
    (fits : Text.byteCount ident.render.toList ≤ maxSourceLength) :
    ident.ReadBackAt settings place := by
  obtain ⟨accepts, labels⟩ := taken.labels
  have lexed : Piece.Lexed settings false [.ident ident] := .ident labels regular rfl .nil
  have chars : Piece.chars [.ident ident] = ident.render.toList := List.append_nil _
  unfold Piece.Lexed at lexed
  rw [chars] at lexed
  obtain ⟨unfailed, signs⟩ := lexed.signs_ofSource fits
  rw [String.ofList_toList] at unfailed signs
  have front : (Spot.ofSource ident.render settings).signs = [ident.sign settings] := signs
  obtain ⟨token, ahead⟩ : ∃ token, (Spot.ofSource ident.render settings).ahead = [token] := by
    have length := congrArg List.length front
    rw [Spot.signs, List.length_map] at length
    exact List.length_eq_one_iff.mp length
  have last : (Spot.ofSource ident.render settings).next.ahead = [] := by
    rw [Spot.next_ahead, ahead, List.tail_cons]
  obtain ⟨found, read, value, quote⟩ := taken.exists_read? (Spot.sign_of_signs front)
  refine ⟨token, _, found, _, ahead ▸ tokenize_of_ahead unfailed,
    (TokenStream.sound_ofSource _ _).stop_kind, ?_, last, value, quote⟩
  exact (NamePlace.on_rule_alone (Spot.kind_of_ahead_nil last)).mpr ⟨read, rfl⟩

/-! ### The lengths of texts -/

theorem Settings.QuotesString.utf8Size {quote : Char} (mark : settings.QuotesString quote) :
    quote.utf8Size = 1 := by
  rcases mark with rfl | ⟨rfl, _⟩ <;> decide

theorem Settings.OpensString.quotes {opening : List Char} {quote : Char}
    (opens : settings.OpensString opening quote) : settings.QuotesString quote := by
  cases opens with
  | single => exact .inl rfl
  | double plain => exact .inr ⟨rfl, plain⟩
  | national _ => exact .inl rfl

/-- What an escape stands for is written in no more bytes than the escape. -/
theorem byteCount_unescape_le {quote : Char} (mark : settings.QuotesString quote) (char : Char) :
    Text.byteCount ((unescape char).flatMap (doubleQuote quote)) ≤
      Text.byteCount ['\\', char] := by
  have one : ∀ other : Char, Text.byteCount (doubleQuote quote other) ≤ 1 + other.utf8Size := by
    intro other
    unfold doubleQuote
    split
    · next same => simp [same, mark.utf8Size]
    · simp
  unfold unescape
  split
  case h_9 => simpa [show '\\'.utf8Size = 1 by decide] using one char
  all_goals
    rcases mark with rfl | ⟨rfl, _⟩ <;> decide

/-- Between quotes a value is written in no more bytes than it was read from. -/
theorem QuotedText.byteCount_le {quote : Char} {escapes : Bool} {value taken : List Char}
    (mark : settings.QuotesString quote) (body : QuotedText quote escapes value taken) :
    Text.byteCount (value.flatMap (doubleQuote quote) ++ [quote]) ≤ Text.byteCount taken := by
  induction body with
  | closed => simp
  | plain other _ _ inductionHypothesis =>
      rw [List.flatMap_cons, doubleQuote, if_neg other, List.append_assoc]
      simpa using inductionHypothesis
  | doubled _ inductionHypothesis =>
      rw [List.flatMap_cons, doubleQuote, if_pos rfl, List.append_assoc]
      simpa using inductionHypothesis
  | @escaped char value taken _ _ _ inductionHypothesis =>
      have first := byteCount_unescape_le mark char
      have whole : '\\' :: char :: taken = ['\\', char] ++ taken := rfl
      rw [List.flatMap_append, List.append_assoc, Text.byteCount_append, whole,
        Text.byteCount_append ['\\', char]]
      omega

/-- An identifier is written in no more bytes than it was read from. -/
theorem Spelled.byteCount_render_le {chars text : List Char} {token : Token} {next : Option Char}
    (spelled : Spelled settings token.kind text next)
    (slice : token.span.slice? chars = some text)
    (parts : token.nameParts? chars = some (ident.value, ident.quote)) :
    Text.byteCount ident.render.toList ≤ Text.byteCount text := by
  cases named : token.kind.isNameAfterDot with
  | true => rw [spelled.toList_render slice named parts]
  | false =>
      unfold Token.nameParts? at parts
      split at parts
      · next kind => simp [kind, TokenKind.isNameAfterDot] at named
      · next kind => simp [kind, TokenKind.isNameAfterDot] at named
      · next value quote kind =>
          obtain ⟨same, quoted⟩ := Prod.mk.inj (Option.some.inj parts)
          obtain ⟨opening, taken, rfl, opens, body⟩ := (kind ▸ spelled).string_cases
          have inside := body.byteCount_le opens.quotes
          have opened := Text.byteCount_pos (List.ne_nil_of_length_pos opens.length_pos)
          rw [Ident.render, ← quoted, ← same]
          simp only [toList_quoteName, Text.byteCount_cons, Text.byteCount_append, opens.quotes.utf8Size]
            at inside ⊢
          omega
      · next kind => simp [kind, TokenKind.isNameAfterDot] at named
      · cases parts

/-! ### Strings with escapes -/

/-- The length of a text, in halves, where a quote counts half. -/
def quoteWeight (quote : Char) (chars : List Char) : Nat :=
  (chars.map fun char => if char = quote then 1 else 2).sum

section

variable {quote : Char}

@[simp] theorem quoteWeight_nil : quoteWeight quote [] = 0 := rfl

@[simp] theorem quoteWeight_cons (char : Char) (chars : List Char) :
    quoteWeight quote (char :: chars) =
      (if char = quote then 1 else 2) + quoteWeight quote chars := by
  simp [quoteWeight]

@[simp] theorem quoteWeight_append (left right : List Char) :
    quoteWeight quote (left ++ right) = quoteWeight quote left + quoteWeight quote right := by
  simp [quoteWeight]

theorem length_le_quoteWeight (chars : List Char) : chars.length ≤ quoteWeight quote chars := by
  induction chars with
  | nil => rfl
  | cons char chars inductionHypothesis =>
      rw [quoteWeight_cons, List.length_cons]
      split <;> omega

/-- With its quotes doubled a value weighs what it is long. -/
theorem quoteWeight_doubled (value : List Char) :
    quoteWeight quote (value.flatMap (doubleQuote quote)) = 2 * value.length := by
  induction value with
  | nil => rfl
  | cons char value inductionHypothesis =>
      rw [List.flatMap_cons, quoteWeight_append, inductionHypothesis, List.length_cons, doubleQuote]
      split
      · simp
        omega
      · next other =>
          simp [other]
          omega

theorem keepsBackslashes_cons {char : Char} {chars : List Char} (other : char ≠ '\\') :
    keepsBackslashes (char :: chars) = keepsBackslashes chars := by
  rw [keepsBackslashes]
  · simp [other]
  · exact fun _ same => absurd same other
  · exact fun _ same => absurd same other

/-- An escape that stands for one character is longer than that character. -/
theorem unescape_cases (char : Char) :
    char = '%' ∨ char = '_' ∨ (unescape char).length = 1 := by
  unfold unescape
  split <;> simp

/-- A text between quotes weighs more than its value, by more than the closing quote where an escape
does not stand for itself. -/
theorem QuotedText.weight {value taken : List Char} (mark : settings.QuotesString quote)
    (body : QuotedText quote true value taken) :
    2 * value.length + 1 ≤ quoteWeight quote taken ∧
      (quoteWeight quote taken ≤ 2 * value.length + 1 → keepsBackslashes value = true) := by
  have apart : '\\' ≠ quote ∧ '%' ≠ quote ∧ '_' ≠ quote := by
    rcases mark with rfl | ⟨rfl, _⟩ <;> decide
  obtain ⟨noBackslash, noPercent, noLine⟩ := apart
  induction body with
  | closed => exact ⟨by simp, fun _ => rfl⟩
  | plain other unescaped _ inductionHypothesis =>
      rw [keepsBackslashes_cons (unescaped rfl), List.length_cons, quoteWeight_cons, if_neg other]
      refine ⟨?_, fun light => inductionHypothesis.2 ?_⟩ <;> omega
  | doubled _ inductionHypothesis =>
      rw [keepsBackslashes_cons noBackslash.symm, List.length_cons, quoteWeight_cons,
        quoteWeight_cons, if_pos rfl]
      refine ⟨?_, fun light => inductionHypothesis.2 ?_⟩ <;> omega
  | @escaped char value taken _ _ _ inductionHypothesis =>
      rw [quoteWeight_cons, quoteWeight_cons, if_neg noBackslash, List.length_append]
      rcases unescape_cases char with rfl | rfl | single
      · rw [if_neg noPercent, show unescape '%' = ['\\', '%'] from rfl]
        refine ⟨?_, fun light => inductionHypothesis.2 ?_⟩ <;> simp at * <;> omega
      · rw [if_neg noLine, show unescape '_' = ['\\', '_'] from rfl]
        refine ⟨?_, fun light => inductionHypothesis.2 ?_⟩ <;> simp at * <;> omega
      · rw [single]
        constructor
        · split <;> omega
        · intro light
          split at light <;> omega

end

/-- A token that is read as an identifier in quotes is a name or a string with that value. -/
theorem NamePlace.kind_of_read? {source : List Char} {token : Token} {quote : Char}
    (read : place.read? source token = some ident) (quoted : ident.quote = some quote) :
    token.kind = .quotedWord ident.value quote ∨ token.kind = .string ident.value quote := by
  have named : ∀ anyKeyword, identOfToken? source anyKeyword token = some ident →
      token.kind = .quotedWord ident.value quote := by
    intro anyKeyword read
    unfold identOfToken? at read
    split at read
    · cases read
      cases quoted
    · next kind =>
        cases read
        cases quoted
        exact kind
    · split at read
      · cases read
        cases quoted
      · cases read
    · cases read
  have labelled : ∀ anyKeyword, labelOfToken? source anyKeyword token = some ident →
      token.kind = .quotedWord ident.value quote ∨ token.kind = .string ident.value quote := by
    intro anyKeyword read
    unfold labelOfToken? at read
    split at read
    · next kind =>
        cases read
        cases quoted
        exact .inr kind
    · exact .inl (named _ read)
  cases place with
  | label => exact labelled _ read
  | collation => exact labelled _ read
  | _ => exact .inl (named _ read)

/-- No quote surrounds both names and strings. -/
theorem Settings.QuotesString.not_quotesName {quote : Char} (mark : settings.QuotesString quote) :
    ¬ settings.QuotesName quote := by
  rcases mark with rfl | ⟨rfl, plain⟩
  · rintro (same | ⟨same, _⟩) <;> cases same
  · rintro (same | ⟨_, ansi⟩)
    · cases same
    · rw [plain] at ansi
      cases ansi

/-- A string in which a text with its quotes doubled is read weighs no more than that text, so no
escape in it stands for less than itself. -/
theorem keepsBackslashes_of_spelled {value : String} {quote : Char} {before text after : List Char}
    {next : Option Char} (mark : settings.QuotesString quote)
    (escapes : settings.noBackslashEscapes = false)
    (spelled : Spelled settings (.string value quote) text next)
    (inside : (quoteName quote value).toList = before ++ (text ++ after)) :
    keepsBackslashes value.toList = true := by
  obtain ⟨opening, taken, rfl, opens, body⟩ := spelled.string_cases
  rw [escapes] at body
  obtain ⟨_, light⟩ := body.weight mark
  refine light ?_
  have whole := congrArg (quoteWeight quote) inside
  have opened := @length_le_quoteWeight quote opening
  have positive := opens.length_pos
  rw [toList_quoteName] at whole
  simp only [quoteWeight_cons, quoteWeight_append, quoteWeight_doubled, quoteWeight_nil, if_true]
    at whole
  omega

/-- A string that is read back has no escape in its text. -/
theorem Ident.ReadBackAt.regular (back : ident.ReadBackAt settings place) :
    ident.Regular settings := by
  rintro escapes ⟨quote, quoted, mark⟩
  obtain ⟨token, stop, found, later, tokens, _, outcome, _, value, sameQuote⟩ := back
  have ahead : (Spot.ofSource ident.render settings).ahead = [token] :=
    (@ahead_of_tokenize _ _ [token] _ tokens).1
  have first : (Spot.ofSource ident.render settings).token 0 = token := by
    simp [Spot.token, ahead]
  have last : (Spot.ofSource ident.render settings).next.ahead = [] := by
    rw [Spot.next_ahead, ahead, List.tail_cons]
  obtain ⟨read, _⟩ := (NamePlace.on_rule_alone (Spot.kind_of_ahead_nil last)).mp outcome
  have kinds := NamePlace.kind_of_read? read (sameQuote.trans quoted)
  rw [first, value] at kinds
  have inner : token.kind ≠ .endOfInput := by
    rcases kinds with kind | kind <;> simp [kind]
  obtain ⟨before, text, after, next, whole, _, spelled⟩ :=
    spelled_of_tokenize tokens List.mem_cons_self inner
  have written : ident.render = quoteName quote ident.value := by rw [Ident.render, quoted]
  rcases kinds with kind | kind
  · rw [kind, spelled_quotedWord_iff] at spelled
    exact absurd spelled.1 mark.not_quotesName
  · rw [kind] at spelled
    exact keepsBackslashes_of_spelled mark escapes spelled (written ▸ whole)

/-! ### Identifiers of a source -/

/-- The text of an identifier of a source is no longer than the source. -/
theorem Node.OfSource.byteCount_render_le {source : String} {node : Node}
    (read : node.OfSource source settings) (member : (place, ident) ∈ node.names) :
    Text.byteCount ident.render.toList ≤ maxSourceLength := by
  obtain ⟨visits, tokens, stop, tokenized, kept, inVisits⟩ : ∃ visits tokens stop,
      tokenize source settings = .ok (tokens ++ [stop]) ∧ Kept source.toList visits tokens ∧
        .ident ident ∈ visits := by
    cases read with
    | statement accepted within =>
        obtain ⟨tokens, stop, tokenized, _, kept⟩ := (leaves_keep_tokens source settings).1 _ accepted
        exact ⟨_, tokens, stop, tokenized, kept,
          (Node.statement _).ident_mem_visits_iff.mpr ⟨node, within, place, member⟩⟩
    | expression accepted within =>
        obtain ⟨tokens, stop, tokenized, _, kept⟩ := (leaves_keep_tokens source settings).2 _ accepted
        exact ⟨_, tokens, stop, tokenized, kept,
          (Node.expr _).ident_mem_visits_iff.mpr ⟨node, within, place, member⟩⟩
  obtain ⟨token, ⟨among, _, parts⟩, _⟩ := kept.names ident inVisits
  have inner : token.kind ≠ .endOfInput := by
    intro ended
    rw [Token.nameParts?, ended] at parts
    cases parts
  obtain ⟨before, text, after, next, whole, slice, spelled⟩ :=
    spelled_of_tokenize tokenized (List.mem_append_left _ among) inner
  have written := spelled.byteCount_render_le slice parts
  have fits := (tokenize_eq_ok_iff.mp tokenized).1
  rw [Text.utf8ByteSize_eq_byteCount, whole, Text.byteCount_append, Text.byteCount_append] at fits
  omega

/-- An identifier of a source is read back from its canonical text, under the settings of the source
and at the place where it stands, if and only if it is regular: unless it is a string between quotes,
in a mode with escapes, that has a backslash which would escape something. -/
theorem identifier_read_back_iff {source : String} {node : Node}
    (read : node.OfSource source settings) (member : (place, ident) ∈ node.names) :
    ident.ReadBackAt settings place ↔ ident.Regular settings :=
  ⟨Ident.ReadBackAt.regular, fun regular =>
    (read.spelt.takes member).readBackAt regular (read.byteCount_render_le member)⟩

/-- An alias with a backslash is written without an escape for it, and is not read back. -/
theorem backslash_alias_not_read_back :
    ∃ (parsed : ParsedStatement) (node : Node) (place : NamePlace) (ident : Ident),
      parseStatement "SELECT 1 AS 'a\\\\b'" {} = .ok parsed ∧
        node.Within (.statement parsed.statement) ∧ (place, ident) ∈ node.names ∧
        ident.value = "a\\b" ∧ ident.render = "'a\\b'" ∧ ¬ ident.ReadBackAt {} place := by
  obtain ⟨parsed, accepted, found⟩ := @exists_parsed "SELECT 1 AS 'a\\\\b'" {}
    (fun parsed => (parsed.statement.visits.filterMap Visit.ident?).map
      (fun ident => (ident.value, ident.quote)) = [("a\\b", some '\'')]) _ _ rfl (by decide +kernel)
  obtain ⟨ident, rest, idents, parts, _⟩ := List.map_eq_cons_iff.mp found
  have inVisits : .ident ident ∈ (Node.statement parsed.statement).visits := by
    have member : ident ∈ parsed.statement.visits.filterMap Visit.ident? := by
      rw [idents]
      exact List.mem_cons_self
    obtain ⟨visit, inside, same⟩ := List.mem_filterMap.mp member
    cases visit with
    | ident other =>
        cases same
        exact inside
    | _ => cases same
  obtain ⟨node, within, place, member⟩ := Node.ident_mem_visits_iff.mp inVisits
  obtain ⟨value, quote⟩ := Prod.mk.inj parts
  have text : ident.render = "'a\\b'" := by
    rw [Ident.render, quote, value]
    decide
  refine ⟨parsed, node, place, ident, accepted, within, member, value, text, fun back => ?_⟩
  have regular := (identifier_read_back_iff (.statement accepted within) member).mp back
  have kept := regular rfl ⟨'\'', quote, .inl rfl⟩
  rw [value] at kept
  exact absurd kept (by decide)

end SqlDml
