import SqlDml.Proofs.Rules.Language
import SqlDml.Proofs.Text.Bytes

/-!
Contract: parsing a whole source, by the outcome of a rule at its beginning.

Owns:
- the spot at the beginning of a source;
- a rule that is followed by the end of the source, and the failure that is reported instead;
- when a source has a tree, for statements and for expressions;
- what is known of a result that was computed;
- reading tokens on demand agrees with reading all of them first: the tokens of a parse are all
  tokens of its source, and where it can fail before a lexical failure;
- the tokens of a source lie in its text one behind the other, the end of input left out.

Does not own: what the rules come to.
-/

namespace SqlDml

namespace TokenStream

/-- Once the end of input is read everything is. -/
theorem buffer_eq_whole_of_read {stream : TokenStream} (sound : stream.Sound) {index : Nat}
    {token : Token} (below : index < stream.buffer.size)
    (found : stream.whole[index]? = some token) (ended : token.kind = .endOfInput) :
    stream.buffer.toList = stream.whole ∧ stream.isExhausted = true := by
  have last : stream.whole.length ≤ index + 1 := by
    by_contra inner
    exact sound.kind_of_not_last found (by omega) ended
  have all : stream.buffer.toList = stream.whole := by
    rw [← take_whole, List.take_of_length_le (by omega)]
  obtain ⟨inner, stop, split, _, stopEnded⟩ := sound.closed
  have back : stream.buffer.back? = some stop := by
    rw [← Array.getLast?_toList, all, split, List.getLast?_concat]
  exact ⟨all, by simp [isExhausted, back, stopEnded]⟩

/-- Where the end of input is next, it was read by looking at it. -/
theorem isExhausted_of_peek {stream : TokenStream} (sound : stream.Sound)
    (ended : (stream.peek 0).1.kind = .endOfInput) : (stream.peek 0).2.isExhausted = true := by
  obtain ⟨seen, laterSound, leads, _, inBuffer⟩ := peek_spec sound 0
  have found := sound.getElem?_whole 0
  have token : (stream.ahead ++ [stream.stop])[0]? = some (stream.peek 0).1 := by
    rw [seen]
    cases stream.ahead <;> rfl
  rw [token, ← leads.whole] at found
  exact (buffer_eq_whole_of_read laterSound (inBuffer sound.inside) found ended).2

theorem Sound.takeLexError {stream : TokenStream} (sound : stream.Sound) :
    stream.takeLexError.2.Sound :=
  ⟨sound.lexer, fun _ => rfl, sound.closed, sound.read, sound.inside⟩

/-- A failure that is kept aside is the one that ended the tokens. -/
theorem Sound.failure_of_parked {stream : TokenStream} (sound : stream.Sound) {error : LexError}
    (parked : stream.parked = some error) : stream.failure = some error := by
  cases exhausted : stream.isExhausted with
  | true => rw [failure, if_pos exhausted, parked]
  | false =>
      have unparked := sound.unparked exhausted
      rw [parked] at unparked
      cases unparked

end TokenStream

namespace Rule

variable {α : Type}

theorem nextIs_run (kind : TokenKind) (state : ParserState) :
    nextIs kind state =
      (.ok ((state.stream.peek 0).1.kind == kind), { state with stream := (state.stream.peek 0).2 }) :=
  rfl

theorem endOfSource_run (state : ParserState) :
    endOfSource state =
      if (state.stream.peek 0).1.kind = .endOfInput then
        match (state.stream.peek 0).2.parked with
        | some error =>
            (.error (.lexical error),
              { state with stream := { (state.stream.peek 0).2 with parked := none } })
        | none => (.ok (), { state with stream := { (state.stream.peek 0).2 with parked := none } })
      else
        (fail [TokenKind.endOfInput.describe] : Rule Unit)
          { state with stream := (state.stream.peek 0).2 } := by
  rw [endOfSource, bind_run, nextIs_run]
  dsimp only
  by_cases ended : (state.stream.peek 0).1.kind = .endOfInput
  · rw [if_pos ended, if_pos (by simp [ended])]
    change (match (state.stream.peek 0).2.parked with
      | some error => (throw (ParseError.lexical error) : Rule Unit)
      | none => pure ()) _ = _
    cases (state.stream.peek 0).2.parked <;> rfl
  · rw [if_neg ended, if_neg (by simp [ended])]

/-- A failure at a token that was read gives way to the lexical failure, or to a failure at another
token that was read. -/
theorem reported_cases {error : ParseError} {state : ParserState} (ready : state.Ready)
    (inner : error.isLexical = false) (met : state.Met error.position) :
    (∃ lexical, state.stream.failure = some lexical ∧
      (reported error state).1 = .lexical lexical) ∨
    (state.stream.parked = none ∧ (reported error state).1.isLexical = false ∧
      state.Met (reported error state).1.position) := by
  cases parked : state.stream.parked with
  | some lexical =>
      have failed := ready.sound.failure_of_parked parked
      exact .inl ⟨lexical, failed, by simp [reported, TokenStream.takeLexError, parked]⟩
  | none =>
      refine .inr ⟨rfl, ?_⟩
      cases error with
      | lexical lexical => cases inner
      | tooDeep limit position =>
          simpa [reported, TokenStream.takeLexError, parked] using ⟨inner, met⟩
      | unexpected last =>
          have same : (reported (.unexpected last) state).1 =
              .unexpected (remember state.furthest last) := by
            simp [reported, TokenStream.takeLexError, parked]
          rw [same]
          refine ⟨rfl, ?_⟩
          rcases remember_position state.furthest last with position | ⟨earlier, found, position⟩
          · exact (congrArg state.Met position).mpr met
          · exact (congrArg state.Met position).mpr (ready.met found)

/-- A rule, and the end of the source behind it. -/
def toEnd (rule : Rule α) : Rule α := finish do
  let tree ← rule
  endOfSource
  return tree

theorem toEnd_run (rule : Rule α) (state : ParserState) :
    toEnd rule state =
      match rule state with
      | (.ok value, later) =>
          match endOfSource later with
          | (.ok _, last) => (.ok value, last)
          | (.error error, last) =>
              (.error (reported error last).1, (reported error last).2)
      | (.error error, later) => (.error (reported error later).1, (reported error later).2) := by
  unfold toEnd finish
  dsimp only
  rw [bind_run]
  rcases rule state with ⟨outcome, later⟩
  cases outcome with
  | error error => rfl
  | ok value =>
      dsimp only
      rw [bind_run]
      rcases endOfSource later with ⟨outcome, last⟩
      cases outcome <;> rfl

/-- How reading a source to its end comes out. -/
inductive ToEnd (rule : Rule α) (state : ParserState) : Except ParseError α × ParserState → Prop
  /-- The rule reads all tokens, and no failure ended them. -/
  | ok {value : α} {spot : Spot} {later : ParserState}
      (outcome : rule.on state.spot = .done value spot) (all : spot.ahead = [])
      (unfailed : state.stream.failure = none)
      (consumed : later.stream.consumedSpans = state.stream.whole.dropLast.map Token.span) :
      ToEnd rule state (.ok value, later)
  /-- The failure that ended the tokens. -/
  | lexical {error : LexError} {later : ParserState}
      (failed : state.stream.failure = some error) :
      ToEnd rule state (.error (.lexical error), later)
  /-- A failure at a token, with no lexical failure met so far. -/
  | inner {error : ParseError} {reached later : ParserState}
      (rejected : ∀ value spot, rule.on state.spot = .done value spot → spot.ahead ≠ [])
      (leads : state.Leads reached) (inner : error.isLexical = false)
      (met : reached.Met error.position) (unparked : reached.stream.parked = none) :
      ToEnd rule state (.error error, later)

theorem toEnd_of_failure {rule : Rule α} {state reached : ParserState} {error : ParseError}
    (rejected : ∀ value spot, rule.on state.spot = .done value spot → spot.ahead ≠ [])
    (leads : state.Leads reached) (inner : error.isLexical = false)
    (met : reached.Met error.position) :
    ToEnd rule state (.error (reported error reached).1, (reported error reached).2) := by
  rcases reported_cases leads.ready inner met with
    ⟨lexical, failed, same⟩ | ⟨unparked, laterInner, laterMet⟩
  · rw [same]
    exact .lexical (leads.stream.failure ▸ failed)
  · exact .inner rejected leads laterInner laterMet unparked

theorem toEnd_spec (rule : Rule α) [rule.Lawful] (state : ParserState) (ready : state.Ready) :
    ToEnd rule state (toEnd rule state) := by
  have agrees := rule.agrees_on state ready
  rw [toEnd_run]
  cases outcome : rule.on state.spot with
  | stuck =>
      rw [outcome] at agrees
      obtain ⟨error, later, run, leads, describes⟩ := agrees
      rw [run]
      exact toEnd_of_failure (by simp [outcome]) leads rfl describes.met
  | deep =>
      rw [outcome] at agrees
      obtain ⟨limit, position, later, run, leads, met⟩ := agrees
      rw [run]
      exact toEnd_of_failure (by simp [outcome]) leads rfl met
  | done value spot =>
      rw [outcome] at agrees
      obtain ⟨later, run, leads, rfl⟩ := agrees
      rw [run]
      dsimp only
      rw [endOfSource_run]
      obtain ⟨seen, sound, peeked, cursor, inBuffer⟩ := TokenStream.peek_spec leads.ready.sound 0
      have lengths := leads.ready.sound.length_whole
      have found := leads.ready.sound.getElem?_whole 0
      cases ahead : later.stream.ahead with
      | nil =>
          rw [ahead] at seen lengths found
          have kind : (later.stream.peek 0).1.kind = .endOfInput := by
            rw [seen]
            exact leads.ready.sound.stop_kind
          rw [if_pos kind]
          have read : later.stream.cursor < (later.stream.peek 0).2.buffer.size :=
            inBuffer leads.ready.sound.inside
          rw [← peeked.whole] at found
          obtain ⟨all, exhausted⟩ := TokenStream.buffer_eq_whole_of_read sound read found
            leads.ready.sound.stop_kind
          have failure : (later.stream.peek 0).2.parked = state.stream.failure := by
            rw [← leads.stream.failure, ← peeked.failure, TokenStream.failure, if_pos exhausted]
          rw [failure]
          cases failed : state.stream.failure with
          | some error => exact .lexical failed
          | none =>
              refine .ok outcome ahead failed ?_
              simp only [List.length_nil, Nat.add_zero] at lengths
              rw [TokenStream.consumedSpans]
              simp only
              rw [all, cursor, peeked.whole, leads.stream.whole, List.dropLast_eq_take,
                ← leads.stream.whole, lengths, Nat.add_sub_cancel]
      | cons token rest =>
          rw [ahead] at seen
          have split : later.spot.ahead = token :: rest := ahead
          have kind : (later.stream.peek 0).1.kind ≠ .endOfInput := by
            rw [seen]
            exact later.spot.inner token (split ▸ List.mem_cons_self)
          rw [if_neg kind]
          have rejected : ∀ other spot, rule.on state.spot = .done other spot → spot.ahead ≠ [] := by
            intro other spot same
            rw [outcome] at same
            cases same
            rw [split]
            exact List.cons_ne_nil _ _
          have shown := leads_peek leads.ready 0
          have failed : (fail [TokenKind.endOfInput.describe] : Rule Unit).Agrees _ .stuck :=
            fail_agrees _ _ shown.ready
          obtain ⟨error, last, run, failLeads, describes⟩ := failed
          rw [run]
          exact toEnd_of_failure rejected (leads.trans (shown.trans failLeads)) rfl describes.met

/-- A statement and an optional semicolon, at the given nesting limit. -/
def statementTokens (levels : Nat) : Rule Statement := do
  let tree ← statement (innerAt levels)
  let _ ← eatMark .semicolon
  return tree

instance (levels : Nat) : (statementTokens levels).Lawful := by
  unfold statementTokens
  infer_instance

end Rule

/-- The spot at the beginning of a source. -/
def Spot.ofSource (source : String) (settings : Settings) : Spot :=
  (ParserState.ofSource source settings).spot

open Rule

variable (source : String) (settings : Settings)

theorem innerRules_run (state : ParserState) :
    innerRules state = (.ok (innerAt (state.settings.maxDepth - state.depth)), state) := rfl

theorem wholeStatement_run (state : ParserState) (fresh : state.depth = 0) :
    wholeStatement state = (statementTokens state.settings.maxDepth >>= fun tree =>
      endOfSource >>= fun _ => pure tree) state := by
  rw [wholeStatement, bind_run, innerRules_run, fresh, Nat.sub_zero, statementTokens]
  simp only [bind_assoc, pure_bind]

theorem wholeExpression_run (state : ParserState) (fresh : state.depth = 0) :
    wholeExpression state = ((innerAt state.settings.maxDepth).expr >>= fun tree =>
      endOfSource >>= fun _ => pure tree) state := by
  have opened : expression state = (innerAt state.settings.maxDepth).expr state := by
    rw [expression, bind_run, innerRules_run, fresh, Nat.sub_zero]
  rw [wholeExpression, bind_run, bind_run, opened]

theorem parseStatement_run :
    (ParserState.ofSource source settings).parseStatement =
      match toEnd (statementTokens settings.maxDepth) (ParserState.ofSource source settings) with
      | (.ok statement, state) => (.ok ⟨statement, state.stream.consumedSpans⟩, state)
      | (.error error, state) => (.error error, state) := by
  unfold ParserState.parseStatement toEnd finish
  rw [wholeStatement_run _ rfl]
  rfl

theorem parseExpression_run :
    (ParserState.ofSource source settings).parseExpression =
      toEnd (innerAt settings.maxDepth).expr (ParserState.ofSource source settings) := by
  unfold ParserState.parseExpression toEnd finish
  rw [wholeExpression_run _ rfl]
  rfl

/-- At the beginning all tokens but the end of input are ahead. -/
theorem ofSource_whole : (TokenStream.ofSource source settings).whole =
    (Spot.ofSource source settings).ahead ++ [(TokenStream.ofSource source settings).stop] :=
  (TokenStream.sound_ofSource source settings).drop_cursor

/-- A source is read to its end when the rule reads all its tokens and no lexical failure ends them.
-/
theorem toEnd_ofSource_eq_ok {α : Type} {rule : Rule α} [rule.Lawful] {value : α} :
    (toEnd rule (ParserState.ofSource source settings)).1 = .ok value ↔
      (TokenRun.ofSource source settings).error = none ∧
      ∃ later, rule.on (Spot.ofSource source settings) = .done value later ∧ later.ahead = [] := by
  have spec := toEnd_spec rule _ (ParserState.ready_ofSource source settings)
  have failure : (ParserState.ofSource source settings).stream.failure =
      (TokenRun.ofSource source settings).error := TokenStream.ofSource_failure source settings
  rw [← failure]
  generalize toEnd rule (ParserState.ofSource source settings) = result at spec
  cases spec with
  | ok outcome all unfailed consumed =>
      simp only [Except.ok.injEq]
      constructor
      · rintro rfl
        exact ⟨unfailed, _, outcome, all⟩
      · rintro ⟨_, later, same, _⟩
        exact (Outcome.done.inj (outcome.symm.trans same)).1
  | lexical failed => simp [failed]
  | inner rejected leads inner met unparked =>
      simp only [reduceCtorEq, false_iff, not_and, not_exists]
      intro _ later outcome
      exact rejected _ _ outcome

theorem parseExpression_eq_ok {expr : Expr} :
    parseExpression source settings = .ok expr ↔
      (TokenRun.ofSource source settings).error = none ∧
      ∃ later, (innerAt settings.maxDepth).expr.on (Spot.ofSource source settings) =
        .done expr later ∧ later.ahead = [] := by
  rw [parseExpression, parseExpression_run, toEnd_ofSource_eq_ok]

theorem parseStatement_eq_ok {parsed : ParsedStatement} :
    parseStatement source settings = .ok parsed ↔
      (TokenRun.ofSource source settings).error = none ∧
      (∃ later, (statementTokens settings.maxDepth).on (Spot.ofSource source settings) =
        .done parsed.statement later ∧ later.ahead = []) ∧
      parsed.tokens = (Spot.ofSource source settings).ahead.map Token.span := by
  have readAll := @toEnd_ofSource_eq_ok source settings _ (statementTokens settings.maxDepth) _
    parsed.statement
  have spec := toEnd_spec (statementTokens settings.maxDepth) _
    (ParserState.ready_ofSource source settings)
  rw [parseStatement, parseStatement_run, ← and_assoc, ← readAll]
  have whole : (ParserState.ofSource source settings).stream.whole.dropLast =
      (Spot.ofSource source settings).ahead := by
    rw [show (ParserState.ofSource source settings).stream = TokenStream.ofSource source settings
      from rfl, ofSource_whole, List.dropLast_concat]
  obtain ⟨statement, tokens⟩ := parsed
  generalize toEnd (statementTokens settings.maxDepth)
    (ParserState.ofSource source settings) = result at spec
  cases spec with
  | ok outcome all unfailed consumed =>
      rw [whole] at consumed
      simp [consumed, eq_comm]
  | lexical failed => simp
  | inner => simp

/-- A parsed statement lists the spans of all tokens. -/
theorem parseStatement_eq :
    parseStatement source settings =
      match (toEnd (statementTokens settings.maxDepth) (ParserState.ofSource source settings)).1 with
      | .ok tree => .ok ⟨tree, (Spot.ofSource source settings).ahead.map Token.span⟩
      | .error error => .error error := by
  have listed := @parseStatement_eq_ok source settings
  unfold parseStatement at listed ⊢
  rw [parseStatement_run] at listed ⊢
  generalize toEnd (statementTokens settings.maxDepth) _ = result at listed ⊢
  obtain ⟨error | tree, later⟩ := result
  · rfl
  · obtain ⟨_, _, spans⟩ := listed.mp rfl
    exact congrArg (fun tokens => Except.ok (ParsedStatement.mk tree tokens)) spans

/-! ### Computed results -/

/-- What is computed of a result holds of it. -/
theorem exists_ok {ε α : Type} {result : Except ε α} {holds : α → Prop} [DecidablePred holds]
    (computed : result.toOption.any (fun value => holds value) = true) :
    ∃ value, result = .ok value ∧ holds value := by
  cases result with
  | error failure => simp [Except.toOption] at computed
  | ok value => exact ⟨value, rfl, by simpa [Except.toOption] using computed⟩

/-- A failure that is computed is the one of the result. -/
theorem eq_error_of_computed {ε α : Type} [DecidableEq ε] {result : Except ε α} {error : ε}
    (computed : (match result with
      | .ok _ => false
      | .error failure => decide (failure = error)) = true) : result = .error error := by
  cases result with
  | ok value => cases computed
  | error failure => rw [of_decide_eq_true computed]

/-- The lexer at the beginning of characters that are not packed into a text. -/
def Lexer.ofChars (chars : List Char) (settings : Settings) : Lexer where
  settings := settings
  size := Text.byteCount chars
  rest := chars
  position := Position.start

/-- The tokens of characters that are not packed into a text. -/
def tokensOfChars (chars : List Char) (settings : Settings) : Except LexError (List Token) :=
  (Lexer.runWith (Text.byteCount chars + 1) (Lexer.ofChars chars settings)).toExcept

/-- The state at the beginning of characters that are not packed into a text. -/
def ParserState.ofChars (chars : List Char) (settings : Settings) : ParserState :=
  { ParserState.ofSource "" settings with
    source := chars
    stream := ⟨Lexer.ofChars chars settings, #[], 0, none⟩ }

section

variable {source : String} {settings : Settings}

theorem Lexer.ofSource_eq_ofChars {chars : List Char}
    (written : source = String.ofList chars) :
    Lexer.ofSource source settings = Lexer.ofChars chars settings := by
  rw [written, Lexer.ofSource, Lexer.ofChars, Text.utf8ByteSize_ofList, String.toList_ofList]

theorem ParserState.ofSource_eq_ofChars {chars : List Char}
    (written : source = String.ofList chars) :
    ParserState.ofSource source settings = ParserState.ofChars chars settings := by
  rw [ofSource, ofChars, TokenStream.ofSource, Lexer.ofSource_eq_ofChars written, written,
    String.toList_ofList]
  rfl

theorem tokenize_eq_tokensOfChars {chars : List Char} (written : source = String.ofList chars) :
    tokenize source settings = tokensOfChars chars settings := by
  rw [tokenize, TokenRun.ofSource, Lexer.ofSource_eq_ofChars written, written,
    Text.utf8ByteSize_ofList, tokensOfChars]

theorem tokenize_eq_ok_of_chars {chars : List Char} {tokens : List Token}
    (written : source = String.ofList chars)
    (computed : (tokensOfChars chars settings).toOption = some tokens) :
    tokenize source settings = .ok tokens := by
  rw [tokenize_eq_tokensOfChars written]
  cases read : tokensOfChars chars settings with
  | error failure => simp [read, Except.toOption] at computed
  | ok value =>
      rw [read] at computed
      exact congrArg Except.ok (Option.some.inj computed)

/-- What is computed of the tokens of some characters holds of them. -/
theorem exists_tokens {holds : List Token → Prop} [DecidablePred holds]
    {chars : List Char} (written : source = String.ofList chars)
    (computed : (tokensOfChars chars settings).toOption.any (fun tokens => holds tokens) = true) :
    ∃ tokens, tokenize source settings = .ok tokens ∧ holds tokens := by
  rw [tokenize_eq_tokensOfChars written]
  exact exists_ok computed

/-- What is computed of a parsed statement holds of it. -/
theorem exists_parsed {holds : ParsedStatement → Prop} [DecidablePred holds]
    {chars : List Char} (written : source = String.ofList chars)
    (computed : (ParserState.ofChars chars settings).parseStatement.1.toOption.any
      (fun parsed => holds parsed) = true) :
    ∃ parsed, parseStatement source settings = .ok parsed ∧ holds parsed := by
  rw [parseStatement, ParserState.ofSource_eq_ofChars written]
  exact exists_ok computed

/-- What is computed of a parsed expression holds of it. -/
theorem exists_expr {holds : Expr → Prop} [DecidablePred holds]
    {chars : List Char} (written : source = String.ofList chars)
    (computed : (ParserState.ofChars chars settings).parseExpression.1.toOption.any
      (fun tree => holds tree) = true) :
    ∃ tree, parseExpression source settings = .ok tree ∧ holds tree := by
  rw [parseExpression, ParserState.ofSource_eq_ofChars written]
  exact exists_ok computed

end

/-! ### Reading on demand -/

variable {source settings}

theorem tokenize_eq_ok {tokens : List Token} :
    tokenize source settings = .ok tokens ↔
      (TokenRun.ofSource source settings).error = none ∧
        (TokenStream.ofSource source settings).whole = tokens := by
  rw [tokenize, TokenRun.toExcept, TokenStream.ofSource_whole, TokenRun.closed]
  cases (TokenRun.ofSource source settings).error <;> simp

theorem tokenize_eq_error {error : LexError} :
    tokenize source settings = .error error ↔
      (TokenRun.ofSource source settings).error = some error := by
  rw [tokenize, TokenRun.toExcept]
  cases (TokenRun.ofSource source settings).error <;> simp

/-- A token that was read, with no lexical failure met, begins before the failure. -/
theorem ParserState.Met.offset_lt {reached : ParserState} {position : Position} {error : LexError}
    (leads : (ParserState.ofSource source settings).Leads reached)
    (unparked : reached.stream.parked = none) (met : reached.Met position)
    (fails : (TokenRun.ofSource source settings).error = some error) :
    position.offset < error.position.offset := by
  obtain ⟨token, ⟨index, below, found⟩, rfl⟩ := met
  have sound := Lexer.Sound.ofSource source settings
  have whole : reached.stream.whole = (TokenRun.ofSource source settings).closed := by
    rw [leads.stream.whole]
    exact TokenStream.ofSource_whole source settings
  have member : token ∈ (TokenRun.ofSource source settings).closed :=
    whole ▸ List.mem_of_getElem? found
  rw [TokenRun.closed, fails, List.mem_append, List.mem_singleton] at member
  rcases member with inner | rfl
  · exact Lexer.start_lt_of_mem_run _ sound inner fails
  · -- the end of input stands in the place of the failure, which would be kept aside
    obtain ⟨_, exhausted⟩ :=
      TokenStream.buffer_eq_whole_of_read leads.ready.sound below found rfl
    have failure : reached.stream.failure = some error := by
      rw [leads.stream.failure, ← fails]
      exact TokenStream.ofSource_failure source settings
    rw [TokenStream.failure, if_pos exhausted, unparked] at failure
    cases failure

/-- Parsing and reading all tokens first agree: a parsed statement lists the spans of all tokens, a
lexical failure of the parse is the first one of the source, and a source with a lexical failure has
no tree, and either fails with it or at a token before it. -/
theorem parseStatement_agrees_tokenize (source : String) (settings : Settings) :
    (∀ parsed, parseStatement source settings = .ok parsed →
      ∃ tokens stop, tokenize source settings = .ok (tokens ++ [stop]) ∧
        stop.kind = .endOfInput ∧ (∀ token ∈ tokens, token.kind ≠ .endOfInput) ∧
        parsed.tokens = tokens.map Token.span) ∧
    (∀ error, parseStatement source settings = .error (.lexical error) →
      tokenize source settings = .error error) ∧
    (∀ error, tokenize source settings = .error error →
      ∃ failure, parseStatement source settings = .error failure ∧
        (failure = .lexical error ∨
          failure.isLexical = false ∧ failure.position.offset < error.position.offset)) := by
  have sound := TokenStream.sound_ofSource source settings
  have failure : (ParserState.ofSource source settings).stream.failure =
      (TokenRun.ofSource source settings).error := TokenStream.ofSource_failure source settings
  have spec := toEnd_spec (statementTokens settings.maxDepth) _
    (ParserState.ready_ofSource source settings)
  have run := parseStatement_run source settings
  refine ⟨?_, ?_, ?_⟩
  · intro parsed accepted
    obtain ⟨unfailed, _, spans⟩ := (parseStatement_eq_ok source settings).mp accepted
    exact ⟨_, _, tokenize_eq_ok.mpr ⟨unfailed, ofSource_whole source settings⟩, sound.stop_kind,
      (Spot.ofSource source settings).inner, spans⟩
  · intro error rejected
    rw [parseStatement, run] at rejected
    rw [tokenize_eq_error, ← failure]
    generalize toEnd (statementTokens settings.maxDepth)
      (ParserState.ofSource source settings) = result at spec rejected
    cases spec with
    | ok => simp at rejected
    | lexical failed =>
        simp only [Except.error.injEq, ParseError.lexical.injEq] at rejected
        exact rejected ▸ failed
    | inner _ _ inner =>
        simp only [Except.error.injEq] at rejected
        rw [rejected] at inner
        cases inner
  · intro error fails
    rw [tokenize_eq_error] at fails
    rw [parseStatement, run]
    generalize toEnd (statementTokens settings.maxDepth)
      (ParserState.ofSource source settings) = result at spec
    cases spec with
    | ok outcome all unfailed =>
        rw [failure, fails] at unfailed
        cases unfailed
    | lexical failed =>
        rw [failure, fails] at failed
        cases failed
        exact ⟨_, rfl, .inl rfl⟩
    | inner rejected leads inner met unparked =>
        exact ⟨_, rfl, .inr ⟨inner, met.offset_lt leads unparked fails⟩⟩

/-- A statement, an open string that the parser meets, and one behind a token that no statement begins
with. -/
theorem parseStatement_agrees_tokenize_of_open_string :
    (∃ parsed tokens stop, parseStatement "SELECT a" {} = .ok parsed ∧
      tokenize "SELECT a" {} = .ok (tokens ++ [stop]) ∧ parsed.tokens = tokens.map Token.span ∧
      parsed.tokens = [⟨0, 6, 1, 1⟩, ⟨7, 8, 1, 8⟩]) ∧
    (parseStatement "SELECT 'a" {} =
        .error (.lexical ⟨.unterminatedString '\'', ⟨7, 1, 8⟩⟩) ∧
      tokenize "SELECT 'a" {} = .error ⟨.unterminatedString '\'', ⟨7, 1, 8⟩⟩) ∧
    tokenize ") 'a" {} = .error ⟨.unterminatedString '\'', ⟨2, 1, 3⟩⟩ ∧
      ∃ failure, parseStatement ") 'a" {} = .error failure ∧ failure.isLexical = false ∧
        failure.position.offset < 2 := by
  refine ⟨?_, ?_, ?_⟩
  · obtain ⟨parsed, accepted, spans⟩ :=
      @exists_parsed "SELECT a" {} (fun parsed => parsed.tokens = [⟨0, 6, 1, 1⟩, ⟨7, 8, 1, 8⟩]) _ _
        rfl (by decide +kernel)
    obtain ⟨tokens, stop, read, _, _, same⟩ := (parseStatement_agrees_tokenize _ _).1 parsed accepted
    exact ⟨parsed, tokens, stop, accepted, read, same, spans⟩
  · have rejected : parseStatement "SELECT 'a" {} =
        .error (.lexical ⟨.unterminatedString '\'', ⟨7, 1, 8⟩⟩) :=
      eq_error_of_computed (by decide +kernel)
    exact ⟨rejected, (parseStatement_agrees_tokenize _ _).2.1 _ rejected⟩
  · have fails : tokenize ") 'a" {} = .error ⟨.unterminatedString '\'', ⟨2, 1, 3⟩⟩ :=
      eq_error_of_computed (by decide +kernel)
    obtain ⟨failure, rejected, same | before⟩ := (parseStatement_agrees_tokenize _ _).2.2 _ fails
    · have other : parseStatement ") 'a" {} ≠
          .error (.lexical ⟨.unterminatedString '\'', ⟨2, 1, 3⟩⟩) := by
        intro read
        have computed : (parseStatement ") 'a" {}).toOption.isNone = true ∧
            (match parseStatement ") 'a" {} with
              | .ok _ => true
              | .error failure => failure.isLexical) = false := by decide +kernel
        rw [read] at computed
        cases computed.2
      exact absurd (same ▸ rejected) other
    · exact ⟨fails, failure, rejected, before⟩

/-! ### Places of the tokens -/

namespace Lexer

theorem laid_run (lexer : Lexer) (sound : lexer.Sound) :
    Laid lexer.position.offset lexer.rest (lexer.run.closed.dropLast.map Token.span) := by
  induction lexer, sound using run_induction with
  | failed lexer after error _ next _ =>
      rw [run_of_error next]
      exact .nothing _ _
  | ended lexer item rest _ _ _ _ next stops =>
      rw [run_of_end next stops]
      exact .nothing _ _
  | inner lexer item rest sound _ split read next stops inductionHypothesis =>
      have behind : (lexer.past item rest).run.closed ≠ [] := by
        obtain ⟨inner, stop, closed, _⟩ := closed_run (lexer.past item rest) (sound.past split)
        simp [closed]
      have nonempty := read.text_ne_nil stops
      rw [run_of_inner sound split read next stops, TokenRun.closed_cons,
        List.dropLast_cons_of_ne_nil behind, List.map_cons, split, Item.chars, List.append_assoc]
      refine .span ?_ ?_ nonempty ?_
      · simp [Item.place, Span.between]
      · simp [Item.place, Span.between, Item.chars, Nat.add_assoc]
      · simpa [Item.place, Span.between] using inductionHypothesis

end Lexer

/-- The tokens that a parse begins with lie in the source one behind the other. -/
theorem laid_ofSource (source : String) (settings : Settings) :
    Laid 0 source.toList ((Spot.ofSource source settings).ahead.map Token.span) := by
  have whole := ofSource_whole source settings
  have closed : (TokenStream.ofSource source settings).whole =
      (Lexer.ofSource source settings).run.closed := TokenStream.ofSource_whole source settings
  have laid := (Lexer.ofSource source settings).laid_run (.ofSource source settings)
  rw [← closed, whole, List.dropLast_concat] at laid
  exact laid

end SqlDml
