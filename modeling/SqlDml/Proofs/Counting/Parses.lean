import SqlDml.Counters
import SqlDml.Proofs.Abreast.Comparison
import SqlDml.Proofs.Parsing.Entry
import SqlDml.Proofs.Rules.Built

/-!
Contract: what one parse of a source adds to the counters.

Owns:
- how many alternatives are rewound while a rule runs, told along its run, and while a whole
  statement or expression is read;
- how many tokens and failures a lexer has given when a stream has read so far;
- that the counts a parse keeps are these, however its rules are put together;
- reporting a failure counts nothing;
- what a parse adds: its outcome, its rewound alternatives, its nesting limit, and what its lexer
  gives, which is every token of the source once when the parse succeeds.

Does not own: sessions of many steps.
-/

/-! ## One run of a rule -/

namespace SqlDml

/-! ### What a stream has made its lexer give -/

/-- The lexer of a stream has given each token of a run at most once: all those that are not ahead of
it, and once the end is read all of them, with the failure that ended them if there is one. -/
structure TokenStream.Counted (run : TokenRun) (stream : TokenStream) : Prop where
  reading : stream.isExhausted = false → stream.lexer.Sound ∧ stream.lexer.errors = 0 ∧
    stream.lexer.tokens + stream.lexer.run.tokens.length = run.tokens.length ∧
    stream.lexer.run.error = run.error
  ended : stream.isExhausted = true → stream.lexer.tokens = run.tokens.length ∧
    stream.lexer.errors = if run.error.isSome then 1 else 0

namespace TokenStream.Counted

variable {run : TokenRun} {stream : TokenStream}

/-- Neither the cursor nor a failure that is kept aside is counted. -/
theorem alike (counted : stream.Counted run) {other : TokenStream}
    (buffer : other.buffer = stream.buffer) (lexer : other.lexer = stream.lexer) :
    other.Counted run := by
  have exhausted : other.isExhausted = stream.isExhausted := by
    rw [isExhausted, buffer, isExhausted]
  constructor
  · rw [exhausted, lexer]
    exact counted.reading
  · rw [exhausted, lexer]
    exact counted.ended

/-- Reading one more token counts it, or the failure in its place. -/
theorem pull (counted : stream.Counted run) (unexhausted : stream.isExhausted = false) :
    stream.pull.Counted run := by
  obtain ⟨sound, errors, tokens, error⟩ := counted.reading unexhausted
  have call := Lexer.nextToken_call sound
  generalize next : stream.lexer.nextToken = result at call
  cases call with
  | refused long =>
      rw [Lexer.run_of_error next] at tokens error
      rw [pull_of_error next]
      refine ⟨by simp [isExhausted_push, Token.endAt], fun _ => ⟨tokens, ?_⟩⟩
      simp [← error, errors]
  | @item item rest fits split read =>
      rw [pull_of_ok next]
      by_cases stops : item.kind = .endOfInput
      · have last : (item.place stream.lexer.position).kind = .endOfInput := stops
        rw [Lexer.run_of_end next last] at tokens error
        refine ⟨by simp [isExhausted_push, last], fun _ => ⟨tokens, ?_⟩⟩
        simp [← error, Lexer.past, Lexer.move, errors]
      · have inner : (item.place stream.lexer.position).kind ≠ .endOfInput := stops
        rw [Lexer.run_of_inner sound split read next stops] at tokens error
        refine ⟨fun _ => ⟨sound.past split, errors, ?_, error⟩, by simp [isExhausted_push, inner]⟩
        simp only [TokenRun.cons, List.length_cons] at tokens
        simp only [Lexer.past, Lexer.move] at tokens ⊢
        omega
  | failed =>
      rw [Lexer.run_of_error next] at tokens error
      rw [pull_of_error next]
      refine ⟨by simp [isExhausted_push, Token.endAt], fun _ => ⟨tokens, ?_⟩⟩
      simp [← error, errors]

theorem pullUpTo (counted : stream.Counted run) (count : Nat) :
    (TokenStream.pullUpTo count stream).Counted run := by
  induction count generalizing stream with
  | zero => exact counted
  | succ count inductionHypothesis =>
      rw [TokenStream.pullUpTo]
      split
      · exact counted
      · next more => exact inductionHypothesis (counted.pull (by simpa using more))

theorem peek (counted : stream.Counted run) (ahead : Nat) : (stream.peek ahead).2.Counted run :=
  counted.pullUpTo _

theorem advance (counted : stream.Counted run) : stream.advance.2.Counted run := by
  unfold TokenStream.advance
  dsimp only
  split
  · exact counted.peek 0
  · exact (counted.peek 0).alike rfl rfl

theorem ofSource (source : String) (settings : Settings) :
    (TokenStream.ofSource source settings).Counted (TokenRun.ofSource source settings) := by
  have sound := Lexer.Sound.ofSource source settings
  have whole : (Lexer.ofSource source settings).run = TokenRun.ofSource source settings :=
    (Lexer.runWith_eq_run sound (by
      rw [Text.utf8ByteSize_eq_byteCount]
      exact Nat.lt_succ_self _)).symm
  refine ⟨fun _ => ⟨sound, rfl, ?_, congrArg TokenRun.error whole⟩, nofun⟩
  change 0 + (Lexer.ofSource source settings).run.tokens.length = _
  rw [whole, Nat.zero_add]

/-- No token is given twice, and one failure at most. -/
theorem bounds (counted : stream.Counted run) :
    stream.lexer.tokens ≤ run.tokens.length ∧ stream.lexer.errors ≤ 1 := by
  cases exhausted : stream.isExhausted with
  | false =>
      obtain ⟨_, errors, tokens, _⟩ := counted.reading exhausted
      omega
  | true =>
      obtain ⟨tokens, errors⟩ := counted.ended exhausted
      rw [tokens, errors]
      exact ⟨Nat.le_refl _, by split <;> omega⟩

end TokenStream.Counted

namespace Rule

/-! ### Alternatives that are rewound -/

/-- While a rule runs from a state, a number of alternatives are rewound: those that were tried and
met an unexpected token, at any depth of alternatives within alternatives. -/
inductive Rewinds : {α : Type} → Rule α → ParserState → Nat → Prop where
  | primitive {α : Type} {rule : Rule α} (primitive : Primitive rule) (state : ParserState) :
      Rewinds rule state 0
  | bind {α β : Type} {rule : Rule α} {next : α → Rule β} {state later : ParserState} {value : α}
      {count more : Nat} (run : rule state = (.ok value, later)) (front : Rewinds rule state count)
      (behind : Rewinds (next value) later more) : Rewinds (rule >>= next) state (count + more)
  | stop {α β : Type} {rule : Rule α} {next : α → Rule β} {state later : ParserState}
      {error : ParseError} {count : Nat} (run : rule state = (.error error, later))
      (front : Rewinds rule state count) : Rewinds (rule >>= next) state count
  | kept {α : Type} {rule : Rule α} {state later : ParserState} {value : α} {count : Nat}
      (run : rule state = (.ok value, later)) (inside : Rewinds rule state count) :
      Rewinds (attempt rule) state count
  | rewound {α : Type} {rule : Rule α} {state later : ParserState} {error : SyntaxError}
      {count : Nat} (run : rule state = (.error (.unexpected error), later))
      (inside : Rewinds rule state count) : Rewinds (attempt rule) state (count + 1)
  | through {α : Type} {rule : Rule α} {state later : ParserState} {error : ParseError}
      {count : Nat} (run : rule state = (.error error, later)) (other : error.isUnexpected = false)
      (inside : Rewinds rule state count) : Rewinds (attempt rule) state count
  | enter {α : Type} {rule : Rule α} {state : ParserState} {count : Nat}
      (inside : Rewinds rule { state with depth := state.depth + 1 } count) :
      Rewinds (enter rule) state count

/-! ### The counts of a run -/

/-- How many times a run that comes out in a way has met the nesting limit. -/
def limitTrips {α : Type} : Except ParseError α → Nat
  | .error (.tooDeep _ _) => 1
  | _ => 0

/-- What a run adds to the counts of its parse: the alternatives that it rewinds, the nesting limit
if it fails at it, and what its stream makes the lexer give. -/
structure Accounts {α : Type} (state : ParserState) (result : Except ParseError α × ParserState)
    (count : Nat) : Prop where
  rejected : result.2.backtracks = state.backtracks + count
  trips : result.2.depthTrips = state.depthTrips + limitTrips result.1
  stream : ∀ run, state.stream.Counted run → result.2.stream.Counted run

variable {α β : Type}

theorem accounts_of_looked {state : ParserState} (outcome : Except ParseError α)
    (noTrip : limitTrips outcome = 0) :
    Accounts state (outcome, { state with stream := (state.stream.peek 0).2 }) 0 :=
  ⟨rfl, by rw [noTrip]; rfl, fun _ counted => counted.peek 0⟩

theorem Primitive.accounts {rule : Rule α} (primitive : Primitive rule) (state : ParserState) :
    Accounts state (rule state) 0 := by
  cases primitive with
  | pure | previousSpan | tokensAhead | sourceChars | currentSettings | nextPlaceholder
  | innerRules => exact ⟨rfl, rfl, fun _ counted => counted⟩
  | peekToken ahead => exact ⟨rfl, rfl, fun _ counted => counted.peek ahead⟩
  | advance => exact ⟨rfl, rfl, fun _ counted => counted.advance⟩
  | fail expected => exact accounts_of_looked (.error (.unexpected _)) rfl
  | tooDeep => exact ⟨rfl, rfl, fun _ counted => counted.peek 0⟩
  | endOfSource =>
      rw [endOfSource_run]
      split
      · split <;> exact ⟨rfl, rfl, fun _ counted => (counted.peek 0).alike rfl rfl⟩
      · exact ⟨rfl, rfl, fun _ counted => (counted.peek 0).peek 0⟩

namespace Accounts

variable {rule : Rule α} {state later : ParserState} {count more : Nat}

theorem of_run {outcome : Except ParseError α} (accounts : Accounts state (rule state) count)
    (run : rule state = (outcome, later)) : Accounts state (outcome, later) count := run ▸ accounts

/-- What is added behind a value adds up. -/
theorem trans {value : α} {result : Except ParseError β × ParserState}
    (front : Accounts state (.ok value, later) count) (behind : Accounts later result more) :
    Accounts state result (count + more) where
  rejected := by rw [behind.rejected, front.rejected, Nat.add_assoc]
  trips := by
    rw [behind.trips, front.trips]
    rfl
  stream run counted := behind.stream run (front.stream run counted)

/-- A failure ends a run whatever the value would have been. -/
theorem fails {error : ParseError}
    (accounts : Accounts state ((.error error : Except ParseError α), later) count) :
    Accounts state ((.error error : Except ParseError β), later) count where
  rejected := accounts.rejected
  trips := by
    rw [accounts.trips]
    cases error <;> rfl
  stream := accounts.stream

end Accounts

/-- The counts of a parse tell the alternatives that were rewound, and every token is counted
once. -/
theorem Rewinds.accounts {rule : Rule α} {state : ParserState} {count : Nat}
    (rewinds : Rewinds rule state count) : Accounts state (rule state) count := by
  induction rewinds with
  | primitive primitive state => exact primitive.accounts state
  | bind run _ _ frontHypothesis behindHypothesis =>
      rw [bind_run, run]
      exact (frontHypothesis.of_run run).trans behindHypothesis
  | stop run _ inductionHypothesis =>
      rw [bind_run, run]
      exact (inductionHypothesis.of_run run).fails
  | kept run _ inductionHypothesis =>
      rw [attempt_run, run]
      have accounts := inductionHypothesis.of_run run
      exact ⟨accounts.rejected, accounts.trips, accounts.stream⟩
  | @rewound _ rule state later error count run _ inductionHypothesis =>
      rw [attempt_run, run]
      have accounts := inductionHypothesis.of_run run
      refine ⟨?_, accounts.trips, fun run counted => (accounts.stream run counted).alike rfl rfl⟩
      have added : (state.resumed later error).backtracks = later.backtracks + 1 := rfl
      rw [added, accounts.rejected, Nat.add_assoc]
  | @through _ rule state later error count run other _ inductionHypothesis =>
      rw [attempt_run, run]
      have accounts := inductionHypothesis.of_run run
      cases error with
      | unexpected error => cases other
      | lexical | tooDeep => exact accounts.fails
  | enter _ inductionHypothesis =>
      exact ⟨inductionHypothesis.rejected, inductionHypothesis.trips, inductionHypothesis.stream⟩

/-- A run that goes on has its number of rewound alternatives if both of its parts have theirs. -/
theorem exists_rewinds_bind {rule : Rule α} {next : α → Rule β} {state : ParserState}
    (front : ∃ count, Rewinds rule state count)
    (behind : ∀ value later, ∃ count, Rewinds (next value) later count) :
    ∃ count, Rewinds (rule >>= next) state count := by
  obtain ⟨count, front⟩ := front
  rcases run : rule state with ⟨outcome, later⟩
  cases outcome with
  | ok value =>
      obtain ⟨more, behind⟩ := behind value later
      exact ⟨count + more, .bind run front behind⟩
  | error error => exact ⟨count, .stop run front⟩

theorem exists_rewinds_iterate {step : β → Rule (Option β)}
    (steps : ∀ value state, ∃ count, Rewinds (step value) state count) (fuel : Nat) (value : β)
    (state : ParserState) : ∃ count, Rewinds (iterate step fuel value) state count := by
  induction fuel generalizing value state with
  | zero => exact ⟨0, .primitive (.pure value) state⟩
  | succ fuel inductionHypothesis =>
      refine exists_rewinds_bind (steps value state) fun found later => ?_
      cases found with
      | none => exact ⟨0, .primitive (.pure value) later⟩
      | some next => exact inductionHypothesis next later

/-- Every run of a rule that is built from primitives has its number of rewound alternatives. -/
theorem exists_rewinds {rule : Rule α} (built : rule.Built) (state : ParserState) :
    ∃ count, Rewinds rule state count := by
  induction built generalizing state with
  | basic basic => exact ⟨0, .primitive basic.primitive state⟩
  | bind _ _ frontHypothesis behindHypothesis =>
      exact exists_rewinds_bind (frontHypothesis state) behindHypothesis
  | @attempt _ rule _ inductionHypothesis =>
      obtain ⟨count, inside⟩ := inductionHypothesis state
      rcases run : rule state with ⟨outcome, later⟩
      cases outcome with
      | ok value => exact ⟨count, .kept run inside⟩
      | error error =>
          cases error with
          | unexpected error => exact ⟨count + 1, .rewound run inside⟩
          | lexical error => exact ⟨count, .through run rfl inside⟩
          | tooDeep limit position => exact ⟨count, .through run rfl inside⟩
  | enter _ inductionHypothesis =>
      obtain ⟨count, inside⟩ := inductionHypothesis { state with depth := state.depth + 1 }
      exact ⟨count, .enter inside⟩
  | levels _ inductionHypothesis =>
      obtain ⟨count, behind⟩ := inductionHypothesis (state.settings.maxDepth - state.depth) state
      exact ⟨0 + count, .bind (innerRules_run state) (.primitive .innerRules state) behind⟩
  | whileSome _ _ first inductionHypothesis =>
      exact exists_rewinds_bind ⟨0, .primitive .tokensAhead state⟩ fun fuel later =>
        exists_rewinds_iterate inductionHypothesis fuel first later

/-- A run rewinds one number of alternatives. -/
theorem Rewinds.unique {rule : Rule α} {state : ParserState} {count other : Nat}
    (rewinds : Rewinds rule state count) (again : Rewinds rule state other) : count = other :=
  Nat.add_left_cancel (rewinds.accounts.rejected.symm.trans again.accounts.rejected)

end Rule

end SqlDml

/-! ## One parse -/

namespace SqlDml

namespace Rule

/-! ### Reading a source to its end -/

/-- Where the source has ended all its tokens were read. -/
theorem exhausted_of_endOfSource {state later : ParserState} (ready : state.Ready)
    (run : endOfSource state = (.ok (), later)) : later.stream.isExhausted = true := by
  rw [endOfSource_run] at run
  split at run
  · next ended =>
      have all := TokenStream.isExhausted_of_peek ready.sound ended
      split at run
      · cases run
      · cases run
        exact all
  · cases run

/-- A rule that is followed by the end of the source leaves nothing of it unread. -/
theorem exhausted_of_toEnd {α : Type} {rule : Rule α} [rule.Lawful] {state later : ParserState}
    {value : α} (ready : state.Ready) (run : toEnd rule state = (.ok value, later)) :
    later.stream.isExhausted = true := by
  rw [toEnd_run] at run
  split at run
  · next read middle front =>
      have leads := (Safe.of_lawful rule ready).of_run front
      split at run
      · next last ended =>
          cases run
          exact exhausted_of_endOfSource leads.ready ended
      · cases run
  · cases run

/-! ### Reporting a failure -/

variable {α : Type}

/-- Reporting a failure changes none of the counts. -/
theorem reported_keeps (error : ParseError) (state : ParserState) :
    (reported error state).2.backtracks = state.backtracks ∧
      (reported error state).2.depthTrips = state.depthTrips ∧
      (reported error state).2.stream.buffer = state.stream.buffer ∧
      (reported error state).2.stream.lexer = state.stream.lexer := by
  unfold reported TokenStream.takeLexError
  cases state.stream.parked with
  | some lexical => exact ⟨rfl, rfl, rfl, rfl⟩
  | none => cases error <;> exact ⟨rfl, rfl, rfl, rfl⟩

/-- The nesting limit is only reported where it was met. -/
theorem eq_tooDeep_of_reported {error : ParseError} {state : ParserState} {limit : Nat}
    {position : Position} (same : (reported error state).1 = .tooDeep limit position) :
    error = .tooDeep limit position := by
  unfold reported at same
  split at same
  · cases same
  · cases error with
    | tooDeep => exact same
    | unexpected | lexical => cases same

/-- The counts of a rule whose failure is reported are those of the rule. -/
theorem Accounts.finish {rule : Rule α} {state : ParserState} {count : Nat}
    (accounts : Accounts state (rule state) count) :
    (Rule.finish rule state).2.backtracks = state.backtracks + count ∧
      (∃ trips ≤ 1, (Rule.finish rule state).2.depthTrips = state.depthTrips + trips ∧
        ∀ limit position, (Rule.finish rule state).1 = .error (.tooDeep limit position) →
          trips = 1) ∧
      ∀ run, state.stream.Counted run → (Rule.finish rule state).2.stream.Counted run := by
  unfold Rule.finish
  rcases run : rule state with ⟨outcome, later⟩
  rw [run] at accounts
  cases outcome with
  | ok value => exact ⟨accounts.rejected, ⟨0, Nat.zero_le 1, accounts.trips, nofun⟩, accounts.stream⟩
  | error error =>
      obtain ⟨backtracks, trips, buffer, lexer⟩ := reported_keeps error later
      refine ⟨backtracks.trans accounts.rejected,
        ⟨limitTrips (.error error : Except ParseError α), ?_, trips.trans accounts.trips, ?_⟩,
        fun run counted => (accounts.stream run counted).alike buffer lexer⟩
      · cases error <;> simp [limitTrips]
      · intro limit position same
        rw [eq_tooDeep_of_reported (Except.error.inj same)]
        rfl

end Rule

open Rule

/-! ### What a parse adds -/

/-- The failure of a result. -/
def failure? {ε α : Type} : Except ε α → Option ε
  | .ok _ => none
  | .error error => some error

theorem succeeded_eq {ε α : Type} (result : Except ε α) :
    succeeded result = (failure? result).isNone := by
  cases result <;> rfl

/-- What a parse adds to the counters: the rule runs at the beginning of the source, and the parse
comes out with a failure or with none. -/
structure ParseAdds {α : Type} (source : String) (settings : Settings) (rule : Rule α)
    (failure : Option ParseError) (before after : Counters) : Prop where
  parsed : failure = none → after.parse.statements = before.parse.statements + 1 ∧
    after.parse.failures = before.parse.failures
  failed : failure ≠ none → after.parse.statements = before.parse.statements ∧
    after.parse.failures = before.parse.failures + 1
  /-- The alternatives that are rewound, no more and no fewer. -/
  rewinds : ∀ count, Rewinds rule (ParserState.ofSource source settings) count ↔
    after.parse.backtracks = before.parse.backtracks + count
  trips : before.parse.depthTrips ≤ after.parse.depthTrips ∧
    after.parse.depthTrips ≤ before.parse.depthTrips + 1
  tripped : ∀ limit position, failure = some (.tooDeep limit position) →
    after.parse.depthTrips = before.parse.depthTrips + 1
  lexer : after.tokenize.calls = before.tokenize.calls + 1
  errors : before.tokenize.errors ≤ after.tokenize.errors ∧
    after.tokenize.errors ≤ before.tokenize.errors + 1
  /-- No token of the source is given twice. -/
  tokens : before.tokenize.tokens ≤ after.tokenize.tokens ∧ after.tokenize.tokens ≤
    before.tokenize.tokens + (TokenRun.ofSource source settings).tokens.length
  /-- A tree is read from all tokens, and the end of input is one more. -/
  all : failure = none → after.tokenize.errors = before.tokenize.errors ∧
    ∃ inner stop, tokenize source settings = .ok (inner ++ [stop]) ∧
      (∀ token ∈ inner, token.kind ≠ .endOfInput) ∧ stop.kind = .endOfInput ∧
      after.tokenize.tokens = before.tokenize.tokens + (inner.length + 1)

/-- All tokens of a source that has no lexical failure. -/
theorem tokenize_eq_ahead {source : String} {settings : Settings}
    (unfailed : (TokenRun.ofSource source settings).error = none) :
    tokenize source settings = .ok ((Spot.ofSource source settings).ahead ++
      [(TokenStream.ofSource source settings).stop]) :=
  tokenize_eq_ok.mpr ⟨unfailed, ofSource_whole source settings⟩

/-- A source that is read to its end has given all its tokens, the end of input among them, and no
failure. -/
theorem counts_of_toEnd {α : Type} {source : String} {settings : Settings} {body : Rule α}
    [body.Lawful] {value : α} {state : ParserState}
    (run : toEnd body (ParserState.ofSource source settings) = (.ok value, state))
    (counted : state.stream.Counted (TokenRun.ofSource source settings)) :
    state.stream.lexer.errors = 0 ∧
      tokenize source settings = .ok ((Spot.ofSource source settings).ahead ++
        [(TokenStream.ofSource source settings).stop]) ∧
      state.stream.lexer.tokens = (Spot.ofSource source settings).ahead.length + 1 := by
  have ready := ParserState.ready_ofSource source settings
  have unfailed : (TokenRun.ofSource source settings).error = none :=
    ((toEnd_ofSource_eq_ok source settings).mp (congrArg Prod.fst run)).1
  have tokenized := tokenize_eq_ahead unfailed
  obtain ⟨tokens, errors⟩ := counted.ended (exhausted_of_toEnd ready run)
  rw [unfailed] at errors
  refine ⟨errors, tokenized, ?_⟩
  rw [tokenize, TokenRun.toExcept, unfailed] at tokenized
  rw [tokens, Except.ok.inj tokenized, List.length_append, List.length_singleton]

/-- What a rule adds that is run to the end of a source. -/
theorem parseAdds_of_finish {α : Type} {source : String} {settings : Settings}
    {whole body : Rule α} [body.Lawful]
    (rewinds : ∃ count, Rewinds whole (ParserState.ofSource source settings) count)
    (same : finish whole (ParserState.ofSource source settings) =
      toEnd body (ParserState.ofSource source settings)) (before : Counters) :
    ParseAdds source settings whole
      (failure? (finish whole (ParserState.ofSource source settings)).1) before
      (before.addParse (succeeded (finish whole (ParserState.ofSource source settings)).1)
        (finish whole (ParserState.ofSource source settings)).2) := by
  obtain ⟨count, counts⟩ := rewinds
  obtain ⟨backtracks, ⟨trips, tripsLe, depthTrips, tripped⟩, stream⟩ := counts.accounts.finish
  have counted := stream _ (TokenStream.Counted.ofSource source settings)
  obtain ⟨tokens, errors⟩ := counted.bounds
  have fresh : (ParserState.ofSource source settings).backtracks = 0 ∧
      (ParserState.ofSource source settings).depthTrips = 0 := ⟨rfl, rfl⟩
  rw [fresh.1, Nat.zero_add] at backtracks
  rw [fresh.2, Nat.zero_add] at depthTrips
  generalize finish whole (ParserState.ofSource source settings) = result at *
  obtain ⟨outcome, state⟩ := result
  dsimp only at backtracks depthTrips tripped counted tokens errors ⊢
  refine ⟨?_, ?_, ?_, ?_, ?_, rfl, ?_, ?_, ?_⟩
  · intro done
    rw [succeeded_eq, done]
    exact ⟨rfl, rfl⟩
  · intro fails
    rw [succeeded_eq, Option.isNone_eq_false_iff.mpr (Option.isSome_iff_ne_none.mpr fails)]
    exact ⟨rfl, rfl⟩
  · intro other
    have added : (before.addParse (succeeded outcome) state).parse.backtracks =
        before.parse.backtracks + count := by rw [← backtracks]; rfl
    rw [added]
    constructor
    · intro again
      rw [counts.unique again]
    · intro equal
      rwa [← Nat.add_left_cancel equal]
  · simp only [Counters.addParse, depthTrips]
    omega
  · intro limit position fails
    cases outcome with
    | ok value => cases fails
    | error error =>
        simp only [Counters.addParse, depthTrips]
        rw [tripped limit position (congrArg Except.error (Option.some.inj fails))]
  · simp only [Counters.addParse, Counters.addLexer]
    omega
  · simp only [Counters.addParse, Counters.addLexer]
    omega
  · intro done
    cases outcome with
    | error error => cases done
    | ok value =>
        obtain ⟨noErrors, tokenized, all⟩ := counts_of_toEnd same.symm counted
        refine ⟨?_, _, _, tokenized, (Spot.ofSource source settings).inner,
          (TokenStream.sound_ofSource source settings).stop_kind, ?_⟩
        · simp only [Counters.addParse, Counters.addLexer, noErrors, Nat.add_zero]
        · simp only [Counters.addParse, Counters.addLexer, all]

/-- A statement is read to the end of its source, and its tokens are listed. -/
theorem parseStatement_finish (state : ParserState) :
    failure? state.parseStatement.1 = failure? (finish wholeStatement state).1 ∧
      state.parseStatement.2 = (finish wholeStatement state).2 := by
  unfold ParserState.parseStatement
  rcases finish wholeStatement state with ⟨outcome, later⟩
  cases outcome <;> exact ⟨rfl, rfl⟩

theorem statement_adds (source : String) (settings : Settings) (before : Counters) :
    ∃ result, (before.step (.statement source settings)).1 = .statement result ∧
      ParseAdds source settings wholeStatement (failure? result) before
        (before.step (.statement source settings)).2 ∧
      ∀ parsed, result = .ok parsed → (before.step (.statement source settings)).2.tokenize.tokens =
        before.tokenize.tokens + (parsed.tokens.length + 1) := by
  have same : finish wholeStatement (ParserState.ofSource source settings) =
      toEnd (statementTokens settings.maxDepth) (ParserState.ofSource source settings) := by
    unfold toEnd finish
    rw [wholeStatement_run _ rfl]
    rfl
  have stepped : before.step (.statement source settings) =
      (.statement (parseStatement source settings),
        before.addParse (succeeded (parseStatement source settings))
          (ParserState.ofSource source settings).parseStatement.2) := rfl
  have adds : ParseAdds source settings wholeStatement
      (failure? (parseStatement source settings)) before
      (before.step (.statement source settings)).2 := by
    obtain ⟨failure, state⟩ := parseStatement_finish (ParserState.ofSource source settings)
    rw [← parseStatement] at failure
    rw [stepped, succeeded_eq, failure, state, ← succeeded_eq]
    exact parseAdds_of_finish (exists_rewinds inferInstance _) same before
  refine ⟨parseStatement source settings, congrArg Prod.fst stepped, adds,
    fun parsed accepted => ?_⟩
  obtain ⟨_, inner, stop, tokenized, _, _, all⟩ := adds.all (by rw [accepted]; rfl)
  obtain ⟨unfailed, _, spans⟩ := (parseStatement_eq_ok source settings).mp accepted
  rw [tokenize_eq_ahead unfailed] at tokenized
  rw [all, spans, List.length_map, (List.append_inj' (Except.ok.inj tokenized) rfl).1]

theorem expression_adds (source : String) (settings : Settings) (before : Counters) :
    ∃ result, (before.step (.expression source settings)).1 = .expression result ∧
      ParseAdds source settings wholeExpression (failure? result) before
        (before.step (.expression source settings)).2 :=
  ⟨_, rfl, parseAdds_of_finish (exists_rewinds inferInstance _)
    (parseExpression_run source settings) before⟩

end SqlDml
