import SqlDml.Proofs.Abreast.Queries
import SqlDml.Proofs.Parsing.Entry
import SqlDml.Proofs.Stream.Cursor

/-!
Contract: what a larger nesting limit changes.

Owns:
- opening a nesting level on two sides at once, and what it takes to carry a comparison inside a
  level over to the outside;
- runs over the same tokens, of which the left one may open fewer levels;
- the left run meets its limit, or both do the same;
- a lexical failure that hides a limit that was met is reported by both.

Does not own: when the limit is met.
-/

namespace SqlDml

namespace ParserState

/-- The state inside one more nesting level. -/
def entered (state : ParserState) : ParserState := { state with depth := state.depth + 1 }

/-- The state behind a nesting level. -/
def left (state : ParserState) : ParserState := { state with depth := state.depth - 1 }

/-- What leads on inside a level leads on outside. -/
theorem Leads.of_entered {state later : ParserState} (leads : state.entered.Leads later) :
    state.Leads later.left :=
  ⟨leads.ready.alike rfl rfl rfl, leads.stream, leads.settings, leads.source⟩

end ParserState

namespace Rule

variable {α : Type}

theorem enter_run (rule : Rule α) (state : ParserState) :
    enter rule state = ((rule state.entered).1, (rule state.entered).2.left) := rfl

theorem Safe.enter {rule : Rule α} {state : ParserState} (safe : rule.Safe state.entered) :
    (enter rule).Safe state := by
  unfold Safe at safe ⊢
  rw [enter_run]
  rcases run : rule state.entered with ⟨result | result, later⟩
  · rw [run] at safe
    exact ⟨ParserState.Leads.of_entered safe.1, safe.2⟩
  · rw [run] at safe
    exact ParserState.Leads.of_entered safe

end Rule

/-- The rules of a level, each of which opens the level of other rules. -/
structure InnerRules.Around (outer inner : InnerRules) : Prop where
  operand : ∀ power, outer.operand power = Rule.enter (Rule.operandBody inner power)
  query : outer.query = Rule.enter (Rule.wholeQuery inner)
  tableInParens : outer.tableInParens = Rule.enter (Rule.tableInParensBody inner)

theorem Rule.innerAt_around (levels : Nat) : (innerAt (levels + 1)).Around (innerAt levels) :=
  ⟨operand_succ levels, query_succ levels, tableInParens_succ levels⟩

namespace Comparison

open Rule

variable {α : Type} [Labelled α]

/-- A comparison and the one inside the next nesting level. -/
structure Opens (C deeper : Comparison) : Prop where
  likeness : deeper.likeness = C.likeness
  lossy : deeper.Lossy → C.Lossy
  within : ∀ {state other}, C.Near state other → C.Open state →
    deeper.Near state.entered other.entered
  behind : ∀ {state other}, deeper.Near state other → C.Near state.left other.left
  failed : ∀ {error error' state other}, deeper.Failed error state error' other →
    C.Failed error state.left error' other.left

/-- Rules that keep in step inside a level keep in step with the level around them. -/
theorem Opens.inStep {C deeper : Comparison} (opens : C.Opens deeper) {rule copy : Rule α}
    [inside : InStep deeper false rule copy] : InStep C true (Rule.enter rule) (Rule.enter copy) where
  abreast {state other} near open_ := by
    obtain ⟨left, right, verdict⟩ := inside.abreast (opens.within near (open_ rfl)) (by simp)
    refine ⟨left.enter, right.enter, ?_⟩
    rw [enter_run, enter_run]
    generalize rule state.entered = result at verdict
    generalize copy other.entered = result' at verdict
    cases verdict with
    | done alike near _ => exact .done (opens.likeness ▸ alike) (opens.behind near) (by simp)
    | failed failed => exact .failed (opens.failed failed)
    | lost lossy read => exact .lost (opens.lossy lossy) read

/-- The rules of a level keep in step when those of the next one do. -/
theorem Opens.inner {C deeper : Comparison} (opens : C.Opens deeper)
    {outer outer' inner inner' : InnerRules} (around : outer.Around inner)
    (around' : outer'.Around inner') [inner.Lawful] [InnerInStep deeper inner inner'] :
    InnerInStep C outer outer' where
  operand power := by
    rw [around.operand, around'.operand]
    exact opens.inStep
  query := by
    rw [around.query, around'.query]
    exact opens.inStep
  tableInParens := by
    rw [around.tableInParens, around'.tableInParens]
    exact opens.inStep

end Comparison

/-- States over the same tokens that tell the rules of the grammar the same. -/
structure ParserState.Twin (state other : ParserState) : Prop where
  ready : state.Ready
  ready' : other.Ready
  whole : other.stream.whole = state.stream.whole
  failure : other.stream.failure = state.stream.failure
  read : other.stream.buffer.size = state.stream.buffer.size
  cursor : other.stream.cursor = state.stream.cursor
  source : other.source = state.source
  pipes : other.settings.pipesAsConcat = state.settings.pipesAsConcat
  placeholders : other.placeholders = state.placeholders
  furthest : other.furthest = state.furthest

namespace ParserState.Twin

variable {state other : ParserState}

theorem refl (ready : state.Ready) : state.Twin state :=
  ⟨ready, ready, rfl, rfl, rfl, rfl, rfl, rfl, rfl, rfl⟩

theorem token (twin : state.Twin other) (ahead : Nat) : other.token ahead = state.token ahead := by
  obtain ⟨seen, _⟩ := TokenStream.peek_spec twin.ready.sound ahead
  obtain ⟨seen', _⟩ := TokenStream.peek_spec twin.ready'.sound ahead
  rw [ParserState.token, ParserState.token, seen, seen',
    TokenStream.ahead_eq_of_whole twin.whole twin.cursor, TokenStream.stop_eq_of_whole twin.whole]

theorem looked (twin : state.Twin other) (ahead : Nat) :
    (state.looked ahead).Twin (other.looked ahead) := by
  have leads := Rule.leads_peek twin.ready ahead
  have leads' := Rule.leads_peek twin.ready' ahead
  obtain ⟨_, _, _, cursor, _⟩ := TokenStream.peek_spec twin.ready.sound ahead
  obtain ⟨_, _, _, cursor', _⟩ := TokenStream.peek_spec twin.ready'.sound ahead
  refine ⟨leads.ready, leads'.ready, ?_, ?_, ?_, ?_, twin.source, twin.pipes, twin.placeholders,
    twin.furthest⟩
  · exact leads'.stream.whole.trans (twin.whole.trans leads.stream.whole.symm)
  · exact leads'.stream.failure.trans (twin.failure.trans leads.stream.failure.symm)
  · have size : (state.looked ahead).stream.buffer.size = _ :=
      TokenStream.pullUpTo_size _ _ twin.ready.sound
    have size' : (other.looked ahead).stream.buffer.size = _ :=
      TokenStream.pullUpTo_size _ _ twin.ready'.sound
    rw [size, size', twin.whole, twin.read, twin.cursor]
  · exact cursor'.trans (twin.cursor.trans cursor.symm)

end ParserState.Twin

namespace ParserState

/-- Behind the next token the cursor is one further, but for the end of input. -/
theorem stepped_eq (state : ParserState) :
    state.stepped =
      if (state.token 0).kind = .endOfInput then state.looked 0
      else { state.looked 0 with
        stream := { (state.looked 0).stream with cursor := (state.looked 0).stream.cursor + 1 } } := by
  unfold stepped TokenStream.advance
  dsimp only
  split
  · next ended => exact (if_pos ended).symm
  · next inner => exact (if_neg inner).symm

theorem leads_stepped {state : ParserState} (ready : state.Ready) : state.Leads state.stepped := by
  have leads := (Rule.Safe.of_lawful Rule.advance ready).leads
  rwa [advance_run] at leads

end ParserState

namespace ParserState.Twin

variable {state other : ParserState}

theorem stepped (twin : state.Twin other) : state.stepped.Twin other.stepped := by
  have looked := twin.looked 0
  have ready := (leads_stepped twin.ready).ready
  have ready' := (leads_stepped twin.ready').ready
  rw [stepped_eq] at ready ready' ⊢
  rw [stepped_eq other] at ⊢
  rw [twin.token 0] at ready' ⊢
  split
  · exact looked
  · next inner =>
      rw [if_neg inner] at ready ready'
      exact ⟨ready, ready', looked.whole, looked.failure, looked.read,
        congrArg (· + 1) looked.cursor, looked.source, looked.pipes, looked.placeholders,
        looked.furthest⟩

theorem ahead (twin : state.Twin other) : other.spot.ahead = state.spot.ahead :=
  TokenStream.ahead_eq_of_whole twin.whole twin.cursor

theorem previousSpan (twin : state.Twin other) :
    other.stream.previousSpan = state.stream.previousSpan :=
  TokenStream.previousSpan_eq_of_whole twin.ready.sound twin.ready'.sound twin.whole twin.cursor

theorem numbered (twin : state.Twin other) : state.numbered.Twin other.numbered :=
  { twin with
    ready := twin.ready.alike rfl rfl rfl
    ready' := twin.ready'.alike rfl rfl rfl
    placeholders := congrArg (· + 1) twin.placeholders }

/-- A failure is kept aside on both sides or on none. -/
theorem parked (twin : state.Twin other) : other.stream.parked = state.stream.parked := by
  have exhausted : other.stream.isExhausted = state.stream.isExhausted := by
    rw [Bool.eq_iff_iff, TokenStream.isExhausted_iff twin.ready.sound,
      TokenStream.isExhausted_iff twin.ready'.sound, twin.whole, twin.read]
  have failure := twin.failure
  rw [TokenStream.failure, TokenStream.failure, exhausted] at failure
  cases all : state.stream.isExhausted with
  | true => simpa [all] using failure
  | false =>
      rw [twin.ready.sound.unparked all, twin.ready'.sound.unparked (exhausted.trans all)]

/-- Behind rejected alternatives both sides go on from where they began. -/
theorem resumed {later later' : ParserState} (twin : state.Twin other) (error : SyntaxError)
    (behind : later.Twin later') (leads : state.Leads (state.resumed later error))
    (leads' : other.Leads (other.resumed later' error)) :
    (state.resumed later error).Twin (other.resumed later' error) :=
  ⟨leads.ready, leads'.ready, behind.whole, behind.failure, behind.read,
    congrArg₂ min twin.cursor behind.cursor, behind.source, behind.pipes, twin.placeholders,
    congrArg (fun furthest => some (Rule.remember furthest error)) behind.furthest⟩

end ParserState.Twin

namespace Comparison

open Rule

/-- Runs over the same tokens, of which the left one may meet its nesting limit. -/
def raised : Comparison where
  likeness := .refl
  Near state other := state.Twin other
  Open _ := True
  Failed error state error' other := error' = error ∧ state.Twin other
  Lossy := True
  ready twin := ⟨twin.ready, twin.ready'⟩
  length twin := congrArg List.length twin.ahead
  look ahead twin := ⟨twin.looked ahead, twin.token ahead ▸ .refl _⟩
  step twin := twin.stepped
  last twin := twin.previousSpan ▸ .refl _
  number twin := ⟨twin.numbered, twin.placeholders.symm⟩
  name anyKeyword twin := by
    rw [twin.source, twin.token 0]
    exact .refl _
  pipes twin := twin.pipes
  fails expected twin := by
    refine ⟨?_, twin.looked 0⟩
    rw [ParserState.failure, ParserState.failure, twin.token 0]
  family failed := by rw [failed.1]
  resume := by
    rintro state other later later' error error' twin leads leads' ⟨same, behind⟩
    cases same
    exact twin.resumed error behind leads leads'
  opens _ _ _ := trivial
  keeps _ _ := trivial
  reflexive _ _ ready := ⟨.refl ready, trivial⟩
  sides _ := rfl

theorem raised_opens : raised.Opens raised where
  likeness := rfl
  lossy := id
  within twin _ :=
    { twin with
      ready := twin.ready.alike rfl rfl rfl
      ready' := twin.ready'.alike rfl rfl rfl }
  behind twin :=
    { twin with
      ready := twin.ready.alike rfl rfl rfl
      ready' := twin.ready'.alike rfl rfl rfl }
  failed failed :=
    ⟨failed.1, { failed.2 with
      ready := failed.2.ready.alike rfl rfl rfl
      ready' := failed.2.ready'.alike rfl rfl rfl }⟩

end Comparison

/-! ### Where the limit is met -/

namespace Rule

variable {α β : Type}

/-- A rule that looks at the next token, whatever it comes to. -/
def Peeks (rule : Rule α) : Prop :=
  ∀ state : ParserState, state.Ready →
    (state.looked 0).stream.buffer.size ≤ (rule state).2.stream.buffer.size

theorem Peeks.bind {rule : Rule α} {next : α → Rule β} (first : rule.Peeks) [rule.Lawful]
    (continued : ∀ value, (next value).Lawful) : (rule >>= next).Peeks := by
  intro state ready
  refine Nat.le_trans (first state ready) ?_
  have safe := Safe.of_lawful rule ready
  rw [bind_run]
  rcases run : rule state with ⟨error | value, later⟩
  · exact Nat.le_refl _
  · exact (Safe.of_lawful (next value) (safe.of_run run).ready).leads.stream.read

theorem Peeks.enter {rule : Rule α} (peeks : rule.Peeks) : (enter rule).Peeks :=
  fun state ready => peeks state.entered (ready.alike rfl rfl rfl)

theorem peek_peeks : peek.Peeks := fun _ _ => Nat.le_refl _

theorem currentSpan_peeks : currentSpan.Peeks := fun _ _ => Nat.le_refl _

theorem tooDeep_peeks : (tooDeep : Rule α).Peeks := fun _ _ => Nat.le_refl _

variable (inner : InnerRules) [inner.Lawful]

theorem operandBody_peeks (power : Nat) : (operandBody inner power).Peeks := by
  unfold operandBody
  refine .bind ?_ inferInstance
  unfold primaryExpr
  refine peek_peeks.bind fun kind => ?_
  split <;> infer_instance

theorem wholeQuery_peeks : (wholeQuery inner).Peeks := by
  unfold wholeQuery
  exact currentSpan_peeks.bind inferInstance

theorem tableInParensBody_peeks : (tableInParensBody inner).Peeks := by
  unfold tableInParensBody
  refine currentSpan_peeks.bind fun start => lawful_bind fun kind => ?_
  split
  · refine lawful_bind fun found => ?_
    split <;> infer_instance
  · infer_instance

theorem innerAt_peeks (levels : Nat) :
    (∀ power, ((innerAt levels).operand power).Peeks) ∧ (innerAt levels).query.Peeks ∧
      (innerAt levels).tableInParens.Peeks := by
  cases levels with
  | zero =>
      rw [query_zero, tableInParens_zero]
      refine ⟨fun power => ?_, tooDeep_peeks, tooDeep_peeks⟩
      rw [operand_zero]
      exact tooDeep_peeks
  | succ levels =>
      rw [query_succ, tableInParens_succ]
      refine ⟨fun power => ?_, (wholeQuery_peeks _).enter, (tableInParensBody_peeks _).enter⟩
      rw [operand_succ]
      exact (operandBody_peeks _ power).enter

end Rule

namespace Comparison

open Rule

/-- Where the left run meets its limit, the right one looks at the next token, too. -/
theorem tooDeep_raised {α : Type} [Labelled α] {copy : Rule α} [copy.Lawful] (peeks : copy.Peeks) :
    InStep raised true tooDeep copy where
  abreast {state other} twin _ := by
    refine ⟨.of_lawful _ twin.ready, .of_lawful _ twin.ready', ?_⟩
    have read := peeks other twin.ready'
    rw [(twin.looked 0).read] at read
    exact .lost trivial read

/-- Fewer levels and more, by induction on the fewer. -/
theorem innerAt_raised {levels more : Nat} (fewer : levels ≤ more) :
    InnerInStep raised (innerAt levels) (innerAt more) := by
  induction levels generalizing more with
  | zero =>
      obtain ⟨operand, query, tableInParens⟩ := innerAt_peeks more
      refine ⟨fun power => ?_, ?_, ?_⟩
      · rw [operand_zero]
        exact tooDeep_raised (operand power)
      · rw [query_zero]
        exact tooDeep_raised query
      · rw [tableInParens_zero]
        exact tooDeep_raised tableInParens
  | succ levels inductionHypothesis =>
      obtain ⟨more, rfl⟩ : ∃ less, more = less + 1 := ⟨more - 1, by omega⟩
      have := inductionHypothesis (Nat.le_of_succ_le_succ fewer)
      exact raised_opens.inner (innerAt_around levels) (innerAt_around more)

end Comparison

/-! ### Whole sources -/

namespace Rule

open Comparison

variable {α : Type}

theorem endOfSource_looked (state : ParserState) :
    endOfSource state =
      if (state.token 0).kind = .endOfInput then
        match (state.looked 0).stream.parked with
        | some error =>
            (.error (.lexical error),
              { state.looked 0 with stream := { (state.looked 0).stream with parked := none } })
        | none =>
            (.ok (), { state.looked 0 with stream := { (state.looked 0).stream with parked := none } })
      else
        (.error (.unexpected ((state.looked 0).failure [TokenKind.endOfInput.describe])),
          (state.looked 0).looked 0) :=
  endOfSource_run state

/-- A state in which the failure that ended the tokens is kept aside. -/
structure Parked (state : ParserState) (error : LexError) : Prop where
  ready : state.Ready
  exhausted : state.stream.isExhausted = true
  parked : state.stream.parked = some error

namespace Parked

variable {state : ParserState} {error : LexError}

theorem of_leads {later : ParserState} (leads : state.Leads later)
    (exhausted : later.stream.isExhausted = true) (failure : state.stream.failure = some error) :
    Parked later error := by
  have same := leads.stream.failure
  rw [TokenStream.failure, if_pos exhausted, failure] at same
  exact ⟨leads.ready, exhausted, same⟩

theorem failure (parked : Parked state error) : state.stream.failure = some error := by
  rw [TokenStream.failure, if_pos parked.exhausted, parked.parked]

/-- Behind the whole list nothing more is read. -/
theorem looked (parked : Parked state error) : Parked (state.looked 0) error := by
  refine of_leads (leads_peek parked.ready 0) ?_ parked.failure
  have still := TokenStream.peek_isExhausted parked.ready.sound 0
  rwa [parked.exhausted, Bool.true_or] at still

theorem reported (parked : Parked state error) (failed : ParseError) :
    (reported failed state).1 = .lexical error := by
  simp [Rule.reported, TokenStream.takeLexError, parked.parked]

end Parked

/-- A lexical failure that was met is reported, whatever comes before it. -/
theorem toEnd_of_parked {rule : Rule α} {state : ParserState} {error : LexError}
    (parked : Parked (rule state).2 error) :
    (toEnd rule state).1 = .error (.lexical error) := by
  rw [toEnd_run]
  rcases run : rule state with ⟨failed | value, later⟩
  · rw [run] at parked
    exact congrArg Except.error (parked.reported failed)
  · rw [run] at parked
    dsimp only
    rw [endOfSource_looked, parked.looked.parked]
    by_cases last : (later.token 0).kind = .endOfInput
    · rw [if_pos last]
      rfl
    · rw [if_neg last]
      exact congrArg Except.error (parked.looked.looked.reported _)

/-- The same failure is reported in place of the same one. -/
theorem reported_twin {later later' : ParserState} (twin : later.Twin later') (error : ParseError) :
    (reported error later').1 = (reported error later).1 := by
  unfold reported TokenStream.takeLexError
  rw [twin.parked, twin.furthest]
  cases later.stream.parked with
  | some => rfl
  | none => cases error <;> rfl

/-- At the end of a source and elsewhere, both sides come to the same. -/
theorem endOfSource_twin {later later' : ParserState} (twin : later.Twin later') :
    (∃ last last', endOfSource later = (.ok (), last) ∧ endOfSource later' = (.ok (), last')) ∨
    ∃ error last last', endOfSource later = (.error error, last) ∧
      endOfSource later' = (.error error, last') ∧
      (reported error last').1 = (reported error last).1 := by
  have looked := twin.looked 0
  have run := endOfSource_looked later
  have run' := endOfSource_looked later'
  rw [twin.token 0, looked.parked] at run'
  by_cases ended : (later.token 0).kind = .endOfInput
  · rw [if_pos ended] at run run'
    cases kept : (later.looked 0).stream.parked with
    | none =>
        rw [kept] at run run'
        exact .inl ⟨_, _, run, run'⟩
    | some error =>
        rw [kept] at run run'
        exact .inr ⟨_, _, _, run, run', rfl⟩
  · rw [if_neg ended] at run run'
    refine .inr ⟨_, _, _, run, ?_, reported_twin (looked.looked 0) _⟩
    rw [run', ParserState.failure, ParserState.failure, looked.token 0]

/-- What two runs over the same tokens come to at the end of the source. -/
theorem toEnd_raised [Labelled α] [LawfulLabels α] {rule copy : Rule α} {state other : ParserState}
    (twin : state.Twin other) (abreast : raised.Abreast false rule copy state other)
    (settled : ∀ limit position, (toEnd rule state).1 ≠ .error (.tooDeep limit position)) :
    (toEnd copy other).1 = (toEnd rule state).1 := by
  obtain ⟨safe, safe', verdict⟩ := abreast
  have run := toEnd_run rule state
  have run' := toEnd_run copy other
  rcases left : rule state with ⟨result, later⟩
  rcases right : copy other with ⟨result', later'⟩
  rw [left, right] at verdict
  rw [left] at run
  rw [right] at run'
  cases verdict with
  | done alike behind =>
      obtain rfl := alike.eq_of_refl
      rw [run, run']
      dsimp only
      rcases endOfSource_twin behind with ⟨last, last', stop, stop'⟩ | ⟨error, last, last', stop, stop', same⟩
      · rw [stop, stop']
      · rw [stop, stop']
        exact congrArg Except.error same
  | failed failed =>
      obtain ⟨rfl, behind⟩ := failed
      rw [run, run']
      exact congrArg Except.error (reported_twin behind _)
  | @lost limit position _ _ lossy read =>
      have leads := safe.of_run left
      have leads' := safe'.of_run right
      -- the limit that was met is hidden by a lexical failure
      cases kept : later.stream.parked with
      | none =>
          have met : (toEnd rule state).1 = .error (.tooDeep limit position) := by
            rw [run]
            simp [reported, TokenStream.takeLexError, kept]
          exact absurd met (settled limit position)
      | some error =>
          have exhausted : later.stream.isExhausted = true := by
            by_contra more
            have unparked := leads.ready.sound.unparked (by simpa using more)
            rw [kept] at unparked
            cases unparked
          have parked : Parked later error := ⟨leads.ready, exhausted, kept⟩
          have failure : other.stream.failure = some error := by
            rw [twin.failure, ← leads.stream.failure, parked.failure]
          have all := (TokenStream.isExhausted_iff leads.ready.sound).mp exhausted
          have exhausted' : later'.stream.isExhausted = true := by
            rw [TokenStream.isExhausted_iff leads'.ready.sound]
            have within := later'.stream.size_le_whole
            have whole : later'.stream.whole = later.stream.whole := by
              rw [leads'.stream.whole, twin.whole, leads.stream.whole]
            rw [whole] at within ⊢
            exact Nat.le_antisymm within (all ▸ read)
          have hidden : (toEnd rule state).1 = .error (.lexical error) :=
            toEnd_of_parked (by rw [left]; exact parked)
          have hidden' : (toEnd copy other).1 = .error (.lexical error) :=
            toEnd_of_parked (by rw [right]; exact .of_leads leads' exhausted' failure)
          rw [hidden, hidden']

end Rule

/-- The same settings with another nesting limit. -/
def Settings.withLimit (settings : Settings) (limit : Nat) : Settings :=
  { settings with maxDepth := limit }

namespace Lexer

/-- The same lexer with another nesting limit in its settings. -/
def withLimit (lexer : Lexer) (limit : Nat) : Lexer :=
  { lexer with settings := lexer.settings.withLimit limit }

variable (lexer : Lexer) (limit : Nat)

theorem skipTriviaWith_withLimit (fuel : Nat) :
    skipTriviaWith fuel (lexer.withLimit limit) =
      ((skipTriviaWith fuel lexer).1, (skipTriviaWith fuel lexer).2.withLimit limit) := by
  induction fuel generalizing lexer with
  | zero => rfl
  | succ fuel inductionHypothesis =>
      rw [skipTriviaWith, skipTriviaWith]
      have unread : (lexer.withLimit limit).rest = lexer.rest := rfl
      rw [unread]
      cases Trivia.first lexer.rest with
      | absent => rfl
      | piece taken rest => exact inductionHypothesis (lexer.move taken rest)
      | openComment => rfl

theorem scanLexeme_withLimit (settings : Settings) (fuel : Nat) (chars : List Char) :
    scanLexeme (settings.withLimit limit) fuel chars = scanLexeme settings fuel chars := by
  cases chars <;> rfl

theorem scanToken_withLimit :
    (lexer.withLimit limit).scanToken =
      (lexer.scanToken.1, lexer.scanToken.2.withLimit limit) := by
  have size : (lexer.withLimit limit).size = lexer.size := rfl
  have skipped : (lexer.withLimit limit).skipTrivia =
      (lexer.skipTrivia.1, lexer.skipTrivia.2.withLimit limit) :=
    skipTriviaWith_withLimit lexer limit lexer.bytesAhead
  rw [scanToken, scanToken, size, skipped]
  split
  · rfl
  · rcases lexer.skipTrivia with ⟨error | error, after⟩
    · have settings : (after.withLimit limit).settings = after.settings.withLimit limit := rfl
      have left : (after.withLimit limit).bytesAhead = after.bytesAhead := rfl
      have rest : (after.withLimit limit).rest = after.rest := rfl
      dsimp only
      rw [settings, left, rest, scanLexeme_withLimit]
      cases (scanLexeme after.settings after.bytesAhead after.rest).outcome <;> rfl
    · rfl

theorem nextToken_withLimit :
    (lexer.withLimit limit).nextToken =
      (lexer.nextToken.1, lexer.nextToken.2.withLimit limit) := by
  rw [nextToken, nextToken, scanToken_withLimit]
  rcases lexer.scanToken with ⟨token | error, after⟩ <;> rfl

/-- The nesting limit says nothing about tokens. -/
theorem runWith_withLimit (fuel : Nat) :
    runWith fuel (lexer.withLimit limit) = runWith fuel lexer := by
  induction fuel generalizing lexer with
  | zero => rfl
  | succ fuel inductionHypothesis =>
      rw [runWith, runWith, nextToken_withLimit]
      rcases lexer.nextToken with ⟨error | token, after⟩
      · rfl
      · dsimp only
        rw [inductionHypothesis]

end Lexer

theorem TokenRun.ofSource_withLimit (source : String) (settings : Settings) (limit : Nat) :
    ofSource source (settings.withLimit limit) = ofSource source settings :=
  Lexer.runWith_withLimit (Lexer.ofSource source settings) limit _

/-- At the beginning of a source the limit makes no difference. -/
theorem ParserState.twin_ofSource (source : String) (settings : Settings) (limit : Nat) :
    (ofSource source settings).Twin (ofSource source (settings.withLimit limit)) where
  ready := ready_ofSource source settings
  ready' := ready_ofSource source _
  whole := by
    change (TokenStream.ofSource _ _).whole = (TokenStream.ofSource _ _).whole
    rw [TokenStream.ofSource_whole, TokenStream.ofSource_whole, TokenRun.ofSource_withLimit]
  failure := by
    change (TokenStream.ofSource _ _).failure = (TokenStream.ofSource _ _).failure
    rw [TokenStream.ofSource_failure, TokenStream.ofSource_failure, TokenRun.ofSource_withLimit]
  read := rfl
  cursor := rfl
  source := rfl
  pipes := rfl
  placeholders := rfl
  furthest := rfl

open Rule Comparison

/-- A larger limit changes nothing about an expression unless the smaller one was met. -/
theorem parseExpression_withLimit (source : String) (settings : Settings) {limit : Nat}
    (more : settings.maxDepth ≤ limit)
    (settled : ∀ bound position,
      parseExpression source settings ≠ .error (.tooDeep bound position)) :
    parseExpression source (settings.withLimit limit) = parseExpression source settings := by
  have levels := innerAt_raised more
  have twin := ParserState.twin_ofSource source settings limit
  have inStep : InStep raised true (innerAt settings.maxDepth).expr (innerAt limit).expr :=
    inferInstance
  unfold parseExpression at settled ⊢
  rw [parseExpression_run] at settled ⊢
  rw [parseExpression_run]
  exact toEnd_raised twin (inStep.abreast twin fun _ => trivial) settled

/-- A larger limit changes nothing about a statement unless the smaller one was met. -/
theorem parseStatement_withLimit (source : String) (settings : Settings) {limit : Nat}
    (more : settings.maxDepth ≤ limit)
    (settled : ∀ bound position,
      parseStatement source settings ≠ .error (.tooDeep bound position)) :
    parseStatement source (settings.withLimit limit) = parseStatement source settings := by
  have levels := innerAt_raised more
  have twin := ParserState.twin_ofSource source settings limit
  have inStep : InStep raised true (statementTokens settings.maxDepth) (statementTokens limit) := by
    unfold statementTokens
    infer_instance
  have same : (toEnd (statementTokens limit) _).1 = (toEnd (statementTokens settings.maxDepth) _).1 :=
    toEnd_raised twin (inStep.abreast twin fun _ => trivial) fun bound position deep =>
      settled bound position (by rw [parseStatement_eq, deep])
  have ahead : (Spot.ofSource source (settings.withLimit limit)).ahead =
      (Spot.ofSource source settings).ahead := twin.ahead
  have levelsLeft : (settings.withLimit limit).maxDepth = limit := rfl
  rw [parseStatement_eq, parseStatement_eq, ahead, levelsLeft, same]

/-- Raising the nesting limit never changes a settled outcome: where the smaller limit was not met,
statements and expressions come out the same. -/
theorem settled_under_larger_limit (source : String) (settings : Settings) (limit : Nat)
    (more : settings.maxDepth ≤ limit) :
    ((∀ bound position, parseStatement source settings ≠ .error (.tooDeep bound position)) →
      parseStatement source (settings.withLimit limit) = parseStatement source settings) ∧
    ((∀ bound position, parseExpression source settings ≠ .error (.tooDeep bound position)) →
      parseExpression source (settings.withLimit limit) = parseExpression source settings) :=
  ⟨parseStatement_withLimit source settings more, parseExpression_withLimit source settings more⟩

/-- Behind a select, two pairs of parentheses need four levels; without it they need three. -/
theorem parentheses_settled :
    parseStatement "SELECT ((1))" (({} : Settings).withLimit 9) =
        parseStatement "SELECT ((1))" (({} : Settings).withLimit 4) ∧
      (parseStatement "SELECT ((1))" (({} : Settings).withLimit 4)).toOption.isSome = true ∧
      (parseStatement "SELECT ((1))" (({} : Settings).withLimit 3)).toOption.isSome = false ∧
      parseExpression "((1))" (({} : Settings).withLimit 9) =
        parseExpression "((1))" (({} : Settings).withLimit 3) := by
  have read : (parseStatement "SELECT ((1))" (({} : Settings).withLimit 4)).toOption.isSome = true := by
    decide +kernel
  have accepted : (parseExpression "((1))" (({} : Settings).withLimit 3)).toOption.isSome = true := by
    decide +kernel
  refine ⟨?_, read, by decide +kernel, ?_⟩
  · refine (settled_under_larger_limit "SELECT ((1))" (({} : Settings).withLimit 4) 9 (by decide)).1
      fun bound position deep => ?_
    rw [deep] at read
    cases read
  · refine (settled_under_larger_limit "((1))" (({} : Settings).withLimit 3) 9 (by decide)).2
      fun bound position deep => ?_
    rw [deep] at accepted
    cases accepted

end SqlDml
