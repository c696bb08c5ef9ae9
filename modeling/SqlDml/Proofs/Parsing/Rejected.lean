import SqlDml.Proofs.Nesting.Raised
import SqlDml.Proofs.Rules.Built

/-!
Contract: a rejected alternative leaves no trace.

Owns:
- where a rule that is built leads, and that it keeps the nesting depth, whatever it comes to;
- states at the same place, which differ in what was looked at, in what is kept of rejected
  alternatives and in what is counted, and that no rule can tell them apart;
- what is left of a parse behind a rule: rules that go on, nesting levels that are left, and
  alternatives that are decided;
- behind a rejected alternative a parse goes on as if the alternative had not been tried.

Does not own: which failure is reported in the end.
-/

namespace SqlDml

/-! ### Streams -/

namespace TokenStream

/-- What was read stays read. -/
theorem Leads.buffer_prefix {stream later : TokenStream} (leads : stream.Leads later) :
    stream.buffer.toList <+: later.buffer.toList := by
  rw [← take_whole, ← take_whole later, leads.whole]
  exact List.take_prefix_take_left leads.read

end TokenStream

namespace ParserState

variable {α : Type}

/-- The state behind a lexical failure that was handed out. -/
def handedOut (state : ParserState) : ParserState :=
  { state with stream := state.stream.takeLexError.2 }

/-- What is kept of rejected alternatives only tells of tokens that were read. -/
theorem Ready.handedOut {state : ParserState} (ready : state.Ready) : state.handedOut.Ready :=
  ⟨ready.sound.takeLexError, ready.recalls.described, ready.recalls.furthest⟩

/-! ### Where a rule leads -/

/-- Where a run from a state has led: to a later state of the same parse, and if it failed, to a token
that was read.  Only a lexical failure, which is handed out once, is no longer behind the tokens. -/
inductive Landed (start : ParserState) : Except ParseError α × ParserState → Prop
  | read {value : α} {later : ParserState} (leads : start.Leads later) :
      Landed start (.ok value, later)
  | failed {error : ParseError} {later : ParserState} (leads : start.Leads later)
      (located : later.Locates error) : Landed start (.error error, later)
  | lexical {error : LexError} {later : ParserState} (ready : later.Ready) :
      Landed start (.error (.lexical error), later)

namespace Landed

variable {start middle : ParserState} {result : Except ParseError α × ParserState}

theorem ready (landed : start.Landed result) : result.2.Ready := by
  cases landed with
  | read leads | failed leads => exact leads.ready
  | lexical ready => exact ready

theorem of_leads (leads : start.Leads middle) (landed : middle.Landed result) :
    start.Landed result := by
  cases landed with
  | read behind => exact .read (leads.trans behind)
  | failed behind located => exact .failed (leads.trans behind) located
  | lexical ready => exact .lexical ready

theorem of_safe {rule : Rule α} {state : ParserState} (safe : rule.Safe state) :
    state.Landed (rule state) := by
  unfold Rule.Safe at safe
  rcases run : rule state with ⟨error | value, later⟩
  · rw [run] at safe
    exact .failed safe.1 safe.2
  · rw [run] at safe
    exact .read safe

/-- A failure leads to the same place whatever the value would have been. -/
theorem fails {β : Type} {error : ParseError} {later : ParserState}
    (landed : start.Landed ((.error error : Except ParseError α), later)) :
    start.Landed ((.error error : Except ParseError β), later) := by
  cases landed with
  | failed leads located => exact .failed leads located
  | lexical ready => exact .lexical ready

theorem leads_of_ok {value : α} {later : ParserState} (landed : start.Landed (.ok value, later)) :
    start.Leads later := by
  cases landed
  assumption

/-- An unexpected token was read. -/
theorem unexpected {error : SyntaxError} {later : ParserState}
    (landed : start.Landed ((.error (.unexpected error) : Except ParseError α), later)) :
    start.Leads later ∧ later.Describes error := by
  cases landed with
  | failed leads located => exact ⟨leads, located⟩

/-- Leaving a nesting level behind a run. -/
theorem left {outcome : Except ParseError α} {later : ParserState}
    (landed : start.Landed (outcome, later)) : start.Landed (outcome, later.left) := by
  cases landed with
  | read leads => exact .read ⟨leads.ready.alike rfl rfl rfl, leads.stream, leads.settings, leads.source⟩
  | failed leads located =>
      exact .failed ⟨leads.ready.alike rfl rfl rfl, leads.stream, leads.settings, leads.source⟩ located
  | lexical ready => exact .lexical (ready.alike rfl rfl rfl)

end Landed

end ParserState

namespace Rule

variable {α β σ : Type} {rule : Rule α} {next : α → Rule β} {state : ParserState}

theorem landed_bind (front : state.Landed (rule state))
    (behind : ∀ value later, rule state = (.ok value, later) → later.Landed (next value later)) :
    state.Landed ((rule >>= next) state) := by
  rw [bind_run]
  rcases run : rule state with ⟨error | value, later⟩
  · rw [run] at front
    exact front.fails
  · rw [run] at front
    exact (behind value later run).of_leads front.leads_of_ok

theorem landed_attempt (ready : state.Ready) (front : state.Landed (rule state)) :
    state.Landed (attempt rule state) := by
  rw [attempt_run]
  rcases run : rule state with ⟨(lexical | error | tooDeep) | value, later⟩ <;> rw [run] at front
  · exact front.fails
  · obtain ⟨leads, described⟩ := front.unexpected
    exact .read (leads_resumed ready leads described)
  · exact front.fails
  · exact .read front.leads_of_ok

theorem landed_enter (ready : state.Ready) (inside : state.entered.Landed (rule state.entered)) :
    state.Landed (enter rule state) := by
  have opened : state.Leads state.entered := ⟨ready.alike rfl rfl rfl, .refl _, rfl, rfl⟩
  rw [enter_run]
  exact (inside.of_leads opened).left

theorem landed_iterate {step : σ → Rule (Option σ)}
    (steps : ∀ value (state : ParserState), state.Ready → state.Landed (step value state))
    (fuel : Nat) (value : σ) (ready : state.Ready) :
    state.Landed (iterate step fuel value state) := by
  induction fuel generalizing value state with
  | zero => exact .read (.refl ready)
  | succ fuel inductionHypothesis =>
      refine landed_bind (steps value state ready) fun found later run => ?_
      have laterReady := (steps value state ready).ready
      rw [run] at laterReady
      cases found with
      | none => exact .read (.refl laterReady)
      | some next => exact inductionHypothesis next laterReady

/-- The end of the source hands out the failure that ended the tokens, if there is one. -/
theorem landed_endOfSource (ready : state.Ready) : state.Landed (endOfSource state) := by
  have looked := leads_peek ready 0
  rw [endOfSource_run]
  split
  · split
    · exact .lexical looked.ready.handedOut
    · next unparked =>
        have same : { (state.stream.peek 0).2 with parked := none } = (state.stream.peek 0).2 := by
          rw [← unparked]
        rw [same]
        exact .read looked
  · exact .of_leads looked (.of_safe (.of_lawful _ looked.ready))

theorem Basic.landed (basic : Basic rule) (ready : state.Ready) : state.Landed (rule state) := by
  cases basic with
  | endOfSource => exact landed_endOfSource ready
  | _ => exact .of_safe (.of_lawful _ ready)

/-- Wherever a rule that is built begins, it leads on. -/
theorem Built.landed (built : rule.Built) (ready : state.Ready) : state.Landed (rule state) := by
  induction built generalizing state with
  | basic basic => exact basic.landed ready
  | bind _ _ front behind =>
      refine landed_bind (front ready) fun value later run => behind value ?_
      have landed := front ready
      rw [run] at landed
      exact landed.ready
  | attempt _ inside => exact landed_attempt ready (inside ready)
  | enter _ inside => exact landed_enter ready (inside (ready.alike rfl rfl rfl))
  | levels _ behind =>
      rw [bind_run, innerRules_run]
      exact behind _ ready
  | whileSome _ _ first steps => exact landed_iterate (fun value _ => steps value) _ first ready

/-! ### The nesting depth -/

theorem iterate_depth {step : σ → Rule (Option σ)}
    (steps : ∀ value (state : ParserState), (step value state).2.depth = state.depth) (fuel : Nat)
    (value : σ) (state : ParserState) : (iterate step fuel value state).2.depth = state.depth := by
  induction fuel generalizing value state with
  | zero => rfl
  | succ fuel inductionHypothesis =>
      have first := steps value state
      rw [iterate, bind_run]
      rcases run : step value state with ⟨error | found, later⟩
      · rw [run] at first
        exact first
      · rw [run] at first
        cases found with
        | none => exact first
        | some next => exact (inductionHypothesis next later).trans first

theorem Basic.depth (basic : Basic rule) (state : ParserState) :
    (rule state).2.depth = state.depth := by
  cases basic with
  | endOfSource =>
      rw [endOfSource_run]
      split
      · split <;> rfl
      · rfl
  | _ => rfl

/-- Whatever a rule that is built comes to, as many nesting levels are open as before. -/
theorem Built.depth (built : rule.Built) (state : ParserState) :
    (rule state).2.depth = state.depth := by
  induction built generalizing state with
  | basic basic => exact basic.depth state
  | @bind _ _ rule next _ _ front behind =>
      have first := front state
      rw [bind_run]
      rcases run : rule state with ⟨error | value, later⟩
      · rw [run] at first
        exact first
      · rw [run] at first
        exact (behind value later).trans first
  | @attempt _ rule _ inside =>
      have first := inside state
      rw [attempt_run]
      rcases run : rule state with ⟨(lexical | unexpected | tooDeep) | value, later⟩ <;>
        rw [run] at first
      · exact first
      · rfl
      · exact first
      · exact first
  | @enter _ rule _ inside =>
      have opened : (rule state.entered).2.depth = state.depth + 1 := inside state.entered
      rw [enter_run]
      exact congrArg (· - 1) opened
  | levels _ behind =>
      rw [bind_run, innerRules_run]
      exact behind _ state
  | whileSome _ _ first steps => exact iterate_depth steps _ first state

end Rule

/-! ### States that no rule can tell apart -/

/-- States at the same place of a source: the same tokens are consumed and left, as many levels are
open and as many markers are numbered.  How far the tokens were read, which alternatives were rejected
and how often the nesting limit was met may differ. -/
structure ParserState.SamePlace (state other : ParserState) : Prop where
  ready : state.Ready
  ready' : other.Ready
  whole : other.stream.whole = state.stream.whole
  failure : other.stream.failure = state.stream.failure
  cursor : other.stream.cursor = state.stream.cursor
  settings : other.settings = state.settings
  source : other.source = state.source
  depth : other.depth = state.depth
  placeholders : other.placeholders = state.placeholders

namespace ParserState.SamePlace

variable {state other : ParserState}

theorem refl (ready : state.Ready) : state.SamePlace state :=
  ⟨ready, ready, rfl, rfl, rfl, rfl, rfl, rfl, rfl⟩

theorem ahead (same : state.SamePlace other) : other.stream.ahead = state.stream.ahead :=
  TokenStream.ahead_eq_of_whole same.whole same.cursor

theorem token (same : state.SamePlace other) (ahead : Nat) :
    other.token ahead = state.token ahead := by
  obtain ⟨seen, _⟩ := TokenStream.peek_spec same.ready.sound ahead
  obtain ⟨seen', _⟩ := TokenStream.peek_spec same.ready'.sound ahead
  rw [ParserState.token, ParserState.token, seen, seen', same.ahead,
    TokenStream.stop_eq_of_whole same.whole]

/-- Two later streams of the same place are at the same place when they are equally far. -/
theorem of_leads {later later' : ParserState} (same : state.SamePlace other)
    (leads : state.Leads later) (leads' : other.Leads later')
    (cursor : later'.stream.cursor = later.stream.cursor) (depth : later'.depth = later.depth)
    (placeholders : later'.placeholders = later.placeholders) : later.SamePlace later' where
  ready := leads.ready
  ready' := leads'.ready
  whole := leads'.stream.whole.trans (same.whole.trans leads.stream.whole.symm)
  failure := leads'.stream.failure.trans (same.failure.trans leads.stream.failure.symm)
  cursor := cursor
  settings := leads'.settings.trans (same.settings.trans leads.settings.symm)
  source := leads'.source.trans (same.source.trans leads.source.symm)
  depth := depth
  placeholders := placeholders

theorem looked (same : state.SamePlace other) (ahead : Nat) :
    (state.looked ahead).SamePlace (other.looked ahead) := by
  obtain ⟨_, _, _, cursor, _⟩ := TokenStream.peek_spec same.ready.sound ahead
  obtain ⟨_, _, _, cursor', _⟩ := TokenStream.peek_spec same.ready'.sound ahead
  exact same.of_leads (Rule.leads_peek same.ready ahead) (Rule.leads_peek same.ready' ahead)
    (cursor'.trans (same.cursor.trans cursor.symm)) same.depth same.placeholders

theorem stepped (same : state.SamePlace other) : state.stepped.SamePlace other.stepped := by
  have cursor : other.stepped.stream.cursor = state.stepped.stream.cursor := by
    rw [stepped_eq, stepped_eq, same.token 0]
    split
    · exact (same.looked 0).cursor
    · exact congrArg (· + 1) (same.looked 0).cursor
  exact same.of_leads (leads_stepped same.ready) (leads_stepped same.ready') cursor same.depth
    same.placeholders

theorem numbered (same : state.SamePlace other) : state.numbered.SamePlace other.numbered :=
  { same with
    ready := same.ready.alike rfl rfl rfl
    ready' := same.ready'.alike rfl rfl rfl
    placeholders := congrArg (· + 1) same.placeholders }

theorem entered (same : state.SamePlace other) : state.entered.SamePlace other.entered :=
  { same with
    ready := same.ready.alike rfl rfl rfl
    ready' := same.ready'.alike rfl rfl rfl
    depth := congrArg (· + 1) same.depth }

theorem left (same : state.SamePlace other) : state.left.SamePlace other.left :=
  { same with
    ready := same.ready.alike rfl rfl rfl
    ready' := same.ready'.alike rfl rfl rfl
    depth := congrArg (· - 1) same.depth }

/-- Where all tokens are read a failure is kept aside on both sides or on none. -/
theorem parked (same : state.SamePlace other) (all : state.stream.isExhausted = true)
    (all' : other.stream.isExhausted = true) : other.stream.parked = state.stream.parked := by
  have failure := same.failure
  rwa [TokenStream.failure, TokenStream.failure, if_pos all, if_pos all'] at failure

theorem handedOut (same : state.SamePlace other) (all : state.stream.isExhausted = true)
    (all' : other.stream.isExhausted = true) : state.handedOut.SamePlace other.handedOut :=
  { same with
    ready := same.ready.handedOut
    ready' := same.ready'.handedOut
    failure := (if_pos all').trans (if_pos all).symm }

/-- The nesting limit is counted, and nothing else. -/
theorem tripped (same : state.SamePlace other) :
    ParserState.SamePlace { state with depthTrips := state.depthTrips + 1 }
      { other with depthTrips := other.depthTrips + 1 } :=
  { same with
    ready := same.ready.alike rfl rfl rfl
    ready' := same.ready'.alike rfl rfl rfl }

/-- Alternatives that began at the same place go back there. -/
theorem resumed {later later' : ParserState} {error : SyntaxError} (same : state.SamePlace other)
    (leads : state.Leads later) (leads' : other.Leads later') (located : later.Describes error)
    (located' : later'.Describes error) :
    (state.resumed later error).SamePlace (other.resumed later' error) := by
  have cursor : (state.resumed later error).stream.cursor = state.stream.cursor :=
    Nat.min_eq_left leads.stream.cursor
  have cursor' : (other.resumed later' error).stream.cursor = other.stream.cursor :=
    Nat.min_eq_left leads'.stream.cursor
  exact same.of_leads (Rule.leads_resumed same.ready leads located)
    (Rule.leads_resumed same.ready' leads' located') (cursor'.trans (same.cursor.trans cursor.symm))
    same.depth same.placeholders

end ParserState.SamePlace

namespace Rule

variable {α β σ : Type} {rule : Rule α} {next : α → Rule β}

/-- A rule that cannot tell states at the same place apart: it comes to the same, and leaves states
at the same place. -/
def Indifferent (rule : Rule α) : Prop :=
  ∀ state other : ParserState, state.SamePlace other →
    (rule other).1 = (rule state).1 ∧ (rule state).2.SamePlace (rule other).2

/-- What two runs come to that begin at the same place. -/
theorem Indifferent.runs (indifferent : rule.Indifferent) {state other later later' : ParserState}
    {outcome outcome' : Except ParseError α} (same : state.SamePlace other)
    (run : rule state = (outcome, later)) (run' : rule other = (outcome', later')) :
    outcome' = outcome ∧ later.SamePlace later' := by
  have both := indifferent state other same
  rwa [run, run'] at both

theorem Indifferent.bind (front : rule.Indifferent) (behind : ∀ value, (next value).Indifferent) :
    (rule >>= next).Indifferent := by
  intro state other same
  rw [bind_run, bind_run]
  rcases run : rule state with ⟨outcome, later⟩
  rcases run' : rule other with ⟨outcome', later'⟩
  obtain ⟨rfl, place⟩ := front.runs same run run'
  cases outcome' with
  | error error => exact ⟨rfl, place⟩
  | ok value => exact behind value later later' place

theorem Indifferent.attempt (built : rule.Built) (inside : rule.Indifferent) :
    (attempt rule).Indifferent := by
  intro state other same
  have landed := built.landed same.ready
  have landed' := built.landed same.ready'
  rw [attempt_run, attempt_run]
  rcases run : rule state with ⟨outcome, later⟩
  rcases run' : rule other with ⟨outcome', later'⟩
  rw [run] at landed
  rw [run'] at landed'
  obtain ⟨rfl, place⟩ := inside.runs same run run'
  rcases outcome' with (lexical | unexpected | tooDeep) | value
  · exact ⟨rfl, place⟩
  · obtain ⟨leads, described⟩ := landed.unexpected
    obtain ⟨leads', described'⟩ := landed'.unexpected
    exact ⟨rfl, same.resumed leads leads' described described'⟩
  · exact ⟨rfl, place⟩
  · exact ⟨rfl, place⟩

theorem Indifferent.enter (inside : rule.Indifferent) : (enter rule).Indifferent := by
  intro state other same
  obtain ⟨outcome, place⟩ := inside state.entered other.entered same.entered
  rw [enter_run, enter_run]
  exact ⟨outcome, place.left⟩

/-- With room for every token that is left, how much room there is makes no difference. -/
theorem iterate_indifferent {step : σ → Rule (Option σ)}
    (steps : ∀ value, (step value).Indifferent)
    (shortens : ∀ (value next : σ) (state later : ParserState), state.Ready →
      step value state = (.ok (some next), later) →
        later.spot.ahead.length < state.spot.ahead.length)
    (fuel fuel' : Nat) (value : σ) {state other : ParserState} (same : state.SamePlace other)
    (room : state.spot.ahead.length < fuel) (room' : state.spot.ahead.length < fuel') :
    (iterate step fuel' value other).1 = (iterate step fuel value state).1 ∧
      (iterate step fuel value state).2.SamePlace (iterate step fuel' value other).2 := by
  induction fuel generalizing fuel' value state other with
  | zero => exact absurd room (Nat.not_lt_zero _)
  | succ fuel inductionHypothesis =>
      obtain ⟨less, rfl⟩ : ∃ less, fuel' = less + 1 := ⟨fuel' - 1, by omega⟩
      rw [iterate, iterate, bind_run, bind_run]
      rcases run : step value state with ⟨outcome, later⟩
      rcases run' : step value other with ⟨outcome', later'⟩
      obtain ⟨rfl, place⟩ := (steps value).runs same run run'
      rcases outcome' with error | (_ | next)
      · exact ⟨rfl, place⟩
      · exact ⟨rfl, place⟩
      · have shorter := shortens value next state later same.ready run
        exact inductionHypothesis less next place (by omega) (by omega)

theorem fail_indifferent (expected : List String) : (fail expected : Rule α).Indifferent := by
  intro state other same
  refine ⟨?_, same.looked 0⟩
  have token := same.token 0
  change Except.error (ParseError.unexpected (other.failure expected)) =
    .error (.unexpected (state.failure expected))
  rw [ParserState.failure, ParserState.failure, token]

theorem tooDeep_indifferent : (tooDeep : Rule α).Indifferent := by
  intro state other same
  refine ⟨?_, same.tripped.looked 0⟩
  have token : (other.token 0).span = (state.token 0).span := congrArg Token.span (same.token 0)
  change Except.error (ParseError.tooDeep other.settings.maxDepth (other.token 0).span.position) =
    .error (.tooDeep state.settings.maxDepth (state.token 0).span.position)
  rw [token, same.settings]

/-- The end of the source is reached on both sides or on none, and a lexical failure is handed out on
both or on none. -/
theorem endOfSource_indifferent : endOfSource.Indifferent := by
  intro state other same
  have looked := same.looked 0
  have token : (other.stream.peek 0).1 = (state.stream.peek 0).1 := same.token 0
  rw [endOfSource_run, endOfSource_run, token]
  split
  · next ended =>
      have all := TokenStream.isExhausted_of_peek same.ready.sound ended
      have all' := TokenStream.isExhausted_of_peek same.ready'.sound (token ▸ ended)
      have parked : (other.stream.peek 0).2.parked = (state.stream.peek 0).2.parked :=
        looked.parked all all'
      have handedOut := looked.handedOut all all'
      rw [parked]
      split <;> exact ⟨rfl, handedOut⟩
  · exact fail_indifferent _ _ _ looked

theorem Basic.indifferent (basic : Basic rule) : rule.Indifferent := by
  intro state other same
  cases basic with
  | pure => exact ⟨rfl, same⟩
  | peekToken ahead => exact ⟨congrArg Except.ok (same.token ahead), same.looked ahead⟩
  | advance =>
      rw [ParserState.advance_run, ParserState.advance_run]
      exact ⟨congrArg Except.ok (same.token 0), same.stepped⟩
  | previousSpan =>
      exact ⟨congrArg Except.ok (TokenStream.previousSpan_eq_of_whole same.ready.sound
        same.ready'.sound same.whole same.cursor), same⟩
  | sourceChars => exact ⟨congrArg Except.ok same.source, same⟩
  | currentSettings => exact ⟨congrArg Except.ok same.settings, same⟩
  | nextPlaceholder => exact ⟨congrArg Except.ok same.placeholders, same.numbered⟩
  | fail expected => exact fail_indifferent expected state other same
  | tooDeep => exact tooDeep_indifferent state other same
  | endOfSource => exact endOfSource_indifferent state other same

/-- No rule that is built can tell states at the same place apart. -/
theorem Built.indifferent (built : rule.Built) : rule.Indifferent := by
  induction built with
  | basic basic => exact basic.indifferent
  | bind _ _ front behind => exact front.bind behind
  | attempt built inside => exact inside.attempt built
  | enter _ inside => exact inside.enter
  | levels _ behind =>
      intro state other same
      rw [bind_run, bind_run, innerRules_run, innerRules_run, same.settings, same.depth]
      exact behind _ state other same
  | whileSome _ shortens first steps =>
      intro state other same
      refine iterate_indifferent steps shortens _ _ first same
        (TokenStream.length_ahead_lt_tokensAhead same.ready.sound) ?_
      have room := TokenStream.length_ahead_lt_tokensAhead same.ready'.sound
      rwa [same.ahead] at room

end Rule

/-! ### What is left of a parse -/

open Rule

/-- A state that a parse can come to: one at the beginning of a source, behind a rule whatever that
came to, or inside one more nesting level. -/
inductive ParserState.Reachable : ParserState → Prop
  | start (source : String) (settings : Settings) : Reachable (.ofSource source settings)
  | behind {α : Type} {rule : Rule α} {state : ParserState} (reachable : Reachable state)
      (built : rule.Built) : Reachable (rule state).2
  | inside {state : ParserState} (reachable : Reachable state) : Reachable state.entered

theorem ParserState.Reachable.ready {state : ParserState} (reachable : state.Reachable) :
    state.Ready := by
  induction reachable with
  | start source settings => exact ready_ofSource source settings
  | behind _ built ready => exact (built.landed ready).ready
  | inside _ ready => exact ready.alike rfl rfl rfl

/-- What is left of a parse behind a rule: to go on with its value, to leave a nesting level, and to
decide an alternative that began in a state. -/
inductive Pending : Type → Type → Type 1 where
  | nothing {α : Type} : Pending α α
  | goOn {α β γ : Type} (next : α → Rule β) (built : ∀ value, (next value).Built)
      (rest : Pending β γ) : Pending α γ
  | level {α γ : Type} (rest : Pending α γ) : Pending α γ
  | alternative {α γ : Type} (start : ParserState) (rest : Pending (Option α) γ) : Pending α γ

namespace Pending

variable {α γ : Type}

/-- Goes on behind a run. -/
def run {α γ : Type} :
    Pending α γ → Except ParseError α × ParserState → Except ParseError γ × ParserState
  | .nothing, result => result
  | .goOn next _ rest, (.ok value, later) => rest.run (next value later)
  | .goOn _ _ rest, (.error error, later) => rest.run (.error error, later)
  | .level rest, (outcome, later) => rest.run (outcome, later.left)
  | .alternative _ rest, (.ok value, later) => rest.run (.ok (some value), later)
  | .alternative start rest, (.error (.unexpected error), later) =>
      rest.run (.ok none, start.resumed later error)
  | .alternative _ rest, (.error error, later) => rest.run (.error error, later)

/-- The alternatives that are to be decided began in states that have led here. -/
def Began {α γ : Type} : Pending α γ → ParserState → Prop
  | .nothing, _ => True
  | .goOn _ _ rest, state => rest.Began state
  | .level rest, state => rest.Began state
  | .alternative start rest, state => start.Reachable ∧ start.Leads state ∧ rest.Began start

/-- Two runs that come to the same at the same place have the same left of them. -/
theorem run_eq (rest : Pending α γ) {base later later' : ParserState}
    {outcome : Except ParseError α} (began : rest.Began base) (landed : base.Landed (outcome, later))
    (landed' : base.Landed (outcome, later')) (same : later.SamePlace later') :
    (rest.run (outcome, later')).1 = (rest.run (outcome, later)).1 := by
  induction rest generalizing base later later' with
  | nothing => rfl
  | goOn next built rest inductionHypothesis =>
      cases outcome with
      | error error => exact inductionHypothesis began landed.fails landed'.fails same
      | ok value =>
          have leads := landed.leads_of_ok
          have leads' := landed'.leads_of_ok
          have behind := ((built value).landed leads.ready).of_leads leads
          have behind' := ((built value).landed leads'.ready).of_leads leads'
          rw [Pending.run, Pending.run]
          rcases run : next value later with ⟨reached, last⟩
          rcases run' : next value later' with ⟨reached', last'⟩
          rw [run] at behind
          rw [run'] at behind'
          obtain ⟨rfl, place⟩ := (built value).indifferent.runs same run run'
          exact inductionHypothesis began behind behind' place
  | level rest inductionHypothesis =>
      exact inductionHypothesis began landed.left landed'.left same.left
  | alternative start rest inductionHypothesis =>
      obtain ⟨reachable, opened, began⟩ := began
      have outside := landed.of_leads opened
      have outside' := landed'.of_leads opened
      rcases outcome with (lexical | error | tooDeep) | value
      · exact inductionHypothesis began outside.fails outside'.fails same
      · -- both sides go back to where the alternative began
        obtain ⟨leads, described⟩ := outside.unexpected
        obtain ⟨leads', described'⟩ := outside'.unexpected
        have back := leads_resumed reachable.ready leads described
        have back' := leads_resumed reachable.ready leads' described'
        exact inductionHypothesis began (.read back) (.read back')
          ((ParserState.SamePlace.refl reachable.ready).resumed leads leads' described described')
      · exact inductionHypothesis began outside.fails outside'.fails same
      · exact inductionHypothesis began (.read outside.leads_of_ok) (.read outside'.leads_of_ok) same

end Pending

/-- A rejected alternative leaves no trace.  From every state that a parse can come to, a rule that is
built leaves as many nesting levels open as before, whatever it comes to.  When it meets an unexpected
token as an alternative, the cursor, the nesting depth and the numbering of markers are as before, no
token that was read is lost, and all that is left of the parse comes to what it would have come to
without the alternative. -/
theorem rejected_alternative_leaves_no_trace {state : ParserState} (reachable : state.Reachable)
    {α : Type} {rule : Rule α} (built : rule.Built) :
    (rule state).2.depth = state.depth ∧
    ∀ error later, rule state = (.error (.unexpected error), later) →
      ∃ resumed, attempt rule state = (.ok none, resumed) ∧
        resumed.stream.cursor = state.stream.cursor ∧ resumed.depth = state.depth ∧
        resumed.placeholders = state.placeholders ∧
        state.stream.buffer.toList <+: resumed.stream.buffer.toList ∧
        ∀ {γ : Type} (rest : Pending (Option α) γ), rest.Began state →
          (rest.run (.ok none, resumed)).1 = (rest.run (.ok none, state)).1 := by
  refine ⟨built.depth state, fun error later run => ?_⟩
  have ready := reachable.ready
  have landed := built.landed ready
  rw [run] at landed
  obtain ⟨leads, described⟩ := landed.unexpected
  have back := leads_resumed ready leads described
  have cursor : (state.resumed later error).stream.cursor = state.stream.cursor :=
    Nat.min_eq_left leads.stream.cursor
  have same : state.SamePlace (state.resumed later error) :=
    (ParserState.SamePlace.refl ready).of_leads (.refl ready) back cursor rfl rfl
  refine ⟨state.resumed later error, by rw [attempt_run, run], cursor, rfl, rfl,
    back.stream.buffer_prefix, fun rest began => ?_⟩
  exact rest.run_eq began (.read (.refl ready)) (.read back) same

/-- The form with `USING` is rejected behind a marker and a comparison; a single table is read as if it
had not been tried. -/
theorem rejected_using_leaves_no_trace :
    let state := (expectWord .FROM (expectWord .DELETE
      (ParserState.ofSource "DELETE FROM t USING t JOIN u ON ? = )" {})).2).2
    ∃ error later resumed, deleteUsing (innerAt 8) state = (.error (.unexpected error), later) ∧
      (later.stream.cursor, later.placeholders) = (10, 1) ∧
      attempt (deleteUsing (innerAt 8)) state = (.ok none, resumed) ∧
      (resumed.stream.cursor, resumed.depth, resumed.placeholders) = (2, 0, 0) ∧
      (deleteTable resumed).1 = (deleteTable state).1 := by
  intro state
  have reachable : state.Reachable := .behind (.behind (.start _ _) inferInstance) inferInstance
  have trace := (rejected_alternative_leaves_no_trace reachable
    (inferInstance : (deleteUsing (innerAt 8)).Built)).2
  have rejected : (match (deleteUsing (innerAt 8) state).1 with
      | .error error => error.isUnexpected
      | .ok _ => false) = true := by
    decide +kernel
  have consumed : ((deleteUsing (innerAt 8) state).2.stream.cursor,
      (deleteUsing (innerAt 8) state).2.placeholders) = (10, 1) := by
    decide +kernel
  have began : (state.stream.cursor, state.depth, state.placeholders) = (2, 0, 0) := by
    decide +kernel
  rcases run : deleteUsing (innerAt 8) state with ⟨(lexical | error | tooDeep) | form, later⟩ <;>
    rw [run] at rejected consumed
  case error.unexpected =>
    obtain ⟨resumed, tried, cursor, depth, placeholders, _, behind⟩ := trace error later run
    have same := behind (.goOn (fun _ => deleteTable) (fun _ => inferInstance) .nothing) trivial
    refine ⟨error, later, resumed, rfl, consumed, tried, ?_, same⟩
    rw [cursor, depth, placeholders, began]
  all_goals cases rejected

end SqlDml
