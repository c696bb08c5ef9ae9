import SqlDml.Proofs.Rules.Spot

/-!
Contract: what a rule does, as a function of the spot it begins at.

Owns:
- the outcome of a rule at a spot: a value and the next spot, no match, or too deep a nesting;
- lawful rules, whose outcome in every state is read off the spot of the state;
- the outcome of each combinator from the outcomes of its parts.

Does not own: repetition, and the rules of the language.
-/

namespace SqlDml

/-- What a rule comes to at a spot. -/
inductive Outcome (α : Type) where
  | done (value : α) (spot : Spot)
  /-- The rule met a token that it does not go on with. -/
  | stuck
  /-- The rule met the nesting limit. -/
  | deep

namespace Outcome

/-- Goes on from a value and a spot. -/
def bind {α β : Type} (outcome : Outcome α) (next : α → Spot → Outcome β) : Outcome β :=
  match outcome with
  | .done value spot => next value spot
  | .stuck => .stuck
  | .deep => .deep

variable {α β γ : Type}

@[simp] theorem bind_done (value : α) (spot : Spot) (next : α → Spot → Outcome β) :
    (done value spot).bind next = next value spot := rfl

@[simp] theorem bind_stuck (next : α → Spot → Outcome β) : stuck.bind next = .stuck := rfl

@[simp] theorem bind_deep (next : α → Spot → Outcome β) : deep.bind next = .deep := rfl

theorem ite_bind (condition : Prop) [Decidable condition] (left right : Outcome α)
    (next : α → Spot → Outcome β) :
    (if condition then left else right).bind next =
      if condition then left.bind next else right.bind next := by
  split <;> rfl

@[simp] theorem bind_eq_done {outcome : Outcome α} {next : α → Spot → Outcome β} {value : β}
    {spot : Spot} :
    outcome.bind next = .done value spot ↔
      ∃ first middle, outcome = .done first middle ∧ next first middle = .done value spot := by
  cases outcome <;> simp [bind]

theorem bind_assoc (outcome : Outcome α) (next : α → Spot → Outcome β)
    (last : β → Spot → Outcome γ) :
    (outcome.bind next).bind last = outcome.bind fun value spot => (next value spot).bind last := by
  cases outcome <;> rfl

end Outcome

namespace Rule

/-- What a rule comes to at a spot. -/
def on {α : Type} (rule : Rule α) (spot : Spot) : Outcome α :=
  match rule spot.state with
  | (.ok value, later) => .done value later.spot
  | (.error (.unexpected _), _) => .stuck
  | (.error _, _) => .deep

/-- A rule does in a state what the outcome says, and each failure is at a token that was read. -/
def Agrees {α : Type} (rule : Rule α) (state : ParserState) : Outcome α → Prop
  | .done value spot =>
      ∃ later, rule state = (.ok value, later) ∧ state.Leads later ∧ later.spot = spot
  | .stuck =>
      ∃ error later, rule state = (.error (.unexpected error), later) ∧ state.Leads later ∧
        later.Describes error
  | .deep =>
      ∃ limit position later, rule state = (.error (.tooDeep limit position), later) ∧
        state.Leads later ∧ later.Met position

/-- A rule whose outcome in every state is read off the spot of the state. -/
class Lawful {α : Type} (rule : Rule α) : Prop where
  agrees : ∀ state : ParserState, state.Ready → rule.Agrees state (rule.on state.spot)

theorem agrees_on {α : Type} (rule : Rule α) [lawful : rule.Lawful] (state : ParserState)
    (ready : state.Ready) : rule.Agrees state (rule.on state.spot) :=
  lawful.agrees state ready

variable {α β σ : Type}

/-- What a rule does in the state of a spot is what it comes to there. -/
theorem Agrees.on_eq {rule : Rule α} {spot : Spot} {outcome : Outcome α}
    (agrees : rule.Agrees spot.state outcome) : rule.on spot = outcome := by
  unfold on
  cases outcome with
  | done value later =>
      obtain ⟨reached, run, _, rfl⟩ := agrees
      rw [run]
  | stuck =>
      obtain ⟨error, reached, run, _⟩ := agrees
      rw [run]
  | deep =>
      obtain ⟨limit, position, reached, run, _⟩ := agrees
      rw [run]

/-- A rule that follows an outcome in every state is lawful, and that is its outcome. -/
theorem lawful_of {rule : Rule α} (outcome : Spot → Outcome α)
    (follows : ∀ state : ParserState, state.Ready → rule.Agrees state (outcome state.spot)) :
    (∀ spot, rule.on spot = outcome spot) ∧ rule.Lawful := by
  have same : ∀ spot, rule.on spot = outcome spot := by
    intro spot
    have agrees := follows spot.state spot.state_ready
    rw [Spot.state_spot] at agrees
    exact agrees.on_eq
  refine ⟨same, ⟨fun state ready => ?_⟩⟩
  rw [same]
  exact follows state ready

/-- What a lawful rule reads in a state is its outcome at the spot of the state. -/
theorem on_of_run {rule : Rule α} [rule.Lawful] {state later : ParserState} {value : α}
    (ready : state.Ready) (run : rule state = (.ok value, later)) :
    rule.on state.spot = .done value later.spot := by
  have agrees := rule.agrees_on state ready
  cases outcome : rule.on state.spot with
  | done read spot =>
      rw [outcome] at agrees
      obtain ⟨reached, same, _, rfl⟩ := agrees
      cases run.symm.trans same
      rfl
  | stuck =>
      rw [outcome] at agrees
      obtain ⟨error, reached, same, _⟩ := agrees
      cases run.symm.trans same
  | deep =>
      rw [outcome] at agrees
      obtain ⟨limit, position, reached, same, _⟩ := agrees
      cases run.symm.trans same

/-! ### Rules put together -/

theorem pure_agrees (value : α) (state : ParserState) (ready : state.Ready) :
    (pure value : Rule α).Agrees state (.done value state.spot) :=
  ⟨state, rfl, .refl ready, rfl⟩

instance (value : α) : (pure value : Rule α).Lawful := (lawful_of _ (pure_agrees value)).2

@[simp] theorem on_pure (value : α) (spot : Spot) :
    (pure value : Rule α).on spot = .done value spot :=
  (lawful_of _ (pure_agrees value)).1 spot

/-- A rule that goes on after another one, in a state. -/
theorem bind_run (rule : Rule α) (next : α → Rule β) (state : ParserState) :
    (rule >>= next) state =
      match rule state with
      | (.ok value, later) => next value later
      | (.error error, later) => (.error error, later) := by
  have run : (rule >>= next) state =
      (ExceptT.bindCont next (rule state).1 : StateM ParserState _) (rule state).2 := rfl
  rw [run]
  rcases rule state with ⟨outcome, later⟩
  cases outcome <;> rfl

namespace Agrees

variable {rule : Rule α} {next : α → Rule β} {state : ParserState}

/-- Going on behind a value. -/
theorem behind {value : α} {later : ParserState} {outcome : Outcome β}
    (run : rule state = (.ok value, later)) (leads : state.Leads later)
    (agrees : (next value).Agrees later outcome) : (rule >>= next).Agrees state outcome := by
  cases outcome with
  | done result spot =>
      obtain ⟨last, nextRun, nextLeads, reached⟩ := agrees
      exact ⟨last, by rw [bind_run, run]; exact nextRun, leads.trans nextLeads, reached⟩
  | stuck =>
      obtain ⟨error, last, nextRun, nextLeads, met⟩ := agrees
      exact ⟨error, last, by rw [bind_run, run]; exact nextRun, leads.trans nextLeads, met⟩
  | deep =>
      obtain ⟨limit, position, last, nextRun, nextLeads, met⟩ := agrees
      exact ⟨limit, position, last, by rw [bind_run, run]; exact nextRun,
        leads.trans nextLeads, met⟩

theorem stuck_bind (agrees : rule.Agrees state .stuck) : (rule >>= next).Agrees state .stuck := by
  obtain ⟨error, later, run, leads, met⟩ := agrees
  exact ⟨error, later, by rw [bind_run, run], leads, met⟩

theorem deep_bind (agrees : rule.Agrees state .deep) : (rule >>= next).Agrees state .deep := by
  obtain ⟨limit, position, later, run, leads, met⟩ := agrees
  exact ⟨limit, position, later, by rw [bind_run, run], leads, met⟩

end Agrees

theorem bind_agrees (rule : Rule α) (next : α → Rule β) [rule.Lawful] [∀ value, (next value).Lawful]
    (state : ParserState) (ready : state.Ready) :
    (rule >>= next).Agrees state
      ((rule.on state.spot).bind fun value spot => (next value).on spot) := by
  have agrees := rule.agrees_on state ready
  cases outcome : rule.on state.spot with
  | done value spot =>
      rw [outcome] at agrees
      obtain ⟨later, run, leads, rfl⟩ := agrees
      exact .behind run leads ((next value).agrees_on later leads.ready)
  | stuck => exact .stuck_bind (outcome ▸ agrees)
  | deep => exact .deep_bind (outcome ▸ agrees)

instance (rule : Rule α) (next : α → Rule β) [rule.Lawful] [∀ value, (next value).Lawful] :
    (rule >>= next).Lawful := (lawful_of (fun spot => (rule.on spot).bind _) (bind_agrees rule next)).2

@[simp] theorem on_bind (rule : Rule α) (next : α → Rule β) [rule.Lawful]
    [∀ value, (next value).Lawful] (spot : Spot) :
    (rule >>= next).on spot = (rule.on spot).bind fun value later => (next value).on later :=
  (lawful_of (fun spot => (rule.on spot).bind _) (bind_agrees rule next)).1 spot

/-- Going on with a rule that is lawful case by case. -/
theorem on_bind_of (rule : Rule α) (next : α → Rule β) [rule.Lawful] (spot : Spot)
    (continued : ∀ value, (next value).Lawful) :
    (rule >>= next).on spot = (rule.on spot).bind fun value later => (next value).on later :=
  on_bind rule next spot

/-- Going on behind a rule whose outcome is known, where only what follows is lawful. -/
theorem on_bind_done {rule : Rule α} {next : α → Rule β} [rule.Lawful] {value : α}
    {spot later : Spot} (outcome : rule.on spot = .done value later) [(next value).Lawful] :
    (rule >>= next).on spot = (next value).on later := by
  have agrees := rule.agrees_on spot.state spot.state_ready
  rw [Spot.state_spot, outcome] at agrees
  obtain ⟨reached, run, leads, rfl⟩ := agrees
  exact Agrees.on_eq (.behind run leads ((next value).agrees_on reached leads.ready))

theorem map_eq_bind (change : α → β) (rule : Rule α) :
    change <$> rule = rule >>= fun value => pure (change value) := rfl

instance (change : α → β) (rule : Rule α) [rule.Lawful] : (change <$> rule).Lawful := by
  rw [map_eq_bind]
  infer_instance

@[simp] theorem on_map (change : α → β) (rule : Rule α) [rule.Lawful] (spot : Spot) :
    (change <$> rule).on spot =
      (rule.on spot).bind fun value later => .done (change value) later := by
  rw [map_eq_bind, on_bind]
  simp

instance (condition : Prop) [Decidable condition] (left right : Rule α) [left.Lawful]
    [right.Lawful] : (if condition then left else right).Lawful := by
  split <;> infer_instance

theorem on_ite (condition : Prop) [Decidable condition] (left right : Rule α) (spot : Spot) :
    (if condition then left else right : Rule α).on spot =
      if condition then left.on spot else right.on spot := by
  split <;> rfl

/-! ### Tokens -/

theorem leads_peek {state : ParserState} (ready : state.Ready) (ahead : Nat) :
    state.Leads { state with stream := (state.stream.peek ahead).2 } := by
  obtain ⟨_, sound, leads, _, _⟩ := TokenStream.peek_spec ready.sound ahead
  exact ⟨⟨sound, ready.recalls.of_leads leads rfl rfl⟩, leads, rfl, rfl⟩

theorem peekToken_agrees (ahead : Nat) (state : ParserState) (ready : state.Ready) :
    (peekToken ahead).Agrees state (.done (state.spot.token ahead) state.spot) := by
  obtain ⟨seen, sound, leads, cursor, _⟩ := TokenStream.peek_spec ready.sound ahead
  refine ⟨{ state with stream := (state.stream.peek ahead).2 }, ?_, leads_peek ready ahead,
    ParserState.spot_eq_of_whole ready.sound sound leads.whole cursor rfl rfl rfl⟩
  have token : state.spot.token ahead = (state.stream.peek ahead).1 := by
    rw [Spot.token, ParserState.spot_stop ready, seen]
    rfl
  rw [token]
  rfl

instance (ahead : Nat) : (peekToken ahead).Lawful := (lawful_of (fun spot => .done (spot.token ahead) spot) (peekToken_agrees ahead)).2

@[simp] theorem on_peekToken (ahead : Nat) (spot : Spot) :
    (peekToken ahead).on spot = .done (spot.token ahead) spot :=
  (lawful_of (fun spot => .done (spot.token ahead) spot) (peekToken_agrees ahead)).1 spot

theorem advance_agrees (state : ParserState) (ready : state.Ready) :
    advance.Agrees state (.done (state.spot.token 0) state.spot.next) := by
  have stop := ParserState.spot_stop ready
  have recalls : ∀ later : TokenStream, state.stream.Leads later →
      ParserState.Recalls { state with stream := later } :=
    fun later leads => ready.recalls.of_leads leads rfl rfl
  cases split : state.stream.ahead with
  | nil =>
      obtain ⟨seen, sound, leads, cursor⟩ := TokenStream.advance_at_end ready.sound split
      have spotAhead : state.spot.ahead = [] := split
      have spot : ParserState.spot { state with stream := state.stream.advance.2 } =
          state.spot :=
        ParserState.spot_eq_of_whole ready.sound sound leads.whole cursor rfl rfl rfl
      refine ⟨{ state with stream := state.stream.advance.2 }, ?_,
        ⟨⟨sound, recalls _ leads⟩, leads, rfl, rfl⟩, ?_⟩
      · rw [Spot.token, spotAhead, stop]
        exact congrArg (fun token => (Except.ok token, _)) seen
      · rw [spot]
        ext1 <;> simp [Spot.next, spotAhead]
  | cons token rest =>
      obtain ⟨seen, sound, leads, ahead, last⟩ := TokenStream.advance_inside ready.sound split
      have spotAhead : state.spot.ahead = token :: rest := split
      have laterReady : ParserState.Ready { state with stream := state.stream.advance.2 } :=
        ⟨sound, recalls _ leads⟩
      refine ⟨{ state with stream := state.stream.advance.2 }, ?_,
        ⟨laterReady, leads, rfl, rfl⟩, ?_⟩
      · rw [Spot.token, spotAhead]
        exact congrArg (fun token => (Except.ok token, _)) seen
      · ext1
        · rfl
        · rfl
        · rw [ParserState.spot_stop laterReady, Spot.next, stop]
          exact TokenStream.stop_eq_of_whole leads.whole
        · rw [Spot.next_last, spotAhead]
          exact last
        · rw [Spot.next_ahead, spotAhead]
          exact ahead
        · rfl

instance : advance.Lawful := (lawful_of (fun spot => .done (spot.token 0) spot.next) advance_agrees).2

@[simp] theorem on_advance (spot : Spot) : advance.on spot = .done (spot.token 0) spot.next :=
  (lawful_of (fun spot => .done (spot.token 0) spot.next) advance_agrees).1 spot

theorem previousSpan_agrees (state : ParserState) (ready : state.Ready) :
    previousSpan.Agrees state (.done state.spot.last state.spot) :=
  ⟨state, rfl, .refl ready, rfl⟩

instance : previousSpan.Lawful := (lawful_of (fun spot => .done spot.last spot) previousSpan_agrees).2

@[simp] theorem on_previousSpan (spot : Spot) : previousSpan.on spot = .done spot.last spot :=
  (lawful_of (fun spot => .done spot.last spot) previousSpan_agrees).1 spot

theorem nextPlaceholder_agrees (state : ParserState) (ready : state.Ready) :
    nextPlaceholder.Agrees state (.done state.spot.markers state.spot.mark) :=
  ⟨{ state with placeholders := state.placeholders + 1 }, rfl,
    ⟨ready.alike rfl rfl rfl, .refl _, rfl, rfl⟩, rfl⟩

instance : nextPlaceholder.Lawful :=
  (lawful_of (fun spot => .done spot.markers spot.mark) nextPlaceholder_agrees).2

@[simp] theorem on_nextPlaceholder (spot : Spot) :
    nextPlaceholder.on spot = .done spot.markers spot.mark :=
  (lawful_of (fun spot => .done spot.markers spot.mark) nextPlaceholder_agrees).1 spot

/-- The next token was read once it was looked at. -/
theorem read_peek {state : ParserState} (ready : state.Ready) :
    ParserState.HasRead { state with stream := (state.stream.peek 0).2 }
      (state.stream.peek 0).1 := by
  obtain ⟨seen, sound, leads, cursor, inBuffer⟩ := TokenStream.peek_spec ready.sound 0
  have inside := ready.sound.inside
  have found := ready.sound.getElem?_whole 0
  refine ⟨state.stream.cursor, inBuffer inside, ?_⟩
  change (state.stream.peek 0).2.whole[state.stream.cursor]? = _
  rw [leads.whole, seen]
  rw [Nat.add_zero] at found
  rw [found]
  cases state.stream.ahead <;> rfl

theorem fail_agrees (expected : List String) (state : ParserState) (ready : state.Ready) :
    (fail expected : Rule α).Agrees state .stuck := by
  obtain ⟨later, run, leads, _⟩ := peekToken_agrees 0 state ready
  have reached : later = { state with stream := (state.stream.peek 0).2 } :=
    (congrArg Prod.snd run).symm
  have token : state.spot.token 0 = (state.stream.peek 0).1 :=
    (Except.ok.inj (congrArg Prod.fst run)).symm
  refine ⟨.ofExpected (state.spot.token 0).span.position expected
    (state.spot.token 0).kind.describe, later, ?_, leads, ?_⟩
  · rw [fail, bind_run, run]
    rfl
  · rw [reached, token]
    exact ⟨_, expected, read_peek ready, rfl⟩

instance (expected : List String) : (fail expected : Rule α).Lawful :=
  (lawful_of (fun _ => .stuck) (fail_agrees expected)).2

@[simp] theorem on_fail (expected : List String) (spot : Spot) :
    (fail expected : Rule α).on spot = .stuck :=
  (lawful_of (fun _ => .stuck) (fail_agrees expected)).1 spot

/-! ### Nesting and alternatives -/

theorem tooDeep_agrees (state : ParserState) (ready : state.Ready) :
    (tooDeep : Rule α).Agrees state .deep := by
  have counted : ParserState.Ready { state with depthTrips := state.depthTrips + 1 } :=
    ready.alike rfl rfl rfl
  obtain ⟨later, run, leads, _⟩ :=
    peekToken_agrees 0 { state with depthTrips := state.depthTrips + 1 } counted
  have token : state.spot.token 0 = (state.stream.peek 0).1 :=
    (Except.ok.inj (congrArg Prod.fst run)).symm
  have reached : later = { state with
      stream := (state.stream.peek 0).2, depthTrips := state.depthTrips + 1 } :=
    (congrArg Prod.snd run).symm
  refine ⟨later.settings.maxDepth, (state.stream.peek 0).1.span.position, later, ?_,
    ⟨leads.ready, leads.stream, leads.settings, leads.source⟩, ?_⟩
  · rw [reached]
    rfl
  · rw [reached]
    exact ⟨_, read_peek ready, rfl⟩

instance : (tooDeep : Rule α).Lawful := (lawful_of (fun _ => .deep) tooDeep_agrees).2

@[simp] theorem on_tooDeep (spot : Spot) : (tooDeep : Rule α).on spot = .deep :=
  (lawful_of (fun _ => .deep) tooDeep_agrees).1 spot

theorem enter_agrees (rule : Rule α) [rule.Lawful] (state : ParserState) (ready : state.Ready) :
    (enter rule).Agrees state (rule.on state.spot) := by
  have deeper : ParserState.Ready { state with depth := state.depth + 1 } :=
    ready.alike rfl rfl rfl
  have back : ∀ later : ParserState, later.Ready →
      ParserState.Ready { later with depth := later.depth - 1 } :=
    fun later laterReady => laterReady.alike rfl rfl rfl
  have agrees := rule.agrees_on { state with depth := state.depth + 1 } deeper
  have spot : ParserState.spot { state with depth := state.depth + 1 } = state.spot := rfl
  rw [spot] at agrees
  unfold enter
  cases outcome : rule.on state.spot with
  | done value reached =>
      rw [outcome] at agrees
      obtain ⟨later, run, leads, place⟩ := agrees
      refine ⟨{ later with depth := later.depth - 1 }, by dsimp only; rw [run],
        ⟨back later leads.ready, leads.stream, leads.settings, leads.source⟩, place⟩
  | stuck =>
      rw [outcome] at agrees
      obtain ⟨error, later, run, leads, met⟩ := agrees
      exact ⟨error, { later with depth := later.depth - 1 }, by dsimp only; rw [run],
        ⟨back later leads.ready, leads.stream, leads.settings, leads.source⟩, met⟩
  | deep =>
      rw [outcome] at agrees
      obtain ⟨limit, position, later, run, leads, met⟩ := agrees
      exact ⟨limit, position, { later with depth := later.depth - 1 }, by dsimp only; rw [run],
        ⟨back later leads.ready, leads.stream, leads.settings, leads.source⟩, met⟩

instance (rule : Rule α) [rule.Lawful] : (enter rule).Lawful :=
  (lawful_of (fun spot => rule.on spot) (enter_agrees rule)).2

@[simp] theorem on_enter (rule : Rule α) [rule.Lawful] (spot : Spot) :
    (enter rule).on spot = rule.on spot :=
  (lawful_of (fun spot => rule.on spot) (enter_agrees rule)).1 spot

/-- What trying a rule comes to. -/
def tried (outcome : Outcome α) (spot : Spot) : Outcome (Option α) :=
  match outcome with
  | .done value later => .done (some value) later
  | .stuck => .done none spot
  | .deep => .deep

/-- The further of a remembered failure and a new one is one of them. -/
theorem remember_position (furthest : Option SyntaxError) (error : SyntaxError) :
    (remember furthest error).position = error.position ∨
      ∃ earlier, furthest = some earlier ∧
        (remember furthest error).position = earlier.position := by
  cases furthest with
  | none => exact .inl rfl
  | some earlier =>
      unfold remember SyntaxError.merge
      dsimp only
      split
      · exact .inr ⟨earlier, rfl, rfl⟩
      · exact .inl rfl
      · exact .inr ⟨earlier, rfl, rfl⟩

/-- Behind a rejected alternative the parse goes on from where the alternative began, and recalls one
more failure. -/
theorem leads_resumed {state later : ParserState} {error : SyntaxError} (ready : state.Ready)
    (leads : state.Leads later) (describes : later.Describes error) :
    state.Leads (state.resumed later error) := by
  obtain ⟨sound, back, _⟩ :=
    TokenStream.reset_spec ready.sound leads.ready.sound leads.stream
  have recalls := leads.ready.recalls
  refine ⟨⟨sound, ?_, ?_⟩, back, leads.settings, leads.source⟩
  · exact List.forall_mem_cons.mpr ⟨describes, recalls.described⟩
  · change some (remember later.furthest error) = SyntaxError.furthest? (error :: later.rejected)
    rw [SyntaxError.furthest?_cons, recalls.furthest]

theorem attempt_run (rule : Rule α) (state : ParserState) :
    attempt rule state =
      match rule state with
      | (.ok value, later) => (.ok (some value), later)
      | (.error (.unexpected error), later) => (.ok none, state.resumed later error)
      | (.error error, later) => (.error error, later) := rfl

theorem attempt_agrees (rule : Rule α) [rule.Lawful] (state : ParserState) (ready : state.Ready) :
    (attempt rule).Agrees state (tried (rule.on state.spot) state.spot) := by
  have agrees := rule.agrees_on state ready
  cases outcome : rule.on state.spot with
  | done value reached =>
      rw [outcome] at agrees
      obtain ⟨later, run, leads, place⟩ := agrees
      exact ⟨later, by rw [attempt_run, run], leads, place⟩
  | stuck =>
      rw [outcome] at agrees
      obtain ⟨error, later, run, leads, met⟩ := agrees
      have back := leads_resumed ready leads met
      exact ⟨state.resumed later error, by rw [attempt_run, run], back,
        ParserState.spot_eq_of_whole ready.sound back.ready.sound back.stream.whole
          (Nat.min_eq_left leads.stream.cursor) leads.settings leads.source rfl⟩
  | deep =>
      rw [outcome] at agrees
      obtain ⟨limit, position, later, run, leads, met⟩ := agrees
      exact ⟨limit, position, later, by rw [attempt_run, run], leads, met⟩

instance (rule : Rule α) [rule.Lawful] : (attempt rule).Lawful :=
  (lawful_of (fun spot => tried (rule.on spot) spot) (attempt_agrees rule)).2

@[simp] theorem on_attempt (rule : Rule α) [rule.Lawful] (spot : Spot) :
    (attempt rule).on spot = tried (rule.on spot) spot :=
  (lawful_of (fun spot => tried (rule.on spot) spot) (attempt_agrees rule)).1 spot

end Rule

end SqlDml
