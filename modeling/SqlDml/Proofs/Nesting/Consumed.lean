import SqlDml.Proofs.Nesting.Raised

/-!
Contract: every open nesting level is paid for by a token.

Owns:
- a grammar that opens a level only behind as many tokens as levels are open, and does something
  else otherwise;
- this grammar reads what the plain one reads, whatever else it would do;
- the nesting limit is met only behind as many tokens.

Does not own: what a larger limit changes.
-/

namespace SqlDml

namespace Rule

/-- Opens a level if at least as many tokens are consumed as levels are open, and does something
else otherwise. -/
def enterBehind {α : Type} (rule other : Rule α) : Rule α := fun state =>
  if state.depth ≤ state.stream.cursor then enter rule state else other state

/-- The rules that open a nesting level, each only behind as many tokens as levels are open.  Where
there are fewer tokens they do what other rules do. -/
def guardedAt (other : InnerRules) : (levels : Nat) → InnerRules
  | 0 => ⟨fun _ => tooDeep, tooDeep, tooDeep⟩
  | levels + 1 =>
      let inner := guardedAt other levels
      ⟨fun power => enterBehind (operandBody inner power) (other.operand power),
        enterBehind (wholeQuery inner) other.query,
        enterBehind (tableInParensBody inner) other.tableInParens⟩

/-- A statement and an optional semicolon, by given rules of the first level. -/
def statementBy (inner : InnerRules) : Rule Statement := do
  let tree ← statement inner
  let _ ← eatMark .semicolon
  return tree

end Rule

/-- A position at which a token stands that has so many tokens before it. -/
def ParserState.MetBehind (state : ParserState) (count : Nat) (position : Position) : Prop :=
  ∃ index token, count ≤ index ∧ state.stream.whole[index]? = some token ∧
    token.span.position = position

/-- A state with so many open levels, and no fewer tokens consumed than that but one. -/
structure ParserState.Paid (limit opened : Nat) (state : ParserState) : Prop where
  ready : state.Ready
  limit : state.settings.maxDepth = limit
  depth : state.depth = opened
  cursor : opened ≤ state.stream.cursor + 1

/-- Behind one more token the open levels are all paid for. -/
theorem ParserState.Paid.covered {limit opened : Nat} {state later : ParserState}
    (paid : state.Paid limit opened) (leads : state.Leads later)
    (shorter : later.stream.ahead.length < state.stream.ahead.length) :
    opened ≤ later.stream.cursor := by
  have before := paid.ready.sound.length_whole
  have after := leads.ready.sound.length_whole
  rw [leads.stream.whole] at after
  have cursor := paid.cursor
  omega

namespace Comparison

open Rule

/-- Runs through the same states, with so many levels open. -/
def paid (limit opened : Nat) : Comparison where
  likeness := .refl
  Near state other := other = state ∧ state.Paid limit opened
  Open state := opened ≤ state.stream.cursor
  Failed error state error' other := error' = error ∧ other = state ∧
    ∀ bound position, error = .tooDeep bound position → bound = limit ∧ state.MetBehind limit position
  Lossy := False
  ready near := ⟨near.2.ready, near.1 ▸ near.2.ready⟩
  length near := by rw [near.1]
  look := by
    rintro state other ahead ⟨rfl, paid⟩
    have leads := leads_peek paid.ready ahead
    exact ⟨⟨rfl, leads.ready, paid.limit, paid.depth,
      Nat.le_trans paid.cursor (Nat.succ_le_succ leads.stream.cursor)⟩, .refl _⟩
  step := by
    rintro state other ⟨rfl, paid⟩
    have leads : other.Leads other.stepped := by
      have leads := (Safe.of_lawful advance paid.ready).leads
      rwa [ParserState.advance_run] at leads
    exact ⟨rfl, leads.ready, paid.limit, paid.depth,
      Nat.le_trans paid.cursor (Nat.succ_le_succ leads.stream.cursor)⟩
  last near := near.1 ▸ .refl _
  number near := by
    obtain ⟨rfl, paid⟩ := near
    exact ⟨⟨rfl, paid.ready.alike rfl rfl rfl, paid.limit, paid.depth, paid.cursor⟩, rfl⟩
  name _ near := near.1 ▸ .refl _
  pipes near := near.1 ▸ rfl
  fails expected near := by
    obtain ⟨rfl, _⟩ := near
    exact ⟨rfl, rfl, nofun⟩
  family failed := by rw [failed.1]
  resume near leads _ failed := by
    obtain ⟨rfl, paid⟩ := near
    obtain ⟨same, rfl, _⟩ := failed
    cases same
    exact ⟨rfl, leads.ready, leads.settings ▸ paid.limit, paid.depth,
      Nat.le_trans paid.cursor (Nat.succ_le_succ leads.stream.cursor)⟩
  opens := by
    rintro state other later ⟨rfl, paid⟩ leads shorter
    exact paid.covered leads shorter
  keeps leads open_ := Nat.le_trans open_ leads.stream.cursor
  reflexive := nofun
  sides := nofun

theorem paid_opens (limit opened : Nat) : (paid limit opened).Opens (paid limit (opened + 1)) where
  likeness := rfl
  lossy := id
  within := by
    rintro state other ⟨rfl, paid⟩ open_
    exact ⟨rfl, paid.ready.alike rfl rfl rfl, paid.limit, congrArg (· + 1) paid.depth,
      Nat.succ_le_succ open_⟩
  behind := by
    rintro state other ⟨rfl, paid⟩
    exact ⟨rfl, paid.ready.alike rfl rfl rfl, paid.limit, congrArg (· - 1) paid.depth,
      Nat.le_of_succ_le paid.cursor⟩
  failed := by
    rintro error error' state other ⟨same, rfl, deep⟩
    exact ⟨same, rfl, deep⟩

/-- Where no level is left, as many tokens are consumed as the limit allows levels. -/
theorem tooDeep_paid {α : Type} [Labelled α] (limit : Nat) :
    InStep (paid limit limit) true (tooDeep : Rule α) tooDeep where
  abreast {state other} near open_ := by
    obtain ⟨rfl, paid⟩ := near
    refine ⟨.of_lawful _ paid.ready, .of_lawful _ paid.ready, ?_⟩
    have run : (tooDeep : Rule α) other =
        (.error (.tooDeep other.settings.maxDepth (other.token 0).span.position),
          { other with
            depthTrips := other.depthTrips + 1
            stream := (other.stream.peek 0).2 }) := rfl
    rw [run]
    refine .failed ⟨rfl, rfl, ?_⟩
    rintro bound position ⟨rfl⟩
    obtain ⟨seen, _, leads, _⟩ := TokenStream.peek_spec paid.ready.sound 0
    refine ⟨paid.limit, other.stream.cursor, other.token 0, open_ rfl, ?_, rfl⟩
    have found := paid.ready.sound.getElem?_whole 0
    rw [Nat.add_zero] at found
    rw [ParserState.token, seen]
    change (other.stream.peek 0).2.whole[other.stream.cursor]? = _
    rw [leads.whole, found]
    cases other.stream.ahead <;> rfl

/-- The guard lets every level open. -/
theorem enterBehind_inStep {α : Type} [Labelled α] {limit opened : Nat} {rule copy other : Rule α}
    (plain : InStep (paid limit opened) true (enter rule) (enter copy)) :
    InStep (paid limit opened) true (enter rule) (enterBehind copy other) where
  abreast {state state'} near open_ := by
    have paid : opened ≤ state'.stream.cursor := by
      rw [near.1]
      exact open_ rfl
    have depth : state'.depth = opened := by
      rw [near.1]
      exact near.2.depth
    have same : enterBehind copy other state' = enter copy state' :=
      if_pos (by rw [depth]; exact paid)
    obtain ⟨left, right, verdict⟩ := plain.abreast near open_
    exact ⟨left, by rw [Safe, same]; exact right, by rw [same]; exact verdict⟩

/-- By induction on the levels that are left: each opens behind one token more than the one around
it. -/
theorem guardedAt_inStep (other : InnerRules) (limit levels opened : Nat)
    (sum : opened + levels = limit) :
    InnerInStep (paid limit opened) (innerAt levels) (guardedAt other levels) := by
  induction levels generalizing opened with
  | zero =>
      obtain rfl : opened = limit := sum
      refine ⟨fun power => ?_, ?_, ?_⟩
      · rw [operand_zero]
        exact tooDeep_paid opened
      · rw [query_zero]
        exact tooDeep_paid opened
      · rw [tableInParens_zero]
        exact tooDeep_paid opened
  | succ levels inductionHypothesis =>
      have inner := inductionHypothesis (opened + 1) (by omega)
      have opens := paid_opens limit opened
      refine ⟨fun power => ?_, ?_, ?_⟩
      · rw [operand_succ]
        exact enterBehind_inStep opens.inStep
      · rw [query_succ]
        exact enterBehind_inStep opens.inStep
      · rw [tableInParens_succ]
        exact enterBehind_inStep opens.inStep

end Comparison

/-! ### Whole sources -/

/-- Parses the source of a fresh state as one statement, by given rules of the first level. -/
def ParserState.parseStatementBy (inner : InnerRules) (state : ParserState) :
    Except ParseError ParsedStatement × ParserState :=
  match Rule.toEnd (Rule.statementBy inner) state with
  | (.ok statement, state) => (.ok ⟨statement, state.stream.consumedSpans⟩, state)
  | (.error error, state) => (.error error, state)

open Comparison Rule

/-- Rules that keep in step with the plain ones through the same states do the same, and meet the
limit only behind as many tokens. -/
theorem run_of_inStep {α : Type} [Labelled α] [LawfulLabels α] {limit : Nat} {rule copy : Rule α}
    (inStep : InStep (paid limit 0) true rule copy) {state : ParserState}
    (near : (paid limit 0).Near state state) :
    copy state = rule state ∧ ∀ bound position later,
      rule state = (.error (.tooDeep bound position), later) →
        bound = limit ∧ later.MetBehind limit position := by
  obtain ⟨_, _, verdict⟩ := inStep.abreast near fun _ => Nat.zero_le _
  generalize rule state = result at verdict ⊢
  generalize copy state = result' at verdict ⊢
  cases verdict with
  | done alike same =>
      cases same.1
      cases alike.eq_of_refl
      refine ⟨rfl, fun bound position later met => ?_⟩
      cases (Prod.mk.inj met).1
  | failed failed =>
      obtain ⟨same, stayed, deep⟩ := failed
      cases same
      cases stayed
      refine ⟨rfl, fun bound position later met => ?_⟩
      obtain ⟨same, reached⟩ := Prod.mk.inj met
      exact reached ▸ deep bound position (Except.error.inj same)
  | lost lossy => exact lossy.elim

/-- A nesting limit that is reported was met by the rule. -/
theorem Rule.toEnd_tooDeep {α : Type} {rule : Rule α} {state : ParserState} {bound : Nat}
    {position : Position} (deep : (toEnd rule state).1 = .error (.tooDeep bound position)) :
    ∃ later, rule state = (.error (.tooDeep bound position), later) := by
  have reports : ∀ error later, (reported error later).1 = .tooDeep bound position →
      error = .tooDeep bound position := by
    intro error later same
    unfold reported at same
    split at same
    · cases same
    · split at same
      · cases same
      · exact same
  rw [toEnd_run] at deep
  rcases run : rule state with ⟨result | result, later⟩
  · rw [run] at deep
    obtain rfl := reports _ _ (Except.error.inj deep)
    exact ⟨later, rfl⟩
  · rw [run] at deep
    dsimp only at deep
    rcases stop : endOfSource later with ⟨error | done, last⟩
    · rw [stop] at deep
      obtain rfl := reports _ _ (Except.error.inj deep)
      rw [endOfSource_run] at stop
      split at stop
      · split at stop <;> cases stop
      · cases stop
    · rw [stop] at deep
      cases deep

theorem toEnd_eq_of_run {α : Type} {rule copy : Rule α} {state : ParserState}
    (same : copy state = rule state) : toEnd copy state = toEnd rule state := by
  rw [toEnd_run, toEnd_run, same]

section

variable (source : String) (settings : Settings) (other : InnerRules)

theorem paid_ofSource :
    (paid settings.maxDepth 0).Near (ParserState.ofSource source settings)
      (ParserState.ofSource source settings) :=
  ⟨rfl, ParserState.ready_ofSource source settings, rfl, rfl, Nat.zero_le _⟩

/-- What holds of a rule and of its guarded copy at the beginning of a source. -/
theorem toEnd_guarded {α : Type} [Labelled α] [LawfulLabels α] {rule copy : Rule α} [rule.Lawful]
    (inStep : InStep (paid settings.maxDepth 0) true rule copy) :
    toEnd copy (ParserState.ofSource source settings) =
        toEnd rule (ParserState.ofSource source settings) ∧
      ∀ bound position,
        (toEnd rule (ParserState.ofSource source settings)).1 = .error (.tooDeep bound position) →
          bound = settings.maxDepth ∧
            (ParserState.ofSource source settings).MetBehind settings.maxDepth position := by
  obtain ⟨same, deep⟩ := run_of_inStep inStep (paid_ofSource source settings)
  refine ⟨toEnd_eq_of_run same, fun bound position reported => ?_⟩
  obtain ⟨later, run⟩ := toEnd_tooDeep reported
  obtain ⟨limit, index, token, behind, found, place⟩ := deep bound position later run
  have leads := (Safe.of_lawful rule (ParserState.ready_ofSource source settings)).of_run run
  exact ⟨limit, index, token, behind, leads.stream.whole ▸ found, place⟩

theorem parseStatementBy_guarded :
    (ParserState.ofSource source settings).parseStatementBy (guardedAt other settings.maxDepth) =
        (ParserState.ofSource source settings).parseStatement ∧
      ∀ bound position, parseStatement source settings = .error (.tooDeep bound position) →
        bound = settings.maxDepth ∧
          (ParserState.ofSource source settings).MetBehind settings.maxDepth position := by
  have levels := guardedAt_inStep other settings.maxDepth settings.maxDepth 0 (Nat.zero_add _)
  have inStep : InStep (paid settings.maxDepth 0) true (statementTokens settings.maxDepth)
      (statementBy (guardedAt other settings.maxDepth)) := by
    unfold statementTokens statementBy
    infer_instance
  obtain ⟨same, deep⟩ := toEnd_guarded source settings inStep
  refine ⟨?_, fun bound position reported => deep bound position ?_⟩
  · rw [ParserState.parseStatementBy, same]
    exact (parseStatement_run source settings).symm
  · rw [parseStatement_eq] at reported
    split at reported
    · cases reported
    · next error => exact error.trans (congrArg Except.error (Except.error.inj reported))

theorem parseExpression_guarded :
    toEnd (guardedAt other settings.maxDepth).expr (ParserState.ofSource source settings) =
        (ParserState.ofSource source settings).parseExpression ∧
      ∀ bound position, parseExpression source settings = .error (.tooDeep bound position) →
        bound = settings.maxDepth ∧
          (ParserState.ofSource source settings).MetBehind settings.maxDepth position := by
  have levels := guardedAt_inStep other settings.maxDepth settings.maxDepth 0 (Nat.zero_add _)
  have inStep : InStep (paid settings.maxDepth 0) true (innerAt settings.maxDepth).expr
      (guardedAt other settings.maxDepth).expr := inferInstance
  obtain ⟨same, deep⟩ := toEnd_guarded source settings inStep
  unfold parseExpression
  rw [parseExpression_run]
  exact ⟨same, deep⟩

/-- Where the tokens are fewer than the limit, no position has as many tokens before it. -/
theorem not_metBehind {position : Position}
    (few : (Spot.ofSource source settings).ahead.length < settings.maxDepth) :
    ¬ (ParserState.ofSource source settings).MetBehind settings.maxDepth position := by
  rintro ⟨index, token, behind, found, _⟩
  have whole : (ParserState.ofSource source settings).stream.whole =
      (Spot.ofSource source settings).ahead ++ [_] := ofSource_whole source settings
  have inside := (List.getElem?_eq_some_iff.mp found).1
  rw [whole, List.length_append, List.length_singleton] at inside
  omega

end

/-! ### Repetitions -/

/-- The repetitions of the grammar, each with its step. -/
inductive Repetition (inner : InnerRules) : {σ : Type} → (σ → Rule (Option σ)) → Prop where
  | items {α : Type} (item : Rule α) [item.Lawful] : Repetition inner (nextItem item)
  | stringParts : Repetition inner nextPart
  | typeWords : Repetition inner nextTypeWord
  | operators (power : Nat) : Repetition inner (extendOperand inner power)
  | whens : Repetition inner (nextWhen inner)
  | hints : Repetition inner nextHint
  | joins : Repetition inner (extendJoin inner)
  | modifiers : Repetition inner nextModifier
  | compounds : Repetition inner (nextCompound inner)
  | updateOptions : Repetition inner nextUpdateOption
  | deleteOptions : Repetition inner nextDeleteOption

theorem Repetition.loops {inner : InnerRules} [inner.Lawful] {σ : Type}
    {step : σ → Rule (Option σ)} (repetition : Repetition inner step) (first : σ) (spot : Spot) :
    Loops step first spot ((whileSome step first).on spot) := by
  cases repetition <;> exact loops_whileSome _ first spot

/-! ### All levels and repetitions -/

/-- Every recursion consumes input.  A nesting level is opened only behind as many tokens as levels
are open, whatever the grammar would do otherwise; so the limit is met only at a token with as many
tokens before it, and with more levels than tokens it is never met, and no further level changes
anything.  A repetition goes on only behind a step that consumes a token, and ends as a step ends. -/
theorem levels_open_behind_tokens (source : String) (settings : Settings) (other : InnerRules) :
    (ParserState.ofSource source settings).parseStatementBy (guardedAt other settings.maxDepth) =
        (ParserState.ofSource source settings).parseStatement ∧
    toEnd (guardedAt other settings.maxDepth).expr (ParserState.ofSource source settings) =
        (ParserState.ofSource source settings).parseExpression ∧
    (∀ bound position, parseStatement source settings = .error (.tooDeep bound position) ∨
        parseExpression source settings = .error (.tooDeep bound position) →
      bound = settings.maxDepth ∧
        (ParserState.ofSource source settings).MetBehind settings.maxDepth position) ∧
    ((Spot.ofSource source settings).ahead.length < settings.maxDepth →
      ∀ limit, settings.maxDepth ≤ limit →
        (∀ bound position,
          parseStatement source (settings.withLimit limit) ≠ .error (.tooDeep bound position) ∧
          parseExpression source (settings.withLimit limit) ≠ .error (.tooDeep bound position)) ∧
        parseStatement source (settings.withLimit limit) = parseStatement source settings ∧
        parseExpression source (settings.withLimit limit) = parseExpression source settings) ∧
    ∀ (levels : Nat) (σ : Type) (step : σ → Rule (Option σ)), Repetition (innerAt levels) step →
      ∀ first spot, Loops step first spot ((whileSome step first).on spot) := by
  obtain ⟨statement, statementDeep⟩ := parseStatementBy_guarded source settings other
  obtain ⟨expression, expressionDeep⟩ := parseExpression_guarded source settings other
  refine ⟨statement, expression, ?_, fun few limit more => ?_,
    fun levels σ step repetition => repetition.loops⟩
  · rintro bound position (deep | deep)
    · exact statementDeep bound position deep
    · exact expressionDeep bound position deep
  · have shallow : ∀ bound position,
        parseStatement source settings ≠ .error (.tooDeep bound position) := fun bound position deep =>
      not_metBehind source settings few (statementDeep bound position deep).2
    have shallow' : ∀ bound position,
        parseExpression source settings ≠ .error (.tooDeep bound position) := fun bound position deep =>
      not_metBehind source settings few (expressionDeep bound position deep).2
    have same := parseStatement_withLimit source settings more shallow
    have same' := parseExpression_withLimit source settings more shallow'
    refine ⟨fun bound position => ⟨?_, ?_⟩, same, same'⟩
    · rw [same]
      exact shallow bound position
    · rw [same']
      exact shallow' bound position

/-- Of two pairs of parentheses the second one does not open within two levels, and with more levels
than the five tokens none is missed. -/
theorem levels_open_behind_parentheses :
    parseExpression "((a))" (({} : Settings).withLimit 2) = .error (.tooDeep 2 ⟨2, 1, 3⟩) ∧
    (ParserState.ofSource "((a))" (({} : Settings).withLimit 2)).MetBehind 2 ⟨2, 1, 3⟩ ∧
    (Spot.ofSource "((a))" (({} : Settings).withLimit 6)).ahead.length < 6 ∧
    ∀ limit, 6 ≤ limit → parseExpression "((a))" ((({} : Settings).withLimit 6).withLimit limit) =
      parseExpression "((a))" (({} : Settings).withLimit 6) := by
  have deep : parseExpression "((a))" (({} : Settings).withLimit 2) =
      .error (.tooDeep 2 ⟨2, 1, 3⟩) := eq_error_of_computed (by decide +kernel)
  have few : (Spot.ofSource "((a))" (({} : Settings).withLimit 6)).ahead.length < 6 := by
    decide +kernel
  obtain ⟨_, _, met, _⟩ := levels_open_behind_tokens "((a))" (({} : Settings).withLimit 2) (innerAt 0)
  obtain ⟨_, _, _, ample, _⟩ :=
    levels_open_behind_tokens "((a))" (({} : Settings).withLimit 6) (innerAt 0)
  exact ⟨deep, (met 2 ⟨2, 1, 3⟩ (.inr deep)).2, few, fun limit more => (ample few limit more).2.2⟩

end SqlDml
