import SqlDml.Proofs.Rules.Language

/-!
Contract: what holds whenever a rule reads something at a spot.

Owns:
- properties of the value that a rule reads and of the spot behind it;
- how such properties pass through sequences, choices, attempts and repetitions, with what is known
  of the next token at hand.

Does not own: any property of the rules of the language.
-/

namespace SqlDml.Rule

variable {α β σ : Type}

/-- Whatever a rule reads at a spot has a property, together with the spot behind it. -/
def Ensures (rule : Rule α) (spot : Spot) (post : α → Spot → Prop) : Prop :=
  ∀ (state later : ParserState) (value : α), state.Ready → state.spot = spot →
    rule state = (.ok value, later) → later.Ready ∧ post value later.spot

namespace Ensures

variable {spot : Spot} {post : α → Spot → Prop} {after : β → Spot → Prop}

/-- The outcome at the spot itself has the property. -/
theorem on {rule : Rule α} (ensures : rule.Ensures spot post) {value : α} {later : Spot}
    (outcome : rule.on spot = .done value later) : post value later := by
  unfold Rule.on at outcome
  split at outcome
  · next read reached run =>
      cases outcome
      exact (ensures _ _ _ spot.state_ready spot.state_spot run).2
  · cases outcome
  · cases outcome

/-- A lawful rule is described by its outcome. -/
theorem of_on {rule : Rule α} [rule.Lawful]
    (holds : ∀ value later, rule.on spot = .done value later → post value later) :
    rule.Ensures spot post := by
  intro state later value ready same run
  have agrees := rule.agrees_on state ready
  rw [same] at agrees
  cases outcome : rule.on spot with
  | done found place =>
      rw [outcome] at agrees
      obtain ⟨reached, other, leads, rfl⟩ := agrees
      rw [run] at other
      cases other
      exact ⟨leads.ready, holds _ _ outcome⟩
  | stuck =>
      rw [outcome] at agrees
      obtain ⟨error, reached, other, _⟩ := agrees
      rw [run] at other
      cases other
  | deep =>
      rw [outcome] at agrees
      obtain ⟨limit, position, reached, other, _⟩ := agrees
      rw [run] at other
      cases other

theorem mono {rule : Rule α} {weaker : α → Spot → Prop} (ensures : rule.Ensures spot post)
    (weakens : ∀ value later, post value later → weaker value later) :
    rule.Ensures spot weaker := by
  intro state later value ready same run
  obtain ⟨laterReady, holds⟩ := ensures state later value ready same run
  exact ⟨laterReady, weakens _ _ holds⟩

/-! ### Sequences -/

theorem pure {value : α} (holds : post value spot) : (Pure.pure value : Rule α).Ensures spot post := by
  refine of_on fun read later outcome => ?_
  rw [on_pure] at outcome
  cases outcome
  exact holds

theorem bind {rule : Rule α} {next : α → Rule β} (first : rule.Ensures spot post)
    (rest : ∀ value later, post value later → (next value).Ensures later after) :
    (rule >>= next).Ensures spot after := by
  intro state later value ready same run
  rw [bind_run] at run
  cases step : rule state with
  | mk outcome reached =>
      rw [step] at run
      cases outcome with
      | error error => cases run
      | ok read =>
          obtain ⟨reachedReady, holds⟩ := first state reached read ready same step
          exact rest read reached.spot holds reached later value reachedReady rfl run

/-- Going on behind a rule whose outcome is known. -/
theorem step {rule : Rule α} {next : α → Rule β} [rule.Lawful] {value : α} {later : Spot}
    (outcome : rule.on spot = .done value later) (rest : (next value).Ensures later after) :
    (rule >>= next).Ensures spot after := by
  have known : rule.Ensures spot fun read place => read = value ∧ place = later := by
    refine of_on fun read place same => ?_
    rw [outcome] at same
    cases same
    exact ⟨rfl, rfl⟩
  refine known.bind fun read place same => ?_
  obtain ⟨rfl, rfl⟩ := same
  exact rest

/-- Going on behind a rule of which nothing needs to be known. -/
theorem past {rule : Rule α} {next : α → Rule β} [rule.Lawful]
    (rest : ∀ value later, (next value).Ensures later after) : (rule >>= next).Ensures spot after :=
  have anything : rule.Ensures spot fun _ _ => True := .of_on fun _ _ _ => trivial
  anything.bind fun value later _ => rest value later

theorem map {rule : Rule α} {change : α → β} (first : rule.Ensures spot post)
    (holds : ∀ value later, post value later → after (change value) later) :
    (change <$> rule).Ensures spot after := by
  rw [map_eq_bind]
  exact first.bind fun value later known => .pure (holds value later known)

theorem fail {expected : List String} : (Rule.fail expected : Rule α).Ensures spot post := by
  refine of_on fun value later outcome => ?_
  rw [on_fail] at outcome
  cases outcome

theorem tooDeep : (Rule.tooDeep : Rule α).Ensures spot post := by
  refine of_on fun value later outcome => ?_
  rw [on_tooDeep] at outcome
  cases outcome

theorem enter {rule : Rule α} [rule.Lawful] (first : rule.Ensures spot post) :
    (Rule.enter rule).Ensures spot post := by
  refine of_on fun value later outcome => ?_
  rw [on_enter] at outcome
  exact first.on outcome

/-! ### Choices -/

theorem ite {condition : Prop} [Decidable condition] {left right : Rule α}
    (holds : condition → left.Ensures spot post) (fails : ¬condition → right.Ensures spot post) :
    (if condition then left else right).Ensures spot post := by
  split
  · next known => exact holds known
  · next known => exact fails known

/-- A choice by the next token, which is not consumed. -/
theorem nextIs {kind : TokenKind} {present absent : Rule α}
    (found : spot.kind = kind → present.Ensures spot post)
    (missing : spot.kind ≠ kind → absent.Ensures spot post) :
    (Rule.nextIs kind >>= fun found => if found = true then present else absent).Ensures spot
      post := by
  refine .step (on_nextIs spot kind) (.ite ?_ ?_)
  · intro known
    exact found (of_decide_eq_true known)
  · intro known
    exact missing (by simpa using known)

/-- A choice by a token further ahead. -/
theorem aheadIs {ahead : Nat} {kind : TokenKind} {present absent : Rule α}
    (found : (spot.token ahead).kind = kind → present.Ensures spot post)
    (missing : (spot.token ahead).kind ≠ kind → absent.Ensures spot post) :
    (Rule.aheadIs ahead kind >>= fun found => if found = true then present else absent).Ensures spot
      post := by
  refine .step (on_aheadIs spot ahead kind) (.ite ?_ ?_)
  · intro known
    exact found (of_decide_eq_true known)
  · intro known
    exact missing (by simpa using known)

/-- A choice by the next token, which is consumed if it is there. -/
theorem eat {kind : TokenKind} {present absent : Rule α}
    (found : spot.kind = kind → present.Ensures spot.next post)
    (missing : spot.kind ≠ kind → absent.Ensures spot post) :
    (Rule.eat kind >>= fun found => if found = true then present else absent).Ensures spot
      post := by
  by_cases known : spot.kind = kind
  · exact .step (on_eat_found known) (found known)
  · exact .step (on_eat_missing known) (missing known)

/-- An attempt that matches nothing leaves the spot as it was. -/
theorem attempt {rule : Rule α} {next : Option α → Rule β} [rule.Lawful]
    (tried : rule.Ensures spot post)
    (found : ∀ value later, post value later → (next (some value)).Ensures later after)
    (missing : (next none).Ensures spot after) : (Rule.attempt rule >>= next).Ensures spot after := by
  cases read : rule.on spot with
  | done value later =>
      have matched : (Rule.attempt rule).on spot = .done (some value) later := by
        rw [on_attempt, read]
        rfl
      exact .step matched (found value later (tried.on read))
  | stuck =>
      have rejected : (Rule.attempt rule).on spot = .done none spot := by
        rw [on_attempt, read]
        rfl
      exact .step rejected missing
  | deep =>
      have deep : (Rule.attempt rule).Ensures spot fun _ _ => False := by
        refine of_on fun value later outcome => ?_
        rw [on_attempt, read] at outcome
        cases outcome
      exact deep.bind fun value later absurd => absurd.elim

/-! ### Repetition -/

/-- What every step of a repetition keeps holds of all of it. -/
theorem whileSome {step : σ → Rule (Option σ)} [∀ value, (step value).Lawful]
    [∀ value, (step value).Shortens] {holds : σ → Spot → Prop} {first : σ}
    (start : holds first spot)
    (steps : ∀ value spot, holds value spot →
      (step value).Ensures spot fun found later => holds (found.getD value) later) :
    (Rule.whileSome step first).Ensures spot holds := by
  refine of_on fun last later outcome => ?_
  have repeats := on_whileSome_eq_done.mp outcome
  clear outcome
  induction repeats with
  | stop nothing => exact (steps _ _ start).on nothing
  | more some _ inductionHypothesis => exact inductionHypothesis ((steps _ _ start).on some)

end Ensures

end SqlDml.Rule
