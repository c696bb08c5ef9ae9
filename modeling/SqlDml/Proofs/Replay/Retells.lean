import SqlDml.Proofs.Abreast.InStep
import SqlDml.Proofs.Extents.Placed

/-!
Contract: what a rule reads where other tokens follow than those that it was tried on.

Owns:
- two spots with the same tokens ahead, up to where the one list of tokens follows or the other;
- a rule that reads from the tokens in common at one spot what it reads from them at the other, or
  meets the nesting limit there;
- how such readings are put together;
- rules that consume at least so many tokens.

Does not own: which tokens may follow, and the rules of the language.
-/

namespace SqlDml

/-- The tokens that follow at one spot, those that follow in their place at another one, and the token
in front of both. -/
structure Tails where
  rest : List Token
  other : List Token
  before : Option Token

namespace Tails

/-- The tails the other way round. -/
def flip (tails : Tails) : Tails := ⟨tails.other, tails.rest, tails.before⟩

/-- Two spots of one parse, with the same tokens ahead up to the tails. -/
structure Beside (tails : Tails) (origin spot place : Spot) : Prop where
  reaches : origin.Reaches spot
  reaches' : origin.Reaches place
  last : place.last = spot.last
  markers : place.markers = spot.markers
  ahead : ∃ front, spot.ahead = front ++ tails.rest ∧ place.ahead = front ++ tails.other
  edge : ∀ {front}, spot.ahead = front ++ tails.rest → ∀ token ∈ front.getLast?, token ∈ tails.before

/-- Whether a token in common is ahead. -/
def Within (tails : Tails) (spot : Spot) : Prop := tails.rest.length < spot.ahead.length

variable {tails : Tails} {origin spot place : Spot}

namespace Beside

theorem settings (beside : tails.Beside origin spot place) : place.settings = spot.settings :=
  beside.reaches'.settings.trans beside.reaches.settings.symm

theorem source (beside : tails.Beside origin spot place) : place.source = spot.source :=
  beside.reaches'.source.trans beside.reaches.source.symm

theorem flip (beside : tails.Beside origin spot place) : tails.flip.Beside origin place spot where
  reaches := beside.reaches'
  reaches' := beside.reaches
  last := beside.last.symm
  markers := beside.markers.symm
  ahead := by
    obtain ⟨front, ahead, ahead'⟩ := beside.ahead
    exact ⟨front, ahead', ahead⟩
  edge {common} split := by
    obtain ⟨front, ahead, ahead'⟩ := beside.ahead
    obtain rfl := List.append_cancel_right (ahead'.symm.trans split)
    exact beside.edge ahead

theorem length_le (beside : tails.Beside origin spot place) :
    tails.rest.length ≤ spot.ahead.length := by
  obtain ⟨front, ahead, _⟩ := beside.ahead
  simp [ahead]

/-- Either no token in common is left, or a token in common is next. -/
theorem cases (beside : tails.Beside origin spot place) :
    (spot.ahead = tails.rest ∧ place.ahead = tails.other) ∨ tails.Within spot := by
  obtain ⟨front, ahead, ahead'⟩ := beside.ahead
  cases front with
  | nil => exact .inl ⟨ahead, ahead'⟩
  | cons token front =>
      refine .inr ?_
      rw [Within, ahead, List.length_append, List.length_cons]
      omega

/-- A token in common. -/
theorem token_eq (beside : tails.Beside origin spot place) (index : Nat)
    (inside : tails.rest.length + index < spot.ahead.length) :
    place.token index = spot.token index := by
  obtain ⟨front, ahead, ahead'⟩ := beside.ahead
  have below : index < front.length := by
    rw [ahead, List.length_append] at inside
    omega
  simp [Spot.token, ahead, ahead', List.getElem?_append_left below, List.getElem?_eq_getElem below]

/-- The first token of the tails. -/
theorem token_at (beside : tails.Beside origin spot place) (index : Nat)
    (edge : spot.ahead.length = tails.rest.length + index) :
    spot.token index = tails.rest.head?.getD spot.stop ∧
      place.token index = tails.other.head?.getD place.stop := by
  obtain ⟨front, ahead, ahead'⟩ := beside.ahead
  obtain rfl : front.length = index := by
    rw [ahead, List.length_append] at edge
    omega
  simp [Spot.token, ahead, ahead', List.head?_eq_getElem?, List.getElem?_append_right]

theorem token (beside : tails.Beside origin spot place) (inside : tails.Within spot) :
    place.token 0 = spot.token 0 :=
  beside.token_eq 0 inside

theorem kind (beside : tails.Beside origin spot place) (inside : tails.Within spot) :
    place.kind = spot.kind := by
  rw [Spot.kind, Spot.kind, beside.token inside]

theorem inner (beside : tails.Beside origin spot place) (inside : tails.Within spot) :
    spot.kind ≠ .endOfInput := by
  obtain ⟨front, ahead, _⟩ := beside.ahead
  cases front with
  | nil => simp [Within, ahead] at inside
  | cons token front =>
      rw [Spot.kind_eq_of_ahead ahead]
      exact spot.inner token (ahead ▸ List.mem_cons_self)

/-- Behind tokens in common the tails come behind the same token. -/
theorem edge_behind (beside : tails.Beside origin spot place) {later : Spot} {passed front : List Token}
    (split : spot.ahead = passed ++ later.ahead) (ahead : later.ahead = front ++ tails.rest) :
    ∀ token ∈ front.getLast?, token ∈ tails.before := by
  intro token found
  refine @beside.edge (passed ++ front) (by rw [split, ahead, List.append_assoc]) token ?_
  rw [List.getLast?_append, Option.mem_def.mp found]
  rfl

/-- Behind a token in common. -/
theorem next (beside : tails.Beside origin spot place) (inside : tails.Within spot) :
    tails.Beside origin spot.next place.next := by
  have inner := beside.inner inside
  have inner' : place.kind ≠ .endOfInput := beside.kind inside ▸ inner
  refine ⟨beside.reaches.next inner, beside.reaches'.next inner', ?_, beside.markers, ?_,
    beside.edge_behind (show spot.ahead = [spot.token 0] ++ _ from Spot.ahead_of_inner inner)⟩
  · rw [Spot.next_last_of_inner inner', Spot.next_last_of_inner inner, beside.token inside]
  · obtain ⟨front, ahead, ahead'⟩ := beside.ahead
    cases front with
    | nil => simp [Within, ahead] at inside
    | cons token front => exact ⟨front, by simp [ahead], by simp [ahead']⟩

theorem mark (beside : tails.Beside origin spot place) :
    tails.Beside origin spot.mark place.mark :=
  ⟨⟨beside.reaches.settings, beside.reaches.source, beside.reaches.order⟩,
    ⟨beside.reaches'.settings, beside.reaches'.source, beside.reaches'.order⟩, beside.last,
    congrArg (· + 1) beside.markers, beside.ahead, beside.edge⟩

end Beside

end Tails

namespace Rule

open Comparison (Consuming)

variable {α β σ : Type} {tails : Tails} {origin spot place : Spot}

/-- What a rule reads at one spot from no more than the tokens in common, it reads at the other spot
too, unless it meets the nesting limit there. -/
def Retells (rule : Rule α) (tails : Tails) (origin spot place : Spot) : Prop :=
  ∀ state other : ParserState, state.Ready → other.Ready → state.spot = spot →
    other.spot = place → ∀ (value : α) (later : ParserState), rule state = (.ok value, later) →
      later.Ready ∧ (tails.rest.length ≤ later.spot.ahead.length →
        (∃ limit position after, rule other = (.error (.tooDeep limit position), after)) ∨
          ∃ after, rule other = (.ok value, after) ∧ after.Ready ∧
            tails.Beside origin later.spot after.spot)

namespace Retells

variable {rule : Rule α} {next : α → Rule β}

/-- Lawful rules are compared by their outcomes. -/
theorem of_on [rule.Lawful]
    (retold : ∀ value later, rule.on spot = .done value later →
      tails.rest.length ≤ later.ahead.length → rule.on place = .deep ∨
        ∃ after, rule.on place = .done value after ∧ tails.Beside origin later after) :
    rule.Retells tails origin spot place := by
  intro state other ready ready' same same' value later run
  subst same same'
  have outcome := on_of_run ready run
  have agrees := rule.agrees_on other ready'
  have laterReady : later.Ready := by
    have agrees := rule.agrees_on state ready
    rw [outcome] at agrees
    obtain ⟨reached, again, leads, _⟩ := agrees
    cases run.symm.trans again
    exact leads.ready
  refine ⟨laterReady, fun within => ?_⟩
  rcases retold value later.spot outcome within with deep | ⟨after, done, beside⟩
  · rw [deep] at agrees
    obtain ⟨limit, position, after, again, _⟩ := agrees
    exact .inl ⟨limit, position, after, again⟩
  · rw [done] at agrees
    obtain ⟨reached, again, leads, rfl⟩ := agrees
    exact .inr ⟨reached, again, leads.ready, beside⟩

/-- What is read at the one spot is read at the other one. -/
theorem on [rule.Lawful] (retells : rule.Retells tails origin spot place) {value : α} {later : Spot}
    (read : rule.on spot = .done value later) (within : tails.rest.length ≤ later.ahead.length) :
    rule.on place = .deep ∨
      ∃ after, rule.on place = .done value after ∧ tails.Beside origin later after := by
  have agrees := rule.agrees_on spot.state spot.state_ready
  rw [Spot.state_spot, read] at agrees
  obtain ⟨reached, run, _, rfl⟩ := agrees
  obtain ⟨_, retold⟩ := retells _ _ spot.state_ready place.state_ready spot.state_spot
    place.state_spot value reached run
  rcases retold within with ⟨limit, position, after, again⟩ | ⟨after, again, ready, beside⟩
  · left
    rw [Rule.on, again]
  · refine .inr ⟨after.spot, ?_, beside⟩
    rw [Rule.on, again]

/-- A rule that reads on behind the tokens in common is not compared. -/
theorem beyond [rule.Lawful]
    (consumes : ∀ value later, rule.on spot = .done value later →
      later.ahead.length < tails.rest.length) : rule.Retells tails origin spot place :=
  of_on fun value later outcome within => absurd (consumes value later outcome) (by omega)

/-- Nothing is compared where the rule reads nothing. -/
theorem of_stuck [rule.Lawful] (stuck : rule.on spot = .stuck) :
    rule.Retells tails origin spot place :=
  of_on fun value later outcome => by cases stuck.symm.trans outcome

theorem pure {value : α} (beside : tails.Beside origin spot place) :
    (Pure.pure value : Rule α).Retells tails origin spot place := by
  refine of_on fun read later outcome _ => ?_
  rw [on_pure] at outcome
  cases outcome
  exact .inr ⟨place, on_pure value place, beside⟩

theorem fail {expected : List String} :
    (Rule.fail expected : Rule α).Retells tails origin spot place :=
  of_stuck (on_fail expected spot)

theorem tooDeep : (Rule.tooDeep : Rule α).Retells tails origin spot place :=
  of_on fun value later outcome => by
    rw [on_tooDeep] at outcome
    cases outcome

theorem enter [rule.Lawful] (retells : rule.Retells tails origin spot place) :
    (Rule.enter rule).Retells tails origin spot place := by
  refine of_on fun value later outcome within => ?_
  rw [on_enter] at outcome ⊢
  exact retells.on outcome within

/-- Going on behind rules whose outcomes are known. -/
theorem step [rule.Lawful] {value : α} {later after : Spot}
    (read : rule.on spot = .done value later) (again : rule.on place = .done value after)
    (rest : (next value).Retells tails origin later after) :
    (rule >>= next).Retells tails origin spot place := by
  intro state other ready ready' same same' result last run
  have agrees := rule.agrees_on state ready
  have agrees' := rule.agrees_on other ready'
  rw [same, read] at agrees
  rw [same', again] at agrees'
  obtain ⟨reached, first, leads, place⟩ := agrees
  obtain ⟨reached', first', leads', place'⟩ := agrees'
  rw [bind_run, first] at run
  obtain ⟨lastReady, retold⟩ :=
    rest reached reached' leads.ready leads'.ready place place' result last run
  refine ⟨lastReady, fun within => ?_⟩
  rw [bind_run, first']
  exact retold within

theorem bind [∀ value, (next value).Lawful] (first : rule.Retells tails origin spot place)
    (rest : ∀ value later after, tails.Beside origin later after →
      (next value).Retells tails origin later after) :
    (rule >>= next).Retells tails origin spot place := by
  intro state other ready ready' same same' result last run
  rw [bind_run] at run
  rcases read : rule state with ⟨outcome | value, middle⟩
  · rw [read] at run
    cases run
  · rw [read] at run
    obtain ⟨middleReady, retold⟩ := first state other ready ready' same same' value middle read
    have agrees := (next value).agrees_on middle middleReady
    have outcome := on_of_run middleReady run
    rw [outcome] at agrees
    obtain ⟨reached, again, leads, _⟩ := agrees
    cases run.symm.trans again
    refine ⟨leads.ready, fun within => ?_⟩
    have shorter := (leads.spot middleReady).length_le
    rw [bind_run]
    rcases retold (by omega) with ⟨limit, position, after, deep⟩ | ⟨after, done, afterReady, beside⟩
    · exact .inl ⟨limit, position, after, by rw [deep]⟩
    · rw [done]
      exact (rest value _ _ beside middle after middleReady afterReady rfl rfl result last run).2
        within

/-- Behind a token in common. -/
theorem advance {next : Token → Rule β} (beside : tails.Beside origin spot place)
    (inside : tails.Within spot)
    (rest : tails.Beside origin spot.next place.next →
      (next (spot.token 0)).Retells tails origin spot.next place.next) :
    (Rule.advance >>= next).Retells tails origin spot place :=
  .step (on_advance spot) (beside.token inside ▸ on_advance place) (rest (beside.next inside))

theorem ite {condition : Prop} [Decidable condition] {left right : Rule α}
    (holds : condition → left.Retells tails origin spot place)
    (fails : ¬condition → right.Retells tails origin spot place) :
    (if condition then left else right).Retells tails origin spot place := by
  split
  · next known => exact holds known
  · next known => exact fails known

/-- An attempt.  Where it is rejected at the one spot, and another rule reads on instead, it must
not be accepted at the other one. -/
theorem attempt [rule.Lawful] {next : Option α → Rule β} [∀ found, (next found).Lawful]
    (tried : rule.Retells tails origin spot place)
    (found : ∀ value later after, tails.Beside origin later after →
      (next (some value)).Retells tails origin later after)
    (missing : rule.on spot = .stuck → (next none).Retells tails origin spot place)
    (rejected : rule.on spot = .stuck → ∀ value later, (next none).on spot = .done value later →
      tails.rest.length ≤ later.ahead.length → ∀ read after, rule.on place ≠ .done read after) :
    (Rule.attempt rule >>= next).Retells tails origin spot place := by
  refine of_on fun value later outcome within => ?_
  rw [on_bind, on_attempt] at outcome ⊢
  cases read : rule.on spot with
  | done first middle =>
      rw [read] at outcome
      have rest : (next (some first)).on middle = .done value later := outcome
      have shorter := (leads_of_on rest).length_le
      rcases tried.on read (by omega) with deep | ⟨after, done, beside⟩
      · rw [deep]
        exact .inl rfl
      · rw [done]
        exact (found first middle after beside).on outcome within
  | stuck =>
      rw [read] at outcome
      cases again : rule.on place with
      | done first after =>
          exact absurd again (rejected read value later outcome within first after)
      | stuck => exact (missing read).on outcome within
      | deep => exact .inl rfl
  | deep =>
      rw [read] at outcome
      cases outcome

end Retells

/-! ### Rules that consume tokens -/

/-- A rule that consumes at least so many tokens whenever it reads something. -/
def Spends (rule : Rule α) (count : Nat) (spot : Spot) : Prop :=
  rule.Ensures spot fun _ later => later.ahead.length + count ≤ spot.ahead.length

namespace Spends

variable {rule : Rule α} {next : α → Rule β} {spot : Spot} {count more : Nat}

theorem nothing [rule.Lawful] : rule.Spends 0 spot :=
  .of_on fun _ _ outcome => (leads_of_on outcome).length_le

theorem one [rule.Lawful] [consumes : Consuming false rule] : rule.Spends 1 spot :=
  .of_on fun value later outcome => consumes.shorter spot later value nofun outcome

/-- At a token that is not the end of input. -/
theorem inner [rule.Lawful] [consumes : Consuming true rule] (inner : spot.kind ≠ .endOfInput) :
    rule.Spends 1 spot :=
  .of_on fun value later outcome => consumes.shorter spot later value (fun _ => inner) outcome

theorem bind (first : rule.Spends count spot)
    (rest : ∀ value later, (next value).Spends more later) :
    (rule >>= next).Spends (count + more) spot :=
  Ensures.bind first fun value later spent =>
    (rest value later).mono fun _ last further => by omega

theorem advance {next : Token → Rule β} (inner : spot.kind ≠ .endOfInput)
    (rest : (next (spot.token 0)).Spends count spot.next) :
    (Rule.advance >>= next).Spends (count + 1) spot := by
  refine .step (on_advance spot) (rest.mono fun _ later spent => ?_)
  have shorter := Spot.length_next_lt inner
  omega

/-- A rule that consumes more tokens than are in common reads on behind them. -/
theorem beyond {tails : Tails} (spends : rule.Spends count spot)
    (few : spot.ahead.length < tails.rest.length + count) {value : α} {later : Spot}
    (outcome : rule.on spot = .done value later) : later.ahead.length < tails.rest.length := by
  have spent := Ensures.on spends outcome
  omega

end Spends

end Rule

end SqlDml
