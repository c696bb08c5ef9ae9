import SqlDml.Proofs.Replay.Queries

/-!
Contract: rules that do the same in front of one more closing parenthesis.

Owns:
- a spot and the same spot with one more parenthesis closed at the end of its tokens, where the
  parentheses that are open are counted;
- rules that read the same value at both, meet an unexpected token at both, or meet the nesting
  limit at both, and what they change in the count;
- how such rules are put together, and the steps that look at tokens or consume them.

Does not own: the rules of the language.
-/

namespace SqlDml

/-- A spot and the same spot with one more parenthesis closed behind its tokens.  In front of it
`depth` parentheses are open, which its own tokens close. -/
structure Spot.Capped (depth : Nat) (spot place : Spot) : Prop where
  pipes : place.settings.pipesAsConcat = spot.settings.pipesAsConcat
  source : place.source = spot.source
  last : place.last = spot.last
  markers : place.markers = spot.markers
  ahead : ∃ close : Token, close.kind = .punct .rightParen ∧ place.ahead = spot.ahead ++ [close]
  balanced : depthAfter depth spot.ahead = some 0

/-- What is known of the next token: nothing, or its kind, which is not the end of input. -/
def Spot.Shows (seen : Option TokenKind) (spot : Spot) : Prop :=
  ∀ kind, seen = some kind → spot.kind = kind ∧ spot.kind ≠ .endOfInput

theorem Spot.Shows.none (spot : Spot) : spot.Shows none := by simp [Shows]

theorem Spot.Shows.some {spot : Spot} (inner : spot.kind ≠ .endOfInput) :
    spot.Shows (some spot.kind) := by
  rintro kind ⟨⟩
  exact ⟨rfl, inner⟩

namespace Spot.Capped

variable {depth later : Nat} {spot place : Spot}

theorem token_eq (capped : spot.Capped depth place) {index : Nat}
    (inside : index < spot.ahead.length) : place.token index = spot.token index := by
  obtain ⟨close, _, ahead⟩ := capped.ahead
  rw [token, token, ahead, List.getElem?_append_left inside, List.getElem?_eq_getElem inside,
    Option.getD_some, Option.getD_some]

/-- The kinds of the tokens ahead are the same, but for the parenthesis that is closed where the
tokens end. -/
theorem kind_or (capped : spot.Capped depth place) (index : Nat) :
    (place.token index).kind = (spot.token index).kind ∨
      (spot.token index).kind = .endOfInput ∧ (place.token index).kind = .punct .rightParen := by
  by_cases inside : index < spot.ahead.length
  · exact .inl (by rw [capped.token_eq inside])
  have ended : (spot.token index).kind = .endOfInput := by
    rw [token, List.getElem?_eq_none (Nat.le_of_not_lt inside), Option.getD_none, spot.ended]
  obtain ⟨close, closes, ahead⟩ := capped.ahead
  by_cases edge : index = spot.ahead.length
  · refine .inr ⟨ended, ?_⟩
    rw [token, ahead, edge, List.getElem?_concat_length, Option.getD_some, closes]
  · left
    rw [ended, token, ahead, List.getElem?_eq_none (by simp; omega), Option.getD_none, place.ended]

/-- A token at which nothing ends is ahead of both spots or of none. -/
theorem kind_iff (capped : spot.Capped depth place) {kind : TokenKind} (going : kind.Going)
    (index : Nat) : (place.token index).kind = kind ↔ (spot.token index).kind = kind := by
  rcases capped.kind_or index with same | ⟨ended, closes⟩
  · rw [same]
  · rw [ended, closes]
    exact iff_of_false (TokenKind.Ends.closing.ne going) (TokenKind.Ends.input.ne going)

theorem inside_of_inner (inner : spot.kind ≠ .endOfInput) : 0 < spot.ahead.length := by
  rw [ahead_of_inner inner, List.length_cons]
  exact Nat.succ_pos _

theorem token_zero (capped : spot.Capped depth place) (inner : spot.kind ≠ .endOfInput) :
    place.token 0 = spot.token 0 :=
  capped.token_eq (inside_of_inner inner)

theorem kind_eq (capped : spot.Capped depth place) (inner : spot.kind ≠ .endOfInput) :
    place.kind = spot.kind := by
  rw [kind, kind, capped.token_zero inner]

/-- A parenthesis that is open is closed by a token ahead. -/
theorem inner (capped : spot.Capped (depth + 1) place) : spot.kind ≠ .endOfInput := by
  intro ended
  have balanced := capped.balanced
  cases ahead : spot.ahead with
  | nil =>
      rw [ahead] at balanced
      cases balanced
  | cons token rest =>
      rw [kind_eq_of_ahead ahead] at ended
      exact spot.inner token (ahead ▸ List.mem_cons_self) ended

theorem next (capped : spot.Capped depth place) (inner : spot.kind ≠ .endOfInput)
    (behind : spot.kind.depthBehind depth = some later) : spot.next.Capped later place.next := by
  obtain ⟨close, closes, ahead⟩ := capped.ahead
  have split := ahead_of_inner inner
  refine ⟨capped.pipes, capped.source, ?_, capped.markers, ⟨close, closes, ?_⟩, ?_⟩
  · rw [next_last, next_last, ahead, split]
    rfl
  · rw [next_ahead, next_ahead, ahead, split]
    rfl
  · have balanced := capped.balanced
    rw [split, depthAfter, show (spot.token 0).kind = spot.kind from rfl, behind] at balanced
    exact balanced

/-- Behind an opening parenthesis, where the tokens between it and the last one are balanced. -/
theorem between {opening closing : Token}
    (pipes : place.settings.pipesAsConcat = spot.settings.pipesAsConcat)
    (source : place.source = spot.source) (last : spot.last = opening.span)
    (markers : place.markers = spot.markers)
    (ahead : place.ahead = opening :: spot.ahead ++ [closing])
    (closes : closing.kind = .punct .rightParen) (balanced : depthAfter 0 spot.ahead = some 0) :
    spot.Capped 0 place.next := by
  refine ⟨pipes, source, ?_, markers, ⟨closing, closes, ?_⟩, balanced⟩
  · rw [next_last, ahead, last]
    rfl
  · rw [next_ahead, ahead]
    rfl

theorem mark (capped : spot.Capped depth place) : spot.mark.Capped depth place.mark :=
  ⟨capped.pipes, capped.source, capped.last, congrArg (· + 1) capped.markers, capped.ahead,
    capped.balanced⟩

end Spot.Capped

/-- The outcomes of a rule at a spot and in front of one more closing parenthesis: the same value,
or the same failure. -/
inductive Outcome.Capped {α : Type} (depth : Nat) : Outcome α → Outcome α → Prop where
  | done {value : α} {later after : Spot} (behind : later.Capped depth after) :
      Capped depth (.done value later) (.done value after)
  | stuck : Capped depth .stuck .stuck
  | deep : Capped depth .deep .deep

/-- A rule does in every state of a spot what it does at the spot. -/
def Rule.AgreesAt {α : Type} (rule : Rule α) (spot : Spot) : Prop :=
  ∀ state : ParserState, state.Ready → state.spot = spot → rule.Agrees state (rule.on spot)

/-- A rule does the same at a spot and in front of one more closing parenthesis. -/
structure Rule.CappedAt {α : Type} (rule : Rule α) (depth : Nat) (spot place : Spot) : Prop where
  agrees : rule.AgreesAt spot
  agrees' : rule.AgreesAt place
  outcomes : (rule.on spot).Capped depth (rule.on place)

namespace Rule

variable {α β σ : Type}

theorem agreesAt_of_lawful (rule : Rule α) [rule.Lawful] (spot : Spot) : rule.AgreesAt spot := by
  rintro state ready rfl
  exact rule.agrees_on state ready

/-- A rule that follows an outcome in every state of a spot. -/
theorem agreesAt_of {rule : Rule α} {spot : Spot} {outcome : Outcome α}
    (follows : ∀ state : ParserState, state.Ready → state.spot = spot → rule.Agrees state outcome) :
    rule.on spot = outcome ∧ rule.AgreesAt spot := by
  have same : rule.on spot = outcome := (follows spot.state spot.state_ready spot.state_spot).on_eq
  exact ⟨same, by rw [AgreesAt, same]; exact follows⟩

namespace AgreesAt

variable {rule : Rule α} {spot later : Spot}

theorem bind_done (next : α → Rule β) {value : α} (first : rule.AgreesAt spot)
    (read : rule.on spot = .done value later) (rest : (next value).AgreesAt later) :
    (rule >>= next).on spot = (next value).on later ∧ (rule >>= next).AgreesAt spot := by
  refine agreesAt_of fun state ready at_ => ?_
  have agrees := first state ready at_
  rw [read] at agrees
  obtain ⟨reached, run, leads, place⟩ := agrees
  exact .behind run leads (rest reached leads.ready place)

theorem bind_stuck (next : α → Rule β) (first : rule.AgreesAt spot)
    (read : rule.on spot = .stuck) :
    (rule >>= next).on spot = .stuck ∧ (rule >>= next).AgreesAt spot :=
  agreesAt_of fun state ready at_ => .stuck_bind (read ▸ first state ready at_)

theorem bind_deep (next : α → Rule β) (first : rule.AgreesAt spot) (read : rule.on spot = .deep) :
    (rule >>= next).on spot = .deep ∧ (rule >>= next).AgreesAt spot :=
  agreesAt_of fun state ready at_ => .deep_bind (read ▸ first state ready at_)

end AgreesAt

namespace CappedAt

variable {rule : Rule α} {next : α → Rule β} {depth middle later : Nat} {spot place : Spot}

theorem of_lawful [rule.Lawful] (outcomes : (rule.on spot).Capped depth (rule.on place)) :
    rule.CappedAt depth spot place :=
  ⟨agreesAt_of_lawful rule spot, agreesAt_of_lawful rule place, outcomes⟩

theorem done [rule.Lawful] {value : α} {reached reached' : Spot}
    (read : rule.on spot = .done value reached) (read' : rule.on place = .done value reached')
    (behind : reached.Capped depth reached') : rule.CappedAt depth spot place :=
  .of_lawful (by rw [read, read']; exact .done behind)

theorem stuck [rule.Lawful] (read : rule.on spot = .stuck) (read' : rule.on place = .stuck) :
    rule.CappedAt depth spot place :=
  .of_lawful (by rw [read, read']; exact .stuck)

theorem pure {value : α} (capped : spot.Capped depth place) :
    (Pure.pure value : Rule α).CappedAt depth spot place :=
  .done (on_pure value spot) (on_pure value place) capped

theorem bind (first : rule.CappedAt middle spot place)
    (rest : ∀ value reached reached', rule.on spot = .done value reached →
      reached.Capped middle reached' → (next value).CappedAt later reached reached') :
    (rule >>= next).CappedAt later spot place := by
  obtain ⟨agrees, agrees', outcomes⟩ := first
  generalize read : rule.on spot = outcome at outcomes
  generalize read' : rule.on place = outcome' at outcomes
  cases outcomes with
  | done behind =>
      have rest := rest _ _ _ read behind
      obtain ⟨same, follows⟩ := agrees.bind_done next read rest.agrees
      obtain ⟨same', follows'⟩ := agrees'.bind_done next read' rest.agrees'
      exact ⟨follows, follows', by rw [same, same']; exact rest.outcomes⟩
  | stuck =>
      obtain ⟨same, follows⟩ := agrees.bind_stuck next read
      obtain ⟨same', follows'⟩ := agrees'.bind_stuck next read'
      exact ⟨follows, follows', by rw [same, same']; exact .stuck⟩
  | deep =>
      obtain ⟨same, follows⟩ := agrees.bind_deep next read
      obtain ⟨same', follows'⟩ := agrees'.bind_deep next read'
      exact ⟨follows, follows', by rw [same, same']; exact .deep⟩

/-- Behind a rule that reads known values at both spots, which choose one rule. -/
theorem choose [rule.Lawful] {chosen : Rule β} {value value' : α} {reached reached' : Spot}
    (read : rule.on spot = .done value reached) (read' : rule.on place = .done value' reached')
    (same : next value = chosen) (same' : next value' = chosen)
    (rest : chosen.CappedAt later reached reached') :
    (rule >>= next).CappedAt later spot place := by
  obtain ⟨goes, follows⟩ := (agreesAt_of_lawful rule spot).bind_done next read
    (same ▸ rest.agrees)
  obtain ⟨goes', follows'⟩ := (agreesAt_of_lawful rule place).bind_done next read'
    (same' ▸ rest.agrees')
  exact ⟨follows, follows', by rw [goes, goes', same, same']; exact rest.outcomes⟩

/-- Behind a rule that reads a known value at both spots. -/
theorem step [rule.Lawful] {value : α} {reached reached' : Spot}
    (read : rule.on spot = .done value reached) (read' : rule.on place = .done value reached')
    (rest : (next value).CappedAt later reached reached') :
    (rule >>= next).CappedAt later spot place :=
  .choose read read' rfl rfl rest

theorem ite {condition : Prop} [Decidable condition] {left right : Rule α}
    (yes : condition → left.CappedAt depth spot place)
    (no : ¬ condition → right.CappedAt depth spot place) :
    (if condition then left else right).CappedAt depth spot place := by
  split
  · exact yes ‹_›
  · exact no ‹_›

/-- Behind the next token. -/
theorem advance {next : Token → Rule β} (capped : spot.Capped depth place)
    (inner : spot.kind ≠ .endOfInput) (behind : spot.kind.depthBehind depth = some middle)
    (rest : spot.next.Capped middle place.next →
      (next (spot.token 0)).CappedAt later spot.next place.next) :
    (Rule.advance >>= next).CappedAt later spot place :=
  .step (on_advance spot) (by rw [on_advance, capped.token_zero inner])
    (rest (capped.next inner behind))

/-- A choice by whether a token ahead is of a kind at which nothing ends. -/
theorem ifAhead (index : Nat) (kind : TokenKind) [going : kind.Going] {yes no : Rule β}
    (capped : spot.Capped depth place)
    (chosen : (spot.token index).kind = kind → yes.CappedAt later spot place)
    (other : no.CappedAt later spot place) :
    (aheadIs index kind >>= fun found => if found = true then yes else no).CappedAt later spot
      place := by
  have same : decide ((place.token index).kind = kind) = decide ((spot.token index).kind = kind) :=
    decide_eq_decide.mpr (capped.kind_iff going index)
  refine .step (on_aheadIs spot index kind) (same ▸ on_aheadIs place index kind) ?_
  exact .ite (fun found => chosen (of_decide_eq_true found)) fun _ => other

end CappedAt

/-- A rule that does the same in front of one more closing parenthesis, at spots in front of which
`depth` parentheses are open; behind what it reads there are `later`. -/
class Caps (seen : Option TokenKind) (depth : Nat) (rule : Rule α) (later : Nat) : Prop where
  capped : ∀ {spot place : Spot}, spot.Capped depth place → spot.Shows seen →
    rule.CappedAt later spot place

end Rule

/-- A kind of token that changes the count of open parentheses in a known way. -/
class TokenKind.Counts (kind : TokenKind) (depth later : Nat) : Prop where
  inner : kind ≠ .endOfInput
  behind : kind.depthBehind depth = some later

namespace TokenKind.Counts

variable {kind : TokenKind} {depth : Nat}

theorem of_bare (bare : kind.Bare) : kind.Counts depth depth :=
  ⟨bare.inner, depthBehind_of_bare bare depth⟩

instance [flat : kind.Flat] : kind.Counts depth depth := of_bare flat.bare

instance : (TokenKind.punct .leftParen).Counts depth (depth + 1) := ⟨by simp, rfl⟩

instance : (TokenKind.punct .rightParen).Counts (depth + 1) depth := ⟨by simp, rfl⟩

end TokenKind.Counts

/-- A kind of token that comes next at a spot where and only where it does in front of one more
closing parenthesis. -/
class TokenKind.Told (kind : TokenKind) (depth : Nat) : Prop where
  told : ∀ {spot place : Spot}, spot.Capped depth place → (place.kind = kind ↔ spot.kind = kind)

namespace TokenKind.Told

variable {kind : TokenKind} {depth : Nat}

/-- Where a parenthesis is open, the next token is in common. -/
instance (priority := high) opened : kind.Told (depth + 1) :=
  ⟨fun capped => by rw [capped.kind_eq capped.inner]⟩

instance going [going : kind.Going] : kind.Told depth :=
  ⟨fun capped => capped.kind_iff going 0⟩

end TokenKind.Told

instance : (TokenKind.punct .leftBrace).Going := ⟨by rintro ⟨⟩⟩

instance : (TokenKind.punct .rightBrace).Going := ⟨by rintro ⟨⟩⟩

namespace Rule

open Comparison (Looking)

variable {α β σ : Type}

namespace Caps

variable {seen : Option TokenKind} {depth later : Nat} {rule : Rule α} {next : α → Rule β}

theorem at_ [caps : Caps none depth rule later] {spot place : Spot}
    (capped : spot.Capped depth place) : rule.CappedAt later spot place :=
  caps.capped capped (.none spot)

instance (priority := low) of_none [Caps none depth rule later] : Caps seen depth rule later :=
  ⟨fun capped _ => at_ capped⟩

/-! ### Sequences -/

instance pure (value : α) : Caps seen depth (Pure.pure value : Rule α) depth :=
  ⟨fun capped _ => .pure capped⟩

instance fail (expected : List String) : Caps seen depth (Rule.fail expected : Rule α) later :=
  ⟨fun _ _ => .stuck (on_fail expected _) (on_fail expected _)⟩

instance tooDeep : Caps seen depth (Rule.tooDeep : Rule α) later :=
  ⟨fun {spot place} _ _ => .of_lawful (by rw [on_tooDeep, on_tooDeep]; exact .deep)⟩

theorem moved (middle : Nat) (first : Caps seen depth rule middle)
    (rest : ∀ value, Caps none middle (next value) later) : Caps seen depth (rule >>= next) later :=
  ⟨fun capped shows => .bind (first.capped capped shows) fun value _ _ _ behind =>
    (rest value).at_ behind⟩

theorem behind [first : Caps seen depth rule depth]
    (rest : ∀ value, Caps none depth (next value) later) : Caps seen depth (rule >>= next) later :=
  moved depth first rest

instance bind [Caps seen depth rule depth] [rest : ∀ value, Caps none depth (next value) later] :
    Caps seen depth (rule >>= next) later :=
  behind rest

/-- Behind a look, what is known of the next token is still known. -/
theorem look [rule.Lawful] [look : Looking rule] [first : Caps seen depth rule depth]
    (rest : ∀ value, Caps seen depth (next value) later) :
    Caps seen depth (rule >>= next) later := by
  refine ⟨fun {spot place} capped shows => .bind (first.capped capped shows) ?_⟩
  intro value reached reached' read behind
  obtain ⟨found, stays⟩ := look.stays spot
  cases stays.symm.trans read
  exact (rest _).capped behind shows

instance map (change : α → β) [Caps seen depth rule depth] :
    Caps seen depth (change <$> rule) depth := by
  rw [map_eq_bind]
  infer_instance

instance ite (condition : Prop) [Decidable condition] {left right : Rule α}
    [Caps seen depth left later] [Caps seen depth right later] :
    Caps seen depth (if condition then left else right) later := by
  split <;> infer_instance

instance enter [rule.Lawful] [first : Caps seen depth rule later] :
    Caps seen depth (Rule.enter rule) later :=
  ⟨fun capped shows => .of_lawful (by
    rw [on_enter, on_enter]
    exact (first.capped capped shows).outcomes)⟩

/-- An alternative that matches at both spots or at none. -/
instance attempt [rule.Lawful] [first : Caps seen depth rule depth] :
    Caps seen depth (Rule.attempt rule) depth := by
  refine ⟨fun {spot place} capped shows => .of_lawful ?_⟩
  have outcomes := (first.capped capped shows).outcomes
  rw [on_attempt, on_attempt]
  generalize rule.on spot = outcome at outcomes
  generalize rule.on place = outcome' at outcomes
  cases outcomes with
  | done behind => exact .done behind
  | stuck => exact .done capped
  | deep => exact .deep

/-! ### Looking at tokens -/

/-- A rule that stays where it is, and reads the same there. -/
theorem of_stays [rule.Lawful] (value : Spot → α)
    (stays : ∀ spot, rule.on spot = .done (value spot) spot)
    (same : ∀ {spot place}, spot.Capped depth place → spot.Shows seen → value place = value spot) :
    Caps seen depth rule depth :=
  ⟨fun {spot place} capped shows =>
    .done (stays spot) (by rw [stays, same capped shows]) capped⟩

instance : Caps seen depth previousSpan depth :=
  of_stays _ on_previousSpan fun capped _ => capped.last

instance (kind : TokenKind) : Caps (some kind) depth currentSpan depth :=
  of_stays _ on_currentSpan fun capped shows => by rw [capped.token_zero (shows _ rfl).2]

instance : Caps seen (depth + 1) currentSpan (depth + 1) :=
  of_stays _ on_currentSpan fun capped _ => by rw [capped.token_zero capped.inner]

instance : Caps seen (depth + 1) peek (depth + 1) :=
  of_stays _ on_peek fun capped _ => capped.kind_eq capped.inner

instance (kind : TokenKind) [told : kind.Told depth] : Caps seen depth (nextIs kind) depth :=
  of_stays _ (fun spot => on_nextIs spot kind) fun capped _ =>
    decide_eq_decide.mpr (told.told capped)

instance (word : Keyword) [(TokenKind.keyword word).Told depth] :
    Caps seen depth (nextIsWord word) depth :=
  inferInstanceAs (Caps seen depth (nextIs _) depth)

instance (mark : Punct) [(TokenKind.punct mark).Told depth] :
    Caps seen depth (nextIsMark mark) depth :=
  inferInstanceAs (Caps seen depth (nextIs _) depth)

instance (index : Nat) (kind : TokenKind) [going : kind.Going] :
    Caps seen depth (aheadIs index kind) depth :=
  of_stays _ (fun spot => on_aheadIs spot index kind) fun capped _ =>
    decide_eq_decide.mpr (capped.kind_iff going index)

/-! ### Consuming tokens -/

instance : Caps seen depth nextPlaceholder depth :=
  ⟨fun {spot place} capped _ => .done (on_nextPlaceholder spot)
    (by rw [on_nextPlaceholder, capped.markers]) capped.mark⟩

instance (kind : TokenKind) [counts : kind.Counts depth later] :
    Caps (some kind) depth Rule.advance later := by
  refine ⟨fun {spot place} capped shows => ?_⟩
  obtain ⟨rfl, inner⟩ := shows _ rfl
  exact .done (on_advance spot) (by rw [on_advance, capped.token_zero inner])
    (capped.next inner counts.behind)

/-- A choice by whether a kind of token comes next. -/
theorem ifNext (kind : TokenKind) [told : kind.Told depth] {yes no : Rule α}
    (inner : kind ≠ .endOfInput) [chosen : Caps (some kind) depth yes later]
    [other : Caps seen depth no later] :
    Caps seen depth (nextIs kind >>= fun found => if found = true then yes else no) later := by
  refine ⟨fun {spot place} capped shows => ?_⟩
  have same : decide (place.kind = kind) = decide (spot.kind = kind) :=
    decide_eq_decide.mpr (told.told capped)
  refine .step (on_nextIs spot kind) (same ▸ on_nextIs place kind)
    (.ite (fun found => ?_) fun _ => ?_)
  · obtain rfl := of_decide_eq_true found
    exact chosen.capped capped (.some inner)
  · exact other.capped capped shows

/-- A choice by whether a kind of token is consumed. -/
theorem ifEaten (kind : TokenKind) (middle : Nat) [told : kind.Told depth]
    [counts : kind.Counts depth middle] {yes no : Rule α} [chosen : Caps none middle yes later]
    [other : Caps none depth no later] :
    Caps seen depth (Rule.eat kind >>= fun found => if found = true then yes else no) later := by
  refine ⟨fun {spot place} capped _ => ?_⟩
  by_cases found : spot.kind = kind
  · have inner : spot.kind ≠ .endOfInput := found ▸ counts.inner
    refine .step (on_eat_found found) (on_eat_found ((told.told capped).mpr found)) ?_
    exact chosen.at_ (capped.next inner (found ▸ counts.behind))
  · refine .step (on_eat_missing found) (on_eat_missing (mt (told.told capped).mp found)) ?_
    exact other.at_ capped

instance (kind : TokenKind) [told : kind.Told depth] [counts : kind.Counts depth depth] :
    Caps seen depth (Rule.eat kind) depth := by
  unfold Rule.eat
  exact ifNext kind counts.inner

instance (word : Keyword) [(TokenKind.keyword word).Told depth] :
    Caps seen depth (eatWord word) depth :=
  inferInstanceAs (Caps seen depth (Rule.eat _) depth)

instance (mark : Punct) [(TokenKind.punct mark).Told depth]
    [(TokenKind.punct mark).Counts depth depth] : Caps seen depth (eatMark mark) depth :=
  inferInstanceAs (Caps seen depth (Rule.eat _) depth)

instance (kind : TokenKind) [told : kind.Told depth] [counts : kind.Counts depth later] :
    Caps seen depth (Rule.expect kind) later := by
  have consumed : Caps (some kind) depth (do return (← Rule.advance).span) later :=
    moved later inferInstance fun token => inferInstance
  unfold Rule.expect
  exact ifNext kind counts.inner

instance (word : Keyword) [(TokenKind.keyword word).Told depth] :
    Caps seen depth (expectWord word) depth :=
  inferInstanceAs (Caps seen depth (Rule.expect _) depth)

instance (mark : Punct) [(TokenKind.punct mark).Told depth]
    [(TokenKind.punct mark).Counts depth later] : Caps seen depth (expectMark mark) later :=
  inferInstanceAs (Caps seen depth (Rule.expect _) later)

instance opening {next : Span → Rule α} [rest : ∀ span, Caps none (depth + 1) (next span) later] :
    Caps seen depth (expectMark .leftParen >>= next) later :=
  moved (depth + 1) inferInstance rest

instance closing {next : Span → Rule α} [rest : ∀ span, Caps none depth (next span) later] :
    Caps seen (depth + 1) (expectMark .rightParen >>= next) later :=
  moved depth inferInstance rest

/-! ### Choices by the tokens ahead -/

/-- A choice by a token ahead, with one rule for both ways in which the tokens may end. -/
theorem byAhead (index : Nat) {next : TokenKind → Rule α} (quiet : Rule α)
    (input : next .endOfInput = quiet) (closing : next (.punct .rightParen) = quiet)
    [silent : Caps seen depth quiet later]
    (common : ∀ {spot place : Spot}, spot.Capped depth place → spot.Shows seen →
      (spot.token index).kind ≠ .endOfInput →
      (next (spot.token index).kind).CappedAt later spot place) :
    Caps seen depth (peekAhead index >>= next) later := by
  refine ⟨fun {spot place} capped shows => ?_⟩
  by_cases ended : (spot.token index).kind = .endOfInput
  · refine .choose (on_peekAhead spot index) (on_peekAhead place index) (ended ▸ input) ?_
      (silent.capped capped shows)
    rcases capped.kind_or index with same | ⟨_, closes⟩
    · rw [same, ended, input]
    · rw [closes, closing]
  · have same := (capped.kind_or index).resolve_right fun edge => ended edge.1
    exact .step (on_peekAhead spot index) (same ▸ on_peekAhead place index)
      (common capped shows ended)

/-- A choice by the next token. -/
theorem byKind {next : TokenKind → Rule α} (quiet : Rule α) (input : next .endOfInput = quiet)
    (closing : next (.punct .rightParen) = quiet) [silent : Caps none depth quiet later]
    (common : ∀ kind, Caps (some kind) depth (next kind) later) :
    Caps seen depth (peek >>= next) later :=
  byAhead 0 quiet input closing fun capped _ inner => (common _).capped capped (.some inner)

/-- A choice by the next token, of which more than its kind is used. -/
theorem byToken {next : Token → Rule α} (quiet : Rule α)
    (ends : ∀ token : Token, token.kind = .endOfInput ∨ token.kind = .punct .rightParen →
      next token = quiet)
    [silent : Caps none depth quiet later]
    (common : ∀ token : Token, Caps (some token.kind) depth (next token) later) :
    Caps seen depth (peekToken 0 >>= next) later := by
  refine ⟨fun {spot place} capped _ => ?_⟩
  by_cases inner : spot.kind = .endOfInput
  · refine .choose (on_peekToken 0 spot) (on_peekToken 0 place) (ends _ (.inl inner)) (ends _ ?_)
      (silent.at_ capped)
    rcases capped.kind_or 0 with same | ⟨_, closes⟩
    · exact .inl (same.trans inner)
    · exact .inr closes
  · refine .step (on_peekToken 0 spot) (capped.token_zero inner ▸ on_peekToken 0 place) ?_
    exact (common _).capped capped (.some inner)

/-! ### Repetition -/

instance whileSome {step : σ → Rule (Option σ)} [∀ value, (step value).Lawful]
    [∀ value, (step value).Shortens] [steps : ∀ value, Caps none depth (step value) depth]
    (first : σ) : Caps seen depth (Rule.whileSome step first) depth := by
  refine ⟨fun {spot place} capped shows => .of_lawful ?_⟩
  clear shows
  -- by induction on the tokens that are left, which every step that gives something shortens
  generalize length : spot.ahead.length = count
  induction count using Nat.strongRecOn generalizing first spot place with
  | ind count inductionHypothesis =>
      have outcomes := ((steps first).at_ capped).outcomes
      rw [on_whileSome, on_whileSome]
      generalize read : (step first).on spot = outcome at outcomes
      generalize (step first).on place = outcome' at outcomes
      cases outcomes with
      | @done found reached reached' behind =>
          cases found with
          | none => exact .done behind
          | some value =>
              have shorter := Shortens.shorter spot reached value read
              exact inductionHypothesis _ (length ▸ shorter) value behind rfl
      | stuck => exact .stuck
      | deep => exact .deep

instance nextItem {item : Rule α} [item.Lawful] [Caps none depth item depth] (items : List α) :
    Caps seen depth (Rule.nextItem item items) depth := by
  unfold Rule.nextItem
  infer_instance

instance commaSeparated {item : Rule α} [item.Lawful] [Caps seen depth item depth]
    [Caps none depth item depth] : Caps seen depth (Rule.commaSeparated item) depth := by
  rw [commaSeparated_eq]
  infer_instance

end Caps

end Rule

end SqlDml
