import SqlDml.Proofs.Replay.Retells

/-!
Contract: rules that read the same whatever follows behind the end of a piece of the tokens.

Owns:
- tails behind which every expression ends, and tails inside a pair of parentheses;
- rules that read the same in front of other tails, everywhere or only where a token in common is
  ahead, and how such rules are put together;
- steps that look at tokens or consume them, and their repetition, as such rules.

Does not own: the rules of the language.
-/

namespace SqlDml

/-- A kind of token at which expressions and table references end: the end of input, a closing
parenthesis, or `ON`, which goes on only behind a join. -/
inductive TokenKind.Ends : TokenKind → Prop where
  | input : Ends .endOfInput
  | closing : Ends (.punct .rightParen)
  | joined : Ends (.keyword .ON)

namespace Tails

/-- A list of tokens, behind a token, that is empty or begins where expressions end.  No dot is in
front of `ON`, which would be a name there. -/
structure Ending (before : Option Token) (tokens : List Token) : Prop where
  ends : ∀ token ∈ tokens.head?, token.kind.Ends
  apart : ∀ token ∈ tokens.head?, token.kind = .keyword .ON →
    ∀ dot ∈ before, dot.kind ≠ .punct .dot

/-- Expressions end where the other tail begins. -/
class Open (tails : Tails) : Prop where
  other : Ending tails.before tails.other

/-- Expressions end where the tails begin. -/
class Ended (tails : Tails) : Prop extends tails.Open where
  rest : Ending tails.before tails.rest

/-- Both tails begin with a closing parenthesis. -/
class Closed (tails : Tails) : Prop where
  rest : ∃ token ∈ tails.rest.head?, token.kind = .punct .rightParen
  other : ∃ token ∈ tails.other.head?, token.kind = .punct .rightParen

theorem Ending.nil (before : Option Token) : Ending before [] := ⟨by simp, by simp⟩

/-- Expressions end at a closing parenthesis. -/
theorem Ending.of_closed {tokens : List Token} (before : Option Token)
    (closed : ∃ token ∈ tokens.head?, token.kind = .punct .rightParen) : Ending before tokens := by
  obtain ⟨close, found, kind⟩ := closed
  constructor
  · intro token first
    cases first.symm.trans found
    exact kind ▸ .closing
  · intro token first joined
    cases first.symm.trans found
    cases kind.symm.trans joined

instance (tails : Tails) [closed : tails.Closed] : tails.Ended where
  other := .of_closed _ closed.other
  rest := .of_closed _ closed.rest

instance (tails : Tails) [closed : tails.Closed] : tails.flip.Closed := ⟨closed.other, closed.rest⟩

instance (tails : Tails) [ended : tails.Ended] : tails.flip.Ended where
  other := ended.rest
  rest := ended.other

variable {tails : Tails} {origin spot place : Spot}

namespace Beside

/-- Where the other tail comes next, expressions end. -/
theorem kind_at [opens : tails.Open] (beside : tails.Beside origin spot place) (index : Nat)
    (edge : spot.ahead.length = tails.rest.length + index) : (place.token index).kind.Ends := by
  rw [(beside.token_at index edge).2]
  cases first : tails.other.head? with
  | none => exact place.ended ▸ .input
  | some token => exact opens.other.ends token first

/-- Where the one tail comes next, expressions end as well. -/
theorem kind_at' [ended : tails.Ended] (beside : tails.Beside origin spot place) (index : Nat)
    (edge : spot.ahead.length = tails.rest.length + index) : (spot.token index).kind.Ends := by
  rw [(beside.token_at index edge).1]
  cases first : tails.rest.head? with
  | none => exact spot.ended ▸ .input
  | some token => exact ended.rest.ends token first

/-- Behind a dot in common no name follows where the other tail comes next. -/
theorem not_name_behind_dot [opens : tails.Open] (beside : tails.Beside origin spot place)
    (index : Nat) (dot : (spot.token index).kind = .punct .dot)
    (edge : spot.ahead.length = tails.rest.length + (index + 1)) :
    (place.token (index + 1)).kind.isNameAfterDot = false := by
  obtain ⟨front, ahead, _⟩ := beside.ahead
  have length : front.length = index + 1 := by
    rw [ahead, List.length_append] at edge
    omega
  have last : spot.token index ∈ front.getLast? := by
    rw [Option.mem_def, List.getLast?_eq_getElem?, length, Spot.token, ahead,
      List.getElem?_append_left (by omega)]
    simp [length]
  rw [(beside.token_at (index + 1) edge).2]
  cases first : tails.other.head? with
  | none => rw [Option.getD_none, place.ended]; rfl
  | some token =>
      have apart := opens.other.apart token first
      have ends := opens.other.ends token first
      rw [Option.getD_some]
      generalize same : token.kind = kind at ends
      cases ends with
      | input => rfl
      | closing => rfl
      | joined => exact absurd dot (apart same _ (beside.edge ahead _ last))

/-- Inside parentheses both tails begin alike. -/
theorem kind_eq_at [closed : tails.Closed] (beside : tails.Beside origin spot place) (index : Nat)
    (edge : spot.ahead.length = tails.rest.length + index) :
    (spot.token index).kind = .punct .rightParen ∧
      (place.token index).kind = .punct .rightParen := by
  obtain ⟨token, first, kind⟩ := closed.rest
  obtain ⟨other, first', kind'⟩ := closed.other
  obtain ⟨at_, at_'⟩ := beside.token_at index edge
  rw [at_, at_', Option.mem_def.mp first, Option.mem_def.mp first']
  exact ⟨kind, kind'⟩

/-- Inside parentheses the next tokens are of one kind. -/
theorem kind_eq [tails.Closed] (beside : tails.Beside origin spot place) :
    place.kind = spot.kind := by
  rcases beside.cases with ⟨ahead, _⟩ | inside
  · obtain ⟨kind, kind'⟩ := beside.kind_eq_at 0 (by rw [ahead]; rfl)
    exact kind'.trans kind.symm
  · exact beside.kind inside

end Beside

end Tails

/-- A kind of token at which nothing ends. -/
class TokenKind.Going (kind : TokenKind) : Prop where
  goes : ¬ kind.Ends

/-- Whether nothing ends at a keyword. -/
@[reducible] def Keyword.goesOn : Keyword → Bool
  | .ON => false
  | _ => true

/-- A keyword at which nothing ends. -/
class Keyword.Going (goesOn : Bool) : Prop where
  holds : goesOn = true

instance : Keyword.Going true := ⟨rfl⟩

instance (word : Keyword) [going : Keyword.Going word.goesOn] : (TokenKind.keyword word).Going where
  goes ends := by
    cases ends
    cases going.holds

instance : (TokenKind.punct .comma).Going := ⟨by rintro ⟨⟩⟩

instance : (TokenKind.punct .dot).Going := ⟨by rintro ⟨⟩⟩

instance : (TokenKind.punct .star).Going := ⟨by rintro ⟨⟩⟩

instance : (TokenKind.punct .leftParen).Going := ⟨by rintro ⟨⟩⟩

theorem TokenKind.Going.inner {kind : TokenKind} (going : kind.Going) : kind ≠ .endOfInput :=
  fun same => going.goes (same ▸ .input)

/-- A token at which nothing ends is of another kind. -/
theorem TokenKind.Ends.ne {kind other : TokenKind} (ends : kind.Ends) (going : other.Going) :
    kind ≠ other :=
  fun same => going.goes (same ▸ ends)

section

variable {tails : Tails} [tails.Ended] {origin spot place : Spot} {kind : TokenKind}

/-- Up to where the tails begin, a token at which nothing ends is at both spots or at none. -/
theorem Tails.Beside.kind_iff (beside : tails.Beside origin spot place) (going : kind.Going)
    {index : Nat} (upto : tails.rest.length + index ≤ spot.ahead.length) :
    (place.token index).kind = kind ↔ (spot.token index).kind = kind := by
  rcases Nat.lt_or_eq_of_le upto with common | edge
  · rw [beside.token_eq index common]
  · have ends := beside.kind_at' index edge.symm
    have ends' := beside.kind_at index edge.symm
    exact iff_of_false (ends'.ne going) (ends.ne going)

/-- Such a token is in common, where those in front of it are. -/
theorem Tails.Beside.inside_of_kind (beside : tails.Beside origin spot place) (going : kind.Going)
    {index : Nat} (upto : tails.rest.length + index ≤ spot.ahead.length)
    (found : (spot.token index).kind = kind) : tails.rest.length + index < spot.ahead.length := by
  refine Nat.lt_of_le_of_ne upto fun edge => ?_
  exact (beside.kind_at' index edge.symm).ne going found

end

namespace Comparison.Consuming

variable {α β : Type} {inside : Bool} {rule : Rule α} {next : α → Rule β}

instance fail (expected : List String) : Consuming inside (Rule.fail expected : Rule α) where
  shorter spot later value _ outcome := by
    rw [Rule.on_fail] at outcome
    cases outcome

instance ite (condition : Prop) [Decidable condition] {left right : Rule α}
    [Consuming inside left] [Consuming inside right] :
    Consuming inside (if condition then left else right) := by
  split <;> infer_instance

/-- Behind another rule. -/
instance (priority := low) behind [rule.Lawful] [∀ value, (next value).Lawful]
    [rest : ∀ value, Consuming false (next value)] : Consuming inside (rule >>= next) where
  shorter spot later value _ outcome := by
    rw [Rule.on_bind] at outcome
    obtain ⟨read, middle, first, second⟩ := Outcome.bind_eq_done.mp outcome
    have shorter := (Rule.leads_of_on first).length_le
    have consumed := (rest read).shorter middle later value nofun second
    omega

end Comparison.Consuming

namespace Rule

open Comparison (Consuming Looking)

variable {α β σ : Type}

/-- A rule that reads the same in front of other tails; with `inside`, where a token in common is
ahead. -/
class Steady (tails : Tails) (origin : Spot) (inside : Bool) (rule : Rule α) : Prop where
  retells : ∀ {spot place}, tails.Beside origin spot place → (inside = true → tails.Within spot) →
    rule.Retells tails origin spot place

namespace Steady

variable {tails : Tails} {origin : Spot} {inside : Bool} {rule : Rule α} {next : α → Rule β}

theorem anywhere [steady : Steady tails origin false rule] {spot place : Spot}
    (beside : tails.Beside origin spot place) : rule.Retells tails origin spot place :=
  steady.retells beside fun never => absurd never Bool.false_ne_true

theorem within [steady : Steady tails origin true rule] {spot place : Spot}
    (beside : tails.Beside origin spot place) (within : tails.Within spot) :
    rule.Retells tails origin spot place :=
  steady.retells beside fun _ => within

instance (priority := low) of_anywhere [Steady tails origin false rule] :
    Steady tails origin inside rule :=
  ⟨fun beside _ => anywhere beside⟩

/-- A rule that consumes a token is compared only where a token in common is ahead. -/
theorem of_spends [rule.Lawful] [steady : Steady tails origin true rule]
    (spends : ∀ spot, origin.Reaches spot → rule.Spends 1 spot) :
    Steady tails origin inside rule := by
  refine ⟨fun {spot place} beside _ => ?_⟩
  rcases beside.cases with ⟨ahead, _⟩ | inside
  · refine .beyond fun value later outcome => ?_
    exact (spends spot beside.reaches).beyond (by rw [ahead]; omega) outcome
  · exact within beside inside

instance (priority := low) of_consuming [rule.Lawful] [Consuming false rule]
    [Steady tails origin true rule] : Steady tails origin inside rule :=
  of_spends fun _ _ => .one

/-! ### Sequences -/

instance pure (value : α) : Steady tails origin inside (Pure.pure value) :=
  ⟨fun beside _ => .pure beside⟩

instance fail (expected : List String) :
    Steady tails origin inside (Rule.fail expected : Rule α) := ⟨fun _ _ => .fail⟩

instance bind [first : Steady tails origin inside rule] [∀ value, (next value).Lawful]
    [rest : ∀ value, Steady tails origin false (next value)] :
    Steady tails origin inside (rule >>= next) :=
  ⟨fun beside within => .bind (first.retells beside within) fun value _ _ beside =>
    (rest value).retells beside nofun⟩

theorem behind [first : Steady tails origin inside rule] (lawful : ∀ value, (next value).Lawful)
    (rest : ∀ value, Steady tails origin false (next value)) :
    Steady tails origin inside (rule >>= next) := inferInstance

/-- Behind a look that the tails do not change. -/
theorem look [rule.Lawful] [look : Looking rule] [first : Steady tails origin inside rule]
    (rest : ∀ value, Steady tails origin inside (next value)) :
    Steady tails origin inside (rule >>= next) := by
  refine ⟨fun {spot place} beside within => ?_⟩
  obtain ⟨value, found⟩ := look.stays spot
  obtain ⟨value', found'⟩ := look.stays place
  rcases (first.retells beside within).on found beside.length_le with deep | ⟨after, again, _⟩
  · cases found'.symm.trans deep
  · cases found'.symm.trans again
    exact .step found found' ((rest value).retells beside within)

instance map (change : α → β) [Steady tails origin inside rule] :
    Steady tails origin inside (change <$> rule) := by
  rw [map_eq_bind]
  infer_instance

instance ite (condition : Prop) [Decidable condition] {left right : Rule α}
    [Steady tails origin inside left] [Steady tails origin inside right] :
    Steady tails origin inside (if condition then left else right) := by
  split <;> infer_instance

instance enter [rule.Lawful] [first : Steady tails origin inside rule] :
    Steady tails origin inside (Rule.enter rule) :=
  ⟨fun beside within => .enter (first.retells beside within)⟩

instance tooDeep : Steady tails origin inside (Rule.tooDeep : Rule α) := ⟨fun _ _ => .tooDeep⟩

/-! ### Tokens -/

instance : Looking sourceChars := ⟨fun spot => ⟨_, on_sourceChars spot⟩⟩

instance : Looking currentSettings := ⟨fun spot => ⟨_, on_currentSettings spot⟩⟩

instance : Looking peek := ⟨fun spot => ⟨_, on_peek spot⟩⟩

/-- A rule that stays where it is, and reads the same there. -/
theorem of_stays [rule.Lawful] (value : Spot → α)
    (stays : ∀ spot, rule.on spot = .done (value spot) spot)
    (same : ∀ {spot place}, tails.Beside origin spot place → (inside = true → tails.Within spot) →
      value place = value spot) : Steady tails origin inside rule := by
  refine ⟨fun {spot place} beside within => .of_on fun read later outcome _ => ?_⟩
  rw [stays] at outcome
  cases outcome
  exact .inr ⟨place, by rw [stays, same beside within], beside⟩

instance : Steady tails origin true (peekToken 0) :=
  of_stays _ (on_peekToken 0) fun beside within => beside.token (within rfl)

instance : Steady tails origin true peek :=
  of_stays _ on_peek fun beside within => beside.kind (within rfl)

instance : Steady tails origin true (peekAhead 0) := inferInstanceAs (Steady tails origin true peek)

instance : Steady tails origin true currentSpan :=
  of_stays _ on_currentSpan fun beside within => by rw [beside.token (within rfl)]

instance : Steady tails origin inside previousSpan :=
  of_stays _ on_previousSpan fun beside _ => beside.last

instance : Steady tails origin inside sourceChars :=
  of_stays _ on_sourceChars fun beside _ => beside.source

instance : Steady tails origin inside currentSettings :=
  of_stays _ on_currentSettings fun beside _ => beside.settings

instance (kind : TokenKind) : Steady tails origin true (nextIs kind) :=
  of_stays _ (fun spot => on_nextIs spot kind) fun beside within => by rw [beside.kind (within rfl)]

instance (word : Keyword) : Steady tails origin true (nextIsWord word) :=
  inferInstanceAs (Steady tails origin true (nextIs _))

instance (mark : Punct) : Steady tails origin true (nextIsMark mark) :=
  inferInstanceAs (Steady tails origin true (nextIs _))

instance : Steady tails origin inside nextPlaceholder := by
  refine ⟨fun {spot place} beside _ => .of_on fun number later outcome _ => ?_⟩
  rw [on_nextPlaceholder] at outcome
  cases outcome
  exact .inr ⟨place.mark, by rw [on_nextPlaceholder, beside.markers], beside.mark⟩

instance : Steady tails origin true Rule.advance := by
  refine ⟨fun {spot place} beside within => .of_on fun token later outcome _ => ?_⟩
  rw [on_advance] at outcome
  cases outcome
  exact .inr ⟨place.next, by rw [on_advance, beside.token (within rfl)], beside.next (within rfl)⟩

instance (kind : TokenKind) : Steady tails origin true (Rule.eat kind) := by
  unfold Rule.eat
  exact look fun found => inferInstance

instance (word : Keyword) : Steady tails origin true (eatWord word) :=
  inferInstanceAs (Steady tails origin true (Rule.eat _))

instance (mark : Punct) : Steady tails origin true (eatMark mark) :=
  inferInstanceAs (Steady tails origin true (Rule.eat _))

instance (kind : TokenKind) [going : kind.Going] [tails.Open] :
    Steady tails origin inside (Rule.eat kind) := by
  refine ⟨fun {spot place} beside _ => ?_⟩
  rcases beside.cases with ⟨ahead, _⟩ | inside
  · by_cases found : spot.kind = kind
    · refine .beyond fun value later outcome => ?_
      rw [on_eat_found found] at outcome
      cases outcome
      rw [← ahead]
      exact Spot.length_next_lt (found ▸ going.inner)
    · have missing : place.kind ≠ kind := (beside.kind_at 0 (by rw [ahead]; rfl)).ne going
      refine .of_on fun value later outcome _ => ?_
      rw [on_eat_missing found] at outcome
      cases outcome
      exact .inr ⟨place, on_eat_missing missing, beside⟩
  · exact within beside inside

/-- What is required of the next token is consumed. -/
theorem expect (kind : TokenKind) (inner : kind ≠ .endOfInput) :
    Steady tails origin inside (Rule.expect kind) := by
  have consumes : Consuming false (Rule.expect kind) := .expectInside inner
  have expects : Steady tails origin true (Rule.expect kind) := by
    unfold Rule.expect
    exact look fun found => inferInstance
  exact of_consuming

instance (word : Keyword) : Steady tails origin inside (expectWord word) := expect _ nofun

instance (mark : Punct) : Steady tails origin inside (expectMark mark) := expect _ nofun

instance (word : Keyword) [Keyword.Going word.goesOn] [tails.Open] :
    Steady tails origin inside (eatWord word) :=
  inferInstanceAs (Steady tails origin inside (Rule.eat _))

instance (mark : Punct) [(TokenKind.punct mark).Going] [tails.Open] :
    Steady tails origin inside (eatMark mark) :=
  inferInstanceAs (Steady tails origin inside (Rule.eat _))

/-! ### Choices by what is further ahead -/

/-- A choice by an answer that the tails change only where the rule that is chosen at the one spot
reads on behind the tokens in common. -/
theorem choose {look : Rule Bool} [look.Lawful] (answer : Spot → Bool)
    (asks : ∀ spot, look.on spot = .done (answer spot) spot) {yes no : Rule α} [yes.Lawful]
    [no.Lawful] [chosen : Steady tails origin true yes] [other : Steady tails origin inside no]
    (same : ∀ {spot place}, tails.Beside origin spot place → (inside = true → tails.Within spot) →
      answer place = answer spot ∧ (answer spot = true → tails.Within spot) ∨
        answer spot = true ∧ ∀ value later, yes.on spot = .done value later →
          later.ahead.length < tails.rest.length) :
    Steady tails origin inside (look >>= fun found => if found = true then yes else no) := by
  refine ⟨fun {spot place} beside within => ?_⟩
  rcases same beside within with ⟨alike, common⟩ | ⟨present, beyond⟩
  · refine .step (asks spot) (alike ▸ asks place) (.ite (fun known => ?_) fun _ => ?_)
    · exact chosen.retells beside fun _ => common known
    · exact other.retells beside within
  · refine .beyond fun value later outcome => beyond value later ?_
    rw [on_bind, asks, present] at outcome
    exact outcome

/-- A choice by the next token, which the tails change only so that the rule `quiet` is chosen in
place of a rule that consumes a token. -/
theorem byKind [tails.Open] {next : TokenKind → Rule α} (lawful : ∀ kind, (next kind).Lawful)
    (quiet : Rule α) [silent : Steady tails origin inside quiet]
    (ends : ∀ kind, kind.Ends → next kind = quiet)
    (others : ∀ spot : Spot, origin.Reaches spot → spot.kind ≠ .endOfInput →
      next spot.kind = quiet ∨ (next spot.kind).Spends 1 spot)
    (common : ∀ kind, Steady tails origin true (next kind)) :
    Steady tails origin inside (peek >>= next) := by
  refine ⟨fun {spot place} beside common' => .of_on fun value later outcome within => ?_⟩
  rw [on_bind, on_peek, Outcome.bind_done] at outcome ⊢
  rcases beside.cases with ⟨ahead, _⟩ | inside
  · have chosen : next place.kind = quiet := ends _ (beside.kind_at 0 (by rw [ahead]; rfl))
    have known : next spot.kind = quiet ∨ (next spot.kind).Spends 1 spot := by
      by_cases stop : spot.kind = .endOfInput
      · exact .inl (ends _ (stop ▸ .input))
      · exact others spot beside.reaches stop
    rcases known with same | spends
    · have lawful : quiet.Lawful := same ▸ lawful _
      rw [same] at outcome
      rw [chosen]
      exact (silent.retells beside common').on outcome within
    · have beyond : later.ahead.length < tails.rest.length :=
        spends.beyond (by rw [ahead]; omega) outcome
      omega
  · rw [beside.kind inside]
    exact ((common _).retells beside fun _ => inside).on outcome within

/-- A choice by whether the token behind the next one is of some kind.  Where it is, both tokens are
consumed. -/
theorem ifNext [tails.Open] (kind : TokenKind) [going : kind.Going] {yes no : Rule α} [yes.Lawful]
    [no.Lawful] [Steady tails origin true yes] [Steady tails origin true no]
    (spends : ∀ spot : Spot, spot.kind ≠ .endOfInput → (spot.token 1).kind = kind →
      yes.Spends 2 spot) :
    Steady tails origin true
      (aheadIs 1 kind >>= fun found => if found = true then yes else no) := by
  refine choose (fun spot => decide ((spot.token 1).kind = kind)) (fun spot => on_aheadIs spot 1 kind)
    fun {spot place} beside inside => ?_
  have inside : tails.Within spot := inside rfl
  by_cases both : tails.rest.length + 1 < spot.ahead.length
  · exact .inl ⟨by rw [beside.token_eq 1 both], fun _ => inside⟩
  · have edge : spot.ahead.length = tails.rest.length + 1 := by
      rw [Tails.Within] at inside
      omega
    by_cases found : (spot.token 1).kind = kind
    · refine .inr ⟨decide_eq_true found, fun value later => ?_⟩
      exact (spends spot (beside.inner inside) found).beyond (by omega)
    · refine .inl ⟨?_, fun _ => inside⟩
      have missing : (place.token 1).kind ≠ kind := (beside.kind_at 1 edge).ne going
      rw [decide_eq_false found, decide_eq_false missing]

/-- A choice by the token behind the next one, which the tails change only so that the rule `quiet`
is chosen in place of a rule that consumes both tokens. -/
theorem byNext [tails.Open] {next : TokenKind → Rule α} (lawful : ∀ kind, (next kind).Lawful)
    (quiet : Rule α) [silent : Steady tails origin true quiet]
    (ends : ∀ kind, kind.Ends → next kind = quiet)
    (others : ∀ spot : Spot, origin.Reaches spot → spot.kind ≠ .endOfInput →
      next (spot.token 1).kind = quiet ∨ (next (spot.token 1).kind).Spends 2 spot)
    (common : ∀ spot place, tails.Beside origin spot place →
      tails.rest.length + 1 < spot.ahead.length →
      (next (spot.token 1).kind).Retells tails origin spot place) :
    Steady tails origin true (peekAhead 1 >>= next) := by
  refine ⟨fun {spot place} beside inside => .of_on fun value later outcome within => ?_⟩
  have inside : tails.Within spot := inside rfl
  rw [on_bind, on_peekAhead, Outcome.bind_done] at outcome ⊢
  by_cases both : tails.rest.length + 1 < spot.ahead.length
  · rw [beside.token_eq 1 both]
    exact (common spot place beside both).on outcome within
  · have edge : spot.ahead.length = tails.rest.length + 1 := by
      rw [Tails.Within] at inside
      omega
    have chosen : next (place.token 1).kind = quiet := ends _ (beside.kind_at 1 edge)
    rcases others spot beside.reaches (beside.inner inside) with same | spends
    · have lawful : quiet.Lawful := same ▸ lawful _
      rw [same] at outcome
      rw [chosen]
      exact (silent.retells beside fun _ => inside).on outcome within
    · have beyond : later.ahead.length < tails.rest.length := spends.beyond (by omega) outcome
      omega

/-! ### Where both tails begin with an end -/

section

variable [tails.Ended]

instance (kind : TokenKind) [going : kind.Going] : Steady tails origin inside (nextIs kind) := by
  refine of_stays _ (fun spot => on_nextIs spot kind) fun {spot place} beside _ => ?_
  exact decide_eq_decide.mpr (beside.kind_iff going beside.length_le)

instance (word : Keyword) [Keyword.Going word.goesOn] :
    Steady tails origin inside (nextIsWord word) :=
  inferInstanceAs (Steady tails origin inside (nextIs _))

instance (mark : Punct) [(TokenKind.punct mark).Going] :
    Steady tails origin inside (nextIsMark mark) :=
  inferInstanceAs (Steady tails origin inside (nextIs _))

/-- A choice by the next token, with one rule for every token at which something ends. -/
theorem atKind {next : TokenKind → Rule α} (lawful : ∀ kind, (next kind).Lawful) (quiet : Rule α)
    [Steady tails origin inside quiet] (ends : ∀ kind, kind.Ends → next kind = quiet)
    (common : ∀ kind, Steady tails origin true (next kind)) :
    Steady tails origin inside (peek >>= next) := by
  refine ⟨fun {spot place} beside within' => ?_⟩
  rcases beside.cases with ⟨ahead, _⟩ | inside
  · have ended : next spot.kind = quiet := ends _ (beside.kind_at' 0 (by rw [ahead]; rfl))
    have ended' : next place.kind = quiet := ends _ (beside.kind_at 0 (by rw [ahead]; rfl))
    have lawful : quiet.Lawful := ended ▸ lawful _
    refine .of_on fun value later outcome enough => ?_
    rw [on_bind, on_peek, Outcome.bind_done] at outcome ⊢
    rw [ended] at outcome
    rw [ended']
    exact (retells beside within').on outcome enough
  · refine .step (on_peek spot) (beside.kind inside ▸ on_peek place) ?_
    exact (common _).retells beside fun _ => inside

/-- A choice by the next token, whose place matters only where it is in common. -/
theorem atToken {next : Token → Rule α} (lawful : ∀ token, (next token).Lawful) (quiet : Rule α)
    (ends : ∀ token : Token, token.kind.Ends → next token = quiet)
    [Steady tails origin inside quiet] (common : ∀ token, Steady tails origin true (next token)) :
    Steady tails origin inside (peekToken 0 >>= next) := by
  refine ⟨fun {spot place} beside within' => ?_⟩
  rcases beside.cases with ⟨ahead, _⟩ | inside
  · have ended := ends _ (beside.kind_at' 0 (by rw [ahead]; rfl))
    have ended' := ends _ (beside.kind_at 0 (by rw [ahead]; rfl))
    have lawful : quiet.Lawful := ended ▸ lawful _
    refine .of_on fun value later outcome enough => ?_
    rw [on_bind, on_peekToken, Outcome.bind_done] at outcome ⊢
    rw [ended] at outcome
    rw [ended']
    exact (retells beside within').on outcome enough
  · refine .step (on_peekToken 0 spot) (beside.token inside ▸ on_peekToken 0 place) ?_
    exact (common _).retells beside fun _ => inside

/-- A choice by the token behind the next one. -/
theorem atNext {next : TokenKind → Rule α} (lawful : ∀ kind, (next kind).Lawful) (quiet : Rule α)
    [Steady tails origin true quiet] (ends : ∀ kind, kind.Ends → next kind = quiet)
    (common : ∀ spot place, tails.Beside origin spot place →
      tails.rest.length + 1 < spot.ahead.length →
      (next (spot.token 1).kind).Retells tails origin spot place) :
    Steady tails origin true (peekAhead 1 >>= next) := by
  refine ⟨fun {spot place} beside inside => ?_⟩
  have inside : tails.Within spot := inside rfl
  by_cases both : tails.rest.length + 1 < spot.ahead.length
  · refine .step (on_peekAhead spot 1) (beside.token_eq 1 both ▸ on_peekAhead place 1) ?_
    exact common spot place beside both
  · have edge : spot.ahead.length = tails.rest.length + 1 := by
      rw [Tails.Within] at inside
      omega
    have ended := ends _ (beside.kind_at' 1 edge)
    have ended' := ends _ (beside.kind_at 1 edge)
    have lawful : quiet.Lawful := ended ▸ lawful _
    refine .of_on fun value later outcome enough => ?_
    rw [on_bind, on_peekAhead, Outcome.bind_done] at outcome ⊢
    rw [ended] at outcome
    rw [ended']
    exact (within beside inside).on outcome enough

/-- A choice by whether the token behind the next one is of some kind. -/
theorem ifAhead (kind : TokenKind) [going : kind.Going] {yes no : Rule α} [yes.Lawful] [no.Lawful]
    [other : Steady tails origin true no]
    (chosen : ∀ spot place, tails.Beside origin spot place →
      tails.rest.length + 1 < spot.ahead.length → (spot.token 1).kind = kind →
      yes.Retells tails origin spot place) :
    Steady tails origin true
      (aheadIs 1 kind >>= fun found => if found = true then yes else no) := by
  refine ⟨fun {spot place} beside inside => ?_⟩
  have inside : tails.Within spot := inside rfl
  have upto : tails.rest.length + 1 ≤ spot.ahead.length := inside
  have same : decide ((place.token 1).kind = kind) = decide ((spot.token 1).kind = kind) :=
    decide_eq_decide.mpr (beside.kind_iff going upto)
  refine .step (on_aheadIs spot 1 kind) (same ▸ on_aheadIs place 1 kind) (.ite (fun found => ?_) ?_)
  · have found := of_decide_eq_true found
    exact chosen spot place beside (beside.inside_of_kind going upto found) found
  · exact fun _ => within beside inside

/-- A choice by whether the next token is of some kind. -/
theorem ifKind (kind : TokenKind) [going : kind.Going] {yes no : Rule α} [yes.Lawful] [no.Lawful]
    [chosen : Steady tails origin true yes] [other : Steady tails origin inside no] :
    Steady tails origin inside
      (nextIs kind >>= fun found => if found = true then yes else no) := by
  refine choose (fun spot => decide (spot.kind = kind)) (fun spot => on_nextIs spot kind)
    fun {spot place} beside _ => .inl ⟨?_, fun found => ?_⟩
  · exact decide_eq_decide.mpr (beside.kind_iff going beside.length_le)
  · exact beside.inside_of_kind going beside.length_le (of_decide_eq_true found)

end

/-! ### Inside parentheses -/

section

variable [tails.Closed]

instance : Steady tails origin inside peek :=
  of_stays _ on_peek fun beside _ => beside.kind_eq

instance (kind : TokenKind) : Steady tails origin inside (nextIs kind) :=
  of_stays _ (fun spot => on_nextIs spot kind) fun beside _ => by rw [beside.kind_eq]

instance (word : Keyword) : Steady tails origin inside (nextIsWord word) :=
  inferInstanceAs (Steady tails origin inside (nextIs _))

instance (mark : Punct) : Steady tails origin inside (nextIsMark mark) :=
  inferInstanceAs (Steady tails origin inside (nextIs _))

instance : Steady tails origin inside Rule.advance := by
  refine ⟨fun {spot place} beside _ => ?_⟩
  rcases beside.cases with ⟨ahead, _⟩ | inside
  · refine .beyond fun value later outcome => ?_
    rw [on_advance] at outcome
    cases outcome
    have closes := (beside.kind_eq_at 0 (by rw [ahead]; rfl)).1
    rw [← ahead]
    exact Spot.length_next_lt (by rw [Spot.kind, closes]; nofun)
  · exact within beside inside

instance (kind : TokenKind) : Steady tails origin inside (Rule.eat kind) := by
  unfold Rule.eat
  exact look fun found => inferInstance

instance (word : Keyword) : Steady tails origin inside (eatWord word) :=
  inferInstanceAs (Steady tails origin inside (Rule.eat _))

end

/-! ### Repetition -/

instance whileSome {step : σ → Rule (Option σ)} [∀ value, (step value).Lawful]
    [∀ value, (step value).Shortens] [steps : ∀ value, Steady tails origin false (step value)]
    (first : σ) : Steady tails origin inside (Rule.whileSome step first) := by
  refine ⟨fun {spot place} beside common => .of_on fun last later outcome within => ?_⟩
  have repeats := on_whileSome_eq_done.mp outcome
  clear outcome common
  -- by induction on the repetition at the one spot
  induction repeats generalizing place with
  | stop nothing =>
      rw [on_whileSome]
      rcases ((steps _).retells beside nofun).on nothing within with deep | ⟨after, again, beside⟩
      · rw [deep]
        exact .inl rfl
      · rw [again]
        exact .inr ⟨after, rfl, beside⟩
  | @more value next last spot middle later some rest inductionHypothesis =>
      have shorter := (leads_of_on (on_whileSome_eq_done.mpr rest)).length_le
      rw [on_whileSome]
      rcases ((steps _).retells beside nofun).on some (by omega) with deep | ⟨after, again, beside⟩
      · rw [deep]
        exact .inl rfl
      · rw [again]
        exact inductionHypothesis beside within

instance nextItem {item : Rule α} [item.Lawful] [tails.Open] [Steady tails origin false item]
    (items : List α) : Steady tails origin false (Rule.nextItem item items) := by
  unfold Rule.nextItem
  infer_instance

instance commaSeparated {item : Rule α} [item.Lawful] [tails.Open]
    [Steady tails origin false item] : Steady tails origin false (Rule.commaSeparated item) := by
  rw [commaSeparated_eq]
  infer_instance

end Steady

end Rule

end SqlDml
