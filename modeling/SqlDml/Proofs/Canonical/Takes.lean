import SqlDml.Proofs.Rules.Language
import SqlDml.Proofs.Trees.Alike

/-!
Contract: what a rule does where the next tokens are known.

Owns:
- trees that are the same but for their spans and the numbers of their parameter markers;
- a sign: what a rule can tell about a token, its place left out;
- rules that take the signs in front, up to a known rest, and read a tree that is like a known one, or
  meet the nesting limit where their levels do not fit;
- how such rules are put together, and rules that miss what stands in front.

Does not own: the signs of canonical text, and the rules of the language.
-/

namespace SqlDml

/-! ### Plain trees -/

/-- Spans are left out, and parameter markers are not told apart. -/
def Relabelling.plain : Relabelling where
  span _ := Span.zero
  ident name := { name with span := Span.zero }
  marker _ := 0

/-- Trees are compared without their spans and the numbers of their markers. -/
def Likeness.plain : Likeness where
  left := .plain
  right := .plain
  merge _ _ := rfl
  place _ := rfl
  quoted _ _ _ := rfl
  literal _ := rfl
  odbc value same := by
    have values : Ident.value _ = Ident.value _ := congrArg Ident.value same
    exact congrArg (Literal.odbc · value) values

/-- Every tree is like itself. -/
theorem Alike.plain_self {α : Type} [Labelled α] (value : α) : Alike .plain value value := ⟨rfl⟩

/-- What is collected the latest first is like the items in their order. -/
theorem Alike.of_reverse {α : Type} [Labelled α] {items found : List α}
    (same : Alike .plain (items.reverse ++ []) found) : Alike .plain items found.reverse := by
  have reversed : Alike .plain (items.reverse ++ []).reverse found.reverse := inferInstance
  rwa [List.append_nil, List.reverse_reverse] at reversed

/-- All places are alike. -/
instance Alike.place (span span' : Span) : Alike .plain span span' := ⟨rfl⟩

/-- All parameter markers are alike. -/
instance Alike.marker (index index' : Nat) (span span' : Span) :
    Alike .plain (Expr.placeholder index span) (.placeholder index' span') :=
  Alike.placeholder rfl

/-- What is like something is something. -/
theorem forall_alike_some {α : Type} [Labelled α] {tree : α} {motive : Option α → Prop}
    (given : ∀ value, Alike .plain tree value → motive (some value)) :
    ∀ found, Alike .plain (some tree) found → motive found := by
  intro found alike
  obtain ⟨absent, _⟩ | ⟨_, value, same, rfl, alike⟩ := alike.option_cases
  · cases absent
  · cases same
    exact given value alike

/-- What is like nothing is nothing. -/
theorem forall_alike_none {α : Type} [Labelled α] {motive : Option α → Prop}
    (given : motive none) : ∀ found, Alike .plain (none : Option α) found → motive found := by
  intro found alike
  obtain ⟨_, rfl⟩ | ⟨_, _, absent, _⟩ := alike.option_cases
  · exact given
  · cases absent

/-- An identifier is its value and its quote. -/
theorem Ident.alike_iff {name copy : Ident} :
    Alike .plain name copy ↔ name.value = copy.value ∧ name.quote = copy.quote := by
  constructor
  · rintro ⟨same⟩
    have values : (relabel Relabelling.plain name).value = (relabel Relabelling.plain copy).value :=
      congrArg Ident.value same
    have quotes : (relabel Relabelling.plain name).quote = (relabel Relabelling.plain copy).quote :=
      congrArg Ident.quote same
    exact ⟨values, quotes⟩
  · rintro ⟨value, quote⟩
    obtain ⟨_, _, _⟩ := name
    obtain ⟨_, _, _⟩ := copy
    cases value
    cases quote
    exact ⟨rfl⟩

/-! ### Signs -/

/-- What a rule can tell about a token, its place left out. -/
structure Sign where
  kind : TokenKind
  /-- The text that the token was read from. -/
  text : Option String
deriving DecidableEq

/-- The sign of a token of a source. -/
def Token.sign (source : List Char) (token : Token) : Sign :=
  ⟨token.kind, (token.span.slice? source).map String.ofList⟩

/-- The kind of a sign some places ahead; behind the last one it is the end of input. -/
def kindAt (signs : List Sign) (ahead : Nat) : TokenKind :=
  ((signs[ahead]?).map Sign.kind).getD .endOfInput

@[simp] theorem kindAt_nil (ahead : Nat) : kindAt [] ahead = .endOfInput := rfl

@[simp] theorem kindAt_zero (sign : Sign) (signs : List Sign) :
    kindAt (sign :: signs) 0 = sign.kind := rfl

@[simp] theorem kindAt_succ (sign : Sign) (signs : List Sign) (ahead : Nat) :
    kindAt (sign :: signs) (ahead + 1) = kindAt signs ahead := rfl

namespace Spot

/-- The signs of the tokens ahead. -/
def signs (spot : Spot) : List Sign := spot.ahead.map (Token.sign spot.source)

@[simp] theorem next_signs (spot : Spot) : spot.next.signs = spot.signs.tail := by
  simp [signs]

@[simp] theorem mark_signs (spot : Spot) : spot.mark.signs = spot.signs := rfl

theorem kindAt_signs (spot : Spot) (ahead : Nat) :
    kindAt spot.signs ahead = (spot.token ahead).kind := by
  unfold kindAt signs token
  rw [List.getElem?_map, Option.map_map]
  cases spot.ahead[ahead]? with
  | none => exact spot.ended.symm
  | some token => rfl

/-- The kind of the next token. -/
theorem kind_eq_of_signs {spot : Spot} {before : List Sign} (front : spot.signs = before) :
    spot.kind = kindAt before 0 := by
  rw [← front, kindAt_signs]
  rfl

/-- The sign of the next token. -/
theorem sign_of_signs {spot : Spot} {sign : Sign} {rest : List Sign}
    (front : spot.signs = sign :: rest) : (spot.token 0).sign spot.source = sign := by
  unfold signs at front
  unfold token
  cases ahead : spot.ahead with
  | nil => simp [ahead] at front
  | cons token others =>
      rw [ahead] at front
      exact (List.cons.inj front).1

end Spot

namespace Rule

variable {α β σ : Type} [Labelled α] [Labelled β] [Labelled σ] {concat : Bool} {fits : Prop}

/-- A rule that goes from the signs in front to a rest of them, and reads what is like a known tree, if
its levels fit under the nesting limit; else it meets the limit.  `concat` tells whether two pipes join
strings, the only setting that rules look at. -/
def TakesIf (fits : Prop) (concat : Bool) (rule : Rule α) (before after : List Sign) (tree : α) :
    Prop :=
  ∀ state : ParserState, state.Ready → state.settings.pipesAsConcat = concat →
    state.spot.signs = before →
    (fits ∧ ∃ value later, rule state = (.ok value, later) ∧ state.Leads later ∧
      later.spot.signs = after ∧ Alike .plain tree value) ∨
    (¬ fits ∧ ∃ limit position later, rule state = (.error (.tooDeep limit position), later) ∧
      state.Leads later)

/-- A rule that takes the signs in front whatever the nesting limit is. -/
abbrev Takes (concat : Bool) (rule : Rule α) (before after : List Sign) (tree : α) : Prop :=
  rule.TakesIf True concat before after tree

/-- What a rule comes to wherever the given signs are in front. -/
def Meets {α : Type} (concat : Bool) (rule : Rule α) (before : List Sign) (post : Outcome α → Prop) :
    Prop :=
  ∀ spot : Spot, spot.settings.pipesAsConcat = concat → spot.signs = before → post (rule.on spot)

/-- The outcome of a rule that takes its signs if its levels fit. -/
def Reached (fits : Prop) (after : List Sign) (tree : α) (outcome : Outcome α) : Prop :=
  (fits ∧ ∃ value later, outcome = .done value later ∧ later.signs = after ∧
    Alike .plain tree value) ∨ (¬ fits ∧ outcome = .deep)

section

variable {rule : Rule α} {before after rest : List Sign} {tree : α} {whole : β}

/-- A rule that takes its signs if its levels fit is told by its outcomes. -/
theorem takesIf_iff_meets [rule.Lawful] :
    rule.TakesIf fits concat before after tree ↔
      rule.Meets concat before (Reached fits after tree) := by
  constructor
  · intro takes spot setting front
    rcases takes spot.state spot.state_ready setting (by rw [spot.state_spot, front]) with
      ⟨enough, value, later, run, leads, back, alike⟩ | ⟨few, limit, position, later, run, _⟩
    · exact .inl ⟨enough, value, later.spot, by rw [Rule.on, run], back, alike⟩
    · exact .inr ⟨few, by rw [Rule.on, run]⟩
  · intro meets state ready setting front
    have agrees := rule.agrees_on state ready
    rcases meets state.spot setting front with
      ⟨enough, value, later, done, back, alike⟩ | ⟨few, deep⟩
    · rw [done] at agrees
      obtain ⟨reached, run, leads, rfl⟩ := agrees
      exact .inl ⟨enough, value, reached, run, leads, back, alike⟩
    · rw [deep] at agrees
      obtain ⟨limit, position, reached, run, leads, _⟩ := agrees
      exact .inr ⟨few, limit, position, reached, run, leads⟩

/-- A rule that takes the signs in front comes to a tree that is like the known one. -/
theorem takes_iff_meets [rule.Lawful] :
    rule.Takes concat before after tree ↔ rule.Meets concat before fun outcome =>
      ∃ value later, outcome = .done value later ∧ later.signs = after ∧ Alike .plain tree value := by
  rw [Takes, takesIf_iff_meets]
  simp [Meets, Reached]

namespace Takes

/-- A rule that is described by its outcome at each spot. -/
theorem of_on [rule.Lawful]
    (outcome : ∀ spot : Spot, spot.settings.pipesAsConcat = concat → spot.signs = before →
      ∃ value later, rule.on spot = .done value later ∧ later.signs = after ∧
        Alike .plain tree value) :
    rule.Takes concat before after tree :=
  takes_iff_meets.mpr outcome

/-- The outcome at a spot with the given signs in front. -/
theorem on [rule.Lawful] (takes : rule.Takes concat before after tree) (spot : Spot)
    (setting : spot.settings.pipesAsConcat = concat) (front : spot.signs = before) :
    ∃ value later, rule.on spot = .done value later ∧ later.signs = after ∧
      Alike .plain tree value :=
  takes_iff_meets.mp takes spot setting front

end Takes

/-! ### Sequences -/

namespace TakesIf

/-- The levels fit. -/
theorem takes (takes : rule.TakesIf fits concat before after tree) (enough : fits) :
    rule.Takes concat before after tree := by
  obtain rfl := eq_true enough
  exact takes

/-- The levels are told in another way. -/
theorem of_iff {others : Prop} (takes : rule.TakesIf fits concat before after tree)
    (same : fits ↔ others) : rule.TakesIf others concat before after tree :=
  propext same ▸ takes

/-- Trees that are alike are the same to a rule. -/
theorem congr {other : α} (takes : rule.TakesIf fits concat before after tree)
    (alike : Alike .plain other tree) : rule.TakesIf fits concat before after other := by
  intro state ready setting front
  rcases takes state ready setting front with
    ⟨enough, value, later, run, leads, back, same⟩ | met
  · exact .inl ⟨enough, value, later, run, leads, back, ⟨alike.same.trans same.same⟩⟩
  · exact .inr met

theorem pure {value : α} [alike : Alike .plain tree value] :
    (Pure.pure value : Rule α).Takes concat before before tree :=
  fun state ready _ front => .inl ⟨trivial, value, state, rfl, .refl ready, front, alike⟩

/-- One rule behind another: both must fit. -/
theorem bind {first : Rule α} {next : α → Rule β} {others : Prop}
    (takes : first.TakesIf fits concat before after tree)
    (second : ∀ value, Alike .plain tree value →
      (next value).TakesIf others concat after rest whole) :
    (first >>= next).TakesIf (fits ∧ others) concat before rest whole := by
  intro state ready setting front
  rw [bind_run]
  rcases takes state ready setting front with
    ⟨enough, value, middle, run, leads, between, alike⟩ | ⟨few, limit, position, later, run, leads⟩
  · rw [run]
    rcases second value alike middle leads.ready (by rw [leads.settings, setting]) between with
      ⟨more, found, later, nextRun, nextLeads, back, foundAlike⟩ |
      ⟨few, limit, position, later, nextRun, nextLeads⟩
    · exact .inl ⟨⟨enough, more⟩, found, later, nextRun, leads.trans nextLeads, back, foundAlike⟩
    · exact .inr ⟨fun both => few both.2, limit, position, later, nextRun, leads.trans nextLeads⟩
  · rw [run]
    exact .inr ⟨fun both => few both.1, limit, position, later, rfl, leads⟩

/-- Behind the rule nothing else must fit. -/
theorem bind_takes {first : Rule α} {next : α → Rule β}
    (takes : first.TakesIf fits concat before after tree)
    (second : ∀ value, Alike .plain tree value → (next value).Takes concat after rest whole) :
    (first >>= next).TakesIf fits concat before rest whole :=
  (takes.bind second).of_iff (and_iff_left trivial)

theorem map {change : α → β} (first : rule.TakesIf fits concat before after tree)
    (changed : ∀ value, Alike .plain tree value → Alike .plain whole (change value)) :
    (change <$> rule).TakesIf fits concat before after whole := by
  rw [map_eq_bind]
  exact first.bind_takes fun value alike => have := changed value alike; .pure

theorem enter (takes : rule.TakesIf fits concat before after tree) :
    (Rule.enter rule).TakesIf fits concat before after tree := by
  intro state ready setting front
  have deeper : ParserState.Ready { state with depth := state.depth + 1 } :=
    ready.alike rfl rfl rfl
  unfold Rule.enter
  rcases takes { state with depth := state.depth + 1 } deeper setting front with
    ⟨enough, value, later, run, leads, back, alike⟩ | ⟨few, limit, position, later, run, leads⟩
  · refine .inl ⟨enough, value, { later with depth := later.depth - 1 }, ?_, ?_, back, alike⟩
    · rw [run]
    · exact ⟨leads.ready.alike rfl rfl rfl, leads.stream, leads.settings, leads.source⟩
  · refine .inr ⟨few, limit, position, { later with depth := later.depth - 1 }, ?_, ?_⟩
    · rw [run]
    · exact ⟨leads.ready.alike rfl rfl rfl, leads.stream, leads.settings, leads.source⟩

/-- Where no level is left, nothing fits. -/
theorem tooDeep (none : ¬ fits) : (Rule.tooDeep : Rule α).TakesIf fits concat before after tree :=
  takesIf_iff_meets.mpr fun spot _ _ => .inr ⟨none, on_tooDeep spot⟩

end TakesIf

namespace Takes

theorem bind {first : Rule α} {next : α → Rule β} (takes : first.Takes concat before after tree)
    (second : ∀ value, Alike .plain tree value →
      (next value).TakesIf fits concat after rest whole) :
    (first >>= next).TakesIf fits concat before rest whole :=
  (TakesIf.bind takes second).of_iff (and_iff_right trivial)

/-- Going on behind a rule whose value is known. -/
theorem step [LabelFree α] {first : Rule α} {next : α → Rule β}
    (takes : first.Takes concat before after tree)
    (second : (next tree).TakesIf fits concat after rest whole) :
    (first >>= next).TakesIf fits concat before rest whole :=
  takes.bind fun _ alike => alike.eq ▸ second

/-- Going on behind a rule that gives nothing. -/
theorem bind_none {first : Rule (Option α)} {next : Option α → Rule β}
    (takes : first.Takes concat before after none)
    (second : (next none).TakesIf fits concat after rest whole) :
    (first >>= next).TakesIf fits concat before rest whole :=
  takes.bind (forall_alike_none second)

/-- Going on behind a rule that gives something. -/
theorem bind_some {first : Rule (Option α)} {next : Option α → Rule β}
    (takes : first.Takes concat before after (some tree))
    (second : ∀ value, Alike .plain tree value →
      (next (some value)).TakesIf fits concat after rest whole) :
    (first >>= next).TakesIf fits concat before rest whole :=
  takes.bind (forall_alike_some second)

end Takes

end

/-! ### Tokens -/

section

variable {before : List Sign} {sign : Sign}

namespace Takes

/-- The token some places ahead is seen without moving. -/
theorem tellsToken (ahead : Nat) : (Rule.peekToken ahead).Takes concat before before
    (⟨kindAt before ahead, Span.zero⟩ : Token) := by
  refine of_on fun spot _ front => ⟨_, _, on_peekToken ahead spot, front, ?_⟩
  rw [← front, spot.kindAt_signs]
  exact ⟨rfl⟩

theorem tellsKind (ahead : Nat) :
    (Rule.peekAhead ahead).Takes concat before before (kindAt before ahead) := by
  refine of_on fun spot _ front => ⟨_, _, on_peekAhead spot ahead, front, ?_⟩
  rw [← front, spot.kindAt_signs]
  infer_instance

theorem tellsNext (kind : TokenKind) :
    (Rule.nextIs kind).Takes concat before before (decide (kindAt before 0 = kind)) := by
  refine of_on fun spot _ front => ⟨_, _, on_nextIs spot kind, front, ?_⟩
  rw [spot.kind_eq_of_signs front]
  infer_instance

/-- Whether a kind of token is ahead is told without moving. -/
theorem tellsAhead (ahead : Nat) (kind : TokenKind) :
    (Rule.aheadIs ahead kind).Takes concat before before (decide (kindAt before ahead = kind)) := by
  refine of_on fun spot _ front => ⟨_, _, on_aheadIs spot ahead kind, front, ?_⟩
  rw [← front, spot.kindAt_signs]
  infer_instance

theorem tellsSpan : Rule.currentSpan.Takes concat before before Span.zero :=
  of_on fun spot _ front => ⟨_, _, on_currentSpan spot, front, inferInstance⟩

theorem tellsPrevious : Rule.previousSpan.Takes concat before before Span.zero :=
  of_on fun spot _ front => ⟨_, _, on_previousSpan spot, front, inferInstance⟩

theorem consumes :
    Rule.advance.Takes concat (sign :: before) before (⟨sign.kind, Span.zero⟩ : Token) := by
  refine of_on fun spot _ front => ⟨_, _, on_advance spot, ?_, ?_⟩
  · rw [spot.next_signs, front, List.tail_cons]
  · rw [← kindAt_zero sign before, ← front, spot.kindAt_signs]
    exact ⟨rfl⟩

theorem eats {kind : TokenKind} (found : sign.kind = kind) :
    (Rule.eat kind).Takes concat (sign :: before) before true := by
  refine of_on fun spot _ front => ⟨true, spot.next, ?_, ?_, inferInstance⟩
  · exact on_eat_found (by rw [spot.kind_eq_of_signs front, kindAt_zero, found])
  · rw [spot.next_signs, front, List.tail_cons]

theorem eatsNone {kind : TokenKind} (missing : kindAt before 0 ≠ kind) :
    (Rule.eat kind).Takes concat before before false := by
  refine of_on fun spot _ front => ⟨false, spot, ?_, front, inferInstance⟩
  exact on_eat_missing (by rwa [spot.kind_eq_of_signs front])

theorem expects {kind : TokenKind} (found : sign.kind = kind) :
    (Rule.expect kind).Takes concat (sign :: before) before Span.zero := by
  refine of_on fun spot _ front => ⟨(spot.token 0).span, spot.next, ?_, ?_, inferInstance⟩
  · exact on_expect_found (by rw [spot.kind_eq_of_signs front, kindAt_zero, found])
  · rw [spot.next_signs, front, List.tail_cons]

end Takes

namespace TakesIf

open Takes

variable {rest : List Sign} {whole : β}

theorem peekToken {next : Token → Rule β} (ahead : Nat)
    (second : ∀ token, token.kind = kindAt before ahead →
      (next token).TakesIf fits concat before rest whole) :
    (Rule.peekToken ahead >>= next).TakesIf fits concat before rest whole :=
  (tellsToken ahead).bind fun token alike => second token alike.kind_eq.symm

theorem peekAhead {next : TokenKind → Rule β} (ahead : Nat)
    (second : (next (kindAt before ahead)).TakesIf fits concat before rest whole) :
    (Rule.peekAhead ahead >>= next).TakesIf fits concat before rest whole :=
  (tellsKind ahead).step second

theorem peek {next : TokenKind → Rule β}
    (second : (next (kindAt before 0)).TakesIf fits concat before rest whole) :
    (Rule.peek >>= next).TakesIf fits concat before rest whole :=
  peekAhead 0 second

theorem nextIs {next : Bool → Rule β} (kind : TokenKind)
    (second : (next (decide (kindAt before 0 = kind))).TakesIf fits concat before rest whole) :
    (Rule.nextIs kind >>= next).TakesIf fits concat before rest whole :=
  (tellsNext kind).step second

theorem aheadIs {next : Bool → Rule β} (ahead : Nat) (kind : TokenKind)
    (second : (next (decide (kindAt before ahead = kind))).TakesIf fits concat before rest whole) :
    (Rule.aheadIs ahead kind >>= next).TakesIf fits concat before rest whole :=
  (tellsAhead ahead kind).step second

/-- The next token is of a kind. -/
theorem nextIs_same {next : Bool → Rule β} {kind : TokenKind} (same : kindAt before 0 = kind)
    (second : (next true).TakesIf fits concat before rest whole) :
    (Rule.nextIs kind >>= next).TakesIf fits concat before rest whole :=
  nextIs kind (by rwa [decide_eq_true same])

/-- The next token is not of a kind. -/
theorem nextIs_other {next : Bool → Rule β} {kind : TokenKind} (other : kindAt before 0 ≠ kind)
    (second : (next false).TakesIf fits concat before rest whole) :
    (Rule.nextIs kind >>= next).TakesIf fits concat before rest whole :=
  nextIs kind (by rwa [decide_eq_false other])

/-- The token some places ahead is of a kind. -/
theorem aheadIs_same {next : Bool → Rule β} {ahead : Nat} {kind : TokenKind}
    (same : kindAt before ahead = kind)
    (second : (next true).TakesIf fits concat before rest whole) :
    (Rule.aheadIs ahead kind >>= next).TakesIf fits concat before rest whole :=
  aheadIs ahead kind (by rwa [decide_eq_true same])

/-- The token some places ahead is not of a kind. -/
theorem aheadIs_other {next : Bool → Rule β} {ahead : Nat} {kind : TokenKind}
    (other : kindAt before ahead ≠ kind)
    (second : (next false).TakesIf fits concat before rest whole) :
    (Rule.aheadIs ahead kind >>= next).TakesIf fits concat before rest whole :=
  aheadIs ahead kind (by rwa [decide_eq_false other])

theorem currentSpan {next : Span → Rule β}
    (second : ∀ span, (next span).TakesIf fits concat before rest whole) :
    (Rule.currentSpan >>= next).TakesIf fits concat before rest whole :=
  tellsSpan.bind fun span _ => second span

theorem previousSpan {next : Span → Rule β}
    (second : ∀ span, (next span).TakesIf fits concat before rest whole) :
    (Rule.previousSpan >>= next).TakesIf fits concat before rest whole :=
  tellsPrevious.bind fun span _ => second span

theorem advance {next : Token → Rule β}
    (second : ∀ token, token.kind = sign.kind →
      (next token).TakesIf fits concat before rest whole) :
    (Rule.advance >>= next).TakesIf fits concat (sign :: before) rest whole :=
  consumes.bind fun token alike => second token alike.kind_eq.symm

/-- The token that is eaten is there. -/
theorem eat {next : Bool → Rule β} {kind : TokenKind} (found : sign.kind = kind)
    (second : (next true).TakesIf fits concat before rest whole) :
    (Rule.eat kind >>= next).TakesIf fits concat (sign :: before) rest whole :=
  (eats found).step second

/-- Another token than the one that could be eaten is there. -/
theorem eat_none {next : Bool → Rule β} {kind : TokenKind} (missing : kindAt before 0 ≠ kind)
    (second : (next false).TakesIf fits concat before rest whole) :
    (Rule.eat kind >>= next).TakesIf fits concat before rest whole :=
  (eatsNone missing).step second

theorem expect {next : Span → Rule β} {kind : TokenKind} (found : sign.kind = kind)
    (second : ∀ span, (next span).TakesIf fits concat before rest whole) :
    (Rule.expect kind >>= next).TakesIf fits concat (sign :: before) rest whole :=
  (expects found).bind fun span _ => second span

theorem nextPlaceholder {next : Nat → Rule β}
    (second : ∀ number, (next number).TakesIf fits concat before rest whole) :
    (Rule.nextPlaceholder >>= next).TakesIf fits concat before rest whole := by
  intro state ready setting front
  have numbered : state.Leads { state with placeholders := state.placeholders + 1 } :=
    ⟨ready.alike rfl rfl rfl, .refl _, rfl, rfl⟩
  rcases second state.placeholders { state with placeholders := state.placeholders + 1 }
      numbered.ready setting front with
    ⟨enough, value, later, run, leads, back, alike⟩ | ⟨few, limit, position, later, run, leads⟩
  · exact .inl ⟨enough, value, later, run, numbered.trans leads, back, alike⟩
  · exact .inr ⟨few, limit, position, later, run, numbered.trans leads⟩

end TakesIf

end

/-! ### Rules that match nothing -/

section

variable {before after : List Sign}

/-- A rule that matches nothing in front of the given signs, unless it meets the nesting limit where
the levels do not fit. -/
def MissesIf {α : Type} (fits : Prop) (concat : Bool) (rule : Rule α) (before : List Sign) : Prop :=
  rule.Meets concat before fun outcome => outcome = .stuck ∨ (¬ fits ∧ outcome = .deep)

namespace MissesIf

variable {α β : Type} {fits : Prop}

theorem bind {rule : Rule α} {next : α → Rule β} [rule.Lawful] [∀ value, (next value).Lawful]
    (misses : rule.MissesIf fits concat before) : (rule >>= next).MissesIf fits concat before := by
  intro spot setting front
  rw [on_bind]
  rcases misses spot setting front with stuck | ⟨few, deep⟩
  · exact .inl (by rw [stuck]; rfl)
  · exact .inr ⟨few, by rw [deep]; rfl⟩

theorem fail (expected : List String) :
    (Rule.fail expected : Rule α).MissesIf fits concat before :=
  fun spot _ _ => .inl (on_fail expected spot)

theorem expect {kind : TokenKind} (missing : kindAt before 0 ≠ kind) :
    (Rule.expect kind).MissesIf fits concat before :=
  fun spot _ front => .inl (on_expect_missing (by rwa [spot.kind_eq_of_signs front]))

end MissesIf

end

/-! ### Alternatives -/

section

variable {rule : Rule α} {before after rest : List Sign} {tree : α} {whole : β}
  {next : Option α → Rule β}

theorem TakesIf.attempted (first : rule.TakesIf fits concat before after tree) :
    (Rule.attempt rule).TakesIf fits concat before after (some tree) := by
  intro state ready setting front
  rw [attempt_run]
  rcases first state ready setting front with
    ⟨enough, value, later, run, leads, back, alike⟩ | ⟨few, limit, position, later, run, leads⟩
  · exact .inl ⟨enough, some value, later, by rw [run], leads, back, inferInstance⟩
  · exact .inr ⟨few, limit, position, later, by rw [run], leads⟩

omit [Labelled α] in
theorem TakesIf.attempt_none [rule.Lawful] (misses : rule.MissesIf fits concat before)
    (second : (next none).TakesIf fits concat before rest whole) :
    (Rule.attempt rule >>= next).TakesIf fits concat before rest whole := by
  intro state ready setting front
  have agrees := (Rule.attempt rule).agrees_on state ready
  rw [bind_run]
  rw [on_attempt] at agrees
  rcases misses state.spot setting front with stuck | ⟨few, deep⟩
  · rw [stuck] at agrees
    obtain ⟨middle, run, leads, same⟩ := agrees
    rw [run]
    rcases second middle leads.ready (by rw [leads.settings, setting]) (by rw [same, front]) with
      ⟨enough, value, later, nextRun, nextLeads, back, alike⟩ |
      ⟨few, limit, position, later, nextRun, nextLeads⟩
    · exact .inl ⟨enough, value, later, nextRun, leads.trans nextLeads, back, alike⟩
    · exact .inr ⟨few, limit, position, later, nextRun, leads.trans nextLeads⟩
  · rw [deep] at agrees
    obtain ⟨limit, position, later, run, leads, _⟩ := agrees
    rw [run]
    exact .inr ⟨few, limit, position, later, rfl, leads⟩

end

/-! ### Repetition -/

section

variable {step : σ → Rule (Option σ)} [∀ value, (step value).Lawful]
  [∀ value, (step value).Shortens] {first next last : σ} {before after rest : List Sign}

/-- A repetition ends where a step gives nothing. -/
theorem TakesIf.whileSome_stop (stops : (step first).Takes concat before after none)
    (alike : Alike .plain last first) : (whileSome step first).Takes concat before after last := by
  refine .of_on fun spot setting front => ?_
  obtain ⟨found, later, outcome, back, same⟩ := stops.on spot setting front
  obtain ⟨_, rfl⟩ | ⟨_, _, absent, _⟩ := same.option_cases
  · exact ⟨first, later, on_whileSome_eq_done.mpr (.stop outcome), back, alike⟩
  · cases absent

/-- A repetition goes on behind a step that gives something: both must fit. -/
theorem TakesIf.whileSome_more {others : Prop}
    (more : (step first).TakesIf fits concat before after (some next))
    (behind : ∀ value, Alike .plain next value →
      (whileSome step value).TakesIf others concat after rest last) :
    (whileSome step first).TakesIf (fits ∧ others) concat before rest last := by
  refine takesIf_iff_meets.mpr fun spot setting front => ?_
  rw [on_whileSome]
  rcases takesIf_iff_meets.mp more spot setting front with
    ⟨enough, found, middle, outcome, between, same⟩ | ⟨few, deep⟩
  · obtain ⟨absent, _⟩ | ⟨_, value, known, rfl, alike⟩ := same.option_cases
    · cases absent
    · cases known
      rw [outcome, Outcome.bind_done]
      rcases takesIf_iff_meets.mp (behind value alike) middle
          (by rw [(leads_of_on outcome).settings, setting]) between with
        ⟨more, value, later, reached, back, alike⟩ | ⟨few, deep⟩
      · exact .inl ⟨⟨enough, more⟩, value, later, reached, back, alike⟩
      · exact .inr ⟨fun both => few both.2, deep⟩
  · rw [deep]
    exact .inr ⟨fun both => few both.1, rfl⟩

theorem Takes.whileSome_more (more : (step first).Takes concat before after (some next))
    (behind : ∀ value, Alike .plain next value →
      (whileSome step value).TakesIf fits concat after rest last) :
    (whileSome step first).TakesIf fits concat before rest last :=
  (TakesIf.whileSome_more more behind).of_iff (and_iff_right trivial)

end

/-! ### Rules in general -/

section

variable {α β σ : Type} {before after : List Sign} {post : Outcome α → Prop}

/-- Whatever goes on behind a rule that takes its signs if its levels fit. -/
theorem TakesIf.bind_meets [Labelled β] {rule : Rule β} [rule.Lawful] {next : β → Rule α}
    [∀ value, (next value).Lawful] {tree : β} (first : rule.TakesIf fits concat before after tree)
    (second : fits → ∀ value, Alike .plain tree value → (next value).Meets concat after post)
    (met : ¬ fits → post .deep) : (rule >>= next).Meets concat before post := by
  intro spot setting front
  rw [on_bind]
  rcases takesIf_iff_meets.mp first spot setting front with
    ⟨enough, value, later, outcome, back, alike⟩ | ⟨few, deep⟩
  · rw [outcome, Outcome.bind_done]
    exact second enough value alike later (by rw [(leads_of_on outcome).settings, setting]) back
  · rw [deep]
    exact met few

/-- Whatever goes on behind a rule that takes its signs. -/
theorem Takes.bind_meets [Labelled β] {rule : Rule β} [rule.Lawful] {next : β → Rule α}
    [∀ value, (next value).Lawful] {tree : β} (first : rule.Takes concat before after tree)
    (second : ∀ value, Alike .plain tree value → (next value).Meets concat after post) :
    (rule >>= next).Meets concat before post :=
  TakesIf.bind_meets first (fun _ => second) fun never => absurd trivial never

/-- Whatever a repetition comes to behind a step that gives something. -/
theorem Takes.whileSome_more_meets [Labelled σ] {step : σ → Rule (Option σ)}
    [∀ value, (step value).Lawful] [∀ value, (step value).Shortens] {first next : σ}
    {post : Outcome σ → Prop} (more : (step first).Takes concat before after (some next))
    (others : ∀ value, Alike .plain next value → (whileSome step value).Meets concat after post) :
    (whileSome step first).Meets concat before post := by
  intro spot setting front
  obtain ⟨found, middle, outcome, between, same⟩ := more.on spot setting front
  obtain ⟨absent, _⟩ | ⟨_, value, known, rfl, alike⟩ := same.option_cases
  · cases absent
  · cases known
    rw [on_whileSome, outcome, Outcome.bind_done]
    exact others value alike middle (by rw [(leads_of_on outcome).settings, setting]) between

end

/-! ### Rules that meet the nesting limit -/

/-- A rule that meets the nesting limit in front of the given signs. -/
abbrev Trips {α : Type} (concat : Bool) (rule : Rule α) (before : List Sign) : Prop :=
  rule.Meets concat before (· = .deep)

namespace Trips

variable {α β : Type} {rule : Rule α} {before after : List Sign}

theorem tooDeep : (Rule.tooDeep : Rule α).Trips concat before := fun spot _ _ => on_tooDeep spot

variable [rule.Lawful]

theorem bind {next : α → Rule β} (met : rule.Trips concat before)
    (lawful : ∀ value, (next value).Lawful := by infer_instance) :
    (rule >>= next).Trips concat before := by
  intro spot setting front
  rw [on_bind, met spot setting front]
  rfl

theorem enter (met : rule.Trips concat before) : (Rule.enter rule).Trips concat before := by
  intro spot setting front
  rw [on_enter]
  exact met spot setting front

/-- Where the limit is met, the levels do not fit. -/
theorem takesIf [Labelled α] {tree : α} (met : rule.Trips concat before) (none : ¬ fits) :
    rule.TakesIf fits concat before after tree :=
  takesIf_iff_meets.mpr fun spot setting front => .inr ⟨none, met spot setting front⟩

end Trips

end Rule

/-! ### Lists -/

namespace Sign

/-- The sign of a keyword. -/
def word (keyword : Keyword) : Sign := ⟨.keyword keyword, some keyword.spelling⟩

/-- The sign of a mark. -/
def mark (punct : Punct) : Sign := ⟨.punct punct, some punct.text⟩

@[simp] theorem word_kind (keyword : Keyword) : (word keyword).kind = .keyword keyword := rfl

@[simp] theorem mark_kind (punct : Punct) : (mark punct).kind = .punct punct := rfl

/-- Signs in parentheses. -/
def parens (signs : List Sign) : List Sign := mark .leftParen :: (signs ++ [mark .rightParen])

/-- Signs of the items of a list behind the first one. -/
def behindCommas (items : List (List Sign)) : List Sign := items.flatMap (mark .comma :: ·)

/-- Signs of the items of a list, with commas between them. -/
def commaList : List (List Sign) → List Sign
  | [] => []
  | item :: items => item ++ behindCommas items

end Sign

namespace Rule

open Sign

variable {α : Type} [Labelled α] {concat : Bool} {fits : α → Prop} {item : Rule α} [item.Lawful]
  {rest : List Sign} {signs : α → List Sign} {trees found : List α}

/-- What follows an item of a list: its end, or a comma and another item. -/
def Behind {α : Type} (signs : α → List Sign) (trees : List α) (rest tail : List Sign) : Prop :=
  tail = rest ∨ ∃ tree ∈ trees, ∃ others, tail = mark .comma :: (signs tree ++ others)

omit [Labelled α] in
theorem behind_behindCommas {all : List α} (within : ∀ tree ∈ trees, tree ∈ all)
    (rest : List Sign) :
    Behind signs all rest (behindCommas (trees.map signs) ++ rest) := by
  cases trees with
  | nil => exact .inl rfl
  | cons tree trees =>
      refine .inr ⟨tree, within tree List.mem_cons_self, behindCommas (trees.map signs) ++ rest, ?_⟩
      simp [behindCommas]

namespace TakesIf

/-- The items behind the first one are read up to where no comma follows. -/
theorem nextItems (ends : kindAt rest 0 ≠ .punct .comma)
    (items : ∀ tree others, tree :: others <:+ trees →
      item.TakesIf (fits tree) concat (signs tree ++ (behindCommas (others.map signs) ++ rest))
        (behindCommas (others.map signs) ++ rest) tree)
    (values : List α) (alike : Alike .plain found values) :
    (whileSome (nextItem item) values).TakesIf (∀ tree ∈ trees, fits tree) concat
      (behindCommas (trees.map signs) ++ rest) rest (trees.reverse ++ found) := by
  induction trees generalizing found values with
  | nil =>
      refine TakesIf.of_iff (whileSome_stop ?_ alike) (by simp)
      exact .eat_none ends .pure
  | cons tree trees inductionHypothesis =>
      simp only [List.map_cons, behindCommas, List.flatMap_cons, List.cons_append,
        List.append_assoc, List.reverse_cons, List.nil_append]
      have read := items tree trees List.suffix_rfl
      have more : (nextItem item values).TakesIf (fits tree) concat
          (mark .comma :: (signs tree ++ (behindCommas (trees.map signs) ++ rest)))
          (behindCommas (trees.map signs) ++ rest) (some (tree :: found)) :=
        .eat rfl (read.bind_takes fun value _ => .pure)
      refine (whileSome_more more fun next same => inductionHypothesis ?_ next same).of_iff
        List.forall_mem_cons.symm
      exact fun tree others within => items tree others (within.trans (List.suffix_cons _ _))

/-- A list is read item by item, each in front of the items behind it, up to where no comma follows:
all of them must fit. -/
theorem commaSeparatedInTurn (nonempty : trees ≠ []) (ends : kindAt rest 0 ≠ .punct .comma)
    (items : ∀ tree others, tree :: others <:+ trees →
      item.TakesIf (fits tree) concat (signs tree ++ (behindCommas (others.map signs) ++ rest))
        (behindCommas (others.map signs) ++ rest) tree) :
    (Rule.commaSeparated item).TakesIf (∀ tree ∈ trees, fits tree) concat
      (commaList (trees.map signs) ++ rest) rest trees := by
  cases trees with
  | nil => exact absurd rfl nonempty
  | cons tree trees =>
      simp only [List.map_cons, commaList, List.append_assoc]
      have read := items tree trees List.suffix_rfl
      rw [commaSeparated_eq]
      refine (read.bind fun value alike => ?_).of_iff List.forall_mem_cons.symm
      have first : Alike .plain [tree] [value] := inferInstance
      have others := fun tree others (within : tree :: others <:+ trees) =>
        items tree others (within.trans (List.suffix_cons _ _))
      refine (nextItems ends others [value] first).bind_takes fun values all => ?_
      have whole : Alike .plain (tree :: trees) values.reverse := .of_reverse (by simpa using all)
      exact .pure

/-- A list is read item by item, up to where no comma follows: all of them must fit. -/
theorem commaSeparated (nonempty : trees ≠ []) (ends : kindAt rest 0 ≠ .punct .comma)
    (items : ∀ tree ∈ trees, ∀ tail, Behind signs trees rest tail →
      item.TakesIf (fits tree) concat (signs tree ++ tail) tail tree) :
    (Rule.commaSeparated item).TakesIf (∀ tree ∈ trees, fits tree) concat
      (commaList (trees.map signs) ++ rest) rest trees := by
  refine commaSeparatedInTurn nonempty ends fun tree others within => ?_
  refine items tree (within.mem List.mem_cons_self) _ (behind_behindCommas ?_ rest)
  exact fun other member => within.mem (List.mem_cons_of_mem _ member)

end TakesIf

/-- A list of items for which no level is opened. -/
theorem Takes.commaSeparated (nonempty : trees ≠ []) (ends : kindAt rest 0 ≠ .punct .comma)
    (items : ∀ tree ∈ trees, ∀ tail, Behind signs trees rest tail →
      item.Takes concat (signs tree ++ tail) tail tree) :
    (Rule.commaSeparated item).Takes concat (commaList (trees.map signs) ++ rest) rest trees :=
  (TakesIf.commaSeparated nonempty ends items).of_iff (by simp)

end Rule

end SqlDml
