import Mathlib.Data.List.Forall2
import SqlDml.Proofs.Nesting.Raised

/-!
Contract: two runs over tokens that come in pairs.

Owns:
- pairs of tokens of two sources: of one kind, in one order, and with names that are alike;
- failures at the two tokens of a pair, and the further of two such failures;
- the grammar from states with pairs ahead: it reads trees that are alike or fails at a pair.

Does not own: which tokens are paired.
-/

namespace SqlDml

/-- Pairs of tokens, one from each of two sources, and what trees that are read from them have in
common: no span is told from another, and so many markers are numbered in front of the right ones. -/
structure TokenPairs where
  source : List Char
  source' : List Char
  likeness : Likeness
  markers : Nat
  Pair : Token → Token → Prop
  kind : ∀ {token token'}, Pair token token' → token'.kind = token.kind
  order : ∀ {token token' later later'}, Pair token token' → Pair later later' →
    compare token'.span.start later'.span.start = compare token.span.start later.span.start
  name : ∀ {token token'} (anyKeyword : Bool), Pair token token' →
    Alike likeness (identOfToken? source anyKeyword token) (identOfToken? source' anyKeyword token')
  place : ∀ span span', likeness.left.span span = likeness.right.span span'
  number : ∀ index, likeness.left.marker (markers + index) = likeness.right.marker index

namespace TokenPairs

variable (pairs : TokenPairs)

/-- Two positions at which the tokens of a pair stand. -/
def At (position position' : Position) : Prop :=
  ∃ token token', pairs.Pair token token' ∧ token.span.position = position ∧
    token'.span.position = position'

/-- The same failure at the tokens of a pair. -/
inductive SameSyntax : SyntaxError → SyntaxError → Prop where
  | at_ {expected : List String} {found : String} {position position' : Position}
      (pair : pairs.At position position') :
      SameSyntax ⟨expected, found, position⟩ ⟨expected, found, position'⟩

/-- The same failure at the tokens of a pair, an unexpected token or a limit that was met. -/
inductive SameFailure : ParseError → ParseError → Prop where
  | unexpected {error error' : SyntaxError} (same : pairs.SameSyntax error error') :
      SameFailure (.unexpected error) (.unexpected error')
  | tooDeep {limit : Nat} {position position' : Position} (pair : pairs.At position position') :
      SameFailure (.tooDeep limit position) (.tooDeep limit position')

/-- No failure is remembered on either side, or the same one at the tokens of a pair. -/
inductive SameFurthest : Option SyntaxError → Option SyntaxError → Prop where
  | none : SameFurthest none none
  | some {error error' : SyntaxError} (same : pairs.SameSyntax error error') :
      SameFurthest (some error) (some error')

variable {pairs}

theorem At.order {position position' later later' : Position} (first : pairs.At position position')
    (second : pairs.At later later') :
    compare position'.offset later'.offset = compare position.offset later.offset := by
  obtain ⟨token, token', pair, rfl, rfl⟩ := first
  obtain ⟨other, other', otherPair, rfl, rfl⟩ := second
  exact pairs.order pair otherPair

/-- The further of two failures is the same on both sides. -/
theorem SameSyntax.merge {error error' later later' : SyntaxError}
    (first : pairs.SameSyntax error error') (second : pairs.SameSyntax later later') :
    pairs.SameSyntax (error.merge later) (error'.merge later') := by
  obtain ⟨place⟩ := first
  obtain ⟨laterPlace⟩ := second
  unfold SyntaxError.merge
  dsimp only
  rw [place.order laterPlace]
  split
  · exact .at_ place
  · exact .at_ laterPlace
  · exact .at_ place

theorem SameFurthest.remember {furthest furthest' : Option SyntaxError}
    {error error' : SyntaxError} (before : pairs.SameFurthest furthest furthest')
    (same : pairs.SameSyntax error error') :
    pairs.SameSyntax (Rule.remember furthest error) (Rule.remember furthest' error') := by
  cases before with
  | none => exact same
  | some earlier => exact earlier.merge same

/-- States with pairs of tokens ahead. -/
structure Near (pairs : TokenPairs) (state other : ParserState) : Prop where
  ready : state.Ready
  ready' : other.Ready
  source : state.source = pairs.source
  source' : other.source = pairs.source'
  settings : other.settings = state.settings
  ahead : List.Forall₂ pairs.Pair state.stream.ahead other.stream.ahead
  stop : pairs.Pair state.stream.stop other.stream.stop
  placeholders : state.placeholders = pairs.markers + other.placeholders
  furthest : pairs.SameFurthest state.furthest other.furthest

/-- In lists of pairs the tokens at one place are a pair. -/
theorem pair_getD {tokens tokens' : List Token} (each : List.Forall₂ pairs.Pair tokens tokens')
    {stop stop' : Token} (last : pairs.Pair stop stop') (index : Nat) :
    pairs.Pair (tokens[index]?.getD stop) (tokens'[index]?.getD stop') := by
  induction each generalizing index with
  | nil => exact last
  | cons first _ inductionHypothesis =>
      cases index with
      | zero => exact first
      | succ index => exact inductionHypothesis index

/-- Where all tokens from the cursors on are pairs, those ahead and the ends of input are. -/
theorem pairs_ahead {state other : ParserState} (ready : state.Ready) (ready' : other.Ready)
    (each : List.Forall₂ pairs.Pair (state.stream.whole.drop state.stream.cursor)
      (other.stream.whole.drop other.stream.cursor)) :
    List.Forall₂ pairs.Pair state.stream.ahead other.stream.ahead ∧
      pairs.Pair state.stream.stop other.stream.stop := by
  rw [ready.sound.drop_cursor, ready'.sound.drop_cursor] at each
  have turned := List.forall₂_reverse_iff.mpr each
  rw [List.reverse_concat, List.reverse_concat] at turned
  obtain ⟨last, rest⟩ := List.forall₂_cons.mp turned
  exact ⟨List.forall₂_reverse_iff.mp rest, last⟩

namespace Near

variable {state other : ParserState}

theorem token (near : pairs.Near state other) (ahead : Nat) :
    pairs.Pair (state.token ahead) (other.token ahead) := by
  obtain ⟨seen, _⟩ := TokenStream.peek_spec near.ready.sound ahead
  obtain ⟨seen', _⟩ := TokenStream.peek_spec near.ready'.sound ahead
  rw [ParserState.token, ParserState.token, seen, seen']
  exact pair_getD near.ahead near.stop ahead

/-- States over the same tokens at the same places are as near as the states before them. -/
theorem of_leads {later later' : ParserState} (near : pairs.Near state other)
    (leads : state.Leads later) (leads' : other.Leads later')
    (cursor : later.stream.cursor = state.stream.cursor)
    (cursor' : later'.stream.cursor = other.stream.cursor)
    (placeholders : later.placeholders = state.placeholders)
    (placeholders' : later'.placeholders = other.placeholders)
    (furthest : pairs.SameFurthest later.furthest later'.furthest) : pairs.Near later later' where
  ready := leads.ready
  ready' := leads'.ready
  source := leads.source.trans near.source
  source' := leads'.source.trans near.source'
  settings := by rw [leads'.settings, leads.settings, near.settings]
  ahead := by
    rw [TokenStream.ahead_eq_of_whole leads.stream.whole cursor,
      TokenStream.ahead_eq_of_whole leads'.stream.whole cursor']
    exact near.ahead
  stop := by
    rw [TokenStream.stop_eq_of_whole leads.stream.whole,
      TokenStream.stop_eq_of_whole leads'.stream.whole]
    exact near.stop
  placeholders := by rw [placeholders, placeholders', near.placeholders]
  furthest := furthest

theorem looked (near : pairs.Near state other) (ahead : Nat) :
    pairs.Near (state.looked ahead) (other.looked ahead) := by
  obtain ⟨_, _, _, cursor, _⟩ := TokenStream.peek_spec near.ready.sound ahead
  obtain ⟨_, _, _, cursor', _⟩ := TokenStream.peek_spec near.ready'.sound ahead
  exact near.of_leads (Rule.leads_peek near.ready ahead) (Rule.leads_peek near.ready' ahead) cursor
    cursor' rfl rfl near.furthest

theorem stepped (near : pairs.Near state other) : pairs.Near state.stepped other.stepped := by
  have leads := ParserState.leads_stepped near.ready
  have leads' := ParserState.leads_stepped near.ready'
  have ahead : ∀ {state : ParserState}, state.Ready →
      state.stepped.stream.ahead = state.stream.ahead.tail := by
    intro state ready
    have agrees := Rule.advance.agrees_on state ready
    rw [Rule.on_advance] at agrees
    obtain ⟨later, run, _, spot⟩ := agrees
    obtain ⟨_, rfl⟩ := Prod.mk.inj (state.advance_run.symm.trans run)
    exact congrArg Spot.ahead spot
  refine ⟨leads.ready, leads'.ready, near.source, near.source', near.settings, ?_, ?_,
    near.placeholders, near.furthest⟩
  · have each := near.ahead
    rw [ahead near.ready, ahead near.ready']
    generalize state.stream.ahead = tokens at each ⊢
    generalize other.stream.ahead = tokens' at each ⊢
    cases each with
    | nil => exact .nil
    | cons _ rest => exact rest
  · rw [TokenStream.stop_eq_of_whole leads.stream.whole,
      TokenStream.stop_eq_of_whole leads'.stream.whole]
    exact near.stop

theorem numbered (near : pairs.Near state other) : pairs.Near state.numbered other.numbered :=
  { near with
    ready := near.ready.alike rfl rfl rfl
    ready' := near.ready'.alike rfl rfl rfl
    placeholders := congrArg (· + 1) near.placeholders }

theorem failure (near : pairs.Near state other) (expected : List String) :
    pairs.SameSyntax (state.failure expected) (other.failure expected) := by
  have pair := near.token 0
  unfold ParserState.failure SyntaxError.ofExpected
  rw [pairs.kind pair]
  exact .at_ ⟨_, _, pair, rfl, rfl⟩

/-- Behind rejected alternatives both sides go on from where they began. -/
theorem resumed {later later' : ParserState} {error error' : SyntaxError}
    (near : pairs.Near state other) (behind : pairs.Near later later')
    (same : pairs.SameSyntax error error') (leads : state.Leads (state.resumed later error))
    (leads' : other.Leads (other.resumed later' error')) :
    pairs.Near (state.resumed later error) (other.resumed later' error') := by
  apply near.of_leads leads leads' _ _ rfl rfl
  · exact .some (behind.furthest.remember same)
  · exact Nat.le_antisymm (Nat.min_le_left _ _) leads.stream.cursor
  · exact Nat.le_antisymm (Nat.min_le_left _ _) leads'.stream.cursor

end Near

end TokenPairs

namespace Comparison

open Rule

variable (pairs : TokenPairs)

/-- Runs over tokens that come in pairs. -/
def paired : Comparison where
  likeness := pairs.likeness
  Near state other := pairs.Near state other
  Open _ := True
  Failed error state error' other := pairs.SameFailure error error' ∧ pairs.Near state other
  Lossy := False
  ready near := ⟨near.ready, near.ready'⟩
  length near := near.ahead.length_eq.symm
  look ahead near := by
    refine ⟨near.looked ahead, ⟨?_⟩⟩
    show Token.mk _ (pairs.likeness.left.span _) = Token.mk _ (pairs.likeness.right.span _)
    rw [pairs.kind (near.token ahead), pairs.place]
  step near := near.stepped
  last _ := ⟨pairs.place _ _⟩
  number {state other} near := by
    refine ⟨near.numbered, ?_⟩
    rw [near.placeholders]
    exact pairs.number other.placeholders
  name anyKeyword near := by
    rw [near.source, near.source']
    exact pairs.name anyKeyword (near.token 0)
  pipes near := by rw [near.settings]
  fails expected near := ⟨.unexpected (near.failure expected), near.looked 0⟩
  family failed := by cases failed.1 <;> rfl
  resume := by
    rintro state other later later' error error' near leads leads' ⟨⟨same⟩, behind⟩
    exact near.resumed behind same leads leads'
  opens _ _ _ := trivial
  keeps _ _ := trivial
  reflexive := nofun
  sides := nofun

theorem paired_opens : (paired pairs).Opens (paired pairs) where
  likeness := rfl
  lossy := id
  within near _ :=
    { near with
      ready := near.ready.alike rfl rfl rfl
      ready' := near.ready'.alike rfl rfl rfl }
  behind near :=
    { near with
      ready := near.ready.alike rfl rfl rfl
      ready' := near.ready'.alike rfl rfl rfl }
  failed failed :=
    ⟨failed.1, { failed.2 with
      ready := failed.2.ready.alike rfl rfl rfl
      ready' := failed.2.ready'.alike rfl rfl rfl }⟩

/-- The limit is met at the tokens of a pair. -/
theorem tooDeep_paired {α : Type} [Labelled α] :
    InStep (paired pairs) true (tooDeep : Rule α) tooDeep where
  abreast {state other} near _ := by
    refine ⟨.of_lawful _ near.ready, .of_lawful _ near.ready', ?_⟩
    have run : ∀ state : ParserState, (tooDeep : Rule α) state =
        (.error (.tooDeep state.settings.maxDepth (state.token 0).span.position),
          { state.looked 0 with depthTrips := state.depthTrips + 1 }) := fun _ => rfl
    have looked := near.looked 0
    rw [run, run, near.settings]
    exact .failed ⟨.tooDeep ⟨_, _, near.token 0, rfl, rfl⟩, { looked with
      ready := looked.ready.alike rfl rfl rfl
      ready' := looked.ready'.alike rfl rfl rfl }⟩

/-- By induction on the levels that may be opened. -/
theorem innerAt_paired (levels : Nat) :
    InnerInStep (paired pairs) (innerAt levels) (innerAt levels) := by
  induction levels with
  | zero =>
      refine ⟨fun power => ?_, ?_, ?_⟩
      · rw [operand_zero]
        exact tooDeep_paired pairs
      · rw [query_zero]
        exact tooDeep_paired pairs
      · rw [tableInParens_zero]
        exact tooDeep_paired pairs
  | succ levels inductionHypothesis =>
      exact (paired_opens pairs).inner (innerAt_around levels) (innerAt_around levels)

end Comparison

/-! ### To the end of a source -/

namespace Rule

open Comparison

variable {α : Type} {pairs : TokenPairs}

/-- The outcomes of two runs to the ends of their sources. -/
inductive SameOutcome [Labelled α] (pairs : TokenPairs) :
    Except ParseError α → Except ParseError α → Prop where
  | parsed {value copy : α} (alike : Alike pairs.likeness value copy) :
      SameOutcome pairs (.ok value) (.ok copy)
  | failed {error error' : ParseError} (same : pairs.SameFailure error error') :
      SameOutcome pairs (.error error) (.error error')

/-- Where no lexical failure ends the tokens, none is kept aside. -/
theorem unparked_of_unfailed {state : ParserState} (ready : state.Ready)
    (unfailed : state.stream.failure = none) : state.stream.parked = none := by
  apply Option.eq_none_iff_forall_ne_some.mpr
  intro error parked
  rw [ready.sound.failure_of_parked parked] at unfailed
  cases unfailed

/-- With no lexical failure the same failure is reported on both sides. -/
theorem reported_paired {later later' : ParserState} {error error' : ParseError}
    (near : pairs.Near later later') (unfailed : later.stream.failure = none)
    (unfailed' : later'.stream.failure = none) (same : pairs.SameFailure error error') :
    pairs.SameFailure (reported error later).1 (reported error' later').1 := by
  unfold reported TokenStream.takeLexError
  rw [unparked_of_unfailed near.ready unfailed, unparked_of_unfailed near.ready' unfailed']
  cases same with
  | unexpected same => exact .unexpected (near.furthest.remember same)
  | tooDeep pair => exact .tooDeep pair

/-- With no lexical failure the end of a source is the end of its tokens. -/
theorem endOfSource_unfailed {state : ParserState} (ready : state.Ready)
    (unfailed : state.stream.failure = none) :
    ((state.token 0).kind = .endOfInput → ∃ last, endOfSource state = (.ok (), last)) ∧
      ((state.token 0).kind ≠ .endOfInput → endOfSource state =
        (.error (.unexpected ((state.looked 0).failure [TokenKind.endOfInput.describe])),
          (state.looked 0).looked 0)) := by
  have leads := leads_peek ready 0
  have unparked : (state.looked 0).stream.parked = none :=
    unparked_of_unfailed leads.ready (leads.stream.failure.trans unfailed)
  rw [endOfSource_looked, unparked]
  refine ⟨fun ended => ?_, fun inner => if_neg inner⟩
  rw [if_pos ended]
  exact ⟨_, rfl⟩

/-- What two runs over pairs of tokens come to at the ends of their sources. -/
theorem toEnd_paired [Labelled α] {rule copy : Rule α} {state other : ParserState}
    (abreast : (paired pairs).Abreast false rule copy state other)
    (unfailed : state.stream.failure = none) (unfailed' : other.stream.failure = none) :
    SameOutcome pairs (toEnd rule state).1 (toEnd copy other).1 := by
  obtain ⟨safe, safe', verdict⟩ := abreast
  have run := toEnd_run rule state
  have run' := toEnd_run copy other
  rcases left : rule state with ⟨result, later⟩
  rcases right : copy other with ⟨result', later'⟩
  have failure := (safe.of_run left).stream.failure.trans unfailed
  have failure' := (safe'.of_run right).stream.failure.trans unfailed'
  rw [left, right] at verdict
  rw [left] at run
  rw [right] at run'
  cases verdict with
  | failed failed =>
      obtain ⟨same, near⟩ := failed
      rw [run, run']
      exact .failed (reported_paired near failure failure' same)
  | lost lossy => exact lossy.elim
  | done alike near =>
      have kind := pairs.kind (near.token 0)
      dsimp only at run run'
      by_cases ended : (later.token 0).kind = .endOfInput
      · obtain ⟨last, stop⟩ := (endOfSource_unfailed near.ready failure).1 ended
        obtain ⟨last', stop'⟩ := (endOfSource_unfailed near.ready' failure').1 (kind.trans ended)
        rw [run, run', stop, stop']
        exact .parsed alike
      · have stop := (endOfSource_unfailed near.ready failure).2 ended
        have stop' := (endOfSource_unfailed near.ready' failure').2 (kind ▸ ended)
        have looked := near.looked 0
        have again := looked.looked 0
        rw [run, run', stop, stop']
        apply SameOutcome.failed
        apply reported_paired again _ _ (.unexpected (looked.failure _))
        · exact (leads_peek looked.ready 0).stream.failure.trans
            ((leads_peek near.ready 0).stream.failure.trans failure)
        · exact (leads_peek looked.ready' 0).stream.failure.trans
            ((leads_peek near.ready' 0).stream.failure.trans failure')

end Rule

end SqlDml
