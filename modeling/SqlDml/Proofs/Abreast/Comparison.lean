import SqlDml.Proofs.Rules.Language
import SqlDml.Proofs.Trees.Alike

/-!
Contract: two runs of the grammar side by side.

Owns:
- what two runs have in common at each step, and what is to hold when both fail;
- two rules abreast: from states in step they read trees that are alike and end in step, or both fail;
- how such rules are put together.

Does not own: the rules of the language, and what is compared with what.
-/

namespace SqlDml

namespace ParserState

/-- The state behind a look some tokens ahead. -/
def looked (ahead : Nat) (state : ParserState) : ParserState :=
  { state with stream := (state.stream.peek ahead).2 }

/-- The state behind the next token. -/
def stepped (state : ParserState) : ParserState :=
  { state with stream := state.stream.advance.2 }

/-- The state behind the number of one more parameter marker. -/
def numbered (state : ParserState) : ParserState :=
  { state with placeholders := state.placeholders + 1 }

/-- The token some places ahead. -/
def token (ahead : Nat) (state : ParserState) : Token := (state.stream.peek ahead).1

/-- The failure at the next token, which is none of what is expected. -/
def failure (expected : List String) (state : ParserState) : SyntaxError :=
  .ofExpected (state.token 0).span.position expected (state.token 0).kind.describe

theorem advance_run (state : ParserState) :
    Rule.advance state = (.ok (state.token 0), state.stepped) := by
  have token : state.stream.advance.1 = state.token 0 := by
    unfold TokenStream.advance
    dsimp only
    split <;> rfl
  rw [← token]
  rfl

end ParserState

/-- What two runs of the grammar have in common, the left one in a state and the right one in
another. -/
structure Comparison where
  likeness : Likeness
  /-- States in step. -/
  Near : ParserState → ParserState → Prop
  /-- States in which one more nesting level may be opened. -/
  Open : ParserState → Prop
  /-- What is to hold of two failures and of the states that they leave. -/
  Failed : ParseError → ParserState → ParseError → ParserState → Prop
  /-- Whether the left run may meet its nesting limit while the right one goes on. -/
  Lossy : Prop
  ready : ∀ {state other}, Near state other → state.Ready ∧ other.Ready
  length : ∀ {state other}, Near state other →
    other.spot.ahead.length = state.spot.ahead.length
  look : ∀ {state other} (ahead : Nat), Near state other →
    Near (state.looked ahead) (other.looked ahead) ∧
      Alike likeness (state.token ahead) (other.token ahead)
  step : ∀ {state other}, Near state other → Near state.stepped other.stepped
  last : ∀ {state other}, Near state other →
    Alike likeness state.stream.previousSpan other.stream.previousSpan
  number : ∀ {state other}, Near state other → Near state.numbered other.numbered ∧
    likeness.left.marker state.placeholders = likeness.right.marker other.placeholders
  name : ∀ {state other} (anyKeyword : Bool), Near state other →
    Alike likeness (identOfToken? state.source anyKeyword (state.token 0))
      (identOfToken? other.source anyKeyword (other.token 0))
  pipes : ∀ {state other}, Near state other →
    other.settings.pipesAsConcat = state.settings.pipesAsConcat
  fails : ∀ {state other} (expected : List String), Near state other →
    Failed (.unexpected (state.failure expected)) (state.looked 0)
      (.unexpected (other.failure expected)) (other.looked 0)
  family : ∀ {error error' later later'}, Failed error later error' later' →
    error'.isUnexpected = error.isUnexpected
  resume : ∀ {state other later later' error error'}, Near state other →
    state.Leads (state.resumed later error) → other.Leads (other.resumed later' error') →
      Failed (.unexpected error) later (.unexpected error') later' →
        Near (state.resumed later error) (other.resumed later' error')
  opens : ∀ {state other later}, Near state other → state.Leads later →
    later.spot.ahead.length < state.spot.ahead.length → Open later
  keeps : ∀ {state later}, state.Leads later → Open state → Open later
  /-- Where the left run is lost, the right one is in step with itself. -/
  reflexive : Lossy → ∀ {state : ParserState}, state.Ready → Near state state ∧ Open state
  sides : Lossy → likeness.left = likeness.right

namespace Rule

variable {α β σ : Type}

/-- Where a rule leads from a state: to a later one, and if it fails, it does so at a token that was
read. -/
def Safe (rule : Rule α) (state : ParserState) : Prop :=
  match rule state with
  | (.ok _, later) => state.Leads later
  | (.error error, later) => state.Leads later ∧ later.Locates error

theorem Safe.of_lawful (rule : Rule α) [rule.Lawful] {state : ParserState} (ready : state.Ready) :
    rule.Safe state := by
  have agrees := rule.agrees_on state ready
  unfold Safe
  cases outcome : rule.on state.spot with
  | done value spot =>
      rw [outcome] at agrees
      obtain ⟨later, run, leads, _⟩ := agrees
      rw [run]
      exact leads
  | stuck =>
      rw [outcome] at agrees
      obtain ⟨error, later, run, leads, describes⟩ := agrees
      rw [run]
      exact ⟨leads, describes⟩
  | deep =>
      rw [outcome] at agrees
      obtain ⟨limit, position, later, run, leads, met⟩ := agrees
      rw [run]
      exact ⟨leads, met⟩

/-- Every outcome leads to a later state. -/
theorem Safe.leads {rule : Rule α} {state : ParserState} (safe : rule.Safe state) :
    state.Leads (rule state).2 := by
  unfold Safe at safe
  split at safe
  · next run =>
      rw [run]
      exact safe
  · next run =>
      rw [run]
      exact safe.1

theorem Safe.of_run {rule : Rule α} {state later : ParserState} {result : Except ParseError α}
    (safe : rule.Safe state) (run : rule state = (result, later)) : state.Leads later := by
  have leads := safe.leads
  rwa [run] at leads

theorem Safe.bind {rule : Rule α} {next : α → Rule β} {state : ParserState} (safe : rule.Safe state)
    (rest : ∀ value later, rule state = (.ok value, later) → (next value).Safe later) :
    (rule >>= next).Safe state := by
  unfold Safe at safe rest ⊢
  rw [bind_run]
  rcases run : rule state with ⟨result | result, later⟩
  · rw [run] at safe
    exact safe
  · rw [run] at safe
    have behind := rest result later run
    dsimp only at safe ⊢
    split at behind
    · next nextRun =>
        rw [nextRun]
        exact safe.trans behind
    · next nextRun =>
        rw [nextRun]
        exact ⟨safe.trans behind.1, behind.2⟩

theorem Safe.attempt {rule : Rule α} {state : ParserState} (ready : state.Ready)
    (safe : rule.Safe state) : (attempt rule).Safe state := by
  unfold Safe at safe ⊢
  rw [attempt_run]
  rcases run : rule state with ⟨result | result, later⟩
  · rw [run] at safe
    cases result with
    | lexical => exact safe
    | unexpected => exact leads_resumed ready safe.1 safe.2
    | tooDeep => exact safe
  · rw [run] at safe
    exact safe

theorem Safe.iterate {step : σ → Rule (Option σ)}
    (steps : ∀ value (state : ParserState), state.Ready → (step value).Safe state) (fuel : Nat)
    (value : σ) {state : ParserState} (ready : state.Ready) :
    (iterate step fuel value).Safe state := by
  induction fuel generalizing value state with
  | zero => exact .refl ready
  | succ fuel inductionHypothesis =>
      refine (steps value state ready).bind fun found later run => ?_
      have laterReady := ((steps value state ready).of_run run).ready
      cases found with
      | none => exact .refl laterReady
      | some next => exact inductionHypothesis next laterReady

end Rule

namespace Comparison

open Rule

variable {α β γ σ : Type} [Labelled α] [Labelled β] [Labelled γ] [Labelled σ] {C : Comparison}

/-- What two runs come to: both read trees that are alike, or both fail, or the left one meets its
nesting limit and the right one reads at least as many tokens. -/
inductive Verdict (C : Comparison) (opens : Bool) :
    Except ParseError α × ParserState → Except ParseError α × ParserState → Prop where
  | done {value copy : α} {later later' : ParserState} (alike : Alike C.likeness value copy)
      (near : C.Near later later') (opened : opens = true → C.Open later) :
      Verdict C opens (.ok value, later) (.ok copy, later')
  | failed {error error' : ParseError} {later later' : ParserState}
      (failed : C.Failed error later error' later') :
      Verdict C opens (.error error, later) (.error error', later')
  | lost {limit : Nat} {position : Position} {later : ParserState}
      {result : Except ParseError α × ParserState} (lossy : C.Lossy)
      (read : later.stream.buffer.size ≤ result.2.stream.buffer.size) :
      Verdict C opens (.error (.tooDeep limit position), later) result

/-- Two rules abreast, from one pair of states; behind what they read a nesting level may be opened
if `opens` says so. -/
structure Abreast (C : Comparison) (opens : Bool) (rule copy : Rule α)
    (state other : ParserState) : Prop where
  left : rule.Safe state
  right : copy.Safe other
  verdict : C.Verdict opens (rule state) (copy other)

namespace Abreast

variable {opens mid : Bool} {rule copy : Rule α} {next next' : α → Rule β}
  {state other : ParserState}

omit [Labelled α] in
/-- Going on behind what both rules read. -/
theorem behind {value copied : α} {later later' : ParserState}
    (left : rule state = (.ok value, later)) (right : copy other = (.ok copied, later'))
    (leads : state.Leads later) (leads' : other.Leads later')
    (rest : C.Abreast opens (next value) (next' copied) later later') :
    C.Abreast opens (rule >>= next) (copy >>= next') state other := by
  have safe : rule.Safe state := by rw [Safe, left]; exact leads
  have safe' : copy.Safe other := by rw [Safe, right]; exact leads'
  refine ⟨safe.bind fun _ _ same => ?_, safe'.bind fun _ _ same => ?_, ?_⟩
  · cases left.symm.trans same
    exact rest.left
  · cases right.symm.trans same
    exact rest.right
  · rw [bind_run, bind_run, left, right]
    exact rest.verdict

omit [Labelled α] in
/-- Where both rules fail, nothing is read behind them. -/
theorem failed_bind {error error' : ParseError} {later later' : ParserState}
    (left : rule state = (.error error, later)) (right : copy other = (.error error', later'))
    (safe : rule.Safe state) (safe' : copy.Safe other) (failed : C.Failed error later error' later') :
    C.Abreast opens (rule >>= next) (copy >>= next') state other := by
  refine ⟨safe.bind fun _ _ same => ?_, safe'.bind fun _ _ same => ?_, ?_⟩
  · cases left.symm.trans same
  · cases right.symm.trans same
  · rw [bind_run, bind_run, left, right]
    exact .failed failed

omit [Labelled α] in
/-- Where the left rule has met its limit, only the right one goes on. -/
theorem lost_bind {limit : Nat} {position : Position} {later : ParserState} (lossy : C.Lossy)
    (left : rule state = (.error (.tooDeep limit position), later)) (safe : rule.Safe state)
    (safe' : copy.Safe other) (read : later.stream.buffer.size ≤ (copy other).2.stream.buffer.size)
    (rest : ∀ value reached, copy other = (.ok value, reached) → (next' value).Safe reached) :
    C.Abreast opens (rule >>= next) (copy >>= next') state other := by
  refine ⟨safe.bind fun _ _ same => ?_, safe'.bind rest, ?_⟩
  · cases left.symm.trans same
  · rw [bind_run, left]
    refine .lost lossy (Nat.le_trans read ?_)
    rw [bind_run]
    rcases run : copy other with ⟨result, reached⟩
    cases result with
    | error => exact Nat.le_refl _
    | ok value => exact (rest value reached run).leads.stream.read

/-- Rules one behind the other. -/
theorem bind (first : C.Abreast mid rule copy state other)
    (rest : ∀ {value copied later later'}, Alike C.likeness value copied → C.Near later later' →
      (mid = true → C.Open later) → (C.Open state → C.Open later) →
        C.Abreast opens (next value) (next' copied) later later') :
    C.Abreast opens (rule >>= next) (copy >>= next') state other := by
  have verdict := first.verdict
  rcases run : rule state with ⟨result, later⟩
  rcases run' : copy other with ⟨result', later'⟩
  have leads := first.left.of_run run
  have leads' := first.right.of_run run'
  rw [run, run'] at verdict
  cases verdict with
  | done alike near opened =>
      exact behind run run' leads leads' (rest alike near opened (C.keeps leads))
  | failed failed => exact failed_bind run run' first.left first.right failed
  | lost lossy read =>
      refine lost_bind lossy run first.left first.right (by rw [run']; exact read) ?_
      intro value reached same
      cases run'.symm.trans same
      -- where the left run is lost, the right one is compared with itself
      obtain ⟨near, opened⟩ := C.reflexive lossy leads'.ready
      have alike : Alike C.likeness value value := ⟨by rw [C.sides lossy]⟩
      exact (rest alike near (fun _ => opened) fun _ => opened).right

/-- Where a level may be opened, one may be opened behind every rule. -/
theorem opened (abreast : C.Abreast false rule copy state other) (open_ : C.Open state) :
    C.Abreast opens rule copy state other := by
  refine ⟨abreast.left, abreast.right, ?_⟩
  have verdict := abreast.verdict
  rcases run : rule state with ⟨result, later⟩
  have leads := abreast.left.of_run run
  rw [run] at verdict
  generalize copy other = result' at verdict
  cases verdict with
  | done alike near => exact .done alike near fun _ => C.keeps leads open_
  | failed failed => exact .failed failed
  | lost lossy read => exact .lost lossy read

/-- Forgetting that a level may be opened. -/
theorem weaken (abreast : C.Abreast opens rule copy state other) :
    C.Abreast false rule copy state other := by
  refine ⟨abreast.left, abreast.right, ?_⟩
  have verdict := abreast.verdict
  generalize rule state = result at verdict
  generalize copy other = result' at verdict
  cases verdict with
  | done alike near => exact .done alike near nofun
  | failed failed => exact .failed failed
  | lost lossy read => exact .lost lossy read

theorem pure {value copied : α} (near : C.Near state other) (alike : Alike C.likeness value copied)
    (opened : opens = true → C.Open state) :
    C.Abreast opens (Pure.pure value) (Pure.pure copied) state other :=
  ⟨.refl (C.ready near).1, .refl (C.ready near).2, .done alike near opened⟩

/-- Behind a rule that consumes a token a level may be opened. -/
theorem consuming [rule.Lawful] (near : C.Near state other)
    (abreast : C.Abreast false rule copy state other)
    (shorter : ∀ value later, rule.on state.spot = .done value later →
      later.ahead.length < state.spot.ahead.length) :
    C.Abreast opens rule copy state other := by
  refine ⟨abreast.left, abreast.right, ?_⟩
  have verdict := abreast.verdict
  rcases run : rule state with ⟨result, later⟩
  have leads := abreast.left.of_run run
  rw [run] at verdict
  generalize copy other = result' at verdict
  cases verdict with
  | done alike behind =>
      have outcome := on_of_run (C.ready near).1 run
      exact .done alike behind fun _ => C.opens near leads (shorter _ _ outcome)
  | failed failed => exact .failed failed
  | lost lossy read => exact .lost lossy read

/-- Going on behind a rule that only looks ahead. -/
theorem looking [rule.Lawful] {value : α} (near : C.Near state other)
    (found : rule.on state.spot = .done value state.spot)
    (first : C.Abreast false rule copy state other)
    (rest : ∀ {copied later later'}, Alike C.likeness value copied → C.Near later later' →
      later.spot = state.spot → C.Abreast opens (next value) (next' copied) later later') :
    C.Abreast opens (rule >>= next) (copy >>= next') state other := by
  have agrees := rule.agrees_on state (C.ready near).1
  rw [found] at agrees
  obtain ⟨later, run, leads, same⟩ := agrees
  have verdict := first.verdict
  rcases run' : copy other with ⟨result', later'⟩
  rw [run, run'] at verdict
  cases verdict with
  | done alike behind =>
      exact .behind run run' leads (first.right.of_run run') (rest alike behind same)

/-- An alternative: where it matches both go on behind it, where it does not both go on from where it
began. -/
theorem attempt {tried tried' : Option α → Rule β} (near : C.Near state other)
    (first : C.Abreast mid rule copy state other)
    (found : ∀ {value copied later later'}, Alike C.likeness value copied → C.Near later later' →
      (mid = true → C.Open later) → (C.Open state → C.Open later) →
        C.Abreast opens (tried (some value)) (tried' (some copied)) later later')
    (missing : ∀ {later later'}, C.Near later later' → (C.Open state → C.Open later) →
      C.Abreast opens (tried none) (tried' none) later later') :
    C.Abreast opens (Rule.attempt rule >>= tried) (Rule.attempt copy >>= tried') state other := by
  obtain ⟨ready, ready'⟩ := C.ready near
  have left := attempt_run rule state
  have right := attempt_run copy other
  have safe := first.left.attempt ready
  have safe' := first.right.attempt ready'
  have verdict := first.verdict
  rcases run : rule state with ⟨result, later⟩
  rcases run' : copy other with ⟨result', later'⟩
  have leads := first.left.of_run run
  have leads' := first.right.of_run run'
  rw [run] at left
  rw [run'] at right
  rw [run, run'] at verdict
  cases verdict with
  | done alike same opened =>
      exact behind left right leads leads' (found alike same opened (C.keeps leads))
  | @failed error error' _ _ failed =>
      have family := C.family failed
      cases error with
      | unexpected error =>
          cases error' with
          | unexpected error' =>
              have back := safe.of_run left
              have back' := safe'.of_run right
              exact behind left right back back'
                (missing (C.resume near back back' failed) (C.keeps back))
          | lexical => cases family
          | tooDeep => cases family
      | lexical =>
          cases error' with
          | unexpected => cases family
          | lexical => exact failed_bind left right safe safe' failed
          | tooDeep => exact failed_bind left right safe safe' failed
      | tooDeep =>
          cases error' with
          | unexpected => cases family
          | lexical => exact failed_bind left right safe safe' failed
          | tooDeep => exact failed_bind left right safe safe' failed
  | lost lossy read =>
      refine lost_bind lossy left safe safe' ?_ ?_
      · rw [right]
        cases result' with
        | ok => exact read
        | error error => cases error <;> exact read
      · intro result reached same
        obtain ⟨near, opened⟩ := C.reflexive lossy (safe'.of_run same).ready
        cases result with
        | none => exact (missing near fun _ => opened).right
        | some value =>
            have alike : Alike C.likeness value value := ⟨by rw [C.sides lossy]⟩
            exact (found alike near (fun _ => opened) fun _ => opened).right

end Abreast

end Comparison

end SqlDml
