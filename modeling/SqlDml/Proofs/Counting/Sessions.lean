import Mathlib.Data.List.DropRight
import SqlDml.Proofs.Counting.Parses

/-!
Contract: the counters of a session, step after step.

Owns:
- what each kind of step adds to the counters or resets;
- totals since the last reset;
- that no step's outcome depends on the counters, nor on the steps before it.

Does not own: what a parse rewinds and reads.
-/

namespace SqlDml

open Rule

namespace SessionStep

/-- Whether a step parses a source. -/
def parses : SessionStep → Bool
  | .statement _ _ | .expression _ _ => true
  | .tokenize _ _ | .resetParse | .resetTokenize => false

/-- Whether a step makes a lexer. -/
def lexes : SessionStep → Bool
  | .statement _ _ | .expression _ _ | .tokenize _ _ => true
  | .resetParse | .resetTokenize => false

/-- Whether a step resets the counters of parsers. -/
def resetsParse : SessionStep → Bool
  | .resetParse => true
  | _ => false

/-- Whether a step resets the counters of lexers. -/
def resetsTokenize : SessionStep → Bool
  | .resetTokenize => true
  | _ => false

/-- The outcome of a step that is taken alone, with nothing counted before. -/
def alone (step : SessionStep) : SessionOutcome := (({} : Counters).step step).1

/-- What a step does to the counters where it has an outcome. -/
def Adds (before after : Counters) (outcome : SessionOutcome) : SessionStep → Prop
  | .statement source settings => ∃ result, outcome = .statement result ∧
      ParseAdds source settings wholeStatement (failure? result) before after ∧
      ∀ parsed, result = .ok parsed →
        after.tokenize.tokens = before.tokenize.tokens + (parsed.tokens.length + 1)
  | .expression source settings => ∃ result, outcome = .expression result ∧
      ParseAdds source settings wholeExpression (failure? result) before after
  | .tokenize source settings => ∃ result, outcome = .tokens result ∧
      after.parse = before.parse ∧ after.tokenize.calls = before.tokenize.calls + 1 ∧
      after.tokenize.tokens =
        before.tokenize.tokens + (TokenRun.ofSource source settings).tokens.length ∧
      (∀ tokens, result = .ok tokens → tokens = (TokenRun.ofSource source settings).tokens ∧
        after.tokenize.errors = before.tokenize.errors) ∧
      (∀ error, result = .error error → after.tokenize.errors = before.tokenize.errors + 1)
  | .resetParse => outcome = .reset ∧ after = { before with parse := {} }
  | .resetTokenize => outcome = .reset ∧ after = { before with tokenize := {} }

end SessionStep

open SessionStep

namespace Counters

/-- A step comes out as it does alone. -/
theorem step_alone (counters : Counters) (step : SessionStep) :
    (counters.step step).1 = step.alone := by
  cases step <;> rfl

theorem step_adds (counters : Counters) (step : SessionStep) :
    step.Adds counters (counters.step step).2 (counters.step step).1 := by
  cases step with
  | statement source settings => exact statement_adds source settings counters
  | expression source settings => exact expression_adds source settings counters
  | tokenize source settings =>
      refine ⟨(TokenRun.ofSource source settings).toExcept, rfl, rfl, rfl, rfl, ?_, ?_⟩
      all_goals
        simp only [Counters.step, addTokenRun, addLexer, TokenRun.toExcept]
        cases (TokenRun.ofSource source settings).error <;> simp_all
  | resetParse => exact ⟨rfl, rfl⟩
  | resetTokenize => exact ⟨rfl, rfl⟩

/-- The counters after steps that follow one another. -/
def through (counters : Counters) (steps : List SessionStep) : Counters :=
  steps.foldl (fun counters step => (counters.step step).2) counters

/-- The step behind others is taken with the counters that those leave. -/
theorem getElem?_run (counters : Counters) (front back : List SessionStep) (step : SessionStep) :
    (counters.run (front ++ step :: back))[front.length]? =
      some ((counters.through front).step step) := by
  induction front generalizing counters with
  | nil => rfl
  | cons first front inductionHypothesis => exact inductionHypothesis (counters.step first).2

/-! ### Totals -/

/-- How many steps of a kind there are behind the last one that resets, or behind the beginning. -/
def since (resets counts : SessionStep → Bool) (steps : List SessionStep) : Nat :=
  (steps.rtakeWhile fun step => !resets step).countP counts

theorem since_concat (resets counts : SessionStep → Bool) (steps : List SessionStep)
    (step : SessionStep) :
    since resets counts (steps ++ [step]) =
      if resets step then 0 else since resets counts steps + if counts step then 1 else 0 := by
  unfold since
  rw [List.rtakeWhile_concat]
  cases resets step <;> simp [List.countP_append, List.countP_singleton]

/-- The totals of a session since the last resets. -/
structure Totals (steps : List SessionStep) (counters : Counters) : Prop where
  parses : counters.parse.statements + counters.parse.failures = since resetsParse parses steps
  lexers : counters.tokenize.calls = since resetsTokenize lexes steps

end Counters

namespace ParseAdds

variable {α : Type} {source : String} {settings : Settings} {rule : Rule α}
  {failure : Option ParseError} {before after : Counters}

/-- A parse is counted once, whatever it comes to. -/
theorem once (adds : ParseAdds source settings rule failure before after) :
    after.parse.statements + after.parse.failures =
      before.parse.statements + before.parse.failures + 1 := by
  by_cases done : failure = none
  · have parsed := adds.parsed done
    omega
  · have failed := adds.failed done
    omega

end ParseAdds

namespace Counters

/-- One more step keeps the totals. -/
theorem Totals.step {steps : List SessionStep} {before after : Counters} {step : SessionStep}
    {outcome : SessionOutcome} (totals : Totals steps before)
    (adds : step.Adds before after outcome) : Totals (steps ++ [step]) after := by
  have parses := since_concat resetsParse SessionStep.parses steps step
  have lexers := since_concat resetsTokenize lexes steps step
  rw [← totals.parses] at parses
  rw [← totals.lexers] at lexers
  cases step with
  | statement source settings =>
      obtain ⟨result, _, adds, _⟩ := adds
      exact ⟨adds.once.trans parses.symm, adds.lexer.trans lexers.symm⟩
  | expression source settings =>
      obtain ⟨result, _, adds⟩ := adds
      exact ⟨adds.once.trans parses.symm, adds.lexer.trans lexers.symm⟩
  | tokenize source settings =>
      obtain ⟨result, _, same, calls, _⟩ := adds
      rw [← same] at parses
      exact ⟨parses.symm, calls.trans lexers.symm⟩
  | resetParse =>
      obtain ⟨_, rfl⟩ := adds
      exact ⟨parses.symm, lexers.symm⟩
  | resetTokenize =>
      obtain ⟨_, rfl⟩ := adds
      exact ⟨parses.symm, lexers.symm⟩

/-- A session that begins with nothing counted keeps its totals. -/
theorem totals_through (steps : List SessionStep) : Totals steps (({} : Counters).through steps) := by
  induction steps using List.reverseRecOn with
  | nil => exact ⟨rfl, rfl⟩
  | append_singleton steps step inductionHypothesis =>
      have taken : ({} : Counters).through (steps ++ [step]) =
          ((({} : Counters).through steps).step step).2 := List.foldl_concat _ _ _ _
      rw [taken]
      exact inductionHypothesis.step (step_adds _ step)

/-- In a session that begins with nothing counted each step comes out as it does alone, adds to the
counters just what it did, and leaves them with the totals since the last resets. -/
theorem session_accounts (front back : List SessionStep) (step : SessionStep) :
    ∃ outcome after,
      (({} : Counters).run (front ++ step :: back))[front.length]? = some (outcome, after) ∧
      outcome = step.alone ∧ step.Adds (({} : Counters).through front) after outcome ∧
      Totals (front ++ [step]) after :=
  ⟨_, _, getElem?_run {} front back step, step_alone _ step, step_adds _ step,
    (totals_through front).step (step_adds _ step)⟩

end Counters

end SqlDml
