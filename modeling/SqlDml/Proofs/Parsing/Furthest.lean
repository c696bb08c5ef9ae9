import SqlDml.Proofs.Parsing.Entry

/-!
Contract: which failure is reported when a token was unexpected.

Owns:
- the failure that ended a parse, and those of the alternatives rejected before;
- the reported failure as the furthest of them all.

Does not own: which alternatives are tried.
-/

namespace SqlDml

namespace Rule

variable {α : Type}

/-- A rule and the end of the source behind it, with the failure of its own. -/
def untilEnd (rule : Rule α) : Rule α := do
  let tree ← rule
  endOfSource
  return tree

theorem toEnd_eq (rule : Rule α) : toEnd rule = finish (untilEnd rule) := rfl

/-- The end of the source is unexpected to be missing only at a token that was read. -/
theorem describes_of_endOfSource {state reached : ParserState} (ready : state.Ready)
    {last : SyntaxError} (run : endOfSource state = (.error (.unexpected last), reached)) :
    reached.Ready ∧ state.stream.Leads reached.stream ∧ reached.Describes last := by
  rw [endOfSource_run] at run
  split at run
  · split at run <;> cases run
  · have shown := leads_peek ready 0
    have agrees : (fail [TokenKind.endOfInput.describe] : Rule Unit).Agrees _ .stuck :=
      fail_agrees _ _ shown.ready
    obtain ⟨error, later, failed, leads, describes⟩ := agrees
    rw [failed] at run
    cases run
    exact ⟨leads.ready, shown.stream.trans leads.stream, describes⟩

/-- A rule that is followed by the end of the source describes the token that it fails at. -/
theorem describes_of_untilEnd {rule : Rule α} [rule.Lawful] {state reached : ParserState}
    (ready : state.Ready) {last : SyntaxError}
    (run : untilEnd rule state = (.error (.unexpected last), reached)) :
    reached.Ready ∧ state.stream.Leads reached.stream ∧ reached.Describes last := by
  have agrees := rule.agrees_on state ready
  rw [untilEnd, bind_run] at run
  cases outcome : rule.on state.spot with
  | stuck =>
      rw [outcome] at agrees
      obtain ⟨error, later, failed, leads, describes⟩ := agrees
      rw [failed] at run
      cases run
      exact ⟨leads.ready, leads.stream, describes⟩
  | deep =>
      rw [outcome] at agrees
      obtain ⟨limit, position, later, failed, _⟩ := agrees
      rw [failed] at run
      cases run
  | done value spot =>
      rw [outcome] at agrees
      obtain ⟨later, read, leads, _⟩ := agrees
      rw [read] at run
      dsimp only at run
      rw [bind_run] at run
      cases behind : endOfSource later with
      | mk result last =>
          rw [behind] at run
          cases result with
          | ok done => cases run
          | error error =>
              cases run
              obtain ⟨lastReady, more, describes⟩ := describes_of_endOfSource leads.ready behind
              exact ⟨lastReady, leads.stream.trans more, describes⟩

/-- An unexpected token is reported where the last failure is merged into what is remembered. -/
theorem reported_unexpected {error : ParseError} {state : ParserState} {failure : SyntaxError}
    (same : (reported error state).1 = .unexpected failure) :
    ∃ last, error = .unexpected last ∧ failure = remember state.furthest last := by
  unfold reported at same
  split at same
  · cases same
  · cases error with
    | unexpected last =>
        cases same
        exact ⟨last, rfl, rfl⟩
    | lexical error => cases same
    | tooDeep limit position => cases same

/-- What a reported failure says of the failures of a parse: it unites them, and it describes a token
of the source. -/
structure Reports (source : String) (settings : Settings) (error : SyntaxError)
    (failures : List SyntaxError) : Prop where
  unites : error.Unites failures
  describes : ∃ token ∈ (TokenStream.ofSource source settings).whole,
    token.span.position = error.position ∧ token.kind.describe = error.found

/-- Whatever alternatives were rejected on the way, the reported failure unites theirs with the one
that ended the parse. -/
theorem reports_of_toEnd {rule : Rule α} [rule.Lawful] {source : String} {settings : Settings}
    {error : SyntaxError}
    (failed : (toEnd rule (ParserState.ofSource source settings)).1 = .error (.unexpected error)) :
    ∃ last reached,
      untilEnd rule (ParserState.ofSource source settings) = (.error (.unexpected last), reached) ∧
        Reports source settings error (last :: reached.rejected) := by
  have ready := ParserState.ready_ofSource source settings
  rw [toEnd_eq, finish] at failed
  cases run : untilEnd rule (ParserState.ofSource source settings) with
  | mk result reached =>
      rw [run] at failed
      cases result with
      | ok value => cases failed
      | error raised =>
          obtain ⟨last, rfl, rfl⟩ := reported_unexpected (Except.error.inj failed)
          obtain ⟨reachedReady, leads, describes⟩ := describes_of_untilEnd ready run
          have each : ∀ failure ∈ last :: reached.rejected, reached.Describes failure :=
            List.forall_mem_cons.mpr ⟨describes, reachedReady.recalls.described⟩
          refine ⟨last, reached, rfl, ?_, ?_⟩
          · rw [reachedReady.recalls.furthest]
            apply SyntaxError.unites_remember
            intro failure member
            obtain ⟨token, expected, _, rfl⟩ := each failure member
            exact SyntaxError.unites_ofExpected _ _ _
          · have merged : reached.Describes (remember reached.furthest last) := by
              rw [reachedReady.recalls.furthest]
              exact SyntaxError.remember_of_merge (fun _ _ => ParserState.Describes.merge) each
            obtain ⟨token, expected, ⟨index, _, found⟩, same⟩ := merged
            rw [same]
            rw [leads.whole] at found
            exact ⟨token, List.mem_of_getElem? found, rfl, rfl⟩

end Rule

open Rule

/-- The failures of a parse are those of the alternatives that it rejected and the one that ended it.
When the one that ended it is an unexpected token, the reported failure unites them all: it stands at
the furthest of their positions, describes the token there, and expects in strictly increasing order
what those of them expect that stand at the same offset.  This holds of statements and of
expressions. -/
theorem furthest_failure_reported (source : String) (settings : Settings) :
    (∀ error, parseStatement source settings = .error (.unexpected error) →
      ∃ last reached,
        wholeStatement (ParserState.ofSource source settings) =
          (.error (.unexpected last), reached) ∧
        Reports source settings error (last :: reached.rejected)) ∧
    ∀ error, parseExpression source settings = .error (.unexpected error) →
      ∃ last reached,
        wholeExpression (ParserState.ofSource source settings) =
          (.error (.unexpected last), reached) ∧
        Reports source settings error (last :: reached.rejected) := by
  constructor
  · intro error failed
    have run : wholeStatement (ParserState.ofSource source settings) =
        untilEnd (statementTokens settings.maxDepth) (ParserState.ofSource source settings) :=
      wholeStatement_run _ rfl
    rw [run]
    apply reports_of_toEnd
    rw [parseStatement, parseStatement_run] at failed
    cases ends : toEnd (statementTokens settings.maxDepth) (ParserState.ofSource source settings) with
    | mk result later =>
        rw [ends] at failed
        cases result with
        | ok tree => cases failed
        | error raised =>
            cases failed
            rfl
  · intro error failed
    have run : wholeExpression (ParserState.ofSource source settings) =
        untilEnd (innerAt settings.maxDepth).expr (ParserState.ofSource source settings) :=
      wholeExpression_run _ rfl
    rw [run]
    apply reports_of_toEnd
    rw [parseExpression, parseExpression_run] at failed
    exact failed

/-- The rejected form with targets and the single table fail at the same token. -/
theorem furthest_failure_reported_of_delete :
    parseStatement "DELETE FROM t = 1" {} =
        .error (.unexpected ⟨["USING", "end of input"], "'='", ⟨14, 1, 15⟩⟩) ∧
      ∃ last reached,
        wholeStatement (ParserState.ofSource "DELETE FROM t = 1" {}) =
          (.error (.unexpected last), reached) ∧
        Reports "DELETE FROM t = 1" {} ⟨["USING", "end of input"], "'='", ⟨14, 1, 15⟩⟩
          (last :: reached.rejected) := by
  have reported : parseStatement "DELETE FROM t = 1" {} =
      .error (.unexpected ⟨["USING", "end of input"], "'='", ⟨14, 1, 15⟩⟩) :=
    eq_error_of_computed (by decide +kernel)
  exact ⟨reported, (furthest_failure_reported _ _).1 _ reported⟩

end SqlDml
