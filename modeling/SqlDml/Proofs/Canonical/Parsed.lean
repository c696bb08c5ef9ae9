import SqlDml.Proofs.Canonical.Constants
import SqlDml.Proofs.Canonical.Continued
import SqlDml.Proofs.Parsing.Entry

/-!
Contract: canonical text is parsed as the rules take its signs.

Owns:
- that an expression or a statement of which the rules take all signs, if its levels fit, is what a parse
  gives, and that the parse meets the nesting limit if they do not;
- the parse of a constant.

Does not own: which signs the rules take.
-/

namespace SqlDml

open Rule

variable {settings : Settings}

section

variable {source : String} {fits : Prop}

/-- Where no lexical failure ends the tokens, a nesting limit that a rule meets is what the parse
reports. -/
theorem toEnd_of_tooDeep {α : Type} {rule : Rule α} {limit : Nat} {position : Position}
    {later : ParserState} (unfailed : (TokenRun.ofSource source settings).error = none)
    (run : rule (.ofSource source settings) = (.error (.tooDeep limit position), later))
    (leads : (ParserState.ofSource source settings).Leads later) :
    (toEnd rule (.ofSource source settings)).1 = .error (.tooDeep limit position) := by
  have unparked : later.stream.parked = none := by
    cases parked : later.stream.parked with
    | none => rfl
    | some error =>
        have failed : (TokenStream.ofSource source settings).failure = some error :=
          leads.stream.failure ▸ leads.ready.sound.failure_of_parked parked
        rw [TokenStream.ofSource_failure, unfailed] at failed
        cases failed
  rw [toEnd_run, run]
  simp [reported, TokenStream.takeLexError, unparked]

/-- An expression of which the rules take all signs of a source, if its levels fit, is what a parse of
it gives; else the parse meets the nesting limit. -/
theorem parseExpression_of_signs {tree : Expr}
    (unfailed : (TokenRun.ofSource source settings).error = none)
    (takes : (innerAt settings.maxDepth).expr.TakesIf fits settings.pipesAsConcat
      (Spot.ofSource source settings).signs [] tree) :
    (fits → ∃ found, parseExpression source settings = .ok found ∧ Alike .plain tree found) ∧
      (¬ fits → ∃ bound position,
        parseExpression source settings = .error (.tooDeep bound position)) := by
  constructor
  · intro enough
    obtain ⟨found, later, outcome, back, alike⟩ := (takes.takes enough).on _ rfl rfl
    refine ⟨found, (parseExpression_eq_ok source settings).mpr ?_, alike⟩
    exact ⟨unfailed, later, outcome, List.map_eq_nil_iff.mp back⟩
  · intro few
    rcases takes _ (ParserState.ready_ofSource source settings) rfl rfl with
      ⟨enough, _⟩ | ⟨_, limit, position, later, run, leads⟩
    · exact absurd enough few
    · refine ⟨limit, position, ?_⟩
      rw [parseExpression, parseExpression_run]
      exact toEnd_of_tooDeep unfailed run leads

/-- So is a statement. -/
theorem parseStatement_of_signs {tree : Statement}
    (unfailed : (TokenRun.ofSource source settings).error = none)
    (takes : (statement (innerAt settings.maxDepth)).TakesIf fits settings.pipesAsConcat
      (Spot.ofSource source settings).signs [] tree) :
    (fits → ∃ parsed,
      parseStatement source settings = .ok parsed ∧ Alike .plain tree parsed.statement) ∧
      (¬ fits → ∃ bound position,
        parseStatement source settings = .error (.tooDeep bound position)) := by
  have whole : (statementTokens settings.maxDepth).TakesIf fits settings.pipesAsConcat
      (Spot.ofSource source settings).signs [] tree :=
    takes.bind_takes fun _ _ => .eat_none (by simp) .pure
  constructor
  · intro enough
    obtain ⟨found, later, outcome, back, alike⟩ := (whole.takes enough).on _ rfl rfl
    refine ⟨⟨found, (Spot.ofSource source settings).ahead.map Token.span⟩, ?_, alike⟩
    rw [parseStatement_eq_ok]
    exact ⟨unfailed, ⟨later, outcome, List.map_eq_nil_iff.mp back⟩, rfl⟩
  · intro few
    rcases whole _ (ParserState.ready_ofSource source settings) rfl rfl with
      ⟨enough, _⟩ | ⟨_, limit, position, later, run, leads⟩
    · exact absurd enough few
    · refine ⟨limit, position, ?_⟩
      rw [parseStatement_eq, toEnd_of_tooDeep unfailed run leads]

end

/-- What the rules take of the signs of a text is what a parse of the text gives. -/
theorem parseExpression_of_takes {pieces : List Piece} {spaced : Bool} {tree : Expr}
    (lexed : Piece.Lexed settings spaced pieces)
    (fits : Text.byteCount (Piece.chars pieces) ≤ maxSourceLength)
    (takes : (innerAt settings.maxDepth).expr.Takes settings.pipesAsConcat
      (Piece.signsOf settings pieces) [] tree) :
    ∃ found, parseExpression (Piece.textOf pieces) settings = .ok found ∧ Alike .plain tree found := by
  obtain ⟨unfailed, signs⟩ := lexed.signs_ofSource fits
  rw [Piece.textOf_eq]
  exact (parseExpression_of_signs unfailed (signs ▸ takes)).1 trivial

/-- A tree that is like a constant is that constant. -/
theorem Literal.eq_of_alike {value : Literal} {span : Span} {tree : Expr}
    (alike : Alike .plain (Expr.literal value span) tree) : ∃ place, tree = .literal value place := by
  obtain ⟨same⟩ := alike
  cases tree with
  | literal copy place =>
      have equal : Expr.literal value Span.zero = .literal copy Span.zero := same
      cases equal
      exact ⟨place, rfl⟩
  | like operand pattern escape op negated place =>
      have equal := same.trans (Expr.relabel_like ..)
      cases equal
  | case operand whens otherwise place =>
      have equal := same.trans (Expr.relabel_case ..)
      cases equal
  | _ => cases same

/-- A constant with the values of tokens is parsed as what it is read back as, where a nesting level
may be opened. -/
theorem parseExpression_constant {value : Literal} (spelt : value.Spelt)
    (worded : value.Worded settings) (opens : 0 < settings.maxDepth)
    (fits : Text.byteCount (Piece.chars value.pieces) ≤ maxSourceLength) :
    ∃ span, parseExpression (Piece.textOf value.pieces) settings =
      .ok (.literal (value.reread settings) span) := by
  have lexed : Piece.Lexed settings false (value.pieces ++ []) :=
    .constant spelt worded rfl .nil
  rw [List.append_nil] at lexed
  have takes : (innerAt settings.maxDepth).expr.Takes settings.pipesAsConcat
      (value.signs settings) [] (.literal (value.reread settings) Span.zero) := by
    obtain ⟨levels, same⟩ := Nat.exists_eq_succ_of_ne_zero (Nat.ne_of_gt opens)
    have primary := @Takes.constant settings.pipesAsConcat [] (innerAt levels) _ _ _
      (Literal.readFrom_signs spelt worded) rfl (by simp)
    rw [List.append_nil] at primary
    rw [same, InnerRules.expr, operand_succ]
    exact (TakesIf.operandBody_stop primary (loosens_nil _ 0)).enter
  obtain ⟨found, parsed, alike⟩ := parseExpression_of_takes lexed fits takes
  obtain ⟨place, rfl⟩ := Literal.eq_of_alike alike
  exact ⟨place, parsed⟩

end SqlDml
