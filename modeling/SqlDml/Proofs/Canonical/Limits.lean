import SqlDml.Proofs.Canonical.RoundTrip
import SqlDml.Proofs.Lexing.Spaced

/-!
Contract: the nesting limits under which canonical text is parsed.

Owns:
- that a text which is longer than a source may be meets no nesting limit;
- that canonical text is parsed under the limits that leave the levels of its tree, and meets every
  lower one.

Does not own: which levels a tree takes, and to what its text is parsed.
-/

namespace SqlDml

open Rule

variable {settings : Settings} {text : String} {limit : Nat}

/-! ### Texts that are too long -/

/-- Of a text that is longer than a source may be, only that is reported. -/
theorem Rule.toEnd_of_long {α : Type} {rule : Rule α} [rule.Lawful]
    (long : maxSourceLength < text.utf8ByteSize) :
    ∃ error, (toEnd rule (.ofSource text settings)).1 = .error (.lexical error) := by
  have fails := tokenize_eq_error.mp (@tokenize_of_long text settings long)
  have failure : (ParserState.ofSource text settings).stream.failure =
      (TokenRun.ofSource text settings).error := TokenStream.ofSource_failure text settings
  have spec := toEnd_spec rule _ (ParserState.ready_ofSource text settings)
  generalize toEnd rule (ParserState.ofSource text settings) = result at spec ⊢
  cases spec with
  | ok outcome all unfailed =>
      rw [failure, fails] at unfailed
      cases unfailed
  | lexical failed => exact ⟨_, rfl⟩
  | inner rejected leads inner met unparked =>
      exact absurd (met.offset_lt leads unparked fails) (Nat.not_lt_zero _)

theorem parseStatement_of_long (long : maxSourceLength < text.utf8ByteSize) :
    ∃ error, parseStatement text settings = .error (.lexical error) := by
  obtain ⟨error, failed⟩ := @toEnd_of_long settings text _ (statementTokens settings.maxDepth) _ long
  exact ⟨error, by rw [parseStatement_eq, failed]⟩

theorem parseExpression_of_long (long : maxSourceLength < text.utf8ByteSize) :
    ∃ error, parseExpression text settings = .error (.lexical error) := by
  obtain ⟨error, failed⟩ := @toEnd_of_long settings text _ (innerAt settings.maxDepth).expr _ long
  exact ⟨error, by rw [parseExpression, parseExpression_run, failed]⟩

/-! ### Limits -/

/-- A text is parsed under the nesting limits that leave so many levels, and under every lower one the
parse reports the limit.  A text that is too long is not parsed under any. -/
def TakesLevels {α : Type} (parse : String → Settings → Except ParseError α) (text : String)
    (settings : Settings) (levels : Nat) : Prop :=
  ∀ limit,
    ((∃ found, parse text (settings.withLimit limit) = .ok found) ↔
      text.utf8ByteSize ≤ maxSourceLength ∧ levels ≤ limit) ∧
    ((∃ position, parse text (settings.withLimit limit) = .error (.tooDeep limit position)) ↔
      text.utf8ByteSize ≤ maxSourceLength ∧ limit < levels)

/-- It is enough to tell what the parse of a text comes to with enough levels, with fewer, and where
the text is too long. -/
theorem TakesLevels.of_cases {α : Type} {parse : String → Settings → Except ParseError α}
    {levels : Nat}
    (long : maxSourceLength < text.utf8ByteSize → ∀ limit,
      ∃ error, parse text (settings.withLimit limit) = .error (.lexical error))
    (parsed : text.utf8ByteSize ≤ maxSourceLength → ∀ limit, levels ≤ limit →
      ∃ found, parse text (settings.withLimit limit) = .ok found)
    (met : text.utf8ByteSize ≤ maxSourceLength → ∀ limit, limit < levels →
      ∃ position, parse text (settings.withLimit limit) = .error (.tooDeep limit position)) :
    TakesLevels parse text settings levels := by
  intro limit
  rcases Nat.lt_or_ge maxSourceLength text.utf8ByteSize with more | fits
  · obtain ⟨error, failed⟩ := long more limit
    simp [failed, Nat.not_le.mpr more]
  · rcases Nat.lt_or_ge limit levels with few | enough
    · obtain ⟨position, failed⟩ := met fits limit few
      simp [failed, fits, few]
    · obtain ⟨found, done⟩ := parsed fits limit enough
      simp [done, fits, enough]

/-- The canonical text of a source, a statement or an expression, is parsed under the nesting limits
that leave the levels of its tree, and meets every lower one: so it stays within the limit of the
source if and only if that is no less than the levels of the tree.  The trees are those that are parsed
from their text at all: none of their constants and labels is changed by it, and no comparison has an
operand that looks like a quantifier and a query. -/
theorem canonical_text_takes_levels (source : String) (settings : Settings) :
    (∀ parsed, parseStatement source settings = .ok parsed →
      (Node.statement parsed.statement).All (Node.Ordinary settings) →
      (Node.statement parsed.statement).All Node.Unquantified →
        TakesLevels parseStatement parsed.statement.render settings parsed.statement.levels) ∧
    ∀ tree, parseExpression source settings = .ok tree →
      (Node.expr tree).All (Node.Ordinary settings) →
      (Node.expr tree).All Node.Unquantified →
        TakesLevels parseExpression tree.render settings (tree.levels + 1) := by
  constructor
  · intro parsed accepted ordinary plain
    have all := (Node.OfSource.statement accepted .refl).allLegible ordinary
    have within := fun fits =>
      Statement.parse_within all (filled_of_parseStatement accepted) plain fits
    refine .of_cases (fun long limit => ?_) (fun fits limit enough => ?_) fun fits limit few => ?_
    · exact parseStatement_of_long long
    · obtain ⟨found, done, _⟩ := (within fits limit).1 enough
      exact ⟨found, done⟩
    · obtain ⟨bound, position, failed⟩ := (within fits limit).2 (Nat.not_le.mpr few)
      obtain ⟨rfl, _⟩ := (parseStatementBy_guarded _ _ (innerAt 0)).2 bound position failed
      exact ⟨position, failed⟩
  · intro tree accepted ordinary plain
    have all := (Node.OfSource.expression accepted .refl).allLegible ordinary
    have within := fun fits => Expr.parse_within all plain fits
    refine .of_cases (fun long limit => ?_) (fun fits limit enough => ?_) fun fits limit few => ?_
    · exact parseExpression_of_long long
    · obtain ⟨found, done, _⟩ := (within fits limit).1 enough
      exact ⟨found, done⟩
    · obtain ⟨bound, position, failed⟩ := (within fits limit).2 (Nat.not_le.mpr few)
      obtain ⟨rfl, _⟩ := (parseExpression_guarded _ _ (innerAt 0)).2 bound position failed
      exact ⟨position, failed⟩

/-- A sum of three terms takes two levels, and three behind `SELECT`.  Its canonical text has
parentheses around the first two terms, and takes one level more. -/
theorem sum_takes_further_level :
    (∃ parsed, parseStatement "SELECT a + b + c" (({} : Settings).withLimit 3) = .ok parsed ∧
      (∃ position, parseStatement "SELECT (a + b) + c" (({} : Settings).withLimit 3) =
        .error (.tooDeep 3 position)) ∧
      ∃ again, parseStatement "SELECT (a + b) + c" (({} : Settings).withLimit 4) = .ok again) ∧
    ∃ tree, parseExpression "a + b + c" (({} : Settings).withLimit 2) = .ok tree ∧
      (∃ position, parseExpression "(a + b) + c" (({} : Settings).withLimit 2) =
        .error (.tooDeep 2 position)) ∧
      ∃ again, parseExpression "(a + b) + c" (({} : Settings).withLimit 3) = .ok again := by
  constructor
  · obtain ⟨parsed, accepted, text, levels, plain, straight⟩ :=
      @exists_parsed "SELECT a + b + c" (({} : Settings).withLimit 3)
        (fun parsed =>
          parsed.statement.render = "SELECT (a + b) + c" ∧ parsed.statement.levels = 4 ∧
            (∀ visit ∈ parsed.statement.visits, visit.isPlain = true) ∧
              ∀ visit ∈ parsed.statement.visits, visit.misleads = false) _ _ rfl (by decide +kernel)
    have takes := (canonical_text_takes_levels _ _).1 parsed accepted (Node.all_ordinary plain)
      (Node.all_unquantified straight)
    rw [text, levels] at takes
    exact ⟨parsed, accepted, (takes 3).2.mpr (by decide), (takes 4).1.mpr (by decide)⟩
  · obtain ⟨tree, accepted, text, levels, plain, straight⟩ :=
      @exists_expr "a + b + c" (({} : Settings).withLimit 2)
        (fun tree => tree.render = "(a + b) + c" ∧ tree.levels = 2 ∧
          (∀ visit ∈ tree.visits, visit.isPlain = true) ∧
            ∀ visit ∈ tree.visits, visit.misleads = false) _ _ rfl (by decide +kernel)
    have takes := (canonical_text_takes_levels _ _).2 tree accepted (Node.all_ordinary plain)
      (Node.all_unquantified straight)
    rw [text, levels] at takes
    exact ⟨tree, accepted, (takes 2).2.mpr (by decide), (takes 3).1.mpr (by decide)⟩

/-- Under the limit of the source the text of the sum fails behind its opening parenthesis. -/
theorem sum_needs_further_level :
    ∃ parsed, parseStatement "SELECT a + b + c" (({} : Settings).withLimit 3) = .ok parsed ∧
      parsed.statement.render = "SELECT (a + b) + c" ∧
      parseStatement parsed.statement.render (({} : Settings).withLimit 3) =
        .error (.tooDeep 3 ⟨12, 1, 13⟩) := by
  have computed : ∃ parsed,
      parseStatement "SELECT a + b + c" (({} : Settings).withLimit 3) = .ok parsed ∧
        parsed.statement.render = "SELECT (a + b) + c" := exists_parsed rfl (by decide +kernel)
  obtain ⟨parsed, read, text⟩ := computed
  refine ⟨parsed, read, text, ?_⟩
  rw [text]
  exact eq_error_of_computed (by decide +kernel)

end SqlDml
