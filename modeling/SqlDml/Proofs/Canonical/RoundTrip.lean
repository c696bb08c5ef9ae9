import SqlDml.Proofs.Canonical.Changes
import SqlDml.Proofs.Canonical.Operands
import SqlDml.Proofs.Markers.Order
import SqlDml.Proofs.Markers.Renumbered

/-!
Contract: canonical text is parsed as the tree that it was written for.

Owns:
- the trees that canonical text does not keep, each by the node that tells it;
- every other statement and every other expression is parsed from its canonical text, and but for
  the spans the tree is the same;
- the parse of a source and that of its canonical text, side by side.

Does not own: how the rules read the signs of canonical text.
-/

namespace SqlDml

open Rule

variable {settings : Settings}

/-! ### Nodes that canonical text keeps -/

/-- The text in quotes of a constant. -/
def Literal.quoted? : Literal → Option String
  | .string value | .introduced _ (.string value) | .temporal _ value | .odbc _ value => some value
  | _ => none

/-- A constant without text in quotes, or with text that needs no escapes, is read as itself. -/
theorem Literal.reread_eq_self {value : Literal}
    (unescaped : ∀ text ∈ value.quoted?, Unescaped settings text) :
    value.reread settings = value := by
  have kept : ∀ {text}, value.quoted? = some text → settings.reread text = text :=
    fun found => reread_eq_iff.mpr (unescaped _ found)
  cases value with
  | string text => exact congrArg Literal.string (kept rfl)
  | introduced charset value =>
      cases value with
      | string text => exact congrArg (Literal.introduced charset ∘ Literal.string) (kept rfl)
      | _ => rfl
  | temporal kind text => exact congrArg (Literal.temporal kind) (kept rfl)
  | odbc kind text => exact congrArg (Literal.odbc kind) (kept rfl)
  | _ => rfl

/-- A label that is no string, or a string without a backslash where strings have escapes. -/
def Ident.Unbackslashed (settings : Settings) (ident : Ident) : Prop :=
  settings.noBackslashEscapes = false →
    (∃ quote, ident.quote = some quote ∧ settings.QuotesString quote) → '\\' ∉ ident.value.toList

theorem keepsBackslashes_of_not_mem {chars : List Char} (none_ : '\\' ∉ chars) :
    keepsBackslashes chars = true := by
  induction chars using keepsBackslashes.induct with
  | case1 => rfl
  | case2 chars _ => exact absurd List.mem_cons_self none_
  | case3 chars _ => exact absurd List.mem_cons_self none_
  | case4 char chars apart apartLine inductionHypothesis =>
      rw [List.mem_cons, not_or] at none_
      rw [keepsBackslashes, inductionHypothesis none_.2, Bool.and_true, bne_iff_ne]
      · exact Ne.symm none_.1
      · exact apart
      · exact apartLine

theorem Ident.Unbackslashed.regular {ident : Ident} (plain : ident.Unbackslashed settings) :
    ident.Regular settings :=
  fun escapes isString => keepsBackslashes_of_not_mem (plain escapes isString)

/-- A node that canonical text keeps: no call of an unquoted `ANY` or `SOME`, no query with a limit
of two parameter markers, no escape in braces of a kind that is no plain name, no text in quotes that
would need escapes where there are none, and no label in quotes that would have some. -/
def Node.Faithful (settings : Settings) : Node → Prop
  | .query tree => tree.limit.any LimitClause.marksBoth = false
  | .expr (.call name _ _ _) =>
      name.quote = none → Keyword.ofWord? name.value.toList ≠ some .ANY ∧
        Keyword.ofWord? name.value.toList ≠ some .SOME
  | .expr (.literal value _) =>
      value.Worded settings ∧ ∀ text ∈ value.quoted?, Unescaped settings text
  | .expr (.collate _ collation _) => collation.Unbackslashed settings
  | .item (.expr _ aliasName _) => ∀ ident ∈ aliasName, ident.Unbackslashed settings
  | _ => True

namespace Node

variable {node : Node}

theorem Faithful.ordinary (faithful : node.Faithful settings) : node.Ordinary settings := by
  cases node with
  | expr tree =>
      cases tree with
      | literal value span => exact ⟨faithful.1, Literal.reread_eq_self faithful.2⟩
      | collate operand collation span => exact Ident.Unbackslashed.regular faithful
      | _ => trivial
  | item item =>
      cases item with
      | expr value aliasName span => exact fun ident found => (faithful ident found).regular
      | _ => trivial
  | _ => trivial

theorem Faithful.marksOnce (faithful : node.Faithful settings) : node.MarksOnce := by
  cases node with
  | query tree => exact faithful
  | _ => trivial

end Node

/-- Only `ANY` and `SOME` are quantifiers that a call can be named for. -/
theorem Ident.not_namesQuantifier {name : Ident} (named : name.Named settings Keyword.isCallName)
    (other : name.quote = none → Keyword.ofWord? name.value.toList ≠ some .ANY ∧
      Keyword.ofWord? name.value.toList ≠ some .SOME) : name.namesQuantifier = false := by
  cases names : name.namesQuantifier with
  | false => rfl
  | true =>
      have quantifier : (quantifier? (name.kind settings)).isSome = true :=
        Ident.quantifier?_isSome names
      rcases named.kind_cases with
        ⟨quote, _, kind⟩ | ⟨unquoted, _, ⟨kind, _⟩ | ⟨keyword, kind, known, called⟩⟩
      · rw [kind] at quantifier
        cases quantifier
      · rw [kind] at quantifier
        cases quantifier
      · obtain ⟨notAny, notSome⟩ := other unquoted
        rw [kind] at quantifier
        unfold quantifier? at quantifier
        split at quantifier
        · next same =>
            cases same
            cases called
        · next same =>
            cases same
            exact absurd known notAny
        · next same =>
            cases same
            exact absurd known notSome
        · cases quantifier

/-- An operand of faithful nodes does not look like a quantifier. -/
theorem Expr.not_quantifies : ∀ {tree : Expr}, (Node.expr tree).AllLegible settings →
    (Node.expr tree).All (Node.Faithful settings) → tree.quantifies = true → False
  | .call name (.list (first :: _)) false span, all, faithful, quantifies => by
      have both : (name.namesQuantifier && first.opensParen) = true := quantifies
      have named : name.Named settings Keyword.isCallName := all.self.spelt.1
      rw [Ident.not_namesQuantifier named (Node.all_iff.mp faithful).1] at both
      cases both
  | .collate operand collation span, all, faithful, quantifies =>
      not_quantifies (all.child (by simp)) ((Node.all_iff.mp faithful).2 (.expr operand) (by simp))
        quantifies

theorem Node.all_unquantified_of_faithful {node : Node} (all : node.AllLegible settings)
    (faithful : node.All (Node.Faithful settings)) : node.All Node.Unquantified := by
  intro inner within
  have legible : inner.AllLegible settings := fun _ below => all _ (below.trans within)
  have each : inner.All (Node.Faithful settings) := fun _ below => faithful _ (below.trans within)
  cases inner with
  | expr tree =>
      cases tree with
      | binary left op right span =>
          have operand : right.quantifies = false := Bool.eq_false_iff.mpr
            (Expr.not_quantifies (legible.child (by simp)) ((Node.all_iff.mp each).2 _ (by simp)))
          change (op.isComparison && right.quantifies) = false
          rw [operand, Bool.and_false]
      | _ => rfl
  | _ => trivial

/-! ### Statements of a source -/

section

variable {tree : Statement}

/-- With whatever limit, the canonical text of a statement has its signs. -/
theorem Statement.signs_ofSource_render (all : (Node.statement tree).AllLegible settings)
    (filled : tree.Filled settings) (fits : tree.render.utf8ByteSize ≤ maxSourceLength)
    (limit : Nat) :
    (TokenRun.ofSource tree.render (settings.withLimit limit)).error = none ∧
      (Spot.ofSource tree.render (settings.withLimit limit)).signs = tree.signs settings := by
  rw [← Statement.signsOf_pieces]
  exact (Statement.written all filled).signs_ofSource fits limit

/-- A statement is parsed from its canonical text if the limit leaves the nesting levels that it takes;
else the parse meets the limit. -/
theorem Statement.parse_within (all : (Node.statement tree).AllLegible settings)
    (filled : tree.Filled settings) (plain : (Node.statement tree).All Node.Unquantified)
    (fits : tree.render.utf8ByteSize ≤ maxSourceLength) (limit : Nat) :
    (tree.levels ≤ limit → ∃ parsed,
      parseStatement tree.render (settings.withLimit limit) = .ok parsed ∧
        Alike .plain tree parsed.statement) ∧
    (¬ tree.levels ≤ limit → ∃ bound position,
      parseStatement tree.render (settings.withLimit limit) = .error (.tooDeep bound position)) := by
  obtain ⟨unfailed, signs⟩ := signs_ofSource_render all filled fits limit
  have whole := @Statement.takes_within settings limit tree all plain filled
  exact parseStatement_of_signs unfailed (signs ▸ whole)

end

/-! ### Canonical text of a source -/

/-- Canonical text has tokens unless it is longer than a source may be. -/
theorem Piece.Written.has_tokens_iff {pieces : List Piece} (written : Written settings pieces) :
    (∃ tokens, tokenize (textOf pieces) settings = .ok tokens) ↔
      (textOf pieces).utf8ByteSize ≤ maxSourceLength := by
  constructor
  · rintro ⟨tokens, read⟩
    exact (tokenize_eq_ok_iff.mp read).1
  · intro fits
    exact ⟨_, tokenize_of_ahead (written.signs_ofSource fits settings.maxDepth).1⟩

section

variable {source : String} {tokens : List Token} {stop : Token} {limit : Nat}

/-- A statement of a source that canonical text keeps is parsed from it again, with any limit above
the number of its tokens. -/
theorem Statement.parsed_again {parsed : ParsedStatement}
    (accepted : parseStatement source settings = .ok parsed)
    (faithful : (Node.statement parsed.statement).All (Node.Faithful settings))
    (read : tokenize parsed.statement.render settings = .ok (tokens ++ [stop]))
    (few : tokens.length < limit) :
    ∃ again, parseStatement parsed.statement.render (settings.withLimit limit) = .ok again ∧
      again.statement.eraseSpans = parsed.statement.eraseSpans := by
  have all := (Node.OfSource.statement accepted .refl).allLegible fun inner within =>
    (faithful inner within).ordinary
  have once : (Node.statement parsed.statement).All Node.MarksOnce :=
    fun inner within => (faithful inner within).marksOnce
  -- a limit above the number of tokens does as well as one that is large enough for every rule
  obtain ⟨again, reread, alike⟩ := (Statement.parse_within all (filled_of_parseStatement accepted)
    (Node.all_unquantified_of_faithful all faithful) (tokenize_eq_ok_iff.mp read).1 _).1
    (le_max_left _ limit)
  rw [← tokenize_withLimit _ settings limit] at read
  rw [parseStatement_of_few (by rwa [(ahead_of_tokenize read).1]) (le_max_right _ _)] at reread
  obtain ⟨_, own⟩ := numbered_of_parseStatement accepted
  obtain ⟨_, other⟩ := numbered_of_parseStatement reread
  exact ⟨again, reread, (Statement.eraseSpans_eq_of_alike alike own other once).symm⟩

/-- So is an expression. -/
theorem Expr.parsed_again {tree : Expr} (accepted : parseExpression source settings = .ok tree)
    (faithful : (Node.expr tree).All (Node.Faithful settings))
    (read : tokenize tree.render settings = .ok (tokens ++ [stop])) (few : tokens.length < limit) :
    ∃ again, parseExpression tree.render (settings.withLimit limit) = .ok again ∧
      again.eraseSpans = tree.eraseSpans := by
  have all := (Node.OfSource.expression accepted .refl).allLegible fun inner within =>
    (faithful inner within).ordinary
  have once : (Node.expr tree).All Node.MarksOnce :=
    fun inner within => (faithful inner within).marksOnce
  obtain ⟨again, reread, alike⟩ := (Expr.parse_within all
    (Node.all_unquantified_of_faithful all faithful) (tokenize_eq_ok_iff.mp read).1 _).1
    (le_max_left _ limit)
  rw [← tokenize_withLimit _ settings limit] at read
  rw [parseExpression_of_few (by rwa [(ahead_of_tokenize read).1]) (le_max_right _ _)] at reread
  obtain ⟨_, own⟩ := numbered_of_parseExpression accepted
  obtain ⟨_, other⟩ := numbered_of_parseExpression reread
  exact ⟨again, reread, (Expr.eraseSpans_eq_of_alike alike own other once).symm⟩

end

/-- What a source is parsed to, a statement or an expression, is parsed from its canonical text
again, but for the spans.  The text has tokens unless it is longer than a source may be, and any limit
above their number will do.  The exceptions are a call of an unquoted `ANY` or `SOME`, a limit of two
parameter markers, an escape in braces of a kind that is no plain name, a label in quotes with a
backslash where strings have escapes, and other text in quotes with a backslash or a zero character
where they have none. -/
theorem canonical_text_round_trip (source : String) (settings : Settings) :
    (∀ parsed, parseStatement source settings = .ok parsed →
      (Node.statement parsed.statement).All (Node.Faithful settings) →
      ((∃ tokens, tokenize parsed.statement.render settings = .ok tokens) ↔
        parsed.statement.render.utf8ByteSize ≤ maxSourceLength) ∧
      ∀ tokens stop limit,
        tokenize parsed.statement.render settings = .ok (tokens ++ [stop]) →
        tokens.length < limit → ∃ again,
          parseStatement parsed.statement.render (settings.withLimit limit) = .ok again ∧
            again.statement.eraseSpans = parsed.statement.eraseSpans) ∧
    (∀ tree, parseExpression source settings = .ok tree →
      (Node.expr tree).All (Node.Faithful settings) →
      ((∃ tokens, tokenize tree.render settings = .ok tokens) ↔
        tree.render.utf8ByteSize ≤ maxSourceLength) ∧
      ∀ tokens stop limit, tokenize tree.render settings = .ok (tokens ++ [stop]) →
        tokens.length < limit → ∃ again,
          parseExpression tree.render (settings.withLimit limit) = .ok again ∧
            again.eraseSpans = tree.eraseSpans) := by
  refine ⟨fun parsed accepted faithful => ⟨?_, fun _ _ _ => Statement.parsed_again accepted faithful⟩,
    fun tree accepted faithful => ⟨?_, fun _ _ _ => Expr.parsed_again accepted faithful⟩⟩
  · have all := (Node.OfSource.statement accepted .refl).allLegible fun inner within =>
      (faithful inner within).ordinary
    exact (Statement.written all (filled_of_parseStatement accepted)).has_tokens_iff
  · have all := (Node.OfSource.expression accepted .refl).allLegible fun inner within =>
      (faithful inner within).ordinary
    have written : Piece.Written settings tree.pieces := Node.isWritten all
    exact written.has_tokens_iff

/-! ### A statement that is read back -/

/-- Whether at a stop stands nothing that canonical text could change: no call, nothing in quotes, no
collation and no limit of two parameter markers. -/
def Visit.isKept : Visit → Bool
  | .query tree => !tree.limit.any LimitClause.marksBoth
  | .expr (.call _ _ _ _) | .expr (.collate _ _ _) => false
  | .expr (.literal value _) => value.quoted?.isNone
  | .selectItem (.expr _ aliasName _) => aliasName.all fun ident => ident.quote.isNone
  | _ => true

theorem Node.all_faithful {node : Node} (kept : ∀ visit ∈ node.visits, visit.isKept = true) :
    node.All (Node.Faithful settings) := by
  intro inner within
  have own : ∀ visit ∈ inner.stops, visit.unnamed = true → visit.isKept = true :=
    fun visit member other => kept visit ((mem_visits_iff other).mpr ⟨inner, within, member⟩)
  cases inner with
  | query tree =>
      have here := own (.query tree) List.mem_cons_self rfl
      exact (Bool.not_eq_true' _).mp here
  | expr tree =>
      have here := own (.expr tree) List.mem_cons_self rfl
      cases tree with
      | literal value span =>
          have unquoted : value.quoted? = none := Option.isNone_iff_eq_none.mp here
          refine ⟨?_, fun text found => ?_⟩
          · cases value with
            | odbc kind text => cases unquoted
            | _ => trivial
          · rw [unquoted] at found
            cases found
      | call | collate => cases here
      | _ => trivial
  | item item =>
      cases item with
      | expr value aliasName span =>
          have here := own (.selectItem (.expr value aliasName span)) List.mem_cons_self rfl
          rintro ident found - ⟨quote, quoted, -⟩
          rw [Option.mem_def] at found
          rw [found] at here
          have unquoted : ident.quote.isNone = true := here
          rw [quoted] at unquoted
          cases unquoted
      | _ => trivial
  | _ => trivial

/-- Spacing, further parentheses and a semicolon are lost, and what is read back is the same. -/
theorem sum_of_product_read_back :
    ∃ parsed, parseStatement "select  (a*b)+? as total from t where c<2 limit ?;" {} = .ok parsed ∧
      parsed.statement.render = "SELECT (a * b) + ? AS total FROM t WHERE c < 2 LIMIT ?" ∧
      ∃ again, parseStatement "SELECT (a * b) + ? AS total FROM t WHERE c < 2 LIMIT ?"
          (({} : Settings).withLimit 20) = .ok again ∧
        again.statement.eraseSpans = parsed.statement.eraseSpans := by
  obtain ⟨parsed, accepted, text, kept⟩ :=
    @exists_parsed "select  (a*b)+? as total from t where c<2 limit ?;" {}
      (fun parsed =>
        parsed.statement.render = "SELECT (a * b) + ? AS total FROM t WHERE c < 2 LIMIT ?" ∧
          ∀ visit ∈ parsed.statement.visits, visit.isKept = true) _ _ rfl (by decide +kernel)
  obtain ⟨tokens, read, count⟩ :=
    @exists_tokens "SELECT (a * b) + ? AS total FROM t WHERE c < 2 LIMIT ?" {}
      (fun tokens => tokens.length = 19) _ _ rfl (by decide +kernel)
  obtain ⟨-, again⟩ := (canonical_text_round_trip _ _).1 parsed accepted (Node.all_faithful kept)
  have some_ : tokens ≠ [] := by
    rintro rfl
    cases count
  rw [← List.dropLast_append_getLast some_, ← text] at read
  refine ⟨parsed, accepted, text, ?_⟩
  rw [← text]
  exact again _ _ 20 read (by rw [List.length_dropLast, count]; decide)

end SqlDml
