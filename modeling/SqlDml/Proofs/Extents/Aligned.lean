import SqlDml.Proofs.Extents.Statements
import SqlDml.Proofs.Naming.Qualifiers
import SqlDml.Proofs.Parsing.Entry

/-!
Contract: where the spans of a parsed tree lie.

Owns:
- the trees of a parsed statement or expression over the tokens of its source;
- every span runs from one token to one at or behind it, and holds the spans below it;
- the span of a statement.

Does not own: what the text of a span is read as on its own.
-/

namespace SqlDml

open Rule

/-- A span from the beginning of one of the tokens to the end of one at or behind it. -/
def Span.RunsOver (tokens : List Span) (span : Span) : Prop :=
  ∃ (front back : Nat) (first last : Span), front ≤ back ∧ tokens[front]? = some first ∧
    tokens[back]? = some last ∧ span = first.through last

/-- Every span of a tree, and of all trees below it, runs over some of the tokens and holds the spans
directly below it. -/
def Part.Aligned (tokens : List Span) (root : Part) : Prop :=
  ∀ part : Part, part.Within root → part.span.RunsOver tokens ∧
    ∀ child ∈ part.children, part.span.Contains child.span

/-- The tokens without a semicolon at their end. -/
def withoutSemicolon (tokens : List Token) : List Token :=
  if (tokens.getLast?.map Token.kind) = some (.punct .semicolon) then tokens.dropLast else tokens

theorem Covers.runsOver {front inside back : List Token} {span : Span}
    (covers : Covers inside span) :
    span.RunsOver ((front ++ (inside ++ back)).map Token.span) := by
  obtain ⟨first, last, opens, closes, rfl⟩ := covers
  have some_ : 0 < inside.length := List.length_pos_iff_ne_nil.mpr (List.ne_nil_of_mem
    (List.mem_of_head? opens))
  refine ⟨front.length, front.length + (inside.length - 1), first.span, last.span,
    Nat.le_add_right .., ?_, ?_, rfl⟩
  · rw [List.getElem?_map, List.getElem?_append_right (Nat.le_refl _), Nat.sub_self,
      List.getElem?_append_left some_, ← List.head?_eq_getElem?, opens]
    rfl
  · rw [List.getElem?_map, List.getElem?_append_right (Nat.le_add_right ..),
      Nat.add_sub_cancel_left, List.getElem?_append_left (by omega), ← List.getLast?_eq_getElem?,
      closes]
    rfl

theorem Span.RunsOver.append {tokens : List Span} {span : Span} (runs : span.RunsOver tokens)
    (more : List Span) : span.RunsOver (tokens ++ more) := by
  obtain ⟨front, back, first, last, ordered, opens, closes, same⟩ := runs
  refine ⟨front, back, first, last, ordered, ?_, ?_, same⟩
  · exact (List.getElem?_append_left (List.getElem?_eq_some_iff.mp opens).1).trans opens
  · exact (List.getElem?_append_left (List.getElem?_eq_some_iff.mp closes).1).trans closes

theorem Part.Aligned.append {tokens : List Span} {root : Part} (aligned : root.Aligned tokens)
    (more : List Span) : root.Aligned (tokens ++ more) :=
  fun part within => ⟨(aligned part within).1.append more, (aligned part within).2⟩

/-- Trees over tokens in order are aligned with them. -/
theorem Over.aligned {known : Expr → List Token → Prop} {tokens : List Token} {parts : List Part}
    (lies : Over known tokens parts) (order : InOrder tokens) {root : Part} (member : root ∈ parts) :
    root.Aligned (tokens.map Token.span) := by
  intro part within
  refine ⟨?_, fun child below => lies.contains order member within below⟩
  obtain ⟨front, inside, back, rfl, covers, _⟩ := lies.exists_tokens_within member within
  exact covers.runsOver

theorem exists_withoutSemicolon_append (tokens : List Token) :
    ∃ rest, tokens = withoutSemicolon tokens ++ rest := by
  unfold withoutSemicolon
  split
  · next ended =>
      obtain ⟨last, closes, _⟩ := Option.map_eq_some_iff.mp ended
      exact ⟨[last], (List.dropLast_append_getLast? last closes).symm⟩
  · exact ⟨[], (List.append_nil _).symm⟩

theorem withoutSemicolon_of_balanced {tokens : List Token} (balanced : Balanced tokens) :
    withoutSemicolon tokens = tokens := by
  refine if_neg fun ended => ?_
  obtain ⟨last, closes, kind⟩ := Option.map_eq_some_iff.mp ended
  exact kind_ne_of_depthAfter balanced (List.mem_of_getLast? closes) kind

theorem withoutSemicolon_concat {tokens : List Token} {last : Token}
    (kind : last.kind = .punct .semicolon) : withoutSemicolon (tokens ++ [last]) = tokens := by
  rw [withoutSemicolon, if_pos (by simp [kind]), List.dropLast_concat]

/-! ### Trees of a source -/

section Source

variable (source : String) (settings : Settings)

/-- The tokens of a source stand one behind the other. -/
theorem inOrder_ofSource : InOrder (Spot.ofSource source settings).ahead := by
  have laid := laid_ofSource source settings
  refine ⟨List.pairwise_map.mp laid.pairwise, fun token member => ?_⟩
  exact Nat.le_of_lt (laid.bounds (List.mem_map_of_mem member)).2.1

theorem reaches_ofSource :
    (Spot.ofSource source settings).Reaches (Spot.ofSource source settings) :=
  ⟨rfl, rfl, inOrder_ofSource source settings⟩

variable {source settings}

/-- Of a parsed source the tokens are read without failure. -/
theorem tokenize_of_ahead (unfailed : (TokenRun.ofSource source settings).error = none) :
    tokenize source settings = .ok ((Spot.ofSource source settings).ahead ++
      [(TokenStream.ofSource source settings).stop]) :=
  tokenize_eq_ok.mpr ⟨unfailed, ofSource_whole source settings⟩

/-- The trees of an expression lie over all tokens of its source. -/
theorem over_of_parseExpression {expr : Expr}
    (accepted : parseExpression source settings = .ok expr) :
    Over (Expr.ReadOver (Spot.ofSource source settings)) (Spot.ofSource source settings).ahead
      [.expr expr] := by
  obtain ⟨_, later, outcome, all⟩ := (parseExpression_eq_ok source settings).mp accepted
  have makes := expr_makes (@innerAt_makes (Spot.ofSource source settings) _ (Nat.le_refl _))
  have placed := ((makes _ (reaches_ofSource source settings)).on outcome).placed
  obtain ⟨tokens, through, _, _, lies, _⟩ := placed.covers (placed.ahead_ne (List.cons_ne_nil _ _))
  rw [through.split, all, List.append_nil]
  exact lies

/-- The trees of a statement lie over the tokens of its source without a semicolon at their end, and
its span covers these tokens. -/
theorem over_of_parseStatement {parsed : ParsedStatement}
    (accepted : parseStatement source settings = .ok parsed) :
    Over (Expr.ReadOver (Spot.ofSource source settings))
        (withoutSemicolon (Spot.ofSource source settings).ahead) [.statement parsed.statement] ∧
      Covers (withoutSemicolon (Spot.ofSource source settings).ahead) parsed.statement.span := by
  have reaches := reaches_ofSource source settings
  have makes := @innerAt_makes (Spot.ofSource source settings) _ (Nat.le_refl _)
  have reads : (statementTokens settings.maxDepth).Ensures (Spot.ofSource source settings)
      fun tree later => later.ahead = [] → Over (Expr.ReadOver (Spot.ofSource source settings))
        (withoutSemicolon (Spot.ofSource source settings).ahead) [.statement tree] ∧
          Covers (withoutSemicolon (Spot.ofSource source settings).ahead) tree.span := by
    unfold statementTokens
    refine (statement_makes makes reaches).bind fun tree middle facts => ?_
    obtain ⟨made, whole⟩ := facts
    have placed := made.placed
    obtain ⟨tokens, through, balanced, _, lies, covers⟩ :=
      placed.covers (placed.ahead_ne (List.cons_ne_nil _ _))
    rw [← whole] at covers
    refine .bind (.of_on fun found later outcome => outcome) fun found later outcome => ?_
    refine .pure fun all => ?_
    have same : withoutSemicolon (Spot.ofSource source settings).ahead = tokens := by
      rw [on_eatMark] at outcome
      split at outcome
      · next semicolon =>
          cases outcome
          have inner : middle.kind ≠ .endOfInput := by simp [semicolon]
          rw [through.split, Spot.ahead_of_inner inner, all]
          exact withoutSemicolon_concat semicolon
      · cases outcome
        rw [through.split, all, List.append_nil]
        exact withoutSemicolon_of_balanced balanced
    rw [same]
    exact ⟨lies, covers⟩
  obtain ⟨_, ⟨later, outcome, all⟩, _⟩ := (parseStatement_eq_ok source settings).mp accepted
  exact reads.on outcome all

end Source

/-- Every span of a parsed tree runs from the beginning of one token to the end of one at or behind
it, with the line and column of the first, and holds the spans directly below it.  The span of a
statement runs over all tokens but a semicolon at their end. -/
theorem spans_aligned (source : String) (settings : Settings) :
    (∀ parsed, parseStatement source settings = .ok parsed →
      ∃ tokens stop, tokenize source settings = .ok (tokens ++ [stop]) ∧
        parsed.tokens = tokens.map Token.span ∧
        Part.Aligned parsed.tokens (.statement parsed.statement) ∧
        Covers (withoutSemicolon tokens) parsed.statement.span) ∧
    (∀ expr, parseExpression source settings = .ok expr →
      ∃ tokens stop, tokenize source settings = .ok (tokens ++ [stop]) ∧
        Part.Aligned (tokens.map Token.span) (.expr expr)) := by
  constructor
  · intro parsed accepted
    obtain ⟨unfailed, _, spans⟩ := (parseStatement_eq_ok source settings).mp accepted
    obtain ⟨lies, covers⟩ := over_of_parseStatement accepted
    refine ⟨_, _, tokenize_of_ahead unfailed, spans, ?_, covers⟩
    have order := inOrder_ofSource source settings
    obtain ⟨rest, split⟩ := exists_withoutSemicolon_append (Spot.ofSource source settings).ahead
    rw [split] at order
    rw [spans, split, List.map_append]
    exact (lies.aligned order.of_front List.mem_cons_self).append _
  · intro expr accepted
    obtain ⟨unfailed, _⟩ := (parseExpression_eq_ok source settings).mp accepted
    have lies := over_of_parseExpression accepted
    exact ⟨_, _, tokenize_of_ahead unfailed,
      lies.aligned (inOrder_ofSource source settings) List.mem_cons_self⟩

/-- A semicolon at the end is a token of its own, and parentheses belong to no operand. -/
theorem spans_aligned_of_product :
    (∃ parsed tokens stop, parseStatement "DELETE FROM t WHERE (a + 1) * 2 > b;" {} = .ok parsed ∧
      tokenize "DELETE FROM t WHERE (a + 1) * 2 > b;" {} = .ok (tokens ++ [stop]) ∧
      parsed.statement.span = ⟨0, 35, 1, 1⟩ ∧
      Part.Aligned parsed.tokens (.statement parsed.statement) ∧
      Covers (withoutSemicolon tokens) parsed.statement.span) ∧
    ∃ expr tokens, parseExpression "(a + 1) * 2" {} = .ok expr ∧
      expr.span = ⟨1, 11, 1, 2⟩ ∧ Part.Aligned tokens (.expr expr) := by
  obtain ⟨parsed, accepted, place⟩ := @exists_parsed "DELETE FROM t WHERE (a + 1) * 2 > b;" {}
    (fun parsed => parsed.statement.span = ⟨0, 35, 1, 1⟩) _ _ rfl (by decide +kernel)
  obtain ⟨expr, read, begins⟩ := @exists_expr "(a + 1) * 2" {}
    (fun expr => expr.span = ⟨1, 11, 1, 2⟩) _ _ rfl (by decide +kernel)
  obtain ⟨tokens, stop, tokenized, _, aligned, covers⟩ := (spans_aligned _ _).1 parsed accepted
  obtain ⟨_, _, _, inner⟩ := (spans_aligned _ _).2 expr read
  exact ⟨⟨parsed, tokens, stop, accepted, tokenized, place, aligned, covers⟩,
    expr, _, read, begins, inner⟩

end SqlDml
