import SqlDml.Proofs.Extents.Alone
import SqlDml.Proofs.Parens.Queries

/-!
Contract: one more pair of parentheses around an expression.

Owns:
- where an operand goes on, and where no clause of a query begins;
- a query is tried in the parentheses around an expression, and is not read;
- the expression in parentheses is read as it is without them, one nesting level deeper.

Does not own: parentheses around queries.
-/

namespace SqlDml

open Rule Comparison

/-- Whether something continues an operand. -/
def Spot.Continues (spot : Spot) : Prop :=
  spot.kind = .keyword .COLLATE ∨ spot.continuation? ≠ none

/-- The clauses that stand behind the select blocks of a query begin with other words, and no
operand goes on at a closing parenthesis. -/
theorem Spot.Continues.kind_ne {spot : Spot} (continues : spot.Continues) {kind : TokenKind}
    (other : kind ∈ [.endOfInput, .punct .rightParen, .keyword .UNION, .keyword .ORDER,
      .keyword .LIMIT, .keyword .LOCK, .keyword .FOR]) : spot.kind ≠ kind := by
  intro same
  simp only [List.mem_cons, List.not_mem_nil, or_false] at other
  rcases continues with collates | goes
  · rw [same] at collates
    rcases other with rfl | rfl | rfl | rfl | rfl | rfl | rfl <;> cases collates
  · refine goes ?_
    rw [continuation?, same]
    rcases other with rfl | rfl | rfl | rfl | rfl | rfl | rfl <;> rfl

/-- A token that may begin a query. -/
theorem TokenKind.eq_of_startsQuery {kind : TokenKind} (starts : kind.startsQuery = true) :
    kind = .punct .leftParen ∨ kind = .keyword .SELECT ∨ kind = .keyword .WITH := by
  unfold startsQuery at starts
  split at starts <;> simp_all

namespace Rule

variable {α : Type} {spot : Spot}

/-! ### Choices by what is ahead -/

theorem on_peekAhead_bind {next : TokenKind → Rule α} {chosen : Rule α} [chosen.Lawful]
    (index : Nat) (same : next (spot.token index).kind = chosen) :
    (peekAhead index >>= next).on spot = chosen.on spot := by
  have rest : (next (spot.token index).kind).AgreesAt spot :=
    same ▸ agreesAt_of_lawful chosen spot
  have looked := agreesAt_of_lawful (peekAhead index) spot
  rw [(looked.bind_done next (on_peekAhead spot index) rest).1, same]

section

variable {inner : InnerRules} [inner.Lawful]

/-- Where something is read behind an operand, something continues it. -/
theorem continues_of_extendOperand {power : Nat} {left expr : Expr} {later : Spot}
    (read : (extendOperand inner power left).on spot = .done (some expr) later) :
    spot.Continues := by
  rw [on_extendOperand] at read
  split at read
  · exact .inl ‹_›
  · split at read
    · next continuation found => exact .inr (by simp [found])
    · cases read

theorem on_primaryExpr_of_paren (opens : spot.kind = .punct .leftParen) :
    (primaryExpr inner).on spot = (parenExpr inner).on spot := by
  unfold primaryExpr
  exact on_peekAhead_bind 0 (by rw [show (spot.token 0).kind = _ from opens])

/-- A query term that begins with a parenthesis is a query in parentheses. -/
theorem on_queryTerm_of_paren (opens : spot.kind = .punct .leftParen) :
    (queryTerm inner).on spot =
      ((queryInParens inner).on spot).bind fun found later => .done (.nested found.1) later := by
  have chosen : (queryTerm inner).on spot = Rule.on (do
      let _ ← advance
      let query ← inner.query
      let _ ← expectMark .rightParen
      return QueryTerm.nested query) spot := by
    unfold queryTerm
    exact on_peekAhead_bind 0 (by rw [show (spot.token 0).kind = _ from opens])
  rw [chosen, queryInParens]
  simp only [on_bind, on_advance, on_expectMark, opens, if_true, Outcome.bind_done, on_pure]
  cases inner.query.on spot.next with
  | done query later =>
      by_cases closes : later.kind = .punct .rightParen <;> simp [closes]
  | stuck => rfl
  | deep => rfl

omit [inner.Lawful] in
theorem on_queryTerm_of_ne (notOpening : spot.kind ≠ .punct .leftParen)
    (notSelect : spot.kind ≠ .keyword .SELECT) : (queryTerm inner).on spot = .stuck := by
  have chosen : (queryTerm inner).on spot =
      (Rule.fail ["SELECT", "'('"] : Rule QueryTerm).on spot := by
    unfold queryTerm
    refine on_peekAhead_bind 0 ?_
    split
    · next opens => exact absurd opens notOpening
    · next selects => exact absurd selects notSelect
    · rfl
  rw [chosen, on_fail]

theorem on_withClause_of_ne (other : spot.kind ≠ .keyword .WITH) :
    (withClause inner).on spot = .done none spot := by
  simp [withClause, on_bind, on_ite, other]

theorem on_wholeQuery_of_stuck (noWith : spot.kind ≠ .keyword .WITH)
    (stuck : (queryTerm inner).on spot = .stuck) : (wholeQuery inner).on spot = .stuck := by
  simp [wholeQuery, queryBody_eq, on_bind, on_withClause_of_ne noWith, stuck]

/-- Where something continues an operand, a query ends. -/
theorem on_wholeQuery_of_continues {first : QueryTerm} {later : Spot}
    (noWith : spot.kind ≠ .keyword .WITH) (read : (queryTerm inner).on spot = .done first later)
    (continues : later.Continues) : ∃ query, (wholeQuery inner).on spot = .done query later := by
  have noUnion : later.kind ≠ .keyword .UNION := continues.kind_ne (by simp)
  have noOrder : later.kind ≠ .keyword .ORDER := continues.kind_ne (by simp)
  have noLimit : later.kind ≠ .keyword .LIMIT := continues.kind_ne (by simp)
  have compounds : (whileSome (nextCompound inner) []).on later = .done [] later := by
    rw [on_whileSome]
    simp [nextCompound, on_bind, on_ite, noUnion]
  have ordered : (orderByClause inner).on later = .done [] later := by
    simp [orderByClause, on_bind, on_ite, noOrder]
  have limited : (limitClause true).on later = .done none later := by
    simp [limitClause, on_bind, on_ite, noLimit]
  have locked : lockingClause.on later = .done none later :=
    Steady.on_lockingClause_of_ne (continues.kind_ne (by simp)) (continues.kind_ne (by simp))
  simp [wholeQuery, queryBody_eq, on_bind, on_withClause_of_ne noWith, read, compounds, ordered,
    limited, locked]

theorem on_parenExpr_of_not_query (other : (spot.token 1).kind.startsQuery = false) :
    (parenExpr inner).on spot = (exprInParens inner).on spot := by
  unfold parenExpr
  refine on_peekAhead_bind 1 ?_
  split
  case h_4 => rfl
  all_goals
    next starts => rw [starts] at other; cases other

theorem on_parenExpr_of_word
    (word : (spot.token 1).kind = .keyword .SELECT ∨ (spot.token 1).kind = .keyword .WITH) :
    (parenExpr inner).on spot = (subquery inner).on spot := by
  unfold parenExpr
  rcases word with word | word <;> exact on_peekAhead_bind 1 (by rw [word])

/-- Behind two parentheses the query is tried first. -/
theorem on_parenExpr_of_nested (nested : (spot.token 1).kind = .punct .leftParen) :
    (parenExpr inner).on spot =
      (tried ((subquery inner).on spot) spot).bind fun found later =>
        found.elim ((exprInParens inner).on later) fun expr => .done expr later := by
  have lawful : ∀ found : Option Expr,
      Rule.Lawful (found.elim (exprInParens inner) Pure.pure) := by
    intro found
    cases found with
    | none => exact inferInstanceAs (exprInParens inner).Lawful
    | some expr => exact inferInstanceAs (Pure.pure expr : Rule Expr).Lawful
  have chosen : (parenExpr inner).on spot =
      (attempt (subquery inner) >>= fun found => found.elim (exprInParens inner) Pure.pure).on
        spot := by
    unfold parenExpr
    refine on_peekAhead_bind 1 ?_
    rw [nested]
    exact congrArg (attempt (subquery inner) >>= ·) (funext fun found => by cases found <;> rfl)
  rw [chosen, on_bind_of _ _ _ lawful, on_attempt]
  congr 1
  funext found later
  cases found with
  | none => rfl
  | some expr => exact on_pure expr later

/-- A subquery that is read is a query in parentheses. -/
theorem queryInParens_of_subquery {expr : Expr} {later : Spot}
    (read : (subquery inner).on spot = .done expr later) :
    ∃ found : Query × Span, (queryInParens inner).on spot = .done found later ∧
      expr = .subquery found.1 found.2 := by
  rw [subquery, on_bind] at read
  obtain ⟨found, middle, query, made⟩ := Outcome.bind_eq_done.mp read
  rw [on_pure] at made
  cases made
  exact ⟨found, query, rfl⟩

theorem queryInParens_stuck (stuck : (subquery inner).on spot = .stuck) :
    (queryInParens inner).on spot = .stuck := by
  rw [subquery, on_bind] at stuck
  cases query : (queryInParens inner).on spot with
  | done found later => rw [query] at stuck; cases stuck
  | stuck => rfl
  | deep => rw [query] at stuck; cases stuck

end

/-- Behind a parenthesis no query begins with a token that starts none. -/
theorem queryInParens_stuck_of_not_query (levels : Nat) (opens : spot.kind = .punct .leftParen)
    (other : (spot.token 1).kind.startsQuery = false) :
    (queryInParens (innerAt (levels + 1))).on spot = .stuck := by
  have next : spot.next.kind.startsQuery = false := by rw [Spot.kind, Spot.next_token, other]
  have ne : ∀ kind : TokenKind, kind.startsQuery = true → spot.next.kind ≠ kind := by
    rintro kind starts same
    rw [same, starts] at next
    cases next
  have nothing : (innerAt (levels + 1)).query.on spot.next = .stuck := by
    rw [query_succ, on_enter]
    exact on_wholeQuery_of_stuck (ne _ rfl) (on_queryTerm_of_ne (ne _ rfl) (ne _ rfl))
  rw [queryInParens, on_bind, on_expectMark, if_pos opens, Outcome.bind_done, on_bind, nothing]
  rfl

/-- Where an expression that is no subquery begins with a parenthesis, no query in parentheses is
read, or the expression goes on behind one. -/
theorem queryInParens_of_operand {levels : Nat} {tree : Expr} {later : Spot}
    (read : (operandBody (innerAt levels) 0).on spot = .done tree later)
    (other : ∀ query span, tree ≠ .subquery query span) (opens : spot.kind = .punct .leftParen) :
    (queryInParens (innerAt levels)).on spot = .stuck ∨ ∃ found middle,
      (queryInParens (innerAt levels)).on spot = .done found middle ∧ middle.Continues := by
  rw [operandBody, on_bind] at read
  obtain ⟨first, middle, primary, extended⟩ := Outcome.bind_eq_done.mp read
  rw [on_primaryExpr_of_paren opens] at primary
  have goes : (subquery (innerAt levels)).on spot = .done first middle → ∃ found middle,
      (queryInParens (innerAt levels)).on spot = .done found middle ∧ middle.Continues := by
    intro query
    obtain ⟨found, queried, rfl⟩ := queryInParens_of_subquery query
    refine ⟨found, middle, queried, ?_⟩
    rw [on_whileSome] at extended
    obtain ⟨more, behind, step, rest⟩ := Outcome.bind_eq_done.mp extended
    cases more with
    | none =>
        cases rest
        exact absurd rfl (other _ _)
    | some expr => exact continues_of_extendOperand step
  cases starts : (spot.token 1).kind.startsQuery with
  | false =>
      left
      rw [on_parenExpr_of_not_query starts] at primary
      cases levels with
      | zero =>
          rw [exprInParens, on_bind, on_expectMark, if_pos opens, Outcome.bind_done, on_bind,
            InnerRules.expr, operand_zero, on_tooDeep] at primary
          cases primary
      | succ levels => exact queryInParens_stuck_of_not_query levels opens starts
  | true =>
      rcases TokenKind.eq_of_startsQuery starts with nested | word
      · rw [on_parenExpr_of_nested nested] at primary
        cases query : (subquery (innerAt levels)).on spot with
        | done expr behind =>
            rw [query] at primary
            cases primary
            exact .inr (goes query)
        | stuck => exact .inl (queryInParens_stuck query)
        | deep =>
            rw [query] at primary
            cases primary
      · rw [on_parenExpr_of_word word] at primary
        exact .inr (goes primary)

/-- So it goes on in front of one more closing parenthesis. -/
theorem continues_of_capped {depth : Nat} {place : Spot} (capped : spot.Capped depth place)
    (continues : spot.Continues) : place.Continues := by
  have inner : spot.kind ≠ .endOfInput := continues.kind_ne (by simp)
  unfold Spot.Continues
  rw [capped.kind_eq inner, Caps.continuation?_eq_of_capped capped]
  exact continues

/-- In the parentheses around such an expression no query is read. -/
theorem subquery_stuck {levels : Nat} {place later : Spot} {tree : Expr}
    (read : (operandBody (innerAt levels) 0).on spot = .done tree later)
    (other : ∀ query span, tree ≠ .subquery query span) (nested : spot.kind = .punct .leftParen)
    (opens : place.kind = .punct .leftParen) (capped : spot.Capped 0 place.next) :
    (subquery (innerAt (levels + 1))).on place = .stuck := by
  have nested' : place.next.kind = .punct .leftParen :=
    (capped.kind_eq (by simp [nested])).trans nested
  have noWith : place.next.kind ≠ .keyword .WITH := by simp [nested']
  have term := @on_queryTerm_of_paren place.next (innerAt levels) _ nested'
  have tried : (queryInParens (innerAt levels)).CappedAt 0 spot place.next := Caps.at_ capped
  have outcomes := tried.outcomes
  have reads : (subquery (innerAt (levels + 1))).on place =
      ((wholeQuery (innerAt levels)).on place.next).bind fun query later =>
        if later.kind = .punct .rightParen then
          .done (.subquery query ((place.token 0).span.merge (later.token 0).span)) later.next
        else .stuck := by
    simp only [subquery, queryInParens, query_succ, on_bind, on_enter, on_expectMark, opens,
      if_true, Outcome.bind_done, on_pure, Outcome.bind_assoc]
    congr 1
    funext query later
    split <;> rfl
  rw [reads]
  rcases queryInParens_of_operand read other nested with stuck | ⟨found, middle, query, continues⟩
  · rw [stuck] at outcomes
    generalize (queryInParens (innerAt levels)).on place.next = outcome at outcomes term
    cases outcomes
    rw [on_wholeQuery_of_stuck noWith term]
    rfl
  · rw [query] at outcomes
    generalize (queryInParens (innerAt levels)).on place.next = outcome at outcomes term
    cases outcomes with
    | done behind =>
        have continues := continues_of_capped behind continues
        obtain ⟨whole, done⟩ := on_wholeQuery_of_continues noWith term continues
        rw [done, Outcome.bind_done, if_neg (continues.kind_ne (by simp))]

/-- The expression is read in the parentheses. -/
theorem exprInParens_of_capped {inner : InnerRules} [inner.Lawful] [inner.Caps] {place later : Spot}
    {tree : Expr} (read : inner.expr.on spot = .done tree later) (all : later.ahead = [])
    (opens : place.kind = .punct .leftParen) (capped : spot.Capped 0 place.next) :
    ∃ after, (exprInParens inner).on place = .done tree after ∧ after.ahead = [] := by
  have again : inner.expr.CappedAt 0 spot place.next := Caps.at_ capped
  have outcomes := again.outcomes
  rw [read] at outcomes
  generalize copied : inner.expr.on place.next = outcome at outcomes
  cases outcomes with
  | @done _ _ after behind =>
      obtain ⟨close, closes, ahead⟩ := behind.ahead
      rw [all, List.nil_append] at ahead
      have kind : after.kind = .punct .rightParen := by rw [Spot.kind_eq_of_ahead ahead, closes]
      refine ⟨after.next, ?_, by rw [Spot.next_ahead, ahead]; rfl⟩
      simp [exprInParens, on_bind, on_ite, opens, copied, kind]

/-- No expression begins with the first word of a query. -/
theorem primaryExpr_stuck_of_word {inner : InnerRules} [inner.Lawful]
    (word : spot.kind = .keyword .SELECT ∨ spot.kind = .keyword .WITH) :
    (primaryExpr inner).on spot = .stuck := by
  have chosen : (primaryExpr inner).on spot = (Rule.fail ["expression"] : Rule Expr).on spot := by
    unfold primaryExpr
    rcases word with word | word <;>
      exact on_peekAhead_bind 0 (by rw [show (spot.token 0).kind = _ from word]; rfl)
  rw [chosen, on_fail]

/-- An expression that is no subquery is read in parentheses as it is read without them, where the
nesting limit is one larger. -/
theorem operand_in_parens {levels : Nat} {place later : Spot} {tree : Expr}
    (read : (innerAt levels).expr.on spot = .done tree later) (all : later.ahead = [])
    (other : ∀ query span, tree ≠ .subquery query span) (opens : place.kind = .punct .leftParen)
    (capped : spot.Capped 0 place.next) :
    ∃ after, (innerAt (levels + 1)).expr.on place = .done tree after ∧ after.ahead = [] := by
  obtain ⟨after, inside, ended⟩ := exprInParens_of_capped read all opens capped
  have second : (place.token 1).kind = place.next.kind := by rw [Spot.kind, Spot.next_token]
  refine ⟨after, ?_, ended⟩
  cases levels with
  | zero =>
      rw [InnerRules.expr, operand_zero, on_tooDeep] at read
      cases read
  | succ levels =>
      rw [InnerRules.expr, operand_succ, on_enter] at read
      have primary : (parenExpr (innerAt (levels + 1))).on place = .done tree after := by
        cases starts : (place.token 1).kind.startsQuery with
        | false => rw [on_parenExpr_of_not_query starts, inside]
        | true =>
            have first : spot.kind = (place.token 1).kind := by
              rcases capped.kind_or 0 with same | ⟨_, closes⟩
              · rw [second, Spot.kind, Spot.kind, same]
              · rw [second, Spot.kind, closes] at starts
                cases starts
            rcases TokenKind.eq_of_startsQuery starts with nested | word
            · have stuck := subquery_stuck read other (first.trans nested) opens capped
              rw [on_parenExpr_of_nested nested, stuck]
              exact inside
            · rw [operandBody, on_bind, primaryExpr_stuck_of_word (first ▸ word)] at read
              cases read
      have stops : (extendOperand (innerAt (levels + 1)) 0 tree).on after = .done none after :=
        Steady.on_extendOperand_at_end (Spot.kind_of_ahead_nil ended ▸ .input)
      rw [InnerRules.expr, operand_succ, on_enter, operandBody, on_bind,
        on_primaryExpr_of_paren opens, primary, Outcome.bind_done, on_whileSome, stops]
      rfl

end Rule

/-! ### Sources -/

/-- Copies with the same numbers of markers differ in their spans only. -/
theorem Expr.eraseSpans_eq_of_copied {tree copy : Expr} (alike : Alike (.renumbered 0) tree copy) :
    copy.eraseSpans = tree.eraseSpans := by
  have counting : Relabelling.countingFrom 0 = {} := by
    unfold Relabelling.countingFrom
    congr 1
    exact funext Nat.zero_add
  have same : Relabelling.erasing.after (.countingFrom 0) = .erasing := by
    rw [counting]
    rfl
  have alike : relabel .erasing tree = relabel (Relabelling.erasing.after (.countingFrom 0)) copy :=
    alike.same
  rw [copy.eraseSpans_eq, tree.eraseSpans_eq, alike, same]

/-- Without its spans a subquery is a subquery. -/
theorem Expr.not_subquery_of_eraseSpans {tree copy : Expr}
    (same : copy.eraseSpans = tree.eraseSpans)
    (other : ∀ query span, tree ≠ .subquery query span) (query : Query) (span : Span) :
    copy ≠ .subquery query span := by
  rintro rfl
  rw [Expr.eraseSpans_eq, Expr.eraseSpans_eq] at same
  cases tree with
  | subquery query span => exact other query span rfl
  | like operand pattern escape op negated place =>
      rw [Expr.relabel_like] at same
      cases same
  | case operand whens otherwise place =>
      rw [Expr.relabel_case] at same
      cases same
  | _ => cases same

/-- Tokens with the same texts have the same parentheses. -/
theorem Balanced.of_sameTexts {source text : List Char} {tokens tokens' : List Token}
    (balanced : Balanced tokens) (each : List.Forall₂ (SameText source text) tokens tokens') :
    Balanced tokens' := by
  refine (balanced_iff_of_kinds ?_).mp balanced
  rw [← List.forall₂_eq_eq_eq]
  exact List.forall₂_map_left_iff.mpr
    (List.forall₂_map_right_iff.mpr (each.imp fun _ _ same => same.1.symm))

/-- An expression that is read from all tokens of a spot is read from the same texts elsewhere. -/
theorem Rule.expr_read_elsewhere {levels : Nat} {spot place later : Spot} {tree : Expr}
    (same : SameTexts spot.source place.source (spot.ahead ++ [spot.stop])
      (place.ahead ++ [place.stop]))
    (settings : place.settings = spot.settings) (numbered : place.markers = spot.markers)
    (read : (innerAt levels).expr.on spot = .done tree later) (all : later.ahead = []) :
    ∃ copy reached, (innerAt levels).expr.on place = .done copy reached ∧ reached.ahead = [] ∧
      copy.eraseSpans = tree.eraseSpans := by
  have paired := innerAt_paired (.ofSameTexts same 0) levels
  have near := near_states same settings (by rw [numbered, Nat.zero_add])
  obtain ⟨copy, reached, copied, alike, length, _⟩ :=
    (on_of_paired (paired.operand 0) near).1 _ _ read
  rw [all] at length
  exact ⟨copy, reached, copied, List.eq_nil_of_length_eq_zero length,
    Expr.eraseSpans_eq_of_copied alike⟩

/-- Redundant parentheses never change an expression.  Where a source is read as an expression that
is no subquery, the tokens of the source in one more pair of parentheses are read as the same
expression but for the spans, with a nesting limit that is one larger. -/
theorem parseExpression_in_parens (source text : String) (settings : Settings) {tree : Expr}
    (accepted : parseExpression source settings = .ok tree)
    (other : ∀ query span, tree ≠ .subquery query span)
    {tokens tokens' : List Token} {stop opening closing stop' : Token}
    (read : tokenize source settings = .ok (tokens ++ [stop]))
    (again : tokenize text settings = .ok (opening :: tokens' ++ [closing, stop']))
    (opens : opening.kind = .punct .leftParen) (closes : closing.kind = .punct .rightParen)
    (each : List.Forall₂ (SameText source.toList text.toList) tokens tokens') :
    ∃ copy, parseExpression text (settings.withLimit (settings.maxDepth + 1)) = .ok copy ∧
      copy.eraseSpans = tree.eraseSpans := by
  obtain ⟨_, later, done, all⟩ := (parseExpression_eq_ok source settings).mp accepted
  obtain ⟨ahead, stops⟩ := ahead_of_tokenize read
  have whole : tokenize text (settings.withLimit (settings.maxDepth + 1)) =
      .ok ((opening :: tokens' ++ [closing]) ++ [stop']) := by
    rw [tokenize_withLimit, again]
    simp
  let place := Spot.ofSource text (settings.withLimit (settings.maxDepth + 1))
  obtain ⟨ahead', stops'⟩ := ahead_of_tokenize whole
  have inside : ∀ token ∈ tokens', token.kind ≠ .endOfInput := fun token member =>
    place.inner token (by rw [ahead']; simp [member])
  -- the same tokens in the other source, without the parentheses
  let middle : Spot := ⟨settings, text.toList, stop', opening.span, tokens', 0, inside, stops'⟩
  have same : SameTexts (Spot.ofSource source settings).source middle.source
      ((Spot.ofSource source settings).ahead ++ [(Spot.ofSource source settings).stop])
      (middle.ahead ++ [middle.stop]) := by
    rw [ahead, stop_of_tokenize read]
    refine sameTexts_concat each stops stops' (writtenIn_of_tokenize read)
      ((writtenIn_of_tokenize again).sublist ?_)
    have part : (tokens' ++ [stop']).Sublist (tokens' ++ [closing, stop']) :=
      ((List.sublist_cons_self closing [stop']).append_left tokens')
    exact part.cons opening
  obtain ⟨copy, reached, copied, ended, erased⟩ := Rule.expr_read_elsewhere same rfl rfl done all
  have balanced : Balanced tokens := ahead ▸ balanced_of_parseExpression accepted
  have first : place.kind = .punct .leftParen := (Spot.kind_eq_of_ahead ahead').trans opens
  have capped : middle.Capped 0 place.next :=
    .between rfl rfl rfl rfl ahead' closes (balanced.of_sameTexts each)
  obtain ⟨after, inParens, nothing⟩ := operand_in_parens copied ended
    (Expr.not_subquery_of_eraseSpans erased other) first capped
  have unfailed := (tokenize_eq_ok.mp whole).1
  exact ⟨copy, (parseExpression_eq_ok _ _).mpr ⟨unfailed, after, inParens, nothing⟩, erased⟩

/-- A sum that begins with a subquery, with as many nesting levels as it takes.  In parentheses a
query is tried in front of the sum. -/
theorem parseExpression_in_parens_of_sum :
    let settings : Settings := { maxDepth := 3 }
    ∃ tree copy, parseExpression "(SELECT ?) + 1" settings = .ok tree ∧ tree.left?.isSome ∧
      parseExpression "((SELECT ?) + 1)" (settings.withLimit 4) = .ok copy ∧
        copy.eraseSpans = tree.eraseSpans := by
  intro settings
  obtain ⟨tree, accepted, sum⟩ := @exists_expr "(SELECT ?) + 1" settings
    (fun tree => tree.left?.isSome) _ _ rfl (by decide +kernel)
  have other : ∀ query span, tree ≠ .subquery query span := by
    rintro query span rfl
    cases sum
  let tokens : List Token := [⟨.punct .leftParen, ⟨0, 1, 1, 1⟩⟩, ⟨.keyword .SELECT, ⟨1, 7, 1, 2⟩⟩,
    ⟨.punct .question, ⟨8, 9, 1, 9⟩⟩, ⟨.punct .rightParen, ⟨9, 10, 1, 10⟩⟩,
    ⟨.punct .plus, ⟨11, 12, 1, 12⟩⟩, ⟨.integer 1, ⟨13, 14, 1, 14⟩⟩]
  let tokens' : List Token := [⟨.punct .leftParen, ⟨1, 2, 1, 2⟩⟩, ⟨.keyword .SELECT, ⟨2, 8, 1, 3⟩⟩,
    ⟨.punct .question, ⟨9, 10, 1, 10⟩⟩, ⟨.punct .rightParen, ⟨10, 11, 1, 11⟩⟩,
    ⟨.punct .plus, ⟨12, 13, 1, 13⟩⟩, ⟨.integer 1, ⟨14, 15, 1, 15⟩⟩]
  have read : tokenize "(SELECT ?) + 1" settings =
      .ok (tokens ++ [⟨.endOfInput, ⟨14, 14, 1, 15⟩⟩]) := by
    decide +kernel
  have again : tokenize "((SELECT ?) + 1)" settings =
      .ok (⟨.punct .leftParen, ⟨0, 1, 1, 1⟩⟩ :: tokens' ++
        [⟨.punct .rightParen, ⟨15, 16, 1, 16⟩⟩, ⟨.endOfInput, ⟨16, 16, 1, 17⟩⟩]) := by
    decide +kernel
  have each : List.Forall₂ (SameText "(SELECT ?) + 1".toList "((SELECT ?) + 1)".toList) tokens
      tokens' := by decide +kernel
  obtain ⟨copy, accepted', same⟩ :=
    parseExpression_in_parens _ _ settings accepted other read again rfl rfl each
  exact ⟨tree, copy, accepted, sum, accepted', same⟩

end SqlDml
