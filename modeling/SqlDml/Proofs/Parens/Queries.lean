import SqlDml.Proofs.Parens.Expressions

/-!
Contract: queries and table references in front of one more closing parenthesis.

Owns:
- the clauses of queries and the tables of joins, which stand in parentheses that are open;
- the rules of every nesting level.

Does not own: statements.
-/

namespace SqlDml.Rule

set_option synthInstance.maxSize 3000

variable {seen : Option TokenKind} {depth : Nat} {inner : InnerRules} [inner.Lawful] [inner.Caps]

/-- The options of a select block are no parentheses. -/
theorem flat_of_addModifier {modifiers more : SelectModifiers} {kind : TokenKind}
    (found : addModifier modifiers kind = some more) : kind.Flat := by
  refine ⟨⟨?_, ?_, ?_, ?_⟩, ?_, ?_⟩ <;> rintro rfl <;> cases found

namespace Caps

/-! ### Names -/

instance : Caps seen (depth + 1) identsInParensOrNone (depth + 1) := by
  unfold identsInParensOrNone
  have listed : Caps none (depth + 1 + 1) (eatMark .rightParen >>= fun closed =>
      if closed = true then Pure.pure [] else restOfIdents) (depth + 1) :=
    ifEaten _ (depth + 1)
  infer_instance

instance : Caps seen (depth + 1) aliasName (depth + 1) := by
  unfold aliasName
  infer_instance

instance : Caps seen (depth + 1) aliasOrString (depth + 1) := by
  unfold aliasOrString
  refine behind fun explicit => byToken
    (if explicit then identifier >>= fun name => Pure.pure (some name) else Pure.pure none)
    (fun token ends => ?_) fun token => ?_
  · rcases ends with ends | ends <;> simp [ends, TokenKind.isName]
  · split
    · next kind => rw [kind]; infer_instance
    · infer_instance

instance : Caps seen (depth + 1) partitions (depth + 1) := by
  unfold partitions
  infer_instance

/-! ### Tables -/

instance : Caps seen (depth + 1) hintScope (depth + 1) := by
  unfold hintScope
  infer_instance

theorem indexHint_capped (action : IndexHintAction) {spot place : Spot}
    (capped : spot.Capped (depth + 1) place) (first : spot.kind.Flat)
    (second : spot.next.kind.Flat) :
    (indexHint action).CappedAt (depth + 1) spot place := by
  unfold indexHint
  refine .advance capped first.inner (depthBehind_of_bare first.bare _) fun capped => ?_
  refine .advance capped second.inner (depthBehind_of_bare second.bare _) fun capped => ?_
  exact at_ capped

instance : Caps seen (depth + 1) skipHintComma (depth + 1) := by
  have next : Caps (some (.punct .comma)) (depth + 1) (peekAhead 1 >>= fun kind =>
      if (hintAction? kind).isSome = true then Rule.advance >>= fun _ => Pure.pure PUnit.unit
      else Pure.pure PUnit.unit) (depth + 1) :=
    byAhead 1 (Pure.pure PUnit.unit) rfl rfl fun capped shows _ => Caps.capped capped shows
  unfold skipHintComma
  exact ifNext _ (by simp)

instance (hints : List IndexHint) : Caps seen (depth + 1) (nextHint hints) (depth + 1) := by
  unfold nextHint
  refine byKind (Pure.pure none) rfl rfl fun kind => ?_
  split
  · infer_instance
  · next action found =>
      refine byAhead 1 (Pure.pure none) rfl rfl fun {spot place} capped shows _ => ?_
      refine .ite (fun word => ?_) fun _ => .pure capped
      obtain ⟨rfl, _⟩ := shows _ rfl
      have second : spot.next.kind.Flat := by
        rw [Spot.kind, Spot.next_token]
        exact flat_of_isIndexWord word
      refine (indexHint_capped action capped (flat_of_hintAction? found) second).bind ?_
      exact fun _ _ _ _ behind => at_ behind

instance : Caps seen (depth + 1) indexHints (depth + 1) := by
  rw [indexHints_eq]
  infer_instance

instance : Caps seen (depth + 1) namedTable (depth + 1) := by
  unfold namedTable
  infer_instance

instance (join : JoinType) : Caps seen (depth + 1) (joinWord join) (depth + 1) := by
  unfold joinWord
  infer_instance

instance : Caps seen (depth + 1) naturalJoin (depth + 1) := by
  unfold naturalJoin
  infer_instance

instance : Caps seen (depth + 1) joinType (depth + 1) := by
  unfold joinType
  refine byKind (Pure.pure none) rfl rfl fun kind => ?_
  split <;> infer_instance

instance : Caps seen (depth + 1) (onCondition inner) (depth + 1) := by
  unfold onCondition
  infer_instance

instance : Caps seen (depth + 1) (onOrUsing inner) (depth + 1) := by
  unfold onOrUsing
  refine behind fun found => ?_
  split <;> infer_instance

instance (join : JoinType) : Caps seen (depth + 1) (joinCondition inner join) (depth + 1) := by
  unfold joinCondition
  split
  · infer_instance
  · split
    · infer_instance
    · refine behind fun found => ?_
      split <;> infer_instance

instance : Caps seen (depth + 1) (tableFactor inner) (depth + 1) := by
  unfold tableFactor
  infer_instance

instance (left : TableRef) : Caps seen (depth + 1) (extendJoin inner left) (depth + 1) := by
  unfold extendJoin
  refine behind fun found => ?_
  split <;> infer_instance

instance : Caps seen (depth + 1) (tableRef inner) (depth + 1) := by
  unfold tableRef
  infer_instance

instance : Caps seen (depth + 1) (tableRefs inner) (depth + 1) := by
  unfold tableRefs
  infer_instance

instance (start : Span) : Caps seen (depth + 1) (derivedTable inner start) (depth + 1) := by
  rw [Steady.derivedTable_eq]
  refine behind fun found => ?_
  unfold Steady.derivedAlias
  refine behind fun found => ?_
  split <;> infer_instance

instance (start : Span) : Caps seen (depth + 1) (tableRefsInParens inner start) (depth + 1) := by
  unfold tableRefsInParens
  infer_instance

instance : Caps seen (depth + 1) (tableInParensBody inner) (depth + 1) := by
  unfold tableInParensBody
  refine behind fun start => byAhead 1 (tableRefsInParens inner start) rfl rfl
    fun {spot place} capped _ _ => .ite (fun _ => ?_) fun _ => at_ capped
  have tried : (Rule.attempt (derivedTable inner start)).CappedAt (depth + 1) spot place :=
    at_ capped
  refine tried.bind fun found _ _ _ behind => ?_
  split <;> exact at_ behind

/-! ### Clauses -/

instance : Caps seen (depth + 1) (whereClause inner) (depth + 1) := by
  unfold whereClause
  infer_instance

instance : Caps seen (depth + 1) sortDirection (depth + 1) := by
  unfold sortDirection
  infer_instance

instance : Caps seen (depth + 1) (orderingTerm inner) (depth + 1) := by
  unfold orderingTerm
  refine behind fun expr => behind fun found => ?_
  split <;> infer_instance

instance : Caps seen (depth + 1) (orderingTerms inner) (depth + 1) := by
  unfold orderingTerms
  infer_instance

instance : Caps seen (depth + 1) (orderByClause inner) (depth + 1) := by
  unfold orderByClause
  infer_instance

instance : Caps seen (depth + 1) limitOperand (depth + 1) := by
  unfold limitOperand
  refine byKind (Rule.fail ["integer", "'?'"]) rfl rfl fun kind => ?_
  split <;> infer_instance

instance : Caps seen (depth + 1) limitNumbers (depth + 1) := by
  unfold limitNumbers
  infer_instance

instance (allowOffset : Bool) : Caps seen (depth + 1) (limitClause allowOffset) (depth + 1) := by
  unfold limitClause
  dsimp only
  infer_instance

instance : Caps seen (depth + 1) lockMode (depth + 1) := by
  unfold lockMode
  infer_instance

instance : Caps seen (depth + 1) lockedTables (depth + 1) := by
  unfold lockedTables
  infer_instance

instance : Caps seen (depth + 1) lockWait (depth + 1) := by
  unfold lockWait
  infer_instance

instance : Caps seen (depth + 1) lockingClause (depth + 1) := by
  unfold lockingClause
  infer_instance

/-! ### Select blocks -/

instance (modifiers : SelectModifiers) :
    Caps seen (depth + 1) (nextModifier modifiers) (depth + 1) := by
  unfold nextModifier
  refine byKind (Pure.pure none) rfl rfl fun kind => ?_
  split
  · next more found =>
      have flat := flat_of_addModifier found
      infer_instance
  · infer_instance

instance : Caps seen (depth + 1) selectModifiers (depth + 1) := by
  rw [selectModifiers_eq]
  infer_instance

instance : Caps seen (depth + 1) (exprItem inner) (depth + 1) := by
  unfold exprItem
  infer_instance

/-- A wildcard of a table, whose three tokens are in common. -/
theorem tableWildcard_capped {spot place : Spot} (capped : spot.Capped (depth + 1) place)
    (dot : (spot.token 1).kind = .punct .dot) (star : (spot.token 2).kind = .punct .star) :
    tableWildcard.CappedAt (depth + 1) spot place := by
  have first : spot.next.kind = .punct .dot := by rw [Spot.kind, Spot.next_token, dot]
  have second : spot.next.next.kind = .punct .star := by
    rw [Spot.kind, Spot.next_token, Spot.next_token, star]
  unfold tableWildcard identifier
  refine .name capped fun table capped => ?_
  refine .advance capped (by simp [first]) (by rw [first]; rfl) fun capped => ?_
  exact .advance capped (by simp [second]) (by rw [second]; rfl) fun capped => .pure capped

/-- A wildcard of a table with its schema, whose five tokens are in common. -/
theorem schemaWildcard_capped {spot place : Spot} (capped : spot.Capped (depth + 1) place)
    (dot : (spot.token 1).kind = .punct .dot) (again : (spot.token 3).kind = .punct .dot)
    (star : (spot.token 4).kind = .punct .star) :
    schemaWildcard.CappedAt (depth + 1) spot place := by
  have first : spot.next.kind = .punct .dot := by rw [Spot.kind, Spot.next_token, dot]
  have second : spot.next.next.next.kind = .punct .dot := by
    rw [Spot.kind, Spot.next_token, Spot.next_token, Spot.next_token, again]
  have third : spot.next.next.next.next.kind = .punct .star := by
    rw [Spot.kind, Spot.next_token, Spot.next_token, Spot.next_token, Spot.next_token, star]
  unfold schemaWildcard identifier identifierAfterDot
  refine .name capped fun schema capped => ?_
  refine .advance capped (by simp [first]) (by rw [first]; rfl) fun capped => ?_
  refine .name capped fun table capped => ?_
  refine .advance capped (by simp [second]) (by rw [second]; rfl) fun capped => ?_
  exact .advance capped (by simp [third]) (by rw [third]; rfl) fun capped => .pure capped

theorem wildcardBehind_eq {spot place : Spot} (capped : spot.Capped depth place) :
    Steady.wildcardBehind place = Steady.wildcardBehind spot := by
  have named : (place.token 2).kind.isNameAfterDot = (spot.token 2).kind.isNameAfterDot := by
    rcases capped.kind_or 2 with same | ⟨ended, closes⟩
    · rw [same]
    · rw [ended, closes]
      rfl
  have dots : (place.token 3).kind = .punct .dot ↔ _ := capped.kind_iff inferInstance 3
  have stars : (place.token 4).kind = .punct .star ↔ _ := capped.kind_iff inferInstance 4
  simp only [Steady.wildcardBehind, named, beq_eq_decide, dots, stars]

omit [inner.Lawful] in
theorem dottedItem_capped {spot place : Spot} (capped : spot.Capped (depth + 1) place)
    (dot : (spot.token 1).kind = .punct .dot) :
    (dottedItem inner).CappedAt (depth + 1) spot place := by
  unfold dottedItem
  refine .ifAhead 2 _ capped (fun star => tableWildcard_capped capped dot star) ?_
  refine .step (Steady.on_schemaWildcardFollows spot)
    (wildcardBehind_eq capped ▸ Steady.on_schemaWildcardFollows place)
    (.ite (fun wildcard => ?_) ?_)
  · obtain ⟨⟨_, again⟩, star⟩ : (_ ∧ (spot.token 3).kind = .punct .dot) ∧
        (spot.token 4).kind = .punct .star := by simpa [Steady.wildcardBehind] using wildcard
    exact schemaWildcard_capped capped dot again star
  · exact fun _ => at_ capped

instance : Caps seen (depth + 1) (selectItem inner) (depth + 1) := by
  have dotted : Caps none (depth + 1) (aheadIs 1 (.punct .dot) >>= fun dotted =>
      if dotted = true then dottedItem inner else exprItem inner) (depth + 1) :=
    ⟨fun capped _ => .ifAhead 1 _ capped (dottedItem_capped capped) (at_ capped)⟩
  unfold selectItem
  exact ifNext _ (by simp)

instance : Caps seen (depth + 1) (fromClause inner) (depth + 1) := by
  unfold fromClause
  infer_instance

instance : Caps seen (depth + 1) withRollup (depth + 1) := by
  have rollup : Caps (some (.keyword .WITH)) (depth + 1)
      (aheadIs 1 (.keyword .ROLLUP) >>= fun found => if found = true then do
        let _ ← Rule.advance
        let _ ← Rule.advance
        return true
      else return false) (depth + 1) := by
    refine ⟨fun {spot place} capped shows => .ifAhead 1 _ capped (fun found => ?_) (.pure capped)⟩
    obtain ⟨first, going⟩ := shows _ rfl
    have second : spot.next.kind = .keyword .ROLLUP := by rw [Spot.kind, Spot.next_token, found]
    refine .advance capped going (by rw [first]; rfl) fun capped => ?_
    exact .advance capped (by simp [second]) (by rw [second]; rfl) fun capped => .pure capped
  unfold withRollup
  exact ifNext _ (by simp)

instance : Caps seen (depth + 1) (groupByClause inner) (depth + 1) := by
  unfold groupByClause
  infer_instance

instance : Caps seen (depth + 1) (havingClause inner) (depth + 1) := by
  unfold havingClause
  infer_instance

instance : Caps seen (depth + 1) (selectCore inner) (depth + 1) := by
  unfold selectCore
  infer_instance

/-! ### Whole queries -/

instance : Caps seen (depth + 1) (queryTerm inner) (depth + 1) := by
  unfold queryTerm
  refine byKind (Rule.fail ["SELECT", "'('"]) rfl rfl fun kind => ?_
  split
  · exact moved (depth + 1 + 1) inferInstance fun _ => inferInstance
  · infer_instance
  · infer_instance

instance : Caps seen (depth + 1) compoundOp (depth + 1) := by
  unfold compoundOp
  infer_instance

instance (compounds : List (CompoundOp × QueryTerm)) :
    Caps seen (depth + 1) (nextCompound inner compounds) (depth + 1) := by
  unfold nextCompound
  infer_instance

instance : Caps seen (depth + 1) (queryBody inner) (depth + 1) := by
  rw [queryBody_eq]
  infer_instance

instance : Caps seen (depth + 1) (commonTable inner) (depth + 1) := by
  unfold commonTable
  dsimp only
  infer_instance

instance : Caps seen (depth + 1) (withClause inner) (depth + 1) := by
  unfold withClause
  infer_instance

instance : Caps seen (depth + 1) (wholeQuery inner) (depth + 1) := by
  unfold wholeQuery
  infer_instance

end Caps

/-! ### Every nesting level -/

/-- The rules of each nesting level do the same in front of one more closing parenthesis. -/
instance innerAt_caps (levels : Nat) : (innerAt levels).Caps := by
  induction levels with
  | zero =>
      refine ⟨fun depth power => ?_, fun depth => ?_, fun depth => ?_⟩
      · rw [operand_zero]
        infer_instance
      · rw [query_zero]
        infer_instance
      · rw [tableInParens_zero]
        infer_instance
  | succ levels inductionHypothesis =>
      refine ⟨fun depth power => ?_, fun depth => ?_, fun depth => ?_⟩
      · rw [operand_succ]
        infer_instance
      · rw [query_succ]
        infer_instance
      · rw [tableInParens_succ]
        infer_instance

end SqlDml.Rule
