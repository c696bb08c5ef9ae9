import SqlDml.Proofs.Replay.Blocks

/-!
Contract: expressions read the same wherever nothing continues them.

Owns:
- what continues an operand, and what stands in front of one;
- operands of any power, given the rules of the next nesting level.

Does not own: queries and table references.
-/

namespace SqlDml

namespace TokenKind.Ends

variable {kind : TokenKind} (ends : kind.Ends)

include ends

theorem startsQuery : kind.startsQuery = false := by
  cases ends <;> rfl

theorem afterNot? : Continuation.afterNot? kind = none := by
  cases ends <;> rfl

theorem afterSounds? : Continuation.afterSounds? kind = none := by
  cases ends <;> rfl

end TokenKind.Ends

namespace Rule

open Comparison (Consuming)

set_option synthInstance.maxSize 3000

variable {tails : Tails} {origin spot place : Spot} {inside : Bool} {inner : InnerRules}
  [inner.Lawful] [steady : inner.Steady origin]

omit [inner.Lawful] in
/-- An operand consumes a token. -/
theorem operand_spends (power : Nat) (reaches : origin.Reaches spot) :
    (inner.operand power).Spends 1 spot :=
  (steady.makes.operand power spot reaches).mono fun _ _ made => made.shorter

namespace Steady

variable [tails.Open]

/-! ### Behind an operand -/

instance (left : Expr) : Steady tails origin inside (isTest left) := by
  unfold isTest
  refine behind (fun negated => ?_) fun negated => ?_
  · refine lawful_bind fun kind => ?_
    split <;> infer_instance
  refine byKind (fun kind => ?_) (Rule.fail ["NULL", "TRUE", "FALSE", "UNKNOWN"])
    (fun kind ends => by cases ends <;> rfl) (fun spot _ inner => ?_) fun kind => ?_
  · split <;> infer_instance
  · split
    · exact .inr (.inner inner)
    · exact .inl rfl
  · split <;> infer_instance

instance (left : Expr) (negated : Bool) :
    Steady tails origin inside (inTest inner left negated) := by
  unfold inTest
  infer_instance

instance (left : Expr) (negated : Bool) :
    Steady tails origin inside (betweenTest inner left negated) := by
  unfold betweenTest
  infer_instance

instance (op : LikeOp) : Steady tails origin inside (escapeOperand inner op) := by
  unfold escapeOperand
  split <;> infer_instance

instance (left : Expr) (op : LikeOp) (negated : Bool) :
    Steady tails origin inside (likeTest inner left op negated) := by
  unfold likeTest
  infer_instance

instance : Steady tails origin inside collationName := by
  have common : Steady tails origin true collationName := by
    unfold collationName
    refine look fun token => ?_
    split <;> infer_instance
  exact of_spends fun spot reaches =>
    (collationName_makes reaches).mono fun _ _ facts => facts.1.shorter

instance (left : Expr) : Steady tails origin inside (collate left) := by
  unfold collate
  infer_instance

/-- Whether a query in parentheses follows the word of a quantifier. -/
def queryBehind (spot : Spot) : Bool :=
  (spot.token 1).kind == .punct .leftParen && (spot.token 2).kind.startsQuery

omit steady [inner.Lawful] [tails.Open] in
theorem on_subqueryFollows (spot : Spot) :
    (subqueryFollows 1).on spot = .done (queryBehind spot) spot := by
  unfold subqueryFollows queryBehind
  simp only [on_bind, on_aheadIs, Outcome.bind_done, on_ite, on_peekAhead, on_pure]
  by_cases found : (spot.token 1).kind = .punct .leftParen <;> simp [found]

/-- A quantifier and its subquery, as a unit of four tokens or more. -/
theorem quantified (left : Expr) (op : BinaryOp) (quantifier : Quantifier) {plain : Rule Expr}
    [plain.Lawful] [Steady tails origin true plain] :
    Steady tails origin true (subqueryFollows 1 >>= fun found =>
      if found = true then do
        let _ ← Rule.advance
        let _ ← expectMark .leftParen
        let query ← inner.query
        let stop ← expectMark .rightParen
        return .quantified left op quantifier query (left.span.merge stop)
      else plain) := by
  refine choose queryBehind on_subqueryFollows fun {spot place} beside within => ?_
  have within : tails.Within spot := within rfl
  by_cases three : tails.rest.length + 2 < spot.ahead.length
  · refine .inl ⟨?_, fun _ => within⟩
    rw [queryBehind, queryBehind, beside.token_eq 2 three, beside.token_eq 1 (by omega)]
  cases present : queryBehind spot with
  | true =>
      refine .inr ⟨rfl, fun value later => ?_⟩
      refine Spends.beyond (?_ : Spends _ 3 spot) (by omega)
      exact .advance (beside.inner within) (.bind .one fun _ _ => .one)
  | false =>
      refine .inl ⟨?_, fun _ => within⟩
      by_cases both : tails.rest.length + 1 < spot.ahead.length
      · rw [queryBehind, (beside.kind_at 2 (by omega)).startsQuery, Bool.and_false]
      · have ends := beside.kind_at 1 (by rw [Tails.Within] at within; omega)
        rw [queryBehind, beq_false_of_ne (ends.ne inferInstance), Bool.false_and]

instance (left : Expr) (op : BinaryOp) : Steady tails origin inside (comparison inner left op) := by
  unfold comparison
  refine byKind (fun kind => ?_)
    (inner.operand (op.power + 1) >>= fun right => Pure.pure (Expr.ofOperands left op right))
    (fun kind ends => by cases ends <;> rfl) (fun spot reaches going => ?_) fun kind => ?_
  · split <;> infer_instance
  · split
    · exact .inl rfl
    · refine .inr (.step (on_subqueryFollows spot) (.ite (fun _ => ?_) fun _ => ?_))
      · exact Spends.advance going .nothing
      · exact (operand_spends _ reaches).bind fun _ _ => .nothing
  · split
    · infer_instance
    · exact quantified left op _

/-! ### Continuations -/

omit steady [inner.Lawful] [tails.Open] in
theorem width_of_ofToken? {concat : Bool} {kind : TokenKind} {continuation : Continuation}
    (found : Continuation.ofToken? concat kind = some continuation) : continuation.width = 1 := by
  unfold Continuation.ofToken? at found
  split at found <;> cases found <;> rfl

omit steady [inner.Lawful] [tails.Open] in
theorem width_of_afterNot? {kind : TokenKind} {continuation : Continuation}
    (found : Continuation.afterNot? kind = some continuation) : continuation.width = 2 := by
  unfold Continuation.afterNot? at found
  split at found <;> cases found <;> rfl

omit steady [inner.Lawful] [tails.Open] in
theorem width_of_afterSounds? {kind : TokenKind} {continuation : Continuation}
    (found : Continuation.afterSounds? kind = some continuation) : continuation.width = 2 := by
  unfold Continuation.afterSounds? at found
  split at found <;> cases found
  rfl

omit steady [inner.Lawful] [tails.Open] in
/-- The second token of a continuation is none at which expressions end. -/
theorem not_ends_of_wide {continuation : Continuation}
    (found : spot.continuation? = some continuation) (wide : continuation.width = 2) :
    ¬ (spot.token 1).kind.Ends := by
  intro ends
  unfold Spot.continuation? at found
  split at found
  · cases ends.afterNot?.symm.trans found
  · cases ends.afterSounds?.symm.trans found
  · cases (width_of_ofToken? found).symm.trans wide

omit steady [inner.Lawful] in
/-- The next continuation is the same, unless it takes two tokens of which one is in common. -/
theorem continuation?_eq_or (beside : tails.Beside origin spot place) (within : tails.Within spot) :
    place.continuation? = spot.continuation? ∨
      spot.ahead.length = tails.rest.length + 1 ∧ place.continuation? = none ∧
        ∃ continuation, spot.continuation? = some continuation ∧ continuation.width = 2 := by
  by_cases both : tails.rest.length + 1 < spot.ahead.length
  · left
    unfold Spot.continuation?
    rw [beside.kind within, beside.token_eq 1 both, beside.settings]
  have edge : spot.ahead.length = tails.rest.length + 1 := by
    rw [Tails.Within] at within
    omega
  unfold Spot.continuation?
  rw [beside.kind within, beside.settings]
  split
  · rw [(beside.kind_at 1 edge).afterNot?]
    cases found : Continuation.afterNot? (spot.token 1).kind with
    | none => exact .inl rfl
    | some continuation => exact .inr ⟨edge, rfl, continuation, rfl, width_of_afterNot? found⟩
  · rw [(beside.kind_at 1 edge).afterSounds?]
    cases found : Continuation.afterSounds? (spot.token 1).kind with
    | none => exact .inl rfl
    | some continuation => exact .inr ⟨edge, rfl, continuation, rfl, width_of_afterSounds? found⟩
  · exact .inl rfl

omit steady [inner.Lawful] in
/-- Behind the tokens of a continuation that comes next at both spots. -/
theorem behind_continuation {continuation : Continuation} (beside : tails.Beside origin spot place)
    (within : tails.Within spot) (found : place.continuation? = some continuation) :
    tails.Beside origin (behindContinuation continuation spot)
      (behindContinuation continuation place) := by
  unfold behindContinuation
  split
  · next wide =>
      refine (beside.next within).next (Nat.lt_of_not_le fun few => ?_)
      have edge : spot.ahead.length = tails.rest.length + 1 := by
        rw [Spot.next_ahead, List.length_tail] at few
        rw [Tails.Within] at within
        omega
      exact not_ends_of_wide found wide (beside.kind_at 1 edge)
  · exact beside.next within

theorem continueWith_retells (left : Expr) {continuation : Continuation}
    (beside : tails.Beside origin spot place) (within : tails.Within spot)
    (found : place.continuation? = some continuation) :
    (continueWith inner left continuation).Retells tails origin spot place := by
  unfold continueWith
  refine .step (on_skipContinuation _ _) (on_skipContinuation _ _) ?_
  have behind := behind_continuation beside within found
  cases continuation <;> exact anywhere behind

omit steady [tails.Open] in
/-- Nothing continues an operand where expressions end. -/
theorem on_extendOperand_at_end {power : Nat} {left : Expr} (ends : spot.kind.Ends) :
    (extendOperand inner power left).on spot = .done none spot := by
  rw [on_extendOperand]
  unfold Spot.continuation?
  generalize spot.kind = kind at ends ⊢
  cases ends <;> rfl

omit steady [tails.Open] in
/-- Where nothing continues an operand, nothing is consumed. -/
theorem extendOperand_stays {power : Nat} {left : Expr} {later : Spot}
    (outcome : (extendOperand inner power left).on spot = .done none later) : later = spot := by
  rw [on_extendOperand] at outcome
  split at outcome
  · split at outcome
    · obtain ⟨_, _, _, finished⟩ := Outcome.bind_eq_done.mp outcome
      cases finished
    · cases outcome
      rfl
  · split at outcome
    · split at outcome
      · obtain ⟨_, _, _, finished⟩ := Outcome.bind_eq_done.mp outcome
        cases finished
      · cases outcome
        rfl
    · cases outcome
      rfl

omit steady [tails.Open] in
/-- A continuation of two tokens consumes them. -/
theorem continueWith_spends {left : Expr} {continuation : Continuation}
    (found : spot.continuation? = some continuation) (wide : continuation.width = 2) :
    (continueWith inner left continuation).Spends 2 spot := by
  have second := ((Spot.bare_of_continuation? found).2.2.2 wide).inner
  have first := Spot.length_next_lt (Spot.kind_of_continuation? found)
  have shorter := Spot.length_next_lt second
  unfold continueWith
  refine .step (on_skipContinuation continuation spot) ?_
  rw [behindContinuation, if_pos wide]
  refine Ensures.mono (?_ : Spends _ 0 spot.next.next) fun _ _ spent => by omega
  cases continuation <;> exact .nothing

/-- Where a token in common is ahead, it is continued alike. -/
theorem extendOperand_retells (power : Nat) (left : Expr) (beside : tails.Beside origin spot place)
    (within : tails.Within spot) :
    (extendOperand inner power left).Retells tails origin spot place := by
  have kind := beside.kind within
  rcases continuation?_eq_or beside within with same | ⟨edge, nothing, continuation, found, wide⟩
  · unfold extendOperand
    refine .step (on_nextIsWord spot _) (kind ▸ on_nextIsWord place _)
      (.ite (fun _ => ?_) fun _ => ?_)
    · exact anywhere beside
    refine .step (on_continuation? spot) (same ▸ on_continuation? place) ?_
    split
    · next continuation found =>
        refine .ite (fun _ => ?_) fun _ => .pure beside
        exact .bind (continueWith_retells left beside within (same.trans found))
          fun _ _ _ beside => .pure beside
    · exact .pure beside
  · -- a continuation of two tokens reads on behind the tokens in common
    have other : spot.kind ≠ .keyword .COLLATE := by
      intro collates
      rw [Spot.continuation?, collates] at found
      cases found
    refine .of_on fun extended later outcome enough => ?_
    rw [on_extendOperand, if_neg other, found] at outcome
    rw [on_extendOperand, if_neg (kind ▸ other), nothing]
    dsimp only at outcome
    split at outcome
    · obtain ⟨value, middle, read, finished⟩ := Outcome.bind_eq_done.mp outcome
      cases finished
      have beyond : later.ahead.length < tails.rest.length :=
        (continueWith_spends found wide).beyond (by omega) read
      omega
    · cases outcome
      exact .inr ⟨place, rfl, beside⟩

instance (power : Nat) (left : Expr) :
    Steady tails origin inside (extendOperand inner power left) := by
  refine ⟨fun {spot place} beside _ => ?_⟩
  rcases beside.cases with ⟨ahead, _⟩ | within
  · refine .of_on fun found later outcome enough => ?_
    have nothing : (extendOperand inner power left).on place = .done none place :=
      on_extendOperand_at_end (beside.kind_at 0 (by rw [ahead]; rfl))
    cases found with
    | none =>
        obtain rfl := extendOperand_stays outcome
        exact .inr ⟨place, nothing, beside⟩
    | some extended =>
        have shorter := Shortens.shorter spot later extended outcome
        rw [ahead] at shorter
        omega
  · exact extendOperand_retells power left beside within

/-! ### Calls, casts and cases -/

instance (function : Ident) : Steady tails origin inside (callArguments inner function) := by
  unfold callArguments
  dsimp only
  infer_instance

instance : Steady tails origin inside (keywordCall inner) := by
  unfold keywordCall
  infer_instance

instance : Steady tails origin inside (castExpr inner) := by
  unfold castExpr
  infer_instance

instance (whens : List (Expr × Expr)) : Steady tails origin inside (nextWhen inner whens) := by
  unfold nextWhen
  infer_instance

instance : Steady tails origin inside (whenBranches inner) := by
  rw [whenBranches_eq]
  infer_instance

instance : Steady tails origin inside (caseExpr inner) := by
  unfold caseExpr
  dsimp only
  infer_instance

/-! ### In front -/

instance (op : UnaryOp) (power : Nat) : Steady tails origin true (unaryExpr inner op power) := by
  unfold unaryExpr
  infer_instance

instance : Steady tails origin true (existsExpr inner) := by
  unfold existsExpr
  infer_instance

instance : Steady tails origin true (rowExpr inner) := by
  unfold rowExpr
  infer_instance

instance : Steady tails origin inside (exprInParens inner) := by
  unfold exprInParens
  infer_instance

instance : Consuming inside (exprInParens inner) := by
  unfold exprInParens
  infer_instance

/-! ### By the token behind the next one -/

section Spends

omit steady [tails.Open]

theorem callArguments_spends (function : Ident) :
    (callArguments inner function).Spends 1 spot := by
  unfold callArguments
  exact .one

theorem keywordCall_spends : (keywordCall inner).Spends 2 spot := by
  unfold keywordCall
  exact .bind .one fun function _ => callArguments_spends function

theorem call_spends :
    (identifier >>= fun function => callArguments inner function).Spends 2 spot :=
  .bind .one fun function _ => callArguments_spends function

theorem nameExpr_spends (called : (spot.token 1).kind = .punct .leftParen) :
    (nameExpr inner).Spends 2 spot := by
  unfold nameExpr
  exact .aheadIs (fun _ => call_spends) fun bare => absurd called bare

theorem keywordExpr_spends (called : (spot.token 1).kind = .punct .leftParen) (word : Keyword) :
    (keywordExpr inner word).Spends 2 spot := by
  have asName : Spends (if word.isNonreserved then nameExpr inner else Rule.fail ["expression"]) 2
      spot := .ite (fun _ => nameExpr_spends called) fun _ => .fail
  unfold keywordExpr
  exact .ite (fun _ => .aheadIs (fun _ => keywordCall_spends) fun _ => asName) fun _ => asName

theorem subquery_spends : (subquery inner).Spends 2 spot := by
  unfold subquery queryInParens
  refine Spends.bind (?_ : Spends _ 2 spot) fun _ _ => .nothing
  exact .bind .one fun _ _ => .one

theorem exprInParens_spends : (exprInParens inner).Spends 2 spot := by
  unfold exprInParens
  exact .bind .one fun _ _ => .one

end Spends

/-- Behind two parentheses the query is tried first. -/
theorem triedParen_retells (beside : tails.Beside origin spot place) :
    (attempt (subquery inner) >>= fun found =>
      match found with
      | some expr => Pure.pure expr
      | none => exprInParens inner).Retells tails origin spot place := by
  have lawful : ∀ found : Option Expr, Rule.Lawful (match found with
      | some expr => Pure.pure expr
      | none => exprInParens inner) := by
    intro found
    split <;> infer_instance
  refine .attempt (anywhere beside) (fun expr later after beside => .pure beside)
    (fun _ => anywhere beside) fun stuck value later read enough expr after again => ?_
  obtain ⟨block, encloses⟩ := (exprInParens_encloses beside.reaches).on read
  exact subquery_not_stuck beside (leads_of_on read) enough encloses again stuck

instance : Steady tails origin true (parenExpr inner) := by
  unfold parenExpr
  refine byNext (fun kind => ?_) (exprInParens inner) (fun kind ends => by cases ends <;> rfl)
    (fun spot reaches going => ?_) fun spot place beside both => ?_
  · split
    · infer_instance
    · infer_instance
    · refine lawful_bind fun found => ?_
      split <;> infer_instance
    · infer_instance
  · right
    split
    · exact subquery_spends
    · exact subquery_spends
    · refine .attempt subquery_spends (fun _ _ spent => .pure spent) exprInParens_spends
    · exact exprInParens_spends
  · split
    · exact anywhere beside
    · exact anywhere beside
    · exact triedParen_retells beside
    · exact anywhere beside

instance : Steady tails origin true (nameExpr inner) := by
  unfold nameExpr
  exact ifNext _ fun spot _ _ => call_spends

instance (word : Keyword) : Steady tails origin true (keywordExpr inner word) := by
  unfold keywordExpr
  dsimp only
  split
  · exact ifNext _ fun spot _ _ => keywordCall_spends
  · infer_instance

instance (word : Keyword) (kind : TemporalKind) :
    Steady tails origin true (temporalExpr inner word kind) := by
  unfold temporalExpr
  refine byNext (fun kind => inferInstance) (keywordExpr inner word)
    (fun kind ends => by cases ends <;> rfl) (fun spot reaches going => ?_) fun spot place beside both => ?_
  · by_cases string : (spot.token 1).kind.isString = true
    · obtain ⟨part, quote, found⟩ := TokenKind.string_of_isString string
      have next : spot.next.kind = .string part quote := by rw [Spot.kind, Spot.next_token, found]
      rw [if_pos string]
      exact .inr (Spends.advance going (.bind (stringRun_spends next) fun _ _ => .nothing))
    · exact .inl (if_neg string)
  · refine .ite (fun _ => ?_) fun _ => ?_
    · exact temporalLiteral_retells kind beside both
    · exact within beside (Nat.lt_of_succ_lt both)

omit steady [tails.Open] in
theorem currentTimestampExpr_spends (going : spot.kind ≠ .endOfInput)
    (called : (spot.token 1).kind = .punct .leftParen) :
    (currentTimestampExpr inner).Spends 3 spot := by
  have next : spot.next.kind = .punct .leftParen := by rw [Spot.kind, Spot.next_token, called]
  have bare : currentTimestamp.Spends 3 spot := by
    unfold currentTimestamp
    refine Spends.advance going (.eat (fun found => ?_) fun missing => absurd next missing)
    have shorter : spot.next.next.ahead.length < spot.next.ahead.length :=
      Spot.length_next_lt (by simp [next])
    exact Ensures.mono (.one : Spends _ 1 spot.next.next) fun _ _ spent => by omega
  have listed : (keywordCall inner).Spends 3 spot := by
    unfold keywordCall callArguments
    exact .bind .one fun _ _ => .bind .one fun _ _ => .one
  unfold currentTimestampExpr
  exact .aheadIs (fun _ => .aheadIs (fun _ => bare) fun _ => listed) fun other => absurd called other

instance : Steady tails origin true (currentTimestampExpr inner) := by
  refine ⟨fun {spot place} beside inside => ?_⟩
  have inside : tails.Within spot := inside rfl
  by_cases three : tails.rest.length + 2 < spot.ahead.length
  · have first := beside.token_eq 1 (by omega)
    unfold currentTimestampExpr
    refine .step (on_aheadIs spot 1 _) (first ▸ on_aheadIs place 1 _) (.ite (fun _ => ?_) fun _ => ?_)
    · refine .step (on_aheadIs spot 2 _) (beside.token_eq 2 three ▸ on_aheadIs place 2 _)
        (.ite (fun _ => ?_) fun _ => ?_) <;> exact within beside inside
    · exact within beside inside
  by_cases called : (spot.token 1).kind = .punct .leftParen
  · exact .beyond fun value later outcome =>
      (currentTimestampExpr_spends (beside.inner inside) called).beyond (by omega) outcome
  · have other : (place.token 1).kind ≠ .punct .leftParen := by
      by_cases both : tails.rest.length + 1 < spot.ahead.length
      · rw [beside.token_eq 1 both]
        exact called
      · exact (beside.kind_at 1 (by rw [Tails.Within] at inside; omega)).ne inferInstance
    unfold currentTimestampExpr
    refine .step (on_aheadIs spot 1 _) ?_ (.ite (fun found => ?_) fun _ => within beside inside)
    · rw [decide_eq_false called, ← decide_eq_false other]
      exact on_aheadIs place 1 _
    · exact absurd (of_decide_eq_true found) called

instance : Steady tails origin true (defaultExpr inner) := by
  unfold defaultExpr
  exact ifNext _ fun spot _ called => keywordExpr_spends called _

instance (text : String) : Steady tails origin true (wordExpr inner text) := by
  unfold wordExpr
  refine byNext (fun kind => ?_) (nameExpr inner) (fun kind ends => by cases ends <;> rfl)
    (fun spot reaches going => ?_) fun spot place beside both => ?_
  · split
    · split <;> infer_instance
    · infer_instance
  · split
    · split
      · exact .inr (Spends.advance going (.bind (introducedValue_spends _) fun _ _ => .nothing))
      · exact .inl rfl
    · exact .inl rfl
  · have inside : tails.Within spot := Nat.lt_of_succ_lt both
    split
    · split <;> exact within beside inside
    · exact within beside inside

instance : Steady tails origin true (primaryExpr inner) := by
  unfold primaryExpr
  refine look fun kind => ?_
  split
  case h_28 => exact ifNext _ fun spot going _ => Spends.advance going .one
  all_goals infer_instance

instance (power : Nat) : Steady tails origin true (operandBody inner power) := by
  unfold operandBody
  infer_instance

end Steady

end Rule

end SqlDml
