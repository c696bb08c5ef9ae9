import SqlDml.Proofs.Parens.Capped

/-!
Contract: names, constants and expressions in front of one more closing parenthesis.

Owns:
- names, which a dot continues, and lists of them;
- constants, which another string may continue;
- what continues an operand, and what stands in front of one;
- operands of any power, given the rules of the next nesting level.

Does not own: queries and table references.
-/

/-! ## Names and constants -/

namespace SqlDml

namespace TokenKind

theorem flat_of_ne {kind : TokenKind}
    (other : ∀ mark ∈ [endOfInput, punct .leftParen, punct .rightParen, punct .semicolon,
      punct .minus, punct .dot], kind ≠ mark) : kind.Flat :=
  ⟨⟨other _ (by simp), other _ (by simp), other _ (by simp), other _ (by simp)⟩,
    other _ (by simp), other _ (by simp)⟩

instance (text : String) : (word text).Flat := flat_of_ne (by simp)

instance (value : String) (quote : Char) : (quotedWord value quote).Flat := flat_of_ne (by simp)

instance (value : String) (quote : Char) : (string value quote).Flat := flat_of_ne (by simp)

instance (value : Nat) : (integer value).Flat := flat_of_ne (by simp)

instance (text : String) : (number text).Flat := flat_of_ne (by simp)

instance (digits : String) : (hex digits).Flat := flat_of_ne (by simp)

instance (digits : String) : (bit digits).Flat := flat_of_ne (by simp)

instance : (punct .question).Flat := flat_of_ne (by simp)

instance : (punct .plus).Flat := flat_of_ne (by simp)

instance : (punct .tilde).Flat := flat_of_ne (by simp)

instance : (punct .bang).Flat := flat_of_ne (by simp)

instance (depth : Nat) : (punct .minus).Counts depth depth :=
  .of_bare ⟨by simp, by simp, by simp, by simp⟩

instance (depth : Nat) : (punct .dot).Counts depth depth :=
  .of_bare ⟨by simp, by simp, by simp, by simp⟩

end TokenKind

namespace Rule

set_option synthInstance.maxSize 1000

variable {β : Type} {seen : Option TokenKind} {depth later : Nat}

/-- Where the tokens end there is no name. -/
theorem identOfToken?_of_ends {source : List Char} {anyKeyword : Bool} {token : Token}
    (ends : token.kind = .endOfInput ∨ token.kind = .punct .rightParen) :
    identOfToken? source anyKeyword token = none := by
  rcases ends with ends | ends <;> simp [identOfToken?, ends]

/-- Behind a name. -/
theorem CappedAt.name {anyKeyword : Bool} {next : Ident → Rule β} {spot place : Spot}
    (capped : spot.Capped depth place)
    (rest : ∀ ident, spot.next.Capped depth place.next →
      (next ident).CappedAt later spot.next place.next) :
    (Rule.name anyKeyword >>= next).CappedAt later spot place := by
  cases found : identOfToken? spot.source anyKeyword (spot.token 0) with
  | some ident =>
      obtain ⟨_, named, _⟩ := readFrom_of_identOfToken? found
      have flat : spot.kind.Flat := TokenKind.flat_of_isNameAfterDot named
      have found' : identOfToken? place.source anyKeyword (place.token 0) = some ident := by
        rw [capped.source, capped.token_zero flat.inner, found]
      refine .step (by rw [on_name, found]) (by rw [on_name, found']) (rest ident ?_)
      exact capped.next flat.inner (depthBehind_of_bare flat.bare depth)
  | none =>
      have found' : identOfToken? place.source anyKeyword (place.token 0) = none := by
        rcases capped.kind_or 0 with same | ⟨_, closes⟩
        · by_cases ended : (spot.token 0).kind = .endOfInput
          · exact identOfToken?_of_ends (.inl (same.trans ended))
          · rw [capped.source, capped.token_zero ended, found]
        · exact identOfToken?_of_ends (.inr closes)
      have nothing : (Rule.name anyKeyword).on spot = .stuck := by rw [on_name, found]
      have stuck : (Rule.name anyKeyword).CappedAt depth spot place :=
        .stuck nothing (by rw [on_name, found'])
      exact stuck.bind fun _ _ _ read => by cases nothing.symm.trans read

namespace Caps

instance (anyKeyword : Bool) : Caps seen depth (name anyKeyword) depth := by
  have named : Caps seen depth (name anyKeyword >>= fun ident => Pure.pure ident) depth :=
    ⟨fun capped _ => .name capped fun _ behind => .pure behind⟩
  rwa [bind_pure] at named

instance : Caps seen depth identifier depth := by
  unfold identifier
  infer_instance

instance : Caps seen depth identifierAfterDot depth := by
  unfold identifierAfterDot
  infer_instance

/-- A choice by a dot and a name. -/
theorem dotName {yes no : Rule β} [chosen : Caps (some (.punct .dot)) depth yes later]
    [other : Caps none depth no later] :
    Caps seen depth (dotNameFollows >>= fun found => if found = true then yes else no) later := by
  refine ⟨fun {spot place} capped _ => ?_⟩
  have same : place.dotted = spot.dotted := by
    have dots : place.kind = .punct .dot ↔ spot.kind = .punct .dot :=
      TokenKind.Told.told capped
    rw [Spot.dotted, Spot.dotted, beq_eq_decide, beq_eq_decide, decide_eq_decide.mpr dots]
    rcases capped.kind_or 1 with same | ⟨ended, closes⟩
    · rw [same]
    · rw [ended, closes]
      rfl
  refine .step (on_dotNameFollows spot) (same ▸ on_dotNameFollows place) (.ite (fun found => ?_) ?_)
  · have dot : spot.kind = .punct .dot := by simp_all [Spot.dotted]
    exact chosen.capped capped (dot ▸ .some (by simp [dot]))
  · exact fun _ => other.at_ capped

instance : Caps seen depth tableName depth := by
  unfold tableName
  exact behind fun first => dotName

instance : Caps seen depth columnRef depth := by
  unfold columnRef
  refine behind fun first => ?_
  have second : ∀ second, Caps none depth (dotNameFollows >>= fun found =>
      if found = true then do
        let _ ← Rule.advance
        let third ← identifierAfterDot
        return ⟨some first, some second, third, first.span.merge third.span⟩
      else (return ⟨none, some first, second, first.span.merge second.span⟩ : Rule ColumnRef))
      depth :=
    fun second => dotName
  exact dotName

instance : Caps seen (depth + 1) restOfIdents depth := by
  unfold restOfIdents
  infer_instance

instance : Caps seen depth identsInParens depth := by
  unfold identsInParens
  infer_instance

/-! ### Constants -/

instance (value : String) : Caps seen depth (nextPart value) depth := by
  unfold nextPart
  refine byKind (Pure.pure none) rfl rfl fun kind => ?_
  split <;> infer_instance

instance (kind : TokenKind) : Caps (some kind) depth stringRun depth := by
  rw [stringRun_eq]
  infer_instance

instance : Caps (some (.punct .question)) depth placeholder depth := by
  unfold placeholder
  infer_instance

instance (kind : TokenKind) [kind.Flat] (value : Literal) :
    Caps (some kind) depth (tokenLiteral value) depth := by
  unfold tokenLiteral
  infer_instance

instance : Caps seen depth introducedValue depth := by
  unfold introducedValue
  refine byKind (Rule.fail ["string literal"]) rfl rfl fun kind => ?_
  split <;> infer_instance

instance (kind : TokenKind) [kind.Flat] (charset : String) :
    Caps (some kind) depth (introducedLiteral charset) depth := by
  unfold introducedLiteral
  infer_instance

instance : Caps seen depth odbcLiteral depth := by
  unfold odbcLiteral
  refine behind fun start => behind fun kind => ?_
  exact byKind (Rule.fail ["string literal"]) rfl rfl fun next => inferInstance

instance (kind : TokenKind) [kind.Flat] : Caps (some kind) depth currentTimestamp depth := by
  unfold currentTimestamp
  refine behind fun start => ?_
  exact ifEaten _ (depth + 1)

instance : Caps seen depth typeSize depth := by
  unfold typeSize
  refine byKind (Rule.fail ["type length"]) rfl rfl fun kind => ?_
  split <;> infer_instance

instance : Caps seen depth typeSizes depth := by
  unfold typeSizes
  dsimp only
  exact ifEaten _ (depth + 1)

instance (words : List String) : Caps seen (depth + 1) (nextTypeWord words) (depth + 1) := by
  unfold nextTypeWord
  refine byKind (Pure.pure none) rfl rfl fun kind => ?_
  cases kind <;> dsimp only [typeWord?] <;> infer_instance

instance : Caps seen (depth + 1) typeName (depth + 1) := by
  rw [typeName_eq]
  infer_instance

end Caps

end Rule

end SqlDml

/-! ## Expressions -/

namespace SqlDml

/-- Rules of a nesting level that do the same in front of one more closing parenthesis.  Queries and
table references are read only where a parenthesis is open. -/
class InnerRules.Caps (inner : InnerRules) : Prop where
  operand : ∀ (depth power : Nat), Rule.Caps none depth (inner.operand power) depth
  query : ∀ depth : Nat, Rule.Caps none (depth + 1) inner.query (depth + 1)
  tableInParens : ∀ depth : Nat, Rule.Caps none (depth + 1) inner.tableInParens (depth + 1)

namespace Rule

open Comparison (Looking)

set_option synthInstance.maxSize 3000

variable {seen : Option TokenKind} {depth later : Nat} {inner : InnerRules} [inner.Lawful]
  [caps : inner.Caps]

/-- The words of `IS` are no parentheses. -/
theorem flat_of_isValue? {kind : TokenKind} {value : IsValue} (found : isValue? kind = some value) :
    kind.Flat := by
  unfold isValue? at found
  split at found <;> first | infer_instance | cases found

/-- Neither are the words of quantifiers. -/
theorem flat_of_quantifier? {kind : TokenKind} {quantifier : Quantifier}
    (found : quantifier? kind = some quantifier) : kind.Flat := by
  unfold quantifier? at found
  split at found <;> first | infer_instance | cases found

namespace Caps

instance (power : Nat) : Caps seen depth (inner.operand power) depth :=
  have := caps.operand depth power
  inferInstance

instance : Caps seen (depth + 1) inner.query (depth + 1) :=
  have := caps.query depth
  inferInstance

instance : Caps seen (depth + 1) inner.tableInParens (depth + 1) :=
  have := caps.tableInParens depth
  inferInstance

instance : Caps seen depth inner.expr depth := by
  unfold InnerRules.expr
  infer_instance

instance : Caps seen depth (exprs inner) depth := by
  unfold exprs
  infer_instance

instance : Caps seen depth (queryInParens inner) depth := by
  unfold queryInParens
  infer_instance

instance : Caps seen depth (subquery inner) depth := by
  unfold subquery
  infer_instance

/-! ### Behind an operand -/

instance (left : Expr) : Caps seen depth (isTest left) depth := by
  unfold isTest
  refine behind fun negated => ?_
  refine byKind (Rule.fail ["NULL", "TRUE", "FALSE", "UNKNOWN"]) rfl rfl fun kind => ?_
  split
  · next found =>
      have flat := flat_of_isValue? found
      infer_instance
  · infer_instance

instance : Caps seen (depth + 1) (queryBeforeParen inner) (depth + 1) := by
  unfold queryBeforeParen
  infer_instance

instance : Caps seen (depth + 1) (inSet inner) (depth + 1) := by
  unfold inSet
  refine behind fun kind => ?_
  split
  · infer_instance
  · infer_instance
  · refine behind fun found => ?_
    split <;> infer_instance
  · infer_instance

instance (left : Expr) (negated : Bool) : Caps seen depth (inTest inner left negated) depth := by
  unfold inTest
  infer_instance

instance (left : Expr) (negated : Bool) :
    Caps seen depth (betweenTest inner left negated) depth := by
  unfold betweenTest
  infer_instance

instance (op : LikeOp) : Caps seen depth (escapeOperand inner op) depth := by
  unfold escapeOperand
  split <;> infer_instance

instance (left : Expr) (op : LikeOp) (negated : Bool) :
    Caps seen depth (likeTest inner left op negated) depth := by
  unfold likeTest
  infer_instance

instance : Caps seen depth collationName depth := by
  unfold collationName
  refine byToken (name true) (fun token ends => ?_) fun token => ?_
  · rcases ends with ends | ends <;> simp only [ends]
  · split
    · next kind => rw [kind]; infer_instance
    · infer_instance

instance (left : Expr) : Caps seen depth (collate left) depth := by
  unfold collate
  infer_instance

theorem queryBehind_eq {spot place : Spot} (capped : spot.Capped depth place) :
    Steady.queryBehind place = Steady.queryBehind spot := by
  unfold Steady.queryBehind
  rcases capped.kind_or 1 with first | ⟨ended, closes⟩
  · rcases capped.kind_or 2 with second | ⟨ended, closes⟩
    · rw [first, second]
    · rw [first, ended, closes]
      rfl
  · rw [ended, closes]
    rfl

instance : Caps seen depth (subqueryFollows 1) depth :=
  of_stays _ Steady.on_subqueryFollows fun capped _ => queryBehind_eq capped

instance (left : Expr) (op : BinaryOp) : Caps seen depth (comparison inner left op) depth := by
  unfold comparison
  refine byKind
    (inner.operand (op.power + 1) >>= fun right => Pure.pure (Expr.ofOperands left op right))
    rfl rfl fun kind => ?_
  split
  · infer_instance
  · next found =>
      have flat := flat_of_quantifier? found
      have follows : Looking (subqueryFollows 1) :=
        ⟨fun spot => ⟨_, Steady.on_subqueryFollows spot⟩⟩
      exact look fun follows => inferInstance

/-! ### Continuations -/

theorem continuation?_eq_of_capped {spot place : Spot} (capped : spot.Capped depth place) :
    place.continuation? = spot.continuation? := by
  unfold Spot.continuation?
  rw [capped.pipes]
  have second : Continuation.afterNot? (place.token 1).kind =
        Continuation.afterNot? (spot.token 1).kind ∧
      Continuation.afterSounds? (place.token 1).kind =
        Continuation.afterSounds? (spot.token 1).kind := by
    rcases capped.kind_or 1 with same | ⟨ended, closes⟩
    · rw [same]
      exact ⟨rfl, rfl⟩
    · rw [ended, closes]
      exact ⟨rfl, rfl⟩
  rw [second.1, second.2]
  rcases capped.kind_or 0 with same | ⟨ended, closes⟩
  · rw [Spot.kind, Spot.kind, same]
  · rw [Spot.kind, Spot.kind, ended, closes]
    rfl

theorem behindContinuation_capped {spot place : Spot} {continuation : Continuation}
    (capped : spot.Capped depth place) (found : spot.continuation? = some continuation) :
    (behindContinuation continuation spot).Capped depth
      (behindContinuation continuation place) := by
  obtain ⟨bare, _, _, second⟩ := Spot.bare_of_continuation? found
  have first := capped.next bare.inner (depthBehind_of_bare bare depth)
  unfold behindContinuation
  split
  · next wide =>
      have flat := second wide
      exact first.next flat.inner (depthBehind_of_bare flat.bare depth)
  · exact first

theorem continueWith_capped (left : Expr) {spot place : Spot} {continuation : Continuation}
    (capped : spot.Capped depth place) (found : spot.continuation? = some continuation) :
    (continueWith inner left continuation).CappedAt depth spot place := by
  unfold continueWith
  refine .step (on_skipContinuation _ _) (on_skipContinuation _ _) ?_
  have behind := behindContinuation_capped capped found
  cases continuation <;> exact at_ behind

/-- A choice by what continues an operand. -/
theorem byContinuation {α : Type} {next : Option Continuation → Rule α}
    (goes : ∀ {spot place : Spot} {continuation : Continuation}, spot.Capped depth place →
      spot.continuation? = some continuation →
      (next (some continuation)).CappedAt depth spot place)
    (stops : Caps none depth (next none) depth) :
    Caps seen depth (continuation? >>= next) depth := by
  refine ⟨fun {spot place} capped _ => ?_⟩
  have same := continuation?_eq_of_capped capped
  refine .step (on_continuation? spot) (same ▸ on_continuation? place) ?_
  cases found : spot.continuation? with
  | none => exact stops.at_ capped
  | some continuation => exact goes capped found

instance (power : Nat) (left : Expr) : Caps seen depth (extendOperand inner power left) depth := by
  unfold extendOperand
  refine behind fun collates => ?_
  split
  · infer_instance
  · refine byContinuation (fun capped found => ?_) (pure none)
    refine .ite (fun _ => ?_) fun _ => .pure capped
    exact .bind (continueWith_capped left capped found) fun _ _ _ _ behind => .pure behind

/-! ### Calls, casts and cases -/

instance (function : Ident) : Caps seen depth (callArguments inner function) depth := by
  unfold callArguments
  dsimp only
  infer_instance

instance : Caps seen depth (keywordCall inner) depth := by
  unfold keywordCall
  infer_instance

instance : Caps seen depth (nameExpr inner) depth := by
  unfold nameExpr
  infer_instance

instance : Caps seen depth (castExpr inner) depth := by
  unfold castExpr
  infer_instance

instance (whens : List (Expr × Expr)) : Caps seen depth (nextWhen inner whens) depth := by
  unfold nextWhen
  infer_instance

instance : Caps seen depth (whenBranches inner) depth := by
  rw [whenBranches_eq]
  infer_instance

instance : Caps seen depth (caseExpr inner) depth := by
  unfold caseExpr
  dsimp only
  infer_instance

/-! ### In front -/

instance (kind : TokenKind) [kind.Counts depth depth] (op : UnaryOp) (power : Nat) :
    Caps (some kind) depth (unaryExpr inner op power) depth := by
  unfold unaryExpr
  infer_instance

instance (word : Keyword) : Caps (some (.keyword word)) depth (existsExpr inner) depth := by
  unfold existsExpr
  infer_instance

instance (word : Keyword) : Caps (some (.keyword word)) depth (rowExpr inner) depth := by
  unfold rowExpr
  infer_instance

instance : Caps seen depth (exprInParens inner) depth := by
  unfold exprInParens
  infer_instance

instance : Caps seen depth (parenExpr inner) depth := by
  unfold parenExpr
  refine byAhead 1 (exprInParens inner) rfl rfl fun {spot place} capped _ _ => ?_
  split
  · exact at_ capped
  · exact at_ capped
  · have tried : (Rule.attempt (subquery inner)).CappedAt depth spot place := at_ capped
    refine tried.bind fun found _ _ _ behind => ?_
    split <;> exact at_ behind
  · exact at_ capped

instance (word : Keyword) : Caps seen depth (keywordExpr inner word) depth := by
  unfold keywordExpr
  dsimp only
  infer_instance

instance (word keyword : Keyword) (kind : TemporalKind) :
    Caps (some (.keyword keyword)) depth (temporalExpr inner word kind) depth := by
  unfold temporalExpr
  refine byAhead 1 (keywordExpr inner word) rfl rfl fun {spot place} capped shows _ => ?_
  refine .ite (fun string => ?_) fun _ => at_ capped
  obtain ⟨first, going⟩ := shows _ rfl
  obtain ⟨part, quote, second⟩ := TokenKind.string_of_isString string
  unfold temporalLiteral
  have behind : spot.kind.depthBehind depth = some depth := by rw [first]; rfl
  refine .advance capped going behind fun capped => ?_
  have next : spot.next.kind = .string part quote := by rw [Spot.kind, Spot.next_token, second]
  have shows : spot.next.Shows (some (.string part quote)) := next ▸ .some (by simp [next])
  exact Caps.capped capped shows

/-- A parenthesis that opens a call is closed by a token in common. -/
instance (kind : TokenKind) [flat : kind.Flat] :
    Caps (some kind) depth (currentTimestampExpr inner) depth := by
  refine ⟨fun {spot place} capped shows => ?_⟩
  unfold currentTimestampExpr
  refine .ifAhead 1 _ capped (fun called => ?_) (Caps.capped capped shows)
  obtain ⟨rfl, going⟩ := shows _ rfl
  have first := capped.next going (depthBehind_of_bare flat.bare depth)
  have opens : spot.next.kind = .punct .leftParen := by rw [Spot.kind, Spot.next_token, called]
  have second : spot.next.next.Capped (depth + 1) place.next.next :=
    first.next (by simp [opens]) (by rw [opens]; rfl)
  have third : (place.token 2).kind = (spot.token 2).kind :=
    (capped.kind_or 2).resolve_right fun edge => second.inner (by
      rw [Spot.kind, Spot.next_token, Spot.next_token, edge.1])
  refine .step (on_aheadIs spot 2 _) (third ▸ on_aheadIs place 2 _) (.ite ?_ ?_) <;>
    exact fun _ => Caps.capped capped shows

instance (word : Keyword) : Caps (some (.keyword word)) depth (defaultExpr inner) depth := by
  unfold defaultExpr
  exact look fun called => inferInstance

instance (kind : TokenKind) [kind.Flat] (text : String) :
    Caps (some kind) depth (wordExpr inner text) depth := by
  unfold wordExpr
  refine byAhead 1 (nameExpr inner) rfl rfl fun {spot place} capped shows _ => ?_
  split
  · split
    · exact Caps.capped capped shows
    · exact at_ capped
  · exact at_ capped

instance : Caps seen depth (primaryExpr inner) depth := by
  unfold primaryExpr
  refine byKind (Rule.fail ["expression"]) rfl rfl fun kind => ?_
  split
  case h_28 => exact look fun called => inferInstance
  all_goals infer_instance

instance (power : Nat) : Caps seen depth (operandBody inner power) depth := by
  unfold operandBody
  infer_instance

end Caps

end Rule

end SqlDml
