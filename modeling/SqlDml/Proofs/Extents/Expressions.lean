import SqlDml.Proofs.Extents.Names
import SqlDml.Proofs.Reading.Expressions

/-!
Contract: expressions lie over the tokens that they are read from.

Owns:
- what follows an operand, and what stands in front of one;
- operands of any power, given the rules of the next nesting level.

Does not own: queries and tables.
-/

namespace SqlDml

/-- Rules for one nesting level deeper whose trees cover the tokens that they consume.  Of a query no
parentheses are left out. -/
structure InnerRules.Makes (inner : InnerRules) (origin : Spot) : Prop where
  lawful : inner.Lawful
  operand : ∀ power, (inner.operand power).Makes origin .expr
  exactQuery : ∀ spot, origin.Reaches spot → inner.query.Ensures spot fun tree later =>
    Made origin (.query tree) spot later ∧ tree.span = (spot.token 0).span.merge later.last
  tableInParens : inner.tableInParens.Makes origin .tableRef

theorem InnerRules.Makes.query {inner : InnerRules} {origin : Spot} (makes : inner.Makes origin) :
    inner.query.Makes origin .query :=
  fun spot reaches => (makes.exactQuery spot reaches).mono fun _ _ facts => facts.1

/-- The tokens that begin a continuation are no parentheses and no dots, and only an operator is a
dash. -/
theorem Spot.bare_of_continuation? {spot : Spot} {continuation : Continuation}
    (found : spot.continuation? = some continuation) :
    spot.kind.Bare ∧ spot.kind ≠ .punct .dot ∧
      (spot.kind = .punct .minus → continuation = .operator .subtract) ∧
      (continuation.width = 2 → spot.next.kind.Flat) := by
  have narrow : ∀ {concat : Bool} {kind : TokenKind},
      Continuation.ofToken? concat kind = some continuation → continuation.width = 1 := by
    intro concat kind known
    unfold Continuation.ofToken? at known
    split at known <;> cases known <;> rfl
  have second : spot.next.kind = (spot.token 1).kind := by rw [Spot.kind, Spot.next_token]
  unfold Spot.continuation? at found
  split at found
  · next kind =>
      have first := spot.flat_of_kind kind
      refine ⟨first.bare, first.notDot, fun dash => ?_, fun _ => ?_⟩
      · rw [kind] at dash
        cases dash
      · refine ⟨⟨?_, ?_, ?_, ?_⟩, ?_, ?_⟩ <;> intro wrong <;> rw [← second, wrong] at found <;>
          cases found
  · next kind =>
      have first := spot.flat_of_kind kind
      refine ⟨first.bare, first.notDot, fun dash => ?_, fun _ => ?_⟩
      · rw [kind] at dash
        cases dash
      · refine ⟨⟨?_, ?_, ?_, ?_⟩, ?_, ?_⟩ <;> intro wrong <;> rw [← second, wrong] at found <;>
          cases found
  · refine ⟨?_, ?_, fun dash => ?_, fun wide => ?_⟩
    · constructor <;> intro wrong <;> rw [wrong] at found <;> cases found
    · intro dot
      rw [dot] at found
      cases found
    · rw [dash] at found
      cases found
      rfl
    · rw [narrow found] at wide
      cases wide

namespace Rule

variable {origin : Spot} {inner : InnerRules} (makes : inner.Makes origin)

include makes

theorem expr_makes : inner.expr.Makes origin .expr := makes.operand 0

theorem exprs_places : (exprs inner).Places origin fun items => items.map .expr :=
  have := makes.lawful
  (expr_makes makes).commaSeparated

/-- A query in parentheses, with a span that ends with them. -/
theorem queryInParens_places {spot : Spot} (reaches : origin.Reaches spot) :
    (queryInParens inner).Ensures spot fun found later => ∃ span,
      Placed origin (some span) [.query found.1] spot 0 later ∧ found.2 = span.merge later.last := by
  unfold queryInParens
  refine .beginningParens reaches fun _ placed => ?_
  refine .placing placed makes.query.places fun query _ placed => ?_
  exact .closing placed fun _ placed => .pure ⟨_, placed, rfl⟩

theorem subquery_joins {spot : Spot} (reaches : origin.Reaches spot) :
    (subquery inner).Ensures spot fun expr later => Joined origin (.expr expr) spot later := by
  unfold subquery
  refine (queryInParens_places makes reaches).bind fun found later facts => .pure ?_
  obtain ⟨span, placed, same⟩ := facts
  exact placed.joined same rfl

/-! ### Behind an operand -/

section Continued

variable {left : Expr} {start spot : Spot}
  (before : Placed origin (some left.span) [.expr left] start 0 spot)

include before

theorem comparison_joins (op : BinaryOp) :
    (comparison inner left op).Ensures spot fun expr later => Joined origin (.expr expr) start later := by
  have plain : Ensures (do return Expr.ofOperands left op (← inner.operand (op.power + 1))) spot
      fun expr later => Joined origin (.expr expr) start later :=
    .making before (makes.operand _) fun right later _ made => .pure (before.joined_to made rfl rfl)
  unfold comparison
  refine .step (on_peek spot) ?_
  split
  · exact plain
  · next quantifier found =>
      have word : spot.kind.Flat := by
        refine ⟨⟨?_, ?_, ?_, ?_⟩, ?_, ?_⟩ <;> intro wrong <;> rw [wrong] at found <;> cases found
      refine (subqueryFollows_stays 1 spot).bind fun follows _ stays => ?_
      subst stays
      refine .ite (fun _ => ?_) fun _ => plain
      refine .taking before word fun placed => .opening placed fun _ placed => ?_
      refine .placing placed makes.query.places fun query _ placed => ?_
      exact .closing placed fun _ placed => .pure (placed.joined rfl rfl)

omit makes in
theorem isTest_joins :
    (isTest left).Ensures spot fun expr later => Joined origin (.expr expr) start later := by
  unfold isTest
  refine .passing before fun negated middle placed => .step (on_peek middle) ?_
  split
  · next value found =>
      have word : middle.kind.Flat := by
        refine ⟨⟨?_, ?_, ?_, ?_⟩, ?_, ?_⟩ <;> intro wrong <;> rw [wrong] at found <;> cases found
      refine .taking placed word fun placed => .pure (placed.joined ?_ rfl)
      rw [Spot.next_last_of_inner word.inner]
      rfl
  · exact .fail

omit before in
theorem inSet_places : (inSet inner).Places origin InSet.parts := by
  intro spot reaches
  have query : Ensures (do return InSet.subquery (← inner.query)) spot
      fun set later => Placed origin none set.parts spot 0 later :=
    .placing (.nothing reaches) makes.query.places fun query later placed => .pure placed
  have items : Ensures (do return InSet.list (← exprs inner)) spot
      fun set later => Placed origin none set.parts spot 0 later :=
    .placing (.nothing reaches) (exprs_places makes) fun items later placed => .pure placed
  have beforeParen : (queryBeforeParen inner).Ensures spot
      fun query later => Placed origin none [.query query] spot 0 later := by
    unfold queryBeforeParen
    refine .placing (.nothing reaches) makes.query.places fun query middle placed => ?_
    exact .nextIs (fun _ => .pure placed) fun _ => .fail
  have := makes.lawful
  unfold inSet
  refine .step (on_peek spot) ?_
  split
  · exact query
  · exact query
  · exact .attempt beforeParen (fun query later placed => .pure placed) items
  · exact items

theorem inTest_joins (negated : Bool) :
    (inTest inner left negated).Ensures spot fun expr later =>
      Joined origin (.expr expr) start later := by
  unfold inTest
  refine .opening before fun _ placed => ?_
  refine .placing placed (inSet_places makes) fun set _ placed => ?_
  exact .closing placed fun _ placed => .pure (placed.joined rfl rfl)

theorem betweenTest_joins (negated : Bool) :
    (betweenTest inner left negated).Ensures spot fun expr later =>
      Joined origin (.expr expr) start later := by
  unfold betweenTest
  refine .making before (makes.operand _) fun low _ placed _ => ?_
  refine .requiring placed fun placed => ?_
  exact .making placed (makes.operand _) fun high later _ made =>
    .pure (placed.joined_to made rfl rfl)

omit before in
/-- An escape stands behind a word. -/
theorem escapeOperand_makes (op : LikeOp) (reaches : origin.Reaches spot) :
    (escapeOperand inner op).Ensures spot fun escape later =>
      match escape with
      | some expr =>
          ∃ behind, Placed origin none [] spot 0 behind ∧ Made origin (.expr expr) behind later
      | none => later = spot := by
  unfold escapeOperand
  split
  · exact .pure rfl
  · refine .eat (fun found => ?_) fun _ => .pure rfl
    have placed := (Placed.nothing reaches).past (spot.flat_of_kind found)
    exact .making placed (makes.operand _) fun escape later _ made => .pure ⟨_, placed, made⟩

theorem likeTest_joins (op : LikeOp) (negated : Bool) :
    (likeTest inner left op negated).Ensures spot fun expr later =>
      Joined origin (.expr expr) start later := by
  unfold likeTest
  refine .making before (makes.operand _) fun pattern middle placed made => ?_
  refine (escapeOperand_makes makes op placed.reaches_spot).bind fun escape later facts => .pure ?_
  cases escape with
  | none =>
      obtain rfl : later = middle := facts
      exact before.joined_to made rfl rfl
  | some expr =>
      obtain ⟨behind, passed, final⟩ := facts
      exact (placed.append passed).joined_to final rfl rfl

omit makes in
theorem collate_joins : (collate left).Ensures spot fun expr later =>
    Joined origin (.expr expr) start later := by
  unfold collate
  refine .requiring before fun placed => ?_
  refine (collationName_makes placed.reaches_spot).bind fun name later facts => .pure ?_
  obtain ⟨made, last⟩ := facts
  exact (placed.append made.placed).joined (by rw [last]; rfl) rfl

theorem continueWith_joins {continuation : Continuation}
    (found : spot.continuation? = some continuation) :
    (continueWith inner left continuation).Ensures spot fun expr later =>
      Joined origin (.expr expr) start later := by
  obtain ⟨bare, notDot, dash, second⟩ := Spot.bare_of_continuation? found
  have behind : (∀ op, continuation ≠ .operator op) →
      Placed origin (some left.span) [.expr left] start 0 (behindContinuation continuation spot) := by
    intro other
    have first : spot.kind.Flat := ⟨bare, fun minus => other _ (dash minus), notDot⟩
    unfold behindContinuation
    split
    · next wide => exact (before.past first).past (second wide)
    · exact before.past first
  unfold continueWith
  refine .step (on_skipContinuation continuation spot) ?_
  cases continuation with
  | operator op =>
      exact (makes.operand _ _ (before.reaches_spot.next bare.inner)).bind fun right later made =>
        .pure (before.joined_behind bare made rfl rfl)
  | comparison op => exact comparison_joins makes (behind nofun) op
  | is => exact isTest_joins (behind nofun)
  | isIn negated => exact inTest_joins makes (behind nofun) negated
  | between negated => exact betweenTest_joins makes (behind nofun) negated
  | like op negated => exact likeTest_joins makes (behind nofun) op negated
  | soundsLike =>
      exact .making (behind nofun) (makes.operand _) fun right later _ made =>
        .pure ((behind nofun).joined_to made rfl rfl)

theorem extendOperand_joins (power : Nat) :
    (extendOperand inner power left).Ensures spot fun found later =>
      match found with
      | some expr => Joined origin (.expr expr) start later
      | none => later = spot := by
  unfold extendOperand
  refine .nextIs (fun _ => .ite (fun _ => ?_) fun _ => .pure rfl) fun _ => ?_
  · exact (collate_joins before).bind fun expr later joined => .pure joined
  · refine .step (on_continuation? spot) ?_
    split
    · next continuation found =>
        refine .ite (fun _ => ?_) fun _ => .pure rfl
        exact (continueWith_joins makes before found).bind fun expr later joined => .pure joined
    · exact .pure rfl

end Continued

/-! ### Calls, casts and cases -/

theorem callArguments_joins {function : Ident} {start spot : Spot}
    (before : Made origin (.ident function) start spot) :
    (callArguments inner function).Ensures spot fun expr later =>
      Joined origin (.expr expr) start later := by
  have closing : ∀ (items : List Expr) (distinct : Bool) (spot : Spot),
      Placed origin (some function.span) (.ident function :: items.map .expr) start 1 spot →
      Ensures (do
        let stop ← expectMark .rightParen
        return Expr.call function (.list items) distinct (function.span.merge stop)) spot
        fun expr later => Joined origin (.expr expr) start later :=
    fun items distinct spot placed => .closing placed fun _ placed => .pure (placed.joined rfl rfl)
  unfold callArguments
  refine .opening before.begin fun _ placed => .eat (fun star => ?_) fun _ => ?_
  · exact .closing (placed.past (Spot.flat_of_kind star)) fun _ placed =>
      .pure (placed.joined rfl rfl)
  · refine .passing placed fun distinct behind placed => ?_
    have listed : ∀ (noArguments : Bool) (spot : Spot),
        Placed origin (some function.span) [.ident function] start 1 spot →
        Ensures (if noArguments = true then do
            let items ← pure []
            let stop ← expectMark .rightParen
            return Expr.call function (.list items) distinct (function.span.merge stop)
          else do
            let items ← exprs inner
            let stop ← expectMark .rightParen
            return Expr.call function (.list items) distinct (function.span.merge stop)) spot
          fun expr later => Joined origin (.expr expr) start later := by
      intro noArguments spot placed
      refine .ite (fun _ => ?_) fun _ => ?_
      · exact .step (on_pure [] spot) (closing [] distinct spot placed)
      · exact .placing placed (exprs_places makes) fun items later placed =>
          closing items distinct later placed
    refine .ite (fun _ => ?_) fun _ => ?_
    · exact .passing placed fun noArguments last placed => listed noArguments last placed
    · exact .passing placed fun noArguments last placed => listed noArguments last placed

section Operand

variable {spot : Spot} (reaches : origin.Reaches spot)

include reaches

theorem keywordCall_joins :
    (keywordCall inner).Ensures spot fun expr later => Joined origin (.expr expr) spot later := by
  unfold keywordCall
  exact (name_makes true reaches).bind fun function middle facts => callArguments_joins makes facts.1

theorem nameExpr_joins :
    (nameExpr inner).Ensures spot fun expr later => Joined origin (.expr expr) spot later := by
  unfold nameExpr
  refine .aheadIs (fun _ => ?_) fun _ => ?_
  · exact (identifier_makes spot reaches).bind fun function middle made =>
      callArguments_joins makes made
  · exact (columnRef_joins reaches).bind fun ref later joined =>
      .pure (joined.around nofun rfl rfl)

theorem castExpr_joins :
    (castExpr inner).Ensures spot fun expr later => Joined origin (.expr expr) spot later := by
  unfold castExpr
  refine .beginning reaches fun placed => .opening placed fun _ placed => ?_
  refine .placing placed (expr_makes makes).places fun operand _ placed => ?_
  refine .requiring placed fun placed => .passing placed fun target _ placed => ?_
  exact .closing placed fun _ placed => .pure (placed.joined rfl rfl)

omit reaches in
theorem whenBranches_places :
    (whenBranches inner).Places origin fun whens => whens.flatMap Expr.branchParts := by
  have steps : ∀ whens start spot,
      Placed origin none (whens.reverse.flatMap Expr.branchParts) start 0 spot →
      (nextWhen inner whens).Ensures spot fun found later =>
        Placed origin none ((found.getD whens).reverse.flatMap Expr.branchParts) start 0 later := by
    intro whens start spot placed
    unfold nextWhen
    refine .eat (fun found => ?_) fun _ => .pure placed
    refine .placing (placed.past (spot.flat_of_kind found)) (expr_makes makes).places ?_
    refine fun condition _ placed => .requiring placed fun placed => ?_
    refine .placing placed (expr_makes makes).places fun result later placed => ?_
    exact .pure (placed.congr (by simp [Expr.branchParts]))
  have := makes.lawful
  rw [whenBranches_eq]
  intro spot reaches
  refine .placing (.nothing reaches) (.whileSome rfl steps) fun whens later placed => ?_
  exact .pure placed

omit reaches in
theorem optionalExpr_places :
    Places (some <$> inner.expr) origin fun found => found.toList.map .expr := by
  intro spot reaches
  exact (expr_makes makes spot reaches).map fun expr later made => made.placed

theorem caseExpr_joins :
    (caseExpr inner).Ensures spot fun expr later => Joined origin (.expr expr) spot later := by
  have closing : ∀ (start : Span) (operand : Option Expr) (whens : List (Expr × Expr))
      (otherwise : Option Expr) (later : Spot),
      Placed origin (some start) (operand.toList.map .expr ++ whens.flatMap Expr.branchParts ++
        otherwise.toList.map .expr) spot 0 later →
      Ensures (do
        let stop ← expectWord .END
        return Expr.case operand whens otherwise (start.merge stop)) later
        fun expr later => Joined origin (.expr expr) spot later :=
    fun start operand whens otherwise later placed => .requiring placed fun placed =>
      .pure (placed.joined rfl rfl)
  have branches : ∀ (start : Span) (operand : Option Expr) (middle : Spot),
      Placed origin (some start) (operand.toList.map .expr) spot 0 middle →
      Ensures (do
        let whens ← whenBranches inner
        if whens.isEmpty then
          fail [Keyword.WHEN.spelling]
        else
          let otherwise ← if ← eatWord .ELSE then some <$> inner.expr else pure none
          let stop ← expectWord .END
          return Expr.case operand whens otherwise (start.merge stop)) middle
        fun expr later => Joined origin (.expr expr) spot later := by
    intro start operand middle placed
    refine .placing placed (whenBranches_places makes) fun whens behind placed => ?_
    refine .ite (fun _ => .fail) fun _ => .eat (fun found => ?_) fun _ => ?_
    · refine .placing (placed.past (behind.flat_of_kind found)) (optionalExpr_places makes) ?_
      exact fun otherwise later placed => closing start operand whens otherwise later placed
    · refine .step (on_pure none behind) (closing start operand whens none behind ?_)
      exact placed.congr (by simp)
  unfold caseExpr
  refine .beginning reaches fun placed => .nextIs (fun _ => ?_) fun _ => ?_
  · exact .step (on_pure none _) (branches _ none _ placed)
  · exact .placing placed (optionalExpr_places makes) fun operand later placed =>
      branches _ operand later placed

/-! ### In front of an operand -/

theorem unaryExpr_joins (bare : spot.kind.Bare) (op : UnaryOp) (power : Nat) :
    (unaryExpr inner op power).Ensures spot fun expr later =>
      Joined origin (.expr expr) spot later := by
  unfold unaryExpr
  refine .step (on_advance spot) ?_
  exact (makes.operand power _ (reaches.next bare.inner)).bind fun operand later made =>
    .pure (made.joined_behind reaches bare rfl rfl)

section Opening

variable (flat : spot.kind.Flat)

include flat

theorem existsExpr_joins :
    (existsExpr inner).Ensures spot fun expr later => Joined origin (.expr expr) spot later := by
  unfold existsExpr
  refine .beginningWith reaches flat fun placed => .opening placed fun _ placed => ?_
  refine .placing placed makes.query.places fun query _ placed => ?_
  exact .closing placed fun _ placed => .pure (placed.joined rfl rfl)

theorem rowExpr_joins :
    (rowExpr inner).Ensures spot fun expr later => Joined origin (.expr expr) spot later := by
  unfold rowExpr
  refine .beginningWith reaches flat fun placed => .opening placed fun _ placed => ?_
  refine .placing placed (exprs_places makes) fun items _ placed => ?_
  exact .closing placed fun _ placed => .pure (placed.joined rfl rfl)

end Opening

/-- Parentheses around one expression leave no trace in the tree. -/
theorem exprInParens_makes :
    (exprInParens inner).Ensures spot fun expr later =>
      Joined origin (.expr expr) spot later ∨ Made origin (.expr expr) spot later := by
  unfold exprInParens
  refine .beginningParens reaches fun opened placed => ?_
  refine .making placed (expr_makes makes) fun first middle placed made => .eat (fun comma => ?_) ?_
  · refine .placing (placed.past (middle.flat_of_kind comma)) (exprs_places makes) ?_
    refine fun others _ placed => .closing placed fun _ placed => .pure (.inl ?_)
    exact placed.joined rfl rfl
  · exact fun _ => .closing placed fun closed _ => .pure (.inr (.parens reaches opened made closed))

theorem parenExpr_makes :
    (parenExpr inner).Ensures spot fun expr later =>
      Joined origin (.expr expr) spot later ∨ Made origin (.expr expr) spot later := by
  have := makes.lawful
  have subquery : (subquery inner).Ensures spot fun expr later =>
      Joined origin (.expr expr) spot later ∨ Made origin (.expr expr) spot later :=
    (subquery_joins makes reaches).mono fun _ _ joined => .inl joined
  unfold parenExpr
  refine .step (on_peekAhead spot 1) ?_
  split
  · exact subquery
  · exact subquery
  · refine .attempt subquery (fun expr later facts => .pure facts) ?_
    exact exprInParens_makes makes reaches
  · exact exprInParens_makes makes reaches

theorem keywordExpr_joins (word : Keyword) :
    (keywordExpr inner word).Ensures spot fun expr later =>
      Joined origin (.expr expr) spot later := by
  have asName : Ensures (if word.isNonreserved then nameExpr inner else fail ["expression"]) spot
      fun expr later => Joined origin (.expr expr) spot later :=
    .ite (fun _ => nameExpr_joins makes reaches) fun _ => .fail
  unfold keywordExpr
  refine .ite (fun _ => .aheadIs (fun _ => ?_) fun _ => asName) fun _ => asName
  exact keywordCall_joins makes reaches

theorem temporalExpr_joins (flat : spot.kind.Flat) (word : Keyword) (kind : TemporalKind) :
    (temporalExpr inner word kind).Ensures spot fun expr later =>
      Joined origin (.expr expr) spot later := by
  unfold temporalExpr
  refine .step (on_peekAhead spot 1) (.ite (fun string => ?_) fun _ => ?_)
  · exact temporalLiteral_joins reaches kind flat string
  · exact keywordExpr_joins makes reaches word

theorem currentTimestampExpr_joins (flat : spot.kind.Flat) :
    (currentTimestampExpr inner).Ensures spot fun expr later =>
      Joined origin (.expr expr) spot later := by
  unfold currentTimestampExpr
  refine .aheadIs (fun _ => .aheadIs (fun _ => ?_) fun _ => ?_) fun _ => ?_
  · exact currentTimestamp_joins reaches flat
  · exact keywordCall_joins makes reaches
  · exact currentTimestamp_joins reaches flat

theorem defaultExpr_joins (flat : spot.kind.Flat) :
    (defaultExpr inner).Ensures spot fun expr later => Joined origin (.expr expr) spot later := by
  unfold defaultExpr
  refine .aheadIs (fun _ => keywordExpr_joins makes reaches _) fun _ => ?_
  exact .step (on_advance spot) (.pure (Joined.token reaches flat rfl rfl))

theorem wordExpr_joins (flat : spot.kind.Flat) (text : String) :
    (wordExpr inner text).Ensures spot fun expr later => Joined origin (.expr expr) spot later := by
  unfold wordExpr
  refine .step (on_peekAhead spot 1) (.ite (fun _ => ?_) fun _ => nameExpr_joins makes reaches)
  split
  · next charset _ => exact introducedLiteral_joins reaches charset flat
  · exact nameExpr_joins makes reaches

/-- An operand is complete, or it stands in parentheses. -/
theorem primaryExpr_makes :
    (primaryExpr inner).Ensures spot fun expr later =>
      Joined origin (.expr expr) spot later ∨ Made origin (.expr expr) spot later := by
  have whole : ∀ {rule : Rule Expr},
      (rule.Ensures spot fun expr later => Joined origin (.expr expr) spot later) →
      rule.Ensures spot fun expr later =>
        Joined origin (.expr expr) spot later ∨ Made origin (.expr expr) spot later :=
    fun ensures => ensures.mono fun _ _ joined => .inl joined
  have bare : ∀ {kind : TokenKind}, spot.kind = kind →
      kind ∉ [.endOfInput, .punct .leftParen, .punct .rightParen, .punct .semicolon] →
      spot.kind.Bare := by
    intro kind same other
    simp only [List.mem_cons, List.not_mem_nil, or_false, not_or] at other
    obtain ⟨inner, notOpening, notClosing, notEnding⟩ := other
    exact same ▸ ⟨inner, notOpening, notClosing, notEnding⟩
  have single : ∀ {kind : TokenKind}, spot.kind = kind →
      kind ∉ [.endOfInput, .punct .leftParen, .punct .rightParen, .punct .semicolon] →
      kind ≠ .punct .minus → kind ≠ .punct .dot → spot.kind.Flat :=
    fun same other notDash notDot => ⟨bare same other, same ▸ notDash, same ▸ notDot⟩
  have literal : ∀ value, spot.kind.Flat → (tokenLiteral value).Ensures spot fun expr later =>
      Joined origin (.expr expr) spot later ∨ Made origin (.expr expr) spot later :=
    fun value flat => whole (tokenLiteral_joins reaches value flat)
  have unary : ∀ op power, spot.kind.Bare →
      (unaryExpr inner op power).Ensures spot fun expr later =>
        Joined origin (.expr expr) spot later ∨ Made origin (.expr expr) spot later :=
    fun op power bare => whole (unaryExpr_joins makes reaches bare op power)
  have word : ∀ {word : Keyword}, spot.kind = .keyword word → spot.kind.Flat :=
    fun found => spot.flat_of_kind found
  unfold primaryExpr
  refine .step (on_peek spot) ?_
  split
  · next kind => exact literal _ (single kind (by simp) (by simp) (by simp))
  · next kind => exact literal _ (single kind (by simp) (by simp) (by simp))
  · next kind =>
      refine (stringRun_covers reaches (by rw [kind]; rfl)).bind fun found later facts => ?_
      obtain ⟨tokens, through, balanced, clean, covers⟩ := facts
      exact .pure (.inl (.leaf reaches through balanced clean covers rfl))
  · next kind => exact literal _ (single kind (by simp) (by simp) (by simp))
  · next kind => exact literal _ (single kind (by simp) (by simp) (by simp))
  · next kind => exact whole (wordExpr_joins makes reaches (single kind (by simp) (by simp) (by simp)) _)
  · exact whole (nameExpr_joins makes reaches)
  · next kind => exact whole (placeholder_joins reaches kind)
  · exact whole (odbcLiteral_joins reaches)
  · next kind => exact unary _ _ (bare kind (by simp))
  · next kind => exact unary _ _ (bare kind (by simp))
  · next kind => exact unary _ _ (bare kind (by simp))
  · next kind => exact unary _ _ (bare kind (by simp))
  · exact parenExpr_makes makes reaches
  · next kind => exact unary _ _ (word kind).bare
  · next kind => exact unary _ _ (word kind).bare
  · next kind => exact literal _ (word kind)
  · next kind => exact literal _ (word kind)
  · next kind => exact literal _ (word kind)
  · next kind => exact whole (temporalExpr_joins makes reaches (word kind) _ _)
  · next kind => exact whole (temporalExpr_joins makes reaches (word kind) _ _)
  · next kind => exact whole (temporalExpr_joins makes reaches (word kind) _ _)
  · next kind => exact whole (currentTimestampExpr_joins makes reaches (word kind))
  · next kind => exact whole (defaultExpr_joins makes reaches (word kind))
  · next kind => exact whole (existsExpr_joins makes reaches (word kind))
  · exact whole (castExpr_joins makes reaches)
  · exact whole (caseExpr_joins makes reaches)
  · next kind =>
      exact .aheadIs (fun _ => whole (rowExpr_joins makes reaches (word kind))) fun _ => .fail
  · exact whole (keywordExpr_joins makes reaches _)
  · exact .fail
  · exact .fail

end Operand

/-- An operand with all that continues it, where it grows with rules of the grammar itself. -/
theorem operandBody_makes
    (level : ∃ levels, levels ≤ origin.settings.maxDepth - 1 ∧ inner = innerAt levels)
    (power : Nat) : (operandBody inner power).Makes origin .expr := by
  obtain ⟨levels, below, rfl⟩ := level
  intro spot reaches
  have := makes.lawful
  have wrap : ∀ {expr : Expr} {later : Spot}, Joined origin (.expr expr) spot later →
      Grown (innerAt levels) spot expr later → Made origin (.expr expr) spot later :=
    fun joined grown => joined.made fun tree same => by
      cases same
      exact ⟨levels, below, grown⟩
  have first : (primaryExpr (innerAt levels)).Ensures spot fun expr later =>
      Made origin (.expr expr) spot later ∧ Grown (innerAt levels) spot expr later := by
    refine .of_on fun expr later outcome => ⟨?_, .primary outcome⟩
    rcases (primaryExpr_makes makes reaches).on outcome with joined | made
    · exact wrap joined (.primary outcome)
    · exact made
  have steps : ∀ left middle, Made origin (.expr left) spot middle ∧
      Grown (innerAt levels) spot left middle →
      (extendOperand (innerAt levels) power left).Ensures middle fun found later =>
        Made origin (.expr (found.getD left)) spot later ∧
          Grown (innerAt levels) spot (found.getD left) later := by
    intro left middle facts
    obtain ⟨made, grown⟩ := facts
    refine .of_on fun found later outcome => ?_
    have joined := (extendOperand_joins makes made.begin power).on outcome
    cases found with
    | none =>
        obtain rfl : later = middle := joined
        exact ⟨made, grown⟩
    | some expr => exact ⟨wrap joined (.extended grown outcome), .extended grown outcome⟩
  unfold operandBody
  refine first.bind fun expr middle facts => ?_
  exact (Ensures.whileSome facts steps).mono fun expr later facts => facts.1

end Rule

end SqlDml
