import SqlDml.Proofs.Extents.Places
import SqlDml.Proofs.Spelt.Constants

/-!
Contract: every expression that is read is made of written words.

Owns:
- what follows an operand, and what stands in front of one;
- calls, and the names that the source gives them;
- operands of any power, given the rules of the next nesting level.

Does not own: queries and tables.
-/

namespace SqlDml

variable {settings : Settings}

/-- An expression of which only the parts have words. -/
theorem Node.wellSpelt_ofOperands {left right : Expr} {op : BinaryOp}
    (allowed : op = .concat → settings.pipesAsConcat = true)
    (first : (Node.expr left).WellSpelt settings) (second : (Node.expr right).WellSpelt settings) :
    (Node.expr (.ofOperands left op right)).WellSpelt settings :=
  .of_children allowed (by simp [Expr.ofOperands, first, second])

namespace Rule

variable {inner : InnerRules} (given : inner.Spelt settings)

include given

theorem expr_gives :
    inner.expr.Gives settings fun tree => (Node.expr tree).WellSpelt settings := given.operand 0

theorem exprs_gives : (exprs inner).Gives settings fun items =>
    items ≠ [] ∧ ∀ item ∈ items, (Node.expr item).WellSpelt settings :=
  have := given.lawful
  (expr_gives given).commaSeparated

/-- An expression behind a word, if the word follows. -/
theorem optionalClause_gives (word : Keyword) :
    Gives settings (do
      if ← eatWord word then
        return some (← inner.expr)
      else
        return none) fun found => ∀ tree ∈ found, (Node.expr tree).WellSpelt settings := by
  have := given.lawful
  refine .skip fun found => .ite (fun _ => ?_) fun _ => .pure (by simp)
  exact (expr_gives given).bind fun tree known => .pure (by simpa using known)

theorem queryInParens_gives : (queryInParens inner).Gives settings fun found =>
    (Node.query found.1).WellSpelt settings := by
  have := given.lawful
  unfold queryInParens
  refine .skip fun start => given.query.bind fun query known => ?_
  exact .skip fun stop => .pure known

theorem subquery_gives :
    (subquery inner).Gives settings fun tree => (Node.expr tree).WellSpelt settings := by
  have := given.lawful
  unfold subquery
  refine (queryInParens_gives given).bind fun found known => .pure ?_
  exact .of_children trivial (by simpa using known)

/-! ### Behind an operand -/

omit given in
/-- Two pipes only join strings where they are set to. -/
theorem continuation?_gives : continuation?.Gives settings fun found =>
    ∀ op, found = some (.operator op) ∨ found = some (.comparison op) → op = .concat →
      settings.pipesAsConcat = true := by
  intro spot spelt
  refine .of_on fun found later outcome => ?_
  rw [on_continuation?] at outcome
  cases outcome
  have alone : ∀ concat kind op, Continuation.ofToken? concat kind = some (.operator op) ∨
      Continuation.ofToken? concat kind = some (.comparison op) → op = .concat →
        concat = true := by
    rintro concat kind op found rfl
    unfold Continuation.ofToken? at found
    split at found <;> simp at found
    exact found
  have pair : ∀ kind op, Continuation.afterNot? kind ≠ some (.operator op) ∧
      Continuation.afterNot? kind ≠ some (.comparison op) ∧
      Continuation.afterSounds? kind ≠ some (.operator op) ∧
      Continuation.afterSounds? kind ≠ some (.comparison op) := by
    intro kind op
    unfold Continuation.afterNot? Continuation.afterSounds?
    refine ⟨?_, ?_, ?_, ?_⟩ <;> split <;> simp
  intro op found
  unfold Spot.continuation? at found
  split at found
  · rcases found with found | found
    · exact absurd found (pair _ op).1
    · exact absurd found (pair _ op).2.1
  · rcases found with found | found
    · exact absurd found (pair _ op).2.2.1
    · exact absurd found (pair _ op).2.2.2
  · rw [spelt.same] at found
    exact alone _ _ op found

section Continued

variable {left : Expr} (before : (Node.expr left).WellSpelt settings)

include before

theorem comparison_gives {op : BinaryOp} (allowed : op = .concat → settings.pipesAsConcat = true) :
    (comparison inner left op).Gives settings fun tree => (Node.expr tree).WellSpelt settings := by
  have := given.lawful
  have plain : Gives settings (do return Expr.ofOperands left op (← inner.operand (op.power + 1)))
      fun tree => (Node.expr tree).WellSpelt settings :=
    (given.operand _).bind fun right known => .pure (Node.wellSpelt_ofOperands allowed before known)
  unfold comparison
  refine .skip fun kind => ?_
  split
  · exact plain
  · refine .skip fun follows => .ite (fun _ => ?_) fun _ => plain
    refine .skip fun _ => .skip fun _ => given.query.bind fun query known => .skip fun stop => ?_
    exact .pure (.of_children trivial (by simpa using ⟨before, known⟩))

omit given in
theorem isTest_gives :
    (isTest left).Gives settings fun tree => (Node.expr tree).WellSpelt settings := by
  unfold isTest
  refine .skip fun negated => .skip fun kind => ?_
  split
  · exact .skip fun stop => .pure (.of_children trivial (by simpa using before))
  · exact .fail

omit before in
/-- A list in front of a parenthesis is no query in further parentheses, which would have been read
as a query. -/
theorem inSet_ensures {spot : Spot} (spelt : spot.Spelt settings) :
    (inSet inner).Ensures spot fun set later =>
      (later.kind = .punct .rightParen → set.Spelt) ∧
        ∀ child ∈ set.children, child.WellSpelt settings := by
  have := given.lawful
  have query : Gives settings (do return InSet.subquery (← inner.query)) fun set =>
      set.Spelt ∧ ∀ child ∈ set.children, child.WellSpelt settings :=
    given.query.bind fun query known => .pure ⟨trivial, by simpa using known⟩
  have items : (∀ item later, inner.expr.on spot = .done item later → item.isSubquery = true →
        later.kind ≠ .punct .rightParen) →
      Ensures (do return InSet.list (← exprs inner)) spot fun set later =>
        (later.kind = .punct .rightParen → set.Spelt) ∧
          ∀ child ∈ set.children, child.WellSpelt settings := by
    intro noQuery
    have read : (exprs inner).Ensures spot fun items later =>
        (∀ item, items = [item] → later.kind = .punct .rightParen → item.isSubquery = false) ∧
          ∀ item ∈ items, (Node.expr item).WellSpelt settings := by
      refine .of_on fun items later outcome =>
        ⟨?_, ((exprs_gives given spot spelt).on outcome).2⟩
      rintro item rfl closed
      obtain ⟨first, middle, others, read, rest, same⟩ := on_commaSeparated_eq_done.mp outcome
      cases same
      cases rest
      exact Bool.eq_false_iff.mpr fun sub => noQuery _ _ read sub closed
    refine read.bind fun items later known => .pure ⟨fun closed item same => ?_, ?_⟩
    · exact known.1 item same closed
    · simpa using known.2
  unfold inSet
  refine .step (on_peek spot) ?_
  split
  · exact (query spot spelt).mono fun _ _ known => ⟨fun _ => known.1, known.2⟩
  · exact (query spot spelt).mono fun _ _ known => ⟨fun _ => known.1, known.2⟩
  · cases tried : (queryBeforeParen inner).on spot with
    | done query later =>
        have beforeParen : (queryBeforeParen inner).Gives settings fun query =>
            (Node.query query).WellSpelt settings := by
          unfold queryBeforeParen
          refine given.query.bind fun query known => .skip fun closed => ?_
          exact .ite (fun _ => .pure known) fun _ => .fail
        have matched : (attempt (queryBeforeParen inner)).on spot = .done (some query) later := by
          rw [on_attempt, tried]
          rfl
        refine .step matched (.pure ⟨fun _ => trivial, ?_⟩)
        simpa using (beforeParen spot spelt).on tried
    | stuck =>
        have rejected : (attempt (queryBeforeParen inner)).on spot = .done none spot := by
          rw [on_attempt, tried]
          rfl
        refine .step rejected (items fun item later read sub closed => ?_)
        obtain ⟨query, found⟩ := (given.subquery spot later item read sub).2 closed
        have reads : (queryBeforeParen inner).on spot = .done query later := by
          simp [queryBeforeParen, found, closed]
        rw [tried] at reads
        cases reads
    | deep =>
        have never : (attempt (queryBeforeParen inner)).Ensures spot fun _ _ => False := by
          refine .of_on fun value later outcome => ?_
          rw [on_attempt, tried] at outcome
          cases outcome
        exact never.bind fun _ _ absurd => absurd.elim
  · next _ _ noParen =>
      exact items fun item later read sub _ => noParen (given.subquery spot later item read sub).1

theorem inTest_gives (negated : Bool) :
    (inTest inner left negated).Gives settings fun tree => (Node.expr tree).WellSpelt settings := by
  have := given.lawful
  unfold inTest
  refine .skip fun _ spot spelt => (inSet_ensures given spelt).bind fun set later known => ?_
  refine .expecting (by simp) fun closed => .pure (.of_children (known.1 closed) ?_)
  simpa using ⟨before, known.2⟩

theorem betweenTest_gives (negated : Bool) :
    (betweenTest inner left negated).Gives settings fun tree =>
      (Node.expr tree).WellSpelt settings := by
  have := given.lawful
  unfold betweenTest
  refine (given.operand _).bind fun low first => .skip fun _ => ?_
  refine (given.operand _).bind fun high second => .pure (.of_children trivial ?_)
  simpa using ⟨before, first, second⟩

omit before in
theorem escapeOperand_gives (op : LikeOp) : (escapeOperand inner op).Gives settings fun found =>
    (op = .regexp → found = none) ∧ ∀ tree ∈ found, (Node.expr tree).WellSpelt settings := by
  have := given.lawful
  unfold escapeOperand
  split
  · exact .pure (by simp)
  · refine .skip fun found => .ite (fun _ => ?_) fun _ => .pure (by simp)
    exact (given.operand _).bind fun escape known => .pure (by simpa using known)

theorem likeTest_gives (op : LikeOp) (negated : Bool) :
    (likeTest inner left op negated).Gives settings fun tree =>
      (Node.expr tree).WellSpelt settings := by
  have := given.lawful
  unfold likeTest
  refine (given.operand _).bind fun pattern first => ?_
  refine (escapeOperand_gives given op).bind fun escape second => .pure (.of_children second.1 ?_)
  simpa using ⟨before, first, second.2⟩

omit given in
theorem collate_gives :
    (collate left).Gives settings fun tree => (Node.expr tree).WellSpelt settings := by
  unfold collate
  refine .skip fun _ => collationName_gives.bind fun name labels => .pure (.of_children labels ?_)
  simpa using before

theorem continueWith_gives {continuation : Continuation}
    (allowed : ∀ op, continuation = .operator op ∨ continuation = .comparison op → op = .concat →
      settings.pipesAsConcat = true) :
    (continueWith inner left continuation).Gives settings fun tree =>
      (Node.expr tree).WellSpelt settings := by
  have := given.lawful
  unfold continueWith
  refine .skip fun _ => ?_
  cases continuation with
  | operator op =>
      refine (given.operand _).bind fun right known => .pure ?_
      exact Node.wellSpelt_ofOperands (allowed op (.inl rfl)) before known
  | comparison op => exact comparison_gives given before (allowed op (.inr rfl))
  | is => exact isTest_gives before
  | isIn negated => exact inTest_gives given before negated
  | between negated => exact betweenTest_gives given before negated
  | like op negated => exact likeTest_gives given before op negated
  | soundsLike =>
      refine (given.operand _).bind fun pattern known => .pure (.of_children trivial ?_)
      simpa using ⟨before, known⟩

theorem extendOperand_gives (power : Nat) :
    (extendOperand inner power left).Gives settings fun found =>
      ∀ tree ∈ found, (Node.expr tree).WellSpelt settings := by
  have := given.lawful
  have one : ∀ {rule : Rule Expr} [rule.Lawful],
      rule.Gives settings (fun tree => (Node.expr tree).WellSpelt settings) →
      Gives settings (do return some (← rule)) fun found =>
        ∀ tree ∈ found, (Node.expr tree).WellSpelt settings :=
    fun gives => gives.bind fun tree known => .pure (by simpa using known)
  unfold extendOperand
  refine .skip fun collates => .ite (fun _ => ?_) fun _ => ?_
  · exact .ite (fun _ => one (collate_gives before)) fun _ => .pure (by simp)
  · refine continuation?_gives.bind fun found allowed => ?_
    split
    · next continuation =>
        refine .ite (fun _ => ?_) fun _ => .pure (by simp)
        refine one (continueWith_gives given before fun op same => allowed op ?_)
        rcases same with rfl | rfl <;> simp
    · exact .pure (by simp)

end Continued

/-! ### Calls, casts and cases -/

/-- A call that a parenthesis does not close at once has arguments. -/
theorem callArguments_ensures {spot : Spot} {function : Ident} (spelt : spot.Spelt settings)
    (named : function.Named settings Keyword.isCallName)
    (filled : function.quote = none →
      Keyword.ofWord? function.value.toList = some .CURRENT_TIMESTAMP →
        spot.next.kind ≠ .punct .rightParen) :
    (callArguments inner function).Ensures spot fun tree _ =>
      (Node.expr tree).WellSpelt settings := by
  have := given.lawful
  have closing : ∀ (items : List Expr) (distinct : Bool) (later : Spot),
      CallArgs.Fills (.list items) function →
      (∀ item ∈ items, (Node.expr item).WellSpelt settings) →
      Ensures (do
        let stop ← expectMark .rightParen
        return Expr.call function (.list items) distinct (function.span.merge stop)) later
        fun tree _ => (Node.expr tree).WellSpelt settings := by
    intro items distinct later fills known
    refine .expecting (by simp) fun closed => .pure (.of_children ⟨named, fills⟩ ?_)
    simpa using known
  have listed : ∀ (distinct : Bool),
      Gives settings (do
        let items ← exprs inner
        let stop ← expectMark .rightParen
        return Expr.call function (.list items) distinct (function.span.merge stop))
        fun tree => (Node.expr tree).WellSpelt settings := by
    intro distinct
    refine (exprs_gives given).bind fun items known later _ => closing items distinct later ?_ known.2
    exact fun _ _ same => known.1 (CallArgs.list.inj same)
  have behind : spot.next.Spelt settings := spelt.of_leads (.next spot)
  unfold callArguments
  refine .expecting (by simp) fun opened => .eat (fun star => ?_) fun noStar => ?_
  · refine .expecting (by simp) fun closed => .pure (.of_children ⟨named, ?_⟩ (by simp))
    exact fun _ _ => by simp
  by_cases asked : spot.next.kind = .keyword .DISTINCT
  · refine .step (on_eat_found asked) (.ite (fun _ => ?_) fun absurd => absurd.elim rfl)
    refine .step (on_pure false _) (.ite (fun absurd => by cases absurd) fun _ => ?_)
    exact listed true _ (behind.of_leads (.next _))
  · refine .step (on_eat_missing asked) (.ite (fun absurd => by cases absurd) fun _ => ?_)
    refine .nextIs (fun closes => ?_) fun opens => listed false _ behind
    refine .step (on_pure [] _) (closing [] false _ (fun unquoted known => ?_) (by simp))
    exact absurd closes (filled unquoted known)

/-- A keyword that is read as a name is the keyword of the name. -/
theorem keywordCall_ensures {spot : Spot} {word : Keyword} (spelt : spot.Spelt settings)
    (kind : spot.kind = .keyword word) (called : word.isFunctionName = true)
    (filled : word = .CURRENT_TIMESTAMP → (spot.token 2).kind ≠ .punct .rightParen) :
    (keywordCall inner).Ensures spot fun tree _ => (Node.expr tree).WellSpelt settings := by
  have := given.lawful
  have written := spelt.written (by simp [kind])
  have named : (Rule.name true).Ensures spot fun ident later => later = spot.next ∧
      ident.Named settings Keyword.isCallName ∧ Keyword.ofWord? ident.value.toList = some word := by
    refine .of_on fun ident later outcome => ?_
    rw [on_name] at outcome
    split at outcome
    · next found read =>
        cases outcome
        obtain ⟨named, keyword⟩ := written.named read
        obtain ⟨unquoted, known⟩ := keyword word kind
        refine ⟨rfl, ?_, known⟩
        unfold Ident.Named at named ⊢
        rw [unquoted] at named ⊢
        refine ⟨named.1, fun other same => ?_⟩
        rw [known] at same
        cases same
        simp [Keyword.isCallName, called]
    · cases outcome
  unfold keywordCall
  refine named.bind fun ident later read => ?_
  obtain ⟨rfl, named, known⟩ := read
  refine callArguments_ensures given (spelt.of_leads (.next spot)) named fun _ same => ?_
  rw [known] at same
  have third : spot.next.next.kind = (spot.token 2).kind := by
    rw [Spot.kind, Spot.next_token, Spot.next_token]
  rw [third]
  exact filled (Option.some.inj same)

theorem nameExpr_gives :
    (nameExpr inner).Gives settings fun tree => (Node.expr tree).WellSpelt settings := by
  have := given.lawful
  unfold nameExpr
  refine .skip fun called => .ite (fun _ => ?_) fun _ => ?_
  · refine Gives.identifier.bind fun function plain spot spelt => ?_
    refine callArguments_ensures given spelt ?_ fun unquoted known => ?_
    · exact Ident.Named.mono plain fun keyword accepted => by
        simp [Keyword.isCallName, show keyword.isNonreserved = true from accepted]
    · exact absurd (Ident.Named.accepted plain unquoted known) (by decide)
  · refine columnRef_gives.bind fun ref named => .pure (.of_children trivial ?_)
    simpa using ColumnRef.Named.wellSpelt named

theorem castExpr_gives :
    (castExpr inner).Gives settings fun tree => (Node.expr tree).WellSpelt settings := by
  have := given.lawful
  unfold castExpr
  refine .skip fun start => .skip fun _ => (expr_gives given).bind fun operand known => ?_
  refine .skip fun _ => typeName_gives.bind fun target spelt => .skip fun stop => ?_
  exact .pure (.of_children spelt (by simpa using known))

theorem whenBranches_gives : (whenBranches inner).Gives settings fun whens =>
    ∀ branch ∈ whens, (Node.expr branch.1).WellSpelt settings ∧
      (Node.expr branch.2).WellSpelt settings := by
  have := given.lawful
  have repeats : (whileSome (nextWhen inner) []).Gives settings fun whens =>
      ∀ branch ∈ whens, (Node.expr branch.1).WellSpelt settings ∧
        (Node.expr branch.2).WellSpelt settings := by
    refine .whileSome (by simp) fun whens known => ?_
    unfold nextWhen
    refine .skip fun found => .ite (fun _ => ?_) fun _ => .pure (by simp)
    refine (expr_gives given).bind fun condition first => .skip fun _ => ?_
    refine (expr_gives given).bind fun result second => .pure fun more found => ?_
    cases found
    exact List.forall_mem_cons.mpr ⟨⟨first, second⟩, known⟩
  rw [whenBranches_eq]
  exact repeats.bind fun whens known => .pure (by simpa using known)

theorem optionalExpr_gives : Gives settings (some <$> inner.expr) fun found =>
    ∀ tree ∈ found, (Node.expr tree).WellSpelt settings :=
  (expr_gives given).map fun tree known => by simpa using known

theorem caseExpr_gives :
    (caseExpr inner).Gives settings fun tree => (Node.expr tree).WellSpelt settings := by
  have := given.lawful
  have closing : ∀ (start : Span) (operand : Option Expr) (whens : List (Expr × Expr))
      (otherwise : Option Expr),
      (∀ child ∈ (Expr.case operand whens otherwise start).children, child.WellSpelt settings) →
      Gives settings (do
        let stop ← expectWord .END
        return Expr.case operand whens otherwise (start.merge stop))
        fun tree => (Node.expr tree).WellSpelt settings :=
    fun start operand whens otherwise known => .skip fun stop => .pure (.of_children trivial known)
  have branches : ∀ (start : Span) (operand : Option Expr),
      (∀ tree ∈ operand, (Node.expr tree).WellSpelt settings) →
      Gives settings (do
        let whens ← whenBranches inner
        if whens.isEmpty then
          fail [Keyword.WHEN.spelling]
        else
          let otherwise ← if ← eatWord .ELSE then some <$> inner.expr else pure none
          let stop ← expectWord .END
          return Expr.case operand whens otherwise (start.merge stop))
        fun tree => (Node.expr tree).WellSpelt settings := by
    intro start operand first
    refine (whenBranches_gives given).bind fun whens second => .ite (fun _ => .fail) fun _ => ?_
    have children : ∀ otherwise : Option Expr,
        (∀ tree ∈ otherwise, (Node.expr tree).WellSpelt settings) →
        ∀ child ∈ (Expr.case operand whens otherwise start).children,
          child.WellSpelt settings := by
      intro otherwise third
      simp only [Expr.children, List.forall_mem_append, List.forall_mem_map, Option.mem_toList,
        List.forall_mem_flatMap, List.forall_mem_cons, List.not_mem_nil, false_implies,
        implies_true, and_true]
      exact ⟨⟨first, second⟩, third⟩
    refine .skip fun found => .ite (fun _ => ?_) fun _ => ?_
    · exact (optionalExpr_gives given).bind fun otherwise third =>
        closing start operand whens otherwise (children otherwise third)
    · have none_ : (Pure.pure none : Rule (Option Expr)).Gives settings fun found => found = none :=
        .pure rfl
      refine none_.bind fun otherwise same => closing start operand whens otherwise ?_
      exact same ▸ children none (by simp)
  unfold caseExpr
  refine .skip fun start => .skip fun direct => .ite (fun _ => ?_) fun _ => ?_
  · have none_ : (Pure.pure none : Rule (Option Expr)).Gives settings fun found => found = none :=
      .pure rfl
    exact none_.bind fun operand same => branches start operand (by simp [same])
  · exact (optionalExpr_gives given).bind fun operand known => branches start operand known

/-! ### In front of an operand -/

theorem unaryExpr_gives (op : UnaryOp) (power : Nat) :
    (unaryExpr inner op power).Gives settings fun tree => (Node.expr tree).WellSpelt settings := by
  have := given.lawful
  unfold unaryExpr
  refine .skip fun start => (given.operand power).bind fun operand known => .pure ?_
  exact .of_children trivial (by simpa using known)

theorem existsExpr_gives :
    (existsExpr inner).Gives settings fun tree => (Node.expr tree).WellSpelt settings := by
  have := given.lawful
  unfold existsExpr
  refine .skip fun start => .skip fun _ => given.query.bind fun query known => .skip fun stop => ?_
  exact .pure (.of_children trivial (by simpa using known))

theorem rowExpr_gives :
    (rowExpr inner).Gives settings fun tree => (Node.expr tree).WellSpelt settings := by
  have := given.lawful
  unfold rowExpr
  refine .skip fun start => .skip fun _ => (exprs_gives given).bind fun items known => ?_
  exact .skip fun stop => .pure (.of_children trivial (by simpa using known.2))

theorem exprInParens_gives :
    (exprInParens inner).Gives settings fun tree => (Node.expr tree).WellSpelt settings := by
  have := given.lawful
  unfold exprInParens
  refine .skip fun start => (expr_gives given).bind fun first known => ?_
  refine .skip fun comma => .ite (fun _ => ?_) fun _ => ?_
  · refine (exprs_gives given).bind fun others all => .skip fun stop => .pure ?_
    exact .of_children trivial (by simpa using ⟨known, all.2⟩)
  · exact .skip fun _ => .pure known

theorem parenExpr_gives :
    (parenExpr inner).Gives settings fun tree => (Node.expr tree).WellSpelt settings := by
  have := given.lawful
  unfold parenExpr
  refine .skip fun next => ?_
  split
  · exact subquery_gives given
  · exact subquery_gives given
  · refine .attempt (subquery_gives given) (fun tree known => .pure known) ?_
    exact exprInParens_gives given
  · exact exprInParens_gives given

section Keywords

variable {spot : Spot} {word : Keyword} (spelt : spot.Spelt settings)
  (kind : spot.kind = .keyword word)

include spelt kind

theorem keywordExpr_ensures (other : word ≠ .CURRENT_TIMESTAMP) :
    (keywordExpr inner word).Ensures spot fun tree _ => (Node.expr tree).WellSpelt settings := by
  have asName : Ensures (if word.isNonreserved then nameExpr inner else fail ["expression"]) spot
      fun tree _ => (Node.expr tree).WellSpelt settings :=
    .ite (fun _ => nameExpr_gives given spot spelt) fun _ => .fail
  unfold keywordExpr
  refine .ite (fun named => .aheadIs (fun called => ?_) fun _ => asName) fun _ => asName
  exact keywordCall_ensures given spelt kind named fun same => absurd same other

theorem temporalExpr_ensures (other : word ≠ .CURRENT_TIMESTAMP) (temporal : TemporalKind) :
    (temporalExpr inner word temporal).Ensures spot fun tree _ =>
      (Node.expr tree).WellSpelt settings := by
  unfold temporalExpr
  refine .step (on_peekAhead spot 1) (.ite (fun _ => ?_) fun _ => ?_)
  · exact temporalLiteral_gives temporal spot spelt
  · exact keywordExpr_ensures given spelt kind other

theorem currentTimestampExpr_ensures (current : word = .CURRENT_TIMESTAMP) :
    (currentTimestampExpr inner).Ensures spot fun tree _ => (Node.expr tree).WellSpelt settings := by
  have literal := currentTimestamp_gives spot spelt
  unfold currentTimestampExpr
  refine .aheadIs (fun opened => .aheadIs (fun _ => literal) fun filled => ?_) fun _ => literal
  exact keywordCall_ensures given spelt kind (by simp [current, Keyword.isFunctionName])
    fun _ => filled

theorem defaultExpr_ensures (value : word = .DEFAULT) :
    (defaultExpr inner).Ensures spot fun tree _ => (Node.expr tree).WellSpelt settings := by
  subst value
  unfold defaultExpr
  refine .aheadIs (fun _ => keywordExpr_ensures given spelt kind (by simp)) fun _ => ?_
  exact .step (on_advance spot) (.pure (.of_children trivial (by simp)))

end Keywords

theorem wordExpr_gives {text : String} (plain : IsPlainWord text) :
    (wordExpr inner text).Gives settings fun tree => (Node.expr tree).WellSpelt settings := by
  unfold wordExpr
  refine .skip fun next => .ite (fun _ => ?_) fun _ => nameExpr_gives given
  split
  · next charset known =>
      obtain rfl := introducedCharset?_eq known
      exact introducedLiteral_gives plain known
  · exact nameExpr_gives given

theorem primaryExpr_gives :
    (primaryExpr inner).Gives settings fun tree => (Node.expr tree).WellSpelt settings := by
  intro spot spelt
  obtain ⟨text, written⟩ := spelt.token 0
  unfold primaryExpr
  refine .step (on_peek spot) ?_
  have same : spot.kind = (spot.token 0).kind := rfl
  rw [← same] at written
  split
  · next value kind =>
      rw [kind] at written
      exact tokenLiteral_gives (Literal.Spelt.natural written) spot spelt
  · next kind => exact tokenLiteral_gives (by rwa [kind] at written) spot spelt
  · have read : Gives settings (do
        let found ← stringRun
        return Expr.literal (.string found.1) found.2) fun tree =>
          (Node.expr tree).WellSpelt settings :=
      .skip fun found => .pure (Literal.Spelt.wellSpelt trivial)
    exact read spot spelt
  · next kind => exact tokenLiteral_gives (by rwa [kind] at written) spot spelt
  · next kind => exact tokenLiteral_gives (by rwa [kind] at written) spot spelt
  · next kind => exact wordExpr_gives given (by rwa [kind] at written) spot spelt
  · exact nameExpr_gives given spot spelt
  · exact placeholder_gives spot spelt
  · exact odbcLiteral_gives spot spelt
  · exact unaryExpr_gives given _ _ spot spelt
  · exact unaryExpr_gives given _ _ spot spelt
  · exact unaryExpr_gives given _ _ spot spelt
  · exact unaryExpr_gives given _ _ spot spelt
  · exact parenExpr_gives given spot spelt
  · exact unaryExpr_gives given _ _ spot spelt
  · exact unaryExpr_gives given _ _ spot spelt
  · exact tokenLiteral_gives (show Literal.Spelt .null from trivial) spot spelt
  · exact tokenLiteral_gives (show Literal.Spelt .true from trivial) spot spelt
  · exact tokenLiteral_gives (show Literal.Spelt .false from trivial) spot spelt
  · next kind => exact temporalExpr_ensures given spelt kind (by simp) _
  · next kind => exact temporalExpr_ensures given spelt kind (by simp) _
  · next kind => exact temporalExpr_ensures given spelt kind (by simp) _
  · next kind => exact currentTimestampExpr_ensures given spelt kind rfl
  · next kind => exact defaultExpr_ensures given spelt kind rfl
  · exact existsExpr_gives given spot spelt
  · exact castExpr_gives given spot spelt
  · exact caseExpr_gives given spot spelt
  · exact .aheadIs (fun _ => rowExpr_gives given spot spelt) fun _ => .fail
  · next kind => exact keywordExpr_ensures given spelt kind (by assumption)
  · exact .fail
  · exact .fail

theorem operandBody_gives (power : Nat) :
    (operandBody inner power).Gives settings fun tree => (Node.expr tree).WellSpelt settings := by
  have := given.lawful
  unfold operandBody
  refine (primaryExpr_gives given).bind fun first known => ?_
  exact .whileSome known fun left before => extendOperand_gives given before power

end Rule

end SqlDml
