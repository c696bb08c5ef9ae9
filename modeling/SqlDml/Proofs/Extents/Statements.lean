import SqlDml.Proofs.Extents.Expressions
import SqlDml.Proofs.Reading.Statements

/-!
Contract: tables, queries and statements lie over the tokens that they are read from.

Owns:
- table references, clauses, select blocks and queries;
- the limit with its offset in front and the partitions behind an alias, the only parts that stand
  in the tree in another order than in the source;
- statements, and every nesting limit.

Does not own: what is concluded about the spans of a tree.
-/

namespace SqlDml

/-- A token that a choice takes is no parenthesis and no end, if none of these is a choice. -/
theorem Spot.flat_of_choice {spot : Spot} {α : Type} {choose : TokenKind → Option α} {value : α}
    (found : choose spot.kind = some value) (inner : choose .endOfInput = none)
    (notOpening : choose (.punct .leftParen) = none)
    (notClosing : choose (.punct .rightParen) = none)
    (notEnding : choose (.punct .semicolon) = none) (notDash : choose (.punct .minus) = none)
    (notDot : choose (.punct .dot) = none) : spot.kind.Flat := by
  refine ⟨⟨?_, ?_, ?_, ?_⟩, ?_, ?_⟩ <;> intro wrong <;> simp_all

/-- A span that begins with a token. -/
theorem Placed.first {origin spot : Spot} (reaches : origin.Reaches spot) (flat : spot.kind.Flat) :
    Placed origin (some (spot.token 0).span) [] spot 0 spot.next :=
  ((Placed.nothing reaches).past flat).begin (Spot.ahead_ne_next flat.inner)

namespace Rule

variable {origin : Spot} {inner : InnerRules} (makes : inner.Makes origin)

include makes

/-! ### Tables -/

theorem onCondition_places :
    (onCondition inner).Places origin fun found => found.toList.flatMap JoinCondition.parts := by
  intro spot reaches
  unfold onCondition
  refine .eat (fun found => ?_) fun _ => .pure (.nothing reaches)
  have placed := (Placed.nothing reaches).past (spot.flat_of_kind found)
  exact .placing placed (expr_makes makes).places fun condition later placed => .pure placed

theorem onOrUsing_places :
    (onOrUsing inner).Places origin fun found => found.toList.flatMap JoinCondition.parts := by
  intro spot reaches
  unfold onOrUsing
  refine .placing (.nothing reaches) (onCondition_places makes) fun found middle placed => ?_
  cases found with
  | some condition => exact .pure placed
  | none =>
      refine .eat (fun using_ => ?_) fun _ => .pure placed
      refine .placing (placed.past (middle.flat_of_kind using_)) identsInParens_places ?_
      exact fun columns later placed => .pure (placed.congr (by simp [JoinCondition.parts]))

theorem joinCondition_places (join : JoinType) :
    (joinCondition inner join).Places origin fun found =>
      found.toList.flatMap JoinCondition.parts := by
  intro spot reaches
  unfold joinCondition
  refine .ite (fun _ => .pure (.nothing reaches)) fun _ => .ite (fun _ => ?_) fun _ => ?_
  · exact onCondition_places makes spot reaches
  · refine .placing (.nothing reaches) (onOrUsing_places makes) fun found middle placed => ?_
    cases found with
    | some condition => exact .pure placed
    | none => exact .ite (fun _ => .fail) fun _ => .pure placed

theorem tableFactor_makes : (tableFactor inner).Makes origin .tableRef := by
  intro spot reaches
  unfold tableFactor
  refine .nextIs (fun _ => makes.tableInParens spot reaches) fun _ => ?_
  refine (namedTable_makes spot reaches).bind fun table later made => .pure ?_
  exact made.around nofun rfl rfl

theorem extendJoin_places {left : TableRef} {start spot : Spot}
    (before : Placed origin (some left.span) [.tableRef left] start 0 spot) :
    (extendJoin inner left).Ensures spot fun found later =>
      Placed origin (some (found.getD left).span) [.tableRef (found.getD left)] start 0 later := by
  unfold extendJoin
  refine .passing before fun found middle placed => ?_
  cases found with
  | none => exact .pure placed
  | some join =>
      refine .placing placed (tableFactor_makes makes).places fun right _ placed => ?_
      refine .placing placed (joinCondition_places makes join) fun condition behind placed => ?_
      refine .step (on_previousSpan behind) (.pure ?_)
      have joined : Joined origin (.tableRef (.joined left join right condition
          (left.span.merge behind.last))) start behind := placed.joined rfl rfl
      exact (joined.made_of_ne nofun).begin

theorem tableRef_places : (tableRef inner).Places origin fun tree => [.tableRef tree] := by
  intro spot reaches
  have := makes.lawful
  unfold tableRef
  refine (tableFactor_makes makes spot reaches).bind fun first middle made => ?_
  have joins : (whileSome (extendJoin inner) first).Ensures middle fun tree later =>
      Placed origin (some tree.span) [.tableRef tree] spot 0 later :=
    .whileSome made.begin fun left behind before => extendJoin_places makes before
  exact joins.mono fun tree later placed => placed.ended

theorem tableRefs_places : (tableRefs inner).Places origin fun refs => refs.map .tableRef :=
  have := makes.lawful
  (tableRef_places makes).commaSeparated.congr fun _ => (List.map_eq_flatMap ..).symm

section Parens

variable {spot : Spot} (reaches : origin.Reaches spot)

include reaches

theorem derivedTable_makes :
    (derivedTable inner (spot.token 0).span).Ensures spot fun tree later =>
      Made origin (.tableRef tree) spot later := by
  unfold derivedTable
  refine .beginningParens reaches fun _ placed => ?_
  refine .placing placed makes.query.places fun query _ placed => .closing placed ?_
  refine fun _ placed => .placing placed aliasName_places fun found middle placed => ?_
  cases found with
  | none => exact .fail
  | some name =>
      exact .step (on_previousSpan middle) (.pure ((placed.joined rfl rfl).made_of_ne nofun))

theorem tableRefsInParens_makes :
    (tableRefsInParens inner (spot.token 0).span).Ensures spot fun tree later =>
      Made origin (.tableRef tree) spot later := by
  unfold tableRefsInParens
  refine .beginningParens reaches fun _ placed => ?_
  refine .placing placed (tableRefs_places makes) fun refs _ placed => ?_
  exact .closing placed fun _ placed => .pure ((placed.joined rfl rfl).made_of_ne nofun)

end Parens

theorem tableInParensBody_makes : (tableInParensBody inner).Makes origin .tableRef := by
  intro spot reaches
  have := makes.lawful
  unfold tableInParensBody
  refine .step (on_currentSpan spot) (.step (on_peekAhead spot 1) (.ite (fun _ => ?_) fun _ => ?_))
  · refine .attempt (derivedTable_makes makes reaches) (fun derived later made => .pure made) ?_
    exact tableRefsInParens_makes makes reaches
  · exact tableRefsInParens_makes makes reaches

/-! ### Clauses -/

/-- An expression behind a word, if the word follows. -/
theorem optionalClause_places (word : Keyword) :
    Places (do
      if ← eatWord word then
        return some (← inner.expr)
      else
        return none) origin fun found => found.toList.map .expr := by
  intro spot reaches
  refine .eat (fun found => ?_) fun _ => .pure (.nothing reaches)
  have placed := (Placed.nothing reaches).past (spot.flat_of_kind found)
  exact .placing placed (expr_makes makes).places fun expr later placed => .pure placed

theorem whereClause_places :
    (whereClause inner).Places origin fun filter => filter.toList.map .expr :=
  optionalClause_places makes .WHERE

theorem havingClause_places :
    (havingClause inner).Places origin fun filter => filter.toList.map .expr :=
  optionalClause_places makes .HAVING

theorem orderingTerm_places : (orderingTerm inner).Places origin fun term => [.term term] := by
  intro spot reaches
  unfold orderingTerm
  refine (expr_makes makes spot reaches).bind fun expr middle made => ?_
  refine .passing (.nothing made.reaches_spot) fun direction later behind => ?_
  cases direction with
  | some direction =>
      refine .step (on_previousSpan later) (.pure ?_)
      have joined : Joined origin (.term ⟨expr, some direction, expr.span.merge later.last⟩) spot
          later := (made.begin.append behind).joined rfl rfl
      exact (joined.made_of_ne nofun).placed
  | none =>
      have same : Made origin (.term ⟨expr, none, expr.span⟩) spot middle :=
        made.around nofun rfl rfl
      exact .pure (same.placed.append behind)

theorem orderingTerms_places :
    (orderingTerms inner).Places origin fun terms => terms.map .term :=
  have := makes.lawful
  (orderingTerm_places makes).commaSeparated.congr fun _ => (List.map_eq_flatMap ..).symm

theorem orderByClause_places :
    (orderByClause inner).Places origin fun terms => terms.map .term := by
  intro spot reaches
  unfold orderByClause
  refine .eat (fun found => ?_) fun _ => .pure (.nothing reaches)
  have placed := (Placed.nothing reaches).past (spot.flat_of_kind found)
  refine .requiring placed fun placed => ?_
  exact (orderingTerms_places makes _ placed.reaches_spot).mono fun _ _ more => placed.append more

theorem groupByClause_places :
    (groupByClause inner).Places origin fun groups => groups.1.map .term := by
  intro spot reaches
  unfold groupByClause
  refine .eat (fun found => ?_) fun _ => .pure (.nothing reaches)
  have placed := (Placed.nothing reaches).past (spot.flat_of_kind found)
  refine .requiring placed fun placed => ?_
  refine .placing placed (orderingTerms_places makes) fun terms _ placed => ?_
  exact .passing placed fun rollup later placed => .pure placed

omit makes in
/-- A number of a limit is an operand. -/
theorem limitOperand_makes : limitOperand.Makes origin .expr := by
  intro spot reaches
  have operand : ∀ {rule : Rule Expr} [rule.Lawful],
      (primaryExpr (innerAt 0)).on spot = rule.on spot →
      (rule.Ensures spot fun expr later => Joined origin (.expr expr) spot later) →
      rule.Ensures spot fun expr later => Made origin (.expr expr) spot later := by
    intro rule lawful same joins
    refine .of_on fun expr later outcome => (joins.on outcome).made fun tree known => ?_
    cases known
    exact ⟨0, Nat.zero_le _, .primary (same.trans outcome)⟩
  unfold limitOperand
  refine .step (on_peek spot) ?_
  split
  · next value kind =>
      refine operand ?_ (tokenLiteral_joins reaches _ ?_)
      · have peeked : peek.on spot = .done (.integer value) spot := by rw [on_peek, kind]
        exact on_bind_done peeked
      · refine ⟨⟨?_, ?_, ?_, ?_⟩, ?_, ?_⟩ <;> simp [kind]
  · next kind =>
      refine operand ?_ (placeholder_joins reaches kind)
      have peeked : peek.on spot = .done (.punct .question) spot := by rw [on_peek, kind]
      exact on_bind_done peeked
  · exact .fail

omit makes in
/-- No name stands in a number of a limit. -/
theorem limitOperand_nameless {spot : Spot} (reaches : origin.Reaches spot) :
    limitOperand.Ensures spot fun expr later =>
      Made origin (.expr expr) spot later ∧ (Part.expr expr).names = [] := by
  refine .of_on fun expr later outcome => ⟨(limitOperand_makes spot reaches).on outcome, ?_⟩
  have leaves := ((limitOperand_reads spot).on outcome).2
  refine List.filterMap_eq_nil_iff.mpr fun visit member => ?_
  have leaf := leaves visit member
  cases visit with
  | tableName _ | columnRef _ => cases leaf
  | _ => rfl

omit makes in
theorem limitNumbers_places :
    limitNumbers.Places origin fun numbers =>
      .expr numbers.1 :: numbers.2.toList.map .expr := by
  intro spot reaches
  unfold limitNumbers
  refine (limitOperand_nameless reaches).bind fun first middle known => ?_
  have placed := known.1.placed
  refine .eat (fun comma => ?_) fun _ => .eat (fun offset => ?_) fun _ => .pure placed
  · -- the offset stands in front of the count
    have placed := placed.past (middle.flat_of_kind comma)
    refine (limitOperand_nameless placed.reaches_spot).bind fun count later more => .pure ?_
    exact (placed.append more.1.placed).perm (.swap ..) (by simp [known.2, more.2])
  · refine .placing (placed.past (middle.flat_of_kind offset)) limitOperand_makes.places ?_
    exact fun second later placed => .pure placed

omit makes in
theorem limitClause_places (allowOffset : Bool) :
    (limitClause allowOffset).Places origin fun limit => limit.toList.map .limit := by
  intro spot reaches
  have closing : ∀ (count : Expr) (offset : Option Expr) (middle : Spot),
      Placed origin (some (spot.token 0).span) (.expr count :: offset.toList.map .expr) spot 0
        middle →
      Ensures (do
        return some (LimitClause.mk count offset ((spot.token 0).span.merge (← previousSpan)))) middle
        fun limit later => Placed origin none (limit.toList.map .limit) spot 0 later := by
    intro count offset middle placed
    refine .step (on_previousSpan middle) (.pure ?_)
    have joined : Joined origin (.limit ⟨count, offset, (spot.token 0).span.merge middle.last⟩) spot
        middle := placed.joined rfl rfl
    exact (joined.made_of_ne nofun).placed
  unfold limitClause
  refine .nextIs (fun _ => ?_) fun _ => .pure (.nothing reaches)
  refine .beginning reaches fun placed => .ite (fun _ => ?_) fun _ => ?_
  · exact .placing placed limitNumbers_places fun numbers later placed =>
      closing numbers.1 numbers.2 later placed
  · refine .placing placed limitOperand_makes.places fun count later placed => ?_
    exact .step (on_pure _ later) (closing count none later placed)

omit makes in
theorem lockedTables_places :
    lockedTables.Places origin fun names => names.map .tableName := by
  intro spot reaches
  unfold lockedTables
  refine .eat (fun found => ?_) fun _ => .pure (.nothing reaches)
  have placed := (Placed.nothing reaches).past (spot.flat_of_kind found)
  exact (tableName_makes.commaSeparated _ placed.reaches_spot).mono fun _ _ more =>
    placed.append more

omit makes in
theorem lockingClause_places :
    lockingClause.Places origin fun found => found.toList.map .locking := by
  intro spot reaches
  have closing : ∀ (mode : LockMode) (tables : List TableName) (wait : Option LockWait)
      (middle : Spot),
      Placed origin (some (spot.token 0).span) (tables.map .tableName) spot 0 middle →
      Ensures (do
        return some (LockingClause.mk mode tables wait
          ((spot.token 0).span.merge (← previousSpan)))) middle
        fun found later => Placed origin none (found.toList.map .locking) spot 0 later := by
    intro mode tables wait middle placed
    refine .step (on_previousSpan middle) (.pure ?_)
    have joined : Joined origin (.locking ⟨mode, tables, wait,
        (spot.token 0).span.merge middle.last⟩) spot middle := placed.joined rfl rfl
    exact (joined.made_of_ne nofun).placed
  unfold lockingClause
  refine .step (on_currentSpan spot) (.eat (fun found => ?_) fun _ => .eat (fun found => ?_) ?_)
  · have placed := Placed.first reaches (spot.flat_of_kind found)
    refine .requiring placed fun placed => .requiring placed fun placed => ?_
    exact .requiring placed fun placed => closing _ [] none _ placed
  · have placed := Placed.first reaches (spot.flat_of_kind found)
    refine .passing placed fun mode _ placed => ?_
    refine .placing placed lockedTables_places fun tables _ placed => ?_
    exact .passing placed fun wait later placed => closing mode tables wait later placed
  · exact fun _ => .pure (.nothing reaches)

/-! ### Select blocks -/

omit makes in
instance (modifiers : SelectModifiers) : (nextModifier modifiers).Passes where
  passes origin spot reaches := by
    unfold nextModifier
    refine .step (on_peek spot) ?_
    split
    · next more found =>
        have flat := Spot.flat_of_choice found rfl rfl rfl rfl rfl rfl
        exact .taking (.nothing reaches) flat fun placed => .pure placed
    · exact .pure (.nothing reaches)

omit makes in
instance : selectModifiers.Passes := by
  rw [selectModifiers_eq]
  exact passes_whileSome nextModifier {}

theorem exprItem_places : (exprItem inner).Places origin fun item => [.item item] := by
  intro spot reaches
  unfold exprItem
  refine (expr_makes makes spot reaches).bind fun value middle made => ?_
  refine (aliasOrString_places made.reaches_spot).bind fun aliasName later facts => .pure ?_
  obtain ⟨behind, last⟩ := facts
  cases aliasName with
  | some name =>
      have whole : (value.span.merge name.span) = value.span.merge later.last := by
        rw [last name rfl]
      have joined : Joined origin (.item (.expr value (some name) (value.span.merge name.span)))
          spot later := (made.begin.append behind).joined whole rfl
      exact (joined.made_of_ne nofun).placed
  | none =>
      have same : Made origin (.item (.expr value none value.span)) spot middle :=
        made.around nofun rfl rfl
      exact same.placed.append behind

omit makes in
/-- A name is one token. -/
theorem name_makes_next (anyKeyword : Bool) {spot : Spot} (reaches : origin.Reaches spot) :
    (name anyKeyword).Ensures spot fun found later =>
      later = spot.next ∧ Made origin (.ident found) spot later :=
  .of_on fun _ _ outcome =>
    ⟨((name_takes anyKeyword spot).on outcome).1, ((name_makes anyKeyword reaches).on outcome).1⟩

omit makes in
theorem tableWildcard_makes {spot : Spot} (reaches : origin.Reaches spot)
    (dot : (spot.token 1).kind = .punct .dot) (star : (spot.token 2).kind = .punct .star) :
    tableWildcard.Ensures spot fun item later => Made origin (.item item) spot later := by
  unfold tableWildcard
  refine (name_makes_next false reaches).bind fun table middle known => ?_
  obtain ⟨rfl, made⟩ := known
  have dotNext : spot.next.kind = .punct .dot := by rw [Spot.kind, Spot.next_token, dot]
  have starNext : spot.next.next.kind = .punct .star := by
    rw [Spot.kind, Spot.next_token, Spot.next_token, star]
  have flat := Spot.flat_of_kind starNext
  have placed := made.begin.pastDotted dotNext flat
  refine .step (on_advance _) (.step (on_advance _) (.pure ?_))
  refine (placed.joined ?_ rfl).made_of_ne nofun
  rw [Spot.next_last_of_inner flat.inner]
  rfl

omit makes in
theorem schemaWildcard_makes {spot : Spot} (reaches : origin.Reaches spot)
    (dot : (spot.token 1).kind = .punct .dot) (second : (spot.token 3).kind = .punct .dot)
    (star : (spot.token 4).kind = .punct .star) :
    schemaWildcard.Ensures spot fun item later => Made origin (.item item) spot later := by
  unfold schemaWildcard
  refine (name_makes_next false reaches).bind fun schema middle known => ?_
  obtain ⟨rfl, made⟩ := known
  have dotNext : spot.next.kind = .punct .dot := by rw [Spot.kind, Spot.next_token, dot]
  refine .step (on_advance _) ?_
  have reaches := made.reaches_spot.next (by simp [dotNext])
  refine (name_makes_next true reaches).bind fun table middle known => ?_
  obtain ⟨rfl, more⟩ := known
  have secondNext : spot.next.next.next.kind = .punct .dot := by
    rw [Spot.kind, Spot.next_token, Spot.next_token, Spot.next_token, second]
  have starNext : spot.next.next.next.next.kind = .punct .star := by
    rw [Spot.kind, Spot.next_token, Spot.next_token, Spot.next_token, Spot.next_token, star]
  have flat := Spot.flat_of_kind starNext
  have placed := (more.behindDot made.begin dotNext).pastDotted secondNext flat
  refine .step (on_advance _) (.step (on_advance _) (.pure ?_))
  refine (placed.joined ?_ rfl).made_of_ne nofun
  rw [Spot.next_last_of_inner flat.inner]
  rfl

theorem selectItem_places : (selectItem inner).Places origin fun item => [.item item] := by
  intro spot reaches
  have item := exprItem_places makes spot reaches
  unfold selectItem
  refine .nextIs (fun star => ?_) fun _ => .step (on_peek spot) (.ite (fun _ => ?_) fun _ => item)
  · have joined : Joined origin (.item (.wildcard (spot.token 0).span)) spot spot.next :=
      .token reaches (spot.flat_of_kind star) rfl rfl
    exact .step (on_advance spot) (.pure (joined.made_of_ne nofun).placed)
  · refine .aheadIs (fun dot => ?_) fun _ => item
    unfold dottedItem
    refine .aheadIs (fun star => ?_) fun _ => ?_
    · exact (tableWildcard_makes reaches dot star).mono fun _ _ made => made.placed
    · refine (schemaWildcardFollows_tells spot).bind fun found middle known => ?_
      obtain ⟨rfl, tells⟩ := known
      refine .ite (fun follows => ?_) fun _ => item
      obtain ⟨second, star⟩ := tells follows
      exact (schemaWildcard_makes reaches dot second star).mono fun _ _ made => made.placed

theorem fromClause_places :
    (fromClause inner).Places origin fun refs => refs.map .tableRef := by
  intro spot reaches
  unfold fromClause
  refine .eat (fun found => ?_) fun _ => .pure (.nothing reaches)
  have placed := (Placed.nothing reaches).past (spot.flat_of_kind found)
  exact (tableRefs_places makes _ placed.reaches_spot).mono fun _ _ more => placed.append more

theorem selectCore_makes : (selectCore inner).Makes origin .core := by
  intro spot reaches
  have := makes.lawful
  have items : (commaSeparated (selectItem inner)).Places origin fun columns =>
      columns.map .item :=
    (selectItem_places makes).commaSeparated.congr fun _ => (List.map_eq_flatMap ..).symm
  unfold selectCore
  refine .beginning reaches fun placed => .passing placed fun modifiers _ placed => ?_
  refine .placing placed items fun columns _ placed => ?_
  refine .placing placed (fromClause_places makes) fun sources _ placed => ?_
  refine .placing placed (whereClause_places makes) fun filter _ placed => ?_
  refine .placing placed (groupByClause_places makes) fun groups _ placed => ?_
  refine .placing placed (havingClause_places makes) fun having later placed => ?_
  exact .step (on_previousSpan later) (.pure ((placed.joined rfl rfl).made_of_ne nofun))

/-! ### Queries -/

theorem queryTerm_places : (queryTerm inner).Places origin fun term => [term.part] := by
  intro spot reaches
  unfold queryTerm
  refine .step (on_peek spot) ?_
  split
  · next kind =>
      refine .step (on_advance spot) ?_
      refine .placing ((Placed.nothing reaches).opened kind) makes.query.places ?_
      exact fun query _ placed => .closing placed fun _ placed => .pure placed
  · exact (selectCore_makes makes spot reaches).bind fun core later made => .pure made.placed
  · exact .fail

theorem queryBody_makes : (queryBody inner).Makes origin .body := by
  have steps : ∀ compounds start spot,
      Placed origin none (compounds.reverse.map fun compound => compound.2.part) start 0 spot →
      (nextCompound inner compounds).Ensures spot fun found later =>
        Placed origin none ((found.getD compounds).reverse.map fun compound => compound.2.part)
          start 0 later := by
    intro compounds start spot placed
    unfold nextCompound
    refine .eat (fun found => ?_) fun _ => .pure placed
    refine .passing (placed.past (spot.flat_of_kind found)) fun op _ placed => ?_
    refine .placing placed (queryTerm_places makes) fun term later placed => .pure ?_
    exact placed.congr (by simp)
  have := makes.lawful
  rw [queryBody_eq]
  intro spot reaches
  refine .step (on_currentSpan spot) ?_
  refine .placing (.nothing reaches) (queryTerm_places makes) fun first _ placed => ?_
  refine .placing placed (.whileSome rfl steps) fun compounds later placed => ?_
  refine .step (on_previousSpan later) (.pure (Joined.made_of_ne ?_ nofun))
  exact (placed.begin_of_parts (by simp)).joined rfl rfl

theorem commonTable_makes : (commonTable inner).Makes origin .commonTable := by
  intro spot reaches
  have closing : ∀ (name : Ident) (columns : List Ident) (middle : Spot),
      Placed origin (some name.span) (.ident name :: columns.map .ident) spot 0 middle →
      Ensures (do
        let _ ← expectWord .AS
        let _ ← expectMark .leftParen
        let query ← inner.query
        let stop ← expectMark .rightParen
        return CommonTable.mk name columns query (name.span.merge stop)) middle
        fun table later => Made origin (.commonTable table) spot later := by
    intro name columns middle placed
    refine .requiring placed fun placed => .opening placed fun _ placed => ?_
    refine .placing placed makes.query.places fun query _ placed => .closing placed ?_
    exact fun _ placed => .pure ((placed.joined rfl rfl).made_of_ne nofun)
  unfold commonTable
  refine (identifier_makes spot reaches).bind fun name middle made => .nextIs (fun _ => ?_) ?_
  · exact .placing made.begin identsInParens_places fun columns later placed =>
      closing name columns later placed
  · exact fun _ => .step (on_pure [] middle) (closing name [] middle made.begin)

theorem withClause_places :
    (withClause inner).Places origin fun found => found.toList.map .withClause := by
  intro spot reaches
  have := makes.lawful
  unfold withClause
  refine .nextIs (fun _ => ?_) fun _ => .pure (.nothing reaches)
  refine .beginning reaches fun placed => .passing placed fun recursive _ placed => ?_
  refine .placing placed (commonTable_makes makes).commaSeparated fun tables later placed => ?_
  refine .step (on_previousSpan later) (.pure ?_)
  have joined : Joined origin (.withClause ⟨recursive, tables,
      (spot.token 0).span.merge later.last⟩) spot later := placed.joined rfl rfl
  exact (joined.made_of_ne nofun).placed

theorem wholeQuery_makes {spot : Spot} (reaches : origin.Reaches spot) :
    (wholeQuery inner).Ensures spot fun tree later =>
      Made origin (.query tree) spot later ∧ tree.span = (spot.token 0).span.merge later.last := by
  unfold wholeQuery
  refine .step (on_currentSpan spot) ?_
  refine .placing (.nothing reaches) (withClause_places makes) fun withClause _ placed => ?_
  refine .placing placed (queryBody_makes makes).places fun body _ placed => ?_
  refine .placing placed (orderByClause_places makes) fun orderBy _ placed => ?_
  refine .placing placed (limitClause_places true) fun limit _ placed => ?_
  refine .placing placed lockingClause_places fun locking later placed => ?_
  refine .step (on_previousSpan later) (.pure ⟨Joined.made_of_ne ?_ nofun, rfl⟩)
  exact (placed.begin_of_parts (by simp)).joined rfl (by simp [Part.children])

/-! ### Inserts -/

theorem assignments_places :
    (assignments inner).Places origin fun items => items.map .assignment := by
  have := makes.lawful
  have item : (assignment inner).Makes origin .assignment := by
    intro spot reaches
    unfold assignment
    refine (columnRef_makes spot reaches).bind fun column _ made => ?_
    refine .requiring made.begin fun placed => ?_
    refine .making placed (expr_makes makes) fun value later _ last => .pure ?_
    exact (placed.joined_to last rfl rfl).made_of_ne nofun
  exact item.commaSeparated

theorem valueRow_places : (valueRow inner).Places origin fun row => row.map .expr := by
  intro spot reaches
  unfold valueRow
  refine .opening (.nothing reaches) fun _ placed => .eat (fun closed => ?_) fun _ => ?_
  · exact .pure (placed.closed closed)
  · refine .placing placed (exprs_places makes) fun row _ placed => ?_
    exact .closing placed fun _ placed => .pure placed

omit makes in
instance : insertKind.Passes := by
  unfold insertKind
  infer_instance

omit makes in
instance (kind : InsertKind) : (insertPriority kind).Passes where
  passes origin spot reaches := by
    unfold insertPriority
    refine .step (on_peek spot) ?_
    split
    · next priority found =>
        have flat := Spot.flat_of_choice found rfl rfl rfl rfl rfl rfl
        exact .taking (.nothing reaches) flat fun placed => .pure placed
    · exact .pure (.nothing reaches)

omit makes in
instance (kind : InsertKind) (word : Keyword) : (eatInsertWord kind word).Passes := by
  unfold eatInsertWord
  infer_instance

omit makes in
theorem insertColumns_places : insertColumns.Places origin fun columns => columns.map .ident := by
  intro spot reaches
  unfold insertColumns
  refine .nextIs (fun _ => .step (on_peekAhead spot 1) (.ite (fun _ => ?_) fun _ => ?_)) fun _ => ?_
  · exact .pure (.nothing reaches)
  · exact identsInParensOrNone_places spot reaches
  · exact .pure (.nothing reaches)

theorem insertRows_places : (insertRows inner).Places origin InsertSource.parts := by
  intro spot reaches
  have := makes.lawful
  have rows : ∀ {word : Keyword}, spot.kind = .keyword word → Ensures (do
      let _ ← advance
      return InsertSource.values (← commaSeparated (valueRow inner))) spot
      fun source later => Placed origin none source.parts spot 0 later := by
    intro word kind
    refine .taking (.nothing reaches) (spot.flat_of_kind kind) fun placed => ?_
    exact .placing placed (valueRow_places makes).commaSeparated fun rows later placed =>
      .pure placed
  unfold insertRows
  refine .step (on_peek spot) ?_
  split
  · next kind => exact rows kind
  · next kind => exact rows kind
  · refine .ite (fun _ => ?_) fun _ => .fail
    exact .placing (.nothing reaches) makes.query.places fun query later placed => .pure placed

theorem insertSource_places :
    (insertSource inner).Places origin fun found => found.1.map .ident ++ found.2.parts := by
  intro spot reaches
  unfold insertSource
  refine .eat (fun found => ?_) fun _ => ?_
  · have placed := (Placed.nothing reaches).past (spot.flat_of_kind found)
    exact .placing placed (assignments_places makes) fun items later placed => .pure placed
  · refine .placing (.nothing reaches) insertColumns_places fun columns _ placed => ?_
    exact .placing placed (insertRows_places makes) fun source later placed => .pure placed

theorem onDuplicate_places (kind : InsertKind) :
    (onDuplicate inner kind).Places origin fun items => items.map .assignment := by
  intro spot reaches
  unfold onDuplicate
  refine .passing (.nothing reaches) fun found middle placed => .ite (fun _ => ?_) fun _ =>
    .pure placed
  refine .requiring placed fun placed => .requiring placed fun placed => ?_
  refine .requiring placed fun placed => ?_
  exact (assignments_places makes _ placed.reaches_spot).mono fun _ _ more => placed.append more

section Statement

variable {spot : Spot} (reaches : origin.Reaches spot)

include reaches

theorem insert_joins :
    (insert inner).Ensures spot fun tree later =>
      Joined origin (.statement (.insert tree)) spot later ∧
        tree.span = (spot.token 0).span.merge later.last := by
  unfold insert
  refine .step (on_currentSpan spot) (.passing (.nothing reaches) fun kind _ placed => ?_)
  refine .passing placed fun priority _ placed => .passing placed fun ignore _ placed => ?_
  refine .passing placed fun _ _ placed => ?_
  refine .placing placed tableName_makes.places fun table _ placed => ?_
  refine .placing placed partitions_places fun partitions _ placed => ?_
  refine .placing placed (insertSource_places makes) fun source _ placed => ?_
  refine .placing placed (onDuplicate_places makes kind) fun onDuplicate later placed => ?_
  refine .step (on_previousSpan later) (.pure ⟨?_, rfl⟩)
  refine (placed.begin_of_parts (by simp)).joined rfl ?_
  simp [Part.children, Statement.parts, Insert.parts]

/-! ### Updates -/

omit makes reaches in
instance (options : Bool × Bool) : (nextUpdateOption options).Passes := by
  unfold nextUpdateOption
  infer_instance

omit makes reaches in
instance : updateOptions.Passes := by
  rw [updateOptions_eq]
  exact passes_whileSome nextUpdateOption (false, false)

theorem update_joins :
    (update inner).Ensures spot fun tree later =>
      Joined origin (.statement (.update tree)) spot later ∧
        tree.span = (spot.token 0).span.merge later.last := by
  unfold update
  refine .beginning reaches fun placed => .passing placed fun options _ placed => ?_
  refine .placing placed (tableRefs_places makes) fun tables _ placed => ?_
  refine .requiring placed fun placed => ?_
  refine .placing placed (assignments_places makes) fun assignments _ placed => ?_
  refine .placing placed (whereClause_places makes) fun filter _ placed => ?_
  refine .placing placed (orderByClause_places makes) fun orderBy _ placed => ?_
  refine .placing placed (limitClause_places false) fun limit later placed => ?_
  exact .step (on_previousSpan later) (.pure ⟨placed.joined rfl rfl, rfl⟩)

/-! ### Deletes -/

omit makes reaches in
instance (options : DeleteOptions) : (nextDeleteOption options).Passes where
  passes origin spot reaches := by
    unfold nextDeleteOption
    refine .step (on_peek spot) ?_
    split
    · next more found =>
        have flat := Spot.flat_of_choice found rfl rfl rfl rfl rfl rfl
        exact .taking (.nothing reaches) flat fun placed => .pure placed
    · exact .pure (.nothing reaches)

omit makes reaches in
instance : deleteOptions.Passes := by
  rw [deleteOptions_eq]
  exact passes_whileSome nextDeleteOption {}

omit makes reaches in
theorem deleteTargets_places :
    deleteTargets.Places origin fun names => names.map .tableName := by
  have target : deleteTarget.Places origin fun name => [.tableName name] := by
    intro spot reaches
    unfold deleteTarget
    refine .placing (.nothing reaches) tableName_makes.places fun target middle placed => ?_
    refine .nextIs (fun dot => .aheadIs (fun star => ?_) fun _ => .pure placed) fun _ => .pure placed
    have starNext : middle.next.kind = .punct .star := by rw [Spot.kind, Spot.next_token, star]
    have placed := placed.pastDotted dot (Spot.flat_of_kind starNext)
    exact .step (on_advance _) (.step (on_advance _) (.pure placed))
  exact target.commaSeparated.congr fun _ => (List.map_eq_flatMap ..).symm

omit makes reaches in
theorem deleteTable_makes : deleteTable.Makes origin .table := by
  intro spot reaches
  unfold deleteTable
  refine (tableName_makes spot reaches).bind fun name _ made => ?_
  refine .placing made.begin partitions_places fun before _ placed => ?_
  refine .placing placed aliasName_places fun aliasName behind placed => .ite (fun empty => ?_) ?_
  · -- the partitions stand behind the alias
    have none_ : before = [] := List.isEmpty_iff.mp empty
    subst none_
    refine .placing placed partitions_places fun partitions later placed => ?_
    have swapped : Placed origin (some name.span) (.tableName name ::
        (partitions.map .ident ++ aliasName.toList.map .ident)) spot 0 later :=
      placed.perm (by simpa using List.perm_append_comm) (by simp)
    refine .step (on_previousSpan later) (.pure ?_)
    exact (swapped.joined rfl (by simp [Part.children])).made_of_ne (by simp)
  · intro _
    refine .step (on_pure before behind) (.step (on_previousSpan behind) (.pure ?_))
    exact (placed.joined rfl (by simp [Part.children])).made_of_ne (by simp)

theorem deleteUsing_places :
    (deleteUsing inner).Ensures spot fun found later =>
      Placed origin none (found.1.map .tableName ++ found.2.parts) spot 0 later := by
  unfold deleteUsing
  refine .placing (.nothing reaches) deleteTargets_places fun targets _ placed => ?_
  refine .requiring placed fun placed => ?_
  exact .placing placed (tableRefs_places makes) fun tables later placed => .pure placed

omit reaches in
theorem deleteSource_places :
    (deleteSource inner).Places origin fun found =>
      found.1.map .tableName ++ found.2.parts := by
  intro spot reaches
  have := makes.lawful
  unfold deleteSource
  refine .eat (fun found => ?_) fun _ => ?_
  · have past := (Placed.nothing reaches).past (spot.flat_of_kind found)
    refine .attempt (deleteUsing_places makes past.reaches_spot) ?_ ?_
    · exact fun form later placed => .pure (past.append placed)
    · exact .placing past deleteTable_makes.places fun table later placed => .pure placed
  · refine .placing (.nothing reaches) deleteTargets_places fun targets _ placed => ?_
    refine .requiring placed fun placed => ?_
    exact .placing placed (tableRefs_places makes) fun tables later placed => .pure placed

omit reaches in
theorem deleteTail_places (source : DeleteSource) :
    (deleteTail inner source).Places origin fun tail =>
      tail.1.map .term ++ tail.2.toList.map .limit := by
  intro spot reaches
  unfold deleteTail
  split
  · refine .placing (.nothing reaches) (orderByClause_places makes) fun orderBy _ placed => ?_
    exact .placing placed (limitClause_places false) fun limit later placed => .pure placed
  · exact .pure (.nothing reaches)

theorem delete_joins :
    (delete inner).Ensures spot fun tree later =>
      Joined origin (.statement (.delete tree)) spot later ∧
        tree.span = (spot.token 0).span.merge later.last := by
  unfold delete
  refine .beginning reaches fun placed => .passing placed fun options _ placed => ?_
  refine .placing placed (deleteSource_places makes) fun source _ placed => ?_
  refine .placing placed (whereClause_places makes) fun filter _ placed => ?_
  refine .placing placed (deleteTail_places makes source.2) fun tail later placed => ?_
  refine .step (on_previousSpan later) (.pure ⟨placed.joined rfl ?_, rfl⟩)
  simp [Part.children, Statement.parts, Delete.parts]

/-! ### Whole sources -/

/-- Of a statement no parentheses are left out. -/
theorem statement_makes :
    (statement inner).Ensures spot fun tree later =>
      Made origin (.statement tree) spot later ∧
        tree.span = (spot.token 0).span.merge later.last := by
  have inserts : Ensures (do return Statement.insert (← insert inner)) spot fun tree later =>
      Made origin (.statement tree) spot later ∧
        tree.span = (spot.token 0).span.merge later.last :=
    (insert_joins makes reaches).bind fun tree later facts =>
      .pure ⟨facts.1.made_of_ne (by simp), facts.2⟩
  unfold statement
  refine .step (on_peek spot) ?_
  split
  · exact inserts
  · exact inserts
  · exact (update_joins makes reaches).bind fun tree later facts =>
      .pure ⟨facts.1.made_of_ne (by simp), facts.2⟩
  · exact (delete_joins makes reaches).bind fun tree later facts =>
      .pure ⟨facts.1.made_of_ne (by simp), facts.2⟩
  · refine .ite (fun _ => ?_) fun _ => .fail
    exact (makes.exactQuery spot reaches).bind fun tree later facts =>
      .pure ⟨facts.1.around (by simp) rfl rfl, facts.2⟩

end Statement

omit makes in
/-- At every nesting limit below that of the parse. -/
theorem innerAt_makes {levels : Nat} (below : levels ≤ origin.settings.maxDepth) :
    (innerAt levels).Makes origin := by
  induction levels with
  | zero =>
      refine ⟨inferInstance, fun power => ?_, ?_, ?_⟩
      · rw [operand_zero]
        exact fun _ _ => .tooDeep
      · rw [query_zero]
        exact fun _ _ => .tooDeep
      · rw [tableInParens_zero]
        exact fun _ _ => .tooDeep
  | succ levels inductionHypothesis =>
      have makes := inductionHypothesis (by omega)
      have level : ∃ found, found ≤ origin.settings.maxDepth - 1 ∧
          innerAt levels = innerAt found := ⟨levels, by omega, rfl⟩
      refine ⟨inferInstance, fun power => ?_, ?_, ?_⟩
      · rw [operand_succ]
        exact fun spot reaches => .enter (operandBody_makes makes level power spot reaches)
      · rw [query_succ]
        exact fun spot reaches => .enter (wholeQuery_makes makes reaches)
      · rw [tableInParens_succ]
        exact fun spot reaches => .enter (tableInParensBody_makes makes spot reaches)

end Rule

end SqlDml
