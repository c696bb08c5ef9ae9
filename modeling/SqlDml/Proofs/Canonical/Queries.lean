import SqlDml.Proofs.Canonical.Clauses
import SqlDml.Proofs.Canonical.Primaries

/-!
Contract: select blocks and queries are read back from canonical text.

Owns:
- what it means that an entry of a select list, a select block and a term of a query are read;
- select blocks from their clauses;
- unions, common table expressions and whole queries.

Does not own: that all trees are read so.
-/

namespace SqlDml

open Rule

variable {settings : Settings} {inner : InnerRules} {rest : List Sign}

/-! ### Entries of select lists -/

/-- The rules read an entry of a select list from its signs, if its levels fit under the nesting
limit. -/
def SelectItem.ReadBy (settings : Settings) (inner : InnerRules) (fits : Prop) (item : SelectItem) :
    Prop :=
  ∀ {rest : List Sign}, (kindAt rest 0).endsItem = true →
    (selectItem inner).TakesIf fits settings.pipesAsConcat (item.signs settings ++ rest) rest item

/-- Whether an entry of a select list can begin with the token. -/
def TokenKind.beginsItem : TokenKind → Bool
  | .punct .star => true
  | kind => kind.beginsExpr

theorem TokenKind.beginsItem_of_expr {kind : TokenKind} (begins : kind.beginsExpr = true) :
    kind.beginsItem = true := by
  unfold beginsItem
  split <;> first | rfl | exact begins

/-- An entry of a select list does not begin with an option. -/
theorem addModifier_of_beginsItem {kind : TokenKind} (begins : kind.beginsItem = true)
    (modifiers : SelectModifiers) : addModifier modifiers kind = none := by
  unfold addModifier
  split <;> first | rfl | cases begins

theorem SelectItem.begins_signs {item : SelectItem} (all : (Node.item item).AllLegible settings)
    (rest : List Sign) : (kindAt (item.signs settings ++ rest) 0).beginsItem = true := by
  have ofName : ∀ {name : Ident}, name.Plain settings → (name.kind settings).beginsItem = true :=
    fun plain => TokenKind.beginsItem_of_expr (TokenKind.beginsExpr_of_operand
      (TokenKind.beginsOperand_of_isName plain.isName))
  cases item with
  | wildcard span => rfl
  | qualifiedWildcard schema table span =>
      rw [signs_qualifiedWildcard]
      cases schema with
      | none => exact ofName all.self.spelt
      | some schema => exact ofName all.self.spelt.1
  | expr value aliasName span =>
      have below : (Node.expr value).AllLegible settings := all.child (by simp)
      rw [signs_expr, List.append_assoc]
      exact TokenKind.beginsItem_of_expr (Expr.begins_signs below _)

theorem SelectItem.readBy [inner.Lawful] {item : SelectItem} {fits : Prop}
    (all : (Node.item item).AllLegible settings)
    (read : ∀ value aliasName span, item = .expr value aliasName span →
      value.ReadBy settings inner fits)
    (free : (∀ value aliasName span, item ≠ .expr value aliasName span) → fits) :
    item.ReadBy settings inner fits := by
  intro rest ends
  cases item with
  | wildcard span =>
      rw [signs_wildcard]
      unfold selectItem
      refine TakesIf.of_iff ?_ (iff_of_true trivial (free (by simp)))
      refine .nextIs_same rfl ?_
      exact .advance fun star _ => .pure
  | qualifiedWildcard schema table span =>
      exact (Takes.wildcard all.self.spelt).of_iff (iff_of_true trivial (free (by simp)))
  | expr value aliasName span =>
      exact .selectItem_expr (read value aliasName span rfl) (all.child (by simp)) all.self.spelt ends

/-! ### Select blocks -/

/-- The rules read a select block from its signs, if its levels fit. -/
def SelectCore.ReadBy (settings : Settings) (inner : InnerRules) (fits : Prop) (core : SelectCore) :
    Prop :=
  ∀ {rest : List Sign}, (kindAt rest 0).endsTerm = true → Untested core.isOpen rest →
    (selectCore inner).TakesIf fits settings.pipesAsConcat (core.signs settings ++ rest) rest core

/-- A select list does not begin with an option. -/
theorem begins_columns {columns : List SelectItem} (nonempty : columns ≠ [])
    (all : ∀ item ∈ columns, (Node.item item).AllLegible settings) (rest : List Sign) :
    (kindAt (Sign.commaList (columns.map (SelectItem.signs settings)) ++ rest) 0).beginsItem =
      true := by
  cases columns with
  | nil => exact absurd rfl nonempty
  | cons item columns =>
      rw [List.map_cons, Sign.commaList, List.append_assoc]
      exact SelectItem.begins_signs (all item List.mem_cons_self) _

theorem takes_columns [inner.Lawful] {columns : List SelectItem} {each : SelectItem → Prop}
    (nonempty : columns ≠ []) (reads : ∀ item ∈ columns, item.ReadBy settings inner (each item))
    (ends : (kindAt rest 0).endsColumns = true) :
    (commaSeparated (selectItem inner)).TakesIf (∀ item ∈ columns, each item) settings.pipesAsConcat
      (Sign.commaList (columns.map (SelectItem.signs settings)) ++ rest) rest columns := by
  have behind : (kindAt rest 0).endsItem = true := by
    unfold TokenKind.endsItem
    split
    · rfl
    · exact ends
  refine .commaSeparated nonempty (ne_of_holds ends rfl) fun item member tail tailed => ?_
  rcases tailed with rfl | ⟨_, _, _, rfl⟩
  · exact reads item member behind
  · exact reads item member rfl

theorem SelectCore.readBy [inner.Lawful] {core : SelectCore}
    {ofItem : SelectItem → Prop} {ofRef : TableRef → Prop} {each : Expr → Prop}
    (all : (Node.core core).AllLegible settings)
    (items : ∀ item ∈ core.columns, item.ReadBy settings inner (ofItem item))
    (sources : ∀ source ∈ core.sources, source.Reads settings inner (ofRef source))
    (filters : ∀ tree ∈ core.filter, tree.ReadBy settings inner (each tree))
    (groups : ∀ term ∈ core.groupBy, term.expr.ReadBy settings inner (each term.expr))
    (havings : ∀ tree ∈ core.having, tree.ReadBy settings inner (each tree)) :
    core.ReadBy settings inner
      ((∀ item ∈ core.columns, ofItem item) ∧ (∀ source ∈ core.sources, ofRef source) ∧
        (∀ tree ∈ core.filter, each tree) ∧ (∀ term ∈ core.groupBy, each term.expr) ∧
          ∀ tree ∈ core.having, each tree) := by
  intro rest ends noTest
  have nonempty : core.columns ≠ [] := all.self.spelt
  have shaped : core.withRollup = true → core.groupBy ≠ [] := all.self.shaped
  have refs : ∀ source ∈ core.sources, (Node.ref source).AllLegible settings :=
    fun source member => all.child (by simp [member])
  have entries : ∀ item ∈ core.columns, (Node.item item).AllLegible settings :=
    fun item member => all.child (by simp [member])
  obtain ⟨modifiers, columns, tables, filter, groupBy, rollup, having, place⟩ := core
  -- each clause ends in front of what any clause behind it begins with
  have behindGroups : (kindAt (Expr.optionalSigns settings [Sign.word .HAVING] having ++ rest)
      0).endsGroups = true :=
    ends_optional (fun sign first => head?_optionalSigns sign first ▸ rfl)
      (TokenKind.endsGroups_of_term ends)
  have behindFilter : (kindAt (OrderingTerm.groupSigns settings groupBy rollup ++
      (Expr.optionalSigns settings [Sign.word .HAVING] having ++ rest)) 0).endsFilter = true :=
    ends_optional (fun sign first => OrderingTerm.head?_groupSigns sign first ▸ rfl)
      (TokenKind.endsFilter_of_groups behindGroups)
  have behindSources : (kindAt (Expr.optionalSigns settings [Sign.word .WHERE] filter ++
      (OrderingTerm.groupSigns settings groupBy rollup ++
        (Expr.optionalSigns settings [Sign.word .HAVING] having ++ rest))) 0).endsSources = true :=
    ends_optional (fun sign first => head?_optionalSigns sign first ▸ rfl)
      (TokenKind.endsSources_of_filter behindFilter)
  have behindColumns : (kindAt (Sign.optionalList [.FROM] (tables.map (TableRef.signs settings)) ++
      (Expr.optionalSigns settings [Sign.word .WHERE] filter ++
        (OrderingTerm.groupSigns settings groupBy rollup ++
          (Expr.optionalSigns settings [Sign.word .HAVING] having ++ rest)))) 0).endsColumns = true :=
    ends_optional (fun sign first => head?_optionalList sign first ▸ rfl)
      (TokenKind.endsColumns_of_sources behindSources)
  have untested : Untested (tables.getLast?.any TableRef.isOpen)
      (Expr.optionalSigns settings [Sign.word .WHERE] filter ++
        (OrderingTerm.groupSigns settings groupBy rollup ++
          (Expr.optionalSigns settings [Sign.word .HAVING] having ++ rest))) := by
    refine .optional (fun sign first => by simp [head?_optionalSigns sign first])
      isNone_of_optionalSigns ?_
    refine .optional (fun sign first => by simp [OrderingTerm.head?_groupSigns sign first])
      OrderingTerm.isEmpty_of_groupSigns ?_
    exact .optional (fun sign first => by simp [head?_optionalSigns sign first])
      isNone_of_optionalSigns noTest
  rw [SelectCore.signs_mk]
  simp only [List.cons_append, List.append_assoc]
  unfold selectCore
  refine .expect rfl fun start => Takes.step (Takes.selectModifiers fun modifiers => ?_) ?_
  · exact addModifier_of_beginsItem (begins_columns nonempty entries _) modifiers
  refine (takes_columns nonempty items behindColumns).bind fun _ _ => ?_
  refine (TakesIf.fromClause sources refs behindSources untested).bind fun _ _ => ?_
  refine (TakesIf.whereClause filters behindFilter).bind fun _ _ => ?_
  refine (TakesIf.groupByClause shaped groups behindGroups).bind fun both same => ?_
  obtain ⟨terms, wanted⟩ := both
  have grouped : Alike .plain (groupBy, rollup).1 (terms, wanted).1 := .fst
  have rolled : Alike .plain (groupBy, rollup).2 (terms, wanted).2 := .snd
  have grouped : Alike .plain groupBy terms := grouped
  obtain rfl : rollup = wanted := rolled.eq
  refine (TakesIf.havingClause havings ends).bind_takes fun _ _ => ?_
  exact .previousSpan fun stop => .pure

/-! ### Queries -/

/-- What the rules read a term of a query from. -/
def QueryTerm.ReadBy (settings : Settings) (inner : InnerRules) (fits : Prop) : QueryTerm → Prop
  | .select core => core.ReadBy settings inner fits
  | .nested query => query.ReadBy settings inner fits

theorem QueryTerm.begins_signs (term : QueryTerm) (rest : List Sign) :
    kindAt (term.signs settings ++ rest) 0 = .keyword .SELECT ∨
      kindAt (term.signs settings ++ rest) 0 = .punct .leftParen := by
  cases term with
  | select core =>
      obtain ⟨modifiers, columns, sources, filter, groupBy, rollup, having, place⟩ := core
      rw [signs_select, SelectCore.signs_mk]
      exact .inl rfl
  | nested query =>
      rw [signs_nested]
      exact .inr rfl

namespace Rule.TakesIf

variable {fits : Prop} {each : QueryTerm → Prop}

theorem queryTerm {term : QueryTerm} (read : term.ReadBy settings inner fits)
    (ends : (kindAt rest 0).endsTerm = true) (noTest : Untested term.isOpen rest) :
    (Rule.queryTerm inner).TakesIf fits settings.pipesAsConcat (term.signs settings ++ rest) rest
      term := by
  unfold Rule.queryTerm
  refine .peek ?_
  cases term with
  | select core =>
      have opens : kindAt (core.signs settings ++ rest) 0 = .keyword .SELECT := by
        obtain ⟨modifiers, columns, sources, filter, groupBy, rollup, having, place⟩ := core
        rw [SelectCore.signs_mk]
        rfl
      have read : core.ReadBy settings inner fits := read
      rw [QueryTerm.signs_select, opens]
      exact (read ends noTest).bind_takes fun found _ => .pure
  | nested query =>
      have read : query.ReadBy settings inner fits := read
      rw [QueryTerm.signs_nested]
      simp only [Sign.parens, List.cons_append, List.append_assoc, List.nil_append]
      refine .advance fun _ _ => (read rfl .rightParen).bind_takes fun found _ => ?_
      exact .expect rfl fun _ => .pure

/-- A further term of a query, behind the words that unite it with those in front. -/
theorem nextCompound {compound : CompoundOp × QueryTerm} {before found : List (CompoundOp × QueryTerm)}
    (read : compound.2.ReadBy settings inner fits) (ends : (kindAt rest 0).endsTerm = true)
    (noTest : Untested compound.2.isOpen rest) (alike : Alike .plain before found) :
    (Rule.nextCompound inner found).TakesIf fits settings.pipesAsConcat
      (QueryTerm.unitedSigns settings compound ++ rest) rest (some (compound :: before)) := by
  obtain ⟨op, term⟩ := compound
  have begins := @QueryTerm.begins_signs settings term rest
  have united : compoundOp.Takes settings.pipesAsConcat
      (op.keywords.tail.map Sign.word ++ (term.signs settings ++ rest)) (term.signs settings ++ rest)
      op := by
    unfold compoundOp
    cases op with
    | unionAll => exact .eat rfl .pure
    | union =>
        refine .eat_none ?_ (.eat_none ?_ .pure)
        all_goals
          intro same
          rcases begins with kind | kind <;> cases kind.symm.trans same
  have opened : QueryTerm.unitedSigns settings (op, term) ++ rest = Sign.word .UNION ::
      (op.keywords.tail.map Sign.word ++ (term.signs settings ++ rest)) := by
    cases op <;> simp [QueryTerm.unitedSigns, CompoundOp.keywords]
  rw [opened]
  unfold Rule.nextCompound
  refine .eat rfl (Takes.step united ?_)
  exact (queryTerm read ends noTest).bind_takes fun value _ => .pure

omit settings in
/-- The last term is the last one behind the first term. -/
theorem last_cons {first : QueryTerm} {compound : CompoundOp × QueryTerm}
    {compounds : List (CompoundOp × QueryTerm)} :
    ((compound :: compounds).getLast?.map Prod.snd).getD first =
      (compounds.getLast?.map Prod.snd).getD compound.2 := by
  rw [List.getLast?_cons]
  cases compounds.getLast? <;> rfl

/-- What stands behind a term, where the end of the last one is not taken for open. -/
theorem behind_term {term : QueryTerm} {compounds : List (CompoundOp × QueryTerm)}
    (ends : (kindAt rest 0).endsBody = true)
    (noTest : Untested ((compounds.getLast?.map Prod.snd).getD term).isOpen rest) :
    (kindAt (compounds.flatMap (QueryTerm.unitedSigns settings) ++ rest) 0).endsTerm = true ∧
      Untested term.isOpen (compounds.flatMap (QueryTerm.unitedSigns settings) ++ rest) := by
  cases compounds with
  | nil => exact ⟨TokenKind.endsTerm_of_body ends, noTest⟩
  | cons next others =>
      obtain ⟨op, term⟩ := next
      cases op <;> exact ⟨rfl, .of_ne (by simp [QueryTerm.unitedSigns, CompoundOp.keywords])⟩

variable [inner.Lawful]

theorem compounds {first : QueryTerm} {compounds before found : List (CompoundOp × QueryTerm)}
    (reads : ∀ compound ∈ compounds, compound.2.ReadBy settings inner (each compound.2))
    (ends : (kindAt rest 0).endsBody = true)
    (noTest : Untested ((compounds.getLast?.map Prod.snd).getD first).isOpen rest)
    (alike : Alike .plain before found) :
    (whileSome (Rule.nextCompound inner) found).TakesIf (∀ compound ∈ compounds, each compound.2)
      settings.pipesAsConcat (compounds.flatMap (QueryTerm.unitedSigns settings) ++ rest) rest
      (compounds.reverse ++ before) := by
  induction compounds generalizing first before found with
  | nil =>
      refine of_iff (.whileSome_stop ?_ alike) (by simp)
      exact .eat_none (ne_of_holds ends rfl) .pure
  | cons compound compounds inductionHypothesis =>
      rw [List.forall_mem_cons] at reads
      rw [last_cons] at noTest
      obtain ⟨behind, untested⟩ := @behind_term settings _ _ _ ends noTest
      rw [List.flatMap_cons, List.append_assoc, List.reverse_cons, List.append_assoc,
        List.singleton_append]
      refine (whileSome_more (nextCompound reads.1 behind untested alike) fun next same =>
        inductionHypothesis reads.2 noTest same).of_iff ?_
      simp

theorem queryBody {body : QueryBody} (first : body.first.ReadBy settings inner (each body.first))
    (others : ∀ compound ∈ body.compounds, compound.2.ReadBy settings inner (each compound.2))
    (ends : (kindAt rest 0).endsBody = true) (noTest : Untested body.last.isOpen rest) :
    (Rule.queryBody inner).TakesIf
      (each body.first ∧ ∀ compound ∈ body.compounds, each compound.2) settings.pipesAsConcat
      (body.signs settings ++ rest) rest body := by
  obtain ⟨term, united, place⟩ := body
  have noTest : Untested ((united.getLast?.map Prod.snd).getD term).isOpen rest := noTest
  obtain ⟨behind, untested⟩ := @behind_term settings _ _ _ ends noTest
  rw [QueryBody.signs, List.append_assoc, queryBody_eq]
  refine .currentSpan fun start => (queryTerm first behind untested).bind fun found _ => ?_
  refine (compounds others ends noTest (.plain_self [])).bind_takes fun found same => ?_
  have alike : Alike .plain united found.reverse := .of_reverse same
  exact .previousSpan fun stop => .pure

/-! ### Common table expressions -/

omit [inner.Lawful] in
theorem commonTable {table : CommonTable} (spelt : table.Spelt settings)
    (read : table.query.ReadBy settings inner fits) :
    (Rule.commonTable inner).TakesIf fits settings.pipesAsConcat (table.signs settings ++ rest) rest
      table := by
  obtain ⟨name, columns, query, place⟩ := table
  obtain ⟨plain, listed⟩ := spelt
  have read : query.ReadBy settings inner fits := read
  have tables : ∀ found : List Ident, Alike .plain columns found → ∀ named : Ident,
      Alike .plain name named → (do
        let _ ← expectWord .AS
        let _ ← expectMark .leftParen
        let query ← inner.query
        let stop ← expectMark .rightParen
        return CommonTable.mk named found query (named.span.merge stop)).TakesIf fits
          settings.pipesAsConcat (Sign.word .AS :: (Sign.parens (query.signs settings) ++ rest)) rest
          (CommonTable.mk name columns query place) := by
    intro found alike named same
    simp only [Sign.parens, List.cons_append, List.append_assoc, List.nil_append]
    refine .expect rfl fun _ => .expect rfl fun _ => (read rfl .rightParen).bind_takes fun query _ => ?_
    exact .expect rfl fun stop => .pure
  rw [CommonTable.signs_mk]
  simp only [List.cons_append, List.append_assoc]
  unfold Rule.commonTable
  refine (Takes.identifier plain).bind fun named same => .nextIs _ ?_
  cases columns with
  | nil => exact (pure (α := List Ident)).bind fun found alike => tables found alike named same
  | cons column columns =>
      have opens : Ident.optionalSigns settings [] (column :: columns) =
          Ident.listSigns settings (column :: columns) := rfl
      rw [opens, if_pos (by simp [Ident.listSigns, Sign.parens])]
      exact (Takes.identsInParens (List.cons_ne_nil _ _) listed).bind fun found alike =>
        tables found alike named same

theorem withClause {found : Option WithClause}
    (spelt : ∀ clause ∈ found, clause.tables ≠ [] ∧ ∀ table ∈ clause.tables, table.Spelt settings)
    {ofQuery : Query → Prop}
    (reads : ∀ clause ∈ found, ∀ table ∈ clause.tables,
      table.query.ReadBy settings inner (ofQuery table.query))
    (noWith : kindAt rest 0 ≠ .keyword .WITH) (noComma : kindAt rest 0 ≠ .punct .comma) :
    (Rule.withClause inner).TakesIf
      (∀ clause ∈ found, ∀ table ∈ clause.tables, ofQuery table.query) settings.pipesAsConcat
      (WithClause.signs settings found ++ rest) rest found := by
  cases found with
  | none => exact of_iff (takes_withClause_none noWith) (by simp)
  | some clause =>
      obtain ⟨recursive, tables, place⟩ := clause
      obtain ⟨nonempty, plain⟩ := spelt _ rfl
      have reads : ∀ table ∈ tables, table.query.ReadBy settings inner (ofQuery table.query) :=
        reads _ rfl
      have those : (∀ table ∈ tables, ofQuery table.query) ↔
          ∀ clause ∈ some (WithClause.mk recursive tables place), ∀ table ∈ clause.tables,
            ofQuery table.query := by simp
      refine of_iff ?_ those
      have listed : (Rule.commaSeparated (Rule.commonTable inner)).TakesIf
          (∀ table ∈ tables, ofQuery table.query) settings.pipesAsConcat
          (Sign.commaList (tables.map (CommonTable.signs settings)) ++ rest) rest tables :=
        commaSeparated nonempty noComma fun table member tail _ =>
          commonTable (plain table member) (reads table member)
      have noWord : kindAt (Sign.commaList (tables.map (CommonTable.signs settings)) ++ rest) 0 ≠
          .keyword .RECURSIVE := by
        cases tables with
        | nil => exact absurd rfl nonempty
        | cons table tables =>
            obtain ⟨name, columns, query, place⟩ := table
            have named : name.Plain settings := (plain _ List.mem_cons_self).1
            rw [List.map_cons, Sign.commaList, CommonTable.signs_mk]
            exact ne_of_holds named.isName rfl
      simp only [WithClause.signs, List.cons_append, List.append_assoc]
      unfold Rule.withClause
      refine .nextIs_same rfl ?_
      refine .expect rfl fun start => ?_
      cases recursive with
      | true => exact .eat rfl (listed.bind_takes fun found _ => .previousSpan fun stop => .pure)
      | false => exact .eat_none noWord (listed.bind_takes fun found _ => .previousSpan fun stop => .pure)

end Rule.TakesIf

/-! ### Whole queries -/

theorem Query.takes_whole [inner.Lawful] {query : Query} {ofQuery : Query → Prop}
    {ofTerm : QueryTerm → Prop} {each : Expr → Prop}
    (all : (Node.query query).AllLegible settings)
    (tables : ∀ clause ∈ query.withClause, ∀ table ∈ clause.tables,
      table.query.ReadBy settings inner (ofQuery table.query))
    (first : query.body.first.ReadBy settings inner (ofTerm query.body.first))
    (others : ∀ compound ∈ query.body.compounds,
      compound.2.ReadBy settings inner (ofTerm compound.2))
    (terms : ∀ term ∈ query.orderBy, term.expr.ReadBy settings inner (each term.expr))
    (ends : (kindAt rest 0).endsQuery = true) (noTest : Untested query.isOpen rest) :
    (wholeQuery inner).TakesIf
      ((∀ clause ∈ query.withClause, ∀ table ∈ clause.tables, ofQuery table.query) ∧
        (ofTerm query.body.first ∧ ∀ compound ∈ query.body.compounds, ofTerm compound.2) ∧
          ∀ term ∈ query.orderBy, each term.expr)
      settings.pipesAsConcat (query.signs settings ++ rest) rest query := by
  have spelt := all.self.spelt
  obtain ⟨limited, locked⟩ := all.self.shaped
  have numbers : ∀ found ∈ query.limit, found.count.Spelt settings ∧
      ∀ offset ∈ found.offset, offset.Spelt settings := by
    intro found member
    rw [Option.mem_def] at member
    have counted : (Node.expr found.count).AllLegible settings := all.child (by simp [member])
    refine ⟨counted.self.spelt, fun offset among => ?_⟩
    rw [Option.mem_def] at among
    have skipped : (Node.expr offset).AllLegible settings := all.child (by simp [member, among])
    exact skipped.self.spelt
  have named : ∀ found ∈ query.locking, ∀ table ∈ found.tables, table.Named settings := by
    intro found member table among
    rw [Option.mem_def] at member
    have below : (Node.tableName table).AllLegible settings := all.child (by simp [member, among])
    exact below.self.spelt
  obtain ⟨clause, body, orderBy, limit, locking, place⟩ := query
  have behindLimit : (kindAt (LockingClause.signs settings locking ++ rest) 0).endsLimit = true :=
    ends_optional (fun sign first => (LockingClause.head?_signs sign first).1)
      (TokenKind.endsLimit_of_query ends)
  have behindOrder : (kindAt (LimitClause.signs settings limit ++
      (LockingClause.signs settings locking ++ rest)) 0).endsOrder = true :=
    ends_optional (fun sign first => LimitClause.head?_signs sign first ▸ rfl)
      (TokenKind.endsOrder_of_limit behindLimit)
  have behindBody : (kindAt (OrderingTerm.listSigns settings [.ORDER, .BY] orderBy ++
      (LimitClause.signs settings limit ++ (LockingClause.signs settings locking ++ rest)))
        0).endsBody = true :=
    ends_optional (fun sign first => head?_optionalList sign first ▸ rfl)
      (TokenKind.endsBody_of_order behindOrder)
  have untested : Untested body.last.isOpen
      (OrderingTerm.listSigns settings [.ORDER, .BY] orderBy ++ (LimitClause.signs settings limit ++
        (LockingClause.signs settings locking ++ rest))) := by
    refine .optional (fun sign first => by simp [head?_optionalList sign first])
      isEmpty_of_optionalList ?_
    refine .optional (fun sign first => by simp [LimitClause.head?_signs sign first])
      LimitClause.isNone_of_signs ?_
    exact .optional (fun sign first => (LockingClause.head?_signs sign first).2)
      LockingClause.isNone_of_signs noTest
  have opens : ∀ tail, kindAt (body.signs settings ++ tail) 0 ≠ .keyword .WITH ∧
      kindAt (body.signs settings ++ tail) 0 ≠ .punct .comma := by
    intro tail
    rw [QueryBody.signs, List.append_assoc]
    rcases body.first.begins_signs _ with kind | kind <;> rw [kind] <;> simp
  rw [Query.signs_mk]
  simp only [List.append_assoc]
  unfold wholeQuery
  refine .currentSpan fun start => ?_
  refine (TakesIf.withClause spelt tables (opens _).1 (opens _).2).bind fun _ _ => ?_
  refine (TakesIf.queryBody first others behindBody untested).bind fun _ _ => ?_
  refine (TakesIf.orderByClause terms behindOrder).bind_takes fun _ _ => ?_
  refine (Takes.limitClause limited numbers behindLimit).bind fun _ _ => ?_
  refine (Takes.lockingClause locked named ends).bind fun _ _ => ?_
  exact .previousSpan fun stop => .pure

end SqlDml
