import SqlDml.Proofs.Canonical.Operators

/-!
Contract: table references are read back from canonical text.

Owns:
- index hints and named tables;
- what it means that a table reference is read, alone or with others joined to it;
- joins and their conditions, derived tables and references in parentheses.

Does not own: queries.
-/

namespace SqlDml

open Rule

variable {settings : Settings} {rest : List Sign}

/-- Signs in front of which a table ends.  Behind a comma no index hint follows. -/
structure EndsTable (rest : List Sign) : Prop where
  ends : (kindAt rest 0).endsTable = true
  noHint : kindAt rest 0 = .punct .comma → hintAction? (kindAt rest 1) = none

namespace TokenKind

/-- Whether the alias of a table ends in front of the token. -/
def endsAlias : TokenKind → Bool
  | .keyword .USE | .keyword .IGNORE | .keyword .FORCE => true
  | kind => kind.endsTable

theorem not_isName_of_endsAlias {kind : TokenKind} (ends : kind.endsAlias = true) :
    kind.isName = false := by
  cases isName : kind.isName with
  | false => rfl
  | true =>
      cases kind with
      | keyword keyword => cases keyword <;> first | (cases isName; done) | cases ends
      | _ => first | (cases isName; done) | cases ends

end TokenKind

/-! ### Index hints -/

namespace Rule.Takes

variable {concat : Bool}

theorem hintScope {scope : Option IndexHintScope} (noFor : kindAt rest 0 ≠ .keyword .FOR) :
    Rule.hintScope.Takes concat (IndexHintScope.signs scope ++ rest) rest scope := by
  unfold Rule.hintScope
  rcases scope with _ | _ | _ | _
  · exact .eat_none noFor .pure
  · exact .eat rfl (.eat rfl .pure)
  · exact .eat rfl (.eat_none (by simp) (.eat rfl (.expect rfl fun _ => .pure)))
  · exact .eat rfl (.eat_none (by simp) (.eat_none (by simp) (.eat rfl (.expect rfl fun _ => .pure))))

theorem indexHint {hint : IndexHint} (shaped : hint.Shaped)
    (plain : ∀ index ∈ hint.indexes, index.Plain settings) :
    (Rule.indexHint hint.action).Takes concat (hint.signs settings ++ rest) rest hint := by
  obtain ⟨action, scope, indexes, place⟩ := hint
  simp only [IndexHint.signs, List.cons_append, List.append_assoc]
  unfold Rule.indexHint
  refine .advance fun start _ => .advance fun _ _ => ?_
  refine (hintScope (by simp [Ident.listSigns, Sign.parens])).bind fun found same => ?_
  obtain rfl := same.eq
  by_cases use : action = .use
  · rw [if_pos use]
    exact (identsInParensOrNone plain).bind fun _ _ => .previousSpan fun _ => .pure
  · rw [if_neg use]
    exact (identsInParens (fun none => use (shaped none)) plain).bind fun _ _ =>
      .previousSpan fun _ => .pure

/-- Behind an index hint no comma is skipped. -/
theorem skipHintComma (behind : kindAt rest 0 = .punct .comma → hintAction? (kindAt rest 1) = none) :
    Rule.skipHintComma.Takes concat rest rest () := by
  unfold Rule.skipHintComma
  refine .nextIs _ ?_
  split
  · next comma =>
      refine .peekAhead 1 ?_
      rw [behind (of_decide_eq_true comma)]
      exact .pure
  · exact .pure

theorem nextHints {hints : List IndexHint} (shaped : ∀ hint ∈ hints, hint.Shaped)
    (plain : ∀ hint ∈ hints, ∀ index ∈ hint.indexes, index.Plain settings)
    (noHint : hintAction? (kindAt rest 0) = none)
    (noComma : kindAt rest 0 = .punct .comma → hintAction? (kindAt rest 1) = none)
    {before found : List IndexHint} (alike : Alike .plain before found) :
    (whileSome nextHint found).Takes concat (hints.flatMap (IndexHint.signs settings) ++ rest) rest
      (hints.reverse ++ before) := by
  induction hints generalizing before found with
  | nil =>
      refine .whileSome_stop ?_ alike
      unfold nextHint
      refine .peek ?_
      rw [List.flatMap_nil, List.nil_append, noHint]
      exact .pure
  | cons hint hints inductionHypothesis =>
      rw [List.forall_mem_cons] at shaped plain
      have behind : kindAt (hints.flatMap (IndexHint.signs settings) ++ rest) 0 = .punct .comma →
          hintAction? (kindAt (hints.flatMap (IndexHint.signs settings) ++ rest) 1) = none := by
        cases hints with
        | nil => exact noComma
        | cons next hints => simp [IndexHint.signs]
      have action : hintAction? (.keyword hint.action.keyword) = some hint.action := by
        cases hint.action <;> rfl
      have more : (nextHint found).Takes concat
          (hint.signs settings ++ (hints.flatMap (IndexHint.signs settings) ++ rest))
          (hints.flatMap (IndexHint.signs settings) ++ rest) (some (hint :: before)) := by
        unfold nextHint
        refine .peek ?_
        simp only [IndexHint.signs, List.cons_append, kindAt_zero, Sign.word_kind, action]
        refine .peekAhead 1 ?_
        exact (indexHint shaped.1 plain.1).bind fun value _ =>
          (skipHintComma behind).bind fun _ _ => .pure
      rw [List.flatMap_cons, List.append_assoc, List.reverse_cons, List.append_assoc,
        List.singleton_append]
      exact whileSome_more more fun next same => inductionHypothesis shaped.2 plain.2 same

theorem indexHints {hints : List IndexHint} (shaped : ∀ hint ∈ hints, hint.Shaped)
    (plain : ∀ hint ∈ hints, ∀ index ∈ hint.indexes, index.Plain settings)
    (behind : EndsTable rest) :
    Rule.indexHints.Takes concat (hints.flatMap (IndexHint.signs settings) ++ rest) rest hints := by
  have noHint : hintAction? (kindAt rest 0) = none := by
    have ends := behind.ends
    generalize kindAt rest 0 = kind at ends
    unfold hintAction?
    split <;> first | cases ends | rfl
  rw [indexHints_eq]
  refine (nextHints shaped plain noHint behind.noHint (.plain_self [])).bind fun found same => ?_
  have alike : Alike .plain hints found.reverse := .of_reverse same
  exact .pure

/-! ### Named tables -/

theorem namedTable {table : NamedTable} (named : table.name.Named settings)
    (spelt : table.Spelt settings) (shaped : table.Shaped) (behind : EndsTable rest) :
    Rule.namedTable.Takes concat (table.signs settings ++ rest) rest table := by
  obtain ⟨name, parts, label, hints, place⟩ := table
  obtain ⟨partsPlain, labelPlain, hintsPlain⟩ := spelt
  have endsAlias : (kindAt (hints.flatMap (IndexHint.signs settings) ++ rest) 0).endsAlias = true := by
    cases hints with
    | nil =>
        have ends := behind.ends
        unfold TokenKind.endsAlias
        split <;> first | rfl | exact ends
    | cons hint hints =>
        have kind : (TokenKind.keyword hint.action.keyword).endsAlias = true := by
          cases hint.action <;> rfl
        exact kind
  have noPartition : kindAt (Ident.aliasSigns settings label ++
      (hints.flatMap (IndexHint.signs settings) ++ rest)) 0 ≠ .keyword .PARTITION := by
    cases label with
    | none => exact ne_of_holds endsAlias rfl
    | some ident => simp [Ident.aliasSigns]
  have noDot : kindAt (Ident.optionalSigns settings [Sign.word .PARTITION] parts ++
      (Ident.aliasSigns settings label ++
        (hints.flatMap (IndexHint.signs settings) ++ rest))) 0 ≠ .punct .dot := by
    unfold Ident.optionalSigns
    split
    · cases label with
      | none => exact ne_of_holds endsAlias rfl
      | some ident => simp [Ident.aliasSigns]
    · simp
  rw [NamedTable.signs_mk]
  simp only [List.append_assoc]
  unfold Rule.namedTable
  refine (tableName named noDot).bind fun _ _ => (partitions partsPlain noPartition).bind fun _ _ => ?_
  refine (aliasName labelPlain (ne_of_holds endsAlias rfl)
    (TokenKind.not_isName_of_endsAlias endsAlias)).bind fun _ _ => ?_
  exact (indexHints shaped hintsPlain behind).bind fun _ _ => .previousSpan fun _ => .pure

/-! ### Joins -/

theorem joinWord (join : JoinType) :
    (Rule.joinWord join).Takes concat (Sign.word .JOIN :: rest) rest (some join) := by
  unfold Rule.joinWord
  exact .expect rfl fun _ => .pure

/-- The words of a join are read as that join. -/
theorem joinType (join : JoinType) :
    Rule.joinType.Takes concat (join.keywords.map Sign.word ++ rest) rest (some join) := by
  unfold Rule.joinType
  refine .peek ?_
  cases join with
  | inner => exact .advance fun _ _ => joinWord .inner
  | cross => exact .advance fun _ _ => joinWord .cross
  | straight => exact .advance fun _ _ => .pure
  | left => exact .advance fun _ _ => .eat_none (by simp) (joinWord .left)
  | right => exact .advance fun _ _ => .eat_none (by simp) (joinWord .right)
  | natural =>
      have plain : naturalJoin.Takes concat (Sign.word .JOIN :: rest) (Sign.word .JOIN :: rest)
          JoinType.natural :=
        .eat_none (by simp) (.eat_none (by simp) (.eat_none (by simp) .pure))
      exact .advance fun _ _ => plain.step (joinWord .natural)
  | naturalLeft =>
      have left : naturalJoin.Takes concat (Sign.word .LEFT :: Sign.word .JOIN :: rest)
          (Sign.word .JOIN :: rest) JoinType.naturalLeft :=
        .eat rfl (.eat_none (by simp) .pure)
      exact .advance fun _ _ => left.step (joinWord .naturalLeft)
  | naturalRight =>
      have right : naturalJoin.Takes concat (Sign.word .RIGHT :: Sign.word .JOIN :: rest)
          (Sign.word .JOIN :: rest) JoinType.naturalRight :=
        .eat_none (by simp) (.eat rfl (.eat_none (by simp) .pure))
      exact .advance fun _ _ => right.step (joinWord .naturalRight)

/-- Where a table reference ends nothing is joined. -/
theorem joinType_none (ends : (kindAt rest 0).endsRef = true) :
    Rule.joinType.Takes concat rest rest none := by
  unfold Rule.joinType
  refine .peek ?_
  generalize kindAt rest 0 = kind at ends
  split <;> first | cases ends | exact .pure

end Rule.Takes

/-- A condition of a join as the next nesting level reads it, if its levels fit. -/
def JoinCondition.ReadBy (settings : Settings) (inner : InnerRules) (fits : Prop) :
    JoinCondition → Prop
  | .on condition => condition.ReadBy settings inner fits
  | .using columns => fits ∧ columns ≠ [] ∧ ∀ column ∈ columns, column.Plain settings

/-- Where another condition could stand there is none. -/
structure EndsJoin (open_ : Bool) (rest : List Sign) : Prop extends EndsTable rest where
  noTest : Untested open_ rest
  noUsing : kindAt rest 0 ≠ .keyword .USING

theorem TableRef.isOpen_joined {left right : TableRef} {join : JoinType}
    {condition : Option JoinCondition} {span : Span} :
    (joined left join right condition span).isOpen =
      (condition.isNone && !join.forbidsCondition) := by
  cases condition <;> rfl

namespace Rule.TakesIf

variable {inner : InnerRules} {fits : Prop}

theorem onCondition_none (noOn : kindAt rest 0 ≠ .keyword .ON) :
    (Rule.onCondition inner).Takes settings.pipesAsConcat rest rest none := by
  unfold Rule.onCondition
  exact .eat_none noOn .pure

theorem onCondition_some {condition : Expr} (read : condition.ReadBy settings inner fits)
    (ends : (kindAt rest 0).endsTable = true) :
    (Rule.onCondition inner).TakesIf fits settings.pipesAsConcat
      (JoinCondition.signs settings (some (.on condition)) ++ rest) rest (some (.on condition)) := by
  unfold Rule.onCondition
  exact .eat rfl ((read.alone (TokenKind.endsExpr_of_table ends)).bind_takes fun value _ => .pure)

/-- The condition of a join that may have one of either kind. -/
theorem onOrUsing {condition : Option JoinCondition} {each : JoinCondition → Prop}
    (read : ∀ test ∈ condition, test.ReadBy settings inner (each test))
    (behind : EndsJoin condition.isNone rest) :
    (Rule.onOrUsing inner).TakesIf (∀ test ∈ condition, each test) settings.pipesAsConcat
      (JoinCondition.signs settings condition ++ rest) rest condition := by
  have one : ∀ test, each test ↔ ∀ found ∈ some test, each found := by simp
  have absent : True ↔ ∀ found ∈ (none : Option JoinCondition), each found := by simp
  unfold Rule.onOrUsing
  rcases condition with _ | condition | columns
  · refine of_iff ?_ absent
    exact Takes.bind_none (onCondition_none (behind.noTest rfl)) (.eat_none behind.noUsing .pure)
  · refine ((onCondition_some (read _ rfl) behind.ends).bind_takes ?_).of_iff (one _)
    exact forall_alike_some fun value same => .pure
  · obtain ⟨enough, nonempty, plain⟩ := read _ rfl
    refine of_iff ?_ ((iff_of_true trivial enough).trans (one _))
    refine Takes.bind_none (onCondition_none (by simp [JoinCondition.signs])) (.eat rfl ?_)
    exact (Takes.identsInParens nonempty plain).bind fun values _ => .pure

/-- A join is read with the condition that it may have. -/
theorem joinCondition {join : JoinType} {condition : Option JoinCondition}
    {each : JoinCondition → Prop} (admits : join.Admits condition)
    (read : ∀ test ∈ condition, test.ReadBy settings inner (each test))
    (behind : EndsJoin (condition.isNone && !join.forbidsCondition) rest) :
    (Rule.joinCondition inner join).TakesIf (∀ test ∈ condition, each test) settings.pipesAsConcat
      (JoinCondition.signs settings condition ++ rest) rest condition := by
  have one : ∀ test, each test ↔ ∀ found ∈ some test, each found := by simp
  have absent : True ↔ ∀ found ∈ (none : Option JoinCondition), each found := by simp
  have either : join.forbidsCondition = false →
      (Rule.onOrUsing inner).TakesIf (∀ test ∈ condition, each test) settings.pipesAsConcat
        (JoinCondition.signs settings condition ++ rest) rest condition := by
    intro free
    rw [free, Bool.not_false, Bool.and_true] at behind
    exact onOrUsing read behind
  unfold Rule.joinCondition
  cases join with
  | natural =>
      cases admits
      exact pure.of_iff absent
  | naturalLeft =>
      cases admits
      exact pure.of_iff absent
  | naturalRight =>
      cases admits
      exact pure.of_iff absent
  | straight =>
      rcases condition with _ | condition | columns
      · exact (onCondition_none (behind.noTest rfl)).of_iff absent
      · exact (onCondition_some (read _ rfl) behind.ends).of_iff (one _)
      · exact absurd rfl (admits columns)
  | left =>
      obtain ⟨test, rfl⟩ := Option.isSome_iff_exists.mp admits
      exact (either rfl).bind_takes (forall_alike_some fun value same => .pure)
  | right =>
      obtain ⟨test, rfl⟩ := Option.isSome_iff_exists.mp admits
      exact (either rfl).bind_takes (forall_alike_some fun value same => .pure)
  | inner =>
      cases condition with
      | none => exact (either rfl).bind_takes (forall_alike_none .pure)
      | some test => exact (either rfl).bind_takes (forall_alike_some fun value same => .pure)
  | cross =>
      cases condition with
      | none => exact (either rfl).bind_takes (forall_alike_none .pure)
      | some test => exact (either rfl).bind_takes (forall_alike_some fun value same => .pure)

end Rule.TakesIf

/-! ### Table references -/

/-- The rules for table references read one from its signs, if its levels fit under the nesting limit.
What is not joined is read as one table.  Whatever is joined behind it, it is read in front. -/
structure TableRef.Reads (settings : Settings) (inner : InnerRules) (fits : Prop) (tree : TableRef) :
    Prop where
  factor : tree.isJoined = false → ∀ {rest : List Sign}, EndsTable rest →
    (tableFactor inner).TakesIf fits settings.pipesAsConcat (tree.signs settings ++ rest) rest tree
  chain : ∀ {rest after : List Sign} {whole : TableRef} {others : Prop}, EndsJoin tree.isOpen rest →
    (∀ left, Alike .plain tree left → (whileSome (extendJoin inner) left).TakesIf others
      settings.pipesAsConcat rest after whole) →
    (tableRef inner).TakesIf (fits ∧ others) settings.pipesAsConcat (tree.signs settings ++ rest)
      after whole

/-- A named table begins with a name. -/
theorem NamedTable.begins_signs {table : NamedTable} (names : table.name.Named settings)
    (rest : List Sign) : (kindAt (table.signs settings ++ rest) 0).isName = true := by
  obtain ⟨name, parts, label, hints, place⟩ := table
  rw [NamedTable.signs_mk, List.append_assoc]
  exact TableName.begins_signs names _

namespace TableRef.Reads

variable {inner : InnerRules} {tree left right : TableRef} {span : Span} {fits others : Prop}

theorem of_iff (reads : tree.Reads settings inner fits) (same : fits ↔ others) :
    tree.Reads settings inner others :=
  propext same ▸ reads

theorem alone [inner.Lawful] (reads : tree.Reads settings inner fits)
    (ends : (kindAt rest 0).endsRef = true)
    (noHint : kindAt rest 0 = .punct .comma → hintAction? (kindAt rest 1) = none)
    (noTest : Untested tree.isOpen rest) :
    (tableRef inner).TakesIf fits settings.pipesAsConcat (tree.signs settings ++ rest) rest tree := by
  have behind : EndsJoin tree.isOpen rest :=
    ⟨⟨TokenKind.endsTable_of_ref ends, noHint⟩, noTest, ne_of_holds ends rfl⟩
  refine (reads.chain behind fun left alike => TakesIf.whileSome_stop ?_ alike).of_iff
    (and_iff_left trivial)
  unfold extendJoin
  exact (Takes.joinType_none ends).bind_none .pure

/-- Table references with commas between them: all of them must fit. -/
theorem list [inner.Lawful] {trees : List TableRef} {each : TableRef → Prop} (nonempty : trees ≠ [])
    (reads : ∀ tree ∈ trees, tree.Reads settings inner (each tree))
    (all : ∀ tree ∈ trees, (Node.ref tree).AllLegible settings)
    (ends : (kindAt rest 0).endsSources = true)
    (noTest : Untested (trees.getLast?.any TableRef.isOpen) rest) :
    (tableRefs inner).TakesIf (∀ tree ∈ trees, each tree) settings.pipesAsConcat
      (Sign.commaList (trees.map (TableRef.signs settings)) ++ rest) rest trees := by
  refine TakesIf.commaSeparatedInTurn nonempty (ne_of_holds ends rfl) fun tree others within => ?_
  have read := reads tree (within.mem List.mem_cons_self)
  cases others with
  | nil =>
      -- only the last one stands in front of what follows the list
      have last : trees.getLast? = some tree := by
        obtain ⟨front, rfl⟩ := within
        simp
      rw [last] at noTest
      exact read.alone (TokenKind.endsRef_of_sources ends)
        (fun comma => absurd comma (ne_of_holds ends rfl)) noTest
  | cons next others =>
      have among : next ∈ trees := within.mem (List.mem_cons_of_mem _ List.mem_cons_self)
      refine read.alone rfl (fun _ => ?_) (.of_ne (by simp [Sign.behindCommas]))
      simp only [List.map_cons, Sign.behindCommas, List.flatMap_cons, List.cons_append,
        List.append_assoc, kindAt_succ]
      have begins := begins_signs (all next among)
        (others.map (TableRef.signs settings) |>.flatMap (Sign.mark .comma :: ·) |>.append rest)
      generalize kindAt (next.signs settings ++ _) 0 = kind at begins
      unfold hintAction?
      split <;> first | cases begins | rfl

/-- A table that is read as one. -/
theorem of_factor [inner.Lawful]
    (factor : ∀ {rest : List Sign}, EndsTable rest →
      (tableFactor inner).TakesIf fits settings.pipesAsConcat (tree.signs settings ++ rest) rest
        tree) :
    tree.Reads settings inner fits where
  factor _ _ behind := factor behind
  chain behind goesOn := (factor behind.toEndsTable).bind goesOn

theorem named [inner.Lawful] {table : NamedTable} (names : table.name.Named settings)
    (spelt : table.Spelt settings) (shaped : table.Shaped) :
    (TableRef.named table).Reads settings inner True := by
  refine of_factor fun {rest} behind => ?_
  unfold tableFactor
  refine .nextIs _ ?_
  rw [signs_named, if_neg (by simpa using ne_of_holds (NamedTable.begins_signs names rest) rfl)]
  exact (Takes.namedTable names spelt shaped behind).bind fun value _ => .pure

/-- What the next nesting level reads as a table in parentheses. -/
theorem of_parens [inner.Lawful] {inside : List Sign}
    (signs : tree.signs settings = Sign.mark .leftParen :: inside)
    (read : ∀ {rest : List Sign}, EndsTable rest → inner.tableInParens.TakesIf fits
      settings.pipesAsConcat (tree.signs settings ++ rest) rest tree) :
    tree.Reads settings inner fits := by
  refine of_factor fun {rest} behind => ?_
  unfold tableFactor
  refine .nextIs _ ?_
  rw [if_pos (by simp [signs])]
  exact read behind

theorem joined [inner.Lawful] {join : JoinType} {condition : Option JoinCondition}
    {each : JoinCondition → Prop} (single : right.isJoined = false) (admits : join.Admits condition)
    (leftReads : left.Reads settings inner fits) (rightReads : right.Reads settings inner others)
    (read : ∀ test ∈ condition, test.ReadBy settings inner (each test)) :
    (TableRef.joined left join right condition span).Reads settings inner
      (fits ∧ others ∧ ∀ test ∈ condition, each test) where
  factor alone := by cases alone
  chain {rest after whole further} behind goesOn := by
    rw [isOpen_joined] at behind
    have front : EndsJoin left.isOpen (join.keywords.map Sign.word ++
        (right.signs settings ++ (JoinCondition.signs settings condition ++ rest))) := by
      cases join <;> exact ⟨⟨rfl, by simp [JoinType.keywords]⟩,
        .of_ne (by simp [JoinType.keywords]), by simp [JoinType.keywords]⟩
    have middle : EndsTable (JoinCondition.signs settings condition ++ rest) := by
      rcases condition with _ | condition | columns
      · exact behind.toEndsTable
      · exact ⟨rfl, by simp [JoinCondition.signs]⟩
      · exact ⟨rfl, by simp [JoinCondition.signs]⟩
    rw [signs_joined]
    simp only [List.append_assoc]
    refine (leftReads.chain front fun found alike => TakesIf.whileSome_more ?_ goesOn).of_iff
      and_assoc.symm
    unfold extendJoin
    refine (Takes.joinType join).bind_some fun value same => ?_
    obtain rfl := same.eq
    refine (rightReads.factor single middle).bind fun table also => ?_
    refine (TakesIf.joinCondition admits read behind).bind_takes fun test kept => ?_
    exact .previousSpan fun stop => .pure

/-! ### Parentheses -/

theorem takes_derived [inner.Lawful] {query : Query} {label : Ident}
    (plain : label.Plain settings) (read : query.ReadBy settings inner fits) :
    (tableInParensBody inner).TakesIf fits settings.pipesAsConcat
      ((TableRef.derived query label span).signs settings ++ rest) rest
      (.derived query label span) := by
  have derived : ∀ start, (derivedTable inner start).TakesIf fits settings.pipesAsConcat
      (Sign.mark .leftParen :: (query.signs settings ++ Sign.mark .rightParen ::
        Sign.word .AS :: label.sign settings :: rest)) rest (.derived query label span) := by
    intro start
    have named : aliasName.Takes settings.pipesAsConcat
        (Sign.word .AS :: label.sign settings :: rest) rest (some label) :=
      .eat rfl ((Takes.identifier plain).bind fun value _ => .pure)
    unfold derivedTable
    refine .expect rfl fun _ => (read rfl .rightParen).bind_takes fun found _ => .expect rfl fun _ => ?_
    exact named.bind_some fun value _ => .previousSpan fun stop => .pure
  rw [signs_derived]
  simp only [Sign.parens, List.cons_append, List.append_assoc, List.nil_append]
  unfold tableInParensBody
  refine .currentSpan fun start => .peekAhead 1 ?_
  rw [kindAt_succ, query.begins_signs, if_pos rfl]
  exact (derived start).attempted.bind_takes (forall_alike_some fun value alike => .pure)

theorem takes_parenthesized [inner.Lawful] {trees : List TableRef} {each : TableRef → Prop}
    (nonempty : trees ≠ []) (reads : ∀ tree ∈ trees, tree.Reads settings inner (each tree))
    (all : ∀ tree ∈ trees, (Node.ref tree).AllLegible settings)
    (unclosed : (kindAt (Sign.commaList (trees.map (TableRef.signs settings)) ++
        Sign.mark .rightParen :: rest) 0).startsQuery = true →
      inner.query.UnclosedIf (∀ tree ∈ trees, each tree) settings.pipesAsConcat
        (Sign.commaList (trees.map (TableRef.signs settings)) ++ Sign.mark .rightParen :: rest)) :
    (tableInParensBody inner).TakesIf (∀ tree ∈ trees, each tree) settings.pipesAsConcat
      ((TableRef.parenthesized trees span).signs settings ++ rest) rest
      (.parenthesized trees span) := by
  have listed : ∀ start, (tableRefsInParens inner start).TakesIf (∀ tree ∈ trees, each tree)
      settings.pipesAsConcat
      (Sign.mark .leftParen :: (Sign.commaList (trees.map (TableRef.signs settings)) ++
        Sign.mark .rightParen :: rest)) rest (.parenthesized trees span) := by
    intro start
    unfold tableRefsInParens
    refine .expect rfl fun _ => (list nonempty reads all rfl .rightParen).bind_takes fun values _ => ?_
    exact .expect rfl fun stop => .pure
  rw [signs_parenthesized]
  simp only [Sign.parens, List.cons_append, List.append_assoc, List.nil_append]
  unfold tableInParensBody
  refine .currentSpan fun start => .peekAhead 1 ?_
  split
  · next starts => exact .attempt_none (misses_derivedTable rfl (unclosed starts)) (listed start)
  · exact listed start

end TableRef.Reads

end SqlDml
