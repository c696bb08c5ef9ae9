import SqlDml.Proofs.Canonical.Items
import SqlDml.Proofs.Canonical.Tables

/-!
Contract: the clauses of queries are read back from canonical text.

Owns:
- ordering terms, limits and row locks;
- the options of select blocks;
- select blocks with all their clauses.

Does not own: queries in parentheses, and unions.
-/

namespace SqlDml

open Rule

variable {settings : Settings} {rest : List Sign}

/-! ### Parts that may be left out -/

/-- In front of what ends something, a part that ends it too may stand, or be left out. -/
theorem ends_optional {ends : TokenKind → Bool} {part : List Sign}
    (begins : ∀ sign ∈ part.head?, ends sign.kind = true) (behind : ends (kindAt rest 0) = true) :
    ends (kindAt (part ++ rest) 0) = true := by
  cases part with
  | nil => exact behind
  | cons sign others => exact begins sign rfl

/-- A part that may be left out, and is not where an end stays open. -/
theorem Untested.optional {open_ absent : Bool} {part : List Sign}
    (other : ∀ sign ∈ part.head?, sign.kind ≠ .keyword .ON) (omitted : part = [] → absent = true)
    (noTest : Untested (open_ && absent) rest) : Untested open_ (part ++ rest) := by
  intro opened
  cases part with
  | nil => exact noTest (by rw [opened, omitted rfl]; rfl)
  | cons sign others => exact other sign rfl

theorem isNone_of_optionalSigns {keyword : Keyword} {found : Option Expr}
    (omitted : Expr.optionalSigns settings [Sign.word keyword] found = []) :
    found.isNone = true := by
  cases found with
  | none => rfl
  | some tree => cases omitted

theorem isEmpty_of_optionalList {keyword : Keyword} {keywords : List Keyword} {α : Type}
    {items : List α} {signs : α → List Sign}
    (omitted : Sign.optionalList (keyword :: keywords) (items.map signs) = []) :
    items.isEmpty = true := by
  cases items with
  | nil => rfl
  | cons item items => cases omitted

theorem head?_optionalSigns {keyword : Keyword} {found : Option Expr} :
    ∀ sign ∈ (Expr.optionalSigns settings [Sign.word keyword] found).head?,
      sign = Sign.word keyword := by
  intro sign first
  cases found with
  | none => cases first
  | some tree => exact (Option.some.inj first).symm

theorem head?_optionalList {keyword : Keyword} {keywords : List Keyword} {items : List (List Sign)} :
    ∀ sign ∈ (Sign.optionalList (keyword :: keywords) items).head?, sign = Sign.word keyword := by
  intro sign first
  cases items with
  | nil => cases first
  | cons item items => exact (Option.some.inj first).symm

theorem OrderingTerm.head?_groupSigns {terms : List OrderingTerm} {withRollup : Bool} :
    ∀ sign ∈ (OrderingTerm.groupSigns settings terms withRollup).head?,
      sign = Sign.word .GROUP := by
  intro sign first
  cases terms with
  | nil => cases first
  | cons term terms => exact (Option.some.inj first).symm

theorem OrderingTerm.isEmpty_of_groupSigns {terms : List OrderingTerm} {withRollup : Bool}
    (omitted : OrderingTerm.groupSigns settings terms withRollup = []) :
    terms.isEmpty = true := by
  cases terms with
  | nil => rfl
  | cons term terms => cases omitted

theorem LimitClause.head?_signs {limit : Option LimitClause} :
    ∀ sign ∈ (LimitClause.signs settings limit).head?, sign = Sign.word .LIMIT := by
  intro sign first
  cases limit with
  | none => cases first
  | some limit => exact (Option.some.inj first).symm

theorem LimitClause.isNone_of_signs {limit : Option LimitClause}
    (omitted : LimitClause.signs settings limit = []) : limit.isNone = true := by
  cases limit with
  | none => rfl
  | some limit => cases omitted

theorem LockingClause.head?_signs {locking : Option LockingClause} :
    ∀ sign ∈ (LockingClause.signs settings locking).head?,
      sign.kind.endsLimit = true ∧ sign.kind ≠ .keyword .ON := by
  intro sign first
  cases locking with
  | none => cases first
  | some locking =>
      obtain ⟨mode, tables, wait, place⟩ := locking
      cases mode <;> (obtain rfl := Option.some.inj first; exact ⟨rfl, by simp⟩)

theorem LockingClause.isNone_of_signs {locking : Option LockingClause}
    (omitted : LockingClause.signs settings locking = []) : locking.isNone = true := by
  cases locking with
  | none => rfl
  | some locking =>
      obtain ⟨mode, tables, wait, place⟩ := locking
      cases mode <;> cases omitted

/-! ### Signs of the options of select blocks -/

/-- The sign of a quantifier. -/
def SetQuantifier.signs : Option SetQuantifier → List Sign
  | some .all => [Sign.word .ALL]
  | some .distinct => [Sign.word .DISTINCT]
  | some .distinctRow => [Sign.word .DISTINCTROW]
  | none => []

/-- The sign that tells whether a result may be cached. -/
def CacheOption.signs : Option CacheOption → List Sign
  | some .cache => [Sign.word .SQL_CACHE]
  | some .noCache => [Sign.word .SQL_NO_CACHE]
  | none => []

theorem SelectModifiers.signs_eq (modifiers : SelectModifiers) :
    modifiers.signs settings = SetQuantifier.signs modifiers.quantifier ++
      (Sign.flag modifiers.highPriority .HIGH_PRIORITY ++
        (Sign.flag modifiers.straightJoin .STRAIGHT_JOIN ++
          (Sign.flag modifiers.smallResult .SQL_SMALL_RESULT ++
            (Sign.flag modifiers.bigResult .SQL_BIG_RESULT ++
              (Sign.flag modifiers.bufferResult .SQL_BUFFER_RESULT ++
                (CacheOption.signs modifiers.cache ++
                  Sign.flag modifiers.calcFoundRows .SQL_CALC_FOUND_ROWS)))))) := by
  obtain ⟨quantifier, high, straight, small, big, buffer, cache, rows⟩ := modifiers
  unfold signs pieces
  simp only [Piece.signsOf_append, Piece.signsOf_flag, List.append_assoc]
  congr 1
  · rcases quantifier with _ | _ | _ | _ <;> rfl
  · rcases cache with _ | _ | _ <;> rfl

namespace Rule.Takes

variable {concat : Bool}

/-! ### Locks and limits -/

/-- A number of a limit is an integer or a parameter marker. -/
theorem limitOperand {tree : Expr} (number : tree.isLimitNumber = true)
    (spelt : tree.Spelt settings) :
    Rule.limitOperand.Takes concat (tree.signs settings ++ rest) rest tree := by
  unfold Rule.limitOperand
  refine .peek ?_
  unfold Expr.isLimitNumber at number
  split at number
  · next value span =>
      obtain ⟨value, rfl, small⟩ := Literal.Spelt.exists_natural spelt
      have alone : (Piece.verbatim (toString value)).signs settings =
          [⟨.integer value, some (toString value)⟩] :=
        Piece.signs_number (numeral_integer small (by simp [EndsToken]))
      have signs : (Expr.literal (.integer value) span).signs settings =
          [⟨.integer value, some (toString value)⟩] := by
        rw [← alone]
        exact List.append_nil _
      rw [signs]
      exact (tokenLiteral (.integer value)).congr inferInstance
  · change Rule.placeholder.Takes _ (Sign.mark .question :: _) _ _
    unfold Rule.placeholder
    exact .advance fun token _ => .nextPlaceholder fun number => .pure
  · cases number

theorem limitClause {limit : Option LimitClause} (shaped : ∀ found ∈ limit, found.Shaped)
    (spelt : ∀ found ∈ limit, found.count.Spelt settings ∧
      ∀ offset ∈ found.offset, offset.Spelt settings)
    (ends : (kindAt rest 0).endsLimit = true) :
    (Rule.limitClause true).Takes concat (LimitClause.signs settings limit ++ rest) rest limit := by
  unfold Rule.limitClause
  cases limit with
  | none =>
      refine .nextIs_other (ne_of_holds ends rfl) ?_
      exact .pure
  | some limit =>
      obtain ⟨count, offset, place⟩ := limit
      obtain ⟨number, offsets⟩ := shaped _ rfl
      obtain ⟨counted, others⟩ := spelt _ rfl
      have numbers : limitNumbers.Takes concat (count.signs settings ++
          (Expr.optionalSigns settings [Sign.word .OFFSET] offset ++ rest)) rest (count, offset) := by
        unfold limitNumbers
        refine (limitOperand number counted).bind fun value alike => ?_
        cases offset with
        | none => exact .eat_none (ne_of_holds ends rfl) (.eat_none (ne_of_holds ends rfl) .pure)
        | some start =>
            refine .eat_none (by simp [Expr.optionalSigns]) (.eat rfl ?_)
            exact (limitOperand (offsets start rfl) (others start rfl)).bind fun skip _ => .pure
      simp only [LimitClause.signs, List.cons_append, List.append_assoc]
      refine .nextIs_same rfl ?_
      refine .expect rfl fun start => ?_
      rw [if_pos trivial]
      refine numbers.bind fun both same => ?_
      obtain ⟨found, skip⟩ := both
      have first : Alike .plain (count, offset).1 (found, skip).1 := .fst
      have second : Alike .plain (count, offset).2 (found, skip).2 := .snd
      have first : Alike .plain count found := first
      have second : Alike .plain offset skip := second
      exact .previousSpan fun stop => .pure

theorem lockWait {wait : Option LockWait} (ends : (kindAt rest 0).endsQuery = true) :
    Rule.lockWait.Takes concat (LockWait.signs wait ++ rest) rest wait := by
  unfold Rule.lockWait
  rcases wait with _ | _ | _
  · exact .eat_none (ne_of_holds ends rfl) (.eat_none (ne_of_holds ends rfl) .pure)
  · exact .eat rfl .pure
  · exact .eat_none (by simp [LockWait.signs]) (.eat rfl (.expect rfl fun _ => .pure))

theorem lockedTables {tables : List TableName}
    (named : ∀ table ∈ tables, table.Named settings) (noOf : kindAt rest 0 ≠ .keyword .OF)
    (noComma : kindAt rest 0 ≠ .punct .comma) (noDot : kindAt rest 0 ≠ .punct .dot) :
    Rule.lockedTables.Takes concat
      (Sign.optionalList [.OF] (tables.map (TableName.signs settings)) ++ rest) rest tables := by
  unfold Rule.lockedTables
  cases tables with
  | nil => exact .eat_none noOf .pure
  | cons table tables =>
      refine .eat rfl (commaSeparated (List.cons_ne_nil _ _) noComma fun name member tail behind => ?_)
      refine tableName (named name member) ?_
      rcases behind with rfl | ⟨_, _, _, rfl⟩
      · exact noDot
      · simp

theorem lockingClause {locking : Option LockingClause} (shaped : ∀ found ∈ locking, found.Shaped)
    (named : ∀ found ∈ locking, ∀ table ∈ found.tables, table.Named settings)
    (ends : (kindAt rest 0).endsQuery = true) :
    Rule.lockingClause.Takes concat (LockingClause.signs settings locking ++ rest) rest locking := by
  unfold Rule.lockingClause
  refine .currentSpan fun start => ?_
  cases locking with
  | none => exact .eat_none (ne_of_holds ends rfl) (.eat_none (ne_of_holds ends rfl) .pure)
  | some locking =>
      obtain ⟨mode, tables, wait, place⟩ := locking
      have locked : ∀ (mode : LockMode) (keyword : Keyword),
          (∀ before, lockMode.Takes concat (Sign.word keyword :: before) before mode) →
            (lockMode >>= fun mode => Rule.lockedTables >>= fun tables => Rule.lockWait >>= fun wait =>
              Rule.previousSpan >>= fun stop =>
                Pure.pure (some (LockingClause.mk mode tables wait (start.merge stop)))).Takes concat
              (Sign.word keyword :: (Sign.optionalList [.OF] (tables.map (TableName.signs settings)) ++
                (LockWait.signs wait ++ rest))) rest
              (some ⟨mode, tables, wait, place⟩) := by
        intro mode keyword moded
        have noList : kindAt (LockWait.signs wait ++ rest) 0 ≠ .keyword .OF ∧
            kindAt (LockWait.signs wait ++ rest) 0 ≠ .punct .comma ∧
              kindAt (LockWait.signs wait ++ rest) 0 ≠ .punct .dot := by
          rcases wait with _ | _ | _
          · exact ⟨ne_of_holds ends rfl, ne_of_holds ends rfl, ne_of_holds ends rfl⟩
          all_goals exact ⟨by simp [LockWait.signs], by simp [LockWait.signs], by simp [LockWait.signs]⟩
        refine (moded _).step ?_
        refine (lockedTables (named _ rfl) noList.1 noList.2.1 noList.2.2).bind fun names _ => ?_
        exact (lockWait ends).step (.previousSpan fun stop => .pure)
      simp only [LockingClause.signs, List.append_assoc]
      cases mode with
      | lockInShareMode =>
          obtain ⟨rfl, rfl⟩ := shaped _ rfl rfl
          refine .eat rfl (.expect rfl fun _ => .expect rfl fun _ => .expect rfl fun _ => ?_)
          exact .previousSpan fun stop => .pure
      | forUpdate =>
          refine .eat_none (by simp [LockMode.keywords]) (.eat rfl ?_)
          exact locked .forUpdate .UPDATE fun _ => .eat rfl .pure
      | forShare =>
          refine .eat_none (by simp [LockMode.keywords]) (.eat rfl ?_)
          exact locked .forShare .SHARE fun _ => .eat_none (by simp) (.eat rfl .pure)

/-! ### Options of select blocks -/

variable {modifiers more : SelectModifiers} {keyword : Keyword} {before after : List Sign}
  {whole : SelectModifiers}

/-- An option in front of the others. -/
theorem modifier (known : addModifier modifiers (.keyword keyword) = some more)
    (behind : (whileSome nextModifier more).Takes concat before after whole) :
    (whileSome nextModifier modifiers).Takes concat (Sign.word keyword :: before) after whole := by
  have taken : (nextModifier modifiers).Takes concat (Sign.word keyword :: before) before
      (some more) := by
    unfold nextModifier
    refine .peek ?_
    rw [kindAt_zero, Sign.word_kind, known]
    exact .advance fun _ _ => .pure
  exact .whileSome_more taken fun next same => same.eq ▸ behind

/-- An option that may be left out, in front of the others. -/
theorem modifierFlag (keyword : Keyword) (change : Bool → SelectModifiers) {wanted : Bool}
    (known : addModifier (change false) (.keyword keyword) = some (change true))
    (behind : (whileSome nextModifier (change wanted)).Takes concat before after whole) :
    (whileSome nextModifier (change false)).Takes concat (Sign.flag wanted keyword ++ before) after
      whole := by
  cases wanted with
  | false => exact behind
  | true => exact modifier known behind

/-- The options of a select block, in their canonical order. -/
theorem selectModifiers (ends : ∀ modifiers, addModifier modifiers (kindAt rest 0) = none) :
    Rule.selectModifiers.Takes concat (modifiers.signs settings ++ rest) rest modifiers := by
  obtain ⟨quantifier, high, straight, small, big, buffer, cache, rows⟩ := modifiers
  have stops : ∀ modifiers, (whileSome nextModifier modifiers).Takes concat rest rest modifiers := by
    intro modifiers
    refine .whileSome_stop ?_ (.plain_self _)
    unfold nextModifier
    refine .peek ?_
    rw [ends]
    exact .pure
  have cached : (whileSome nextModifier ⟨quantifier, high, straight, small, big, buffer, cache,
      false⟩).Takes concat (Sign.flag rows .SQL_CALC_FOUND_ROWS ++ rest) rest
      ⟨quantifier, high, straight, small, big, buffer, cache, rows⟩ :=
    modifierFlag _ (SelectModifiers.mk quantifier high straight small big buffer cache) rfl (stops _)
  have buffered : (whileSome nextModifier ⟨quantifier, high, straight, small, big, buffer, none,
      false⟩).Takes concat
      (CacheOption.signs cache ++ (Sign.flag rows .SQL_CALC_FOUND_ROWS ++ rest)) rest
      ⟨quantifier, high, straight, small, big, buffer, cache, rows⟩ := by
    rcases cache with _ | _ | _
    · exact cached
    · exact modifier rfl cached
    · exact modifier rfl cached
  have quantified :=
    modifierFlag .HIGH_PRIORITY
      (SelectModifiers.mk quantifier · false false false false none false) rfl <|
    modifierFlag .STRAIGHT_JOIN
      (SelectModifiers.mk quantifier high · false false false none false) rfl <|
    modifierFlag .SQL_SMALL_RESULT
      (SelectModifiers.mk quantifier high straight · false false none false) rfl <|
    modifierFlag .SQL_BIG_RESULT
      (SelectModifiers.mk quantifier high straight small · false none false) rfl <|
    modifierFlag .SQL_BUFFER_RESULT
      (SelectModifiers.mk quantifier high straight small big · none false) rfl buffered
  rw [SelectModifiers.signs_eq, selectModifiers_eq]
  simp only [List.append_assoc]
  rcases quantifier with _ | _ | _ | _
  · exact quantified
  · exact modifier rfl quantified
  · exact modifier rfl quantified
  · exact modifier rfl quantified

end Rule.Takes

/-! ### Clauses with expressions -/

namespace Rule.TakesIf

variable {inner : InnerRules} {concat : Bool} {fits : Prop} {each : Expr → Prop}

theorem sortDirection {direction : Option SortDirection} (noAsc : kindAt rest 0 ≠ .keyword .ASC)
    (noDesc : kindAt rest 0 ≠ .keyword .DESC) :
    Rule.sortDirection.Takes concat (SortDirection.signs direction ++ rest) rest direction := by
  unfold Rule.sortDirection
  rcases direction with _ | _ | _
  · exact .eat_none noAsc (.eat_none noDesc .pure)
  · exact .eat rfl .pure
  · exact .eat_none (by simp [SortDirection.signs]) (.eat rfl .pure)

theorem orderingTerm {term : OrderingTerm} (read : term.expr.ReadBy settings inner fits)
    (ends : (kindAt rest 0).endsExpr = true) (noAsc : kindAt rest 0 ≠ .keyword .ASC)
    (noDesc : kindAt rest 0 ≠ .keyword .DESC) :
    (Rule.orderingTerm inner).TakesIf fits settings.pipesAsConcat (term.signs settings ++ rest) rest
      term := by
  obtain ⟨tree, direction, place⟩ := term
  have behind : (kindAt (SortDirection.signs direction ++ rest) 0).endsExpr = true := by
    rcases direction with _ | _ | _
    · exact ends
    · rfl
    · rfl
  have directed := @sortDirection rest settings.pipesAsConcat direction noAsc noDesc
  rw [OrderingTerm.signs_mk, List.append_assoc]
  unfold Rule.orderingTerm
  refine (read.alone behind).bind_takes fun found alike => ?_
  cases direction with
  | none => exact Takes.bind_none directed .pure
  | some direction =>
      refine Takes.bind_some directed fun value same => .previousSpan fun stop => ?_
      obtain rfl := same.eq
      exact .pure

/-- An optional condition behind its keyword. -/
theorem whereClause {filter : Option Expr}
    (read : ∀ tree ∈ filter, tree.ReadBy settings inner (each tree))
    (ends : (kindAt rest 0).endsFilter = true) :
    (Rule.whereClause inner).TakesIf (∀ tree ∈ filter, each tree) settings.pipesAsConcat
      (Expr.optionalSigns settings [Sign.word .WHERE] filter ++ rest) rest filter := by
  unfold Rule.whereClause
  cases filter with
  | none => exact of_iff (.eat_none (ne_of_holds ends rfl) .pure) (by simp)
  | some tree =>
      have one : each tree ↔ ∀ found ∈ some tree, each found := by simp
      have stops := TokenKind.endsExpr_of_sources (TokenKind.endsSources_of_filter ends)
      refine of_iff (.eat rfl ?_) one
      exact ((read tree rfl).alone stops).bind_takes fun value _ => .pure

theorem havingClause {having : Option Expr}
    (read : ∀ tree ∈ having, tree.ReadBy settings inner (each tree))
    (ends : (kindAt rest 0).endsTerm = true) :
    (Rule.havingClause inner).TakesIf (∀ tree ∈ having, each tree) settings.pipesAsConcat
      (Expr.optionalSigns settings [Sign.word .HAVING] having ++ rest) rest having := by
  unfold Rule.havingClause
  cases having with
  | none => exact of_iff (.eat_none (ne_of_holds ends rfl) .pure) (by simp)
  | some tree =>
      have one : each tree ↔ ∀ found ∈ some tree, each found := by simp
      have stops := TokenKind.endsExpr_of_sources (TokenKind.endsSources_of_filter
        (TokenKind.endsFilter_of_groups (TokenKind.endsGroups_of_term ends)))
      refine of_iff (.eat rfl ?_) one
      exact ((read tree rfl).alone stops).bind_takes fun value _ => .pure

variable [inner.Lawful]

theorem orderingTerms {terms : List OrderingTerm} (nonempty : terms ≠ [])
    (reads : ∀ term ∈ terms, term.expr.ReadBy settings inner (each term.expr))
    (ends : (kindAt rest 0).endsOrdering = true) :
    (Rule.orderingTerms inner).TakesIf (∀ term ∈ terms, each term.expr) settings.pipesAsConcat
      (Sign.commaList (terms.map (OrderingTerm.signs settings)) ++ rest) rest terms := by
  refine commaSeparated nonempty (ne_of_holds ends rfl) fun term member tail behind => ?_
  rcases behind with rfl | ⟨_, _, _, rfl⟩
  · exact orderingTerm (reads term member) (TokenKind.endsExpr_of_ordering ends)
      (ne_of_holds ends rfl) (ne_of_holds ends rfl)
  · exact orderingTerm (reads term member) rfl (by simp) (by simp)

theorem orderByClause {terms : List OrderingTerm}
    (reads : ∀ term ∈ terms, term.expr.ReadBy settings inner (each term.expr))
    (ends : (kindAt rest 0).endsOrder = true) :
    (Rule.orderByClause inner).TakesIf (∀ term ∈ terms, each term.expr) settings.pipesAsConcat
      (OrderingTerm.listSigns settings [.ORDER, .BY] terms ++ rest) rest terms := by
  unfold Rule.orderByClause OrderingTerm.listSigns Sign.optionalList
  cases terms with
  | nil => exact of_iff (.eat_none (ne_of_holds ends rfl) .pure) (by simp)
  | cons term terms =>
      have stops : (kindAt rest 0).endsOrdering = true := by
        unfold TokenKind.endsOrdering
        split
        · rfl
        · exact TokenKind.endsGroups_of_term (TokenKind.endsTerm_of_body
            (TokenKind.endsBody_of_order ends))
      exact .eat rfl (.expect rfl fun _ => orderingTerms (List.cons_ne_nil _ _) reads stops)

omit [inner.Lawful] in
theorem withRollup {wanted : Bool} (ends : (kindAt rest 0).endsGroups = true) :
    Rule.withRollup.Takes concat
      ((if wanted then [Sign.word .WITH, Sign.word .ROLLUP] else []) ++ rest) rest wanted := by
  unfold Rule.withRollup
  cases wanted with
  | false =>
      refine .nextIs_other (ne_of_holds ends rfl) ?_
      exact .pure
  | true =>
      refine .nextIs_same rfl ?_
      refine .aheadIs_same rfl ?_
      exact .advance fun _ _ => .advance fun _ _ => .pure

theorem groupByClause {terms : List OrderingTerm} {rollup : Bool}
    (shaped : rollup = true → terms ≠ [])
    (reads : ∀ term ∈ terms, term.expr.ReadBy settings inner (each term.expr))
    (ends : (kindAt rest 0).endsGroups = true) :
    (Rule.groupByClause inner).TakesIf (∀ term ∈ terms, each term.expr) settings.pipesAsConcat
      (OrderingTerm.groupSigns settings terms rollup ++ rest) rest (terms, rollup) := by
  unfold Rule.groupByClause OrderingTerm.groupSigns
  cases terms with
  | nil =>
      have none : rollup = false := by
        cases rollup with
        | false => rfl
        | true => exact absurd rfl (shaped rfl)
      subst none
      exact of_iff (.eat_none (ne_of_holds ends rfl) .pure) (by simp)
  | cons term terms =>
      have behind : (kindAt ((if rollup then [Sign.word .WITH, Sign.word .ROLLUP] else []) ++ rest)
          0).endsOrdering = true := by
        cases rollup with
        | true => rfl
        | false =>
            unfold TokenKind.endsOrdering
            split
            · rfl
            · exact ends
      simp only [OrderingTerm.listSigns, Sign.optionalList, List.map_cons, List.isEmpty_cons,
        Bool.false_eq_true, if_false, List.append_assoc]
      refine .eat rfl (.expect rfl fun _ => ?_)
      refine (orderingTerms (List.cons_ne_nil _ _) reads behind).bind_takes fun values _ => ?_
      exact Takes.step (withRollup ends) .pure

theorem fromClause {sources : List TableRef} {each : TableRef → Prop}
    (reads : ∀ source ∈ sources, source.Reads settings inner (each source))
    (all : ∀ source ∈ sources, (Node.ref source).AllLegible settings)
    (ends : (kindAt rest 0).endsSources = true)
    (noTest : Untested (sources.getLast?.any TableRef.isOpen) rest) :
    (Rule.fromClause inner).TakesIf (∀ source ∈ sources, each source) settings.pipesAsConcat
      (Sign.optionalList [.FROM] (sources.map (TableRef.signs settings)) ++ rest) rest sources := by
  unfold Rule.fromClause
  cases sources with
  | nil => exact of_iff (.eat_none (ne_of_holds ends rfl) .pure) (by simp)
  | cons source sources =>
      exact .eat rfl (TableRef.Reads.list (List.cons_ne_nil _ _) reads all ends noTest)

end Rule.TakesIf

end SqlDml
