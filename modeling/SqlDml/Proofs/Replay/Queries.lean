import SqlDml.Proofs.Extents.Statements
import SqlDml.Proofs.Replay.Expressions

/-!
Contract: queries and table references in parentheses read the same whatever follows these.

Owns:
- the clauses of queries and the tables of joins, wherever nothing continues them;
- joins, and all that may end with one, up to a closing parenthesis;
- the rules of every nesting level.

Does not own: statements, which stand in no parentheses.
-/

namespace SqlDml.Rule

open Comparison (Consuming)

set_option synthInstance.maxSize 3000

variable {tails : Tails} {origin spot place : Spot} {inside : Bool} {inner : InnerRules}
  [inner.Lawful] [steady : inner.Steady origin]

namespace Steady

section

variable [tails.Ended]

/-! ### Names -/

instance : Steady tails origin inside aliasName := by
  unfold aliasName
  refine behind (fun explicit => inferInstance) fun explicit => ?_
  split
  · infer_instance
  · exact atKind (fun kind => inferInstance) (Pure.pure none)
      (fun kind ends => by cases ends <;> rfl) fun kind => inferInstance

instance : Steady tails origin inside aliasOrString := by
  unfold aliasOrString
  refine behind (fun explicit => lawful_bind fun token => ?_) fun explicit => ?_
  · split <;> infer_instance
  refine atToken (fun token => ?_)
    (if explicit then identifier >>= fun name => Pure.pure (some name) else Pure.pure none)
    (fun token ends => ?_) fun token => ?_
  · split <;> infer_instance
  · generalize token.kind = kind at ends
    cases ends <;> simp [TokenKind.isName, Keyword.isNonreserved]
  · split <;> infer_instance

instance : Steady tails origin inside identsInParensOrNone := by
  have consumes : Consuming false restOfIdents := by
    unfold restOfIdents
    infer_instance
  have listed : Steady tails origin false (eatMark .rightParen >>= fun closed =>
      if closed = true then Pure.pure [] else restOfIdents) := by
    refine of_spends fun spot _ => .eat (fun closed => .pure ?_) fun _ => Spends.one
    exact Spot.length_next_lt (by simp [closed])
  unfold identsInParensOrNone
  infer_instance

instance : Steady tails origin inside partitions := by
  unfold partitions
  infer_instance

/-! ### Tables -/

instance : Steady tails origin inside hintScope := by
  unfold hintScope
  infer_instance

/-- An index hint, of which the first two tokens are in common. -/
theorem indexHint_retells (action : IndexHintAction) (beside : tails.Beside origin spot place)
    (both : tails.rest.length + 1 < spot.ahead.length) :
    (indexHint action).Retells tails origin spot place := by
  unfold indexHint
  refine .advance beside (Nat.lt_of_succ_lt both) fun beside => ?_
  refine .advance beside (by simp [Tails.Within]; omega) fun beside => ?_
  exact anywhere beside

instance : Steady tails origin inside skipHintComma := by
  have next : Steady tails origin true (peekAhead 1 >>= fun kind =>
      if (hintAction? kind).isSome = true then Rule.advance >>= fun _ => Pure.pure PUnit.unit
      else Pure.pure PUnit.unit) :=
    atNext (fun kind => inferInstance) (Pure.pure PUnit.unit)
      (fun kind ends => by cases ends <;> rfl) fun spot place beside both =>
        within beside (Nat.lt_of_succ_lt both)
  unfold skipHintComma
  exact ifKind _

instance (hints : List IndexHint) : Steady tails origin inside (nextHint hints) := by
  unfold nextHint
  refine atKind (fun kind => ?_) (Pure.pure none) (fun kind ends => by cases ends <;> rfl)
    fun kind => ?_
  · split <;> infer_instance
  split
  · infer_instance
  · refine atNext (fun kind => inferInstance) (Pure.pure none)
      (fun kind ends => by cases ends <;> rfl) fun spot place beside both => ?_
    refine .ite (fun _ => ?_) fun _ => .pure beside
    exact .bind (indexHint_retells _ beside both) fun hint later after beside => anywhere beside

instance : Steady tails origin inside indexHints := by
  rw [indexHints_eq]
  infer_instance

instance : Steady tails origin inside namedTable := by
  unfold namedTable
  infer_instance

instance (join : JoinType) : Steady tails origin inside (joinWord join) := by
  unfold joinWord
  infer_instance

instance : Steady tails origin inside naturalJoin := by
  unfold naturalJoin
  infer_instance

instance : Steady tails origin inside joinType := by
  unfold joinType
  refine atKind (fun kind => ?_) (Pure.pure none) (fun kind ends => by cases ends <;> rfl)
    fun kind => ?_
  · split <;> infer_instance
  · split <;> infer_instance

instance : Steady tails origin inside (tableFactor inner) := by
  unfold tableFactor
  exact look fun found => inferInstance

/-! ### Clauses -/

instance : Steady tails origin inside (whereClause inner) := by
  unfold whereClause
  infer_instance

instance : Steady tails origin inside sortDirection := by
  unfold sortDirection
  infer_instance

instance : Steady tails origin inside (orderingTerm inner) := by
  unfold orderingTerm
  refine behind (fun expr => ?_) fun expr => ?_
  · refine lawful_bind fun found => ?_
    split <;> infer_instance
  · refine behind (fun found => ?_) fun found => ?_ <;> split <;> infer_instance

instance : Steady tails origin inside (orderingTerms inner) := by
  unfold orderingTerms
  infer_instance

instance : Steady tails origin inside (orderByClause inner) := by
  unfold orderByClause
  infer_instance

instance : Steady tails origin inside limitOperand := by
  unfold limitOperand
  refine atKind (fun kind => ?_) (Rule.fail ["integer", "'?'"])
    (fun kind ends => by cases ends <;> rfl) fun kind => ?_
  · split <;> infer_instance
  · split <;> infer_instance

instance : Steady tails origin inside limitNumbers := by
  unfold limitNumbers
  infer_instance

instance (allowOffset : Bool) : Steady tails origin inside (limitClause allowOffset) := by
  unfold limitClause
  dsimp only
  refine look fun found => ?_
  split
  · refine behind (fun start => ?_) fun start => ?_
    · split <;> infer_instance
    · split <;> infer_instance
  · infer_instance

instance : Steady tails origin inside lockMode := by
  unfold lockMode
  infer_instance

instance : Steady tails origin inside lockedTables := by
  unfold lockedTables
  infer_instance

instance : Steady tails origin inside lockWait := by
  unfold lockWait
  infer_instance

/-- No locking clause begins with another token. -/
theorem on_lockingClause_of_ne (notLock : spot.kind ≠ .keyword .LOCK)
    (notFor : spot.kind ≠ .keyword .FOR) : lockingClause.on spot = .done none spot := by
  simp [lockingClause, on_bind, on_ite, notLock, notFor]

instance : Steady tails origin inside lockingClause := by
  have nothing : ∀ {spot : Spot}, spot.kind.Ends → lockingClause.on spot = .done none spot :=
    fun ends => on_lockingClause_of_ne (ends.ne inferInstance) (ends.ne inferInstance)
  refine ⟨fun {spot place} beside _ => ?_⟩
  rcases beside.cases with ⟨ahead, _⟩ | within'
  · refine .of_on fun value later outcome _ => ?_
    rw [nothing (beside.kind_at' 0 (by rw [ahead]; rfl))] at outcome
    cases outcome
    exact .inr ⟨place, nothing (beside.kind_at 0 (by rw [ahead]; rfl)), beside⟩
  · have common : Steady tails origin true lockingClause := by
      unfold lockingClause
      infer_instance
    exact within beside within'

/-! ### Select blocks -/

instance (modifiers : SelectModifiers) : Steady tails origin inside (nextModifier modifiers) := by
  unfold nextModifier
  refine atKind (fun kind => ?_) (Pure.pure none) (fun kind ends => by cases ends <;> rfl)
    fun kind => ?_
  · split <;> infer_instance
  · split <;> infer_instance

instance : Steady tails origin inside selectModifiers := by
  rw [selectModifiers_eq]
  infer_instance

instance : Steady tails origin inside (exprItem inner) := by
  unfold exprItem
  infer_instance

omit [tails.Ended] in
/-- A wildcard of a table, whose three tokens are in common. -/
theorem tableWildcard_retells (beside : tails.Beside origin spot place)
    (three : tails.rest.length + 2 < spot.ahead.length) :
    tableWildcard.Retells tails origin spot place := by
  unfold tableWildcard identifier
  refine .name beside (by rw [Tails.Within]; omega) (fun table beside => ?_) fun _ => inferInstance
  refine .advance beside (by simp [Tails.Within]; omega) fun beside => ?_
  exact .advance beside (by simp [Tails.Within]; omega) fun beside => .pure beside

omit [tails.Ended] in
/-- A wildcard of a table with its schema, whose five tokens are in common. -/
theorem schemaWildcard_retells (beside : tails.Beside origin spot place)
    (five : tails.rest.length + 4 < spot.ahead.length) :
    schemaWildcard.Retells tails origin spot place := by
  unfold schemaWildcard identifier identifierAfterDot
  refine .name beside (by rw [Tails.Within]; omega) (fun schema beside => ?_) fun _ => inferInstance
  refine .advance beside (by simp [Tails.Within]; omega) fun beside => ?_
  refine .name beside (by simp [Tails.Within]; omega) (fun table beside => ?_) fun _ => inferInstance
  refine .advance beside (by simp [Tails.Within]; omega) fun beside => ?_
  exact .advance beside (by simp [Tails.Within]; omega) fun beside => .pure beside

/-- Whether the tokens behind a name and a dot are those of a wildcard of a schema. -/
def wildcardBehind (spot : Spot) : Bool :=
  (spot.token 2).kind.isNameAfterDot && (spot.token 3).kind == .punct .dot &&
    (spot.token 4).kind == .punct .star

theorem on_schemaWildcardFollows (spot : Spot) :
    schemaWildcardFollows.on spot = .done (wildcardBehind spot) spot := by
  unfold schemaWildcardFollows wildcardBehind
  simp only [on_bind, on_aheadIs, Outcome.bind_done, on_ite, on_peekAhead, on_pure]
  by_cases name : (spot.token 2).kind.isNameAfterDot = true <;>
    by_cases dot : (spot.token 3).kind = .punct .dot <;>
    by_cases star : (spot.token 4).kind = .punct .star <;> simp [name, dot, star]

/-- Behind a dot in common a name is at both spots or at none. -/
theorem name_iff (beside : tails.Beside origin spot place)
    (both : tails.rest.length + 1 < spot.ahead.length) (dot : (spot.token 1).kind = .punct .dot) :
    (place.token 2).kind.isNameAfterDot = (spot.token 2).kind.isNameAfterDot ∧
      ((spot.token 2).kind.isNameAfterDot = true → tails.rest.length + 2 < spot.ahead.length) := by
  by_cases three : tails.rest.length + 2 < spot.ahead.length
  · exact ⟨by rw [beside.token_eq 2 three], fun _ => three⟩
  · have edge : spot.ahead.length = tails.rest.length + 2 := by omega
    have dot' : (place.token 1).kind = .punct .dot := by rw [beside.token_eq 1 both, dot]
    have length : place.ahead.length = tails.flip.rest.length + 2 := by
      obtain ⟨front, ahead, ahead'⟩ := beside.ahead
      rw [ahead, List.length_append] at edge
      rw [ahead', List.length_append, show tails.flip.rest = tails.other from rfl]
      omega
    have nothing := beside.flip.not_name_behind_dot 1 dot' length
    rw [beside.not_name_behind_dot 1 dot edge, nothing]
    exact ⟨rfl, by simp⟩

/-- Behind a name and a dot in common a wildcard is at both spots or at none. -/
theorem wildcardBehind_iff (beside : tails.Beside origin spot place)
    (both : tails.rest.length + 1 < spot.ahead.length) (dot : (spot.token 1).kind = .punct .dot) :
    wildcardBehind place = wildcardBehind spot ∧
      (wildcardBehind spot = true → tails.rest.length + 4 < spot.ahead.length) := by
  obtain ⟨same, three⟩ := name_iff beside both dot
  unfold wildcardBehind
  rw [same]
  by_cases named : (spot.token 2).kind.isNameAfterDot = true
  · have three := three named
    have dots : (place.token 3).kind = .punct .dot ↔ _ := beside.kind_iff inferInstance three
    by_cases dotted : (spot.token 3).kind = .punct .dot
    · have four := beside.inside_of_kind inferInstance three dotted
      have stars : (place.token 4).kind = .punct .star ↔ _ := beside.kind_iff inferInstance four
      refine ⟨by simp [named, dotted, dots.mpr dotted, beq_eq_decide, stars], fun wildcard => ?_⟩
      exact beside.inside_of_kind inferInstance four (eq_of_beq (Bool.and_eq_true_iff.mp wildcard).2)
    · simp [beq_false_of_ne dotted, beq_false_of_ne (mt dots.mp dotted)]
  · simp [named]

omit [inner.Lawful] in
theorem dottedItem_retells (beside : tails.Beside origin spot place)
    (both : tails.rest.length + 1 < spot.ahead.length) (dot : (spot.token 1).kind = .punct .dot) :
    (dottedItem inner).Retells tails origin spot place := by
  have stars : decide ((place.token 2).kind = .punct .star) =
      decide ((spot.token 2).kind = .punct .star) :=
    decide_eq_decide.mpr (beside.kind_iff inferInstance both)
  obtain ⟨same, five⟩ := wildcardBehind_iff beside both dot
  unfold dottedItem
  refine .step (on_aheadIs spot 2 _) (stars ▸ on_aheadIs place 2 _)
    (.ite (fun star => ?_) fun _ => ?_)
  · exact tableWildcard_retells beside
      (beside.inside_of_kind inferInstance both (of_decide_eq_true star))
  refine .step (on_schemaWildcardFollows spot) (same ▸ on_schemaWildcardFollows place)
    (.ite (fun wildcard => ?_) fun _ => ?_)
  · exact schemaWildcard_retells beside (five wildcard)
  · exact anywhere beside

instance : Steady tails origin inside (selectItem inner) := by
  have dotted : Steady tails origin true (aheadIs 1 (.punct .dot) >>= fun dotted =>
      if dotted = true then dottedItem inner else exprItem inner) :=
    ifAhead _ fun spot place beside both dot => dottedItem_retells beside both dot
  have named : Steady tails origin inside (peek >>= fun kind =>
      if kind.isName = true then
        aheadIs 1 (.punct .dot) >>= fun dotted =>
          if dotted = true then dottedItem inner else exprItem inner
      else exprItem inner) :=
    atKind (fun kind => inferInstance) (exprItem inner) (fun kind ends => by cases ends <;> rfl)
      fun kind => inferInstance
  unfold selectItem
  exact ifKind _

instance : Steady tails origin inside withRollup := by
  have rollup : Steady tails origin true (aheadIs 1 (.keyword .ROLLUP) >>= fun found =>
      if found = true then do
        let _ ← Rule.advance
        let _ ← Rule.advance
        return true
      else return false) := by
    refine ifAhead _ fun spot place beside both _ => ?_
    refine .advance beside (Nat.lt_of_succ_lt both) fun beside => ?_
    exact .advance beside (by simp [Tails.Within]; omega) fun beside => .pure beside
  unfold withRollup
  exact ifKind _

instance : Steady tails origin inside (groupByClause inner) := by
  unfold groupByClause
  infer_instance

instance : Steady tails origin inside (havingClause inner) := by
  unfold havingClause
  infer_instance

/-! ### Parts of queries -/

instance : Steady tails origin inside compoundOp := by
  unfold compoundOp
  infer_instance

instance : Steady tails origin inside (commonTable inner) := by
  unfold commonTable
  dsimp only
  infer_instance

instance : Steady tails origin inside (withClause inner) := by
  unfold withClause
  infer_instance

end

/-! ### Up to a closing parenthesis -/

section

variable [tails.Closed]

instance : Steady tails origin inside (onCondition inner) := by
  unfold onCondition
  infer_instance

instance : Steady tails origin inside (onOrUsing inner) := by
  unfold onOrUsing
  refine behind (fun found => ?_) fun found => ?_ <;> split <;> infer_instance

instance (join : JoinType) : Steady tails origin inside (joinCondition inner join) := by
  unfold joinCondition
  split
  · infer_instance
  · split
    · infer_instance
    · refine behind (fun found => ?_) fun found => ?_ <;> split <;> infer_instance

instance (left : TableRef) : Steady tails origin inside (extendJoin inner left) := by
  unfold extendJoin
  refine behind (fun found => ?_) fun found => ?_ <;> split <;> infer_instance

instance : Steady tails origin inside (tableRef inner) := by
  unfold tableRef
  infer_instance

instance : Steady tails origin inside (tableRefs inner) := by
  unfold tableRefs
  infer_instance

instance : Steady tails origin inside (fromClause inner) := by
  unfold fromClause
  infer_instance

instance : Steady tails origin inside (selectCore inner) := by
  unfold selectCore
  infer_instance

instance : Steady tails origin inside (queryTerm inner) := by
  unfold queryTerm
  refine look fun kind => ?_
  split <;> infer_instance

instance (compounds : List (CompoundOp × QueryTerm)) :
    Steady tails origin inside (nextCompound inner compounds) := by
  unfold nextCompound
  infer_instance

instance : Steady tails origin inside (queryBody inner) := by
  have common : Steady tails origin true (queryBody inner) := by
    rw [queryBody_eq]
    infer_instance
  exact of_spends fun spot reaches =>
    (queryBody_makes steady.makes spot reaches).mono fun _ _ made => made.shorter

instance : Steady tails origin inside (wholeQuery inner) := by
  have common : Steady tails origin true (wholeQuery inner) := by
    unfold wholeQuery
    infer_instance
  exact of_spends fun spot reaches =>
    (wholeQuery_makes steady.makes reaches).mono fun _ _ facts => facts.1.shorter

end

/-! ### Table references in parentheses -/

instance : Fitting origin (tableRefs inner) where
  fits _ _ {_ _} beside := (Steady.anywhere beside).fits

/-- The alias behind a query in parentheses, which a derived table must have. -/
def derivedAlias (start : Span) (query : Query) : Rule TableRef := do
  match ← aliasName with
  | some name => return .derived query name (start.merge (← previousSpan))
  | none => Rule.fail ["derived table alias"]

omit [inner.Lawful] in
theorem derivedTable_eq (start : Span) :
    derivedTable inner start =
      queryInParens inner >>= fun found => derivedAlias start found.1 := by
  unfold derivedTable queryInParens derivedAlias
  simp only [bind_assoc]
  rfl

instance (start : Span) (query : Query) : (derivedAlias start query).Lawful := by
  unfold derivedAlias
  refine lawful_bind fun found => ?_
  split <;> infer_instance

instance [tails.Ended] (start : Span) (query : Query) :
    Steady tails origin inside (derivedAlias start query) := by
  unfold derivedAlias
  refine behind (fun found => ?_) fun found => ?_ <;> split <;> infer_instance

instance [tails.Ended] (start : Span) : Steady tails origin inside (derivedTable inner start) := by
  rw [derivedTable_eq]
  infer_instance

instance (start : Span) : Steady tails origin inside (tableRefsInParens inner start) := by
  unfold tableRefsInParens
  infer_instance

omit [inner.Lawful] in
/-- Table references in parentheses consume a block. -/
theorem tableRefsInParens_encloses (reaches : origin.Reaches spot) (start : Span) :
    (tableRefsInParens inner start).Ensures spot fun _ later =>
      ∃ block, spot.Encloses block later := by
  unfold tableRefsInParens
  refine .expecting (by decide) fun opened => ?_
  have nothing : Placed origin none [] spot.next 0 spot.next :=
    .nothing (reaches.next (by simp [opened]))
  refine .placing nothing (tableRefs_places steady.makes) fun refs middle placed => ?_
  exact .expecting (by decide) fun closed => .pure (placed.encloses opened closed)

/-- Spots between which nothing ends. -/
def Skips (spot later : Spot) : Prop :=
  ∃ tokens, spot.ahead = tokens ++ later.ahead ∧ ∀ token ∈ tokens, ¬ token.kind.Ends

namespace Skips

theorem refl (spot : Spot) : Skips spot spot := ⟨[], rfl, nofun⟩

theorem trans {spot middle later : Spot} (front : Skips spot middle) (back : Skips middle later) :
    Skips spot later := by
  obtain ⟨first, split, others⟩ := front
  obtain ⟨second, split', others'⟩ := back
  exact ⟨first ++ second, by rw [split, split', List.append_assoc],
    List.forall_mem_append.mpr ⟨others, others'⟩⟩

theorem next {spot : Spot} (goes : ¬ spot.kind.Ends) : Skips spot spot.next := by
  have inner : spot.kind ≠ .endOfInput := fun ended => goes (ended ▸ .input)
  exact ⟨[spot.token 0], Spot.ahead_of_inner inner, List.forall_mem_singleton.mpr goes⟩

/-- In front of a token at which something ends. -/
theorem length_le {spot later : Spot} {more rest : List Token} {close : Token}
    (skips : Skips spot later) (ends : close.kind.Ends)
    (ahead : spot.ahead = more ++ close :: rest) :
    rest.length < later.ahead.length := by
  obtain ⟨tokens, split, others⟩ := skips
  rcases List.append_eq_append_iff.mp (split.symm.trans ahead) with
    ⟨middle, rfl, same⟩ | ⟨middle, rfl, same⟩
  · simp only [same, List.length_append, List.length_cons]
    omega
  · cases middle with
    | nil =>
        rw [List.nil_append] at same
        rw [← same, List.length_cons]
        omega
    | cons token middle =>
        obtain ⟨rfl, _⟩ := List.cons.inj same
        exact absurd ends (others close (by simp))

end Skips

section Skipping

omit steady [inner.Lawful]

theorem identifier_skips (spot : Spot) :
    identifier.Ensures spot fun _ later => Skips spot later := by
  refine .of_on fun ident later outcome => ?_
  rw [identifier, on_name] at outcome
  split at outcome
  · next found known =>
      cases outcome
      refine .next fun ends => ?_
      rw [Spot.kind] at ends
      unfold identOfToken? at known
      generalize (spot.token 0).kind = kind at ends known
      cases ends <;> cases known
  · cases outcome

theorem aliasName_skips (spot : Spot) :
    aliasName.Ensures spot fun _ later => Skips spot later := by
  unfold aliasName
  refine .eat (fun found => ?_) fun _ => .step (on_peek spot) (.ite (fun _ => ?_) fun _ => ?_)
  · have first : Skips spot spot.next := .next fun ends => ends.ne inferInstance found
    exact (identifier_skips spot.next).bind fun name later skips => .pure (first.trans skips)
  · exact (identifier_skips spot).bind fun name later skips => .pure skips
  · exact .pure (.refl spot)

theorem derivedAlias_skips (start : Span) (query : Query) (spot : Spot) :
    (derivedAlias start query).Ensures spot fun _ later => Skips spot later := by
  unfold derivedAlias
  refine (aliasName_skips spot).bind fun found later skips => ?_
  cases found with
  | none => exact .fail
  | some name => exact .step (on_previousSpan later) (.pure skips)

end Skipping

/-- A derived table that is read at the other spot, where the block ends in common, is read or too
deep at the one spot as well. -/
theorem derivedTable_not_stuck [ended : tails.Ended] (beside : tails.Beside origin spot place)
    {later after : Spot} {block : List Token} {start : Span} {value : TableRef} (leads : spot.Leads later)
    (within : tails.rest.length ≤ later.ahead.length) (encloses : spot.Encloses block later)
    (read : (derivedTable inner start).on place = .done value after) :
    (derivedTable inner start).on spot ≠ .stuck := by
  have named := read
  rw [derivedTable_eq, on_bind] at named
  obtain ⟨found, middle, query, named⟩ := Outcome.bind_eq_done.mp named
  obtain ⟨other, encloses'⟩ := (queryInParens_encloses beside.reaches').on query
  obtain ⟨more, _, rest⟩ := beside.encloses_unique leads within encloses encloses'
  have skips := (derivedAlias_skips start found.1 middle).on named
  have flipped : Steady tails.flip origin false (derivedTable inner start) := inferInstance
  have enough : tails.other.length ≤ after.ahead.length := by
    cases tail : tails.other with
    | nil => exact Nat.zero_le _
    | cons close others =>
        have ends := ended.other.ends close (by rw [tail]; rfl)
        exact skips.length_le ends (tail ▸ rest)
  rcases (flipped.anywhere beside.flip).on read enough with deep | ⟨_, done, _⟩
  · simp [deep]
  · simp [done]

theorem triedTable_retells [tails.Ended] (beside : tails.Beside origin spot place) (start : Span) :
    (attempt (derivedTable inner start) >>= fun found =>
      match found with
      | some derived => Pure.pure derived
      | none => tableRefsInParens inner start).Retells tails origin spot place := by
  have lawful : ∀ found : Option TableRef, Rule.Lawful (match found with
      | some derived => Pure.pure derived
      | none => tableRefsInParens inner start) := by
    intro found
    split <;> infer_instance
  refine .attempt (anywhere beside) (fun derived later after beside => .pure beside)
    (fun _ => anywhere beside) fun stuck value later read enough derived after again => ?_
  obtain ⟨block, encloses⟩ := (tableRefsInParens_encloses beside.reaches start).on read
  exact derivedTable_not_stuck beside (leads_of_on read) enough encloses again stuck

instance [tails.Ended] : Steady tails origin inside (tableInParensBody inner) := by
  have common : Steady tails origin true (tableInParensBody inner) := by
    have tried : ∀ start, Steady tails origin true (attempt (derivedTable inner start) >>=
        fun found => match found with
        | some derived => Pure.pure derived
        | none => tableRefsInParens inner start) :=
      fun start => ⟨fun beside _ => triedTable_retells beside start⟩
    have lawful : ∀ start, Rule.Lawful (attempt (derivedTable inner start) >>= fun found =>
        match found with
        | some derived => Pure.pure derived
        | none => tableRefsInParens inner start) := by
      refine fun start => lawful_bind fun found => ?_
      split <;> infer_instance
    unfold tableInParensBody
    refine look fun start => atNext (fun kind => inferInstance) (tableRefsInParens inner start)
      (fun kind ends => by cases ends <;> rfl) fun spot place beside both => ?_
    exact within beside (Nat.lt_of_succ_lt both)
  exact of_spends fun spot reaches =>
    (tableInParensBody_makes steady.makes spot reaches).mono fun _ _ made => made.shorter

end Steady

/-! ### Every nesting level -/

/-- The rules of each nesting level read the same whatever follows. -/
theorem innerAt_steady {origin : Spot} {levels : Nat} (below : levels ≤ origin.settings.maxDepth) :
    (innerAt levels).Steady origin := by
  induction levels with
  | zero =>
      refine ⟨innerAt_makes below, fun tails _ power => ?_, fun tails _ => ?_, fun tails _ => ?_⟩
      · rw [operand_zero]
        infer_instance
      · rw [query_zero]
        infer_instance
      · rw [tableInParens_zero]
        infer_instance
  | succ levels inductionHypothesis =>
      have steady := inductionHypothesis (Nat.le_of_succ_le below)
      refine ⟨innerAt_makes below, fun tails _ power => ?_, fun tails _ => ?_, fun tails _ => ?_⟩
      · have level : ∃ found, found ≤ origin.settings.maxDepth - 1 ∧
            innerAt levels = innerAt found := ⟨levels, by omega, rfl⟩
        have body : Steady tails origin false (operandBody (innerAt levels) power) :=
          .of_spends fun spot reaches =>
            (operandBody_makes steady.makes level power spot reaches).mono fun _ _ made =>
              made.shorter
        rw [operand_succ]
        infer_instance
      · rw [query_succ]
        infer_instance
      · rw [tableInParens_succ]
        infer_instance

end SqlDml.Rule
