import SqlDml.Proofs.Canonical.Continued
import SqlDml.Proofs.Canonical.Fronts

/-!
Contract: what may stand behind a tree, told by the next token.

Owns:
- tokens that an operand would take in, and tokens that an expression, a query and the clauses of a
  select block end in front of;
- that a query in parentheses is not read where something else goes on behind it.

Does not own: how trees are read.
-/

namespace SqlDml

/-! ### Tokens behind a tree -/

/-- A kind of token that has a property is none that has not. -/
theorem ne_of_holds {holds : TokenKind → Bool} {kind other : TokenKind}
    (known : holds kind = true) (outside : holds other = false) : kind ≠ other := by
  rintro rfl
  rw [known] at outside
  cases outside

namespace TokenKind

/-- Whether an operand would take in the token behind it. -/
def joinsOperand : TokenKind → Bool
  | .string _ _ | .hex _ | .bit _ | .punct .dot | .punct .leftParen => true
  | _ => false

/-- Whether a query ends in front of the token.  In front of `ON` it does unless it ends with a join
that could still take a condition. -/
def endsQuery : TokenKind → Bool
  | .endOfInput | .punct .rightParen | .punct .semicolon | .keyword .ON => true
  | _ => false

/-- Whether the limit of a query ends in front of the token. -/
def endsLimit : TokenKind → Bool
  | .keyword .FOR | .keyword .LOCK => true
  | kind => kind.endsQuery

/-- Whether the order of a query ends in front of the token. -/
def endsOrder : TokenKind → Bool
  | .keyword .LIMIT => true
  | kind => kind.endsLimit

/-- Whether the body of a query ends in front of the token. -/
def endsBody : TokenKind → Bool
  | .keyword .ORDER => true
  | kind => kind.endsOrder

/-- Whether a term of a query body ends in front of the token. -/
def endsTerm : TokenKind → Bool
  | .keyword .UNION => true
  | kind => kind.endsBody

/-- Whether the terms of a `GROUP BY` end in front of the token. -/
def endsGroups : TokenKind → Bool
  | .keyword .HAVING => true
  | kind => kind.endsTerm

/-- Whether ordering terms end in front of the token. -/
def endsOrdering : TokenKind → Bool
  | .keyword .WITH => true
  | kind => kind.endsGroups

/-- Whether the condition of a select block ends in front of the token. -/
def endsFilter : TokenKind → Bool
  | .keyword .GROUP => true
  | kind => kind.endsGroups

/-- Whether the tables of a statement end in front of the token. -/
def endsSources : TokenKind → Bool
  | .keyword .WHERE | .keyword .SET => true
  | kind => kind.endsFilter

/-- Whether the select list ends in front of the token. -/
def endsColumns : TokenKind → Bool
  | .keyword .FROM => true
  | kind => kind.endsSources

/-- Whether an entry of the select list ends in front of the token. -/
def endsItem : TokenKind → Bool
  | .punct .comma => true
  | kind => kind.endsColumns

/-- Whether a table reference ends in front of the token, with all that is joined to it. -/
def endsRef : TokenKind → Bool
  | .punct .comma => true
  | kind => kind.endsSources

/-- Whether a table ends in front of the token, to which others may be joined. -/
def endsTable : TokenKind → Bool
  | .keyword .INNER | .keyword .CROSS | .keyword .STRAIGHT_JOIN | .keyword .LEFT | .keyword .RIGHT
  | .keyword .NATURAL | .keyword .ON | .keyword .USING => true
  | kind => kind.endsRef

/-- Whether an expression ends in front of the token. -/
def endsExpr : TokenKind → Bool
  | .keyword .AS | .keyword .FROM | .keyword .WITH | .keyword .ASC | .keyword .DESC
  | .keyword .WHEN | .keyword .THEN | .keyword .ELSE | .keyword .END => true
  | kind => kind.endsTable

variable {kind : TokenKind}

theorem endsLimit_of_query (ends : kind.endsQuery = true) : kind.endsLimit = true := by
  unfold endsLimit
  split <;> first | rfl | exact ends

theorem endsOrder_of_limit (ends : kind.endsLimit = true) : kind.endsOrder = true := by
  unfold endsOrder
  split <;> first | rfl | exact ends

theorem endsBody_of_order (ends : kind.endsOrder = true) : kind.endsBody = true := by
  unfold endsBody
  split <;> first | rfl | exact ends

theorem endsTerm_of_body (ends : kind.endsBody = true) : kind.endsTerm = true := by
  unfold endsTerm
  split <;> first | rfl | exact ends

theorem endsGroups_of_term (ends : kind.endsTerm = true) : kind.endsGroups = true := by
  unfold endsGroups
  split <;> first | rfl | exact ends

theorem endsFilter_of_groups (ends : kind.endsGroups = true) : kind.endsFilter = true := by
  unfold endsFilter
  split <;> first | rfl | exact ends

theorem endsSources_of_filter (ends : kind.endsFilter = true) : kind.endsSources = true := by
  unfold endsSources
  split <;> first | rfl | exact ends

theorem endsColumns_of_sources (ends : kind.endsSources = true) : kind.endsColumns = true := by
  unfold endsColumns
  split <;> first | rfl | exact ends

theorem endsRef_of_sources (ends : kind.endsSources = true) : kind.endsRef = true := by
  unfold endsRef
  split <;> first | rfl | exact ends

theorem endsTable_of_ref (ends : kind.endsRef = true) : kind.endsTable = true := by
  unfold endsTable
  split <;> first | rfl | exact ends

theorem endsExpr_of_table (ends : kind.endsTable = true) : kind.endsExpr = true := by
  unfold endsExpr
  split <;> first | rfl | exact ends

theorem endsExpr_of_columns (ends : kind.endsColumns = true) : kind.endsExpr = true := by
  unfold endsColumns at ends
  split at ends
  · rfl
  · exact endsExpr_of_table (endsTable_of_ref (endsRef_of_sources ends))

theorem endsExpr_of_sources (ends : kind.endsSources = true) : kind.endsExpr = true :=
  endsExpr_of_table (endsTable_of_ref (endsRef_of_sources ends))

theorem endsExpr_of_ordering (ends : kind.endsOrdering = true) : kind.endsExpr = true := by
  unfold endsOrdering at ends
  split at ends
  · rfl
  · exact endsExpr_of_sources (endsSources_of_filter (endsFilter_of_groups ends))

theorem endsExpr_of_item (ends : kind.endsItem = true) : kind.endsExpr = true := by
  unfold endsItem at ends
  split at ends
  · rfl
  · exact endsExpr_of_columns ends

theorem not_isName_of_endsExpr (ends : kind.endsExpr = true) : kind.isName = false := by
  cases isName : kind.isName with
  | false => rfl
  | true =>
      cases kind with
      | keyword keyword => cases keyword <;> first | (cases isName; done) | cases ends
      | _ => first | (cases isName; done) | cases ends

/-- Whether the token interrupts a query in parentheses: it neither goes on with the query nor closes
the parentheses around it. -/
def interruptsQuery : TokenKind → Bool
  | .punct .rightParen | .keyword .UNION | .keyword .ORDER | .keyword .LIMIT | .keyword .FOR
  | .keyword .LOCK => false
  | _ => true

theorem not_joinsOperand_of_endsExpr (ends : kind.endsExpr = true) : kind.joinsOperand = false := by
  cases joins : kind.joinsOperand with
  | false => rfl
  | true =>
      unfold joinsOperand at joins
      split at joins <;> first | cases ends | cases joins

end TokenKind

/-- No condition is in front where a join could still take one. -/
def Untested (open_ : Bool) (signs : List Sign) : Prop :=
  open_ = true → kindAt signs 0 ≠ .keyword .ON

namespace Untested

variable {open_ : Bool} {signs : List Sign}

theorem of_ne (other : kindAt signs 0 ≠ .keyword .ON) : Untested open_ signs := fun _ => other

theorem of_closed (closed : open_ = false) : Untested open_ signs := fun opened => by
  rw [closed] at opened
  cases opened

/-- In front of a closing parenthesis. -/
theorem rightParen : Untested open_ (Sign.mark .rightParen :: signs) := .of_ne (by simp)

end Untested

/-- In front of what ends an expression nothing is extended. -/
theorem Loosens.of_endsExpr {concat : Bool} {signs : List Sign}
    (ends : (kindAt signs 0).endsExpr = true) : Loosens concat 0 signs := by
  refine .of_kind 0 rfl (ne_of_holds ends rfl) (ne_of_holds ends rfl) (ne_of_holds ends rfl) ?_
  intro concat
  cases known : Continuation.ofToken? concat (kindAt signs 0) with
  | none => rfl
  | some continuation =>
      exfalso
      generalize kindAt signs 0 = kind at ends known
      unfold Continuation.ofToken? at known
      split at known <;> first | cases ends | cases known

/-! ### Queries that are not closed -/

namespace Rule

variable {α β : Type} {concat : Bool} {fits : Prop} {before after : List Sign}

namespace Meets

variable {next : TokenKind → Rule β} {post : Outcome β → Prop}

theorem peek (second : (next (kindAt before 0)).Meets concat before post)
    (lawful : ∀ kind, (next kind).Lawful := by infer_instance) :
    (Rule.peek >>= next).Meets concat before post := by
  intro spot setting front
  rw [on_bind, on_peek, Outcome.bind_done, spot.kind_eq_of_signs front]
  exact second spot setting front

theorem advance {next : Token → Rule β} [∀ token, (next token).Lawful] {sign : Sign}
    (second : ∀ token, (next token).Meets concat before post) :
    (Rule.advance >>= next).Meets concat (sign :: before) post := by
  intro spot setting front
  rw [on_bind, on_advance, Outcome.bind_done]
  refine second _ spot.next setting ?_
  rw [spot.next_signs, front, List.tail_cons]

theorem currentSpan {next : Span → Rule β} [∀ span, (next span).Lawful]
    (second : ∀ span, (next span).Meets concat before post) :
    (Rule.currentSpan >>= next).Meets concat before post := by
  intro spot setting front
  rw [on_bind, on_currentSpan, Outcome.bind_done]
  exact second _ spot setting front

theorem expectFound {next : Span → Rule β} {sign : Sign} {kind : TokenKind}
    (found : sign.kind = kind) (second : ∀ span, (next span).Meets concat before post)
    (lawful : ∀ span, (next span).Lawful := by infer_instance) :
    (Rule.expect kind >>= next).Meets concat (sign :: before) post := by
  intro spot setting front
  have here : spot.kind = kind := by rw [spot.kind_eq_of_signs front, kindAt_zero, found]
  rw [on_bind, on_expect_found here, Outcome.bind_done]
  refine second _ spot.next setting ?_
  rw [spot.next_signs, front, List.tail_cons]

end Meets

/-- A rule that matches nothing in front of the signs, or leaves something else than a closing
parenthesis in front, unless it meets the nesting limit where the levels do not fit. -/
def UnclosedIf (fits : Prop) (concat : Bool) (rule : Rule α) (before : List Sign) : Prop :=
  rule.Meets concat before fun outcome =>
    (outcome = .stuck ∨ ∃ value later, outcome = .done value later ∧ later.kind ≠ .punct .rightParen) ∨
      (¬ fits ∧ outcome = .deep)

namespace UnclosedIf

variable {rule : Rule α}

theorem of_misses (misses : rule.MissesIf fits concat before) : rule.UnclosedIf fits concat before :=
  fun spot setting front => (misses spot setting front).imp_left .inl

theorem of_takes [Labelled α] [rule.Lawful] {tree : α}
    (takes : rule.TakesIf fits concat before after tree) (open_ : kindAt after 0 ≠ .punct .rightParen) :
    rule.UnclosedIf fits concat before := by
  intro spot setting front
  rcases takesIf_iff_meets.mp takes spot setting front with
    ⟨_, value, later, outcome, back, _⟩ | ⟨few, deep⟩
  · exact .inl (.inr ⟨value, later, outcome, by rwa [later.kind_eq_of_signs back]⟩)
  · exact .inr ⟨few, deep⟩

/-- Where less fits, a rule may meet the limit more often. -/
theorem mono {others : Prop} (unclosed : rule.UnclosedIf fits concat before)
    (fewer : others → fits) : rule.UnclosedIf others concat before :=
  fun spot setting front => (unclosed spot setting front).imp_right fun met =>
    ⟨fun enough => met.1 (fewer enough), met.2⟩

theorem enter [rule.Lawful] (unclosed : rule.UnclosedIf fits concat before) :
    (Rule.enter rule).UnclosedIf fits concat before := by
  intro spot setting front
  rw [on_enter]
  exact unclosed spot setting front

/-- Where no level is left, nothing fits. -/
theorem tooDeep (none : ¬ fits) : (Rule.tooDeep : Rule α).UnclosedIf fits concat before :=
  fun spot _ _ => .inr ⟨none, on_tooDeep spot⟩

/-- Nothing is read that must be closed. -/
theorem misses [rule.Lawful] {next : α → Span → Rule β} (unclosed : rule.UnclosedIf fits concat before)
    (lawful : ∀ value span, (next value span).Lawful := by infer_instance) :
    (rule >>= fun value => expectMark .rightParen >>= next value).MissesIf fits concat before := by
  intro spot setting front
  rw [on_bind]
  rcases unclosed spot setting front with (stuck | ⟨value, later, outcome, open_⟩) | ⟨few, deep⟩
  · exact .inl (by rw [stuck]; rfl)
  · refine .inl ?_
    rw [outcome, Outcome.bind_done, on_bind, expectMark, on_expect_missing open_]
    rfl
  · exact .inr ⟨few, by rw [deep]; rfl⟩

end UnclosedIf

section

variable {inner : InnerRules} [inner.Lawful]

/-- A query behind `IN (` is not read where it is not closed. -/
theorem misses_queryBeforeParen (unclosed : inner.query.UnclosedIf fits concat before) :
    (queryBeforeParen inner).MissesIf fits concat before := by
  intro spot setting front
  unfold queryBeforeParen
  rw [on_bind]
  rcases unclosed spot setting front with (stuck | ⟨value, later, outcome, open_⟩) | ⟨few, deep⟩
  · exact .inl (by rw [stuck]; rfl)
  · refine .inl ?_
    rw [outcome, Outcome.bind_done, on_bind, on_nextIsMark, Outcome.bind_done, on_ite,
      if_neg (by simpa using open_)]
    exact on_fail _ _
  · exact .inr ⟨few, by rw [deep]; rfl⟩

/-- A query in parentheses is not read where it is not closed. -/
theorem misses_subquery {sign : Sign} (opens : sign.kind = .punct .leftParen)
    (unclosed : inner.query.UnclosedIf fits concat before) :
    (subquery inner).MissesIf fits concat (sign :: before) := by
  unfold subquery queryInParens
  exact .bind (.expectFound opens fun start => unclosed.misses)

theorem misses_derivedTable {sign : Sign} {start : Span} (opens : sign.kind = .punct .leftParen)
    (unclosed : inner.query.UnclosedIf fits concat before) :
    (derivedTable inner start).MissesIf fits concat (sign :: before) := by
  unfold derivedTable
  refine .expectFound opens (fun _ => unclosed.misses fun query _ => ?_) fun _ => ?_
  · refine lawful_bind fun found => ?_
    split <;> infer_instance
  · refine lawful_bind fun query => lawful_bind fun _ => lawful_bind fun found => ?_
    split <;> infer_instance

omit [inner.Lawful] in
theorem takes_withClause_none (noWith : kindAt before 0 ≠ .keyword .WITH) :
    (withClause inner).Takes concat before before none := by
  unfold withClause
  refine .nextIs_other noWith ?_
  exact .pure

/-- Where no term begins there is no query. -/
theorem misses_wholeQuery (noWith : kindAt before 0 ≠ .keyword .WITH)
    (noTerm : (queryTerm inner).MissesIf fits concat before) :
    (wholeQuery inner).MissesIf fits concat before := by
  unfold wholeQuery
  refine .currentSpan fun start => (takes_withClause_none noWith).bind_meets fun _ _ => ?_
  refine MissesIf.bind ?_
  rw [queryBody_eq]
  exact .currentSpan fun start => MissesIf.bind noTerm

/-- A query begins with `SELECT`, `WITH` or a parenthesis. -/
theorem unclosed_of_kind (other : (kindAt before 0).startsQuery = false) :
    (wholeQuery inner).UnclosedIf fits concat before := by
  refine .of_misses (misses_wholeQuery ?_ ?_)
  · intro same
    rw [same] at other
    cases other
  · unfold queryTerm
    refine .peek ?_ fun kind => ?_
    · split
      · next same =>
          rw [same] at other
          cases other
      · next same =>
          rw [same] at other
          cases other
      · exact MissesIf.fail _
    · split <;> infer_instance

/-- What is in parentheses is no query if it is none without them. -/
theorem unclosed_of_parens {sign : Sign} (opens : sign.kind = .punct .leftParen)
    (unclosed : inner.query.UnclosedIf fits concat before) :
    (wholeQuery inner).UnclosedIf fits concat (sign :: before) := by
  have noWith : kindAt (sign :: before) 0 ≠ .keyword .WITH := by simp [opens]
  refine .of_misses (misses_wholeQuery noWith ?_)
  unfold queryTerm
  refine .peek ?_ fun kind => ?_
  · rw [kindAt_zero, opens]
    exact .advance fun _ => unclosed.misses
  · split <;> infer_instance

end

end Rule

end SqlDml
