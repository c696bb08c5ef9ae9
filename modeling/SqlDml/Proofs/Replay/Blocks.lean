import SqlDml.Proofs.Extents.Expressions
import SqlDml.Proofs.Replay.Names

/-!
Contract: what stands in parentheses is read the same whatever follows the parentheses.

Owns:
- a block of tokens in parentheses, which ends at the same token however it is read;
- rules that read the same up to a closing parenthesis, and the rules that end with it;
- rules of the next nesting level that read the same whatever follows.

Does not own: the rules of the language.
-/

namespace SqlDml

/-! ### Blocks in parentheses -/

/-- Of one list of tokens there is at most one balanced front up to a closing parenthesis. -/
theorem Balanced.front_unique {left right more others : List Token} {close stop : Token}
    (balanced : Balanced left) (balanced' : Balanced right)
    (closes : close.kind = .punct .rightParen) (stops : stop.kind = .punct .rightParen)
    (same : left ++ close :: more = right ++ stop :: others) : left = right := by
  have shorter : ∀ {left rest : List Token} {close : Token}, Balanced left →
      close.kind = .punct .rightParen → ¬Balanced (left ++ close :: rest) := by
    intro left rest close balanced closes longer
    rw [Balanced, depthAfter_append, balanced, Option.bind_some, depthAfter, closes] at longer
    cases longer
  rcases List.append_eq_append_iff.mp same with ⟨middle, rfl, split⟩ | ⟨middle, rfl, split⟩
  · cases middle with
    | nil => exact (List.append_nil left).symm
    | cons token middle =>
        obtain ⟨rfl, _⟩ := List.cons.inj split
        exact absurd balanced' (shorter balanced closes)
  · cases middle with
    | nil => exact List.append_nil right
    | cons token middle =>
        obtain ⟨rfl, _⟩ := List.cons.inj split
        exact absurd balanced (shorter balanced' stops)

/-- A spot in front of a block in parentheses, and the spot behind it. -/
structure Spot.Encloses (spot : Spot) (block : List Token) (later : Spot) : Prop where
  opened : spot.kind = .punct .leftParen
  balanced : Balanced block
  closed : ∃ close, close.kind = .punct .rightParen ∧
    spot.next.ahead = block ++ close :: later.ahead

namespace Placed

variable {origin spot middle : Spot} {parts : List Part}

/-- The tokens that were passed are balanced. -/
theorem split (placed : Placed origin none parts spot 0 middle) :
    ∃ tokens, Balanced tokens ∧ spot.ahead = tokens ++ middle.ahead := by
  obtain ⟨_, opens, core, through, _, balanced, _⟩ := placed
  exact ⟨opens ++ core, balanced, through.split⟩

theorem encloses (placed : Placed origin none parts spot.next 0 middle)
    (opened : spot.kind = .punct .leftParen) (closed : middle.kind = .punct .rightParen) :
    ∃ block, spot.Encloses block middle.next := by
  obtain ⟨tokens, balanced, split⟩ := placed.split
  have first : middle.ahead = middle.token 0 :: middle.next.ahead :=
    Spot.ahead_of_inner (by simp [closed])
  exact ⟨tokens, opened, balanced, middle.token 0, closed, by rw [split, first]⟩

end Placed

/-- A tree that was read consumed a token. -/
theorem Made.shorter {origin start spot : Spot} {part : Part} (made : Made origin part start spot) :
    spot.ahead.length < start.ahead.length := by
  obtain ⟨_, opens, inside, closes, through, _, _, _, _, covers, _⟩ := made
  have some_ := List.length_pos_iff_ne_nil.mpr covers.ne_nil
  simp only [through.split, List.length_append]
  omega

namespace Tails.Beside

variable {tails : Tails} {origin spot place middle : Spot}

/-- The tokens in common up to a later spot, and those behind it. -/
theorem split (beside : tails.Beside origin spot place) (leads : spot.Leads middle)
    (within : tails.rest.length ≤ middle.ahead.length) :
    ∃ front more, spot.ahead = front ++ middle.ahead ∧ middle.ahead = more ++ tails.rest ∧
      place.ahead = front ++ (more ++ tails.other) := by
  obtain ⟨common, ahead, ahead'⟩ := beside.ahead
  obtain ⟨front, split⟩ := leads.ahead
  have same : front ++ middle.ahead = common ++ tails.rest := split.trans ahead
  rcases List.append_eq_append_iff.mp same with ⟨more, rfl, rest⟩ | ⟨more, rfl, rest⟩
  · exact ⟨front, more, split.symm, rest, by rw [ahead', List.append_assoc]⟩
  · obtain rfl : more = [] := by
      have lengths := congrArg List.length rest
      rw [List.length_append] at lengths
      exact List.eq_nil_of_length_eq_zero (by omega)
    exact ⟨common, [], by rw [ahead, rest]; rfl, rest.symm, by rw [ahead']; rfl⟩

/-- The same where a token in common is ahead of the later spot. -/
theorem split_token (beside : tails.Beside origin spot place) (leads : spot.Leads middle)
    (inside : tails.Within middle) :
    ∃ front more, spot.ahead = front ++ middle.ahead ∧
      middle.ahead = middle.token 0 :: (more ++ tails.rest) ∧
      place.ahead = front ++ middle.token 0 :: (more ++ tails.other) := by
  obtain ⟨front, more, ahead, common, ahead'⟩ := beside.split leads (Nat.le_of_lt inside)
  cases more with
  | nil =>
      rw [Within, common] at inside
      exact absurd inside (Nat.lt_irrefl _)
  | cons token more =>
      have first : middle.token 0 = token := by simp [Spot.token, common]
      exact ⟨front, more, ahead, first ▸ common, first ▸ ahead'⟩

end Tails.Beside

/-! ### Up to a closing parenthesis -/

namespace Rule

variable {α β : Type} {tails : Tails} {origin spot place : Spot}

/-- What a rule reads from exactly the tokens in common at one spot, it reads at the other one too,
unless it meets the nesting limit there. -/
def Fits (rule : Rule α) (tails : Tails) (origin spot place : Spot) : Prop :=
  ∀ value later, rule.on spot = .done value later → later.ahead = tails.rest →
    rule.on place = .deep ∨
      ∃ after, rule.on place = .done value after ∧ tails.Beside origin later after

theorem Retells.fits {rule : Rule α} [rule.Lawful] (retells : rule.Retells tails origin spot place) :
    rule.Fits tails origin spot place :=
  fun _ _ outcome rest => retells.on outcome (by rw [rest])

/-- A rule that reads the same whatever follows a closing parenthesis up to which it reads. -/
class Fitting (origin : Spot) (rule : Rule α) : Prop where
  fits : ∀ (tails : Tails) [tails.Closed] {spot place : Spot}, tails.Beside origin spot place →
    rule.Fits tails origin spot place

/-- Where a closing parenthesis follows, only the tokens in front of it matter. -/
theorem Fitting.before {rule : Rule α} [rule.Lawful] [fitting : Fitting origin rule] {value : α}
    {middle : Spot} (beside : tails.Beside origin spot place)
    (read : rule.on spot = .done value middle) (closed : middle.kind = .punct .rightParen)
    (inside : tails.Within middle) :
    rule.on place = .deep ∨
      ∃ after, rule.on place = .done value after ∧ tails.Beside origin middle after := by
  obtain ⟨front, more, ahead, common, ahead'⟩ := beside.split_token (leads_of_on read) inside
  let inner : Tails := ⟨middle.ahead, middle.token 0 :: (more ++ tails.other), front.getLast?⟩
  have closes : inner.Closed :=
    ⟨⟨middle.token 0, by simp [inner, common], closed⟩, ⟨middle.token 0, by simp [inner], closed⟩⟩
  have within : inner.Beside origin spot place :=
    ⟨beside.reaches, beside.reaches', beside.last, beside.markers, ⟨front, ahead, ahead'⟩,
      fun split => List.append_cancel_right (ahead.symm.trans split) ▸ fun _ => id⟩
  refine (fitting.fits inner within value middle read rfl).imp_right ?_
  rintro ⟨after, done, behind⟩
  obtain ⟨nothing, same, rest⟩ := behind.ahead
  obtain rfl : nothing = [] := by
    have lengths := congrArg List.length same
    rw [List.length_append] at lengths
    exact List.eq_nil_of_length_eq_zero (by simp only [inner] at lengths; omega)
  exact ⟨after, done, behind.reaches, behind.reaches', behind.last, behind.markers,
    ⟨middle.token 0 :: more, common, rest⟩, beside.edge_behind ahead⟩

/-- A rule that a closing parenthesis follows, and what follows that. -/
theorem Retells.sealed {rule : Rule α} {next : α → Span → Rule β} [rule.Lawful]
    [∀ value span, (next value span).Lawful] [Fitting origin rule]
    (beside : tails.Beside origin spot place)
    (rest : ∀ value span later after, tails.Beside origin later after →
      (next value span).Retells tails origin later after) :
    (rule >>= fun value => expectMark .rightParen >>= next value).Retells tails origin spot
      place := by
  refine .of_on fun value later outcome within => ?_
  rw [on_bind] at outcome ⊢
  obtain ⟨first, middle, read, behind⟩ := Outcome.bind_eq_done.mp outcome
  rw [on_bind, on_expectMark] at behind
  split at behind
  · next closed =>
      rw [Outcome.bind_done] at behind
      have less : middle.next.ahead.length < middle.ahead.length :=
        Spot.length_next_lt (by simp [closed])
      have shorter := (leads_of_on behind).length_le
      have inside : tails.Within middle := by
        rw [Tails.Within]
        omega
      rcases Fitting.before beside read closed inside with deep | ⟨after, done, beside⟩
      · rw [deep]
        exact .inl rfl
      · have closed' : after.kind = .punct .rightParen := (beside.kind inside).trans closed
        rw [done, Outcome.bind_done, on_bind, on_expectMark, if_pos closed', Outcome.bind_done,
          beside.token inside]
        exact (rest first _ _ _ (beside.next inside)).on behind within
  · cases behind

/-- A rule that ends with a closing parenthesis. -/
instance (priority := high) Steady.sealed {inside : Bool} {rule : Rule α}
    {next : α → Span → Rule β} [rule.Lawful] [∀ value span, (next value span).Lawful]
    [Fitting origin rule] [rest : ∀ value span, Steady tails origin false (next value span)] :
    Steady tails origin inside (rule >>= fun value => expectMark .rightParen >>= next value) :=
  ⟨fun beside _ => .sealed beside fun value span _ _ beside =>
    (rest value span).retells beside nofun⟩

end Rule

/-! ### One nesting level deeper -/

/-- Rules of the next nesting level that read the same whatever follows. -/
class InnerRules.Steady (inner : InnerRules) (origin : Spot) : Prop where
  makes : inner.Makes origin
  operand : ∀ (tails : Tails) [tails.Open] (power : Nat),
    Rule.Steady tails origin false (inner.operand power)
  query : ∀ (tails : Tails) [tails.Closed], Rule.Steady tails origin false inner.query
  tableInParens : ∀ (tails : Tails) [tails.Ended],
    Rule.Steady tails origin false inner.tableInParens

namespace Rule

variable {tails : Tails} {origin spot place : Spot} {inside : Bool} {inner : InnerRules}
  [inner.Lawful] [steady : inner.Steady origin]

instance : Fitting origin typeName where
  fits _ _ {_ _} beside := (Steady.anywhere beside).fits

instance : Fitting origin inner.query where
  fits tails _ {_ _} beside := ((steady.query tails).retells beside nofun).fits

namespace Steady

instance : Steady tails origin inside (queryInParens inner) := by
  unfold queryInParens
  infer_instance

instance : Steady tails origin inside (subquery inner) := by
  unfold subquery
  infer_instance

instance [tails.Closed] : Steady tails origin inside inner.query :=
  have := steady.query tails
  of_anywhere

instance [tails.Ended] : Steady tails origin inside inner.tableInParens :=
  have := steady.tableInParens tails
  of_anywhere

variable [tails.Open]

instance (power : Nat) : Steady tails origin inside (inner.operand power) :=
  have := steady.operand tails power
  of_anywhere

instance : Steady tails origin inside inner.expr :=
  inferInstanceAs (Steady tails origin inside (inner.operand 0))

instance : Steady tails origin inside (exprs inner) := by
  unfold exprs
  infer_instance

end Steady

/-! ### Queries that are tried -/

section Tried

omit [inner.Lawful]

/-- A query in parentheses consumes a block. -/
theorem queryInParens_encloses (reaches : origin.Reaches spot) :
    (queryInParens inner).Ensures spot fun _ later => ∃ block, spot.Encloses block later := by
  unfold queryInParens
  refine .expecting (by decide) fun opened => ?_
  have nothing : Placed origin none [] spot.next 0 spot.next :=
    .nothing (reaches.next (by simp [opened]))
  refine .placing nothing steady.makes.query.places fun query middle placed => ?_
  exact .expecting (by decide) fun closed => .pure (placed.encloses opened closed)

theorem subquery_encloses (reaches : origin.Reaches spot) :
    (subquery inner).Ensures spot fun _ later => ∃ block, spot.Encloses block later := by
  unfold subquery
  exact (queryInParens_encloses reaches).bind fun found later block => .pure block

/-- Expressions in parentheses consume a block. -/
theorem exprInParens_encloses (reaches : origin.Reaches spot) :
    (exprInParens inner).Ensures spot fun _ later => ∃ block, spot.Encloses block later := by
  unfold exprInParens
  refine .expecting (by decide) fun opened => ?_
  have nothing : Placed origin none [] spot.next 0 spot.next :=
    .nothing (reaches.next (by simp [opened]))
  refine .placing nothing (expr_makes steady.makes).places fun first middle placed => ?_
  refine .eat (fun comma => ?_) fun _ => ?_
  · refine .placing (placed.past (middle.flat_of_kind comma)) (exprs_places steady.makes) ?_
    exact fun others last placed =>
      .expecting (by decide) fun closed => .pure (placed.encloses opened closed)
  · exact .expecting (by decide) fun closed => .pure (placed.encloses opened closed)

end Tried

end Rule

/-- Two blocks in parentheses at the same place are the same, whatever follows. -/
theorem Tails.Beside.encloses_unique {tails : Tails} {origin spot place later after : Spot}
    {block other : List Token} (beside : tails.Beside origin spot place)
    (leads : spot.Leads later) (within : tails.rest.length ≤ later.ahead.length)
    (encloses : spot.Encloses block later) (encloses' : place.Encloses other after) :
    ∃ more, later.ahead = more ++ tails.rest ∧ after.ahead = more ++ tails.other := by
  obtain ⟨front, more, ahead, common, ahead'⟩ := beside.split leads within
  obtain ⟨close, closes, split⟩ := encloses.closed
  obtain ⟨stop, stops, split'⟩ := encloses'.closed
  have first : spot.ahead = spot.token 0 :: spot.next.ahead :=
    Spot.ahead_of_inner (by simp [encloses.opened])
  have first' : place.ahead = place.token 0 :: place.next.ahead :=
    Spot.ahead_of_inner (by simp [encloses'.opened])
  obtain rfl : front = spot.token 0 :: (block ++ [close]) := by
    have whole : front ++ later.ahead = spot.token 0 :: (block ++ [close]) ++ later.ahead := by
      rw [← ahead, first, split]
      simp
    exact List.append_cancel_right whole
  have same : block ++ close :: (more ++ tails.other) = other ++ stop :: after.ahead := by
    rw [ahead', split'] at first'
    simpa using (List.cons.inj first').2
  obtain rfl := encloses.balanced.front_unique encloses'.balanced closes stops same
  exact ⟨more, common, (List.cons.inj (List.append_cancel_left same)).2.symm⟩

namespace Rule

variable {tails : Tails} {origin spot place : Spot} {inside : Bool} {inner : InnerRules}
  [inner.Lawful] [steady : inner.Steady origin]

/-- A query in parentheses that is read at the other spot, where the block ends in common, is read
or too deep at the one spot as well. -/
theorem subquery_not_stuck (beside : tails.Beside origin spot place) {later after : Spot}
    {block : List Token} {value : Expr} (leads : spot.Leads later)
    (within : tails.rest.length ≤ later.ahead.length) (encloses : spot.Encloses block later)
    (read : (subquery inner).on place = .done value after) : (subquery inner).on spot ≠ .stuck := by
  obtain ⟨other, encloses'⟩ := (subquery_encloses beside.reaches').on read
  obtain ⟨more, _, rest⟩ := beside.encloses_unique leads within encloses encloses'
  have flipped : Steady tails.flip origin false (subquery inner) := inferInstance
  have enough : tails.flip.rest.length ≤ after.ahead.length := by simp [rest, Tails.flip]
  rcases (flipped.retells beside.flip nofun).on read enough with deep | ⟨_, done, _⟩
  · simp [deep]
  · simp [done]

instance [tails.Closed] : Steady tails origin inside (queryBeforeParen inner) := by
  unfold queryBeforeParen
  infer_instance

omit [inner.Lawful] in
/-- A query in front of a closing parenthesis consumes balanced tokens. -/
theorem queryBeforeParen_splits (reaches : origin.Reaches spot) :
    (queryBeforeParen inner).Ensures spot fun _ later => later.kind = .punct .rightParen ∧
      ∃ tokens, Balanced tokens ∧ spot.ahead = tokens ++ later.ahead := by
  unfold queryBeforeParen
  refine .placing (.nothing reaches) steady.makes.query.places fun query middle placed => ?_
  exact .nextIs (fun closed => .pure ⟨closed, placed.split⟩) fun _ => .fail

/-- A query that is read at the other spot, where expressions are read up to the end in common, is
read or too deep at the one spot as well. -/
theorem queryBeforeParen_not_stuck [closed : tails.Closed] (beside : tails.Beside origin spot place)
    {items : List Expr} {later after : Spot} {value : Query}
    (listed : (exprs inner).on spot = .done items later) (rest : later.ahead = tails.rest)
    (read : (queryBeforeParen inner).on place = .done value after) :
    (queryBeforeParen inner).on spot ≠ .stuck := by
  obtain ⟨close, first, closes⟩ := closed.other
  obtain ⟨others, more⟩ := List.head?_eq_some_iff.mp first
  obtain ⟨tokens, balanced, split⟩ :=
    ((exprs_places steady.makes spot beside.reaches).on listed).split
  obtain ⟨stops, front, balanced', split'⟩ := (queryBeforeParen_splits beside.reaches').on read
  have going : after.kind ≠ .endOfInput := by simp [stops]
  -- both run up to the same parenthesis
  obtain ⟨common, ahead, ahead'⟩ := beside.ahead
  obtain rfl : tokens = common := by
    rw [ahead, rest] at split
    exact (List.append_cancel_right split).symm
  have both : front ++ after.ahead = tokens ++ tails.other := split'.symm.trans ahead'
  obtain rfl : front = tokens := by
    rw [more, Spot.ahead_of_inner going] at both
    exact balanced'.front_unique balanced stops closes both
  have flipped : Steady tails.flip origin false (queryBeforeParen inner) := inferInstance
  have enough : tails.flip.rest.length ≤ after.ahead.length :=
    Nat.le_of_eq (congrArg List.length (List.append_cancel_left both).symm)
  rcases (flipped.retells beside.flip nofun).on read enough with deep | ⟨_, done, _⟩
  · simp [deep]
  · simp [done]

/-- The set behind a second parenthesis. -/
def triedSet (inner : InnerRules) : Rule InSet := do
  match ← attempt (queryBeforeParen inner) with
  | some query => return .subquery query
  | none => return .list (← exprs inner)

instance : (triedSet inner).Lawful := by
  unfold triedSet
  refine lawful_bind fun found => ?_
  split <;> infer_instance

theorem on_triedSet (spot : Spot) :
    (triedSet inner).on spot = (tried ((queryBeforeParen inner).on spot) spot).bind
      fun found later =>
        match found with
        | some query => .done (.subquery query) later
        | none => ((exprs inner).on later).bind fun items last => .done (.list items) last := by
  rw [triedSet, on_bind_of, on_attempt]
  · congr 1
    funext found later
    cases found <;> simp
  · intro found
    split <;> infer_instance

omit [inner.Lawful] in
theorem inSet_eq :
    inSet inner = (peek >>= fun kind =>
      match kind with
      | .keyword .SELECT | .keyword .WITH => inner.query >>= fun query => pure (.subquery query)
      | .punct .leftParen => triedSet inner
      | _ => exprs inner >>= fun items => pure (.list items)) := rfl

theorem triedSet_fits [tails.Closed] (beside : tails.Beside origin spot place) :
    (triedSet inner).Fits tails origin spot place := by
  have query : (queryBeforeParen inner).Fits tails origin spot place :=
    (Steady.anywhere beside).fits
  have items : (exprs inner).Fits tails origin spot place :=
    (Steady.anywhere beside).fits
  intro value later outcome rest
  rw [on_triedSet] at outcome ⊢
  cases read : (queryBeforeParen inner).on spot with
  | done found middle =>
      rw [read] at outcome
      cases outcome
      rcases query found later read rest with deep | ⟨after, done, beside⟩
      · rw [deep]
        exact .inl rfl
      · rw [done]
        exact .inr ⟨after, rfl, beside⟩
  | stuck =>
      rw [read, tried, Outcome.bind_done] at outcome
      obtain ⟨listed, last, list, finished⟩ := Outcome.bind_eq_done.mp outcome
      cases finished
      cases again : (queryBeforeParen inner).on place with
      | done found after => exact absurd read (queryBeforeParen_not_stuck beside list rest again)
      | stuck =>
          rcases items listed later list rest with deep | ⟨after, done, beside⟩
          · simp [tried, deep]
          · exact .inr ⟨after, by simp [tried, done], beside⟩
      | deep => exact .inl rfl
  | deep =>
      rw [read] at outcome
      cases outcome

/-- The set behind `IN (` is read the same whatever follows the parenthesis that closes it. -/
instance : Fitting origin (inSet inner) where
  fits tails _ {spot place} beside := by
    have query : (inner.query >>= fun query => pure (InSet.subquery query)).Fits tails origin spot
        place := (Steady.anywhere beside).fits
    have items : (exprs inner >>= fun items => pure (InSet.list items)).Fits tails origin spot
        place := (Steady.anywhere beside).fits
    intro value later outcome rest
    rw [inSet_eq, on_bind_of _ _ _ (fun kind => by split <;> infer_instance), on_peek,
      Outcome.bind_done] at outcome ⊢
    rw [beside.kind_eq]
    split at outcome <;> rename_i kind
    · exact query value later outcome rest
    · exact query value later outcome rest
    · exact triedSet_fits beside value later outcome rest
    · exact items value later outcome rest

end Rule

end SqlDml
