import SqlDml.Proofs.Extents.Aligned
import SqlDml.Proofs.Extents.Placed
import SqlDml.Proofs.Nesting.Consumed
import SqlDml.Proofs.Replay.Queries
import SqlDml.Proofs.Spelling.SameKinds

/-!
Contract: the text of an expression, read on its own.

Owns:
- nesting levels at a spot in the middle of a parse: what is read with few levels is read with more,
  and with more levels than tokens the limit is not met;
- an expression that grew in the middle of a parse grows from its tokens alone, which are read as one
  expression up to their end;
- the tokens of an expression anywhere in a parsed tree;
- the text under its span is read as the same expression if its parentheses are balanced, and as no
  expression otherwise.

Does not own: which spans leave out parentheses.
-/

/-! ## The tokens of an expression -/

namespace SqlDml

open Comparison

/-! ### Nesting levels -/

namespace Rule

variable {α : Type} [Labelled α] [LawfulLabels α] {rule copy : Rule α} {spot later : Spot}

/-- What a rule reads with few levels, its copy with more levels reads. -/
theorem on_of_raised [copy.Lawful] (inStep : InStep raised true rule copy) {value : α}
    (read : rule.on spot = .done value later) : copy.on spot = .done value later := by
  have ready := spot.state_ready
  obtain ⟨left, right, verdict⟩ := inStep.abreast (.refl ready) fun _ => trivial
  unfold on at read
  rcases run : rule spot.state with ⟨result | result, reached⟩
  · rw [run] at read
    cases result <;> cases read
  · rw [run] at read verdict
    cases read
    rcases run' : copy spot.state with ⟨result', reached'⟩
    rw [run'] at verdict
    cases verdict with
    | done alike twin =>
        cases alike.eq_of_refl
        have leads := left.of_run run
        have leads' := right.of_run run'
        have outcome := on_of_run ready run'
        rw [Spot.state_spot] at outcome
        rw [outcome, ParserState.spot_eq_of_whole leads.ready.sound leads'.ready.sound twin.whole
          twin.cursor (leads'.settings.trans leads.settings.symm)
          (leads'.source.trans leads.source.symm) twin.placeholders]

end Rule

open Rule

/-- What grows with few levels grows with more. -/
theorem Grown.raised {levels more : Nat} (enough : levels ≤ more) {spot later : Spot} {expr : Expr}
    (grown : Grown (innerAt levels) spot expr later) : Grown (innerAt more) spot expr later := by
  have inner := innerAt_raised enough
  induction grown with
  | primary read => exact .primary (on_of_raised (.of_opening inferInstance) read)
  | @extended power left _ _ _ _ read inductionHypothesis =>
      have same : Alike Comparison.raised.likeness left left := .refl left
      have inStep : InStep Comparison.raised true (extendOperand (innerAt levels) power left)
          (extendOperand (innerAt more) power left) := inferInstance
      exact .extended inductionHypothesis (on_of_raised inStep read)

/-- A rule that pays with a token for each level never meets the limit with more levels than
tokens. -/
theorem on_ne_deep_of_paid {α : Type} [Labelled α] [LawfulLabels α] {rule guarded : Rule α} [rule.Lawful]
    {levels : Nat} {spot : Spot} (inStep : InStep (paid levels 0) true rule guarded)
    (limit : spot.settings.maxDepth = levels) (few : spot.ahead.length + 1 < levels) :
    rule.on spot ≠ .deep := by
  intro deep
  obtain ⟨_, behind⟩ := run_of_inStep inStep
    (show (paid levels 0).Near spot.state spot.state from
      ⟨rfl, spot.state_ready, limit, rfl, Nat.zero_le _⟩)
  have agrees := rule.agrees_on spot.state spot.state_ready
  rw [Spot.state_spot, deep] at agrees
  obtain ⟨bound, position, later, run, leads, _⟩ := agrees
  obtain ⟨_, index, token, reached, found, _⟩ := behind bound position later run
  have whole : spot.state.stream.whole = _ := spot.stream_whole
  have inside := (List.getElem?_eq_some_iff.mp found).1
  rw [leads.stream.whole, whole, List.length_cons, List.length_append, List.length_singleton]
    at inside
  omega

/-- With more levels than tokens an expression never meets the limit. -/
theorem operand_on_ne_deep {levels power : Nat} {spot : Spot}
    (limit : spot.settings.maxDepth = levels) (few : spot.ahead.length + 1 < levels) :
    ((innerAt levels).operand power).on spot ≠ .deep :=
  have inner := guardedAt_inStep (innerAt levels) levels levels 0 (Nat.zero_add _)
  on_ne_deep_of_paid (inner.operand power) limit few

/-- Nor does a query. -/
theorem query_on_ne_deep {levels : Nat} {spot : Spot} (limit : spot.settings.maxDepth = levels)
    (few : spot.ahead.length + 1 < levels) : (innerAt levels).query.on spot ≠ .deep :=
  have inner := guardedAt_inStep (innerAt levels) levels levels 0 (Nat.zero_add _)
  on_ne_deep_of_paid inner.query limit few

/-! ### Expressions that grew -/

section

variable {inner : InnerRules} [inner.Lawful] {spot later : Spot} {expr : Expr}

/-- An operand that may be continued is continued alike by operators that bind less tightly. -/
theorem Rule.on_extendOperand_eq_or (inner : InnerRules) [inner.Lawful] (power : Nat) (left : Expr)
    (spot : Spot) :
    (extendOperand inner power left).on spot = .done none spot ∨
      (extendOperand inner power left).on spot = (extendOperand inner 0 left).on spot := by
  rw [on_extendOperand, on_extendOperand]
  split
  · split
    · exact .inr (if_pos (Nat.zero_le _)).symm
    · exact .inl rfl
  · split
    · split
      · exact .inr (if_pos (Nat.zero_le _)).symm
      · exact .inl rfl
    · exact .inl rfl

/-- A whole expression begins with every expression that grows from the same spot. -/
theorem Grown.on_operandBody (grown : Grown inner spot expr later) :
    (operandBody inner 0).on spot = (whileSome (extendOperand inner 0) expr).on later := by
  induction grown with
  | primary read => rw [operandBody, on_bind, read, Outcome.bind_done]
  | @extended power left _ middle _ _ read inductionHypothesis =>
      rcases on_extendOperand_eq_or inner power left middle with nothing | same
      · cases nothing.symm.trans read
      · rw [inductionHypothesis, on_whileSome, ← same, read]
        rfl

end

section

variable {origin spot place later : Spot} {inner : InnerRules} [inner.Lawful]
  [steady : inner.Steady origin] {tails : Tails} [tails.Open] {expr : Expr}

/-- An expression that grows from tokens in common grows at the other spot too, unless the nesting
limit is met there. -/
theorem Grown.retold (grown : Grown inner spot expr later) (beside : tails.Beside origin spot place)
    (inside : tails.Within spot) (enough : tails.rest.length ≤ later.ahead.length) :
    (operandBody inner 0).on place = .deep ∨
      ∃ after, Grown inner place expr after ∧ tails.Beside origin later after := by
  induction grown with
  | primary read =>
      rcases (Steady.within beside inside).on read enough with deep | ⟨after, again, beside⟩
      · left
        rw [operandBody, on_bind, deep, Outcome.bind_deep]
      · exact .inr ⟨after, .primary again, beside⟩
  | @extended power left _ _ _ _ read inductionHypothesis =>
      have shorter := Shortens.shorter _ _ _ read
      rcases inductionHypothesis (by omega) with deep | ⟨middle, grown, beside⟩
      · exact .inl deep
      · rcases (Steady.anywhere beside).on read enough with deep | ⟨after, again, beside⟩
        · left
          rcases on_extendOperand_eq_or inner power left middle with nothing | same
          · cases nothing.symm.trans deep
          · rw [grown.on_operandBody, on_whileSome, ← same, deep]
            rfl
        · exact .inr ⟨after, .extended grown again, beside⟩

end

/-- An expression is read from its own tokens as from any longer list of them, with one level more
than is open for its parts, unless that is too few. -/
theorem Grown.alone {origin spot place later : Spot} {expr : Expr} {tokens : List Token}
    {levels : Nat} {before : Option Token} (below : levels ≤ origin.settings.maxDepth)
    (grown : Grown (innerAt levels) spot expr later) (through : spot.Through tokens later)
    (some_ : tokens ≠ []) (beside : Tails.Beside ⟨later.ahead, [], before⟩ origin spot place) :
    (innerAt (levels + 1)).expr.on place = .deep ∨
      ∃ after, (innerAt (levels + 1)).expr.on place = .done expr after ∧ after.ahead = [] := by
  have steady := innerAt_steady below
  have ends : Tails.Open ⟨later.ahead, [], before⟩ := ⟨.nil before⟩
  have inside : Tails.Within ⟨later.ahead, [], before⟩ spot := by
    have positive := List.length_pos_iff.mpr some_
    rw [Tails.Within, through.split, List.length_append]
    exact Nat.lt_add_of_pos_left positive
  rw [InnerRules.expr, operand_succ, on_enter]
  refine (grown.retold beside inside (Nat.le_refl _)).imp_right ?_
  rintro ⟨after, again, beside⟩
  have nothing : after.ahead = [] := by
    obtain ⟨front, ahead, ahead'⟩ := beside.ahead
    rw [ahead', List.append_eq_nil_iff.mpr ⟨List.self_eq_append_left.mp ahead, rfl⟩]
  have ended : after.kind = .endOfInput := Spot.kind_of_ahead_nil nothing
  refine ⟨after, ?_, nothing⟩
  rw [again.on_operandBody, on_whileSome, Steady.on_extendOperand_at_end (ended ▸ .input)]
  rfl

end SqlDml

/-! ## The text of an expression -/

namespace SqlDml

open Rule Comparison

/-- A tree that a source is parsed to. -/
inductive ParsedFrom (source : String) (settings : Settings) : Part → Prop where
  | statement {parsed : ParsedStatement} (accepted : parseStatement source settings = .ok parsed) :
      ParsedFrom source settings (.statement parsed.statement)
  | expr {tree : Expr} (accepted : parseExpression source settings = .ok tree) :
      ParsedFrom source settings (.expr tree)

section

variable {source : String} {settings : Settings}

namespace ParsedFrom

variable {root : Part}

/-- With a larger limit the tree is the same. -/
theorem withLimit (parsed : ParsedFrom source settings root) {limit : Nat}
    (more : settings.maxDepth ≤ limit) : ParsedFrom source (settings.withLimit limit) root := by
  cases parsed with
  | statement accepted =>
      refine .statement ((parseStatement_withLimit source settings more ?_).trans accepted)
      rw [accepted]
      nofun
  | expr accepted =>
      refine .expr ((parseExpression_withLimit source settings more ?_).trans accepted)
      rw [accepted]
      nofun

/-- The tree lies over the tokens of the source, up to a semicolon at their end. -/
theorem exists_over (parsed : ParsedFrom source settings root) :
    ∃ tokens rest, tokenize source settings =
        .ok (tokens ++ (rest ++ [(TokenStream.ofSource source settings).stop])) ∧
      Over (Expr.ReadOver (Spot.ofSource source settings)) tokens [root] := by
  cases parsed with
  | statement accepted =>
      obtain ⟨unfailed, _⟩ := (parseStatement_eq_ok source settings).mp accepted
      obtain ⟨rest, split⟩ := exists_withoutSemicolon_append (Spot.ofSource source settings).ahead
      refine ⟨_, rest, ?_, (over_of_parseStatement accepted).1⟩
      rw [← List.append_assoc, ← split]
      exact tokenize_of_ahead unfailed
  | expr accepted =>
      obtain ⟨unfailed, _⟩ := (parseExpression_eq_ok source settings).mp accepted
      exact ⟨_, [], tokenize_of_ahead unfailed, over_of_parseExpression accepted⟩

end ParsedFrom

theorem tokenize_withLimit (source : String) (settings : Settings) (limit : Nat) :
    tokenize source (settings.withLimit limit) = tokenize source settings := by
  rw [tokenize, tokenize, TokenRun.ofSource_withLimit]

/-- The tokens that a parse begins with are those of the source. -/
theorem ahead_of_tokenize {tokens : List Token} {stop : Token}
    (read : tokenize source settings = .ok (tokens ++ [stop])) :
    (Spot.ofSource source settings).ahead = tokens ∧ stop.kind = .endOfInput := by
  obtain ⟨_, whole⟩ := tokenize_eq_ok.mp read
  obtain ⟨ahead, ends⟩ := List.append_inj' ((ofSource_whole source settings).symm.trans whole) rfl
  exact ⟨ahead, List.singleton_inj.mp ends ▸ (TokenStream.sound_ofSource source settings).stop_kind⟩

/-- So is the end of input behind them. -/
theorem stop_of_tokenize {tokens : List Token} {stop : Token}
    (read : tokenize source settings = .ok (tokens ++ [stop])) :
    (Spot.ofSource source settings).stop = stop := by
  obtain ⟨_, whole⟩ := tokenize_eq_ok.mp read
  obtain ⟨_, ends⟩ := List.append_inj' ((ofSource_whole source settings).symm.trans whole) rfl
  rw [Spot.ofSource, ParserState.spot_stop (ParserState.ready_ofSource source settings)]
  exact List.singleton_inj.mp ends

/-- With more levels than tokens one more level changes nothing. -/
theorem parseExpression_of_few {limit more : Nat}
    (few : (Spot.ofSource source (settings.withLimit limit)).ahead.length < limit)
    (larger : limit ≤ more) :
    parseExpression source (settings.withLimit more) =
      parseExpression source (settings.withLimit limit) :=
  parseExpression_withLimit source (settings.withLimit limit) larger fun bound position deep =>
    not_metBehind source (settings.withLimit limit) few
      ((parseExpression_guarded source (settings.withLimit limit) (innerAt 0)).2 bound position deep).2

theorem parseStatement_of_few {limit more : Nat}
    (few : (Spot.ofSource source (settings.withLimit limit)).ahead.length < limit)
    (larger : limit ≤ more) :
    parseStatement source (settings.withLimit more) =
      parseStatement source (settings.withLimit limit) :=
  parseStatement_withLimit source (settings.withLimit limit) larger fun bound position deep =>
    not_metBehind source (settings.withLimit limit) few
      ((parseStatementBy_guarded source (settings.withLimit limit) (innerAt 0)).2 bound position deep).2

/-- The parentheses of an expression are balanced. -/
theorem balanced_of_parseExpression {expr : Expr}
    (accepted : parseExpression source settings = .ok expr) :
    Balanced (Spot.ofSource source settings).ahead := by
  obtain ⟨_, later, outcome, all⟩ := (parseExpression_eq_ok source settings).mp accepted
  have makes := expr_makes (@innerAt_makes (Spot.ofSource source settings) _ (Nat.le_refl _))
  obtain ⟨_, opens, inside, closes, through, _, _, balanced, _⟩ :=
    (makes _ (reaches_ofSource source settings)).on outcome
  rw [through.split, all, List.append_nil]
  exact balanced

theorem balanced_iff_of_kinds {tokens tokens' : List Token}
    (kinds : tokens.map Token.kind = tokens'.map Token.kind) : Balanced tokens ↔ Balanced tokens' := by
  have same : ∀ depth, depthAfter depth tokens = depthAfter depth tokens' := by
    induction tokens generalizing tokens' with
    | nil =>
        intro depth
        rw [List.map_eq_nil_iff.mp kinds.symm]
    | cons token tokens inductionHypothesis =>
        obtain ⟨token', rest', rfl, kind, others⟩ := List.map_eq_cons_iff.mp kinds.symm
        intro depth
        simp only [depthAfter, kind, inductionHypothesis others.symm]
  rw [Balanced, Balanced, same]

/-- An expression that grows from some tokens of a source is read from a text with these tokens. -/
theorem Grown.parseExpression {front inside back : List Token} {stop : Token}
    (read : tokenize source settings = .ok (front ++ (inside ++ (back ++ [stop]))))
    (few : inside.length + 1 < settings.maxDepth) (some_ : inside ≠ []) {text : String}
    {tokens : List Token} {last : Token} (again : tokenize text settings = .ok (tokens ++ [last]))
    (ended : last.kind = .endOfInput)
    (each : List.Forall₂ (SameText source.toList text.toList) inside tokens) {levels : Nat}
    {spot later : Spot} {expr : Expr} (below : levels ≤ settings.maxDepth - 1)
    (reaches : (Spot.ofSource source settings).Reaches spot) (through : spot.Through inside later)
    (grown : Grown (innerAt levels) spot expr later) :
    ∃ copy, SqlDml.parseExpression text settings = .ok copy ∧ expr.CopiedBy copy := by
  have whole := read
  rw [← List.append_assoc, ← List.append_assoc] at whole
  obtain ⟨ahead, stops⟩ := ahead_of_tokenize whole
  have inner := (Spot.ofSource source settings).inner
  have order := inOrder_ofSource source settings
  rw [ahead] at inner order
  let place : Spot := ⟨settings, source.toList, stop, spot.last, inside, spot.markers,
    fun token member => inner token (List.mem_append_left _ (List.mem_append_right _ member)), stops⟩
  have beside : Tails.Beside ⟨later.ahead, [], inside.getLast?⟩ (Spot.ofSource source settings) spot
      place :=
    ⟨reaches, ⟨rfl, rfl, order.of_front.of_back⟩, rfl, rfl,
      ⟨inside, through.split, (List.append_nil _).symm⟩,
      fun split => List.append_cancel_right (through.split.symm.trans split) ▸ fun _ => id⟩
  have levels : settings.maxDepth - 1 + 1 = settings.maxDepth := by omega
  obtain ⟨after, done, all⟩ : ∃ after,
      (innerAt settings.maxDepth).expr.on place = .done expr after ∧ after.ahead = [] := by
    have grown : Grown (innerAt (settings.maxDepth - 1)) spot expr later := grown.raised below
    have alone := grown.alone (show settings.maxDepth - 1 ≤ settings.maxDepth from Nat.sub_le _ _)
      through some_ beside
    rw [levels] at alone
    exact alone.resolve_left (operand_on_ne_deep rfl few)
  have same : SameTexts place.source text.toList (place.ahead ++ [place.stop])
      ((Spot.ofSource text settings).ahead ++ [(Spot.ofSource text settings).stop]) := by
    rw [(ahead_of_tokenize again).1, stop_of_tokenize again]
    refine sameTexts_concat each stops ended ((writtenIn_of_tokenize read).sublist ?_)
      (writtenIn_of_tokenize again)
    rw [← List.append_assoc inside]
    exact (((List.sublist_append_left inside back).append_right [stop]).trans
      (List.sublist_append_right front _))
  obtain ⟨unfailed, _⟩ := tokenize_eq_ok.mp again
  have paired := innerAt_paired (.ofSameTexts same place.markers) settings.maxDepth
  have near := @near_states place (Spot.ofSource text settings) place.markers same rfl rfl
  obtain ⟨copy, reached, copied, alike, length, _⟩ :=
    (on_of_paired (paired.operand 0) near).1 _ _ done
  refine ⟨copy, (parseExpression_eq_ok text settings).mpr ⟨unfailed, reached, copied, ?_⟩,
    Expr.copiedBy_of_alike alike⟩
  rw [all] at length
  exact List.eq_nil_of_length_eq_zero length

/-- The text under the span of an expression has the tokens of the expression.  With more levels than
tokens it is read as the same expression if they are balanced. -/
theorem ParsedFrom.exists_text {root : Part} (parsed : ParsedFrom source settings root) {expr : Expr}
    (within : Part.Within (.expr expr) root) :
    ∃ text tokens stop, expr.span.slice? source.toList = some text.toList ∧
      tokenize text settings = .ok (tokens ++ [stop]) ∧
      (tokens.length + 1 < settings.maxDepth → Balanced tokens →
        ∃ copy, parseExpression text settings = .ok copy ∧ expr.CopiedBy copy) := by
  obtain ⟨_, rest, tokenized, lies⟩ := parsed.exists_over
  obtain ⟨front, inside, behind, rfl, covers, known, _⟩ :=
    lies.exists_tokens_within List.mem_cons_self within
  obtain ⟨clean, grows⟩ := known expr rfl
  have read : tokenize source settings = .ok (front ++ (inside ++ ((behind ++ rest) ++
      [(TokenStream.ofSource source settings).stop]))) := by
    simpa only [List.append_assoc] using tokenized
  obtain ⟨text, tokens, stop, slice, again, ended, each⟩ := tokenize_slice read clean covers
  refine ⟨text, tokens, stop, slice, again, fun few balanced => ?_⟩
  have kinds : inside.map Token.kind = tokens.map Token.kind := by
    rw [← List.forall₂_eq_eq_eq]
    exact List.forall₂_map_left_iff.mpr
      (List.forall₂_map_right_iff.mpr (each.imp fun _ _ same => same.1.symm))
  obtain ⟨levels, spot, later, below, reaches, through, grown⟩ :=
    grows ((balanced_iff_of_kinds kinds).mpr balanced)
  exact grown.parseExpression read (each.length_eq ▸ few) covers.ne_nil again ended each below reaches
    through

end

/-- The text under the span of an expression, anywhere in a parsed tree, is read as the same
expression but for the spans and for where the numbering of its parameter markers begins, with any
limit above the number of its tokens, if and only if its parentheses are balanced.  Parentheses
around the first or the last operand are not part of any span, so that only one of them may be. -/
theorem expressions_read_alone (source : String) (settings : Settings) {root : Part}
    (parsed : ParsedFrom source settings root) {expr : Expr}
    (within : Part.Within (.expr expr) root) :
    ∃ text tokens stop, expr.span.slice? source.toList = some text.toList ∧
      tokenize text settings = .ok (tokens ++ [stop]) ∧ ∀ limit, tokens.length < limit →
        (Balanced tokens → ∃ copy, parseExpression text (settings.withLimit limit) = .ok copy ∧
          expr.CopiedBy copy) ∧
        (∀ copy, parseExpression text (settings.withLimit limit) = .ok copy → Balanced tokens) := by
  obtain ⟨text, tokens, stop, slice, again, _⟩ := parsed.exists_text within
  refine ⟨text, tokens, stop, slice, again, fun limit few => ?_⟩
  have ahead := (ahead_of_tokenize ((tokenize_withLimit text settings limit).trans again)).1
  constructor
  · intro balanced
    -- with so many levels the source has the same tree, and the text is read as with the limit
    obtain ⟨more, larger, enough, many⟩ : ∃ more, settings.maxDepth ≤ more ∧ limit ≤ more ∧
        tokens.length + 1 < more := ⟨settings.maxDepth + limit + 1, by omega, by omega, by omega⟩
    obtain ⟨text', tokens', stop', slice', again', alone⟩ :=
      (parsed.withLimit larger).exists_text within
    obtain rfl : text = text' := String.toList_injective (Option.some.inj (slice.symm.trans slice'))
    rw [tokenize_withLimit, again] at again'
    obtain ⟨rfl, _⟩ := List.append_inj' (Except.ok.inj again') rfl
    rw [← parseExpression_of_few (ahead ▸ few) enough]
    exact alone many balanced
  · intro copy accepted
    rw [← ahead]
    exact balanced_of_parseExpression accepted

/-- The left operand of an operator. -/
def Expr.left? : Expr → Option Expr
  | .binary left _ _ _ => some left
  | _ => none

theorem Expr.within_of_left? {expr left : Expr} (found : expr.left? = some left) :
    Part.Within (.expr left) (.expr expr) := by
  unfold left? at found
  split at found
  · cases found
    exact .single List.mem_cons_self
  · cases found

/-- The span of a product leaves out the parenthesis in front of it and not the one inside.  Its text
is no expression, and that of the sum in the parentheses is one. -/
theorem product_not_read_alone :
    ∃ expr left, parseExpression "(a + b) * c" {} = .ok expr ∧ expr.left? = some left ∧
      expr.span.slice? "(a + b) * c".toList = some "a + b) * c".toList ∧
      (∀ limit, 6 < limit → ∀ copy,
        parseExpression "a + b) * c" (({} : Settings).withLimit limit) ≠ .ok copy) ∧
      left.span.slice? "(a + b) * c".toList = some "a + b".toList ∧
      ∀ limit, 3 < limit → ∃ copy,
        parseExpression "a + b" (({} : Settings).withLimit limit) = .ok copy ∧
          left.CopiedBy copy := by
  obtain ⟨expr, accepted, left, found, slice, operand⟩ :=
    @exists_expr "(a + b) * c" {}
      (fun expr => ∃ left ∈ expr.left?,
        expr.span.slice? "(a + b) * c".toList = some "a + b) * c".toList ∧
        left.span.slice? "(a + b) * c".toList = some "a + b".toList) _ _ rfl (by decide +kernel)
  have parsed : ParsedFrom "(a + b) * c" {} (.expr expr) := .expr accepted
  refine ⟨expr, left, accepted, found, slice, ?_, operand, ?_⟩
  · obtain ⟨text, tokens, stop, same, read, alone⟩ := expressions_read_alone _ _ parsed .refl
    obtain rfl := String.toList_injective (Option.some.inj (same.symm.trans slice))
    obtain ⟨all, tokenized, open_, six⟩ := @exists_tokens "a + b) * c" {}
      (fun tokens => ¬ Balanced tokens.dropLast ∧ tokens.dropLast.length = 6) _ _ rfl (by decide +kernel)
    obtain rfl := Except.ok.inj (read.symm.trans tokenized)
    rw [List.dropLast_concat] at open_ six
    exact fun limit few copy accepted => open_ ((alone limit (six ▸ few)).2 copy accepted)
  · obtain ⟨text, tokens, stop, same, read, alone⟩ :=
      expressions_read_alone _ _ parsed (Expr.within_of_left? found)
    obtain rfl := String.toList_injective (Option.some.inj (same.symm.trans operand))
    obtain ⟨all, tokenized, closed, three⟩ := @exists_tokens "a + b" {}
      (fun tokens => Balanced tokens.dropLast ∧ tokens.dropLast.length = 3) _ _ rfl (by decide +kernel)
    obtain rfl := Except.ok.inj (read.symm.trans tokenized)
    rw [List.dropLast_concat] at closed three
    exact fun limit few => (alone limit (three ▸ few)).1 closed

end SqlDml
