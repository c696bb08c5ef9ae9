import SqlDml.Proofs.Extents.Alone
import SqlDml.Proofs.Markers.Order
import SqlDml.Proofs.Replay.OpenEnds

/-!
Contract: inserts of the rows of a query, with assignments where keys are doubled.

Owns:
- the form of a statement by the rule that reads it;
- inserts in front of a query, and updates of a table, word by word;
- when such an insert is read: unless the last join of its query might still have a condition.

Does not own: what a query reads in front of `ON DUPLICATE KEY`.
-/

namespace SqlDml

open Rule

/-- A query may begin with the next token.  Behind a parenthesis another query begins. -/
structure Spot.StartsQuery (spot : Spot) : Prop where
  first : spot.kind.startsQuery = true
  second : spot.kind = .punct .leftParen → (spot.token 1).kind.startsQuery = true

theorem Spot.StartsQuery.cases {spot : Spot} (starts : spot.StartsQuery) :
    spot.kind = .keyword .SELECT ∨ spot.kind = .keyword .WITH ∨ spot.kind = .punct .leftParen := by
  have first := starts.first
  unfold TokenKind.startsQuery at first
  split at first
  · next word => exact .inl word
  · next word => exact .inr (.inl word)
  · next opened => exact .inr (.inr opened)
  · cases first

namespace Rule

variable {inner : InnerRules} [inner.Lawful] {spot : Spot}

/-! ### Statements that begin with known words -/

/-- Where a query is read, one may begin. -/
theorem query_starts (levels : Nat) (spot : Spot) :
    (innerAt levels).query.Ensures spot fun _ _ => spot.StartsQuery := by
  induction levels generalizing spot with
  | zero =>
      rw [query_zero]
      exact .tooDeep
  | succ levels inductionHypothesis =>
      have term : (queryTerm (innerAt levels)).Ensures spot fun _ _ => spot.StartsQuery := by
        unfold queryTerm
        refine .step (on_peek spot) ?_
        split
        · next opened =>
            refine .step (on_advance spot) ((inductionHypothesis spot.next).bind fun _ _ starts => ?_)
            have second := starts.first
            rw [Spot.kind, Spot.next_token] at second
            exact .of_on fun _ _ _ => ⟨by rw [opened]; rfl, fun _ => second⟩
        · next word => exact .of_on fun _ _ _ => ⟨by rw [word]; rfl, by simp [word]⟩
        · exact .fail
      have body : (queryBody (innerAt levels)).Ensures spot fun _ _ => spot.StartsQuery := by
        rw [queryBody_eq]
        refine .step (on_currentSpan spot) (term.bind fun _ _ starts => ?_)
        exact .of_on fun _ _ _ => starts
      have front : (withClause (innerAt levels)).Ensures spot fun _ later =>
          spot.StartsQuery ∨ later = spot := by
        unfold withClause
        refine .nextIs (fun word => ?_) fun _ => .pure (.inr rfl)
        exact .of_on fun _ _ _ => .inl ⟨by rw [word]; rfl, by simp [word]⟩
      rw [query_succ]
      refine .enter ?_
      unfold wholeQuery
      refine .step (on_currentSpan spot) (front.bind fun _ later cases => ?_)
      rcases cases with starts | rfl
      · exact .of_on fun _ _ _ => starts
      · exact body.bind fun _ _ starts => .of_on fun _ _ _ => starts

/-- The rule that reads a statement, by the form of its tree. -/
def Statement.ReadBy (inner : InnerRules) (spot later : Spot) : Statement → Prop
  | .select rows => inner.query.on spot = .done rows later
  | .insert tree => (insert inner).on spot = .done tree later
  | .update tree => (update inner).on spot = .done tree later
  | .delete tree => (delete inner).on spot = .done tree later

theorem statement_readBy (spot : Spot) :
    (statement inner).Ensures spot fun tree later => Statement.ReadBy inner spot later tree := by
  have form : ∀ {α : Type} (rule : Rule α) [rule.Lawful] (build : α → Statement),
      (∀ value later, rule.on spot = .done value later →
        Statement.ReadBy inner spot later (build value)) →
      (rule >>= fun value => Pure.pure (build value)).Ensures spot fun tree later =>
        Statement.ReadBy inner spot later tree := by
    intro α rule lawful build known
    have read : rule.Ensures spot fun value later => Statement.ReadBy inner spot later (build value) :=
      .of_on known
    exact read.bind fun value later found => .pure found
  unfold statement
  refine .step (on_peek spot) ?_
  split
  · exact form (insert inner) .insert fun _ _ read => read
  · exact form (insert inner) .insert fun _ _ read => read
  · exact form (update inner) .update fun _ _ read => read
  · exact form (delete inner) .delete fun _ _ read => read
  · exact .ite (fun _ => form inner.query .select fun _ _ read => read) fun _ => .fail

theorem on_statement_insert (first : spot.kind = .keyword .INSERT) :
    (statement inner).on spot =
      ((insert inner).on spot).bind fun tree later => .done (.insert tree) later := by
  have read : (do return Statement.insert (← insert inner) : Rule Statement).on spot =
      ((insert inner).on spot).bind fun tree later => .done (.insert tree) later := by
    simp only [on_bind, on_pure]
  rw [statement, on_bind_of]
  · rw [on_peek, Outcome.bind_done, ← read, first]
  · intro kind
    split <;> infer_instance

/-- A word that is not followed by a dot is the name of a table. -/
theorem on_tableName_word {table : String} (word : spot.kind = .word table)
    (apart : spot.next.kind ≠ .punct .dot) :
    tableName.on spot = .done ⟨none, ⟨table, none, (spot.token 0).span⟩, (spot.token 0).span⟩
      spot.next := by
  have named : identifier.on spot = .done ⟨table, none, (spot.token 0).span⟩ spot.next := by
    rw [Spot.kind] at word
    rw [identifier, on_name, identOfToken?, word]
  have undotted : spot.next.dotted = false := by simp [Spot.dotted, apart]
  rw [tableName, on_bind, named, Outcome.bind_done, on_bind, on_dotNameFollows, undotted]
  simp

/-- A clause whose word does not come next. -/
theorem on_partitions_none (other : spot.kind ≠ .keyword .PARTITION) :
    partitions.on spot = .done [] spot := by
  simp [partitions, on_bind, on_ite, other]

/-- In front of a query there are no columns. -/
theorem on_insertColumns_query (starts : spot.StartsQuery) : insertColumns.on spot = .done [] spot := by
  by_cases opened : spot.kind = .punct .leftParen
  · simp [insertColumns, on_bind, on_ite, opened, starts.second opened]
  · simp [insertColumns, on_bind, on_ite, opened]

theorem on_insertRows_query (starts : spot.StartsQuery) :
    (insertRows inner).on spot =
      (inner.query.on spot).bind fun rows later => .done (.select rows) later := by
  have read : (do return InsertSource.select (← inner.query) : Rule InsertSource).on spot =
      (inner.query.on spot).bind fun rows later => .done (.select rows) later := by
    simp only [on_bind, on_pure]
  rw [insertRows, on_bind_of]
  · rw [on_peek, Outcome.bind_done, ← read]
    rcases starts.cases with word | word | opened
    · rw [word]
      rfl
    · rw [word]
      rfl
    · rw [opened]
      rfl
  · intro kind
    split <;> infer_instance

theorem on_insertSource_query (starts : spot.StartsQuery) :
    (insertSource inner).on spot =
      (inner.query.on spot).bind fun rows later => .done ([], .select rows) later := by
  have notSet : spot.kind ≠ .keyword .SET := by
    rcases starts.cases with word | word | opened <;> simp [*]
  rw [insertSource, on_bind, on_eatWord, if_neg notSet, Outcome.bind_done, on_ite,
    if_neg Bool.false_ne_true, on_bind, on_insertColumns_query starts, Outcome.bind_done, on_bind,
    on_insertRows_query starts]
  cases inner.query.on spot with
  | done rows later => simp only [Outcome.bind_done, on_pure]
  | stuck => rfl
  | deep => rfl

/-- An insert into a table, in front of a query. -/
theorem on_insert_query {table : String} (first : spot.kind = .keyword .INSERT)
    (second : spot.next.kind = .keyword .INTO) (third : spot.next.next.kind = .word table)
    (starts : spot.next.next.next.StartsQuery) :
    ∃ name : TableName, relabel .erasing name = ⟨none, ⟨table, none, .zero⟩, .zero⟩ ∧
      (insert inner).on spot = (inner.query.on spot.next.next.next).bind fun rows behind =>
        ((onDuplicate inner .insert).on behind).bind fun assigned later =>
          .done ⟨.insert, none, false, name, [], [], .select rows, assigned,
            (spot.token 0).span.merge later.last⟩ later := by
  have others : spot.next.next.next.kind ≠ .punct .dot ∧
      spot.next.next.next.kind ≠ .keyword .PARTITION := by
    rcases starts.cases with word | word | opened <;> simp [*]
  have kind : insertKind.on spot = .done .insert spot.next := by
    simp [insertKind, on_bind, on_ite, first]
  have priority : (insertPriority .insert).on spot.next = .done none spot.next := by
    have peeked : peek.on spot.next = .done (.keyword .INTO) spot.next := second ▸ on_peek spot.next
    rw [insertPriority, on_bind_of, peeked, Outcome.bind_done]
    · exact on_pure _ _
    · intro kind
      split <;> infer_instance
  have ignore : (eatInsertWord .insert .IGNORE).on spot.next = .done false spot.next := by
    simp [eatInsertWord, second]
  have into : (eatWord .INTO).on spot.next = .done true spot.next.next := by simp [second]
  refine ⟨⟨none, ⟨table, none, (spot.next.next.token 0).span⟩, (spot.next.next.token 0).span⟩, rfl, ?_⟩
  rw [insert, on_bind, on_currentSpan, Outcome.bind_done, on_bind, kind, Outcome.bind_done, on_bind,
    priority, Outcome.bind_done, on_bind, ignore, Outcome.bind_done, on_bind, into,
    Outcome.bind_done, on_bind, on_tableName_word third others.1, Outcome.bind_done, on_bind,
    on_partitions_none others.2, Outcome.bind_done, on_bind, on_insertSource_query starts]
  cases inner.query.on spot.next.next.next with
  | done rows behind =>
      simp only [Outcome.bind_done, on_bind, on_previousSpan, on_pure]
  | stuck => rfl
  | deep => rfl

/-! ### Updates of a table -/

/-- A table that nothing but `SET` follows. -/
theorem on_tableRefs_word {table : String} (word : spot.kind = .word table)
    (set : spot.next.kind = .keyword .SET) :
    ∃ refs, (tableRefs inner).on spot = .done refs spot.next := by
  have stops : ∀ {σ : Type} (step : σ → Rule (Option σ)) [∀ value, (step value).Lawful]
      [∀ value, (step value).Shortens] (first : σ),
      (step first).on spot.next = .done none spot.next →
        (whileSome step first).on spot.next = .done first spot.next :=
    fun step _ _ first nothing => on_whileSome_eq_done.mpr (.stop nothing)
  have name := on_tableName_word word (by simp [set])
  have partitions : partitions.on spot.next = .done [] spot.next := on_partitions_none (by simp [set])
  have plain : aliasName.on spot.next = .done none spot.next := by
    simp [aliasName, on_bind, on_ite, set, TokenKind.isName, Keyword.isNonreserved]
  have hints : indexHints.on spot.next = .done [] spot.next := by
    have nothing : (nextHint []).on spot.next = .done none spot.next := by
      rw [on_nextHint, set]
      rfl
    rw [indexHints_eq, on_bind, stops nextHint [] nothing]
    exact on_pure _ _
  obtain ⟨ref, factor⟩ : ∃ ref, (tableFactor inner).on spot = .done ref spot.next := by
    refine ⟨.named ⟨⟨none, ⟨table, none, (spot.token 0).span⟩, (spot.token 0).span⟩, [], none, [],
      (spot.token 0).span.merge spot.next.last⟩, ?_⟩
    rw [tableFactor, on_bind, on_nextIsMark, word, Outcome.bind_done, on_ite, if_neg (by simp),
      on_bind, namedTable, on_bind, name, Outcome.bind_done, on_bind, partitions,
      Outcome.bind_done, on_bind, plain, Outcome.bind_done, on_bind, hints]
    simp only [Outcome.bind_done, on_bind, on_previousSpan, on_pure]
  have joins : (extendJoin inner ref).on spot.next = .done none spot.next := by
    rw [on_extendJoin, on_joinType, set]
    rfl
  have single : (tableRef inner).on spot = .done ref spot.next := by
    rw [tableRef, on_bind, factor, Outcome.bind_done, stops _ _ joins]
  have last : (nextItem (tableRef inner) [ref]).on spot.next = .done none spot.next := by
    rw [on_nextItem, if_neg (by simp [set])]
  refine ⟨[ref], ?_⟩
  rw [tableRefs, commaSeparated_eq, on_bind, single, Outcome.bind_done, on_bind, stops _ _ last]
  exact on_pure _ _

/-- The assignments of an update without further clauses are all of it. -/
theorem assignments_of_update {table : String} (first : spot.kind = .keyword .UPDATE)
    (second : spot.next.kind = .word table) (third : spot.next.next.kind = .keyword .SET)
    {tree : Update} {later : Spot} (outcome : (update inner).on spot = .done tree later)
    (filter : tree.filter = none) (orderBy : tree.orderBy = []) (limit : tree.limit = none) :
    (assignments inner).on spot.next.next.next = .done tree.assignments later := by
  have options : updateOptions.on spot.next = .done (false, false) spot.next := by
    have nothing : (nextUpdateOption (false, false)).on spot.next = .done none spot.next := by
      simp [on_nextUpdateOption, second]
    rw [updateOptions_eq]
    exact on_whileSome_eq_done.mpr (.stop nothing)
  obtain ⟨refs, tables⟩ := @on_tableRefs_word inner _ spot.next _ second third
  rw [update, on_bind, on_expectWord, if_pos first, Outcome.bind_done, on_bind, options,
    Outcome.bind_done, on_bind, tables, Outcome.bind_done, on_bind, on_expectWord, if_pos third,
    Outcome.bind_done, on_bind] at outcome
  obtain ⟨assigned, middle, read, rest⟩ := Outcome.bind_eq_done.mp outcome
  rw [on_bind] at rest
  obtain ⟨found, second, filtered, rest⟩ := Outcome.bind_eq_done.mp rest
  rw [on_bind] at rest
  obtain ⟨terms, third, ordered, rest⟩ := Outcome.bind_eq_done.mp rest
  rw [on_bind] at rest
  obtain ⟨bound, fourth, limited, rest⟩ := Outcome.bind_eq_done.mp rest
  rw [on_bind, on_previousSpan, Outcome.bind_done, on_pure] at rest
  cases rest
  obtain rfl := (whereClause_clause.stays middle).on filtered filter
  obtain rfl := (orderByClause_clause.stays _).on ordered orderBy
  obtain rfl := ((limitClause_clause false).stays _).on limited limit
  exact read

end Rule

/-- The assignments behind `ON DUPLICATE KEY UPDATE`. -/
theorem Rule.on_onDuplicate {inner : InnerRules} [inner.Lawful] {spot : Spot}
    (first : spot.kind = .keyword .ON) (second : spot.next.kind = .keyword .DUPLICATE)
    (third : spot.next.next.kind = .keyword .KEY)
    (fourth : spot.next.next.next.kind = .keyword .UPDATE) :
    (onDuplicate inner .insert).on spot = (assignments inner).on spot.next.next.next.next := by
  rw [onDuplicate, eatInsertWord, if_pos rfl, on_bind, on_eatWord, if_pos first, Outcome.bind_done,
    on_ite, if_pos rfl, on_bind, on_expectWord, if_pos second, Outcome.bind_done, on_bind,
    on_expectWord, if_pos third, Outcome.bind_done, on_bind, on_expectWord, if_pos fourth,
    Outcome.bind_done]

/-- Assignments up to the end of a statement. -/
def Rule.lastAssignments (inner : InnerRules) : Rule (List Assignment) := do
  let assigned ← assignments inner
  let _ ← eatMark .semicolon
  return assigned

instance (inner : InnerRules) [inner.Lawful] : (lastAssignments inner).Lawful := by
  unfold lastAssignments
  infer_instance

/-! ### Inserts of the rows of a query -/

/-- Numbering from zero changes nothing. -/
theorem Relabelling.erasing_after_countingFrom :
    Relabelling.erasing.after (.countingFrom 0) = .erasing := by
  simp [Relabelling.after, Relabelling.countingFrom, Relabelling.erasing]
  rfl

/-- The tokens of a query do not end with a dot. -/
theorem Rule.endsClean_of_query {query : String} {settings : Settings} {rows : Query}
    {later : Spot}
    (read : (innerAt settings.maxDepth).query.on (Spot.ofSource query settings) = .done rows later)
    (all : later.ahead = []) : EndsClean (Spot.ofSource query settings).ahead := by
  have makes := (@innerAt_makes (Spot.ofSource query settings) _ (Nat.le_refl _)).query
  have placed := ((makes _ (reaches_ofSource query settings)).on read).placed
  obtain ⟨tokens, through, _, clean, _⟩ := placed.covers (placed.ahead_ne (List.cons_ne_nil _ _))
  rw [through.split, all, List.append_nil]
  exact clean

/-- The query that is all of a statement. -/
def Statement.rows? : Statement → Option Query
  | .select rows => some rows
  | _ => none

theorem Statement.rows?_eq_some {statement : Statement} {rows : Query} :
    statement.rows? = some rows ↔ statement = .select rows := by
  cases statement <;> simp [rows?]

/-- The assignments of an update that has no clause behind them. -/
def Statement.assignments? : Statement → Option (List Assignment)
  | .update tree =>
      if tree.filter.isNone && tree.orderBy.isEmpty && tree.limit.isNone then some tree.assignments
      else none
  | _ => none

theorem Statement.exists_of_assignments? {statement : Statement} {assigned : List Assignment}
    (found : statement.assignments? = some assigned) :
    ∃ tree, statement = .update tree ∧ tree.filter = none ∧ tree.orderBy = [] ∧ tree.limit = none ∧
      tree.assignments = assigned := by
  cases statement with
  | update tree =>
      simp only [assignments?, Option.ite_none_right_eq_some, Bool.and_eq_true, Option.isNone_iff_eq_none,
        List.isEmpty_iff, Option.some.injEq] at found
      obtain ⟨⟨⟨filter, orderBy⟩, limit⟩, same⟩ := found
      exact ⟨tree, rfl, filter, orderBy, limit, same⟩
  | select rows => cases found
  | insert tree => cases found
  | delete tree => cases found

/-- A source that inserts the rows of a query, with the assignments of an update where keys are
doubled: its tokens are those of the query behind `INSERT INTO table`, and those of the assignments
behind `ON DUPLICATE KEY UPDATE`. -/
structure Upsert (query update source : String) (settings : Settings) where
  table : String
  updated : String
  asked : List Token
  setting : List Token
  assigned : List Token
  opening : List Token
  rows : List Token
  joining : List Token
  values : List Token
  queryStop : Token
  updateStop : Token
  stop : Token
  query_tokens : tokenize query settings = .ok (asked ++ [queryStop])
  update_tokens : tokenize update settings = .ok (setting ++ assigned ++ [updateStop])
  source_tokens : tokenize source settings = .ok (opening ++ (rows ++ (joining ++ values)) ++ [stop])
  setting_kinds : setting.map Token.kind = [.keyword .UPDATE, .word updated, .keyword .SET]
  opening_kinds : opening.map Token.kind = [.keyword .INSERT, .keyword .INTO, .word table]
  joining_kinds : joining.map Token.kind =
    [.keyword .ON, .keyword .DUPLICATE, .keyword .KEY, .keyword .UPDATE]
  same_rows : List.Forall₂ (SameText source.toList query.toList) rows asked
  same_values : List.Forall₂ (SameText source.toList update.toList) values assigned
  unended : ∀ last ∈ asked.getLast?, last.kind ≠ .punct .semicolon

/-- The insert of the rows of a query into a table, with assignments where keys are doubled. -/
def Insert.ofRows (table : String) (rows : Query) (assigned : List Assignment) : Insert :=
  ⟨.insert, none, false, ⟨none, ⟨table, none, .zero⟩, .zero⟩, [], [], .select rows, assigned, .zero⟩

namespace Upsert

open Comparison Rule

variable {query update source : String} {settings : Settings}
  (upsert : Upsert query update source settings)

/-- The spot in front of the query. -/
def spot (_ : Upsert query update source settings) : Spot :=
  (Spot.ofSource source settings).next.next.next

theorem ahead_source : (Spot.ofSource source settings).ahead =
    upsert.opening ++ (upsert.rows ++ (upsert.joining ++ upsert.values)) :=
  (ahead_of_tokenize upsert.source_tokens).1

theorem opening_split : ∃ insert into name : Token, upsert.opening = [insert, into, name] ∧
    insert.kind = .keyword .INSERT ∧ into.kind = .keyword .INTO ∧ name.kind = .word upsert.table := by
  have kinds := upsert.opening_kinds
  simp only [List.map_eq_cons_iff, List.map_eq_nil_iff] at kinds
  obtain ⟨insert, _, split, first, into, _, rfl, second, name, _, rfl, third, rfl⟩ := kinds
  exact ⟨insert, into, name, split, first, second, third⟩

theorem joining_split : ∃ on duplicate key update : Token,
    upsert.joining = [on, duplicate, key, update] ∧ on.kind = .keyword .ON ∧
      duplicate.kind = .keyword .DUPLICATE ∧ key.kind = .keyword .KEY ∧
      update.kind = .keyword .UPDATE := by
  have kinds := upsert.joining_kinds
  simp only [List.map_eq_cons_iff, List.map_eq_nil_iff] at kinds
  obtain ⟨on, _, split, first, duplicate, _, rfl, second, key, _, rfl, third, update, _, rfl, fourth,
    rfl⟩ := kinds
  exact ⟨on, duplicate, key, update, split, first, second, third, fourth⟩

theorem ahead_spot : upsert.spot.ahead = upsert.rows ++ (upsert.joining ++ upsert.values) := by
  obtain ⟨insert, into, name, split, _⟩ := upsert.opening_split
  simp [spot, upsert.ahead_source, split]

/-- The spot in front of the query, where nothing else follows. -/
def cut : Spot :=
  { upsert.spot with
    ahead := upsert.rows
    inner := fun token member =>
      upsert.spot.inner token (upsert.ahead_spot ▸ List.mem_append_left _ member) }

/-- What follows at the spots in front of the query. -/
def tails : Tails := ⟨[], upsert.joining ++ upsert.values, upsert.rows.getLast?⟩

theorem beside_cut :
    upsert.tails.Beside (Spot.ofSource source settings) upsert.cut upsert.spot := by
  have order : InOrder upsert.spot.ahead := by
    have whole := inOrder_ofSource source settings
    rw [upsert.ahead_source] at whole
    exact upsert.ahead_spot ▸ whole.of_back
  have front : InOrder upsert.cut.ahead := (upsert.ahead_spot ▸ order).of_front
  refine ⟨⟨rfl, rfl, front⟩, ⟨rfl, rfl, order⟩, rfl, rfl,
    ⟨upsert.rows, (List.append_nil _).symm, upsert.ahead_spot⟩, fun {front} split token found => ?_⟩
  have same : upsert.rows = front ++ [] := split
  rw [List.append_nil] at same
  rwa [← same] at found

theorem updates_tails (clean : EndsClean upsert.asked) : upsert.tails.Updates where
  rest := rfl
  other := by
    obtain ⟨on, duplicate, key, update, split, joined, word, last, _⟩ := upsert.joining_split
    exact ⟨on, duplicate, key, update :: upsert.values, by rw [tails, split]; rfl, joined, word, last⟩
  before := by
    intro dot last
    have kinds : upsert.rows.map Token.kind = upsert.asked.map Token.kind := by
      rw [← List.forall₂_eq_eq_eq]
      exact List.forall₂_map_left_iff.mpr (List.forall₂_map_right_iff.mpr
        (upsert.same_rows.imp fun _ _ same => same.1.symm))
    have ends : upsert.asked.getLast?.map Token.kind = some dot.kind := by
      rw [← List.getLast?_map, ← kinds, List.getLast?_map,
        show upsert.rows.getLast? = some dot from last]
      rfl
    obtain ⟨final, found, same⟩ := Option.map_eq_some_iff.mp ends
    exact same ▸ (clean final found).2

theorem sameTexts_rows : SameTexts upsert.cut.source (Spot.ofSource query settings).source
    (upsert.cut.ahead ++ [upsert.cut.stop])
    ((Spot.ofSource query settings).ahead ++ [(Spot.ofSource query settings).stop]) := by
  have stop : upsert.cut.stop = upsert.stop := stop_of_tokenize upsert.source_tokens
  rw [stop, (ahead_of_tokenize upsert.query_tokens).1, stop_of_tokenize upsert.query_tokens]
  refine sameTexts_concat upsert.same_rows (ahead_of_tokenize upsert.source_tokens).2
    (ahead_of_tokenize upsert.query_tokens).2
    ((writtenIn_of_tokenize upsert.source_tokens).sublist ?_)
    (writtenIn_of_tokenize upsert.query_tokens)
  refine List.Sublist.append_right ?_ _
  exact (List.sublist_append_left _ _).trans (List.sublist_append_right _ _)

/-- With a level for each token of the insert, its query is not too deep. -/
theorem query_on_ne_deep (few : (Spot.ofSource source settings).ahead.length < settings.maxDepth) :
    (innerAt settings.maxDepth).query.on upsert.spot ≠ .deep := by
  have inside : upsert.spot.ahead.length + 3 = (Spot.ofSource source settings).ahead.length := by
    obtain ⟨insert, into, name, split, _⟩ := upsert.opening_split
    rw [upsert.ahead_spot, upsert.ahead_source, split]
    rfl
  exact SqlDml.query_on_ne_deep rfl (by omega)

/-- The query, in front of `ON DUPLICATE KEY`. -/
theorem on_query (few : (Spot.ofSource source settings).ahead.length < settings.maxDepth)
    {rows : Query} {later : Spot}
    (read : (innerAt settings.maxDepth).query.on (Spot.ofSource query settings) = .done rows later)
    (all : later.ahead = []) :
    ∃ copy after, (innerAt settings.maxDepth).query.on upsert.spot = .done copy after ∧
      (rows.isOpen = false ∧ relabel .erasing copy = relabel .erasing rows ∧
        after.ahead = upsert.joining ++ upsert.values ∧ after.markers = later.markers ∨
      rows.isOpen = true ∧ after.kind = .keyword .KEY) := by
  have clean := Rule.endsClean_of_query read all
  rw [(ahead_of_tokenize upsert.query_tokens).1] at clean
  have updates := upsert.updates_tails clean
  have paired := innerAt_paired (.ofSameTexts upsert.sameTexts_rows 0) settings.maxDepth
  have near := @near_states upsert.cut (Spot.ofSource query settings) 0 upsert.sameTexts_rows rfl rfl
  obtain ⟨value, behind, told, alike, length, numbered⟩ :=
    (on_of_paired paired.query near).2 rows later read
  have ended : behind.ahead = [] := by
    rw [all] at length
    exact List.eq_nil_of_length_eq_zero length.symm
  have erased : relabel .erasing value = relabel .erasing rows := by
    have same : relabel .erasing value =
        relabel (Relabelling.erasing.after (.countingFrom 0)) rows := alike.same
    rwa [Relabelling.erasing_after_countingFrom] at same
  have same : value.isOpen = rows.isOpen := by
    rw [← value.isOpen_relabel .erasing, erased, rows.isOpen_relabel]
  rcases query_composes (Nat.le_refl _) upsert.beside_cut value behind told with
    deep | ⟨closed, after, done, beside⟩ | ⟨⟨_, opened⟩, copy, after, done, key⟩
  · exact absurd deep (upsert.query_on_ne_deep few)
  · refine ⟨value, after, done, .inl ⟨?_, erased, ?_, ?_⟩⟩
    · have closed := fun opened => closed ⟨ended, opened⟩
      rw [same] at closed
      simpa using closed
    · obtain ⟨front, split, split'⟩ := beside.ahead
      obtain rfl : front = [] := (List.append_eq_nil_iff.mp (split.symm.trans ended)).1
      exact split'
    · rw [beside.markers, numbered]
      exact Nat.zero_add _
  · exact ⟨copy, after, done, .inr ⟨same ▸ opened, key⟩⟩

/-- The spot in front of the assignments of the update. -/
def updateSpot (_ : Upsert query update source settings) : Spot :=
  (Spot.ofSource update settings).next.next.next

theorem setting_split : ∃ update table set : Token, upsert.setting = [update, table, set] ∧
    update.kind = .keyword .UPDATE ∧ table.kind = .word upsert.updated ∧
      set.kind = .keyword .SET := by
  have kinds := upsert.setting_kinds
  simp only [List.map_eq_cons_iff, List.map_eq_nil_iff] at kinds
  obtain ⟨update, _, split, first, table, _, rfl, second, set, _, rfl, third, rfl⟩ := kinds
  exact ⟨update, table, set, split, first, second, third⟩

theorem ahead_updateSpot : upsert.updateSpot.ahead = upsert.assigned := by
  obtain ⟨update, table, set, split, _⟩ := upsert.setting_split
  simp [updateSpot, (ahead_of_tokenize upsert.update_tokens).1, split]

/-- The assignments, where nothing else is left of the insert. -/
theorem on_values {place : Spot} (leads : (Spot.ofSource source settings).Leads place)
    (ahead : place.ahead = upsert.values) {assigned : List Assignment} {later : Spot}
    (read : (lastAssignments (innerAt settings.maxDepth)).on upsert.updateSpot = .done assigned later)
    (all : later.ahead = []) :
    ∃ copy after, (lastAssignments (innerAt settings.maxDepth)).on place = .done copy after ∧
      after.ahead = [] ∧
        relabel .erasing copy = relabel .erasing (relabel (.countingFrom place.markers) assigned) := by
  have stop : place.stop = upsert.stop := leads.stop.trans (stop_of_tokenize upsert.source_tokens)
  have same : SameTexts place.source upsert.updateSpot.source (place.ahead ++ [place.stop])
      (upsert.updateSpot.ahead ++ [upsert.updateSpot.stop]) := by
    rw [leads.source, ahead, stop, upsert.ahead_updateSpot,
      show upsert.updateSpot.stop = upsert.updateStop from stop_of_tokenize upsert.update_tokens]
    refine sameTexts_concat upsert.same_values (ahead_of_tokenize upsert.source_tokens).2
      (ahead_of_tokenize upsert.update_tokens).2
      ((writtenIn_of_tokenize upsert.source_tokens).sublist ?_)
      ((writtenIn_of_tokenize upsert.update_tokens).sublist ?_)
    · refine List.Sublist.append_right ?_ _
      exact (List.sublist_append_right _ _).trans ((List.sublist_append_right _ _).trans
        (List.sublist_append_right _ _))
    · exact List.Sublist.append_right (List.sublist_append_right _ _) _
  have paired := innerAt_paired (.ofSameTexts same place.markers) settings.maxDepth
  have inStep : InStep (Comparison.paired (.ofSameTexts same place.markers)) true
      (lastAssignments (innerAt settings.maxDepth)) (lastAssignments (innerAt settings.maxDepth)) := by
    unfold lastAssignments
    infer_instance
  have near := @near_states place upsert.updateSpot place.markers same leads.settings.symm rfl
  obtain ⟨copy, after, told, alike, length, _⟩ := (on_of_paired inStep near).2 assigned later read
  refine ⟨copy, after, told, ?_, ?_⟩
  · rw [all] at length
    exact List.eq_nil_of_length_eq_zero length.symm
  · rw [(functorial assigned).twice]
    exact alike.same

/-! ### The whole statement -/

/-- The first tokens of the insert. -/
theorem kinds_source : (Spot.ofSource source settings).kind = .keyword .INSERT ∧
    (Spot.ofSource source settings).next.kind = .keyword .INTO ∧
    (Spot.ofSource source settings).next.next.kind = .word upsert.table := by
  obtain ⟨insert, into, name, split, first, second, third⟩ := upsert.opening_split
  have ahead := upsert.ahead_source
  rw [split] at ahead
  refine ⟨?_, ?_, ?_⟩
  · rw [Spot.kind_eq_of_ahead ahead, first]
  · rw [Spot.kind_eq_of_ahead (congrArg List.tail ahead), second]
  · rw [Spot.kind_eq_of_ahead (congrArg (List.tail ∘ List.tail) ahead), third]

theorem leads_spot : (Spot.ofSource source settings).Leads upsert.spot :=
  ((Spot.Leads.next _).trans (.next _)).trans (.next _)

/-- The statement, where the query is read. -/
theorem on_statement {rows : Query} {after : Spot}
    (read : (innerAt settings.maxDepth).query.on upsert.spot = .done rows after) :
    ∃ name : TableName, relabel .erasing name = ⟨none, ⟨upsert.table, none, .zero⟩, .zero⟩ ∧
      (statementTokens settings.maxDepth).on (Spot.ofSource source settings) =
        ((onDuplicate (innerAt settings.maxDepth) .insert).on after).bind fun assigned last =>
          ((eatMark .semicolon).on last).bind fun _ later =>
            .done (.insert ⟨.insert, none, false, name, [], [], .select rows, assigned,
              ((Spot.ofSource source settings).token 0).span.merge last.last⟩) later := by
  obtain ⟨first, second, third⟩ := upsert.kinds_source
  have starts : upsert.spot.StartsQuery := (query_starts _ _).on read
  obtain ⟨name, named, insert⟩ :=
    @on_insert_query (innerAt settings.maxDepth) _ _ _ first second third starts
  refine ⟨name, named, ?_⟩
  rw [statementTokens, on_bind, on_statement_insert first, insert,
    show (Spot.ofSource source settings).next.next.next = upsert.spot from rfl, read,
    Outcome.bind_done]
  cases (onDuplicate (innerAt settings.maxDepth) .insert).on after with
  | done assigned last => simp only [Outcome.bind_done, on_bind, on_pure]
  | stuck => rfl
  | deep => rfl

variable {rows : Query} {later : Spot}
  (asks : (innerAt settings.maxDepth).query.on (Spot.ofSource query settings) = .done rows later)
  (all : later.ahead = [])

/-- The insert of a query whose end is not open. -/
theorem on_closed (few : (Spot.ofSource source settings).ahead.length < settings.maxDepth)
    {rows : Query} {later : Spot}
    (asks : (innerAt settings.maxDepth).query.on (Spot.ofSource query settings) = .done rows later)
    (all : later.ahead = []) (closed : rows.isOpen = false) {assigned : List Assignment} {last : Spot}
    (sets : (lastAssignments (innerAt settings.maxDepth)).on upsert.updateSpot = .done assigned last)
    (ends : last.ahead = []) :
    ∃ tree final, (statementTokens settings.maxDepth).on (Spot.ofSource source settings) =
        .done (.insert tree) final ∧ final.ahead = [] ∧
      relabel .erasing tree = relabel .erasing
        (Insert.ofRows upsert.table rows (relabel (.countingFrom later.markers) assigned)) := by
  obtain ⟨copy, after, read, ⟨_, erased, ahead, markers⟩ | ⟨opened, _⟩⟩ :=
    upsert.on_query few asks all
  · obtain ⟨on, duplicate, key, update, split, first, second, third, fourth⟩ := upsert.joining_split
    rw [split] at ahead
    have place : after.next.next.next.next.ahead = upsert.values := by
      rw [Spot.next_ahead, Spot.next_ahead, Spot.next_ahead, Spot.next_ahead, ahead]
      rfl
    have clause := @on_onDuplicate (innerAt settings.maxDepth) _ after
      (by rw [Spot.kind_eq_of_ahead ahead, first])
      (by rw [Spot.kind_eq_of_ahead (congrArg List.tail ahead), second])
      (by rw [Spot.kind_eq_of_ahead (congrArg (List.tail ∘ List.tail) ahead), third])
      (by rw [Spot.kind_eq_of_ahead (congrArg (List.tail ∘ List.tail ∘ List.tail) ahead), fourth])
    have leads : (Spot.ofSource source settings).Leads after.next.next.next.next :=
      (upsert.leads_spot.trans (leads_of_on read)).trans
        ((((Spot.Leads.next _).trans (.next _)).trans (.next _)).trans (.next _))
    obtain ⟨values, final, told, done, same⟩ := upsert.on_values leads place sets ends
    rw [lastAssignments, on_bind] at told
    obtain ⟨found, middle, valued, rest⟩ := Outcome.bind_eq_done.mp told
    rw [on_bind] at rest
    obtain ⟨eaten, reached, ended, rest⟩ := Outcome.bind_eq_done.mp rest
    rw [on_pure] at rest
    cases rest
    obtain ⟨name, named, statement⟩ := upsert.on_statement read
    rw [clause, valued, Outcome.bind_done, ended, Outcome.bind_done] at statement
    refine ⟨_, _, statement, done, ?_⟩
    have counted : after.next.next.next.next.markers = later.markers := markers
    rw [counted] at same
    have source : relabel .erasing (InsertSource.select copy) =
        relabel .erasing (InsertSource.select rows) := congrArg InsertSource.select erased
    rw [Insert.ofRows, Insert.relabel_mk, Insert.relabel_mk, named, same, source]
    rfl
  · rw [closed] at opened
    cases opened

include upsert in
/-- With an open end the insert is not read to its end. -/
theorem on_open (few : (Spot.ofSource source settings).ahead.length < settings.maxDepth)
    {rows : Query} {later : Spot}
    (asks : (innerAt settings.maxDepth).query.on (Spot.ofSource query settings) = .done rows later)
    (all : later.ahead = []) (opened : rows.isOpen = true) {tree : Statement} {final : Spot}
    (read : (statementTokens settings.maxDepth).on (Spot.ofSource source settings) =
      .done tree final) : final.ahead ≠ [] := by
  obtain ⟨copy, after, done, ⟨closed, _⟩ | ⟨_, key⟩⟩ := upsert.on_query few asks all
  · rw [opened] at closed
    cases closed
  · obtain ⟨name, _, statement⟩ := upsert.on_statement done
    have nothing : (onDuplicate (innerAt settings.maxDepth) .insert).on after = .done [] after := by
      simp [onDuplicate, eatInsertWord, on_bind, on_ite, key]
    rw [nothing, Outcome.bind_done, on_eatMark, if_neg (by simp [key]), Outcome.bind_done,
      read] at statement
    cases statement
    intro ended
    cases (Spot.kind_of_ahead_nil ended).symm.trans key

/-- Another limit changes no tokens. -/
def withLimit (limit : Nat) : Upsert query update source (settings.withLimit limit) :=
  { upsert with
    query_tokens := (tokenize_withLimit query settings limit).trans upsert.query_tokens
    update_tokens := (tokenize_withLimit update settings limit).trans upsert.update_tokens
    source_tokens := (tokenize_withLimit source settings limit).trans upsert.source_tokens }

/-- The number of tokens of the insert. -/
theorem length_source : (Spot.ofSource source settings).ahead.length =
    upsert.rows.length + upsert.values.length + 7 := by
  obtain ⟨insert, into, name, opening, _⟩ := upsert.opening_split
  obtain ⟨on, duplicate, key, update, joining, _⟩ := upsert.joining_split
  rw [upsert.ahead_source, opening, joining]
  simp only [List.length_append, List.length_cons, List.length_nil]
  omega

include upsert in
/-- A query that is a whole statement is read up to the end of it. -/
theorem on_rows {asks : ParsedStatement} {rows : Query}
    (accepted : parseStatement query settings = .ok asks) (selects : asks.statement = .select rows) :
    ∃ later, (innerAt settings.maxDepth).query.on (Spot.ofSource query settings) = .done rows later ∧
      later.ahead = [] ∧ later.markers = rows.markers.numbers.length := by
  obtain ⟨_, ⟨later, outcome, ended⟩, _⟩ := (parseStatement_eq_ok query settings).mp accepted
  rw [statementTokens, on_bind] at outcome
  obtain ⟨tree, middle, read, rest⟩ := Outcome.bind_eq_done.mp outcome
  have asks : (innerAt settings.maxDepth).query.on (Spot.ofSource query settings) =
      .done rows middle := by
    rw [on_bind] at rest
    obtain ⟨_, _, _, rest⟩ := Outcome.bind_eq_done.mp rest
    rw [on_pure] at rest
    cases rest
    have found := (statement_readBy (Spot.ofSource query settings)).on read
    rw [selects] at found
    exact found
  obtain ⟨added, same, numbered⟩ := (innerAt_traces settings.maxDepth).query.numbered _ _ _ asks
  rw [MarkerTrace.none_append] at same
  refine ⟨middle, asks, ?_, ?_⟩
  · -- a semicolon would be the last token of the query
    rw [on_bind, on_eatMark] at rest
    obtain ⟨_, behind, eaten, rest⟩ := Outcome.bind_eq_done.mp rest
    rw [on_pure] at rest
    cases rest
    by_cases mark : middle.kind = .punct .semicolon
    · rw [if_pos mark] at eaten
      cases eaten
      have inner : middle.kind ≠ .endOfInput := by simp [mark]
      have last : middle.ahead = [middle.token 0] := by
        rw [Spot.ahead_of_inner inner, ended]
      have suffix := (leads_of_on asks).ahead
      rw [(ahead_of_tokenize upsert.query_tokens).1, last] at suffix
      obtain ⟨front, split⟩ := suffix
      exact absurd mark (upsert.unended (middle.token 0) (by simp [← split]))
    · rw [if_neg mark] at eaten
      cases eaten
      exact ended
  · rw [same, numbered.count]
    exact Nat.zero_add _

/-- The assignments of an update that is a whole statement. -/
theorem on_assigned {sets : ParsedStatement} {assigned : List Assignment}
    (accepted : parseStatement update settings = .ok sets)
    (updates : sets.statement.assignments? = some assigned) :
    ∃ last, (lastAssignments (innerAt settings.maxDepth)).on upsert.updateSpot =
      .done assigned last ∧ last.ahead = [] := by
  obtain ⟨tree, whole, filter, orderBy, limit, rfl⟩ := Statement.exists_of_assignments? updates
  obtain ⟨_, ⟨later, outcome, ended⟩, _⟩ := (parseStatement_eq_ok update settings).mp accepted
  rw [statementTokens, on_bind] at outcome
  obtain ⟨statement, middle, read, rest⟩ := Outcome.bind_eq_done.mp outcome
  rw [on_bind] at rest
  obtain ⟨eaten, reached, mark, rest⟩ := Outcome.bind_eq_done.mp rest
  rw [on_pure] at rest
  cases rest
  have found := (statement_readBy (Spot.ofSource update settings)).on read
  rw [whole] at found
  obtain ⟨first, table, third, split, word, name, set⟩ := upsert.setting_split
  have ahead := (ahead_of_tokenize upsert.update_tokens).1
  rw [split] at ahead
  have assigned := assignments_of_update
    (by rw [Spot.kind_eq_of_ahead ahead, word])
    (by rw [Spot.kind_eq_of_ahead (congrArg List.tail ahead), name])
    (by rw [Spot.kind_eq_of_ahead (congrArg (List.tail ∘ List.tail) ahead), set])
    found filter orderBy limit
  refine ⟨later, ?_, ended⟩
  rw [lastAssignments, on_bind, updateSpot, assigned, Outcome.bind_done, on_bind, mark,
    Outcome.bind_done, on_pure]

end Upsert

/-- The insert of the rows of a query, with the assignments of an update where keys are doubled, is
read with any limit above the number of its tokens unless the end of the query is open, that is
unless its last join might still have a condition.  There `ON` is read as the beginning of that
condition, and with no limit is the insert read.  Where it is read, the trees are those of the query
and of the update. -/
theorem upsert_read_iff {query update source : String} {settings : Settings}
    (upsert : Upsert query update source settings) {asks sets : ParsedStatement} {rows : Query}
    {assigned : List Assignment} (asked : parseStatement query settings = .ok asks)
    (selects : asks.statement.rows? = some rows) (updated : parseStatement update settings = .ok sets)
    (updates : sets.statement.assignments? = some assigned) :
    (rows.isOpen = false → ∀ limit, settings.maxDepth ≤ limit →
      upsert.rows.length + upsert.values.length + 7 < limit →
        ∃ parsed, parseStatement source (settings.withLimit limit) = .ok parsed ∧
          parsed.statement.eraseSpans = (Statement.insert (.ofRows upsert.table rows
            (relabel (.countingFrom rows.markers.numbers.length) assigned))).eraseSpans) ∧
    (rows.isOpen = true → ∀ limit parsed,
      parseStatement source (settings.withLimit limit) ≠ .ok parsed) := by
  rw [Statement.rows?_eq_some] at selects
  constructor
  · intro closed limit more few
    have asked := (parseStatement_withLimit query settings more (by simp [asked])).trans asked
    have updated := (parseStatement_withLimit update settings more (by simp [updated])).trans updated
    have few := ((upsert.withLimit limit).length_source).trans_lt few
    obtain ⟨later, reads, all, markers⟩ := (upsert.withLimit limit).on_rows asked selects
    obtain ⟨last, assigns, ends⟩ := (upsert.withLimit limit).on_assigned updated updates
    obtain ⟨whole, final, outcome, ended, same⟩ :=
      (upsert.withLimit limit).on_closed few reads all closed assigns ends
    have unfailed : (TokenRun.ofSource source (settings.withLimit limit)).error = none :=
      (tokenize_eq_ok.mp (upsert.withLimit limit).source_tokens).1
    refine ⟨⟨.insert whole, _⟩, (parseStatement_eq_ok _ _).mpr
      ⟨unfailed, ⟨final, outcome, ended⟩, rfl⟩, ?_⟩
    rw [markers] at same
    rw [Statement.eraseSpans_eq, Statement.eraseSpans_eq]
    exact congrArg Statement.insert same
  · intro opened limit parsed accepted
    -- what is read with one limit is read with all larger ones
    obtain ⟨more, larger, wider, many⟩ : ∃ more, settings.maxDepth ≤ more ∧ limit ≤ more ∧
        upsert.rows.length + upsert.values.length + 7 < more :=
      ⟨settings.maxDepth + limit + (upsert.rows.length + upsert.values.length + 8),
        by omega, by omega, by omega⟩
    have asked := (parseStatement_withLimit query settings larger (by simp [asked])).trans asked
    have accepted : parseStatement source (settings.withLimit more) = .ok parsed :=
      (parseStatement_withLimit source (settings.withLimit limit) wider (by simp [accepted])).trans
        accepted
    have few := ((upsert.withLimit more).length_source).trans_lt many
    obtain ⟨later, reads, all, _⟩ := (upsert.withLimit more).on_rows asked selects
    obtain ⟨_, ⟨final, outcome, ended⟩, _⟩ := (parseStatement_eq_ok _ _).mp accepted
    exact (upsert.withLimit more).on_open few reads all opened outcome ended

/-- The tokens of an insert are those of a query and those of the assignments of an update, with the
words around them. -/
def Upsert.Fits (query update source : List Char) (table updated : String)
    (asked sets whole : List Token) : Prop :=
  (sets.take 3).map Token.kind = [.keyword .UPDATE, .word updated, .keyword .SET] ∧
  (whole.take 3).map Token.kind = [.keyword .INSERT, .keyword .INTO, .word table] ∧
  (((whole.drop 3).drop asked.length).take 4).map Token.kind =
    [.keyword .ON, .keyword .DUPLICATE, .keyword .KEY, .keyword .UPDATE] ∧
  List.Forall₂ (SameText source query) ((whole.drop 3).take asked.length) asked ∧
  List.Forall₂ (SameText source update) (((whole.drop 3).drop asked.length).drop 4) (sets.drop 3) ∧
  ∀ last ∈ asked.getLast?, last.kind ≠ .punct .semicolon

instance (query update source : List Char) (table updated : String)
    (asked sets whole : List Token) : Decidable (Upsert.Fits query update source table updated asked sets whole) :=
  inferInstanceAs (Decidable (_ ∧ _))

theorem exists_stop {source : String} {settings : Settings} {tokens : List Token}
    (read : tokenize source settings = .ok tokens) :
    ∃ stop, tokenize source settings = .ok (tokens.dropLast ++ [stop]) := by
  obtain ⟨_, whole⟩ := tokenize_eq_ok.mp read
  rw [ofSource_whole] at whole
  exact ⟨_, by rw [read, ← whole, List.dropLast_concat]⟩

theorem exists_upsert {query update source : String} {settings : Settings} {table updated : String}
    {queryChars updateChars chars : List Char} (ask : query = String.ofList queryChars)
    (set : update = String.ofList updateChars) (insert : source = String.ofList chars)
    (fits : ∃ asked ∈ (tokensOfChars queryChars settings).toOption,
      ∃ sets ∈ (tokensOfChars updateChars settings).toOption,
        ∃ whole ∈ (tokensOfChars chars settings).toOption,
          Upsert.Fits queryChars updateChars chars table updated asked.dropLast sets.dropLast
            whole.dropLast) :
    ∃ upsert : Upsert query update source settings, upsert.table = table := by
  obtain ⟨asked, readQuery, sets, readUpdate, whole, readSource, setting, opening, joining, rows,
    values, unended⟩ := fits
  obtain ⟨queryStop, query_tokens⟩ := exists_stop (tokenize_eq_ok_of_chars ask readQuery)
  obtain ⟨updateStop, update_tokens⟩ := exists_stop (tokenize_eq_ok_of_chars set readUpdate)
  obtain ⟨stop, source_tokens⟩ := exists_stop (tokenize_eq_ok_of_chars insert readSource)
  refine ⟨{
    table := table
    updated := updated
    asked := asked.dropLast
    setting := sets.dropLast.take 3
    assigned := sets.dropLast.drop 3
    opening := whole.dropLast.take 3
    rows := (whole.dropLast.drop 3).take asked.dropLast.length
    joining := ((whole.dropLast.drop 3).drop asked.dropLast.length).take 4
    values := ((whole.dropLast.drop 3).drop asked.dropLast.length).drop 4
    queryStop := queryStop
    updateStop := updateStop
    stop := stop
    query_tokens := query_tokens
    update_tokens := by rw [List.take_append_drop, update_tokens]
    source_tokens := by
      rw [List.take_append_drop, List.take_append_drop, List.take_append_drop, source_tokens]
    setting_kinds := setting
    opening_kinds := opening
    joining_kinds := joining
    same_rows := by rwa [ask, insert, String.toList_ofList, String.toList_ofList]
    same_values := by rwa [set, insert, String.toList_ofList, String.toList_ofList]
    unended := unended }, rfl⟩

/-- A cross join has no condition.  Behind a `WHERE` the insert is read, and with the join at the end
of the query it is not. -/
theorem insert_of_cross_join_not_read :
    (∃ asks rows, parseStatement "SELECT * FROM a CROSS JOIN b" {} = .ok asks ∧
      asks.statement.rows? = some rows ∧ rows.isOpen = true) ∧
    (∃ sets assigned, parseStatement "UPDATE t SET x = 1" {} = .ok sets ∧
      sets.statement.assignments? = some assigned) ∧
    (∀ limit parsed,
      parseStatement "INSERT INTO t SELECT * FROM a CROSS JOIN b ON DUPLICATE KEY UPDATE x = 1"
        (({} : Settings).withLimit limit) ≠ .ok parsed) ∧
    ∃ enough, ∀ limit, enough ≤ limit → ∃ parsed,
      parseStatement
        "INSERT INTO t SELECT * FROM a CROSS JOIN b WHERE c ON DUPLICATE KEY UPDATE x = 1"
        (({} : Settings).withLimit limit) = .ok parsed := by
  obtain ⟨sets, updated, assigned, updates, _⟩ := @exists_parsed "UPDATE t SET x = 1" {}
    (fun sets => ∃ assigned ∈ sets.statement.assignments?, True) _ _ rfl (by decide +kernel)
  obtain ⟨asks, asked, rows, selects, opened⟩ :=
    @exists_parsed "SELECT * FROM a CROSS JOIN b" {}
      (fun asks => ∃ rows ∈ asks.statement.rows?, rows.isOpen = true) _ _ rfl (by decide +kernel)
  obtain ⟨asks', asked', rows', selects', closed⟩ :=
    @exists_parsed "SELECT * FROM a CROSS JOIN b WHERE c" {}
      (fun asks => ∃ rows ∈ asks.statement.rows?, rows.isOpen = false) _ _ rfl (by decide +kernel)
  obtain ⟨open', _⟩ := @exists_upsert "SELECT * FROM a CROSS JOIN b" "UPDATE t SET x = 1"
    "INSERT INTO t SELECT * FROM a CROSS JOIN b ON DUPLICATE KEY UPDATE x = 1" {} "t" "t"
    _ _ _ rfl rfl rfl (by decide +kernel)
  obtain ⟨closed', _⟩ := @exists_upsert "SELECT * FROM a CROSS JOIN b WHERE c" "UPDATE t SET x = 1"
    "INSERT INTO t SELECT * FROM a CROSS JOIN b WHERE c ON DUPLICATE KEY UPDATE x = 1" {} "t" "t"
    _ _ _ rfl rfl rfl (by decide +kernel)
  refine ⟨⟨asks, rows, asked, selects, opened⟩, ⟨sets, assigned, updated, updates⟩,
    (upsert_read_iff open' asked selects updated updates).2 opened,
    ({} : Settings).maxDepth + (closed'.rows.length + closed'.values.length + 8), ?_⟩
  intro limit enough
  obtain ⟨parsed, read, _⟩ := (upsert_read_iff closed' asked' selects' updated updates).1 closed limit
    (by omega) (by omega)
  exact ⟨parsed, read⟩

end SqlDml
