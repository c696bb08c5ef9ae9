import SqlDml.Proofs.Replay.Queries
import SqlDml.Proofs.Shapes.Statements

/-!
Contract: queries in front of `ON DUPLICATE KEY`.

Owns:
- that the labels of a query do not tell whether its end is open;
- rules that read in front of these words what they read at the end of a source, unless that ends
  with such a join: then `ON DUPLICATE` becomes its condition, and `KEY` is left;
- whole queries as such rules.

Does not own: what is read behind these words.
-/

namespace SqlDml

/-! ### Open ends -/

section

variable (labels : Relabelling)

theorem TableRef.isOpen_relabel (ref : TableRef) : (relabel labels ref).isOpen = ref.isOpen := by
  cases ref with
  | joined left join right condition span => cases condition <;> rfl
  | _ => rfl

theorem SelectCore.isOpen_relabel (core : SelectCore) :
    (relabel labels core).isOpen = core.isOpen := by
  obtain ⟨modifiers, columns, sources, filter, groupBy, rollup, having, span⟩ := core
  have last : (relabel labels sources).getLast?.any TableRef.isOpen =
      sources.getLast?.any TableRef.isOpen := by
    have moved : (relabel labels sources).getLast? = sources.getLast?.map (relabel labels) :=
      List.getLast?_map
    rw [moved]
    cases sources.getLast? with
    | none => rfl
    | some ref => exact ref.isOpen_relabel labels
  rw [SelectCore.relabel_mk, isOpen, isOpen, last]
  cases filter <;> cases groupBy <;> cases having <;> rfl

theorem QueryTerm.isOpen_relabel (term : QueryTerm) :
    (relabel labels term).isOpen = term.isOpen := by
  cases term with
  | select core => exact core.isOpen_relabel labels
  | nested query => rfl

/-- The end of a query is open whatever its labels are. -/
theorem Query.isOpen_relabel (query : Query) : (relabel labels query).isOpen = query.isOpen := by
  obtain ⟨withClause, ⟨first, compounds, place⟩, orderBy, limit, locking, span⟩ := query
  have last : (relabel labels (QueryBody.mk first compounds place)).last =
      relabel labels (QueryBody.mk first compounds place).last := by
    have moved : (relabel labels compounds).getLast? = compounds.getLast?.map (relabel labels) :=
      List.getLast?_map
    rw [QueryBody.relabel_mk, QueryBody.last, QueryBody.last, moved]
    cases compounds.getLast? <;> rfl
  rw [Query.relabel_mk, isOpen, isOpen, last, QueryTerm.isOpen_relabel]
  cases orderBy <;> cases limit <;> cases locking <;> rfl

end

/-- Rules that read the word `DUPLICATE` as a name in front of `KEY`. -/
def InnerRules.NamesDuplicate (inner : InnerRules) : Prop :=
  ∀ spot : Spot, spot.kind = .keyword .DUPLICATE → spot.next.kind = .keyword .KEY →
    inner.expr.on spot = .deep ∨ ∃ value, inner.expr.on spot = .done value spot.next

/-! ### In front of `ON DUPLICATE KEY` -/

namespace Tails

/-- Nothing follows at the one spot, and `ON DUPLICATE KEY` at the other one. -/
class Updates (tails : Tails) : Prop where
  rest : tails.rest = []
  other : ∃ on duplicate key more, tails.other = on :: duplicate :: key :: more ∧
    on.kind = .keyword .ON ∧ duplicate.kind = .keyword .DUPLICATE ∧ key.kind = .keyword .KEY
  before : ∀ dot ∈ tails.before, dot.kind ≠ .punct .dot

instance (tails : Tails) [updates : tails.Updates] : tails.Ended where
  other := by
    obtain ⟨on, duplicate, key, more, split, joined, _⟩ := updates.other
    rw [split]
    constructor
    · rintro _ ⟨⟩
      exact joined ▸ .joined
    · exact fun _ _ _ => updates.before
  rest := updates.rest ▸ .nil _

variable {tails : Tails} [updates : tails.Updates] {origin spot place : Spot}

namespace Beside

/-- The two spots where no token in common is left. -/
theorem kinds_at_end (beside : tails.Beside origin spot place) (ended : spot.ahead = []) :
    spot.kind = .endOfInput ∧ place.kind = .keyword .ON ∧
      place.next.kind = .keyword .DUPLICATE ∧ place.next.next.kind = .keyword .KEY := by
  obtain ⟨front, ahead, ahead'⟩ := beside.ahead
  obtain ⟨on, duplicate, key, more, split, joined, word, last⟩ := updates.other
  obtain rfl : front = [] := (List.append_eq_nil_iff.mp (ahead.symm.trans ended)).1
  rw [List.nil_append, split] at ahead'
  refine ⟨Spot.kind_of_ahead_nil ended, ?_, ?_, ?_⟩
  · rw [Spot.kind_eq_of_ahead ahead', joined]
  · rw [Spot.kind_eq_of_ahead (congrArg List.tail ahead'), word]
  · rw [Spot.kind_eq_of_ahead (congrArg (List.tail ∘ List.tail) ahead'), last]

/-- Either no token is left at the one spot, or a token in common is next. -/
theorem ended_or_within (beside : tails.Beside origin spot place) :
    spot.ahead = [] ∨ tails.Within spot := by
  rcases beside.cases with ⟨ahead, _⟩ | within
  · exact .inl (ahead.trans updates.rest)
  · exact .inr within

end Beside

end Tails

namespace Rule

open Comparison (Consuming)

variable {α β σ : Type}

/-- Behind an open end, at the end of the one list of tokens, a rule reads nothing more; neither does
it in front of `KEY`. -/
structure Strays (rule : Rule β) (wasOpen : Prop) (isOpen : β → Prop) : Prop where
  idle : ∀ spot, spot.kind = .keyword .KEY → ∃ value, rule.on spot = .done value spot
  opens : wasOpen → ∀ spot value later, spot.ahead = [] → rule.on spot = .done value later →
    later.ahead = [] ∧ isOpen value

namespace Strays

variable {rule : Rule α} {next : α → Rule β} {wasOpen : Prop} {midOpen : α → Prop}
  {isOpen : β → Prop}

theorem pure {value : β} (opens : wasOpen → isOpen value) :
    (Pure.pure value : Rule β).Strays wasOpen isOpen where
  idle spot _ := ⟨value, on_pure value spot⟩
  opens was spot read later ended outcome := by
    rw [on_pure] at outcome
    cases outcome
    exact ⟨ended, opens was⟩

theorem bind [rule.Lawful] [∀ value, (next value).Lawful] (first : rule.Strays wasOpen midOpen)
    (rest : ∀ value, (next value).Strays (midOpen value) isOpen) :
    (rule >>= next).Strays wasOpen isOpen where
  idle spot key := by
    obtain ⟨value, read⟩ := first.idle spot key
    rw [on_bind, read, Outcome.bind_done]
    exact (rest value).idle spot key
  opens was spot result last ended outcome := by
    rw [on_bind] at outcome
    obtain ⟨value, middle, read, behind⟩ := Outcome.bind_eq_done.mp outcome
    obtain ⟨ended, mid⟩ := first.opens was spot value middle ended read
    exact (rest value).opens mid middle result last ended behind

end Strays

/-- What a rule reads up to the end of the one list of tokens, it reads at the other spot too, unless
its end is left open.  Then it reads on there up to `KEY`. -/
def Composes (rule : Rule α) (isOpen : α → Prop) (tails : Tails) (origin spot place : Spot) : Prop :=
  ∀ value later, rule.on spot = .done value later → rule.on place = .deep ∨
    (¬(later.ahead = [] ∧ isOpen value) ∧
      ∃ after, rule.on place = .done value after ∧ tails.Beside origin later after) ∨
    ((later.ahead = [] ∧ isOpen value) ∧
      ∃ copy after, rule.on place = .done copy after ∧ after.kind = .keyword .KEY)

variable {tails : Tails} [updates : tails.Updates] {origin spot place : Spot}

namespace Composes

variable {rule : Rule α} {next : α → Rule β} {midOpen : α → Prop} {isOpen : β → Prop}

/-- Rules that read the same at the other spot, and leave no end open. -/
theorem of_retells {isOpen : α → Prop} [rule.Lawful] (retells : rule.Retells tails origin spot place)
    (closed : rule.Ensures spot fun value later => later.ahead = [] → ¬isOpen value) :
    rule.Composes isOpen tails origin spot place := by
  intro value later outcome
  have enough : tails.rest.length ≤ later.ahead.length := by simp [updates.rest]
  refine (retells.on outcome enough).imp_right fun same => .inl ⟨?_, same⟩
  exact fun ⟨ended, opened⟩ => closed.on outcome ended opened

/-- Rules that read the same at the other spot, and nothing that could be left open. -/
theorem of_yields {isOpen : α → Prop} [rule.Lawful] (retells : rule.Retells tails origin spot place)
    (closed : rule.Yields fun value => ¬isOpen value) :
    rule.Composes isOpen tails origin spot place :=
  .of_retells retells ((closed spot).mono fun _ _ known _ => known)

omit updates in
theorem fail {isOpen : α → Prop} {expected : List String} :
    (Rule.fail expected : Rule α).Composes isOpen tails origin spot place := by
  intro value later outcome
  rw [on_fail] at outcome
  cases outcome

omit updates in
theorem ite {isOpen : α → Prop} {condition : Prop} [Decidable condition] {left right : Rule α}
    (holds : condition → left.Composes isOpen tails origin spot place)
    (fails : ¬condition → right.Composes isOpen tails origin spot place) :
    (if condition then left else right).Composes isOpen tails origin spot place := by
  split
  · next known => exact holds known
  · next known => exact fails known

omit updates in
theorem enter {isOpen : α → Prop} [rule.Lawful]
    (composes : rule.Composes isOpen tails origin spot place) :
    (Rule.enter rule).Composes isOpen tails origin spot place := by
  intro value later outcome
  rw [on_enter] at outcome ⊢
  exact composes value later outcome

/-- A rule that consumes a token is compared only where a token in common is ahead. -/
theorem of_spends {isOpen : α → Prop} (spends : rule.Spends 1 spot)
    (beside : tails.Beside origin spot place)
    (within : tails.Within spot → rule.Composes isOpen tails origin spot place) :
    rule.Composes isOpen tails origin spot place := by
  rcases beside.ended_or_within with ended | inside
  · intro value later outcome
    have spent := Ensures.on spends outcome
    rw [ended, List.length_nil] at spent
    omega
  · exact within inside

/-- Behind a rule that reads the same at the other spot. -/
theorem behind_of [rule.Lawful] (continued : ∀ value, (next value).Lawful)
    (first : rule.Retells tails origin spot place)
    (rest : ∀ value later after, rule.on spot = .done value later →
      tails.Beside origin later after → (next value).Composes isOpen tails origin later after) :
    (rule >>= next).Composes isOpen tails origin spot place := by
  intro result last outcome
  rw [on_bind] at outcome ⊢
  obtain ⟨value, middle, read, behind⟩ := Outcome.bind_eq_done.mp outcome
  have enough : tails.rest.length ≤ middle.ahead.length := by simp [updates.rest]
  rcases first.on read enough with deep | ⟨after, done, beside⟩
  · rw [deep]
    exact .inl rfl
  · rw [done, Outcome.bind_done]
    exact rest value middle after read beside result last behind

variable [rule.Lawful] [∀ value, (next value).Lawful]

theorem behind (first : rule.Retells tails origin spot place)
    (rest : ∀ value later after, rule.on spot = .done value later →
      tails.Beside origin later after → (next value).Composes isOpen tails origin later after) :
    (rule >>= next).Composes isOpen tails origin spot place :=
  behind_of inferInstance first rest

omit updates in
/-- Behind a rule that may leave its end open. -/
theorem bind (first : rule.Composes midOpen tails origin spot place)
    (rest : ∀ value later after, tails.Beside origin later after →
      ¬(later.ahead = [] ∧ midOpen value) → (next value).Composes isOpen tails origin later after)
    (strays : ∀ value, (next value).Strays (midOpen value) isOpen) :
    (rule >>= next).Composes isOpen tails origin spot place := by
  intro result last outcome
  rw [on_bind] at outcome ⊢
  obtain ⟨value, middle, read, behind⟩ := Outcome.bind_eq_done.mp outcome
  rcases first value middle read with deep | ⟨closed, after, done, beside⟩ | ⟨opened, copy, after, done, key⟩
  · rw [deep]
    exact .inl rfl
  · rw [done, Outcome.bind_done]
    exact rest value middle after beside closed result last behind
  · rw [done, Outcome.bind_done]
    refine .inr (.inr ⟨?_, ?_⟩)
    · exact (strays value).opens opened.2 middle result last opened.1 behind
    · obtain ⟨found, idle⟩ := (strays copy).idle after key
      exact ⟨found, after, idle, key⟩

end Composes

/-! ### Clauses -/

/-- A clause that is left out at the end of input and in front of `KEY`, and that consumes nothing
where it is left out. -/
structure Clause (rule : Rule α) (absent : α → Prop) : Prop where
  idle : ∀ spot, spot.kind = .endOfInput ∨ spot.kind = .keyword .KEY →
    ∃ value, absent value ∧ rule.on spot = .done value spot
  stays : ∀ spot, rule.Ensures spot fun value later => absent value → later = spot

/-- Rules behind an open end: it stays open if they are left out, and they leave no other end open. -/
structure Trails (rule : Rule β) (tails : Tails) (origin : Spot) (wasOpen : Prop)
    (isOpen : β → Prop) : Prop extends rule.Strays wasOpen isOpen where
  steady : Steady tails origin false rule
  closes : ∀ spot, rule.Ensures spot fun value later =>
    later.ahead = [] ∧ isOpen value → spot.ahead = [] ∧ wasOpen

namespace Clause

variable {rule : Rule α} {absent : α → Prop}

/-- Where a clause is there, it is not left out. -/
theorem of_present {present : Rule α} (found : present.Yields fun value => ¬absent value)
    (spot start : Spot) : present.Ensures spot fun value later => absent value → later = start :=
  (found spot).mono fun _ _ known nothing => absurd nothing known

/-- A clause that begins with a word of its own. -/
theorem eatWord {word : Keyword} {present : Rule α} {empty : α} [present.Lawful]
    (other : word ≠ .KEY) (nothing : absent empty)
    (found : present.Yields fun value => ¬absent value) :
    Clause (Rule.eatWord word >>= fun eaten => if eaten = true then present else Pure.pure empty)
      absent where
  idle spot ends := by
    have missing : spot.kind ≠ .keyword word := by
      rcases ends with ended | key
      · simp [ended]
      · simpa [key] using other.symm
    exact ⟨empty, nothing, by simp [on_bind, on_ite, missing]⟩
  stays spot := .eat (fun _ => of_present found spot.next spot) fun _ => .pure fun _ => rfl

theorem previousSpan : Clause Rule.previousSpan fun _ => True where
  idle spot _ := ⟨_, trivial, on_previousSpan spot⟩
  stays spot := by
    refine .of_on fun value later outcome _ => ?_
    rw [on_previousSpan] at outcome
    cases outcome
    rfl

end Clause

namespace Trails

variable {rule : Rule α} {next : α → Rule β} {absent : α → Prop} {wasOpen : Prop}
  {isOpen : β → Prop}

omit updates in
theorem pure {value : β} (same : isOpen value ↔ wasOpen) :
    (Pure.pure value : Rule β).Trails tails origin wasOpen isOpen where
  toStrays := .pure same.mpr
  steady := inferInstance
  closes _ := .pure fun ⟨ended, opened⟩ => ⟨ended, same.mp opened⟩

omit updates in
theorem clause [rule.Lawful] [steady : Steady tails origin false rule] [∀ value, (next value).Lawful]
    (first : Clause rule absent)
    (rest : ∀ value, (next value).Trails tails origin (wasOpen ∧ absent value) isOpen) :
    (rule >>= next).Trails tails origin wasOpen isOpen where
  toStrays := by
    refine .bind ⟨fun spot key => ?_, fun was spot value later ended outcome => ?_⟩ fun value =>
      (rest value).toStrays
    · obtain ⟨value, _, read⟩ := first.idle spot (.inr key)
      exact ⟨value, read⟩
    · obtain ⟨found, absent, read⟩ := first.idle spot (.inl (Spot.kind_of_ahead_nil ended))
      cases read.symm.trans outcome
      exact ⟨ended, was, absent⟩
  steady := Steady.behind inferInstance fun value => (rest value).steady
  closes spot := by
    refine (first.stays spot).bind fun value middle stays => ?_
    refine ((rest value).closes middle).mono fun result last closes opened => ?_
    obtain ⟨ended, was, absent⟩ := closes opened
    exact ⟨stays absent ▸ ended, was⟩

/-- Behind an end that is not open. -/
theorem composes [rule.Lawful] {isOpen : α → Prop} (trails : rule.Trails tails origin wasOpen isOpen)
    (beside : tails.Beside origin spot place) (closed : ¬(spot.ahead = [] ∧ wasOpen)) :
    rule.Composes isOpen tails origin spot place := by
  have steady := trails.steady
  refine .of_retells (Steady.anywhere beside) ?_
  exact (trails.closes spot).mono fun value later closes ended opened =>
    closed (closes ⟨ended, opened⟩)

end Trails

namespace Composes

variable {rule : Rule α} {next : α → Rule β} {midOpen : α → Prop} {isOpen : β → Prop}

/-- Behind a rule that may leave its end open, with clauses that are often left out. -/
theorem trailing [rule.Lawful] [∀ value, (next value).Lawful] (first : rule.Composes midOpen tails origin spot place)
    (trails : ∀ value, (next value).Trails tails origin (midOpen value) isOpen) :
    (rule >>= next).Composes isOpen tails origin spot place :=
  .bind first (fun value _ _ beside closed => (trails value).composes beside closed)
    fun value => (trails value).toStrays

/-! ### Repetition -/

variable {step : σ → Rule (Option σ)} [∀ value, (step value).Lawful]
  [∀ value, (step value).Shortens] {isOpen : σ → Prop}

omit updates in
/-- A repetition, none of whose steps begins at an end. -/
theorem whileSome (clause : ∀ value, Clause (step value) (· = none))
    (steps : ∀ value spot place, tails.Beside origin spot place →
      (step value).Composes (fun found => ∃ next ∈ found, isOpen next) tails origin spot place)
    {first : σ} (beside : tails.Beside origin spot place) (closed : ¬(spot.ahead = [] ∧ isOpen first)) :
    (Rule.whileSome step first).Composes isOpen tails origin spot place := by
  intro last later outcome
  have repeats := on_whileSome_eq_done.mp outcome
  clear outcome
  -- by induction on the repetition at the one spot
  induction repeats generalizing place with
  | @stop value spot later nothing =>
      have stays := ((clause value).stays spot).on nothing rfl
      rw [on_whileSome]
      rcases steps value spot place beside none later nothing with
        deep | ⟨_, after, done, beside⟩ | ⟨⟨_, _, ⟨⟩, _⟩, _⟩
      · rw [deep]
        exact .inl rfl
      · rw [done]
        exact .inr (.inl ⟨stays ▸ closed, after, rfl, beside⟩)
  | @more value next last spot middle later some rest inductionHypothesis =>
      rw [on_whileSome]
      rcases steps value spot place beside (Option.some next) middle some with
        deep | ⟨closed, after, done, beside⟩ | ⟨⟨ended, _, ⟨⟩, opened⟩, copy, after, done, key⟩
      · rw [deep]
        exact .inl rfl
      · rw [done, Outcome.bind_done]
        exact inductionHypothesis beside fun ⟨ended, opened⟩ => closed ⟨ended, next, rfl, opened⟩
      · -- at the end of the tokens the repetition ends at both spots
        obtain ⟨_, rfl, stops⟩ := (clause next).idle middle (.inl (Spot.kind_of_ahead_nil ended))
        have finished : Repeats step next middle next middle := .stop stops
        have same := (on_whileSome_eq_done.mpr finished).symm.trans (on_whileSome_eq_done.mpr rest)
        cases same
        refine .inr (.inr ⟨⟨ended, opened⟩, ?_⟩)
        rw [done, Outcome.bind_done]
        cases copy with
        | none => exact ⟨value, after, rfl, key⟩
        | some found =>
            obtain ⟨_, rfl, idle⟩ := (clause found).idle after (.inr key)
            refine ⟨found, after, ?_, key⟩
            dsimp only
            rw [on_whileSome, idle]
            rfl

end Composes

/-- A repetition none of whose steps begins at an end or in front of `KEY`. -/
theorem Strays.whileSome {step : σ → Rule (Option σ)} [∀ value, (step value).Lawful]
    [∀ value, (step value).Shortens] {isOpen : σ → Prop} {wasOpen : Prop} {first : σ}
    (clause : ∀ value, Clause (step value) (· = none)) (opens : wasOpen → isOpen first) :
    (Rule.whileSome step first).Strays wasOpen isOpen where
  idle spot key := by
    obtain ⟨_, rfl, stops⟩ := (clause first).idle spot (.inr key)
    exact ⟨first, on_whileSome_eq_done.mpr (.stop stops)⟩
  opens was spot value later ended outcome := by
    obtain ⟨_, rfl, stops⟩ := (clause first).idle spot (.inl (Spot.kind_of_ahead_nil ended))
    cases (on_whileSome_eq_done.mpr (.stop stops)).symm.trans outcome
    exact ⟨ended, opens was⟩

/-! ### The clauses of queries -/

section

variable {inner : InnerRules} [inner.Lawful]

theorem whereClause_clause : Clause (whereClause inner) (· = none) := by
  unfold whereClause
  exact .eatWord (by decide) rfl (.skip fun filter => .pure (by simp))

theorem havingClause_clause : Clause (havingClause inner) (· = none) := by
  unfold havingClause
  exact .eatWord (by decide) rfl (.skip fun having => .pure (by simp))

theorem orderingTerms_ne_nil : (orderingTerms inner).Yields (· ≠ []) :=
  have anything : (orderingTerm inner).Yields fun _ => True := fun _ => .of_on fun _ _ _ => trivial
  anything.commaSeparated.mono fun _ known => known.1

theorem groupByClause_clause : Clause (groupByClause inner) fun found => found.1 = [] := by
  unfold groupByClause
  refine .eatWord (by decide) rfl (.skip fun by_ => ?_)
  exact orderingTerms_ne_nil.bind fun terms some_ => .skip fun rollup => .pure some_

theorem orderByClause_clause : Clause (orderByClause inner) (· = []) := by
  unfold orderByClause
  exact .eatWord (by decide) rfl (.skip fun by_ => orderingTerms_ne_nil)

theorem limitClause_clause (allowOffset : Bool) : Clause (limitClause allowOffset) (· = none) where
  idle spot ends := by
    have missing : spot.kind ≠ .keyword .LIMIT := by
      rcases ends with ended | key
      · simp [ended]
      · simp [key]
    refine ⟨none, rfl, ?_⟩
    unfold limitClause
    rw [on_bind, on_nextIsWord, decide_eq_false missing]
    simp
  stays spot := by
    unfold limitClause
    refine .nextIs (fun _ => Clause.of_present (.skip fun start => ?_) spot spot)
      fun _ => .pure fun _ => rfl
    dsimp only
    split
    · exact .skip fun numbers => .skip fun last => .pure (by simp)
    · exact .skip fun count => .skip fun numbers => .skip fun last => .pure (by simp)

theorem lockingClause_clause : Clause lockingClause (· = none) where
  idle spot ends := by
    refine ⟨none, rfl, Steady.on_lockingClause_of_ne ?_ ?_⟩ <;> rcases ends with ended | key <;>
      simp [*]
  stays spot := by
    unfold lockingClause
    refine .step (on_currentSpan spot) (.eat (fun _ => ?_) fun _ => .eat (fun _ => ?_) fun _ => ?_)
    · refine Clause.of_present (.skip fun _ => .skip fun _ => .skip fun _ => ?_) spot.next spot
      exact .skip fun last => .pure (by simp)
    · refine Clause.of_present (.skip fun mode => .skip fun tables => ?_) spot.next spot
      exact .skip fun wait => .skip fun last => .pure (by simp)
    · exact .pure fun _ => rfl

/-! ### Conditions of joins -/

end

section

variable {inner : InnerRules} [inner.Lawful] [steady : inner.Steady origin]

namespace Steady

instance : Steady tails origin true (onCondition inner) := by
  unfold onCondition
  infer_instance

instance : Steady tails origin true (onOrUsing inner) := by
  unfold onOrUsing
  refine behind (fun found => ?_) fun found => ?_ <;> split <;> infer_instance

instance (join : JoinType) : Steady tails origin true (joinCondition inner join) := by
  unfold joinCondition
  split
  · infer_instance
  · split
    · infer_instance
    · refine behind (fun found => ?_) fun found => ?_ <;> split <;> infer_instance

end Steady

omit updates steady in
/-- A condition that is left out consumes nothing, and at the end of input it is left out. -/
theorem joinCondition_cases (join : JoinType) (spot : Spot) :
    (joinCondition inner join).Ensures spot fun found later =>
      found = none ∧ later = spot ∨ found ≠ none ∧ spot.kind ≠ .endOfInput := by
  have on : (onCondition inner).Ensures spot fun found later =>
      found = none ∧ later = spot ∨ found ≠ none ∧ spot.kind ≠ .endOfInput := by
    have present : (inner.expr >>= fun condition =>
        Pure.pure (some (JoinCondition.on condition))).Yields (· ≠ none) :=
      .skip fun condition => .pure (by simp)
    unfold onCondition
    refine .eat (fun joined => ?_) fun _ => .pure (.inl ⟨rfl, rfl⟩)
    exact (present spot.next).mono fun _ _ known => .inr ⟨known, by simp [joined]⟩
  have onOr : (onOrUsing inner).Ensures spot fun found later =>
      found = none ∧ later = spot ∨ found ≠ none ∧ spot.kind ≠ .endOfInput := by
    have present : (identsInParens >>= fun columns =>
        Pure.pure (some (JoinCondition.using columns))).Yields (· ≠ none) :=
      .skip fun columns => .pure (by simp)
    unfold onOrUsing
    refine .bind on fun found later cases => ?_
    obtain ⟨rfl, rfl⟩ | ⟨some_, inside⟩ := cases
    · refine .eat (fun listed => ?_) fun _ => .pure (.inl ⟨rfl, rfl⟩)
      exact (present later.next).mono fun _ _ known => .inr ⟨known, by simp [listed]⟩
    · obtain ⟨condition, rfl⟩ := Option.ne_none_iff_exists'.mp some_
      exact .pure (.inr ⟨some_, inside⟩)
  unfold joinCondition
  refine .ite (fun _ => .pure (.inl ⟨rfl, rfl⟩)) fun _ => .ite (fun _ => on) fun _ => ?_
  refine .bind onOr fun found later cases => ?_
  obtain ⟨rfl, rfl⟩ | ⟨some_, inside⟩ := cases
  · exact .ite (fun _ => .fail) fun _ => .pure (.inl ⟨rfl, rfl⟩)
  · obtain ⟨condition, rfl⟩ := Option.ne_none_iff_exists'.mp some_
    exact .pure (.inr ⟨some_, inside⟩)

variable (named : inner.NamesDuplicate)

include named

omit updates steady in
/-- `ON DUPLICATE` is read as a condition. -/
theorem onCondition_duplicate (joined : spot.kind = .keyword .ON)
    (word : spot.next.kind = .keyword .DUPLICATE) (key : spot.next.next.kind = .keyword .KEY) :
    (onCondition inner).on spot = .deep ∨
      ∃ condition, (onCondition inner).on spot = .done (some condition) spot.next.next := by
  unfold onCondition
  rw [on_bind, on_eatWord, if_pos joined, Outcome.bind_done, on_ite, if_pos rfl, on_bind]
  rcases named spot.next word key with deep | ⟨condition, read⟩
  · rw [deep]
    exact .inl rfl
  · rw [read]
    exact .inr ⟨_, on_pure _ _⟩

omit updates steady in
theorem onOrUsing_duplicate (joined : spot.kind = .keyword .ON)
    (word : spot.next.kind = .keyword .DUPLICATE) (key : spot.next.next.kind = .keyword .KEY) :
    (onOrUsing inner).on spot = .deep ∨
      ∃ condition, (onOrUsing inner).on spot = .done (some condition) spot.next.next := by
  unfold onOrUsing
  rcases onCondition_duplicate named joined word key with deep | ⟨condition, read⟩
  · left
    rw [on_bind_of, deep]
    · rfl
    · intro found
      split <;> infer_instance
  · right
    refine ⟨condition, ?_⟩
    rw [on_bind_of, read]
    · exact on_pure _ _
    · intro found
      split <;> infer_instance

omit updates steady in
/-- `ON DUPLICATE` is read as the condition of each join that takes one. -/
theorem joinCondition_duplicate {join : JoinType} (free : join.forbidsCondition = false)
    (joined : spot.kind = .keyword .ON) (word : spot.next.kind = .keyword .DUPLICATE)
    (key : spot.next.next.kind = .keyword .KEY) :
    (joinCondition inner join).on spot = .deep ∨
      ∃ condition, (joinCondition inner join).on spot = .done (some condition) spot.next.next := by
  unfold joinCondition
  rw [if_neg (by simp [free])]
  split
  · exact onCondition_duplicate named joined word key
  · rcases onOrUsing_duplicate named joined word key with deep | ⟨condition, read⟩
    · left
      rw [on_bind_of, deep]
      · rfl
      · intro found
        split <;> infer_instance
    · right
      refine ⟨condition, ?_⟩
      rw [on_bind_of, read]
      · exact on_pure _ _
      · intro found
        split <;> infer_instance

/-- The condition of a join in front of `ON DUPLICATE KEY`. -/
theorem joinCondition_composes (join : JoinType) (beside : tails.Beside origin spot place) :
    (joinCondition inner join).Composes (fun found => found = none ∧ join.forbidsCondition = false)
      tails origin spot place := by
  rcases beside.ended_or_within with ended | within
  · obtain ⟨stop, joined, word, key⟩ := beside.kinds_at_end ended
    intro value later outcome
    obtain ⟨rfl, rfl⟩ | ⟨_, inside⟩ := (joinCondition_cases join spot).on outcome
    · cases free : join.forbidsCondition with
      | true =>
          refine .inr (.inl ⟨by simp, place, ?_, beside⟩)
          rw [joinCondition, if_pos free, on_pure]
      | false =>
          refine (joinCondition_duplicate named free joined word key).imp_right ?_
          rintro ⟨condition, read⟩
          exact .inr ⟨⟨ended, rfl, rfl⟩, _, _, read, key⟩
    · exact absurd stop inside
  · refine .of_retells (Steady.within beside within) ?_
    refine (joinCondition_cases join spot).mono fun found later cases ended absent => ?_
    obtain ⟨_, rfl⟩ | ⟨some_, _⟩ := cases
    · rw [Tails.Within, ended] at within
      exact absurd within (Nat.not_lt_zero _)
    · exact some_ absent.1

/-! ### Joins -/

omit updates steady named in
theorem extendJoin_clause (left : TableRef) : Clause (extendJoin inner left) (· = none) where
  idle spot ends := by
    refine ⟨none, rfl, ?_⟩
    rw [on_extendJoin, on_joinType]
    rcases ends with ended | key
    · rw [ended]
      rfl
    · rw [key]
      rfl
  stays spot := by
    have word : ∀ join, (joinWord join).Yields fun found => ¬found = none :=
      fun join => .skip fun _ => .pure (by simp)
    have words : joinType.Ensures spot fun found later => found = none → later = spot := by
      unfold joinType
      refine .step (on_peek spot) ?_
      split
      · exact Clause.of_present (.skip fun _ => .pure (by simp)) _ _
      · exact Clause.of_present (.skip fun _ => .pure (by simp)) _ _
      · exact Clause.of_present (.skip fun _ => word _) _ _
      · exact Clause.of_present (.skip fun _ => word _) _ _
      · exact Clause.of_present (.skip fun _ => .skip fun _ => word _) _ _
      · exact Clause.of_present (.skip fun _ => .skip fun _ => word _) _ _
      · exact Clause.of_present (.skip fun _ => .skip fun join => word join) _ _
      · exact .pure fun _ => rfl
    unfold extendJoin
    refine .bind words fun found later stays => ?_
    cases found with
    | none =>
        obtain rfl := stays rfl
        exact .pure fun _ => rfl
    | some join =>
        refine Clause.of_present (.skip fun right => .skip fun condition => ?_) _ _
        exact .skip fun last => .pure (by simp)

/-- One more table of a join. -/
theorem extendJoin_composes (left : TableRef) (beside : tails.Beside origin spot place) :
    (extendJoin inner left).Composes (fun found => ∃ ref ∈ found, ref.isOpen = true) tails origin
      spot place := by
  unfold extendJoin
  refine .behind_of (fun found => by split <;> infer_instance) (Steady.anywhere beside)
    fun found middle after _ beside => ?_
  cases found with
  | none => exact .of_yields (.pure beside) (.pure (by simp))
  | some join =>
      refine .behind (Steady.anywhere beside) fun right middle after _ beside => ?_
      refine .trailing (joinCondition_composes named join beside) fun condition => ?_
      refine .clause .previousSpan fun last => .pure ?_
      cases condition with
      | none => simp [TableRef.isOpen]
      | some condition => simp [TableRef.isOpen]

/-! ### Lists -/

omit updates steady named in
theorem nextItem_clause {item : Rule α} [item.Lawful] (items : List α) :
    Clause (nextItem item items) (· = none) where
  idle spot ends := by
    refine ⟨none, rfl, ?_⟩
    rw [on_nextItem, if_neg]
    rcases ends with ended | key
    · simp [ended]
    · simp [key]
  stays spot := by
    unfold nextItem
    refine .eat (fun _ => ?_) fun _ => .pure fun _ => rfl
    exact Clause.of_present (.skip fun value => .pure (by simp)) _ _

omit steady named in
/-- A list whose last item may leave its end open. -/
theorem commaSeparated_composes {item : Rule α} [item.Lawful] {isOpen : α → Prop}
    (items : ∀ spot place, tails.Beside origin spot place →
      item.Composes isOpen tails origin spot place) (beside : tails.Beside origin spot place) :
    (commaSeparated item).Composes (fun list => ∃ last ∈ list.getLast?, isOpen last) tails origin spot
      place := by
  have clause : ∀ list : List α, Clause (nextItem item list) (· = none) := nextItem_clause
  have turns : ∀ list : List α, (Pure.pure list.reverse : Rule (List α)).Trails tails origin
      (∃ last ∈ list.head?, isOpen last) fun list => ∃ last ∈ list.getLast?, isOpen last :=
    fun list => .pure (by rw [List.getLast?_reverse])
  rw [commaSeparated_eq]
  refine .bind (items spot place beside) (fun first later after beside closed => ?_) fun first => ?_
  · refine .trailing (.whileSome clause (fun list spot place beside => ?_) beside ?_) turns
    · unfold nextItem
      refine .behind (Steady.anywhere beside) fun comma middle after _ beside => .ite (fun _ => ?_) ?_
      · exact .trailing (items _ _ beside) fun value => .pure (by simp)
      · exact fun _ => .of_yields (.pure beside) (.pure (by simp))
    · simpa using closed
  · refine .bind (.whileSome clause fun opened => ?_) fun list => (turns list).toStrays
    exact ⟨first, rfl, opened⟩

/-! ### Table references -/

variable (shaped : inner.Shaped)

include shaped

theorem tableRef_composes (beside : tails.Beside origin spot place) :
    (tableRef inner).Composes (fun ref => ref.isOpen = true) tails origin spot place := by
  unfold tableRef
  refine .behind (Steady.anywhere beside) fun first middle after read beside => ?_
  have single := TableRef.isOpen_of_not_joined ((tableFactor_yields shaped spot).on read).2
  exact .whileSome extendJoin_clause (fun left spot place => extendJoin_composes named left) beside
    (by simp [single])

theorem tableRefs_composes (beside : tails.Beside origin spot place) :
    (tableRefs inner).Composes (fun refs => ∃ last ∈ refs.getLast?, last.isOpen = true) tails origin
      spot place :=
  commaSeparated_composes (fun _ _ => tableRef_composes named shaped) beside

/-! ### Select blocks -/

theorem fromClause_composes (beside : tails.Beside origin spot place) :
    (fromClause inner).Composes (fun refs => ∃ last ∈ refs.getLast?, last.isOpen = true) tails origin
      spot place := by
  unfold fromClause
  refine .behind (Steady.anywhere beside) fun found middle after _ beside => .ite (fun _ => ?_) ?_
  · exact tableRefs_composes named shaped beside
  · exact fun _ => .of_yields (.pure beside) (.pure (by simp))

theorem selectCore_composes (beside : tails.Beside origin spot place) :
    (selectCore inner).Composes (fun core => core.isOpen = true) tails origin spot place := by
  unfold selectCore
  refine .behind (Steady.anywhere beside) fun start middle after _ beside => ?_
  refine .behind (Steady.anywhere beside) fun modifiers middle after _ beside => ?_
  refine .behind (Steady.anywhere beside) fun columns middle after _ beside => ?_
  refine .trailing (fromClause_composes named shaped beside) fun sources => ?_
  refine .clause whereClause_clause fun filter => .clause groupByClause_clause fun grouping => ?_
  refine .clause havingClause_clause fun having => .clause .previousSpan fun last => .pure ?_
  have same : sources.getLast?.any TableRef.isOpen = true ↔
      ∃ last ∈ sources.getLast?, last.isOpen = true := by
    cases sources.getLast? <;> simp
  simp only [SelectCore.isOpen, Bool.and_eq_true, Option.isNone_iff_eq_none, List.isEmpty_iff, same,
    and_true]

/-! ### Queries -/

theorem queryTerm_composes (beside : tails.Beside origin spot place) :
    (queryTerm inner).Composes (fun term => term.isOpen = true) tails origin spot place := by
  unfold queryTerm
  refine .of_spends (.step (on_peek spot) ?_) beside fun within => ?_
  · split
    · next opened => exact Spends.advance (by simp [opened]) .nothing
    · have consumes : Consuming false (selectCore inner) := by
        unfold selectCore
        infer_instance
      exact Spends.one
    · exact .fail
  refine .behind_of (fun kind => by split <;> infer_instance) (Steady.within beside within)
    fun kind middle after read beside => ?_
  rw [on_peek] at read
  cases read
  split
  · refine .of_yields (Steady.within beside within) (.skip fun _ => .skip fun query => ?_)
    exact .skip fun _ => .pure (by simp [QueryTerm.isOpen])
  · refine .trailing (selectCore_composes named shaped beside) fun core => .pure Iff.rfl
  · exact .fail

omit updates steady named shaped in
theorem nextCompound_clause (compounds : List (CompoundOp × QueryTerm)) :
    Clause (nextCompound inner compounds) (· = none) := by
  unfold nextCompound
  exact .eatWord (by decide) rfl (.skip fun op => .skip fun term => .pure (by simp))

/-- The last of the terms so far, which come in reverse order. -/
def lastTerm (first : QueryTerm) (compounds : List (CompoundOp × QueryTerm)) : QueryTerm :=
  (compounds.head?.map Prod.snd).getD first

theorem queryBody_composes (beside : tails.Beside origin spot place) :
    (queryBody inner).Composes (fun body => body.last.isOpen = true) tails origin spot place := by
  refine .of_spends ?_ beside fun within => ?_
  · exact (queryBody_makes steady.makes spot beside.reaches).mono fun _ _ made => made.shorter
  have ends : ∀ (start : Span) first (compounds : List (CompoundOp × QueryTerm)),
      (Rule.previousSpan >>= fun last => Pure.pure
        (⟨first, compounds.reverse, start.merge last⟩ : QueryBody)).Trails tails origin
        ((lastTerm first compounds).isOpen = true) fun body => body.last.isOpen = true := by
    refine fun start first compounds => .clause .previousSpan fun last => .pure ?_
    simp [QueryBody.last, lastTerm]
  rw [queryBody_eq]
  refine .behind (Steady.within beside within) fun start middle after read beside => ?_
  refine .bind (queryTerm_composes named shaped beside) (fun first later after beside closed => ?_)
    fun first => ?_
  · refine .trailing (.whileSome nextCompound_clause (fun compounds spot place beside => ?_) beside
      closed) (ends start first)
    unfold nextCompound
    refine .behind (Steady.anywhere beside) fun union middle after _ beside => .ite (fun _ => ?_) ?_
    · refine .behind (Steady.anywhere beside) fun op middle after _ beside => ?_
      exact .trailing (queryTerm_composes named shaped beside) fun term =>
        .pure (by simp [lastTerm])
    · exact fun _ => .of_yields (.pure beside) (.pure (by simp))
  · refine .bind (.whileSome nextCompound_clause fun opened => ?_) fun compounds =>
      (ends start first compounds).toStrays
    exact opened

theorem wholeQuery_composes (beside : tails.Beside origin spot place) :
    (wholeQuery inner).Composes (fun query => query.isOpen = true) tails origin spot place := by
  refine .of_spends ?_ beside fun within => ?_
  · exact (wholeQuery_makes steady.makes beside.reaches).mono fun _ _ facts => facts.1.shorter
  unfold wholeQuery
  refine .behind (Steady.within beside within) fun start middle after read beside => ?_
  refine .behind (Steady.anywhere beside) fun common middle after read beside => ?_
  refine .trailing (queryBody_composes named shaped beside) fun body => ?_
  refine .clause orderByClause_clause fun orderBy => .clause (limitClause_clause true) fun limit => ?_
  refine .clause lockingClause_clause fun locking => .clause .previousSpan fun last => .pure ?_
  simp only [Query.isOpen, Bool.and_eq_true, Option.isNone_iff_eq_none, List.isEmpty_iff, and_true]

end

/-! ### Every nesting level -/

omit updates in
/-- `DUPLICATE` is a name in front of `KEY`. -/
theorem nameExpr_duplicate {inner : InnerRules} [inner.Lawful]
    (word : spot.kind = .keyword .DUPLICATE) (key : spot.next.kind = .keyword .KEY) :
    ∃ value, (nameExpr inner).on spot = .done value spot.next := by
  have second : (spot.token 1).kind = .keyword .KEY := by rw [← Spot.next_token, ← Spot.kind, key]
  have undotted : spot.next.dotted = false := by simp [Spot.dotted, key]
  have named : ∃ ident, identifier.on spot = .done ident spot.next := by
    rw [Spot.kind] at word
    rw [identifier, on_name, identOfToken?, word]
    exact ⟨_, rfl⟩
  obtain ⟨ident, read⟩ := named
  refine ⟨.column ⟨none, none, ident, ident.span⟩, ?_⟩
  rw [nameExpr, on_bind, on_aheadIs, second]
  simp [columnRef, on_bind, on_ite, read, on_dotNameFollows, undotted]

omit updates in
theorem primaryExpr_duplicate {inner : InnerRules} [inner.Lawful]
    (word : spot.kind = .keyword .DUPLICATE) (key : spot.next.kind = .keyword .KEY) :
    ∃ value, (primaryExpr inner).on spot = .done value spot.next := by
  have peeked : peek.on spot = .done (.keyword .DUPLICATE) spot := word ▸ on_peek spot
  have lawful : (keywordExpr inner .DUPLICATE).Lawful := inferInstance
  have same : (primaryExpr inner).on spot = (keywordExpr inner .DUPLICATE).on spot :=
    @on_bind_done _ _ peek _ _ _ spot spot peeked lawful
  have bare : keywordExpr inner .DUPLICATE = nameExpr inner := rfl
  rw [same, bare]
  exact nameExpr_duplicate word key

/-- At every nesting limit. -/
theorem innerAt_namesDuplicate (levels : Nat) : (innerAt levels).NamesDuplicate := by
  intro spot word key
  cases levels with
  | zero =>
      left
      rw [InnerRules.expr, operand_zero, on_tooDeep]
  | succ levels =>
      right
      obtain ⟨value, read⟩ := @primaryExpr_duplicate spot (innerAt levels) _ word key
      have nothing : (extendOperand (innerAt levels) 0 value).on spot.next = .done none spot.next := by
        rw [on_extendOperand]
        unfold Spot.continuation?
        rw [key]
        rfl
      refine ⟨value, ?_⟩
      rw [InnerRules.expr, operand_succ, on_enter, operandBody, on_bind, read, Outcome.bind_done,
        on_whileSome, nothing]
      rfl

/-- A query in front of `ON DUPLICATE KEY`. -/
theorem query_composes {levels : Nat} (below : levels ≤ origin.settings.maxDepth)
    (beside : tails.Beside origin spot place) :
    (innerAt levels).query.Composes (fun query => query.isOpen = true) tails origin spot place := by
  cases levels with
  | zero =>
      intro query later outcome
      rw [query_zero, on_tooDeep] at outcome
      cases outcome
  | succ levels =>
      have steady := innerAt_steady (Nat.le_of_succ_le below)
      rw [query_succ]
      exact .enter (wholeQuery_composes (innerAt_namesDuplicate levels) (innerAt_shaped levels) beside)

end Rule

end SqlDml
