import SqlDml.Proofs.Rules.Repeat
import SqlDml.Traversal.Visit

/-!
Contract: the parameter markers that rules number, in the order of the tree.

Owns:
- the trace of a tree: the numbers of its markers, and whether a limit holds two in reverse order;
- traces that are numbered without a gap, in order exactly if no limit reverses two;
- rules whose values have numbered traces, and how such rules are put together.

Does not own: the rules of the language.
-/

namespace SqlDml

/-- Whether both numbers of a limit are markers, and the offset was numbered first. -/
def LimitClause.reversesMarkers (limit : LimitClause) : Bool :=
  match limit.count, limit.offset with
  | .placeholder count _, some (.placeholder offset _) => offset < count
  | _, _ => false

namespace Visit

/-- The number of a parameter marker. -/
def marker? : Visit → Option Nat
  | .expr (.placeholder index _) => some index
  | _ => none

/-- Whether a query has a limit that holds two markers in reverse order. -/
def reversesMarkers : Visit → Bool
  | .query tree => tree.limit.any LimitClause.reversesMarkers
  | _ => false

end Visit

/-- The parameter markers of a tree. -/
@[ext] structure MarkerTrace where
  /-- The numbers of the markers, in the order of canonical text. -/
  numbers : List Nat
  /-- Whether some limit holds two markers in reverse order. -/
  reversed : Bool
deriving DecidableEq

namespace MarkerTrace

/-- No markers. -/
def none : MarkerTrace := ⟨[], false⟩

/-- The markers of one tree and of another one behind it. -/
def append (left right : MarkerTrace) : MarkerTrace :=
  ⟨left.numbers ++ right.numbers, left.reversed || right.reversed⟩

instance : Append MarkerTrace := ⟨append⟩

@[simp] theorem append_numbers (left right : MarkerTrace) :
    (left ++ right).numbers = left.numbers ++ right.numbers := rfl

@[simp] theorem append_reversed (left right : MarkerTrace) :
    (left ++ right).reversed = (left.reversed || right.reversed) := rfl

@[simp] theorem none_append (trace : MarkerTrace) : none ++ trace = trace := by
  ext1 <;> simp [none]

@[simp] theorem append_none (trace : MarkerTrace) : trace ++ none = trace := by
  ext1 <;> simp [none]

theorem append_assoc (first second third : MarkerTrace) :
    first ++ second ++ third = first ++ (second ++ third) := by
  ext1 <;> simp [Bool.or_assoc]

/-- The markers among the stops of a walk. -/
def ofVisits (visits : List Visit) : MarkerTrace :=
  ⟨visits.filterMap Visit.marker?, visits.any Visit.reversesMarkers⟩

@[simp] theorem ofVisits_nil : ofVisits [] = none := rfl

@[simp] theorem ofVisits_append (left right : List Visit) :
    ofVisits (left ++ right) = ofVisits left ++ ofVisits right := by
  ext1 <;> simp [ofVisits]

/-- Numbered from `first` up to but not including `last`, and in order exactly if no limit reverses
two markers. -/
structure Numbered (trace : MarkerTrace) (first last : Nat) : Prop where
  count : last = first + trace.numbers.length
  ordered : trace.reversed = false ↔ trace.numbers = List.range' first trace.numbers.length

namespace Numbered

theorem none (first : Nat) : MarkerTrace.none.Numbered first first :=
  ⟨rfl, by simp [MarkerTrace.none]⟩

theorem append {left right : MarkerTrace} {first middle last : Nat}
    (front : left.Numbered first middle) (back : right.Numbered middle last) :
    (left ++ right).Numbered first last := by
  have lengths := front.count
  refine ⟨?_, ?_⟩
  · have more := back.count
    rw [append_numbers, List.length_append]
    omega
  · have split : List.range' first (left.numbers ++ right.numbers).length =
        List.range' first left.numbers.length ++ List.range' middle right.numbers.length := by
      rw [List.length_append, lengths, ← List.range'_append, Nat.one_mul]
    rw [append_reversed, append_numbers, split, Bool.or_eq_false_iff, front.ordered, back.ordered]
    constructor
    · rintro ⟨same, alike⟩
      rw [← same, ← alike]
    · intro both
      exact List.append_inj both (by simp)

end Numbered

/-- The markers of trees that stand one behind the other. -/
def joined : List MarkerTrace → MarkerTrace
  | [] => none
  | trace :: traces => trace ++ joined traces

end MarkerTrace

namespace Rule

variable {α β σ : Type}

/-- A rule that numbers no markers. -/
class Keeps (rule : Rule α) : Prop extends rule.Lawful where
  markers : ∀ (spot later : Spot) (value : α), rule.on spot = .done value later →
    later.markers = spot.markers

/-- A rule that completes the markers of a tree whose front part is read already. -/
structure Traces (rule : Rule α) (before : MarkerTrace) (trace : α → MarkerTrace) : Prop where
  lawful : rule.Lawful
  numbered : ∀ (spot later : Spot) (value : α), rule.on spot = .done value later →
    ∃ added : MarkerTrace, trace value = before ++ added ∧
      added.Numbered spot.markers later.markers

/-! ### Rules without markers -/

instance (value : α) : (pure value : Rule α).Keeps where
  markers spot later read outcome := by
    rw [on_pure] at outcome
    cases outcome
    rfl

instance (rule : Rule α) (next : α → Rule β) [rule.Keeps] [∀ value, (next value).Keeps] :
    (rule >>= next).Keeps where
  markers spot later value outcome := by
    rw [on_bind] at outcome
    obtain ⟨first, middle, read, rest⟩ := Outcome.bind_eq_done.mp outcome
    rw [Keeps.markers middle later value rest, Keeps.markers spot middle first read]

theorem keeps_bind {rule : Rule α} {next : α → Rule β} [rule.Keeps]
    (continued : ∀ value, (next value).Keeps) : (rule >>= next).Keeps := inferInstance

instance (change : α → β) (rule : Rule α) [rule.Keeps] : (change <$> rule).Keeps := by
  rw [map_eq_bind]
  infer_instance

instance (condition : Prop) [Decidable condition] (left right : Rule α) [left.Keeps]
    [right.Keeps] : (if condition then left else right).Keeps := by
  split <;> infer_instance

instance (ahead : Nat) : (peekToken ahead).Keeps where
  markers spot later value outcome := by
    rw [on_peekToken] at outcome
    cases outcome
    rfl

instance : advance.Keeps where
  markers spot later value outcome := by
    rw [on_advance] at outcome
    cases outcome
    rfl

instance : previousSpan.Keeps where
  markers spot later value outcome := by
    rw [on_previousSpan] at outcome
    cases outcome
    rfl

instance (expected : List String) : (fail expected : Rule α).Keeps where
  markers spot later value outcome := by
    rw [on_fail] at outcome
    cases outcome

/-- A repetition of steps without markers has none. -/
theorem keeps_whileSome (step : σ → Rule (Option σ)) [∀ value, (step value).Keeps]
    [∀ value, (step value).Shortens] (first : σ) : (whileSome step first).Keeps where
  markers spot later value outcome := by
    have repeats := on_whileSome_eq_done.mp outcome
    clear outcome
    induction repeats with
    | stop nothing => exact Keeps.markers _ _ _ nothing
    | more some _ inductionHypothesis => rw [inductionHypothesis, Keeps.markers _ _ _ some]

instance (item : Rule α) [item.Keeps] : (commaSeparated item).Keeps where
  markers spot later values outcome := by
    obtain ⟨value, middle, others, read, rest, rfl⟩ := on_commaSeparated_eq_done.mp outcome
    rw [← Keeps.markers _ _ _ read]
    clear outcome read
    induction rest with
    | stop => rfl
    | more _ read _ inductionHypothesis => rw [inductionHypothesis, Keeps.markers _ _ _ read]; rfl

/-! ### Rules with markers -/

namespace Traces

variable {before : MarkerTrace} {part : α → MarkerTrace} {whole : β → MarkerTrace}

theorem pure {value : α} (complete : part value = before) :
    (Pure.pure value : Rule α).Traces before part where
  lawful := inferInstance
  numbered spot later read outcome := by
    rw [on_pure] at outcome
    cases outcome
    exact ⟨.none, by rw [complete, MarkerTrace.append_none], .none _⟩

theorem bind {rule : Rule α} {next : α → Rule β} (first : rule.Traces .none part)
    (rest : ∀ value, (next value).Traces (before ++ part value) whole) :
    (rule >>= next).Traces before whole where
  lawful :=
    have := first.lawful
    have := fun value => (rest value).lawful
    inferInstance
  numbered spot later value outcome := by
    have := first.lawful
    have := fun value => (rest value).lawful
    rw [on_bind] at outcome
    obtain ⟨read, middle, firstOutcome, restOutcome⟩ := Outcome.bind_eq_done.mp outcome
    obtain ⟨front, same, frontNumbered⟩ := first.numbered _ _ _ firstOutcome
    obtain ⟨back, complete, backNumbered⟩ := (rest read).numbered _ _ _ restOutcome
    rw [MarkerTrace.none_append] at same
    exact ⟨front ++ back, by rw [complete, same, MarkerTrace.append_assoc],
      frontNumbered.append backNumbered⟩

/-- Putting the tree into another one that has the same markers. -/
theorem bind_map {rule : Rule α} {change : α → β} (first : rule.Traces before part)
    (same : ∀ value, whole (change value) = part value := by intro value; rfl) :
    (rule >>= fun value => Pure.pure (change value)).Traces before whole where
  lawful :=
    have := first.lawful
    inferInstance
  numbered spot later value outcome := by
    have := first.lawful
    rw [on_bind] at outcome
    obtain ⟨read, middle, firstOutcome, finished⟩ := Outcome.bind_eq_done.mp outcome
    rw [on_pure] at finished
    cases finished
    rw [same]
    exact first.numbered _ _ _ firstOutcome

/-- Going on behind a rule without markers. -/
theorem skip {rule : Rule α} {next : α → Rule β} [rule.Keeps]
    (rest : ∀ value, (next value).Traces before whole) : (rule >>= next).Traces before whole where
  lawful :=
    have := fun value => (rest value).lawful
    inferInstance
  numbered spot later value outcome := by
    have := fun value => (rest value).lawful
    rw [on_bind] at outcome
    obtain ⟨read, middle, firstOutcome, restOutcome⟩ := Outcome.bind_eq_done.mp outcome
    rw [← Keeps.markers _ _ _ firstOutcome]
    exact (rest read).numbered _ _ _ restOutcome

theorem ite {condition : Prop} [Decidable condition] {left right : Rule α}
    (holds : left.Traces before part) (fails : right.Traces before part) :
    (if condition then left else right).Traces before part := by
  split
  · exact holds
  · exact fails

theorem fail {expected : List String} : (Rule.fail expected : Rule α).Traces before part where
  lawful := inferInstance
  numbered spot later value outcome := by
    rw [on_fail] at outcome
    cases outcome

/-- A failed attempt numbers no markers. -/
theorem attempt {rule : Rule α} (tries : rule.Traces .none part) :
    (Rule.attempt rule).Traces .none fun found => (found.map part).getD .none where
  lawful :=
    have := tries.lawful
    inferInstance
  numbered spot later found outcome := by
    have := tries.lawful
    rw [on_attempt] at outcome
    cases read : rule.on spot with
    | done value reached =>
        rw [read] at outcome
        cases outcome
        exact tries.numbered _ _ _ read
    | stuck =>
        rw [read] at outcome
        cases outcome
        exact ⟨.none, rfl, .none _⟩
    | deep =>
        rw [read] at outcome
        cases outcome

theorem whileSome {step : σ → Rule (Option σ)} {trace : σ → MarkerTrace}
    [∀ value, (step value).Shortens]
    (steps : ∀ value, (step value).Traces (trace value) fun found => trace (found.getD value))
    (first : σ) : (Rule.whileSome step first).Traces (trace first) trace where
  lawful :=
    have := fun value => (steps value).lawful
    inferInstance
  numbered spot later last outcome := by
    have := fun value => (steps value).lawful
    have repeats := on_whileSome_eq_done.mp outcome
    clear outcome
    induction repeats with
    | stop nothing => exact (steps _).numbered _ _ _ nothing
    | more some _ inductionHypothesis =>
        obtain ⟨front, same, frontNumbered⟩ := (steps _).numbered _ _ _ some
        obtain ⟨back, complete, backNumbered⟩ := inductionHypothesis
        rw [Option.getD_some] at same
        exact ⟨front ++ back, by rw [complete, same, MarkerTrace.append_assoc],
          frontNumbered.append backNumbered⟩

theorem commaSeparated {item : Rule α} (items : item.Traces .none part) :
    (Rule.commaSeparated item).Traces .none fun values => .joined (values.map part) where
  lawful :=
    have := items.lawful
    inferInstance
  numbered spot later values outcome := by
    have := items.lawful
    obtain ⟨value, middle, others, read, rest, rfl⟩ := on_commaSeparated_eq_done.mp outcome
    have behind : (MarkerTrace.joined (others.map part)).Numbered middle.markers later.markers := by
      clear outcome read
      induction rest with
      | stop => exact .none _
      | more _ read _ inductionHypothesis =>
          obtain ⟨next, nextSame, nextNumbered⟩ := items.numbered _ _ _ read
          rw [MarkerTrace.none_append] at nextSame
          rw [List.map_cons, MarkerTrace.joined, nextSame]
          exact nextNumbered.append inductionHypothesis
    obtain ⟨front, same, frontNumbered⟩ := items.numbered _ _ _ read
    rw [MarkerTrace.none_append] at same
    exact ⟨front ++ .joined (others.map part),
      by rw [List.map_cons, MarkerTrace.joined, same, MarkerTrace.none_append],
      frontNumbered.append behind⟩

theorem nextPlaceholder : Rule.nextPlaceholder.Traces .none fun number => ⟨[number], false⟩ where
  lawful := inferInstance
  numbered spot later number outcome := by
    rw [on_nextPlaceholder] at outcome
    cases outcome
    exact ⟨_, (MarkerTrace.none_append _).symm, rfl, by simp⟩

end Traces

end Rule

end SqlDml
