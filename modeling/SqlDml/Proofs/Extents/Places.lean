import SqlDml.Proofs.Extents.Placed

/-!
Contract: rules whose trees lie over the tokens that they consume.

Owns:
- rules that read several trees, one tree, or none;
- how such rules are put together.

Does not own: the rules of the language.
-/

namespace SqlDml

namespace Rule

variable {α β σ : Type}

/-- The trees that a rule reads lie over the tokens that it consumes. -/
def Places (rule : Rule α) (origin : Spot) (parts : α → List Part) : Prop :=
  ∀ spot, origin.Reaches spot →
    rule.Ensures spot fun value later => Placed origin none (parts value) spot 0 later

/-- The tree that a rule reads covers the tokens that it consumes, parentheses around it apart. -/
def Makes (rule : Rule α) (origin : Spot) (part : α → Part) : Prop :=
  ∀ spot, origin.Reaches spot →
    rule.Ensures spot fun value later => Made origin (part value) spot later

/-- A rule that reads no trees, and closes the parentheses that it opens. -/
class Passes (rule : Rule α) : Prop where
  passes : ∀ origin, rule.Places origin fun _ => []

theorem Makes.places {rule : Rule α} {origin : Spot} {part : α → Part}
    (makes : rule.Makes origin part) : rule.Places origin fun value => [part value] :=
  fun spot reaches => (makes spot reaches).mono fun _ _ made => made.placed

/-! ### Rules that read no trees -/

instance (value : α) : (pure value : Rule α).Passes :=
  ⟨fun _ _ reaches => .pure (.nothing reaches)⟩

instance (expected : List String) : (fail expected : Rule α).Passes := ⟨fun _ _ _ => .fail⟩

instance (rule : Rule α) (next : α → Rule β) [first : rule.Passes]
    [rest : ∀ value, (next value).Passes] : (rule >>= next).Passes where
  passes origin spot reaches := by
    refine (first.passes origin spot reaches).bind fun value middle front => ?_
    exact ((rest value).passes origin middle front.reaches_spot).mono fun _ _ back =>
      front.append back

instance (change : α → β) (rule : Rule α) [rule.Passes] : (change <$> rule).Passes := by
  rw [map_eq_bind]
  infer_instance

instance (condition : Prop) [Decidable condition] (left right : Rule α) [left.Passes]
    [right.Passes] : (if condition then left else right).Passes := by
  split <;> infer_instance

theorem passes_bind {rule : Rule α} {next : α → Rule β} [rule.Passes]
    (rest : ∀ value, (next value).Passes) : (rule >>= next).Passes := inferInstance

/-- A rule that stays where it is. -/
theorem passes_of_stays {rule : Rule α} [rule.Lawful]
    (stays : ∀ spot later value, rule.on spot = .done value later → later = spot) :
    rule.Passes := by
  refine ⟨fun origin spot reaches => .of_on fun value later outcome => ?_⟩
  rw [stays spot later value outcome]
  exact .nothing reaches

instance (ahead : Nat) : (peekToken ahead).Passes :=
  passes_of_stays fun spot later value outcome => by
    rw [on_peekToken] at outcome
    cases outcome
    rfl

instance : previousSpan.Passes :=
  passes_of_stays fun spot later value outcome => by
    rw [on_previousSpan] at outcome
    cases outcome
    rfl

instance (ahead : Nat) : (peekAhead ahead).Passes := by
  unfold peekAhead
  infer_instance

instance : peek.Passes := by
  unfold peek
  infer_instance

instance : currentSpan.Passes := by
  unfold currentSpan
  infer_instance

instance (kind : TokenKind) : (nextIs kind).Passes := by
  unfold nextIs
  infer_instance

instance (ahead : Nat) (kind : TokenKind) : (aheadIs ahead kind).Passes := by
  unfold aheadIs
  infer_instance

instance (kind : TokenKind) [kind.Flat] : (eat kind).Passes := by
  refine ⟨fun origin spot reaches => .of_on fun value later outcome => ?_⟩
  rw [on_eat] at outcome
  split at outcome
  · next found =>
      cases outcome
      exact (Placed.nothing reaches).past (spot.flat_of_kind found)
  · cases outcome
    exact .nothing reaches

instance (kind : TokenKind) [kind.Flat] : (expect kind).Passes := by
  refine ⟨fun origin spot reaches => .of_on fun value later outcome => ?_⟩
  rw [on_expect] at outcome
  split at outcome
  · next found =>
      cases outcome
      exact (Placed.nothing reaches).past (spot.flat_of_kind found)
  · cases outcome

instance (word : Keyword) : (nextIsWord word).Passes := inferInstanceAs (nextIs _).Passes

instance (word : Keyword) : (eatWord word).Passes := inferInstanceAs (eat _).Passes

instance (word : Keyword) : (expectWord word).Passes := inferInstanceAs (expect _).Passes

instance (mark : Punct) : (nextIsMark mark).Passes := inferInstanceAs (nextIs _).Passes

instance (mark : Punct) [(TokenKind.punct mark).Flat] : (eatMark mark).Passes :=
  inferInstanceAs (eat _).Passes

instance (mark : Punct) [(TokenKind.punct mark).Flat] : (expectMark mark).Passes :=
  inferInstanceAs (expect _).Passes

theorem passes_whileSome (step : σ → Rule (Option σ)) [∀ value, (step value).Lawful]
    [∀ value, (step value).Shortens] [steps : ∀ value, (step value).Passes] (first : σ) :
    (whileSome step first).Passes := by
  refine ⟨fun origin start reaches => ?_⟩
  have begins : (fun (_ : σ) later => Placed origin none [] start 0 later) first start :=
    .nothing reaches
  refine .whileSome begins fun value spot placed => ?_
  exact ((steps value).passes origin spot placed.reaches_spot).mono fun _ _ behind =>
    placed.append behind

/-! ### Going on behind what is placed -/

namespace Ensures

variable {origin start spot : Spot} {begun : Option Span} {before : List Part} {depth : Nat}
  {post : β → Spot → Prop}

/-- Placing more trees. -/
theorem placing {rule : Rule α} {next : α → Rule β} {parts : α → List Part}
    (placed : Placed origin begun before start depth spot) (first : rule.Places origin parts)
    (rest : ∀ value later, Placed origin begun (before ++ parts value) start depth later →
      (next value).Ensures later post) : (rule >>= next).Ensures spot post :=
  (first spot placed.reaches_spot).bind fun value later more => rest value later (placed.append more)

/-- Placing one more tree, which is at hand as the last one. -/
theorem making {rule : Rule α} {next : α → Rule β} {part : α → Part}
    (placed : Placed origin begun before start depth spot) (first : rule.Makes origin part)
    (rest : ∀ value later, Placed origin begun (before ++ [part value]) start depth later →
      Made origin (part value) spot later → (next value).Ensures later post) :
    (rule >>= next).Ensures spot post :=
  (first spot placed.reaches_spot).bind fun value later made =>
    rest value later (placed.append made.placed) made

/-- Passing over tokens that no tree stands for. -/
theorem passing {rule : Rule α} {next : α → Rule β} [passes : rule.Passes]
    (placed : Placed origin begun before start depth spot)
    (rest : ∀ value later, Placed origin begun before start depth later →
      (next value).Ensures later post) : (rule >>= next).Ensures spot post :=
  (passes.passes origin spot placed.reaches_spot).bind fun value later behind => by
    have more := placed.append behind
    rw [List.append_nil] at more
    exact rest value later more

/-- Taking one token that is no parenthesis. -/
theorem taking {next : Token → Rule β} (placed : Placed origin begun before start depth spot)
    (flat : spot.kind.Flat)
    (rest : Placed origin begun before start depth spot.next →
      (next (spot.token 0)).Ensures spot.next post) : (Rule.advance >>= next).Ensures spot post :=
  .step (on_advance spot) (rest (placed.past flat))

/-- Requiring a token. -/
theorem expecting {kind : TokenKind} {next : Span → Rule β} (inner : kind ≠ .endOfInput)
    (rest : spot.kind = kind → (next spot.next.last).Ensures spot.next post) :
    (Rule.expect kind >>= next).Ensures spot post := by
  have taken : (Rule.expect kind).Ensures spot fun span later =>
      spot.kind = kind ∧ later = spot.next ∧ span = spot.next.last := by
    refine .of_on fun span later outcome => ?_
    rw [on_expect] at outcome
    split at outcome
    · next found =>
        cases outcome
        exact ⟨found, rfl, (Spot.next_last_of_inner (found ▸ inner)).symm⟩
    · cases outcome
  refine taken.bind fun span later facts => ?_
  obtain ⟨found, rfl, rfl⟩ := facts
  exact rest found

/-- Requiring one token that is no parenthesis. -/
theorem requiring {kind : TokenKind} [flat : kind.Flat] {next : Span → Rule β}
    (placed : Placed origin begun before start depth spot)
    (rest : Placed origin begun before start depth spot.next →
      (next spot.next.last).Ensures spot.next post) : (Rule.expect kind >>= next).Ensures spot
      post :=
  .expecting flat.inner fun found => rest (placed.past (spot.flat_of_kind found))

/-- Requiring an opening parenthesis. -/
theorem opening {next : Span → Rule β} (placed : Placed origin begun before start depth spot)
    (rest : spot.kind = .punct .leftParen →
      Placed origin begun before start (depth + 1) spot.next →
      (next spot.next.last).Ensures spot.next post) :
    (Rule.expectMark .leftParen >>= next).Ensures spot post :=
  .expecting (by decide) fun found => rest found (placed.opened found)

/-- Requiring the parenthesis that closes the one that was opened last. -/
theorem closing {next : Span → Rule β} (placed : Placed origin begun before start (depth + 1) spot)
    (rest : spot.kind = .punct .rightParen → Placed origin begun before start depth spot.next →
      (next spot.next.last).Ensures spot.next post) :
    (Rule.expectMark .rightParen >>= next).Ensures spot post :=
  .expecting (by decide) fun found => rest found (placed.closed found)

/-- Beginning a span with a token. -/
theorem beginning {kind : TokenKind} [flat : kind.Flat] {next : Span → Rule β}
    (reaches : origin.Reaches spot)
    (rest : Placed origin (some (spot.token 0).span) [] spot 0 spot.next →
      (next (spot.token 0).span).Ensures spot.next post) :
    (Rule.expect kind >>= next).Ensures spot post := by
  refine .expecting flat.inner fun found => ?_
  have same := spot.flat_of_kind found
  rw [Spot.next_last_of_inner same.inner]
  exact rest (((Placed.nothing reaches).past same).begin (Spot.ahead_ne_next same.inner))

/-- Beginning a span with a token that is no parenthesis. -/
theorem beginningWith {next : Token → Rule β} (reaches : origin.Reaches spot)
    (flat : spot.kind.Flat)
    (rest : Placed origin (some (spot.token 0).span) [] spot 0 spot.next →
      (next (spot.token 0)).Ensures spot.next post) : (Rule.advance >>= next).Ensures spot post :=
  .taking (.nothing reaches) flat fun placed =>
    rest (placed.begin (Spot.ahead_ne_next flat.inner))

/-- Beginning a span with a parenthesis. -/
theorem beginningParens {next : Span → Rule β} (reaches : origin.Reaches spot)
    (rest : spot.kind = .punct .leftParen →
      Placed origin (some (spot.token 0).span) [] spot 1 spot.next →
      (next (spot.token 0).span).Ensures spot.next post) :
    (Rule.expectMark .leftParen >>= next).Ensures spot post := by
  refine .opening (.nothing reaches) fun found placed => ?_
  have inner : spot.kind ≠ .endOfInput := by simp [found]
  rw [Spot.next_last_of_inner inner]
  exact rest found (placed.begin (Spot.ahead_ne_next inner))

end Ensures

/-! ### Rules put together -/

namespace Places

variable {origin : Spot} {parts : α → List Part}

theorem congr {rule : Rule α} {others : α → List Part} (places : rule.Places origin parts)
    (same : ∀ value, parts value = others value) : rule.Places origin others :=
  (funext same : parts = others) ▸ places

theorem whileSome {step : σ → Rule (Option σ)} [∀ value, (step value).Lawful]
    [∀ value, (step value).Shortens] {parts : σ → List Part} {first : σ} (empty : parts first = [])
    (steps : ∀ value start spot, Placed origin none (parts value) start 0 spot →
      (step value).Ensures spot fun found later =>
        Placed origin none (parts (found.getD value)) start 0 later) :
    (Rule.whileSome step first).Places origin parts := by
  intro start reaches
  have begins : Placed origin none (parts first) start 0 start := empty ▸ .nothing reaches
  exact .whileSome begins fun value spot placed => steps value start spot placed

/-- Items with commas between them, one behind the other. -/
theorem commaSeparated {item : Rule α} [item.Lawful] (items : item.Places origin parts) :
    (Rule.commaSeparated item).Places origin fun values => values.flatMap parts := by
  intro start reaches
  refine .of_on fun values later outcome => ?_
  obtain ⟨value, middle, others, read, rest, rfl⟩ := on_commaSeparated_eq_done.mp outcome
  have first := (items start reaches).on read
  have middleReaches := first.reaches_spot
  have behind : Placed origin none (others.flatMap parts) middle 0 later := by
    clear outcome read first
    induction rest with
    | stop => exact .nothing middleReaches
    | @more spot after last value values comma read _ inductionHypothesis =>
        have past := (Placed.nothing middleReaches).past (spot.flat_of_kind comma)
        have front := (items spot.next past.reaches_spot).on read
        exact (past.append front).append (inductionHypothesis front.reaches_spot)
  exact first.append behind

end Places

theorem Makes.commaSeparated {item : Rule α} [item.Lawful] {origin : Spot} {part : α → Part}
    (items : item.Makes origin part) :
    (Rule.commaSeparated item).Places origin fun values => values.map part :=
  items.places.commaSeparated.congr fun _ => (List.map_eq_flatMap ..).symm

end Rule

end SqlDml
