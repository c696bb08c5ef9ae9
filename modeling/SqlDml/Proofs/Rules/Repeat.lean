import SqlDml.Proofs.Rules.Lawful

/-!
Contract: the outcomes of the rules that every part of the grammar uses.

Owns:
- looking at, taking and requiring a token of a given kind;
- lawful rules never go back, and keep the settings, the source and its end;
- repetition: with room for every token that is left it goes on until a step gives nothing more.

Does not own: the rules of the language.
-/

namespace SqlDml

/-- A spot behind another one in the same source. -/
structure Spot.Leads (spot later : Spot) : Prop where
  settings : later.settings = spot.settings
  source : later.source = spot.source
  stop : later.stop = spot.stop
  ahead : later.ahead <:+ spot.ahead

theorem TokenStream.Leads.ahead_suffix {stream later : TokenStream} (leads : stream.Leads later)
    (sound : stream.Sound) (laterSound : later.Sound) : later.ahead <:+ stream.ahead := by
  have before := sound.drop_cursor
  have after := laterSound.drop_cursor
  rw [leads.whole, TokenStream.stop_eq_of_whole leads.whole] at after
  have dropped : later.ahead ++ [stream.stop] <:+ stream.ahead ++ [stream.stop] := by
    rw [← before, ← after, ← Nat.sub_add_cancel leads.cursor, Nat.add_comm, ← List.drop_drop]
    exact List.drop_suffix _ _
  obtain ⟨front, split⟩ := dropped
  rw [← List.append_assoc] at split
  exact ⟨front, List.append_cancel_right split⟩

theorem ParserState.Leads.spot {state later : ParserState} (leads : state.Leads later)
    (ready : state.Ready) : state.spot.Leads later.spot where
  settings := leads.settings
  source := leads.source
  stop := by
    rw [spot_stop leads.ready, spot_stop ready]
    exact TokenStream.stop_eq_of_whole leads.stream.whole
  ahead := leads.stream.ahead_suffix ready.sound leads.ready.sound

namespace Spot.Leads

theorem refl (spot : Spot) : spot.Leads spot := ⟨rfl, rfl, rfl, List.suffix_rfl⟩

theorem trans {first second third : Spot} (left : first.Leads second)
    (right : second.Leads third) : first.Leads third :=
  ⟨right.settings.trans left.settings, right.source.trans left.source,
    right.stop.trans left.stop, right.ahead.trans left.ahead⟩

theorem length_le {spot later : Spot} (leads : spot.Leads later) :
    later.ahead.length ≤ spot.ahead.length := leads.ahead.length_le

theorem next (spot : Spot) : spot.Leads spot.next := ⟨rfl, rfl, rfl, List.tail_suffix _⟩

end Spot.Leads

namespace Spot

theorem kind_eq_of_ahead {spot : Spot} {token : Token} {rest : List Token}
    (split : spot.ahead = token :: rest) : spot.kind = token.kind := by
  simp [kind, Spot.token, split]

theorem kind_of_ahead_nil {spot : Spot} (ended : spot.ahead = []) : spot.kind = .endOfInput := by
  simp [kind, Spot.token, ended, spot.ended]

/-- A token that is not the end of input is consumed. -/
theorem ahead_of_inner {spot : Spot} (inner : spot.kind ≠ .endOfInput) :
    spot.ahead = spot.token 0 :: spot.next.ahead := by
  cases ahead : spot.ahead with
  | nil => exact absurd (kind_of_ahead_nil ahead) inner
  | cons token rest => simp [Spot.token, ahead]

/-- The tokens consumed in one step: none at the end of input. -/
theorem ahead_next (spot : Spot) :
    ∃ tokens, spot.ahead = tokens ++ spot.next.ahead ∧ (tokens = [] ∨ tokens = [spot.token 0]) := by
  by_cases ended : spot.kind = .endOfInput
  · refine ⟨[], ?_, .inl rfl⟩
    cases ahead : spot.ahead with
    | nil => simp [ahead]
    | cons token rest =>
        have kind : spot.kind = token.kind := kind_eq_of_ahead ahead
        have member : token ∈ spot.ahead := ahead ▸ List.mem_cons_self
        exact absurd (kind ▸ ended) (spot.inner token member)
  · exact ⟨[spot.token 0], ahead_of_inner ended, .inr rfl⟩

/-- Behind a token that is not the end of input fewer tokens are left. -/
theorem length_next_lt {spot : Spot} (inner : spot.kind ≠ .endOfInput) :
    spot.next.ahead.length < spot.ahead.length := by
  cases split : spot.ahead with
  | nil => exact absurd (kind_of_ahead_nil split) inner
  | cons token rest => simp [split]

end Spot

namespace Rule

variable {α β σ : Type}

theorem leads_of_on {rule : Rule α} [rule.Lawful] {spot later : Spot} {value : α}
    (outcome : rule.on spot = .done value later) : spot.Leads later := by
  have agrees := rule.agrees_on spot.state spot.state_ready
  rw [Spot.state_spot, outcome] at agrees
  obtain ⟨state, _, leads, rfl⟩ := agrees
  simpa using leads.spot spot.state_ready

/-! ### One token -/

instance (ahead : Nat) : (peekAhead ahead).Lawful := by
  unfold peekAhead
  infer_instance

instance : peek.Lawful := by
  unfold peek
  infer_instance

instance : currentSpan.Lawful := by
  unfold currentSpan
  infer_instance

instance (kind : TokenKind) : (nextIs kind).Lawful := by
  unfold nextIs
  infer_instance

instance (ahead : Nat) (kind : TokenKind) : (aheadIs ahead kind).Lawful := by
  unfold aheadIs
  infer_instance

instance (kind : TokenKind) : (eat kind).Lawful := by
  unfold eat
  infer_instance

instance (kind : TokenKind) : (expect kind).Lawful := by
  unfold expect
  infer_instance

instance (word : Keyword) : (nextIsWord word).Lawful := by
  unfold nextIsWord
  infer_instance

instance (word : Keyword) : (eatWord word).Lawful := by
  unfold eatWord
  infer_instance

instance (word : Keyword) : (expectWord word).Lawful := by
  unfold expectWord
  infer_instance

instance (mark : Punct) : (nextIsMark mark).Lawful := by
  unfold nextIsMark
  infer_instance

instance (mark : Punct) : (eatMark mark).Lawful := by
  unfold eatMark
  infer_instance

instance (mark : Punct) : (expectMark mark).Lawful := by
  unfold expectMark
  infer_instance

variable (spot : Spot)

@[simp] theorem on_peekAhead (ahead : Nat) :
    (peekAhead ahead).on spot = .done (spot.token ahead).kind spot := by
  simp [peekAhead]

@[simp] theorem on_peek : peek.on spot = .done spot.kind spot := by
  simp [peek, Spot.kind]

@[simp] theorem on_currentSpan : currentSpan.on spot = .done (spot.token 0).span spot := by
  simp [currentSpan]

@[simp] theorem on_nextIs (kind : TokenKind) :
    (nextIs kind).on spot = .done (decide (spot.kind = kind)) spot := by
  simp [nextIs]
  rfl

@[simp] theorem on_aheadIs (ahead : Nat) (kind : TokenKind) :
    (aheadIs ahead kind).on spot = .done (decide ((spot.token ahead).kind = kind)) spot := by
  simp [aheadIs]
  rfl

@[simp] theorem on_eat (kind : TokenKind) :
    (eat kind).on spot = if spot.kind = kind then .done true spot.next else .done false spot := by
  simp [eat, on_ite]

@[simp] theorem on_expect (kind : TokenKind) :
    (expect kind).on spot =
      if spot.kind = kind then .done (spot.token 0).span spot.next else .stuck := by
  simp [expect, on_ite]

/-- A token that is there is taken. -/
theorem on_eat_found {spot : Spot} {kind : TokenKind} (found : spot.kind = kind) :
    (eat kind).on spot = .done true spot.next := by
  rw [on_eat, if_pos found]

theorem on_eat_missing {spot : Spot} {kind : TokenKind} (missing : spot.kind ≠ kind) :
    (eat kind).on spot = .done false spot := by
  rw [on_eat, if_neg missing]

/-- A token that is required and there is taken. -/
theorem on_expect_found {spot : Spot} {kind : TokenKind} (found : spot.kind = kind) :
    (expect kind).on spot = .done (spot.token 0).span spot.next := by
  rw [on_expect, if_pos found]

theorem on_expect_missing {spot : Spot} {kind : TokenKind} (missing : spot.kind ≠ kind) :
    (expect kind).on spot = .stuck := by
  rw [on_expect, if_neg missing]

@[simp] theorem on_nextIsWord (word : Keyword) :
    (nextIsWord word).on spot = .done (decide (spot.kind = .keyword word)) spot := on_nextIs _ _

@[simp] theorem on_eatWord (word : Keyword) :
    (eatWord word).on spot =
      if spot.kind = .keyword word then .done true spot.next else .done false spot := on_eat _ _

@[simp] theorem on_expectWord (word : Keyword) :
    (expectWord word).on spot =
      if spot.kind = .keyword word then .done (spot.token 0).span spot.next else .stuck :=
  on_expect _ _

@[simp] theorem on_nextIsMark (mark : Punct) :
    (nextIsMark mark).on spot = .done (decide (spot.kind = .punct mark)) spot := on_nextIs _ _

@[simp] theorem on_eatMark (mark : Punct) :
    (eatMark mark).on spot =
      if spot.kind = .punct mark then .done true spot.next else .done false spot := on_eat _ _

@[simp] theorem on_expectMark (mark : Punct) :
    (expectMark mark).on spot =
      if spot.kind = .punct mark then .done (spot.token 0).span spot.next else .stuck :=
  on_expect _ _

/-! ### Repetition -/

/-- A step that consumes a token whenever it gives something. -/
class Shortens (step : Rule (Option σ)) : Prop where
  shorter : ∀ (spot later : Spot) (value : σ), step.on spot = .done (some value) later →
    later.ahead.length < spot.ahead.length

instance (step : σ → Rule (Option σ)) [∀ value, (step value).Lawful] (fuel : Nat) (first : σ) :
    (iterate step fuel first).Lawful := by
  induction fuel generalizing first with
  | zero =>
      unfold iterate
      infer_instance
  | succ fuel inductionHypothesis =>
      unfold iterate
      have branch : ∀ found : Option σ, Lawful (match found with
          | some next => iterate step fuel next
          | none => pure first) := by
        intro found
        cases found with
        | none => exact inferInstanceAs (Lawful (pure first))
        | some next => exact inductionHypothesis next
      infer_instance

/-- What one more step of a repetition comes to. -/
theorem on_iterate_succ (step : σ → Rule (Option σ)) [∀ value, (step value).Lawful] (fuel : Nat)
    (first : σ) :
    (iterate step (fuel + 1) first).on spot =
      ((step first).on spot).bind fun found later =>
        match found with
        | some next => (iterate step fuel next).on later
        | none => .done first later := by
  have branch : ∀ found : Option σ, Lawful (match found with
      | some next => iterate step fuel next
      | none => pure first) := by
    intro found
    cases found <;> infer_instance
  rw [iterate, on_bind]
  congr 1
  funext found later
  cases found <;> simp

/-- With room for every token that is left, more room changes nothing. -/
theorem on_iterate_eq (step : σ → Rule (Option σ)) [∀ value, (step value).Lawful]
    [∀ value, (step value).Shortens] (fuel other : Nat) (first : σ) (spot : Spot)
    (room : spot.ahead.length < fuel) (otherRoom : spot.ahead.length < other) :
    (iterate step fuel first).on spot = (iterate step other first).on spot := by
  induction fuel generalizing other first spot with
  | zero => omega
  | succ fuel inductionHypothesis =>
      cases other with
      | zero => omega
      | succ other =>
          rw [on_iterate_succ, on_iterate_succ]
          cases outcome : (step first).on spot with
          | done found later =>
              cases found with
              | none => rfl
              | some next =>
                  have shorter := Shortens.shorter spot later next outcome
                  exact inductionHypothesis other next later (by omega) (by omega)
          | stuck => rfl
          | deep => rfl

/-- What a repetition comes to: it has room for every token that is left. -/
def repeated (step : σ → Rule (Option σ)) (first : σ) (spot : Spot) : Outcome σ :=
  (iterate step (spot.ahead.length + 1) first).on spot

theorem whileSome_agrees (step : σ → Rule (Option σ)) [∀ value, (step value).Lawful]
    [∀ value, (step value).Shortens] (first : σ) (state : ParserState) (ready : state.Ready) :
    (whileSome step first).Agrees state (repeated step first state.spot) := by
  have room := TokenStream.length_ahead_lt_tokensAhead ready.sound
  have agrees := (iterate step state.stream.tokensAhead first).agrees_on state ready
  rw [on_iterate_eq step _ (state.spot.ahead.length + 1) first state.spot room (by omega)] at agrees
  exact agrees

instance (step : σ → Rule (Option σ)) [∀ value, (step value).Lawful]
    [∀ value, (step value).Shortens] (first : σ) : (whileSome step first).Lawful :=
  (lawful_of (fun spot => repeated step first spot) (whileSome_agrees step first)).2

/-- A repetition goes on behind each step that gives something. -/
theorem on_whileSome (step : σ → Rule (Option σ)) [∀ value, (step value).Lawful]
    [∀ value, (step value).Shortens] (first : σ) :
    (whileSome step first).on spot =
      ((step first).on spot).bind fun found later =>
        match found with
        | some next => (whileSome step next).on later
        | none => .done first later := by
  have same := fun first => (lawful_of (fun spot => repeated step first spot)
    (whileSome_agrees step first)).1
  rw [same, repeated, on_iterate_succ]
  cases outcome : (step first).on spot with
  | done found later =>
      cases found with
      | none => rfl
      | some next =>
          have shorter := Shortens.shorter spot later next outcome
          dsimp only [Outcome.bind_done]
          rw [same, repeated]
          exact on_iterate_eq step _ _ next later shorter (by omega)
  | stuck => rfl
  | deep => rfl

/-- A repetition that goes from one value and spot to another. -/
inductive Repeats (step : σ → Rule (Option σ)) : σ → Spot → σ → Spot → Prop where
  | stop {value : σ} {spot later : Spot} (nothing : (step value).on spot = .done none later) :
      Repeats step value spot value later
  | more {value next last : σ} {spot middle later : Spot}
      (some : (step value).on spot = .done (some next) middle)
      (rest : Repeats step next middle last later) : Repeats step value spot last later

theorem on_whileSome_eq_done {step : σ → Rule (Option σ)} [∀ value, (step value).Lawful]
    [∀ value, (step value).Shortens] {first last : σ} {spot later : Spot} :
    (whileSome step first).on spot = .done last later ↔ Repeats step first spot last later := by
  constructor
  · -- by induction on the tokens that are left, which every step that gives something shortens
    generalize length : spot.ahead.length = count
    induction count using Nat.strongRecOn generalizing first spot with
    | ind count inductionHypothesis =>
        intro outcome
        rw [on_whileSome, Outcome.bind_eq_done] at outcome
        obtain ⟨found, middle, stepped, rest⟩ := outcome
        cases found with
        | none =>
            cases rest
            exact .stop stepped
        | some next =>
            have shorter := Shortens.shorter spot middle next stepped
            exact .more stepped (inductionHypothesis _ (length ▸ shorter) rfl rest)
  · intro repeats
    induction repeats with
    | stop nothing =>
        rw [on_whileSome, nothing]
        rfl
    | more some _ inductionHypothesis =>
        rw [on_whileSome, some]
        exact inductionHypothesis

/-- A repetition that ends as one of its steps ends, and goes on only behind a step that consumes a
token. -/
inductive Loops (step : σ → Rule (Option σ)) : σ → Spot → Outcome σ → Prop where
  | stop {value : σ} {spot later : Spot} (nothing : (step value).on spot = .done none later) :
      Loops step value spot (.done value later)
  | stuck {value : σ} {spot : Spot} (stuck : (step value).on spot = .stuck) :
      Loops step value spot .stuck
  | deep {value : σ} {spot : Spot} (deep : (step value).on spot = .deep) :
      Loops step value spot .deep
  | more {value next : σ} {spot middle : Spot} {outcome : Outcome σ}
      (some : (step value).on spot = .done (some next) middle)
      (shorter : middle.ahead.length < spot.ahead.length)
      (rest : Loops step next middle outcome) : Loops step value spot outcome

/-- No repetition is cut short: by induction on the tokens that are left it ends as a step ends. -/
theorem loops_whileSome (step : σ → Rule (Option σ)) [∀ value, (step value).Lawful]
    [∀ value, (step value).Shortens] (first : σ) (spot : Spot) :
    Loops step first spot ((whileSome step first).on spot) := by
  generalize length : spot.ahead.length = count
  induction count using Nat.strongRecOn generalizing first spot with
  | ind count inductionHypothesis =>
      rw [on_whileSome]
      cases stepped : (step first).on spot with
      | done found middle =>
          cases found with
          | none => exact .stop stepped
          | some next =>
              have shorter := Shortens.shorter spot middle next stepped
              exact .more stepped shorter (inductionHypothesis _ (length ▸ shorter) next middle rfl)
      | stuck => exact .stuck stepped
      | deep => exact .deep stepped

/-! ### Lists -/

/-- Items, each behind a comma, up to where no comma follows. -/
inductive Items (item : Rule α) : Spot → List α → Spot → Prop where
  | stop {spot : Spot} (noComma : spot.kind ≠ .punct .comma) : Items item spot [] spot
  | more {spot middle later : Spot} {value : α} {values : List α}
      (comma : spot.kind = .punct .comma) (read : item.on spot.next = .done value middle)
      (rest : Items item middle values later) : Items item spot (value :: values) later

/-- One more item of a list, with the items so far in reverse order. -/
def nextItem (item : Rule α) (items : List α) : Rule (Option (List α)) := do
  if ← eatMark .comma then
    return some ((← item) :: items)
  else
    return none

theorem commaSeparated_eq (item : Rule α) :
    commaSeparated item = do
      let first ← item
      let items ← whileSome (nextItem item) [first]
      return items.reverse := rfl

instance (item : Rule α) [item.Lawful] (items : List α) : (nextItem item items).Lawful := by
  unfold nextItem
  infer_instance

theorem on_nextItem (item : Rule α) [item.Lawful] (items : List α) :
    (nextItem item items).on spot =
      if spot.kind = .punct .comma then
        (item.on spot.next).bind fun value later => .done (some (value :: items)) later
      else .done none spot := by
  simp only [nextItem, on_bind, on_eatMark]
  split <;> simp

instance (item : Rule α) [item.Lawful] (items : List α) : (nextItem item items).Shortens where
  shorter spot later values outcome := by
    rw [on_nextItem] at outcome
    split at outcome
    · next comma =>
        obtain ⟨value, middle, read, finished⟩ := Outcome.bind_eq_done.mp outcome
        cases finished
        have leads := leads_of_on read
        have shorter : spot.next.ahead.length < spot.ahead.length :=
          Spot.length_next_lt (by simp [comma])
        exact Nat.lt_of_le_of_lt leads.length_le shorter
    · cases outcome

instance (item : Rule α) [item.Lawful] : (commaSeparated item).Lawful := by
  rw [commaSeparated_eq]
  infer_instance

theorem repeats_nextItem {item : Rule α} [item.Lawful] {items all : List α} {spot later : Spot} :
    Repeats (nextItem item) items spot all later ↔
      ∃ values, Items item spot values later ∧ all = values.reverse ++ items := by
  constructor
  · intro repeats
    induction repeats with
    | stop nothing =>
        rw [on_nextItem] at nothing
        split at nothing
        · next comma =>
            obtain ⟨value, middle, _, finished⟩ := Outcome.bind_eq_done.mp nothing
            cases finished
        · next noComma =>
            cases nothing
            exact ⟨[], .stop noComma, rfl⟩
    | more some _ inductionHypothesis =>
        rw [on_nextItem] at some
        split at some
        · next comma =>
            obtain ⟨value, middle, read, finished⟩ := Outcome.bind_eq_done.mp some
            cases finished
            obtain ⟨values, rest, rfl⟩ := inductionHypothesis
            exact ⟨value :: values, .more comma read rest, by simp⟩
        · cases some
  · rintro ⟨values, read, rfl⟩
    induction read generalizing items with
    | stop noComma => exact .stop (by rw [on_nextItem, if_neg noComma])
    | @more spot middle later value values comma read _ inductionHypothesis =>
        have stepped : (nextItem item items).on spot = .done (some (value :: items)) middle := by
          rw [on_nextItem, if_pos comma, read]
          rfl
        have rest : Repeats (nextItem item) (value :: items) middle
            (values.reverse ++ value :: items) later := inductionHypothesis
        simpa using Repeats.more stepped rest

/-- A list is an item and the items behind commas. -/
theorem on_commaSeparated_eq_done {item : Rule α} [item.Lawful] {spot later : Spot}
    {values : List α} :
    (commaSeparated item).on spot = .done values later ↔
      ∃ value middle others, item.on spot = .done value middle ∧
        Items item middle others later ∧ values = value :: others := by
  rw [commaSeparated_eq, on_bind, Outcome.bind_eq_done]
  simp only [on_bind, Outcome.bind_eq_done, on_whileSome_eq_done, repeats_nextItem, on_pure,
    Outcome.done.injEq]
  constructor
  · rintro ⟨value, middle, read, items, last, ⟨others, rest, rfl⟩, rfl, rfl⟩
    exact ⟨value, middle, others, read, rest, by simp⟩
  · rintro ⟨value, middle, others, read, rest, rfl⟩
    exact ⟨value, middle, read, _, later, ⟨others, rest, rfl⟩, by simp, rfl⟩

end Rule

end SqlDml
