import SqlDml.Proofs.Abreast.Comparison
import SqlDml.Proofs.Rules.Ensures

/-!
Contract: rules that keep two runs in step, and how they are put together.

Owns:
- rules in step, from all states in step or only from those in which a nesting level may be opened;
- rules behind which a nesting level may be opened, since they consume a token;
- sequences, choices, repetitions and lists of such rules, and the rules for one token and for names.

Does not own: the rules of the language.
-/

namespace SqlDml

namespace Comparison

open Rule

variable {α β γ σ : Type} [Labelled α] [Labelled β] [Labelled γ] [Labelled σ]

/-- Rules in step.  With `need`, only where one more nesting level may be opened. -/
class InStep (C : Comparison) (need : Bool) (rule copy : Rule α) : Prop where
  abreast : ∀ {state other : ParserState}, C.Near state other → (need = true → C.Open state) →
    C.Abreast false rule copy state other

/-- Rules in step that consume a token, so that a nesting level may be opened behind them.  With
`inside`, only where a token is left. -/
class Opening (C : Comparison) (inside : Bool) (rule copy : Rule α) : Prop where
  abreast : ∀ {state other : ParserState}, C.Near state other →
    (inside = true → state.spot.kind ≠ .endOfInput) → C.Abreast true rule copy state other

variable {C : Comparison} {need inside : Bool}

namespace InStep

/-! ### Sequences and choices -/

instance pure {value copied : α} [alike : Alike C.likeness value copied] :
    InStep C need (Pure.pure value) (Pure.pure copied) :=
  ⟨fun near _ => .pure near alike nofun⟩

section

variable {rule copy : Rule α} {next other : α → Rule β}

/-- One rule behind another. -/
theorem behind [first : InStep C need rule copy]
    (rest : ∀ pair : AlikePair C.likeness α, InStep C need (next pair.left) (other pair.right)) :
    InStep C need (rule >>= next) (copy >>= other) :=
  ⟨fun near open_ => (first.abreast near open_).bind fun _ near _ keeps =>
    (rest ⟨_, _⟩).abreast near fun asked => keeps (open_ asked)⟩

/-- Behind a value without labels both sides go on in the same way. -/
theorem behindPlain [LabelFree α] [first : InStep C need rule copy]
    (rest : ∀ value, InStep C need (next value) (other value)) :
    InStep C need (rule >>= next) (copy >>= other) :=
  ⟨fun near open_ => (first.abreast near open_).bind fun alike near _ keeps => by
    obtain rfl := alike.eq
    exact (rest _).abreast near fun asked => keeps (open_ asked)⟩

instance bind [InStep C need rule copy]
    [rest : ∀ pair : AlikePair C.likeness α, InStep C need (next pair.left) (other pair.right)] :
    InStep C need (rule >>= next) (copy >>= other) :=
  behind rest

instance (priority := high) plain [LabelFree α] [InStep C need rule copy]
    [rest : ∀ value, InStep C need (next value) (other value)] :
    InStep C need (rule >>= next) (copy >>= other) :=
  behindPlain rest

theorem of_opening (opening : Opening C false rule copy) : InStep C need rule copy :=
  ⟨fun near _ => (opening.abreast near nofun).weaken⟩

instance ite {left right left' right' : Rule α} (condition : Prop) [Decidable condition]
    [InStep C need left left'] [InStep C need right right'] :
    InStep C need (if condition then left else right) (if condition then left' else right') := by
  split <;> infer_instance

end

instance fail (expected : List String) :
    InStep C need (Rule.fail expected : Rule α) (Rule.fail expected) :=
  ⟨fun near _ => ⟨.of_lawful _ (C.ready near).1, .of_lawful _ (C.ready near).2,
    .failed (C.fails expected near)⟩⟩

instance map {rule copy : Rule α} (change : α → β) (changed : α → β) [InStep C need rule copy]
    [alike : ∀ pair : AlikePair C.likeness α,
      Alike C.likeness (change pair.left) (changed pair.right)] :
    InStep C need (change <$> rule) (changed <$> copy) := by
  rw [map_eq_bind, map_eq_bind]
  infer_instance

instance (priority := high) mapPlain [LabelFree γ] {rule copy : Rule γ} (change changed : γ → β)
    [InStep C need rule copy]
    [alike : ∀ value, Alike C.likeness (change value) (changed value)] :
    InStep C need (change <$> rule) (changed <$> copy) := by
  rw [map_eq_bind, map_eq_bind]
  infer_instance

/-! ### One token -/

instance peekToken (ahead : Nat) : InStep C need (Rule.peekToken ahead) (Rule.peekToken ahead) :=
  ⟨fun near _ => ⟨.of_lawful _ (C.ready near).1, .of_lawful _ (C.ready near).2,
    .done (C.look ahead near).2 (C.look ahead near).1 nofun⟩⟩

instance previousSpan : InStep C need Rule.previousSpan Rule.previousSpan :=
  ⟨fun near _ => ⟨.of_lawful _ (C.ready near).1, .of_lawful _ (C.ready near).2,
    .done (C.last near) near nofun⟩⟩

instance advance : InStep C need Rule.advance Rule.advance where
  abreast {state other} near _ := by
    refine ⟨.of_lawful _ (C.ready near).1, .of_lawful _ (C.ready near).2, ?_⟩
    rw [state.advance_run, other.advance_run]
    exact .done (C.look 0 near).2 (C.step near) nofun

/-- Behind the number of a parameter marker. -/
theorem numbering {next other : Nat → Rule β}
    (rest : ∀ index index', C.likeness.left.marker index = C.likeness.right.marker index' →
      InStep C need (next index) (other index')) :
    InStep C need (nextPlaceholder >>= next) (nextPlaceholder >>= other) where
  abreast {state other} near open_ := by
    obtain ⟨ready, ready'⟩ := C.ready near
    have leads : state.Leads state.numbered := ⟨ready.alike rfl rfl rfl, .refl _, rfl, rfl⟩
    have leads' : other.Leads other.numbered := ⟨ready'.alike rfl rfl rfl, .refl _, rfl, rfl⟩
    have run : nextPlaceholder state = (.ok state.placeholders, state.numbered) := rfl
    have run' : nextPlaceholder other = (.ok other.placeholders, other.numbered) := rfl
    exact .behind run run' leads leads'
      ((rest _ _ (C.number near).2).abreast (C.number near).1 fun asked =>
        C.keeps leads (open_ asked))

instance (ahead : Nat) : InStep C need (peekAhead ahead) (peekAhead ahead) := by
  unfold peekAhead
  have kinds : ∀ pair : AlikePair C.likeness Token,
      InStep C need (Pure.pure pair.left.kind) (Pure.pure pair.right.kind) := by
    intro pair
    rw [pair.alike.kind_eq]
    infer_instance
  infer_instance

instance : InStep C need peek peek := by
  unfold peek
  infer_instance

instance : InStep C need currentSpan currentSpan := by
  unfold currentSpan
  infer_instance

instance (kind : TokenKind) : InStep C need (nextIs kind) (nextIs kind) := by
  unfold nextIs
  infer_instance

instance (ahead : Nat) (kind : TokenKind) :
    InStep C need (aheadIs ahead kind) (aheadIs ahead kind) := by
  unfold aheadIs
  infer_instance

instance (kind : TokenKind) : InStep C need (eat kind) (eat kind) := by
  unfold eat
  infer_instance

instance (kind : TokenKind) : InStep C need (expect kind) (expect kind) := by
  unfold expect
  infer_instance

instance (word : Keyword) : InStep C need (nextIsWord word) (nextIsWord word) := by
  unfold nextIsWord
  infer_instance

instance (word : Keyword) : InStep C need (eatWord word) (eatWord word) := by
  unfold eatWord
  infer_instance

instance (word : Keyword) : InStep C need (expectWord word) (expectWord word) := by
  unfold expectWord
  infer_instance

instance (mark : Punct) : InStep C need (nextIsMark mark) (nextIsMark mark) := by
  unfold nextIsMark
  infer_instance

instance (mark : Punct) : InStep C need (eatMark mark) (eatMark mark) := by
  unfold eatMark
  infer_instance

instance (mark : Punct) : InStep C need (expectMark mark) (expectMark mark) := by
  unfold expectMark
  infer_instance

/-! ### Repetition -/

/-- With room for every token that is left on both sides, repetitions keep in step. -/
theorem iterate {step copy : σ → Rule (Option σ)} [∀ value, (step value).Lawful]
    [∀ value, (step value).Shortens]
    (steps : ∀ pair : AlikePair C.likeness σ, InStep C need (step pair.left) (copy pair.right))
    (fuel fuel' : Nat) (first first' : σ) [alike : Alike C.likeness first first']
    {state other : ParserState} (near : C.Near state other) (open_ : need = true → C.Open state)
    (room : state.spot.ahead.length < fuel) (room' : state.spot.ahead.length < fuel') :
    C.Abreast false (Rule.iterate step fuel first) (Rule.iterate copy fuel' first') state other := by
  induction fuel generalizing fuel' first first' state other with
  | zero => omega
  | succ fuel inductionHypothesis =>
      obtain ⟨fuel', rfl⟩ : ∃ less, fuel' = less + 1 := ⟨fuel' - 1, by omega⟩
      have stepped := (steps ⟨first, first'⟩).abreast near open_
      have verdict := stepped.verdict
      rcases run : step first state with ⟨result, later⟩
      rcases run' : copy first' other with ⟨result', later'⟩
      have leads := stepped.left.of_run run
      have leads' := stepped.right.of_run run'
      rw [run, run'] at verdict
      rw [Rule.iterate, Rule.iterate]
      cases verdict with
      | done found behind _ =>
          refine .behind run run' leads leads' ?_
          rcases found.option_cases with ⟨rfl, rfl⟩ | ⟨next, next', rfl, rfl, _⟩
          · exact .pure behind alike nofun
          · have shorter := Shortens.shorter _ _ next (on_of_run (C.ready near).1 run)
            exact inductionHypothesis fuel' next next' behind
              (fun asked => C.keeps leads (open_ asked)) (by omega) (by omega)
      | failed failed => exact .failed_bind run run' stepped.left stepped.right failed
      | lost lossy read =>
          refine .lost_bind lossy run stepped.left stepped.right (by rw [run']; exact read) ?_
          rintro found reached same
          have ready := (stepped.right.of_run same).ready
          -- where the left run is lost, the right steps are compared with left steps of their own
          have safe : ∀ value (state : ParserState), state.Ready → (copy value).Safe state := by
            intro value state ready
            obtain ⟨near, opened⟩ := C.reflexive lossy ready
            have alike : Alike C.likeness value value := ⟨by rw [C.sides lossy]⟩
            exact ((steps ⟨value, value⟩).abreast near fun _ => opened).right
          cases found with
          | none => exact .refl ready
          | some next => exact .iterate safe fuel' next ready

instance whileSome {step copy : σ → Rule (Option σ)} {first first' : σ}
    [∀ value, (step value).Lawful] [∀ value, (step value).Shortens] [Alike C.likeness first first']
    [steps : ∀ pair : AlikePair C.likeness σ, InStep C need (step pair.left) (copy pair.right)] :
    InStep C need (Rule.whileSome step first) (Rule.whileSome copy first') where
  abreast {state other} near open_ := by
    obtain ⟨ready, ready'⟩ := C.ready near
    have room : state.spot.ahead.length < _ := TokenStream.length_ahead_lt_tokensAhead ready.sound
    have room' : other.spot.ahead.length < _ :=
      TokenStream.length_ahead_lt_tokensAhead ready'.sound
    rw [C.length near] at room'
    obtain ⟨left, right, verdict⟩ := iterate steps _ _ first first' near open_ room room'
    exact ⟨left, right, verdict⟩

/-- A repetition on what has no labels. -/
instance (priority := high) whilePlain [LabelFree γ] {step copy : γ → Rule (Option γ)} {first : γ}
    [∀ value, (step value).Lawful] [∀ value, (step value).Shortens]
    [steps : ∀ value, InStep C need (step value) (copy value)] :
    InStep C need (Rule.whileSome step first) (Rule.whileSome copy first) := by
  have pairs : ∀ pair : AlikePair C.likeness γ, InStep C need (step pair.left) (copy pair.right) := by
    rintro ⟨value, copied⟩
    rename_i alike
    obtain rfl := alike.eq
    exact steps value
  exact whileSome

instance nextItem {item copy : Rule α} {items items' : List α} [InStep C need item copy]
    [Alike C.likeness items items'] :
    InStep C need (Rule.nextItem item items) (Rule.nextItem copy items') := by
  unfold Rule.nextItem
  infer_instance

instance commaSeparated {item copy : Rule α} [item.Lawful] [InStep C need item copy] :
    InStep C need (Rule.commaSeparated item) (Rule.commaSeparated copy) := by
  rw [commaSeparated_eq, commaSeparated_eq]
  infer_instance

/-! ### Alternatives -/

/-- An alternative that may be tried only where a level may be opened, and what follows. -/
theorem attempt {rule copy : Rule α} {tried tried' : Option α → Rule β} [InStep C need rule copy]
    (found : ∀ pair : AlikePair C.likeness α,
      InStep C need (tried (some pair.left)) (tried' (some pair.right)))
    (missing : InStep C need (tried none) (tried' none)) :
    InStep C need (Rule.attempt rule >>= tried) (Rule.attempt copy >>= tried') :=
  ⟨fun near open_ => .attempt near (InStep.abreast near open_)
    (fun _ near _ keeps => (found ⟨_, _⟩).abreast near fun asked => keeps (open_ asked))
    fun near keeps => missing.abreast near fun asked => keeps (open_ asked)⟩

/-! ### What is found or missing -/

theorem found {rule copy : Rule (Option α)} {next other : Option α → Rule β}
    [InStep C need rule copy]
    (some : ∀ pair : AlikePair C.likeness α,
      InStep C need (next (.some pair.left)) (other (.some pair.right)))
    (none : InStep C need (next .none) (other .none)) :
    InStep C need (rule >>= next) (copy >>= other) := by
  refine behind ?_
  rintro ⟨left, right⟩
  rename_i alike
  rcases alike.option_cases with ⟨rfl, rfl⟩ | ⟨value, value', rfl, rfl, _⟩
  · exact none
  · exact some ⟨value, value'⟩

theorem both {rule copy : Rule (α × γ)} {next other : α × γ → Rule β} [InStep C need rule copy]
    (rest : ∀ (first : AlikePair C.likeness α) (second : AlikePair C.likeness γ),
      InStep C need (next (first.left, second.left)) (other (first.right, second.right))) :
    InStep C need (rule >>= next) (copy >>= other) := by
  refine behind ?_
  rintro ⟨⟨left, left'⟩, ⟨right, right'⟩⟩
  rename_i alike
  have first : Alike C.likeness left right := ⟨congrArg Prod.fst alike.same⟩
  have second : Alike C.likeness left' right' := ⟨congrArg Prod.snd alike.same⟩
  exact rest ⟨left, right⟩ ⟨left', right'⟩

end InStep

/-! ### Rules that only look ahead -/

/-- A rule that reads something and stays where it is. -/
class Looking {γ : Type} (rule : Rule γ) : Prop where
  stays : ∀ spot, ∃ value, rule.on spot = .done value spot

namespace Looking

instance (ahead : Nat) : Looking (Rule.peekToken ahead) := ⟨fun spot => ⟨_, on_peekToken ahead spot⟩⟩

instance (ahead : Nat) : Looking (peekAhead ahead) := ⟨fun spot => ⟨_, on_peekAhead spot ahead⟩⟩

instance (ahead : Nat) (kind : TokenKind) : Looking (aheadIs ahead kind) :=
  ⟨fun spot => ⟨_, on_aheadIs spot ahead kind⟩⟩

instance (kind : TokenKind) : Looking (nextIs kind) := ⟨fun spot => ⟨_, on_nextIs spot kind⟩⟩

instance (word : Keyword) : Looking (nextIsWord word) := ⟨fun spot => ⟨_, on_nextIsWord spot word⟩⟩

instance (mark : Punct) : Looking (nextIsMark mark) := ⟨fun spot => ⟨_, on_nextIsMark spot mark⟩⟩

instance : Looking currentSpan := ⟨fun spot => ⟨_, on_currentSpan spot⟩⟩

end Looking

/-- A rule that consumes a token whenever it reads something.  With `inside`, only where a token is
left. -/
class Consuming {γ : Type} (inside : Bool) (rule : Rule γ) : Prop where
  shorter : ∀ (spot later : Spot) (value : γ), (inside = true → spot.kind ≠ .endOfInput) →
    rule.on spot = .done value later → later.ahead.length < spot.ahead.length

namespace Consuming

variable {δ ε : Type}

instance bind {rule : Rule δ} {next : δ → Rule ε} [rule.Lawful] [∀ value, (next value).Lawful]
    [first : Consuming inside rule] : Consuming inside (rule >>= next) where
  shorter spot later value kind outcome := by
    rw [on_bind] at outcome
    obtain ⟨read, middle, consumed, rest⟩ := Outcome.bind_eq_done.mp outcome
    exact Nat.lt_of_le_of_lt (leads_of_on rest).length_le
      (first.shorter spot middle read kind consumed)

instance advance : Consuming true Rule.advance where
  shorter spot later token kind outcome := by
    rw [on_advance] at outcome
    cases outcome
    exact Spot.length_next_lt (kind rfl)

theorem expectInside {kind : TokenKind} (within : kind ≠ .endOfInput) :
    Consuming inside (expect kind) where
  shorter spot later token _ outcome := by
    rw [on_expect] at outcome
    split at outcome
    · next found =>
        cases outcome
        exact Spot.length_next_lt (found ▸ within)
    · cases outcome

instance (word : Keyword) : Consuming inside (expectWord word) := expectInside nofun

instance (mark : Punct) : Consuming inside (expectMark mark) := expectInside nofun

instance (anyKeyword : Bool) : Consuming inside (Rule.name anyKeyword) where
  shorter spot later ident _ outcome := by
    have consumes : (Rule.name anyKeyword).Ensures spot fun _ later =>
        later.ahead.length < spot.ahead.length := by
      rw [name_eq]
      refine .step (on_peekToken 0 spot) (.step (on_sourceChars spot) ?_)
      split
      · next found known =>
          refine .step (on_advance spot) (.pure (Spot.length_next_lt fun ended => ?_))
          rw [Spot.kind] at ended
          rw [identOfToken?, ended] at known
          cases known
      · exact .fail
    exact consumes.on outcome

instance : Consuming inside identifier := by
  unfold identifier
  infer_instance

end Consuming

namespace Opening

/-! ### Rules that consume a token -/

section

variable {rule copy : Rule α} {next other : α → Rule β}

theorem inner [opening : Opening C true rule copy] {state other : ParserState}
    (near : C.Near state other) (kind : state.spot.kind ≠ .endOfInput) :
    C.Abreast true rule copy state other := opening.abreast near fun _ => kind

theorem anywhere [opening : Opening C false rule copy] {state other : ParserState}
    (near : C.Near state other) : C.Abreast true rule copy state other :=
  opening.abreast near nofun

/-- Behind a token a level may be opened. -/
theorem behind [first : Opening C inside rule copy]
    (rest : ∀ pair : AlikePair C.likeness α, InStep C true (next pair.left) (other pair.right)) :
    Opening C inside (rule >>= next) (copy >>= other) :=
  ⟨fun near kind => (first.abreast near kind).bind fun _ near opened _ =>
    ((rest ⟨_, _⟩).abreast near fun _ => opened rfl).opened (opened rfl)⟩

instance bind [Opening C inside rule copy]
    [rest : ∀ pair : AlikePair C.likeness α, InStep C true (next pair.left) (other pair.right)] :
    Opening C inside (rule >>= next) (copy >>= other) :=
  behind rest

instance ite {left right left' right' : Rule α} (condition : Prop) [Decidable condition]
    [Opening C inside left left'] [Opening C inside right right'] :
    Opening C inside (if condition then left else right) (if condition then left' else right') := by
  split <;> infer_instance

/-- A rule that stays where it is may come first. -/
theorem look [rule.Lawful] [look : Looking rule] [first : InStep C false rule copy]
    (rest : ∀ pair : AlikePair C.likeness α, Opening C inside (next pair.left) (other pair.right)) :
    Opening C inside (rule >>= next) (copy >>= other) where
  abreast {state other} near kind := by
    obtain ⟨value, found⟩ := look.stays state.spot
    exact .looking near found (first.abreast near nofun) fun _ near same =>
      (rest ⟨_, _⟩).abreast near fun asked => same ▸ kind asked

/-- Behind a look at what has no labels both sides go on in the same way. -/
theorem lookPlain [LabelFree γ] {rule copy : Rule γ} {next other : γ → Rule β} [rule.Lawful]
    [look : Looking rule] [first : InStep C false rule copy]
    (rest : ∀ value, Opening C inside (next value) (other value)) :
    Opening C inside (rule >>= next) (copy >>= other) where
  abreast {state other} near kind := by
    obtain ⟨value, found⟩ := look.stays state.spot
    refine .looking near found (first.abreast near nofun) fun alike near same => ?_
    obtain rfl := alike.eq
    exact (rest _).abreast near fun asked => same ▸ kind asked

/-- By the kind of the next token. -/
theorem byKind {next other : TokenKind → Rule β}
    (rest : ∀ {state state' : ParserState}, C.Near state state' →
      C.Abreast true (next state.spot.kind) (other state.spot.kind) state state') :
    Opening C inside (peek >>= next) (peek >>= other) where
  abreast {state other} near _ := by
    refine .looking near (on_peek state.spot) (InStep.abreast near (nofun : false = true → _)) ?_
    intro kind later later' alike near same
    obtain rfl := alike.eq
    rw [← same]
    exact rest near

/-- An alternative that consumes a token, and otherwise a rule that does. -/
theorem attempt {tried tried' : Option α → Rule β} [first : Opening C false rule copy]
    (found : ∀ pair : AlikePair C.likeness α,
      InStep C true (tried (some pair.left)) (tried' (some pair.right)))
    (missing : Opening C false (tried none) (tried' none)) :
    Opening C inside (Rule.attempt rule >>= tried) (Rule.attempt copy >>= tried') :=
  ⟨fun near _ => .attempt near (first.abreast near nofun)
    (fun _ near opened _ =>
      ((found ⟨_, _⟩).abreast near fun _ => opened rfl).opened (opened rfl))
    fun near _ => missing.abreast near nofun⟩

end

instance fail (expected : List String) :
    Opening C inside (Rule.fail expected : Rule α) (Rule.fail expected) :=
  ⟨fun near _ => ⟨.of_lawful _ (C.ready near).1, .of_lawful _ (C.ready near).2,
    .failed (C.fails expected near)⟩⟩

/-- A rule in step that consumes a token. -/
instance (priority := low) of_consuming {rule copy : Rule α} [rule.Lawful] [consumes : Consuming inside rule]
    [first : InStep C false rule copy] : Opening C inside rule copy :=
  ⟨fun near kind => .consuming near (first.abreast near nofun) fun value later =>
    consumes.shorter _ later value kind⟩

end Opening

/-! ### Names -/

/-- What the next token is as an identifier. -/
def nextIdent (anyKeyword : Bool) : Rule (Option Ident) := fun state =>
  (.ok (identOfToken? state.source anyKeyword (state.token 0)), state.looked 0)

theorem name_eq_nextIdent (anyKeyword : Bool) :
    Rule.name anyKeyword = nextIdent anyKeyword >>= fun found =>
      match found with
      | some ident => advance >>= fun _ => pure ident
      | none => fail ["identifier"] := rfl

instance (anyKeyword : Bool) : (nextIdent anyKeyword).Lawful :=
  (lawful_of (fun spot => .done (identOfToken? spot.source anyKeyword (spot.token 0)) spot)
    fun state ready => by
      obtain ⟨later, run, leads, same⟩ := peekToken_agrees 0 state ready
      have reached : later = state.looked 0 := (congrArg Prod.snd run).symm
      have token : state.token 0 = state.spot.token 0 := Except.ok.inj (congrArg Prod.fst run)
      rw [← token]
      exact ⟨later, by rw [reached]; rfl, leads, same⟩).2

instance (anyKeyword : Bool) : InStep C need (nextIdent anyKeyword) (nextIdent anyKeyword) :=
  ⟨fun near _ => ⟨.of_lawful _ (C.ready near).1, .of_lawful _ (C.ready near).2,
    .done (C.name anyKeyword near) (C.look 0 near).1 nofun⟩⟩

instance (anyKeyword : Bool) : InStep C need (Rule.name anyKeyword) (Rule.name anyKeyword) := by
  rw [name_eq_nextIdent]
  exact .found (fun _ => inferInstance) inferInstance

instance : InStep C need identifier identifier := by
  unfold identifier
  infer_instance

instance : InStep C need identifierAfterDot identifierAfterDot := by
  unfold identifierAfterDot
  infer_instance

end Comparison

end SqlDml
