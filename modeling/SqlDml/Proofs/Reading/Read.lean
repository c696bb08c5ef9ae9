import SqlDml.Grammar.Literal
import SqlDml.Proofs.Extents.Placed
import SqlDml.Proofs.Trees.Visits

/-!
Contract: the stops of a tree, read off the tokens between two spots.

Owns:
- the tokens that carry something of their own, the name that a token stands for, the tokens that a
  type is written with, and runs of tokens with no marker among them;
- the relation of the stops of a tree to the tokens that it was read from: a name is one token, a
  parameter marker is one `?`, a constant is a run of tokens, and so is the type at the end of a
  cast; no other token carries anything;
- rules that read their trees in this way, and how they are put together.

Does not own: the rules of the language.
-/

namespace SqlDml

/-! ### Single tokens -/

/-- Whether a token carries something of its own: a name, a constant or a parameter marker.  A keyword
carries nothing, unless it stands for a name. -/
def TokenKind.isPayload : TokenKind → Bool
  | .integer _ | .number _ | .string _ _ | .hex _ | .bit _ | .word _ | .quotedWord _ _
  | .punct .question => true
  | .punct _ | .keyword _ | .endOfInput => false

theorem TokenKind.ne_question_of_plain {kind : TokenKind} (plain : kind.isPayload = false) :
    kind ≠ .punct .question := by
  rintro rfl
  cases plain

/-- The value and the quote of a token that can stand for a name.  A keyword has the spelling of the
source. -/
def Token.nameParts? (source : List Char) (token : Token) : Option (String × Option Char) :=
  match token.kind with
  | .word text => some (text, none)
  | .quotedWord value quote | .string value quote => some (value, some quote)
  | .keyword _ => (token.span.slice? source).map fun text => (String.ofList text, none)
  | _ => none

/-- A name that a token of a source stands for. -/
structure Ident.StandsFor (name : Ident) (source : List Char) (token : Token) : Prop where
  place : name.span = token.span
  parts : (token.span.slice? source).isSome → token.nameParts? source = some (name.value, name.quote)

/-! ### The tokens of a type -/

/-- The tokens of the sizes of a type. -/
def sizeKinds : Option Nat → Option Nat → List TokenKind
  | none, _ => []
  | some length, none => [.punct .leftParen, .integer length, .punct .rightParen]
  | some length, some scale =>
      [.punct .leftParen, .integer length, .punct .comma, .integer scale, .punct .rightParen]

/-- The words of a type, and its sizes behind them. -/
def TypeName.WrittenBy (target : TypeName) (tokens : List Token) : Prop :=
  ∃ words sizes texts, tokens = words ++ sizes ∧
    words.map (fun token => Rule.typeWord? token.kind) = texts.map some ∧
    target.name = " ".intercalate texts ∧
    sizes.map Token.kind = sizeKinds target.length target.scale

/-- The end of a cast: its target type behind `AS`, and the parenthesis that closes it. -/
def TypeName.EndsCast (target : TypeName) (tokens : List Token) : Prop :=
  ∃ word typed stop, tokens = word :: (typed ++ [stop]) ∧ word.kind = .keyword .AS ∧
    target.WrittenBy typed ∧ stop.kind = .punct .rightParen

/-! ### Runs of tokens -/

/-- A run of tokens between two spots, with no marker among them. -/
structure Spot.Takes (spot : Spot) (tokens : List Token) (later : Spot) : Prop where
  through : spot.Through tokens later
  markers : later.markers = spot.markers
  unmarked : ∀ token ∈ tokens, token.kind ≠ .punct .question

namespace Spot.Takes

variable {spot middle later : Spot} {tokens more : List Token}

theorem refl (spot : Spot) : spot.Takes [] spot := ⟨.refl spot, rfl, nofun⟩

theorem trans (front : spot.Takes tokens middle) (back : middle.Takes more later) :
    spot.Takes (tokens ++ more) later where
  through := front.through.trans back.through
  markers := back.markers.trans front.markers
  unmarked token member := by
    rcases List.mem_append.mp member with before | behind
    · exact front.unmarked token before
    · exact back.unmarked token behind

theorem next (inner : spot.kind ≠ .endOfInput) (unmarked : spot.kind ≠ .punct .question) :
    spot.Takes [spot.token 0] spot.next where
  through := .next inner
  markers := rfl
  unmarked token member := by
    rw [List.mem_singleton.mp member]
    exact unmarked

/-- One more token. -/
theorem step (front : spot.Takes tokens middle) (inner : middle.kind ≠ .endOfInput)
    (unmarked : middle.kind ≠ .punct .question) :
    spot.Takes (tokens ++ [middle.token 0]) middle.next :=
  front.trans (next inner unmarked)

/-- The span of the token consumed last. -/
theorem last_eq (takes : spot.Takes tokens later) {last : Token}
    (closes : tokens.getLast? = some last) : later.last = last.span := by
  rw [takes.through.last, closes]
  rfl

/-- A span that grows from the first of some tokens to the last one. -/
theorem covers {first : Token} (takes : spot.Takes (first :: tokens) later)
    (order : InOrder (first :: tokens)) :
    Covers (first :: tokens) (first.span.merge later.last) := by
  have closes := List.getLast?_eq_some_getLast (List.cons_ne_nil first tokens)
  rw [takes.last_eq closes]
  have order : InOrder ([first] ++ tokens) := order
  refine (Covers.singleton first).merge order closes ?_ rfl
  exact order.start_le rfl (List.mem_of_getLast? closes)

end Spot.Takes

open Visit (idents ofQualifier)

namespace Visit

/-- Whether a stop is a tree above others, and no token is its own. -/
def isNode : Visit → Bool
  | .expr (.placeholder _ _) | .expr (.literal _ _) | .expr (.cast _ _ _) => false
  | .tableName _ | .qualifier _ _ | .ident _ => false
  | _ => true

/-- Whether a stop has no other stops below it. -/
def isLeaf : Visit → Bool
  | .expr (.placeholder _ _) | .expr (.literal _ _) | .ident _ => true
  | _ => false

end Visit

/-- The quote around a name. -/
def TokenKind.quote? : TokenKind → Option Char
  | .quotedWord _ quote => some quote
  | _ => none

/-- An identifier that stands for a token: it has the place of the token and its quotes. -/
def Ident.ReadFrom (name : Ident) (token : Token) : Prop :=
  name.span = token.span ∧ token.kind.isNameAfterDot = true ∧ token.kind.quote? = name.quote

/-- A token that an identifier stands for is ahead. -/
def Spot.Offers (spot : Spot) (name : Ident) : Prop := ∃ token ∈ spot.ahead, name.ReadFrom token

theorem Spot.Offers.of_next {spot : Spot} {name : Ident} (offers : spot.next.Offers name) :
    spot.Offers name := by
  obtain ⟨token, member, from_⟩ := offers
  obtain ⟨tokens, split, _⟩ := spot.ahead_next
  exact ⟨token, split ▸ List.mem_append_right _ member, from_⟩

/-- The stops of a tree that was read between two spots.  Each name stands for one token, each marker
for one `?` with the number of the markers in front of it, and each constant for a run of tokens; what
stands for no stop carries nothing. -/
inductive Read : List Visit → Spot → Spot → Prop where
  | nothing (spot : Spot) : Read [] spot spot
  | passed {spot : Spot} (plain : spot.kind.isPayload = false) : Read [] spot spot.next
  | name {spot : Spot} {name : Ident} (inner : spot.kind ≠ .endOfInput)
      (unmarked : spot.kind ≠ .punct .question)
      (stands : name.StandsFor spot.source (spot.token 0)) : Read [.ident name] spot spot.next
  | marker {spot : Spot} (marked : spot.kind = .punct .question) :
      Read [.expr (.placeholder spot.markers (spot.token 0).span)] spot spot.next.mark
  | literal {value : Literal} {span : Span} {spot later : Spot} {tokens : List Token}
      (takes : spot.Takes tokens later) (covers : InOrder tokens → Covers tokens span) :
      Read [.expr (.literal value span)] spot later
  | append {left right : List Visit} {first middle last : Spot} (front : Read left first middle)
      (back : Read right middle last) : Read (left ++ right) first last
  | node {visit : Visit} {visits : List Visit} {spot later : Spot} (node : visit.isNode = true)
      (below : Read visits spot later) : Read (visit :: visits) spot later
  /-- A cast runs from its first token to the parenthesis behind its target type. -/
  | cast {operand : Expr} {target : TypeName} {spot middle later : Spot} {tokens : List Token}
      (below : Read operand.visits spot middle) (takes : middle.Takes tokens later)
      (typed : target.EndsCast tokens) :
      Read (.expr (.cast operand target ((spot.token 0).span.merge later.last)) :: operand.visits)
        spot later
  | tableName {name : TableName} {spot later : Spot} (offers : spot.Offers name.table)
      (below : Read (idents name.schema.toList ++ [.ident name.table]) spot later) :
      Read name.visits spot later
  | qualifier {schema : Option Ident} {table : Ident} {spot later : Spot}
      (offers : spot.Offers table)
      (below : Read (idents schema.toList ++ [.ident table]) spot later) :
      Read (ofQualifier schema table) spot later
  /-- Leaves may stand in the tree in another order than in the source. -/
  | swap {left right : List Visit} {spot later : Spot}
      (leaves : ∀ visit ∈ left ++ right, visit.isLeaf = true)
      (read : Read (left ++ right) spot later) : Read (right ++ left) spot later

namespace Read

variable {visits more : List Visit} {first spot later : Spot}

/-- Going on over a token that stands for no stop. -/
theorem past (read : Read visits first spot) (plain : spot.kind.isPayload = false) :
    Read visits first spot.next := by
  have longer := read.append (.passed plain)
  rwa [List.append_nil] at longer

/-- Going on over tokens that stand for no stops. -/
theorem silent (read : Read visits first spot) (behind : Read [] spot later) :
    Read visits first later := by
  have longer := read.append behind
  rwa [List.append_nil] at longer

theorem congr (read : Read visits first spot) (same : visits = more) : Read more first spot :=
  same ▸ read

end Read

/-- A kind of token that carries nothing of its own. -/
class TokenKind.Plain (kind : TokenKind) : Prop where
  plain : kind.isPayload = false

instance (word : Keyword) : (TokenKind.keyword word).Plain := ⟨rfl⟩

instance : (TokenKind.punct .comma).Plain := ⟨by decide⟩

instance : (TokenKind.punct .dot).Plain := ⟨by decide⟩

instance : (TokenKind.punct .star).Plain := ⟨by decide⟩

instance : (TokenKind.punct .equal).Plain := ⟨by decide⟩

instance : (TokenKind.punct .semicolon).Plain := ⟨by decide⟩

instance : (TokenKind.punct .leftParen).Plain := ⟨by decide⟩

instance : (TokenKind.punct .rightParen).Plain := ⟨by decide⟩

instance : (TokenKind.punct .leftBrace).Plain := ⟨by decide⟩

instance : (TokenKind.punct .rightBrace).Plain := ⟨by decide⟩

theorem Spot.plain_of_kind {spot : Spot} {kind : TokenKind} [kind.Plain] (found : spot.kind = kind) :
    spot.kind.isPayload = false := by
  rw [found]
  exact TokenKind.Plain.plain

/-- A token that is chosen carries nothing, if no token that carries something is chosen. -/
theorem Spot.plain_of_choice {spot : Spot} {α : Type} {choose : TokenKind → Option α} {value : α}
    (others : ∀ {kind : TokenKind}, kind.isPayload = true → choose kind = none)
    (found : choose spot.kind = some value) : spot.kind.isPayload = false := by
  by_contra payload
  rw [others (by simpa using payload)] at found
  cases found

theorem Spot.next_token (spot : Spot) (ahead : Nat) :
    spot.next.token ahead = spot.token (ahead + 1) := by
  simp [Spot.token, List.getElem?_tail]

namespace Rule

variable {α β σ : Type}

/-- A rule whose trees have the given stops, read from the tokens that the rule consumes. -/
def Reads (rule : Rule α) (stops : α → List Visit) : Prop :=
  ∀ spot, rule.Ensures spot fun value later => Read (stops value) spot later

/-- A rule that reads no stops. -/
class Silent (rule : Rule α) : Prop where
  reads : rule.Reads fun _ => []

/-! ### Rules that read no stops -/

instance (value : α) : (pure value : Rule α).Silent := ⟨fun spot => .pure (.nothing spot)⟩

instance (expected : List String) : (fail expected : Rule α).Silent := ⟨fun _ => .fail⟩

instance (rule : Rule α) (next : α → Rule β) [first : rule.Silent]
    [rest : ∀ value, (next value).Silent] : (rule >>= next).Silent where
  reads spot := by
    refine (first.reads spot).bind fun value middle front => ?_
    exact ((rest value).reads middle).mono fun _ _ back => front.append back

instance (change : α → β) (rule : Rule α) [rule.Silent] : (change <$> rule).Silent := by
  rw [map_eq_bind]
  infer_instance

instance (condition : Prop) [Decidable condition] (left right : Rule α) [left.Silent]
    [right.Silent] : (if condition then left else right).Silent := by
  split <;> infer_instance

theorem silent_bind {rule : Rule α} {next : α → Rule β} [rule.Silent]
    (rest : ∀ value, (next value).Silent) : (rule >>= next).Silent := inferInstance

/-- A rule that stays where it is. -/
theorem silent_of_stays {rule : Rule α} [rule.Lawful]
    (stays : ∀ spot later value, rule.on spot = .done value later → later = spot) :
    rule.Silent := by
  refine ⟨fun spot => .of_on fun value later outcome => ?_⟩
  rw [stays spot later value outcome]
  exact .nothing spot

instance (ahead : Nat) : (peekToken ahead).Silent :=
  silent_of_stays fun spot later value outcome => by
    rw [on_peekToken] at outcome
    cases outcome
    rfl

instance : previousSpan.Silent :=
  silent_of_stays fun spot later value outcome => by
    rw [on_previousSpan] at outcome
    cases outcome
    rfl

instance (ahead : Nat) : (peekAhead ahead).Silent := by
  unfold peekAhead
  infer_instance

instance : peek.Silent := by
  unfold peek
  infer_instance

instance : currentSpan.Silent := by
  unfold currentSpan
  infer_instance

instance (kind : TokenKind) : (nextIs kind).Silent := by
  unfold nextIs
  infer_instance

instance (ahead : Nat) (kind : TokenKind) : (aheadIs ahead kind).Silent := by
  unfold aheadIs
  infer_instance

instance (kind : TokenKind) [kind.Plain] : (eat kind).Silent := by
  refine ⟨fun spot => .of_on fun value later outcome => ?_⟩
  rw [on_eat] at outcome
  split at outcome
  · next found =>
      cases outcome
      exact .passed (spot.plain_of_kind found)
  · cases outcome
    exact .nothing spot

instance (kind : TokenKind) [kind.Plain] : (expect kind).Silent := by
  refine ⟨fun spot => .of_on fun value later outcome => ?_⟩
  rw [on_expect] at outcome
  split at outcome
  · next found =>
      cases outcome
      exact .passed (spot.plain_of_kind found)
  · cases outcome

instance (word : Keyword) : (nextIsWord word).Silent := inferInstanceAs (nextIs _).Silent

instance (word : Keyword) : (eatWord word).Silent := inferInstanceAs (eat _).Silent

instance (word : Keyword) : (expectWord word).Silent := inferInstanceAs (expect _).Silent

instance (mark : Punct) : (nextIsMark mark).Silent := inferInstanceAs (nextIs _).Silent

instance (mark : Punct) [(TokenKind.punct mark).Plain] : (eatMark mark).Silent :=
  inferInstanceAs (eat _).Silent

instance (mark : Punct) [(TokenKind.punct mark).Plain] : (expectMark mark).Silent :=
  inferInstanceAs (expect _).Silent

theorem silent_whileSome (step : σ → Rule (Option σ)) [∀ value, (step value).Lawful]
    [∀ value, (step value).Shortens] [steps : ∀ value, (step value).Silent] (first : σ) :
    (whileSome step first).Silent := by
  refine ⟨fun start => ?_⟩
  have begins : (fun (_ : σ) later => Read [] start later) first start := .nothing start
  refine .whileSome begins fun value spot read => ?_
  exact ((steps value).reads spot).mono fun _ _ behind => read.silent behind

/-! ### Going on behind what is read -/

namespace Ensures

variable {stops : α → List Visit} {before : List Visit} {start spot : Spot}
  {post : β → Spot → Prop}

/-- Reading one more part. -/
theorem part {rule : Rule α} {next : α → Rule β} (read : Read before start spot)
    (first : rule.Reads stops)
    (rest : ∀ value later, Read (before ++ stops value) start later →
      (next value).Ensures later post) : (rule >>= next).Ensures spot post :=
  (first spot).bind fun value later more => rest value later (read.append more)

/-- Passing over tokens that stand for no stops. -/
theorem skip {rule : Rule α} {next : α → Rule β} [silent : rule.Silent]
    (read : Read before start spot)
    (rest : ∀ value later, Read before start later → (next value).Ensures later post) :
    (rule >>= next).Ensures spot post :=
  (silent.reads spot).bind fun value later behind => rest value later (read.silent behind)

/-- Reading the last part. -/
theorem last {rule : Rule α} (read : Read before start spot) (reads : rule.Reads stops) :
    rule.Ensures spot fun value later => Read (before ++ stops value) start later :=
  (reads spot).mono fun _ _ more => read.append more

/-- Ending with tokens that stand for no stops. -/
theorem rest {rule : Rule α} [silent : rule.Silent] (read : Read before start spot) :
    rule.Ensures spot fun _ later => Read before start later :=
  (silent.reads spot).mono fun _ _ behind => read.silent behind

/-- Passing over one token whose kind is known. -/
theorem advance {next : Token → Rule β} (read : Read before start spot)
    (plain : spot.kind.isPayload = false)
    (rest : Read before start spot.next → (next (spot.token 0)).Ensures spot.next post) :
    (Rule.advance >>= next).Ensures spot post :=
  .step (on_advance spot) (rest (read.past plain))

end Ensures

/-! ### Rules put together -/

namespace Reads

variable {stops : α → List Visit}

theorem congr {rule : Rule α} {other : α → List Visit} (reads : rule.Reads stops)
    (same : ∀ value, stops value = other value) : rule.Reads other :=
  (funext same : stops = other) ▸ reads

theorem whileSome {step : σ → Rule (Option σ)} [∀ value, (step value).Lawful]
    [∀ value, (step value).Shortens] {parts : σ → List Visit} {first : σ}
    (empty : parts first = [])
    (steps : ∀ value start spot, Read (parts value) start spot →
      (step value).Ensures spot fun found later => Read (parts (found.getD value)) start later) :
    (Rule.whileSome step first).Reads parts := by
  intro start
  have begins : Read (parts first) start start := empty ▸ .nothing start
  exact .whileSome begins fun value spot read => steps value start spot read

/-- Items with commas between them, one behind the other. -/
theorem commaSeparated {item : Rule α} [item.Lawful] (items : item.Reads stops) :
    (Rule.commaSeparated item).Reads fun values => values.flatMap stops := by
  intro start
  refine .of_on fun values later outcome => ?_
  obtain ⟨value, middle, others, read, rest, rfl⟩ := on_commaSeparated_eq_done.mp outcome
  have behind : Read (others.flatMap stops) middle later := by
    clear outcome read
    induction rest with
    | stop => exact .nothing _
    | @more spot after last value values comma read _ inductionHypothesis =>
        have front := (items spot.next).on read
        exact (Read.passed (spot.plain_of_kind comma)).append (front.append inductionHypothesis)
  exact ((items start).on read).append behind

end Reads

end Rule

end SqlDml
