import Mathlib.Data.String.Basic
import SqlDml.Grammar.Rule
import SqlDml.Proofs.Stream.Whole

/-!
Contract: what a rule of the grammar can tell about the state of a parse.

Owns:
- what several failures of one parse come to when they are merged one by one: the furthest of them,
  which expects what all that stand there expect, in whatever order they were met;
- a spot: the tokens ahead, the span behind, and the numbering of parameter markers;
- the spot of a state, and a state for every spot;
- states that were reached from the beginning of a source, which recall the failures of all rejected
  alternatives, and the state behind a rejected alternative.

Does not own: what a rule does at a spot.
-/

/-! ## Failures -/

namespace SqlDml

/-! ### Descriptions -/

theorem mem_insertDescription {description text : String} {list : List String} :
    text ∈ insertDescription description list ↔ text = description ∨ text ∈ list := by
  induction list with
  | nil => simp [insertDescription]
  | cons head tail inductionHypothesis =>
      unfold insertDescription
      split
      · next same => simp [same]
      · split
        · simp
        · simp [inductionHypothesis, or_left_comm]

theorem pairwise_insertDescription (description : String) {list : List String}
    (sorted : list.Pairwise (· < ·)) : (insertDescription description list).Pairwise (· < ·) := by
  induction list with
  | nil => simp [insertDescription]
  | cons head tail inductionHypothesis =>
      have below : ∀ text ∈ tail, head < text :=
        fun text member => List.rel_of_pairwise_cons sorted member
      unfold insertDescription
      split
      · exact sorted
      · next other =>
          split
          · next before =>
              refine List.pairwise_cons.mpr ⟨fun text member => ?_, sorted⟩
              rcases List.mem_cons.mp member with rfl | inTail
              · exact before
              · exact lt_trans before (below text inTail)
          · next behind =>
              have later := inductionHypothesis sorted.of_cons
              refine List.pairwise_cons.mpr ⟨fun text member => ?_, later⟩
              rcases mem_insertDescription.mp member with rfl | inTail
              · exact lt_of_le_of_ne (not_lt.mp behind) (Ne.symm other)
              · exact below text inTail

theorem mem_sortDescriptions {text : String} {list : List String} :
    text ∈ sortDescriptions list ↔ text ∈ list := by
  unfold sortDescriptions
  induction list with
  | nil => simp
  | cons head tail inductionHypothesis =>
      rw [List.foldr_cons, mem_insertDescription, inductionHypothesis, List.mem_cons]

theorem pairwise_sortDescriptions (list : List String) :
    (sortDescriptions list).Pairwise (· < ·) := by
  unfold sortDescriptions
  induction list with
  | nil => exact .nil
  | cons head tail inductionHypothesis => exact pairwise_insertDescription head inductionHypothesis

namespace SyntaxError

/-! ### Merging -/

/-- A failure that stands for several: it stands where the furthest of them stand, and expects what
those expect. -/
structure Unites (error : SyntaxError) (failures : List SyntaxError) : Prop where
  stands : ∃ failure ∈ failures, failure.position = error.position
  furthest : ∀ failure ∈ failures, failure.position.offset ≤ error.position.offset
  expects : ∀ text, text ∈ error.expected ↔
    ∃ failure ∈ failures, failure.position.offset = error.position.offset ∧
      text ∈ failure.expected
  sorted : error.expected.Pairwise (· < ·)

theorem unites_ofExpected (position : Position) (expected : List String) (found : String) :
    (ofExpected position expected found).Unites [ofExpected position expected found] where
  stands := ⟨_, List.mem_singleton_self _, rfl⟩
  furthest failure member := by
    rw [List.mem_singleton.mp member]
  expects text := by simp
  sorted := pairwise_sortDescriptions expected

/-- Failures that lie behind all others are as good as all of them. -/
theorem Unites.append_right {error : SyntaxError} {front back : List SyntaxError}
    (unites : error.Unites front)
    (behind : ∀ failure ∈ back, failure.position.offset < error.position.offset) :
    error.Unites (front ++ back) where
  stands := by
    obtain ⟨failure, member, place⟩ := unites.stands
    exact ⟨failure, List.mem_append_left _ member, place⟩
  furthest failure member := by
    rcases List.mem_append.mp member with inFront | inBack
    · exact unites.furthest failure inFront
    · exact Nat.le_of_lt (behind failure inBack)
  expects text := by
    rw [unites.expects]
    constructor
    · rintro ⟨failure, member, place, inside⟩
      exact ⟨failure, List.mem_append_left _ member, place, inside⟩
    · rintro ⟨failure, member, place, inside⟩
      rcases List.mem_append.mp member with inFront | inBack
      · exact ⟨failure, inFront, place, inside⟩
      · exact absurd place (Nat.ne_of_lt (behind failure inBack))
  sorted := unites.sorted

/-- The order of the failures does not matter. -/
theorem Unites.swap {error : SyntaxError} {front back : List SyntaxError}
    (unites : error.Unites (front ++ back)) : error.Unites (back ++ front) := by
  have same : ∀ failure, failure ∈ back ++ front ↔ failure ∈ front ++ back := by
    intro failure
    rw [List.mem_append, List.mem_append, or_comm]
  constructor
  · simpa only [same] using unites.stands
  · simpa only [same] using unites.furthest
  · simpa only [same] using unites.expects
  · exact unites.sorted

/-- Merging two failures unites all that they unite. -/
theorem Unites.merge {left right : SyntaxError} {front back : List SyntaxError}
    (first : left.Unites front) (second : right.Unites back) :
    (left.merge right).Unites (front ++ back) := by
  unfold SyntaxError.merge
  split
  · next further =>
      rw [Nat.compare_eq_gt] at further
      exact first.append_right fun failure member =>
        Nat.lt_of_le_of_lt (second.furthest failure member) further
  · next further =>
      rw [Nat.compare_eq_lt] at further
      exact (second.append_right fun failure member =>
        Nat.lt_of_le_of_lt (first.furthest failure member) further).swap
  · next level =>
      rw [Nat.compare_eq_eq] at level
      refine ⟨?_, ?_, fun text => ?_, pairwise_sortDescriptions _⟩
      · obtain ⟨failure, member, place⟩ := first.stands
        exact ⟨failure, List.mem_append_left _ member, place⟩
      · intro failure member
        rcases List.mem_append.mp member with inFront | inBack
        · exact first.furthest failure inFront
        · exact (second.furthest failure inBack).trans_eq level.symm
      · simp only [ofExpected, mem_sortDescriptions, List.mem_append, first.expects,
          second.expects, ← level, or_and_right, exists_or]

/-! ### The remembered failure -/

/-- What is remembered of failures, the latest of which stands first. -/
def furthest? : List SyntaxError → Option SyntaxError
  | [] => none
  | error :: earlier => some (Rule.remember (furthest? earlier) error)

theorem furthest?_cons (error : SyntaxError) (earlier : List SyntaxError) :
    furthest? (error :: earlier) = some (Rule.remember (furthest? earlier) error) := rfl

/-- What merging keeps holds of the failure that is remembered. -/
theorem remember_of_merge {holds : SyntaxError → Prop} {error : SyntaxError}
    {earlier : List SyntaxError}
    (merges : ∀ left right, holds left → holds right → holds (left.merge right))
    (each : ∀ failure ∈ error :: earlier, holds failure) :
    holds (Rule.remember (furthest? earlier) error) := by
  induction earlier generalizing error with
  | nil => exact each error List.mem_cons_self
  | cons next earlier inductionHypothesis =>
      have before : holds (Rule.remember (furthest? earlier) next) :=
        inductionHypothesis fun failure member => each failure (List.mem_cons_of_mem _ member)
      exact merges _ _ before (each error List.mem_cons_self)

/-- The failure that is remembered unites all that were met. -/
theorem unites_remember {error : SyntaxError} {earlier : List SyntaxError}
    (each : ∀ failure ∈ error :: earlier, failure.Unites [failure]) :
    (Rule.remember (furthest? earlier) error).Unites (error :: earlier) := by
  induction earlier generalizing error with
  | nil => exact each error List.mem_cons_self
  | cons next earlier inductionHypothesis =>
      have before : (Rule.remember (furthest? earlier) next).Unites (next :: earlier) :=
        inductionHypothesis fun failure member => each failure (List.mem_cons_of_mem _ member)
      exact (before.merge (each error List.mem_cons_self)).swap

end SyntaxError

end SqlDml

/-! ## Spots -/

namespace SqlDml

/-- What a rule can tell about the state of a parse. -/
@[ext] structure Spot where
  settings : Settings
  source : List Char
  /-- The end of input behind the tokens. -/
  stop : Token
  /-- The span of the token consumed last. -/
  last : Span
  /-- The tokens that are not consumed, the end of input left out. -/
  ahead : List Token
  /-- How many parameter markers are numbered. -/
  markers : Nat
  inner : ∀ token ∈ ahead, token.kind ≠ .endOfInput
  ended : stop.kind = .endOfInput

namespace Spot

/-- The token some places ahead; past the last one it is the end of input. -/
def token (spot : Spot) (ahead : Nat) : Token := (spot.ahead[ahead]?).getD spot.stop

/-- The kind of the next token. -/
def kind (spot : Spot) : TokenKind := (spot.token 0).kind

/-- The spot behind the next token.  At the end of input it is the same spot. -/
def next (spot : Spot) : Spot where
  settings := spot.settings
  source := spot.source
  stop := spot.stop
  last := (spot.ahead.head?.map Token.span).getD spot.last
  ahead := spot.ahead.tail
  markers := spot.markers
  inner token member := spot.inner token (List.mem_of_mem_tail member)
  ended := spot.ended

/-- The spot behind the number of one more parameter marker. -/
def mark (spot : Spot) : Spot := { spot with markers := spot.markers + 1 }

variable (spot : Spot)

@[simp] theorem next_settings : spot.next.settings = spot.settings := rfl

@[simp] theorem next_source : spot.next.source = spot.source := rfl

@[simp] theorem next_stop : spot.next.stop = spot.stop := rfl

@[simp] theorem next_last :
    spot.next.last = (spot.ahead.head?.map Token.span).getD spot.last := rfl

@[simp] theorem next_ahead : spot.next.ahead = spot.ahead.tail := rfl

@[simp] theorem next_markers : spot.next.markers = spot.markers := rfl

@[simp] theorem mark_settings : spot.mark.settings = spot.settings := rfl

@[simp] theorem mark_source : spot.mark.source = spot.source := rfl

@[simp] theorem mark_stop : spot.mark.stop = spot.stop := rfl

@[simp] theorem mark_last : spot.mark.last = spot.last := rfl

@[simp] theorem mark_ahead : spot.mark.ahead = spot.ahead := rfl

@[simp] theorem mark_markers : spot.mark.markers = spot.markers + 1 := rfl

end Spot

namespace ParserState

/-- The spot of a state. -/
def spot (state : ParserState) : Spot where
  settings := state.settings
  source := state.source
  stop := if state.stream.stop.kind = .endOfInput then state.stream.stop
    else Token.endAt Position.start
  last := state.stream.previousSpan
  ahead := state.stream.ahead
  markers := state.placeholders
  inner token member := by simpa using List.all_eq_true.mp List.all_takeWhile token member
  ended := by
    split
    · next ended => exact ended
    · rfl

/-- A token that was read. -/
def HasRead (state : ParserState) (token : Token) : Prop :=
  ∃ index, index < state.stream.buffer.size ∧ state.stream.whole[index]? = some token

/-- A position at which a token was read. -/
def Met (state : ParserState) (position : Position) : Prop :=
  ∃ token, state.HasRead token ∧ token.span.position = position

/-- A failure at a token that was read, which it describes. -/
def Describes (state : ParserState) (error : SyntaxError) : Prop :=
  ∃ token expected, state.HasRead token ∧
    error = .ofExpected token.span.position expected token.kind.describe

/-- A failure of a rule: it is at a token that was read, and describes the token if that was
unexpected. -/
def Locates (state : ParserState) : ParseError → Prop
  | .lexical _ => False
  | .unexpected error => state.Describes error
  | .tooDeep _ position => state.Met position

/-- What is kept of the rejected alternatives.  Each failed at a token that was read, and the failure
that is remembered is that of them all. -/
structure Recalls (state : ParserState) : Prop where
  described : ∀ error ∈ state.rejected, state.Describes error
  furthest : state.furthest = SyntaxError.furthest? state.rejected

/-- A state that was reached from the beginning of a source. -/
structure Ready (state : ParserState) : Prop where
  sound : state.stream.Sound
  recalls : state.Recalls

/-- A later state of the same parse. -/
structure Leads (state later : ParserState) : Prop where
  ready : later.Ready
  stream : state.stream.Leads later.stream
  settings : later.settings = state.settings
  source : later.source = state.source

namespace Leads

theorem refl {state : ParserState} (ready : state.Ready) : state.Leads state :=
  ⟨ready, TokenStream.Leads.refl _, rfl, rfl⟩

theorem trans {first second third : ParserState} (left : first.Leads second)
    (right : second.Leads third) : first.Leads third :=
  ⟨right.ready, left.stream.trans right.stream, right.settings.trans left.settings,
    right.source.trans left.source⟩

end Leads

theorem HasRead.of_leads {state later : ParserState} {token : Token} (read : state.HasRead token)
    (leads : state.stream.Leads later.stream) : later.HasRead token := by
  obtain ⟨index, below, found⟩ := read
  exact ⟨index, Nat.lt_of_lt_of_le below leads.read, leads.whole ▸ found⟩

theorem Describes.of_leads {state later : ParserState} {error : SyntaxError}
    (describes : state.Describes error) (leads : state.stream.Leads later.stream) :
    later.Describes error := by
  obtain ⟨token, expected, read, same⟩ := describes
  exact ⟨token, expected, read.of_leads leads, same⟩

/-- Later states recall the same failures, as long as no further alternative is rejected. -/
theorem Recalls.of_leads {state later : ParserState} (recalls : state.Recalls)
    (leads : state.stream.Leads later.stream) (rejected : later.rejected = state.rejected)
    (furthest : later.furthest = state.furthest) : later.Recalls where
  described error member := (recalls.described error (rejected ▸ member)).of_leads leads
  furthest := by rw [furthest, rejected, recalls.furthest]

/-- A failure that is described was met. -/
theorem Describes.met {state : ParserState} {error : SyntaxError}
    (describes : state.Describes error) : state.Met error.position := by
  obtain ⟨token, expected, read, rfl⟩ := describes
  exact ⟨token, read, rfl⟩

/-- The failure of two alternatives describes the token of one of them. -/
theorem Describes.merge {state : ParserState} {left right : SyntaxError}
    (first : state.Describes left) (second : state.Describes right) :
    state.Describes (left.merge right) := by
  unfold SyntaxError.merge
  split
  · exact first
  · exact second
  · obtain ⟨token, expected, read, rfl⟩ := first
    exact ⟨token, _, read, rfl⟩

/-- A state is as ready as another one with the same tokens and the same failures. -/
theorem Ready.alike {state later : ParserState} (ready : state.Ready)
    (stream : later.stream = state.stream) (rejected : later.rejected = state.rejected)
    (furthest : later.furthest = state.furthest) : later.Ready where
  sound := stream ▸ ready.sound
  recalls := ready.recalls.of_leads (stream ▸ .refl _) rejected furthest

/-- The remembered failure was met. -/
theorem Ready.met {state : ParserState} (ready : state.Ready) {error : SyntaxError}
    (remembered : state.furthest = some error) : state.Met error.position := by
  have described := ready.recalls.described
  rw [ready.recalls.furthest] at remembered
  cases rejected : state.rejected with
  | nil => simp [rejected, SyntaxError.furthest?] at remembered
  | cons last earlier =>
      rw [rejected] at described remembered
      cases remembered
      have merged : state.Describes (Rule.remember (SyntaxError.furthest? earlier) last) :=
        SyntaxError.remember_of_merge (fun _ _ => Describes.merge) described
      exact merged.met

theorem Met.of_leads {state later : ParserState} {position : Position} (met : state.Met position)
    (leads : state.stream.Leads later.stream) : later.Met position := by
  obtain ⟨token, read, placed⟩ := met
  exact ⟨token, read.of_leads leads, placed⟩

theorem spot_stop {state : ParserState} (ready : state.Ready) :
    state.spot.stop = state.stream.stop :=
  if_pos ready.sound.stop_kind

/-- The spot is read off the whole list, the cursor and the numbering. -/
theorem spot_eq_of_whole {state later : ParserState} (sound : state.stream.Sound)
    (laterSound : later.stream.Sound) (whole : later.stream.whole = state.stream.whole)
    (cursor : later.stream.cursor = state.stream.cursor)
    (settings : later.settings = state.settings) (source : later.source = state.source)
    (markers : later.placeholders = state.placeholders) : later.spot = state.spot := by
  have stop := TokenStream.stop_eq_of_whole whole
  have ahead := TokenStream.ahead_eq_of_whole whole cursor
  have last := TokenStream.previousSpan_eq_of_whole sound laterSound whole cursor
  unfold spot
  simp only [settings, source, markers, stop, ahead, last]

/-- The state behind a rejected alternative, which goes on from where the alternative began. -/
def resumed (state later : ParserState) (error : SyntaxError) : ParserState :=
  { later with
    stream := later.stream.reset state.stream.cursor
    depth := state.depth
    placeholders := state.placeholders
    rejected := error :: later.rejected
    furthest := some (Rule.remember later.furthest error) }

/-- Before the first alternative nothing is remembered. -/
theorem recalls_nothing {state : ParserState} (none_ : state.rejected = [])
    (nothing : state.furthest = none) : state.Recalls :=
  ⟨by simp [none_], by rw [nothing, none_]; rfl⟩

theorem ready_ofSource (source : String) (settings : Settings) :
    (ofSource source settings).Ready :=
  ⟨TokenStream.sound_ofSource source settings, recalls_nothing rfl rfl⟩

end ParserState

namespace Spot

/-- A stream that has read all tokens of a spot. -/
def stream (spot : Spot) : TokenStream where
  lexer := Lexer.ofSource "" spot.settings
  buffer := (⟨.integer 0, spot.last⟩ :: (spot.ahead ++ [spot.stop])).toArray
  cursor := 1
  parked := none

/-- A state at a spot. -/
def state (spot : Spot) : ParserState where
  settings := spot.settings
  source := spot.source
  stream := spot.stream
  depth := 0
  placeholders := spot.markers
  furthest := none
  rejected := []
  depthTrips := 0

theorem stream_isExhausted (spot : Spot) : spot.stream.isExhausted = true := by
  simp [TokenStream.isExhausted, stream, spot.ended, List.getLast?_cons, List.getLast?_append]

theorem stream_whole (spot : Spot) :
    spot.stream.whole = ⟨.integer 0, spot.last⟩ :: (spot.ahead ++ [spot.stop]) := by
  rw [TokenStream.whole_of_exhausted spot.stream_isExhausted]
  rfl

theorem stream_sound (spot : Spot) : spot.stream.Sound := by
  refine ⟨?_, ?_, ?_, ?_, ?_⟩
  · simp [spot.stream_isExhausted]
  · simp [spot.stream_isExhausted]
  · rw [stream_whole]
    refine ⟨⟨.integer 0, spot.last⟩ :: spot.ahead, spot.stop, rfl, ?_, spot.ended⟩
    intro token member
    rcases List.mem_cons.mp member with rfl | member
    · simp
    · exact spot.inner token member
  · simp [stream]
  · rw [stream_whole]
    simp [stream]

theorem state_ready (spot : Spot) : spot.state.Ready :=
  ⟨spot.stream_sound, ParserState.recalls_nothing rfl rfl⟩

@[simp] theorem state_spot (spot : Spot) : spot.state.spot = spot := by
  have dropped := spot.stream_sound.drop_cursor
  have cursor : spot.stream.cursor = 1 := rfl
  rw [stream_whole, cursor] at dropped
  have parts := List.append_inj' (show spot.ahead ++ [spot.stop] = _ from dropped) rfl
  ext1
  · rfl
  · rfl
  · rw [ParserState.spot_stop spot.state_ready]
    exact (List.singleton_inj.mp parts.2).symm
  · rfl
  · exact parts.1.symm
  · rfl

end Spot

end SqlDml
