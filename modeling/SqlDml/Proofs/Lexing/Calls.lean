import SqlDml.Proofs.Lexing.Items
import SqlDml.Proofs.Text.Positions

/-!
Contract: call after call for the next token, also after failures.

Owns:
- the place where a lexer stands in its source after any number of calls;
- that every place a call tells is true, and how a call moves;
- that a source that is too long is refused by every call, which moves nothing;
- that the tokens of a run begin, and its failure is met, in front of no blank.

Does not own: which tokens the calls give.
-/

namespace SqlDml

open Text

namespace Position

/-- A position in a text that stands in front of no blank: in front of some other character, or at the
end. -/
def Marks (position : Position) (source : List Char) : Prop :=
  ∃ before after, source = before ++ after ∧ position = start.advanceAll before ∧
    ∀ char ∈ after.head?, isBlank char = false

end Position

/-- Where no trivia begins, no blank stands. -/
theorem Trivia.visible_of_first {chars : List Char}
    (front : ∀ taken rest, Trivia.first chars ≠ .piece taken rest) :
    ∀ char ∈ chars.head?, isBlank char = false := by
  cases chars with
  | nil => nofun
  | cons char rest =>
      rintro _ ⟨⟩
      by_contra blank
      exact front _ _ (Trivia.first_of_blank (by simpa using blank))

namespace Lexer

/-! ### Where a lexer stands -/

/-- A lexer stands in a source behind the part of it that it has read.  Of a source that is too long
it has read nothing. -/
structure Stands (source : String) (lexer : Lexer) : Prop where
  size : lexer.size = source.utf8ByteSize
  place : ∃ before, source.toList = before ++ lexer.rest ∧
    lexer.position = Position.start.advanceAll before ∧
    (source.utf8ByteSize ≤ maxSourceLength ∨ before = [])

namespace Stands

variable {source : String} {lexer : Lexer}

theorem sound (stands : lexer.Stands source) : lexer.Sound := by
  obtain ⟨before, split, position, _⟩ := stands.place
  rw [Sound, stands.size, utf8ByteSize_eq_byteCount, split, position, Position.advanceAll_offset,
    byteCount_append]
  simp [Position.start]

/-- The position of a lexer is in its source. -/
theorem keptIn (stands : lexer.Stands source) : lexer.position.KeptIn source := by
  obtain ⟨before, split, position, reached⟩ := stands.place
  rw [position]
  exact Position.keptIn_advanceAll split reached

/-- The lexer behind what it reads next. -/
theorem move (stands : lexer.Stands source) (fits : source.utf8ByteSize ≤ maxSourceLength)
    {taken rest : List Char} (split : lexer.rest = taken ++ rest) :
    (lexer.move taken rest).Stands source := by
  obtain ⟨before, whole, position, _⟩ := stands.place
  refine ⟨stands.size, before ++ taken, ?_, ?_, .inl fits⟩
  · rw [whole, split, List.append_assoc]
    rfl
  · rw [Position.advanceAll_append, ← position]
    rfl

/-- The places ahead of a lexer are in its source. -/
theorem keptIn_ahead (stands : lexer.Stands source)
    (fits : source.utf8ByteSize ≤ maxSourceLength) {taken rest : List Char}
    (split : lexer.rest = taken ++ rest) : (lexer.position.advanceAll taken).KeptIn source :=
  (stands.move fits split).keptIn

/-- Behind its trivia a lexer stands in front of no blank. -/
theorem marks (stands : lexer.Stands source) {trivia rest : List Char}
    (split : lexer.rest = trivia ++ rest)
    (front : ∀ taken left, Trivia.first rest ≠ .piece taken left) :
    (lexer.position.advanceAll trivia).Marks source.toList := by
  obtain ⟨before, whole, position, _⟩ := stands.place
  refine ⟨before ++ trivia, rest, ?_, ?_, Trivia.visible_of_first front⟩
  · rw [whole, split, List.append_assoc]
  · rw [position, Position.advanceAll_append]

/-- How much is counted says nothing about the place. -/
theorem counted (stands : lexer.Stands source) (tokens errors : Nat) :
    { lexer with tokens := tokens, errors := errors }.Stands source :=
  ⟨stands.size, stands.place⟩

theorem ofSource (source : String) (settings : Settings) :
    (Lexer.ofSource source settings).Stands source :=
  ⟨rfl, [], rfl, rfl, .inr rfl⟩

/-- Where nothing is left to read, the lexer stands at the end of its source. -/
theorem offset_of_rest_eq_nil (stands : lexer.Stands source) (ended : lexer.rest = []) :
    lexer.position.offset = source.utf8ByteSize := by
  have sound := stands.sound
  rw [Sound, ended, stands.size] at sound
  exact sound.symm

end Stands

/-! ### One call -/

/-- What a call for the next token tells, where the lexer stood in front of it and where it stands
behind it.  Every call moves on, or tells the end of the source or an unexpected character; but a
source of more bytes than a position can count is refused, and nothing moves. -/
structure Tells (source : String) (before : Position) (result : Except LexError Token)
    (after : Position) : Prop where
  stood : before.KeptIn source
  stands : after.KeptIn source
  token : ∀ token, result = .ok token →
    token.span.position.KeptIn source ∧ token.span.stop = after.offset
  error : ∀ error, result = .error error → error.position.KeptIn source
  onward : before.offset ≤ after.offset
  ended : ∀ token, result = .ok token → token.kind = .endOfInput →
    after.offset = source.utf8ByteSize
  moves : source.utf8ByteSize ≤ maxSourceLength →
    before.offset < after.offset ∨
      (after = before ∧ ∃ token, result = .ok token ∧ token.kind = .endOfInput) ∨
      (after = before ∧ ∃ error char, result = .error error ∧ error.kind = .unexpectedChar char)
  refused : maxSourceLength < source.utf8ByteSize →
    after = before ∧ result = .error ⟨.inputTooLarge source.utf8ByteSize, Position.start⟩

variable {source : String} {lexer : Lexer}

theorem offset_lt_advanceAll (position : Position) {taken : List Char} (some_ : taken ≠ []) :
    position.offset < (position.advanceAll taken).offset := by
  have positive := byteCount_pos some_
  rw [Position.advanceAll_offset]
  omega

theorem tells_of_call (stands : lexer.Stands source) {result : Except LexError Token}
    {after : Lexer} (call : lexer.Call (result, after)) :
    after.Stands source ∧ Tells source lexer.position result after.position := by
  have size := stands.size
  cases call with
  | refused long =>
      refine ⟨stands.counted _ _, stands.keptIn, stands.keptIn, ?_, ?_, Nat.le_refl _, ?_,
        fun fits => absurd fits (by rw [← size]; exact Nat.not_le.mpr long),
        fun _ => ⟨rfl, by rw [size]⟩⟩
      · rintro _ ⟨⟩
      · rintro _ ⟨⟩
        exact Position.keptIn_advanceAll (List.nil_append source.toList).symm (.inr rfl)
      · rintro _ ⟨⟩
  | @item item rest fits split read =>
      rw [size] at fits
      have behind : (lexer.past item rest).Stands source := (stands.move fits split).counted _ _
      have splitTrivia : lexer.rest = item.trivia ++ (item.text ++ rest) := by
        rw [split, Item.chars, List.append_assoc]
      refine ⟨behind, stands.keptIn, behind.keptIn, ?_, ?_, ?_, ?_, fun _ => ?_,
        fun long => absurd fits (Nat.not_le.mpr long)⟩
      · rintro _ ⟨⟩
        exact ⟨stands.keptIn_ahead fits splitTrivia, rfl⟩
      · rintro _ ⟨⟩
      · rw [past_position, Position.advanceAll_offset]
        exact Nat.le_add_right _ _
      · rintro _ ⟨⟩ stops
        exact behind.offset_of_rest_eq_nil (read.ended stops).2
      · by_cases nothing : item.chars = []
        · have stops : item.kind = .endOfInput := by
            by_contra inner
            exact read.text_ne_nil inner (List.append_eq_nil_iff.mp nothing).2
          rw [past_position, nothing]
          exact .inr (.inl ⟨rfl, _, rfl, stops⟩)
        · exact .inl (offset_lt_advanceAll _ nothing)
  | @failed trivia taken rest kind fits split _ stuck =>
      rw [size] at fits
      have splitTaken : lexer.rest = (trivia ++ taken) ++ rest := by
        rw [split, List.append_assoc]
      have behind := stands.move fits splitTaken
      refine ⟨behind.counted _ _, stands.keptIn, behind.keptIn, ?_, ?_, ?_, ?_, fun _ => ?_,
        fun long => absurd fits (Nat.not_le.mpr long)⟩
      · rintro _ ⟨⟩
      · rintro _ ⟨⟩
        exact stands.keptIn_ahead fits split
      · rw [Lexer.move, Position.advanceAll_offset]
        exact Nat.le_add_right _ _
      · rintro _ ⟨⟩
      · by_cases nothing : trivia ++ taken = []
        · obtain ⟨char, rfl⟩ := stuck (List.append_eq_nil_iff.mp nothing).2
          rw [nothing]
          exact .inr (.inr ⟨rfl, _, char, rfl, rfl⟩)
        · exact .inl (offset_lt_advanceAll _ nothing)

/-! ### Any number of calls -/

/-- The lexer behind a number of calls for the next token, whatever they gave. -/
def afterCalls : Nat → Lexer → Lexer
  | 0, lexer => lexer
  | calls + 1, lexer => afterCalls calls lexer.nextToken.2

theorem Stands.afterCalls (stands : lexer.Stands source) (calls : Nat) :
    (lexer.afterCalls calls).Stands source := by
  induction calls generalizing lexer with
  | zero => exact stands
  | succ calls inductionHypothesis =>
      exact inductionHypothesis (tells_of_call stands (nextToken_call stands.sound)).1

/-- Behind any number of calls, all places that the next call tells are true, and it goes on. -/
theorem calls_tell_true_places (source : String) (settings : Settings) (calls : Nat) :
    let lexer := (ofSource source settings).afterCalls calls
    Tells source lexer.position lexer.nextToken.1 lexer.nextToken.2.position := by
  intro lexer
  have stands : lexer.Stands source := (Stands.ofSource source settings).afterCalls calls
  exact (tells_of_call stands (nextToken_call stands.sound)).2

/-- A call for a token of a source that is too long neither moves nor meets the end or a character. -/
theorem stays_of_long {source : String} (settings : Settings)
    (long : maxSourceLength < source.utf8ByteSize) :
    let lexer := ofSource source settings
    ¬ (lexer.position.offset < lexer.nextToken.2.position.offset ∨
      (∃ token, lexer.nextToken.1 = .ok token ∧ token.kind = .endOfInput) ∨
      ∃ error char, lexer.nextToken.1 = .error error ∧ error.kind = .unexpectedChar char) := by
  intro lexer
  have stands : lexer.Stands source := .ofSource source settings
  have tells : Tells source lexer.position lexer.nextToken.1 lexer.nextToken.2.position :=
    (tells_of_call stands (nextToken_call stands.sound)).2
  rw [(tells.refused long).1, (tells.refused long).2]
  rintro (onward | ⟨token, given, _⟩ | ⟨error, char, met, unexpected⟩)
  · exact Nat.lt_irrefl _ onward
  · cases given
  · cases met
    cases unexpected

/-- One blank more than a source may have, and no call gets on. -/
theorem blanks_hold_up_lexer :
    let lexer := ofSource (String.ofList (List.replicate (maxSourceLength + 1) ' ')) {}
    ¬ (lexer.position.offset < lexer.nextToken.2.position.offset ∨
      (∃ token, lexer.nextToken.1 = .ok token ∧ token.kind = .endOfInput) ∨
      ∃ error char, lexer.nextToken.1 = .error error ∧ error.kind = .unexpectedChar char) := by
  apply stays_of_long
  rw [utf8ByteSize_blanks]
  exact Nat.lt_succ_self maxSourceLength

/-! ### A run -/

/-- The tokens of a run begin in front of no blank, and so does the end of input that stands in the
place of a failure. -/
theorem Stands.marks_closed_run (stands : lexer.Stands source)
    (fits : source.utf8ByteSize ≤ maxSourceLength) :
    ∀ token ∈ lexer.run.closed, token.span.position.Marks source.toList := by
  have sound := stands.sound
  induction lexer, sound using run_induction with
  | failed lexer after error sound next _ =>
      have call := nextToken_call sound
      rw [next] at call
      rw [run_of_error next]
      simp only [TokenRun.closed, List.nil_append, List.mem_singleton, forall_eq]
      cases call with
      | refused long => exact absurd long (Nat.not_lt.mpr (stands.size ▸ fits))
      | failed _ split front _ => exact stands.marks split front
  | ended lexer item rest _ _ split read next stops =>
      rw [run_of_end next stops]
      simp only [TokenRun.closed, List.mem_singleton, forall_eq]
      rw [Item.chars, List.append_assoc] at split
      exact stands.marks split (by simp [read.front])
  | inner lexer item rest sound _ split read next stops inductionHypothesis =>
      have behind : (lexer.past item rest).Stands source :=
        (stands.move fits split).counted _ _
      rw [run_of_inner sound split read next stops, TokenRun.closed_cons]
      rw [Item.chars, List.append_assoc] at split
      refine List.forall_mem_cons.mpr ⟨?_, inductionHypothesis behind⟩
      exact stands.marks split (by simp [read.front])

end Lexer

end SqlDml
