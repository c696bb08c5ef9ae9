import SqlDml.Proofs.Lexing.Taken

/-!
Contract: a source as a sequence of trivia and tokens.

Owns:
- the trivia that a lexer skips in front of a token;
- the items of a text: each token with its characters and the trivia in front of it;
- the next token of a lexer, read off its text.

Does not own: whole runs of a lexer, and what a token means.
-/

namespace SqlDml

open SqlDml.Text

/-- The trivia that is skipped, piece by piece, in front of a rest. -/
inductive Trivia.Run : List Char → List Char → Prop where
  | nothing (rest : List Char) : Trivia.Run [] rest
  | piece {taken trivia rest : List Char}
      (found : Trivia.first (taken ++ (trivia ++ rest)) = .piece taken (trivia ++ rest))
      (run : Trivia.Run trivia rest) : Trivia.Run (taken ++ trivia) rest

namespace Lexer

/-- The lexer counts the bytes of its source rightly. -/
def Sound (lexer : Lexer) : Prop :=
  lexer.size = lexer.position.offset + byteCount lexer.rest

theorem bytesAhead_eq {lexer : Lexer} (sound : lexer.Sound) :
    lexer.bytesAhead = byteCount lexer.rest := by
  unfold bytesAhead
  rw [sound, Nat.add_sub_cancel_left]

theorem move_move (lexer : Lexer) (first firstRest second secondRest : List Char) :
    (lexer.move first firstRest).move second secondRest =
      lexer.move (first ++ second) secondRest := by
  simp [move, Position.advanceAll_append]

theorem move_nil (lexer : Lexer) : lexer.move [] lexer.rest = lexer := rfl

theorem Sound.move {lexer : Lexer} {taken rest : List Char} (sound : lexer.Sound)
    (split : lexer.rest = taken ++ rest) : (lexer.move taken rest).Sound := by
  unfold Sound at sound ⊢
  simp only [Lexer.move, Position.advanceAll_offset]
  rw [sound, split, byteCount_append, Nat.add_assoc]

/-! ### Trivia -/

/-- Where the skipped trivia ends, either a token follows or a comment that has no end. -/
theorem skipTriviaWith_run (fuel : Nat) (lexer : Lexer) (enough : byteCount lexer.rest ≤ fuel) :
    ∃ trivia rest, lexer.rest = trivia ++ rest ∧ Trivia.Run trivia rest ∧
      ((Trivia.first rest = .absent ∧
          skipTriviaWith fuel lexer = (none, lexer.move trivia rest)) ∨
        (Trivia.first rest = .openComment ∧
          skipTriviaWith fuel lexer =
            (some ⟨.unterminatedComment, lexer.position.advanceAll trivia⟩,
              lexer.move (trivia ++ rest) []))) := by
  induction fuel generalizing lexer with
  | zero =>
      have ended : lexer.rest = [] := by
        by_contra nonempty
        have positive := byteCount_pos nonempty
        omega
      refine ⟨[], lexer.rest, rfl, .nothing _, .inl ⟨?_, rfl⟩⟩
      rw [ended]
      rfl
  | succ fuel inductionHypothesis =>
      rw [skipTriviaWith]
      split
      · next found => exact ⟨[], lexer.rest, rfl, .nothing _, .inl ⟨found, rfl⟩⟩
      · next taken after found =>
          obtain ⟨joined, nonempty⟩ := Trivia.first_eq_piece found
          have positive := byteCount_pos nonempty
          rw [← joined, byteCount_append] at enough
          obtain ⟨trivia, rest, split, run, outcome⟩ :=
            inductionHypothesis (lexer.move taken after) (by simp only [Lexer.move]; omega)
          simp only [Lexer.move] at split
          refine ⟨taken ++ trivia, rest, by rw [← joined, split, List.append_assoc], ?_, ?_⟩
          · refine .piece ?_ run
            rw [← split, joined, found]
          · simpa only [move_move, List.append_assoc, Lexer.move, Position.advanceAll_append]
              using outcome
      · next found =>
          exact ⟨[], lexer.rest, rfl, .nothing _, .inr ⟨found, rfl⟩⟩

/-- A run of trivia in front of a token is skipped. -/
theorem skipTriviaWith_of_run {trivia rest : List Char} (run : Trivia.Run trivia rest)
    (front : Trivia.first rest = .absent) (fuel : Nat) (lexer : Lexer)
    (split : lexer.rest = trivia ++ rest) (enough : byteCount lexer.rest ≤ fuel) :
    skipTriviaWith fuel lexer = (none, lexer.move trivia rest) := by
  induction run generalizing fuel lexer with
  | nothing rest =>
      rw [List.nil_append] at split
      cases fuel with
      | zero => rw [skipTriviaWith, ← split, move_nil]
      | succ fuel => rw [skipTriviaWith, split, front, ← split, move_nil]
  | @piece taken trivia rest found _ inductionHypothesis =>
      rw [List.append_assoc] at split
      have positive := byteCount_pos (Trivia.first_eq_piece found).2
      rw [split, byteCount_append] at enough
      obtain ⟨smaller, rfl⟩ : ∃ smaller, fuel = smaller + 1 := ⟨fuel - 1, by omega⟩
      rw [skipTriviaWith, split, found]
      dsimp only
      rw [inductionHypothesis front smaller _ rfl (by simp only [Lexer.move]; omega), move_move]

end Lexer

/-! ### Items -/

/-- A token of a text: its characters, and the trivia in front of it. -/
structure Item where
  trivia : List Char
  kind : TokenKind
  text : List Char

namespace Item

/-- All characters of an item. -/
def chars (item : Item) : List Char := item.trivia ++ item.text

/-- The token of an item that begins at a position. -/
def place (position : Position) (item : Item) : Token :=
  ⟨item.kind, Span.between (position.advanceAll item.trivia) (position.advanceAll item.chars)⟩

/-- The lexer reads an item in front of a rest. -/
structure ReadBefore (settings : Settings) (item : Item) (rest : List Char) : Prop where
  trivia : Trivia.Run item.trivia (item.text ++ rest)
  front : Trivia.first (item.text ++ rest) = .absent
  scan : scanLexeme settings (byteCount (item.text ++ rest)) (item.text ++ rest) =
    .token item.kind item.text rest

end Item

namespace Lexer

theorem scanToken_eq {lexer : Lexer} (fits : lexer.size ≤ maxSourceLength) :
    lexer.scanToken =
      match lexer.skipTrivia with
      | (some error, lexer) => (.error error, lexer)
      | (none, lexer) =>
          let lexeme := scanLexeme lexer.settings lexer.bytesAhead lexer.rest
          let after := lexer.move lexeme.taken lexeme.rest
          match lexeme.outcome with
          | .ok kind => (.ok ⟨kind, Span.between lexer.position after.position⟩, after)
          | .error kind => (.error ⟨kind, lexer.position⟩, after) :=
  if_neg (Nat.not_lt.mpr fits)

/-- A text that begins with no trivia is scanned from its first character. -/
theorem scanToken_of_absent {lexer : Lexer} (sound : lexer.Sound)
    (fits : lexer.size ≤ maxSourceLength) (front : Trivia.first lexer.rest = .absent) :
    lexer.scanToken =
      let lexeme := scanLexeme lexer.settings (byteCount lexer.rest) lexer.rest
      let after := lexer.move lexeme.taken lexeme.rest
      match lexeme.outcome with
      | .ok kind => (.ok ⟨kind, Span.between lexer.position after.position⟩, after)
      | .error kind => (.error ⟨kind, lexer.position⟩, after) := by
  have skipped : lexer.skipTrivia = (none, lexer.move [] lexer.rest) :=
    skipTriviaWith_of_run (.nothing lexer.rest) front _ lexer rfl
      (Nat.le_of_eq (bytesAhead_eq sound).symm)
  rw [scanToken_eq fits, skipped, move_nil, ← bytesAhead_eq sound]

/-- The lexer behind an item. -/
def past (lexer : Lexer) (item : Item) (rest : List Char) : Lexer :=
  { lexer.move item.chars rest with tokens := lexer.tokens + 1 }

/-- A lexer in front of an item reads its token. -/
theorem nextToken_of_readBefore {lexer : Lexer} {item : Item} {rest : List Char}
    (sound : lexer.Sound) (fits : lexer.size ≤ maxSourceLength)
    (split : lexer.rest = item.chars ++ rest)
    (read : item.ReadBefore lexer.settings rest) :
    lexer.nextToken = (.ok (item.place lexer.position), lexer.past item rest) := by
  have splitTrivia : lexer.rest = item.trivia ++ (item.text ++ rest) := by
    rw [split, Item.chars, List.append_assoc]
  have skipped : lexer.skipTrivia = (none, lexer.move item.trivia (item.text ++ rest)) :=
    skipTriviaWith_of_run read.trivia read.front _ lexer splitTrivia
      (Nat.le_of_eq (bytesAhead_eq sound).symm)
  have ahead := bytesAhead_eq (sound.move splitTrivia)
  unfold nextToken
  rw [scanToken_eq fits, skipped]
  simp only [ahead]
  simp only [Lexer.move, read.scan, Lexeme.token]
  simp [Item.place, past, Lexer.move, Item.chars, Position.advanceAll_append]

theorem nextToken_of_scanToken_error {lexer after : Lexer} {error : LexError}
    (scanned : lexer.scanToken = (.error error, after)) :
    lexer.nextToken = (.error error, { after with errors := after.errors + 1 }) := by
  rw [nextToken, scanned]

/-- All that a call for the next token can do: it refuses a source that is too long, it reads an
item, or it fails behind all trivia, where it takes nothing only before an unexpected
character. -/
inductive Call (lexer : Lexer) : Except LexError Token × Lexer → Prop where
  | refused (long : maxSourceLength < lexer.size) :
      Call lexer (.error ⟨.inputTooLarge lexer.size, Position.start⟩,
        { lexer with errors := lexer.errors + 1 })
  | item {item : Item} {rest : List Char} (fits : lexer.size ≤ maxSourceLength)
      (split : lexer.rest = item.chars ++ rest) (read : item.ReadBefore lexer.settings rest) :
      Call lexer (.ok (item.place lexer.position), lexer.past item rest)
  | failed {trivia taken rest : List Char} {kind : LexErrorKind}
      (fits : lexer.size ≤ maxSourceLength) (split : lexer.rest = trivia ++ (taken ++ rest))
      (front : ∀ taken' rest', Trivia.first (taken ++ rest) ≠ .piece taken' rest')
      (stuck : taken = [] → ∃ char, kind = .unexpectedChar char) :
      Call lexer (.error ⟨kind, lexer.position.advanceAll trivia⟩,
        { lexer.move (trivia ++ taken) rest with errors := lexer.errors + 1 })

/-- What a call does where its lexer stands in front of no trivia. -/
theorem call_of_absent {lexer : Lexer} (sound : lexer.Sound) (fits : lexer.size ≤ maxSourceLength)
    {trivia rest : List Char} (split : lexer.rest = trivia ++ rest)
    (run : Trivia.Run trivia rest) (front : Trivia.first rest = .absent)
    (skipped : skipTriviaWith lexer.bytesAhead lexer = (none, lexer.move trivia rest)) :
    lexer.Call lexer.nextToken := by
  have ahead := bytesAhead_eq (sound.move split)
  have splits := scanLexeme_splits lexer.settings (byteCount rest) rest
  have takes : ∀ kind, (scanLexeme lexer.settings (byteCount rest) rest).outcome = .error kind →
      (scanLexeme lexer.settings (byteCount rest) rest).taken = [] →
      ∃ char, kind = .unexpectedChar char := by
    intro kind fails nothing
    cases rest with
    | nil => cases fails
    | cons first rest =>
        rcases scanLexeme_takes lexer.settings (byteCount (first :: rest)) first rest with
          something | unexpected
        · exact absurd nothing something
        · exact ⟨first, Except.error.inj (fails.symm.trans unexpected)⟩
  generalize scanned : scanLexeme lexer.settings (byteCount rest) rest = lexeme at splits takes
  obtain ⟨outcome, taken, after⟩ := lexeme
  simp only [Lexeme.Splits] at splits
  subst splits
  cases outcome with
  | ok kind =>
      have read : Item.ReadBefore lexer.settings ⟨trivia, kind, taken⟩ after :=
        ⟨run, front, scanned⟩
      have splitItem : lexer.rest = (trivia ++ taken) ++ after := by
        rw [split, List.append_assoc]
      rw [nextToken_of_readBefore sound fits splitItem read]
      exact .item fits splitItem read
  | error kind =>
      have fails : lexer.scanToken =
          (.error ⟨kind, lexer.position.advanceAll trivia⟩,
            lexer.move (trivia ++ taken) after) := by
        rw [scanToken_eq fits]
        unfold skipTrivia
        rw [skipped]
        simp only [ahead]
        simp only [Lexer.move, scanned, Position.advanceAll_append]
      rw [nextToken_of_scanToken_error fails]
      exact .failed fits split (by simp [front]) (takes kind rfl)

theorem nextToken_call {lexer : Lexer} (sound : lexer.Sound) : lexer.Call lexer.nextToken := by
  rcases Nat.lt_or_ge maxSourceLength lexer.size with long | fits
  · have scanned : lexer.scanToken =
        (.error ⟨.inputTooLarge lexer.size, Position.start⟩, lexer) := by
      rw [scanToken, if_pos long]
    rw [nextToken_of_scanToken_error scanned]
    exact .refused long
  · obtain ⟨trivia, rest, split, run, ⟨front, skipped⟩ | ⟨front, skipped⟩⟩ :=
      skipTriviaWith_run lexer.bytesAhead lexer (Nat.le_of_eq (bytesAhead_eq sound).symm)
    · exact call_of_absent sound fits split run front skipped
    · have scanned : lexer.scanToken =
          (.error ⟨.unterminatedComment, lexer.position.advanceAll trivia⟩,
            lexer.move (trivia ++ rest) []) := by
        rw [scanToken_eq fits]
        unfold skipTrivia
        rw [skipped]
      rw [nextToken_of_scanToken_error scanned]
      refine .failed fits (by rw [split, List.append_nil]) (by simp [front]) fun nothing => ?_
      rw [nothing] at front
      cases front

/-- A lexer reads an item or fails, and it fails no earlier than it stands. -/
theorem nextToken_cases {lexer : Lexer} (sound : lexer.Sound) :
    (∃ item rest, lexer.size ≤ maxSourceLength ∧ lexer.rest = item.chars ++ rest ∧
        item.ReadBefore lexer.settings rest ∧
        lexer.nextToken = (.ok (item.place lexer.position), lexer.past item rest)) ∨
      ∃ error after, lexer.nextToken = (.error error, after) ∧
        (lexer.size ≤ maxSourceLength → lexer.position.offset ≤ error.position.offset) := by
  have call := nextToken_call sound
  generalize lexer.nextToken = result at call
  cases call with
  | refused long => exact .inr ⟨_, _, rfl, fun fits => absurd fits (Nat.not_le.mpr long)⟩
  | item fits split read => exact .inl ⟨_, _, fits, split, read, rfl⟩
  | failed => exact .inr ⟨_, _, rfl, fun _ => by simp⟩

end Lexer

namespace Item.ReadBefore

variable {settings : Settings} {item : Item} {rest : List Char}

theorem text_ne_nil (read : item.ReadBefore settings rest) (inner : item.kind ≠ .endOfInput) :
    item.text ≠ [] := by
  have scan := read.scan
  cases whole : item.text ++ rest with
  | nil =>
      rw [whole] at scan
      simp only [scanLexeme, Lexeme.token, Lexeme.mk.injEq, Except.ok.injEq] at scan
      exact absurd scan.1.symm inner
  | cons first others =>
      have takes := scanLexeme_inner settings (byteCount (item.text ++ rest)) first others
      rw [← whole, scan] at takes
      exact (takes item.kind rfl).2

end Item.ReadBefore

end SqlDml
