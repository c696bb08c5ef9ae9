import SqlDml.Proofs.Lexing.Scanned

/-!
Contract: a lexer that is run to its end.

Owns:
- the complete run of a lexer, independent of any bound on its length;
- the tokens that a run gives, with an end of input in the place of a failure;
- the order of the places of tokens, and the bound on their number.

Does not own: reading a run piece by piece; that is the token stream.
-/

namespace SqlDml

open SqlDml.Text

namespace Lexer

theorem Sound.past {lexer : Lexer} {item : Item} {rest : List Char} (sound : lexer.Sound)
    (split : lexer.rest = item.chars ++ rest) : (lexer.past item rest).Sound :=
  sound.move split

theorem Sound.ofSource (source : String) (settings : Settings) :
    (Lexer.ofSource source settings).Sound := by
  simp [Sound, Lexer.ofSource, Position.start, utf8ByteSize_eq_byteCount]

@[simp] theorem past_rest (lexer : Lexer) (item : Item) (rest : List Char) :
    (lexer.past item rest).rest = rest := rfl

@[simp] theorem past_settings (lexer : Lexer) (item : Item) (rest : List Char) :
    (lexer.past item rest).settings = lexer.settings := rfl

@[simp] theorem past_size (lexer : Lexer) (item : Item) (rest : List Char) :
    (lexer.past item rest).size = lexer.size := rfl

@[simp] theorem past_position (lexer : Lexer) (item : Item) (rest : List Char) :
    (lexer.past item rest).position = lexer.position.advanceAll item.chars := rfl

/-- An inner item leaves fewer bytes to read. -/
theorem byteCount_rest_lt {lexer : Lexer} {item : Item} {rest : List Char}
    (split : lexer.rest = item.chars ++ rest) (read : item.ReadBefore lexer.settings rest)
    (inner : item.kind ≠ .endOfInput) : byteCount rest < byteCount lexer.rest := by
  have positive := byteCount_pos (read.text_ne_nil inner)
  rw [split, Item.chars, byteCount_append, byteCount_append]
  omega

/-! ### The complete run -/

/-- Two bounds that both suffice give the same run. -/
theorem runWith_eq_runWith (fuel : Nat) :
    ∀ (other : Nat) (lexer : Lexer), lexer.Sound → byteCount lexer.rest < fuel →
      byteCount lexer.rest < other → runWith fuel lexer = runWith other lexer := by
  induction fuel with
  | zero => intro other lexer sound enough; omega
  | succ fuel inductionHypothesis =>
      intro other lexer sound enough otherEnough
      obtain ⟨other, rfl⟩ : ∃ smaller, other = smaller + 1 := ⟨other - 1, by omega⟩
      rw [runWith, runWith]
      rcases nextToken_cases sound with
        ⟨item, rest, _, split, read, next⟩ | ⟨error, after, next, _⟩
      · rw [next]
        dsimp only
        by_cases ended : item.kind = .endOfInput
        · simp [Item.place, ended]
        · have shorter := byteCount_rest_lt split read ended
          have same := inductionHypothesis other (lexer.past item rest) (sound.past split)
            (by rw [past_rest]; omega) (by rw [past_rest]; omega)
          simp [Item.place, ended, same]
      · rw [next]

/-- The run of a lexer to the end of input or to the first failure. -/
def run (lexer : Lexer) : TokenRun := runWith (lexer.bytesAhead + 1) lexer

theorem runWith_eq_run {lexer : Lexer} (sound : lexer.Sound) {fuel : Nat}
    (enough : byteCount lexer.rest < fuel) : runWith fuel lexer = lexer.run :=
  runWith_eq_runWith fuel _ lexer sound enough (by rw [bytesAhead_eq sound]; omega)

theorem run_of_error {lexer after : Lexer} {error : LexError}
    (next : lexer.nextToken = (.error error, after)) : lexer.run = ⟨[], some error⟩ := by
  rw [run, runWith, next]

theorem run_of_end {lexer after : Lexer} {token : Token}
    (next : lexer.nextToken = (.ok token, after)) (ended : token.kind = .endOfInput) :
    lexer.run = ⟨[token], none⟩ := by
  rw [run, runWith, next]
  simp [ended]

theorem run_of_inner {lexer : Lexer} (sound : lexer.Sound) {item : Item} {rest : List Char}
    (split : lexer.rest = item.chars ++ rest) (read : item.ReadBefore lexer.settings rest)
    (next : lexer.nextToken = (.ok (item.place lexer.position), lexer.past item rest))
    (inner : item.kind ≠ .endOfInput) :
    lexer.run = (lexer.past item rest).run.cons (item.place lexer.position) := by
  have shorter := byteCount_rest_lt split read inner
  have same : runWith lexer.bytesAhead (lexer.past item rest) = (lexer.past item rest).run :=
    runWith_eq_run (sound.past split) (by rw [past_rest, bytesAhead_eq sound]; exact shorter)
  rw [run, runWith, next]
  simp only
  rw [if_neg (by exact inner), same]

/-- Reasoning about the runs of all lexers: at a failure, at the end of input, and behind an inner
item whose lexer is already understood. -/
theorem run_induction {motive : (lexer : Lexer) → lexer.Sound → Prop}
    (failed : ∀ (lexer after : Lexer) (error : LexError) (sound : lexer.Sound),
      lexer.nextToken = (.error error, after) →
      (lexer.size ≤ maxSourceLength → lexer.position.offset ≤ error.position.offset) →
      motive lexer sound)
    (ended : ∀ (lexer : Lexer) (item : Item) (rest : List Char) (sound : lexer.Sound),
      lexer.size ≤ maxSourceLength → lexer.rest = item.chars ++ rest →
      item.ReadBefore lexer.settings rest →
      lexer.nextToken = (.ok (item.place lexer.position), lexer.past item rest) →
      item.kind = .endOfInput → motive lexer sound)
    (inner : ∀ (lexer : Lexer) (item : Item) (rest : List Char) (sound : lexer.Sound),
      lexer.size ≤ maxSourceLength → (split : lexer.rest = item.chars ++ rest) →
      item.ReadBefore lexer.settings rest →
      lexer.nextToken = (.ok (item.place lexer.position), lexer.past item rest) →
      item.kind ≠ .endOfInput → motive (lexer.past item rest) (sound.past split) →
      motive lexer sound)
    (lexer : Lexer) (sound : lexer.Sound) : motive lexer sound := by
  induction size : byteCount lexer.rest using Nat.strongRecOn generalizing lexer with
  | ind size inductionHypothesis =>
      subst size
      rcases nextToken_cases sound with
        ⟨item, rest, fits, split, read, next⟩ | ⟨error, after, next, later⟩
      · by_cases stops : item.kind = .endOfInput
        · exact ended lexer item rest sound fits split read next stops
        · exact inner lexer item rest sound fits split read next stops
            (inductionHypothesis _ (byteCount_rest_lt split read stops) _ (sound.past split) rfl)
      · exact failed lexer after error sound next later

end Lexer

/-! ### The tokens of a run -/

namespace TokenRun

/-- The tokens of a run, with an empty end of input where it failed. -/
def closed (run : TokenRun) : List Token :=
  match run.error with
  | none => run.tokens
  | some error => run.tokens ++ [Token.endAt error.position]

theorem closed_cons (token : Token) (run : TokenRun) :
    (run.cons token).closed = token :: run.closed := by
  obtain ⟨tokens, error⟩ := run
  cases error <;> rfl

end TokenRun

/-- A list of tokens with an end of input as its last element and nowhere else. -/
def Closed (tokens : List Token) : Prop :=
  ∃ inner stop, tokens = inner ++ [stop] ∧ (∀ token ∈ inner, token.kind ≠ .endOfInput) ∧
    stop.kind = .endOfInput

theorem Closed.cons {token : Token} {tokens : List Token} (closed : Closed tokens)
    (inner : token.kind ≠ .endOfInput) : Closed (token :: tokens) := by
  obtain ⟨front, stop, rfl, innerFront, ended⟩ := closed
  refine ⟨token :: front, stop, rfl, ?_, ended⟩
  intro other member
  rcases List.mem_cons.mp member with rfl | tail
  · exact inner
  · exact innerFront other tail

namespace Lexer

/-- Every run ends with the end of input, and with nothing behind it. -/
theorem closed_run (lexer : Lexer) (sound : lexer.Sound) : Closed lexer.run.closed := by
  induction lexer, sound using run_induction with
  | failed lexer after error _ next _ =>
      rw [run_of_error next]
      exact ⟨[], _, rfl, by simp, rfl⟩
  | ended lexer item rest _ _ _ _ next stops =>
      rw [run_of_end next stops]
      exact ⟨[], _, rfl, by simp, stops⟩
  | inner lexer item rest sound _ split read next stops inductionHypothesis =>
      rw [run_of_inner sound split read next stops, TokenRun.closed_cons]
      exact inductionHypothesis.cons stops

/-- A run gives no more tokens than there are bytes, the last one apart. -/
theorem length_closed_run_le (lexer : Lexer) (sound : lexer.Sound) :
    lexer.run.closed.length ≤ byteCount lexer.rest + 1 := by
  induction lexer, sound using run_induction with
  | failed lexer after error _ next _ =>
      rw [run_of_error next]
      simp [TokenRun.closed]
  | ended lexer item rest _ _ _ _ next stops =>
      rw [run_of_end next stops]
      simp [TokenRun.closed]
  | inner lexer item rest sound _ split read next stops inductionHypothesis =>
      have shorter := byteCount_rest_lt split read stops
      rw [run_of_inner sound split read next stops, TokenRun.closed_cons]
      rw [past_rest] at inductionHypothesis
      simp only [List.length_cons]
      omega

/-- The tokens of a run begin before the place where it fails. -/
theorem start_lt_of_mem_run (lexer : Lexer) (sound : lexer.Sound) {token : Token}
    {error : LexError} (member : token ∈ lexer.run.tokens) (fails : lexer.run.error = some error) :
    token.span.start < error.position.offset := by
  suffices bounded : (∀ token ∈ lexer.run.tokens, ∀ error, lexer.run.error = some error →
      token.span.start < error.position.offset) ∧
      (lexer.size ≤ maxSourceLength → ∀ error, lexer.run.error = some error →
        lexer.position.offset ≤ error.position.offset) from
    bounded.1 token member error fails
  clear member fails
  induction lexer, sound using run_induction with
  | failed lexer after error _ next later =>
      rw [run_of_error next]
      exact ⟨by simp, by simpa using later⟩
  | ended lexer item rest _ _ _ _ next stops =>
      rw [run_of_end next stops]
      simp
  | inner lexer item rest sound fits split read next stops inductionHypothesis =>
      obtain ⟨before, later⟩ := inductionHypothesis
      have positive := byteCount_pos (read.text_ne_nil stops)
      rw [run_of_inner sound split read next stops]
      simp only [past_size, past_position, Position.advanceAll_offset, Item.chars,
        byteCount_append] at later
      simp only [TokenRun.cons, List.mem_cons]
      refine ⟨?_, ?_⟩
      · rintro token (rfl | member) error fails
        · have bound := later fits error fails
          simp only [Item.place, Span.between, Position.advanceAll_offset]
          omega
        · exact before token member error fails
      · intro _ error fails
        have bound := later fits error fails
        omega

end Lexer

end SqlDml
