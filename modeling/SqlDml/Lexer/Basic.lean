import SqlDml.Lexer.Scan
import SqlDml.Lexer.Trivia

/-!
Contract: reading a source token by token.

Owns:
- a lexer: the unread text, its position, and how much it has produced;
- reading the next token, also after a failure;
- reading token after token until the end or the first failure.

Does not own: looking ahead and going back; that is the token stream.
-/

namespace SqlDml

/-- A source that is being read. -/
structure Lexer where
  settings : Settings
  /-- Length of the whole source in bytes. -/
  size : Nat
  /-- The unread text. -/
  rest : List Char
  /-- Where the unread text begins. -/
  position : Position
  /-- Whether the token sequence has ended, with the end of input or a failure. -/
  finished : Bool := false
  /-- How many tokens were produced, the end of input included. -/
  tokens : Nat := 0
  /-- How many failures were produced. -/
  errors : Nat := 0

namespace Lexer

/-- The lexer that stands at the beginning of a source. -/
def ofSource (source : String) (settings : Settings) : Lexer where
  settings := settings
  size := source.utf8ByteSize
  rest := source.toList
  position := Position.start

/-- Bytes of the source that are not read yet. -/
def bytesAhead (lexer : Lexer) : Nat := lexer.size - lexer.position.offset

/-- Moves past `taken`, which leaves `rest`. -/
def move (lexer : Lexer) (taken rest : List Char) : Lexer :=
  { lexer with rest := rest, position := lexer.position.advanceAll taken }

/-- Skips trivia, piece by piece.  A block comment without end is a failure at its opening, and
leaves nothing to read.  `fuel` bounds the number of pieces. -/
def skipTriviaWith : Nat → Lexer → Option LexError × Lexer
  | 0, lexer => (none, lexer)
  | fuel + 1, lexer =>
      match Trivia.first lexer.rest with
      | .absent => (none, lexer)
      | .piece taken rest => skipTriviaWith fuel (lexer.move taken rest)
      | .openComment =>
          (some ⟨.unterminatedComment, lexer.position⟩, lexer.move lexer.rest [])

/-- Skips all trivia; each piece takes at least one byte. -/
def skipTrivia (lexer : Lexer) : Option LexError × Lexer :=
  skipTriviaWith lexer.bytesAhead lexer

/-- The token behind the trivia, or why there is none. -/
def scanToken (lexer : Lexer) : Except LexError Token × Lexer :=
  if maxSourceLength < lexer.size then
    (.error ⟨.inputTooLarge lexer.size, Position.start⟩, lexer)
  else
    match lexer.skipTrivia with
    | (some error, lexer) => (.error error, lexer)
    | (none, lexer) =>
        let lexeme := scanLexeme lexer.settings lexer.bytesAhead lexer.rest
        let after := lexer.move lexeme.taken lexeme.rest
        match lexeme.outcome with
        | .ok kind => (.ok ⟨kind, Span.between lexer.position after.position⟩, after)
        | .error kind => (.error ⟨kind, lexer.position⟩, after)

/-- Reads the next token or failure, and counts it.  After a failure the lexer goes on from where it
stands. -/
def nextToken (lexer : Lexer) : Except LexError Token × Lexer :=
  match lexer.scanToken with
  | (.ok token, lexer) => (.ok token, { lexer with tokens := lexer.tokens + 1 })
  | (.error error, lexer) => (.error error, { lexer with errors := lexer.errors + 1 })

/-- Whether a result is a token with others behind it. -/
def isInner : Except LexError Token → Bool
  | .ok token => token.kind != .endOfInput
  | .error _ => false

/-- The next element of the token sequence, which ends after the end of input or a failure that this
function itself returned. -/
def next? (lexer : Lexer) : Option (Except LexError Token) × Lexer :=
  if lexer.finished then
    (none, lexer)
  else
    let (item, lexer) := lexer.nextToken
    (some item, { lexer with finished := !isInner item })

end Lexer

/-- A source read to its end or to its first failure. -/
structure TokenRun where
  /-- The tokens in order, with the end of input last if there was no failure. -/
  tokens : List Token
  error : Option LexError

namespace TokenRun

/-- Puts a token before a run. -/
def cons (token : Token) (run : TokenRun) : TokenRun := ⟨token :: run.tokens, run.error⟩

/-- The tokens, or the failure that ended the run. -/
def toExcept (run : TokenRun) : Except LexError (List Token) :=
  match run.error with
  | none => .ok run.tokens
  | some error => .error error

end TokenRun

/-- Reads tokens up to the end of input or the first failure.  `fuel` bounds their number. -/
def Lexer.runWith : Nat → Lexer → TokenRun
  | 0, _ => ⟨[], none⟩
  | fuel + 1, lexer =>
      match lexer.nextToken with
      | (.error error, _) => ⟨[], some error⟩
      | (.ok token, after) =>
          if token.kind = .endOfInput then ⟨[token], none⟩
          else (Lexer.runWith fuel after).cons token

/-- Reads a whole source; every token but the last takes at least one byte. -/
def TokenRun.ofSource (source : String) (settings : Settings) : TokenRun :=
  Lexer.runWith (source.utf8ByteSize + 1) (Lexer.ofSource source settings)

/-- The tokens of a source, ending with the end of input, or its first lexical failure. -/
def tokenize (source : String) (settings : Settings) : Except LexError (List Token) :=
  (TokenRun.ofSource source settings).toExcept

end SqlDml
