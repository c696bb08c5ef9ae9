import SqlDml.Lexer.Basic

/-!
Contract: a cursor over the tokens of a source.

Owns:
- looking any number of tokens ahead, which reads no further than it must;
- consuming tokens, and going back to a mark;
- keeping a lexical failure aside: the grammar sees an end of input in its place.

Does not own: what the tokens mean.
-/

namespace SqlDml

/-- The tokens of a source as far as they have been read, with a cursor among them. -/
structure TokenStream where
  lexer : Lexer
  /-- The tokens read so far. -/
  buffer : Array Token
  /-- How many tokens are consumed. -/
  cursor : Nat
  /-- The lexical failure that ended the tokens, until it is taken. -/
  parked : Option LexError

namespace TokenStream

/-- The stream at the beginning of a source, with nothing read. -/
def ofSource (source : String) (settings : Settings) : TokenStream :=
  ⟨Lexer.ofSource source settings, #[], 0, none⟩

/-- Whether the end of input has been read. -/
def isExhausted (stream : TokenStream) : Bool :=
  match stream.buffer.back? with
  | some token => token.kind == .endOfInput
  | none => false

/-- Reads one more token.  A failure is kept aside, and an empty end of input stands in its place.
-/
def pull (stream : TokenStream) : TokenStream :=
  match stream.lexer.nextToken with
  | (.ok token, lexer) =>
      { stream with lexer := lexer, buffer := stream.buffer.push token }
  | (.error error, lexer) =>
      { stream with
        lexer := lexer
        buffer := stream.buffer.push (Token.endAt error.position)
        parked := some error }

/-- Reads up to `count` more tokens, and none past the end of input. -/
def pullUpTo : Nat → TokenStream → TokenStream
  | 0, stream => stream
  | count + 1, stream =>
      if stream.isExhausted then stream else pullUpTo count stream.pull

/-- Reads until the token with the given index, or the end of input, has been read. -/
def fill (stream : TokenStream) (index : Nat) : TokenStream :=
  pullUpTo (index + 1 - stream.buffer.size) stream

/-- The token with the given index among those read; past the last one it is the last one. -/
def tokenAt (stream : TokenStream) (index : Nat) : Token :=
  match stream.buffer[index]? with
  | some token => token
  | none => stream.buffer.back?.getD (Token.endAt Position.start)

/-- The token `ahead` places behind the cursor's own.  Past the end it is the end of input. -/
def peek (stream : TokenStream) (ahead : Nat) : Token × TokenStream :=
  let index := stream.cursor + ahead
  let stream := stream.fill index
  (stream.tokenAt index, stream)

/-- Consumes the token at the cursor.  The cursor never moves past the end of input. -/
def advance (stream : TokenStream) : Token × TokenStream :=
  let (token, stream) := stream.peek 0
  if token.kind = .endOfInput then (token, stream)
  else (token, { stream with cursor := stream.cursor + 1 })

/-- Goes back to an earlier cursor. -/
def reset (stream : TokenStream) (mark : Nat) : TokenStream :=
  { stream with cursor := min mark stream.cursor }

/-- The span of the token consumed last. -/
def previousSpan (stream : TokenStream) : Span :=
  match stream.cursor with
  | 0 => Span.zero
  | index + 1 =>
      match stream.buffer[index]? with
      | some token => token.span
      | none => Span.zero

/-- The spans of all consumed tokens, in order. -/
def consumedSpans (stream : TokenStream) : List Span :=
  (stream.buffer.toList.take stream.cursor).map Token.span

/-- Takes the lexical failure that ended the tokens, if it is still there. -/
def takeLexError (stream : TokenStream) : Option LexError × TokenStream :=
  (stream.parked, { stream with parked := none })

/-- A bound on the tokens that are not consumed yet, the end of input included. -/
def tokensAhead (stream : TokenStream) : Nat :=
  (stream.buffer.size - stream.cursor) + stream.lexer.bytesAhead + 1

end TokenStream

end SqlDml
