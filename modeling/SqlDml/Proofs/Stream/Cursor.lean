import SqlDml.Proofs.Parsing.Entry

/-!
Contract: a token stream answers every sequence of calls like an index into a fixed list.

Owns:
- the calls on a stream, their answers, and a session of calls with the marks that it took;
- the cursor that the stream is compared with: a list, an index, and a failure behind the list;
- one step of the comparison for each call, and from it the comparison of whole sessions.

Does not own: how the tokens of the list are read.
-/

namespace SqlDml

/-! ## Calls and sessions -/

/-- A call on a stream of tokens. -/
inductive StreamCall where
  | peek (ahead : Nat)
  | advance
  | mark
  /-- Goes back to the mark that was taken as the one with this number. -/
  | reset (number : Nat)
  | previousSpan
  | consumed
  | consumedSpans
  | takeLexError
deriving DecidableEq, Repr

/-- The answer to a call. -/
inductive StreamAnswer where
  | token (token : Token)
  | span (span : Span)
  | count (count : Nat)
  | spans (spans : List Span)
  | failure (error : Option LexError)
deriving DecidableEq, Repr

/-- The lexical failure that an answer hands out. -/
def StreamAnswer.failure? : StreamAnswer → Option LexError
  | .failure error => error
  | _ => none

/-- A stream and the marks that were taken of it, the first one first. -/
structure StreamSession where
  stream : TokenStream
  marks : List Nat

namespace StreamSession

/-- A session at the beginning of a source. -/
def ofSource (source : String) (settings : Settings) : StreamSession :=
  ⟨TokenStream.ofSource source settings, []⟩

/-- Makes one call.  Taking a mark answers with its number, going back with the place reached; a
mark that was never taken changes nothing. -/
def call (session : StreamSession) : StreamCall → StreamAnswer × StreamSession
  | .peek ahead =>
      let (token, stream) := session.stream.peek ahead
      (.token token, { session with stream := stream })
  | .advance =>
      let (token, stream) := session.stream.advance
      (.token token, { session with stream := stream })
  | .mark =>
      (.count session.marks.length,
        { session with marks := session.marks ++ [session.stream.cursor] })
  | .reset number =>
      match session.marks[number]? with
      | some mark =>
          let stream := session.stream.reset mark
          (.count stream.cursor, { session with stream := stream })
      | none => (.count session.stream.cursor, session)
  | .previousSpan => (.span session.stream.previousSpan, session)
  | .consumed => (.count session.stream.cursor, session)
  | .consumedSpans => (.spans session.stream.consumedSpans, session)
  | .takeLexError =>
      let (error, stream) := session.stream.takeLexError
      (.failure error, { session with stream := stream })

/-- The answers to calls that are made one after the other. -/
def answers (session : StreamSession) : List StreamCall → List StreamAnswer
  | [] => []
  | call :: calls => (session.call call).1 :: (session.call call).2.answers calls

end StreamSession

/-! ## The cursor over a list -/

/-- An index into a fixed list of tokens. -/
structure TokenCursor where
  tokens : List Token
  /-- The index of the next token; as many tokens are consumed. -/
  index : Nat
  marks : List Nat
  /-- Whether the last token of the list was looked at. -/
  sawLast : Bool
  /-- The failure behind the list, until it is taken. -/
  failure : Option LexError

namespace TokenCursor

/-- The cursor at the front of the tokens of a run, with an end of input in the place of a failure.
-/
def ofRun (run : TokenRun) : TokenCursor := ⟨run.closed, 0, [], false, run.error⟩

/-- Whether a call looks at the last token of the list, or past it. -/
def looksAtLast (cursor : TokenCursor) : StreamCall → Bool
  | .peek ahead => cursor.tokens.length ≤ cursor.index + ahead + 1
  | .advance => cursor.tokens.length ≤ cursor.index + 1
  | _ => false

/-- The token some places ahead, or the last one past the end of the list. -/
def token (cursor : TokenCursor) (ahead : Nat) : Token :=
  (cursor.tokens[cursor.index + ahead]?).getD
    (cursor.tokens.getLast?.getD (Token.endAt Position.start))

/-- The answer to a call. -/
def answer (cursor : TokenCursor) : StreamCall → StreamAnswer
  | .peek ahead => .token (cursor.token ahead)
  | .advance => .token (cursor.token 0)
  | .mark => .count cursor.marks.length
  | .reset number => .count (min (cursor.marks[number]?.getD cursor.index) cursor.index)
  | .previousSpan =>
      .span <| match cursor.index with
        | 0 => Span.zero
        | index + 1 => (cursor.tokens[index]?.map Token.span).getD Span.zero
  | .consumed => .count cursor.index
  | .consumedSpans => .spans ((cursor.tokens.take cursor.index).map Token.span)
  | .takeLexError => .failure (if cursor.sawLast then cursor.failure else none)

/-- The cursor that remembers what a call looks at. -/
def saw (cursor : TokenCursor) (call : StreamCall) : TokenCursor :=
  { cursor with sawLast := cursor.sawLast || cursor.looksAtLast call }

/-- The cursor behind a call.  It moves past every token but the last, and back to marks only. -/
def after (cursor : TokenCursor) : StreamCall → TokenCursor
  | .advance =>
      if cursor.index + 1 < cursor.tokens.length then
        { cursor.saw .advance with index := cursor.index + 1 }
      else
        cursor.saw .advance
  | .mark => { cursor with marks := cursor.marks ++ [cursor.index] }
  | .reset number =>
      { cursor with index := min (cursor.marks[number]?.getD cursor.index) cursor.index }
  | .takeLexError => if cursor.sawLast then { cursor with failure := none } else cursor
  | call => cursor.saw call

/-- The cursor behind calls that are made one after the other. -/
def afterAll (cursor : TokenCursor) (calls : List StreamCall) : TokenCursor :=
  calls.foldl after cursor

/-- The answers to calls that are made one after the other. -/
def answers (cursor : TokenCursor) : List StreamCall → List StreamAnswer
  | [] => []
  | call :: calls => cursor.answer call :: (cursor.after call).answers calls

end TokenCursor

/-! ## How much is read -/

namespace TokenStream

/-- Everything is read exactly when the end of input is. -/
theorem isExhausted_iff {stream : TokenStream} (sound : stream.Sound) :
    stream.isExhausted = true ↔ stream.buffer.size = stream.whole.length := by
  constructor
  · intro exhausted
    rw [whole_of_exhausted exhausted, Array.length_toList]
  · intro all
    by_contra open_
    have unexhausted : stream.isExhausted = false := by simpa using open_
    have closed := Lexer.closed_run stream.lexer (sound.lexer unexhausted)
    obtain ⟨inner, stop, split, _⟩ := closed
    rw [whole_of_unexhausted unexhausted, List.length_append, Array.length_toList, split,
      List.length_append, List.length_singleton] at all
    omega

theorem size_le_whole (stream : TokenStream) : stream.buffer.size ≤ stream.whole.length := by
  have taken := congrArg List.length (take_whole stream)
  simp only [List.length_take, Array.length_toList] at taken
  omega

/-- Reading more tokens stops at the wanted number, or at the end of the list. -/
theorem pullUpTo_size (count : Nat) (stream : TokenStream) (sound : stream.Sound) :
    (pullUpTo count stream).buffer.size = min (stream.buffer.size + count) stream.whole.length := by
  induction count generalizing stream with
  | zero =>
      have inside := size_le_whole stream
      rw [pullUpTo]
      omega
  | succ count inductionHypothesis =>
      rw [pullUpTo]
      split
      · next exhausted =>
          have all := (isExhausted_iff sound).mp exhausted
          omega
      · next more =>
          have unexhausted : stream.isExhausted = false := by simpa using more
          have pulled := inductionHypothesis stream.pull (sound.pull unexhausted)
          rw [pulled, pull_buffer_size, (pull_whole sound unexhausted).1]
          omega

/-- Looking ahead reads the last token exactly if it looks that far, or did so before. -/
theorem peek_isExhausted {stream : TokenStream} (sound : stream.Sound) (ahead : Nat) :
    (stream.peek ahead).2.isExhausted =
      (stream.isExhausted || decide (stream.whole.length ≤ stream.cursor + ahead + 1)) := by
  obtain ⟨_, laterSound, leads, _, _⟩ := peek_spec sound ahead
  have read : (stream.peek ahead).2.buffer.size =
      min (stream.buffer.size + (stream.cursor + ahead + 1 - stream.buffer.size))
        stream.whole.length := pullUpTo_size _ stream sound
  have inside := size_le_whole stream
  rw [Bool.eq_iff_iff, isExhausted_iff laterSound, leads.whole, read, Bool.or_eq_true,
    isExhausted_iff sound, decide_eq_true_eq]
  omega

end TokenStream

/-! ## One call -/

/-- A session stands where a cursor stands. -/
structure StreamSession.Follows (session : StreamSession) (cursor : TokenCursor) : Prop where
  sound : session.stream.Sound
  tokens : session.stream.whole = cursor.tokens
  index : session.stream.cursor = cursor.index
  marks : session.marks = cursor.marks
  sawLast : session.stream.isExhausted = cursor.sawLast
  failure : session.stream.failure = cursor.failure

namespace StreamSession.Follows

variable {session : StreamSession} {cursor : TokenCursor}

theorem ofSource (source : String) (settings : Settings) :
    (StreamSession.ofSource source settings).Follows
      (TokenCursor.ofRun (TokenRun.ofSource source settings)) where
  sound := TokenStream.sound_ofSource source settings
  tokens := TokenStream.ofSource_whole source settings
  index := rfl
  marks := rfl
  sawLast := rfl
  failure := TokenStream.ofSource_failure source settings

theorem parked (follows : session.Follows cursor) :
    session.stream.parked = if cursor.sawLast then cursor.failure else none := by
  rw [← follows.sawLast, ← follows.failure, TokenStream.failure]
  cases exhausted : session.stream.isExhausted with
  | true => simp
  | false => simpa using follows.sound.unparked exhausted

theorem token (follows : session.Follows cursor) (ahead : Nat) :
    (session.stream.peek ahead).1 = cursor.token ahead := by
  have seen : (session.stream.peek ahead).1 = _ :=
    TokenStream.tokenAt_fill follows.sound (session.stream.cursor + ahead)
  rw [seen, TokenStream.stop, follows.tokens, follows.index]
  rfl

/-- Looking ahead moves nothing but the memory of the last token. -/
theorem peek (follows : session.Follows cursor) (ahead : Nat) :
    Follows { session with stream := (session.stream.peek ahead).2 }
      (cursor.saw (.peek ahead)) := by
  obtain ⟨_, sound, leads, moved, _⟩ := TokenStream.peek_spec follows.sound ahead
  refine ⟨sound, leads.whole.trans follows.tokens, moved.trans follows.index, follows.marks, ?_,
    leads.failure.trans follows.failure⟩
  rw [TokenStream.peek_isExhausted follows.sound, follows.sawLast, follows.tokens, follows.index]
  rfl

/-- The cursor moves past a token exactly if it is not the last one. -/
theorem advance (follows : session.Follows cursor) :
    (session.stream.advance).1 = cursor.token 0 ∧
      Follows { session with stream := (session.stream.advance).2 } (cursor.after .advance) := by
  have seen := follows.token 0
  have looked := follows.peek 0
  have inside := follows.sound.inside
  have length := follows.sound.length_whole
  have whole := follows.sound.getElem?_whole 0
  rw [Nat.add_zero, follows.tokens] at whole
  rw [follows.tokens, follows.index] at length
  unfold TokenCursor.after
  by_cases inner : cursor.index + 1 < cursor.tokens.length
  · -- a token stands in front of the end of input
    have found : session.stream.whole[session.stream.cursor]? =
        some (session.stream.peek 0).1 := by
      rw [follows.tokens, seen, TokenCursor.token, Nat.add_zero, follows.index]
      simp [List.getElem?_eq_getElem (Nat.lt_of_succ_lt inner)]
    have kind : (session.stream.peek 0).1.kind ≠ .endOfInput := by
      apply follows.sound.kind_of_not_last found
      rw [follows.index, follows.tokens]
      exact inner
    have consumed : session.stream.advance =
        ((session.stream.peek 0).1, { (session.stream.peek 0).2 with
          cursor := (session.stream.peek 0).2.cursor + 1 }) := by
      unfold TokenStream.advance
      simp only [kind, if_false]
    obtain ⟨token, rest, split⟩ : ∃ token rest, session.stream.ahead = token :: rest := by
      cases ahead : session.stream.ahead with
      | nil =>
          rw [ahead] at length
          simp only [List.length_nil] at length
          omega
      | cons token rest => exact ⟨token, rest, rfl⟩
    obtain ⟨_, sound, leads, _, _⟩ := TokenStream.advance_inside follows.sound split
    rw [if_pos inner]
    refine ⟨by rw [consumed]; exact seen, sound, leads.whole.trans follows.tokens, ?_,
      follows.marks, ?_, leads.failure.trans follows.failure⟩
    · rw [consumed]
      exact congrArg (· + 1) looked.index
    · rw [consumed]
      exact looked.sawLast
  · -- nothing but the end of input is left
    have ended : session.stream.ahead = [] := by
      rw [← List.length_eq_zero_iff]
      omega
    obtain ⟨atEnd, _, _, _⟩ := TokenStream.advance_at_end follows.sound ended
    have kind : (session.stream.peek 0).1.kind = .endOfInput := by
      obtain ⟨last, _, _, _, _⟩ := TokenStream.peek_spec follows.sound 0
      rw [last, ended]
      exact follows.sound.stop_kind
    have same : session.stream.advance = session.stream.peek 0 := by
      unfold TokenStream.advance
      simp only [kind, if_true]
    rw [if_neg inner, same]
    exact ⟨seen, looked⟩

/-- Going back keeps everything but the index. -/
theorem reset (follows : session.Follows cursor) (mark : Nat) :
    Follows { session with stream := session.stream.reset mark }
      { cursor with index := min mark cursor.index } := by
  have moved : (session.stream.reset mark).cursor = min mark cursor.index :=
    congrArg (min mark) follows.index
  have below : (session.stream.reset mark).cursor ≤ session.stream.cursor := Nat.min_le_right _ _
  have read := follows.sound.read
  have inside := follows.sound.inside
  refine ⟨⟨follows.sound.lexer, follows.sound.unparked, follows.sound.closed, ?_, ?_⟩,
    follows.tokens, moved, follows.marks, follows.sawLast, follows.failure⟩
  · exact Nat.le_trans below read
  · exact Nat.lt_of_le_of_lt below inside

theorem consumedSpans (follows : session.Follows cursor) :
    session.stream.consumedSpans = (cursor.tokens.take cursor.index).map Token.span := by
  have read := follows.sound.read
  rw [TokenStream.consumedSpans, ← TokenStream.take_whole, List.take_take, Nat.min_eq_left read,
    follows.tokens, follows.index]

/-- A failure is handed out once, and only when the last token was looked at. -/
theorem takeLexError (follows : session.Follows cursor) :
    Follows { session with stream := session.stream.takeLexError.2 }
      (cursor.after .takeLexError) := by
  have whole : session.stream.takeLexError.2.whole = session.stream.whole := rfl
  have sound := follows.sound.takeLexError
  show Follows _ (if cursor.sawLast then { cursor with failure := none } else cursor)
  by_cases saw : cursor.sawLast = true
  · have exhausted : session.stream.isExhausted = true := follows.sawLast.trans saw
    rw [if_pos saw]
    refine ⟨sound, follows.tokens, follows.index, follows.marks, follows.sawLast, ?_⟩
    exact if_pos exhausted
  · have unexhausted : session.stream.isExhausted = false := by
      rw [follows.sawLast]
      simpa using saw
    have kept : session.stream.takeLexError.2 = session.stream := by
      have unparked := follows.sound.unparked unexhausted
      unfold TokenStream.takeLexError
      rw [← unparked]
    rw [if_neg saw, kept]
    exact follows

/-- One call is answered like an index would answer it, and both go on alike. -/
theorem call (follows : session.Follows cursor) (call : StreamCall) :
    (session.call call).1 = cursor.answer call ∧
      (session.call call).2.Follows (cursor.after call) := by
  have unseen : ∀ call, cursor.looksAtLast call = false → session.Follows (cursor.saw call) := by
    intro call looks
    rw [TokenCursor.saw, looks, Bool.or_false]
    exact follows
  cases call with
  | peek ahead => exact ⟨congrArg StreamAnswer.token (follows.token ahead), follows.peek ahead⟩
  | advance =>
      obtain ⟨token, moved⟩ := follows.advance
      exact ⟨congrArg StreamAnswer.token token, moved⟩
  | mark =>
      refine ⟨congrArg (StreamAnswer.count ∘ List.length) follows.marks, ?_⟩
      refine ⟨follows.sound, follows.tokens, follows.index, ?_, follows.sawLast, follows.failure⟩
      show session.marks ++ [session.stream.cursor] = cursor.marks ++ [cursor.index]
      rw [follows.marks, follows.index]
  | reset number =>
      simp only [StreamSession.call, TokenCursor.answer, TokenCursor.after, follows.marks]
      cases taken : cursor.marks[number]? with
      | none =>
          rw [Option.getD_none, Nat.min_self]
          exact ⟨congrArg StreamAnswer.count follows.index, follows⟩
      | some mark =>
          have back := follows.reset mark
          rw [follows.marks] at back
          exact ⟨congrArg StreamAnswer.count back.index, back⟩
  | previousSpan =>
      have previous := follows.sound.previousSpan_eq
      rw [follows.tokens, follows.index] at previous
      refine ⟨congrArg StreamAnswer.span (previous.trans ?_), unseen _ rfl⟩
      cases cursor.index <;> rfl
  | consumed => exact ⟨congrArg StreamAnswer.count follows.index, unseen _ rfl⟩
  | consumedSpans => exact ⟨congrArg StreamAnswer.spans follows.consumedSpans, unseen _ rfl⟩
  | takeLexError => exact ⟨congrArg StreamAnswer.failure follows.parked, follows.takeLexError⟩

/-- A whole session is answered like an index would answer it. -/
theorem answers (follows : session.Follows cursor) (calls : List StreamCall) :
    session.answers calls = cursor.answers calls := by
  induction calls generalizing session cursor with
  | nil => rfl
  | cons call calls inductionHypothesis =>
      obtain ⟨same, next⟩ := follows.call call
      rw [StreamSession.answers, TokenCursor.answers, same, inductionHypothesis next]

end StreamSession.Follows

/-! ## What a cursor does in many calls -/

namespace TokenCursor

@[simp] theorem saw_tokens (cursor : TokenCursor) (call : StreamCall) :
    (cursor.saw call).tokens = cursor.tokens := rfl

@[simp] theorem saw_index (cursor : TokenCursor) (call : StreamCall) :
    (cursor.saw call).index = cursor.index := rfl

@[simp] theorem saw_failure (cursor : TokenCursor) (call : StreamCall) :
    (cursor.saw call).failure = cursor.failure := rfl

@[simp] theorem after_tokens (cursor : TokenCursor) (call : StreamCall) :
    (cursor.after call).tokens = cursor.tokens := by
  cases call <;> unfold after <;> simp only [saw_tokens] <;> split <;> rfl

/-- No call moves the cursor behind the last token. -/
theorem after_index_lt {cursor : TokenCursor} (inside : cursor.index < cursor.tokens.length)
    (call : StreamCall) : (cursor.after call).index < cursor.tokens.length := by
  cases call with
  | advance =>
      simp only [after]
      split
      · next inner => exact inner
      · exact inside
  | reset number => exact Nat.lt_of_le_of_lt (Nat.min_le_right _ _) inside
  | takeLexError =>
      simp only [after]
      split <;> exact inside
  | _ => exact inside

theorem afterAll_tokens (calls : List StreamCall) (cursor : TokenCursor) :
    (cursor.afterAll calls).tokens = cursor.tokens := by
  induction calls generalizing cursor with
  | nil => rfl
  | cons call calls inductionHypothesis =>
      exact (inductionHypothesis (cursor.after call)).trans (cursor.after_tokens call)

theorem afterAll_index_lt (calls : List StreamCall) {cursor : TokenCursor}
    (inside : cursor.index < cursor.tokens.length) :
    (cursor.afterAll calls).index < cursor.tokens.length := by
  induction calls generalizing cursor with
  | nil => exact inside
  | cons call calls inductionHypothesis =>
      have moved := after_index_lt inside call
      rw [← cursor.after_tokens call] at moved ⊢
      exact inductionHypothesis moved

/-- Past the end of the list stands its last token. -/
theorem token_past_end {cursor : TokenCursor} {ahead : Nat} (nonempty : cursor.tokens ≠ [])
    (past : cursor.tokens.length ≤ cursor.index + ahead) :
    cursor.tokens.getLast? = some (cursor.token ahead) := by
  rw [token, List.getElem?_eq_none past, List.getLast?_eq_some_getLast nonempty]
  rfl

/-- A call either leaves the failure where it is or hands it out. -/
theorem failure_split (cursor : TokenCursor) (call : StreamCall) :
    ((cursor.answer call).failure? = none ∧ (cursor.after call).failure = cursor.failure) ∨
      ((cursor.answer call).failure? = cursor.failure ∧ (cursor.after call).failure = none) := by
  cases call with
  | advance =>
      refine .inl ⟨rfl, ?_⟩
      simp only [after]
      split <;> rfl
  | takeLexError =>
      by_cases saw : cursor.sawLast = true
      · exact .inr ⟨by simp [answer, StreamAnswer.failure?, saw], by simp [after, saw]⟩
      · exact .inl ⟨by simp [answer, StreamAnswer.failure?, saw], by simp [after, saw]⟩
  | _ => exact .inl ⟨rfl, rfl⟩

/-- The failure is handed out at most once. -/
theorem failures_sublist (calls : List StreamCall) (cursor : TokenCursor) :
    ((cursor.answers calls).filterMap StreamAnswer.failure?).Sublist cursor.failure.toList := by
  induction calls generalizing cursor with
  | nil => exact List.nil_sublist _
  | cons call calls inductionHypothesis =>
      have later := inductionHypothesis (cursor.after call)
      rw [answers]
      rcases cursor.failure_split call with ⟨silent, kept⟩ | ⟨handed, taken⟩
      · rw [List.filterMap_cons_none silent, ← kept]
        exact later
      · rw [taken, Option.toList_none, List.sublist_nil] at later
        cases failure : cursor.failure with
        | none =>
            rw [List.filterMap_cons_none (handed.trans failure), later]
            exact List.nil_sublist _
        | some error =>
            rw [List.filterMap_cons_some (handed.trans failure), later]
            exact List.Sublist.refl _

/-- The last token was looked at by a call, if not before. -/
theorem after_sawLast {cursor : TokenCursor} {call : StreamCall}
    (saw : (cursor.after call).sawLast = true) :
    cursor.sawLast = true ∨ cursor.looksAtLast call = true := by
  cases call with
  | advance =>
      rw [← Bool.or_eq_true]
      simp only [after] at saw
      split at saw <;> exact saw
  | takeLexError =>
      simp only [after] at saw
      split at saw <;> exact .inl saw
  | mark => exact .inl saw
  | reset number => exact .inl saw
  | _ => exact Bool.or_eq_true _ _ ▸ saw

/-- A failure is handed out only behind a call that looked at the last token. -/
theorem looksAtLast_of_failure {calls : List StreamCall} {cursor : TokenCursor} {number : Nat}
    {error : LexError} (unseen : cursor.sawLast = false)
    (handed : (cursor.answers calls)[number]? = some (.failure (some error))) :
    ∃ earlier call, earlier < number ∧ calls[earlier]? = some call ∧
      (cursor.afterAll (calls.take earlier)).looksAtLast call = true := by
  induction calls generalizing cursor number with
  | nil => cases handed
  | cons call calls inductionHypothesis =>
      cases number with
      | zero =>
          -- the first call finds the last token not looked at
          have first : cursor.answer call = .failure (some error) := by simpa [answers] using handed
          cases call <;> simp [answer, unseen] at first
      | succ number =>
          have next : ((cursor.after call).answers calls)[number]? = some (.failure (some error)) :=
            handed
          by_cases saw : (cursor.after call).sawLast = true
          · rcases after_sawLast saw with before | looked
            · rw [unseen] at before
              cases before
            · exact ⟨0, call, Nat.succ_pos number, rfl, looked⟩
          · obtain ⟨earlier, looker, below, place, looked⟩ :=
              inductionHypothesis (by simpa using saw) next
            exact ⟨earlier + 1, looker, Nat.succ_lt_succ below, place, looked⟩

end TokenCursor

/-- A stream answers all calls like an index into the list of all tokens of its source, in which an
empty end of input stands in the place of a lexical failure.  The index stays inside the list, past
its end stands its last token, and the failure is handed out at most once, and only behind a call
that looked at the last token. -/
theorem StreamSession.answers_eq_cursor (source : String) (settings : Settings)
    (calls : List StreamCall) :
    let run := TokenRun.ofSource source settings
    let start := TokenCursor.ofRun run
    let reached := start.afterAll calls
    let answers := (StreamSession.ofSource source settings).answers calls
    answers = start.answers calls ∧
    (∀ tokens, tokenize source settings = .ok tokens →
      start.tokens = tokens ∧ start.failure = none) ∧
    (∀ error, tokenize source settings = .error error →
      start.tokens = run.tokens ++ [Token.endAt error.position] ∧ start.failure = some error) ∧
    reached.tokens = start.tokens ∧ reached.index < start.tokens.length ∧
    (∀ ahead, start.tokens.length ≤ reached.index + ahead →
      start.tokens.getLast? = some (reached.token ahead)) ∧
    (answers.filterMap StreamAnswer.failure?).Sublist start.failure.toList ∧
    ∀ number error, answers[number]? = some (.failure (some error)) →
      ∃ earlier call, earlier < number ∧ calls[earlier]? = some call ∧
        (start.afterAll (calls.take earlier)).looksAtLast call = true := by
  intro run start reached answers
  have follows := Follows.ofSource source settings
  have same : answers = start.answers calls := follows.answers calls
  have fixed : reached.tokens = start.tokens := TokenCursor.afterAll_tokens calls start
  have inside : start.index < start.tokens.length := by
    rw [← follows.tokens, ← follows.index]
    exact follows.sound.inside
  have kept : reached.index < start.tokens.length := TokenCursor.afterAll_index_lt calls inside
  refine ⟨same, ?_, ?_, fixed, kept, ?_, ?_, ?_⟩
  · intro tokens accepted
    obtain ⟨unfailed, whole⟩ := tokenize_eq_ok.mp accepted
    exact ⟨follows.tokens.symm.trans whole, unfailed⟩
  · intro error rejected
    have failed := tokenize_eq_error.mp rejected
    refine ⟨?_, failed⟩
    show run.closed = _
    rw [TokenRun.closed, failed]
  · intro ahead past
    rw [← fixed] at past kept ⊢
    exact TokenCursor.token_past_end (List.ne_nil_of_length_pos (Nat.zero_lt_of_lt kept)) past
  · rw [same]
    exact TokenCursor.failures_sublist calls start
  · intro number error handed
    rw [same] at handed
    exact TokenCursor.looksAtLast_of_failure rfl handed

end SqlDml
