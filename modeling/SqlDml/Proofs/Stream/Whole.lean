import SqlDml.Proofs.Lexing.Run
import SqlDml.TokenStream

/-!
Contract: a token stream as a cursor over a fixed list of tokens.

Owns:
- the whole list of tokens under a stream, whether they have been read or not, and the failure that
  ends it;
- looking ahead, consuming and going back change neither;
- what is seen and what is consumed, read off the whole list.

Does not own: the state of a parse.
-/

namespace SqlDml

open SqlDml.Text

namespace TokenStream

/-- All tokens of the source, the end of input last. -/
def whole (stream : TokenStream) : List Token :=
  if stream.isExhausted then stream.buffer.toList
  else stream.buffer.toList ++ stream.lexer.run.closed

/-- The lexical failure that ends the tokens, whether it was met or not. -/
def failure (stream : TokenStream) : Option LexError :=
  if stream.isExhausted then stream.parked else stream.lexer.run.error

/-- The end of input behind the tokens. -/
def stop (stream : TokenStream) : Token := stream.whole.getLast?.getD (Token.endAt Position.start)

/-- The tokens from the cursor on, the end of input left out. -/
def ahead (stream : TokenStream) : List Token :=
  (stream.whole.drop stream.cursor).takeWhile fun token => token.kind ≠ .endOfInput

/-- A stream that was reached by looking ahead, consuming and going back. -/
structure Sound (stream : TokenStream) : Prop where
  lexer : stream.isExhausted = false → stream.lexer.Sound
  unparked : stream.isExhausted = false → stream.parked = none
  closed : Closed stream.whole
  read : stream.cursor ≤ stream.buffer.size
  inside : stream.cursor < stream.whole.length

/-- A later stream over the same tokens: it has read no less, and stands no earlier. -/
structure Leads (stream later : TokenStream) : Prop where
  whole : later.whole = stream.whole
  failure : later.failure = stream.failure
  read : stream.buffer.size ≤ later.buffer.size
  cursor : stream.cursor ≤ later.cursor

namespace Leads

theorem refl (stream : TokenStream) : stream.Leads stream :=
  ⟨rfl, rfl, Nat.le_refl _, Nat.le_refl _⟩

theorem trans {first second third : TokenStream} (left : first.Leads second)
    (right : second.Leads third) : first.Leads third :=
  ⟨right.whole.trans left.whole, right.failure.trans left.failure,
    Nat.le_trans left.read right.read, Nat.le_trans left.cursor right.cursor⟩

end Leads

/-! ### The parts of the whole -/

theorem whole_of_exhausted {stream : TokenStream} (exhausted : stream.isExhausted = true) :
    stream.whole = stream.buffer.toList := by
  rw [whole, if_pos exhausted]

theorem whole_of_unexhausted {stream : TokenStream} (unexhausted : stream.isExhausted = false) :
    stream.whole = stream.buffer.toList ++ stream.lexer.run.closed := by
  rw [whole, if_neg (by simp [unexhausted])]

theorem failure_of_unexhausted {stream : TokenStream} (unexhausted : stream.isExhausted = false) :
    stream.failure = stream.lexer.run.error := by
  rw [failure, if_neg (by simp [unexhausted])]

theorem take_whole (stream : TokenStream) :
    stream.whole.take stream.buffer.size = stream.buffer.toList := by
  rw [← Array.length_toList, whole]
  split
  · exact List.take_length
  · exact List.take_left

theorem getElem?_buffer (stream : TokenStream) (index : Nat) (below : index < stream.buffer.size) :
    stream.buffer[index]? = stream.whole[index]? := by
  rw [← Array.getElem?_toList, ← take_whole, List.getElem?_take_of_lt below]

theorem isExhausted_push (stream : TokenStream) (token : Token) (lexer : Lexer)
    (parked : Option LexError) :
    isExhausted ⟨lexer, stream.buffer.push token, stream.cursor, parked⟩ =
      (token.kind == .endOfInput) := by
  simp [isExhausted]

namespace Sound

variable {stream : TokenStream}

/-- From the cursor on, the whole list is what is ahead and the end of input. -/
theorem drop_cursor (sound : stream.Sound) :
    stream.whole.drop stream.cursor = stream.ahead ++ [stream.stop] := by
  obtain ⟨inner, stop, split, innerKinds, ended⟩ := sound.closed
  have inside := sound.inside
  rw [split, List.length_append, List.length_singleton] at inside
  have dropped : stream.whole.drop stream.cursor = inner.drop stream.cursor ++ [stop] := by
    rw [split, List.drop_append_of_le_length (by omega)]
  have last : stream.stop = stop := by
    rw [TokenStream.stop, split]
    simp
  unfold ahead
  rw [dropped, List.takeWhile_append_of_pos, last]
  · simp [ended]
  · intro token member
    simpa using innerKinds token (List.mem_of_mem_drop member)

theorem stop_kind (sound : stream.Sound) : stream.stop.kind = .endOfInput := by
  obtain ⟨inner, stop, split, _, ended⟩ := sound.closed
  rw [TokenStream.stop, split]
  simpa using ended

theorem length_whole (sound : stream.Sound) :
    stream.whole.length = stream.cursor + stream.ahead.length + 1 := by
  have lengths := congrArg List.length sound.drop_cursor
  have inside := sound.inside
  simp only [List.length_drop, List.length_append, List.length_singleton] at lengths
  omega

theorem getElem?_whole (sound : stream.Sound) (ahead : Nat) :
    stream.whole[stream.cursor + ahead]? = (stream.ahead ++ [stream.stop])[ahead]? := by
  rw [← sound.drop_cursor, List.getElem?_drop]

/-- Inside the whole list only the last token ends the input. -/
theorem kind_of_not_last (sound : stream.Sound) {index : Nat} {token : Token}
    (found : stream.whole[index]? = some token) (inner : index + 1 < stream.whole.length) :
    token.kind ≠ .endOfInput := by
  obtain ⟨front, stop, split, innerKinds, _⟩ := sound.closed
  rw [split] at found inner
  rw [List.length_append, List.length_singleton] at inner
  rw [List.getElem?_append_left (by omega)] at found
  exact innerKinds token (List.mem_of_getElem? found)

end Sound

/-! ### Reading one more token -/

theorem pull_of_ok {stream : TokenStream} {token : Token} {lexer : Lexer}
    (next : stream.lexer.nextToken = (.ok token, lexer)) :
    stream.pull = ⟨lexer, stream.buffer.push token, stream.cursor, stream.parked⟩ := by
  rw [pull, next]

theorem pull_of_error {stream : TokenStream} {error : LexError} {lexer : Lexer}
    (next : stream.lexer.nextToken = (.error error, lexer)) :
    stream.pull =
      ⟨lexer, stream.buffer.push (Token.endAt error.position), stream.cursor, some error⟩ := by
  rw [pull, next]

/-- Reading one more token leaves the whole list and its failure as they are. -/
theorem pull_whole {stream : TokenStream} (sound : stream.Sound)
    (unexhausted : stream.isExhausted = false) :
    stream.pull.whole = stream.whole ∧ stream.pull.failure = stream.failure ∧
      (stream.pull.isExhausted = false → stream.pull.lexer.Sound) ∧
      (stream.pull.isExhausted = false → stream.pull.parked = none) := by
  have lexerSound := sound.lexer unexhausted
  have unparked := sound.unparked unexhausted
  rw [whole_of_unexhausted unexhausted, failure_of_unexhausted unexhausted]
  rcases Lexer.nextToken_cases lexerSound with
    ⟨item, rest, _, split, read, next⟩ | ⟨error, after, next, _⟩
  · rw [pull_of_ok next]
    by_cases stops : item.kind = .endOfInput
    · have exhausted : (item.place stream.lexer.position).kind = .endOfInput := stops
      rw [Lexer.run_of_end next exhausted]
      simp [whole, failure, isExhausted_push, exhausted, TokenRun.closed, unparked]
    · have inner : (item.place stream.lexer.position).kind ≠ .endOfInput := stops
      rw [Lexer.run_of_inner lexerSound split read next stops]
      refine ⟨?_, ?_, fun _ => lexerSound.past split, fun _ => unparked⟩
      · simp [whole, isExhausted_push, inner, TokenRun.closed_cons]
      · simp [failure, isExhausted_push, inner, TokenRun.cons]
  · rw [pull_of_error next, Lexer.run_of_error next]
    simp [whole, failure, isExhausted_push, Token.endAt, TokenRun.closed]

theorem pull_buffer_size (stream : TokenStream) :
    stream.pull.buffer.size = stream.buffer.size + 1 := by
  unfold pull
  split <;> simp

theorem pull_cursor (stream : TokenStream) : stream.pull.cursor = stream.cursor := by
  unfold pull
  split <;> rfl

theorem Sound.pull {stream : TokenStream} (sound : stream.Sound)
    (unexhausted : stream.isExhausted = false) : stream.pull.Sound := by
  obtain ⟨whole, _, lexer, unparked⟩ := pull_whole sound unexhausted
  have read := sound.read
  exact ⟨lexer, unparked, whole ▸ sound.closed,
    by rw [pull_buffer_size, pull_cursor]; omega, by rw [whole, pull_cursor]; exact sound.inside⟩

theorem leads_pull {stream : TokenStream} (sound : stream.Sound)
    (unexhausted : stream.isExhausted = false) : stream.Leads stream.pull := by
  obtain ⟨whole, failure, _, _⟩ := pull_whole sound unexhausted
  exact ⟨whole, failure, by rw [pull_buffer_size]; omega, Nat.le_of_eq (pull_cursor _).symm⟩

/-! ### Looking ahead -/

/-- Reading more tokens reaches the wanted number or the end of input. -/
theorem pullUpTo_spec (count : Nat) (stream : TokenStream) (sound : stream.Sound) :
    (pullUpTo count stream).Sound ∧ stream.Leads (pullUpTo count stream) ∧
      (pullUpTo count stream).cursor = stream.cursor ∧
      ((pullUpTo count stream).isExhausted = true ∨
        (pullUpTo count stream).buffer.size = stream.buffer.size + count) := by
  induction count generalizing stream with
  | zero => exact ⟨sound, Leads.refl _, rfl, .inr rfl⟩
  | succ count inductionHypothesis =>
      rw [pullUpTo]
      split
      · next exhausted => exact ⟨sound, Leads.refl _, rfl, .inl exhausted⟩
      · next more =>
          have unexhausted : stream.isExhausted = false := by simpa using more
          obtain ⟨laterSound, leads, cursor, reached⟩ :=
            inductionHypothesis stream.pull (sound.pull unexhausted)
          refine ⟨laterSound, (leads_pull sound unexhausted).trans leads,
            by rw [cursor, pull_cursor], ?_⟩
          rw [pull_buffer_size] at reached
          rcases reached with exhausted | size
          · exact .inl exhausted
          · exact .inr (by omega)

theorem tokenAt_fill {stream : TokenStream} (sound : stream.Sound) (index : Nat) :
    (stream.fill index).tokenAt index = stream.whole[index]?.getD stream.stop := by
  obtain ⟨_, leads, _, reached⟩ := pullUpTo_spec (index + 1 - stream.buffer.size) stream sound
  change (pullUpTo (index + 1 - stream.buffer.size) stream).tokenAt index = _
  unfold stop
  rw [← leads.whole]
  generalize pullUpTo (index + 1 - stream.buffer.size) stream = filled at *
  unfold tokenAt
  by_cases below : index < filled.buffer.size
  · rw [getElem?_buffer filled index below]
    have inside : index < filled.whole.length := by
      have sized := congrArg List.length (take_whole filled)
      simp only [List.length_take, Array.length_toList] at sized
      omega
    simp [List.getElem?_eq_getElem inside]
  · have exhausted : filled.isExhausted = true := by
      rcases reached with exhausted | size
      · exact exhausted
      · omega
    have missing : filled.buffer[index]? = none := by simp; omega
    have missingWhole : filled.whole[index]? = none := by
      rw [whole_of_exhausted exhausted]
      simp
      omega
    rw [missing, missingWhole, whole_of_exhausted exhausted]
    simp

/-- Looking ahead shows the token of the whole list, and changes nothing else. -/
theorem peek_spec {stream : TokenStream} (sound : stream.Sound) (ahead : Nat) :
    (stream.peek ahead).1 = (stream.ahead[ahead]?).getD stream.stop ∧
      (stream.peek ahead).2.Sound ∧ stream.Leads (stream.peek ahead).2 ∧
      (stream.peek ahead).2.cursor = stream.cursor ∧
      (stream.cursor + ahead < stream.whole.length →
        stream.cursor + ahead < (stream.peek ahead).2.buffer.size) := by
  obtain ⟨laterSound, leads, cursor, reached⟩ :=
    pullUpTo_spec (stream.cursor + ahead + 1 - stream.buffer.size) stream sound
  refine ⟨?_, laterSound, leads, cursor, ?_⟩
  · change (stream.fill (stream.cursor + ahead)).tokenAt (stream.cursor + ahead) = _
    rw [tokenAt_fill sound, sound.getElem?_whole]
    by_cases below : ahead < stream.ahead.length
    · rw [List.getElem?_append_left below]
    · have missing : stream.ahead[ahead]? = none := List.getElem?_eq_none (by omega)
      rw [List.getElem?_append_right (by omega), missing]
      cases ahead - stream.ahead.length <;> rfl
  · intro inside
    change stream.cursor + ahead < (pullUpTo _ stream).buffer.size
    rcases reached with exhausted | size
    · have sized := congrArg List.length (whole_of_exhausted exhausted)
      rw [leads.whole] at sized
      simp only [Array.length_toList] at sized
      omega
    · omega

/-! ### Consuming and going back -/

theorem ahead_eq_of_whole {stream later : TokenStream} (whole : later.whole = stream.whole)
    (cursor : later.cursor = stream.cursor) : later.ahead = stream.ahead := by
  rw [ahead, ahead, whole, cursor]

theorem stop_eq_of_whole {stream later : TokenStream} (whole : later.whole = stream.whole) :
    later.stop = stream.stop := by
  rw [stop, stop, whole]

/-- The span of the token consumed last, read off the whole list. -/
theorem Sound.previousSpan_eq {stream : TokenStream} (sound : stream.Sound) :
    stream.previousSpan =
      match stream.cursor with
      | 0 => Span.zero
      | index + 1 => (stream.whole[index]?.map Token.span).getD Span.zero := by
  have read := sound.read
  unfold previousSpan
  cases moved : stream.cursor with
  | zero => rfl
  | succ index =>
      rw [moved] at read
      dsimp only
      rw [getElem?_buffer stream index (by omega)]
      cases stream.whole[index]? <;> rfl

theorem previousSpan_eq_of_whole {stream later : TokenStream} (sound : stream.Sound)
    (laterSound : later.Sound) (whole : later.whole = stream.whole)
    (cursor : later.cursor = stream.cursor) : later.previousSpan = stream.previousSpan := by
  rw [sound.previousSpan_eq, laterSound.previousSpan_eq, whole, cursor]

/-- At the end of input nothing is consumed. -/
theorem advance_at_end {stream : TokenStream} (sound : stream.Sound) (ended : stream.ahead = []) :
    (stream.advance).1 = stream.stop ∧ (stream.advance).2.Sound ∧
      stream.Leads (stream.advance).2 ∧ (stream.advance).2.cursor = stream.cursor := by
  obtain ⟨seen, laterSound, leads, cursor, _⟩ := peek_spec sound 0
  rw [ended] at seen
  have kind : (stream.peek 0).1.kind = .endOfInput := by
    rw [seen]
    exact sound.stop_kind
  have same : stream.advance = stream.peek 0 := by
    unfold advance
    simp only [kind, if_true]
  rw [same]
  exact ⟨seen, laterSound, leads, cursor⟩

/-- Elsewhere the next token is consumed. -/
theorem advance_inside {stream : TokenStream} (sound : stream.Sound) {token : Token}
    {rest : List Token} (split : stream.ahead = token :: rest) :
    (stream.advance).1 = token ∧ (stream.advance).2.Sound ∧
      stream.Leads (stream.advance).2 ∧ (stream.advance).2.ahead = rest ∧
      (stream.advance).2.previousSpan = token.span := by
  obtain ⟨seen, laterSound, leads, cursor, inBuffer⟩ := peek_spec sound 0
  have lengths := sound.length_whole
  rw [split] at seen lengths
  have whole := sound.getElem?_whole 0
  rw [split] at whole
  simp only [Nat.add_zero, List.cons_append, List.getElem?_cons_zero] at whole
  simp only [List.getElem?_cons_zero, Option.getD_some] at seen
  simp only [List.length_cons] at lengths
  have kind : token.kind ≠ .endOfInput := sound.kind_of_not_last whole (by omega)
  have consumed : stream.advance =
      (token, { (stream.peek 0).2 with cursor := (stream.peek 0).2.cursor + 1 }) := by
    unfold advance
    simp only [seen, kind, if_false]
  rw [consumed]
  have sameStop : ({ (stream.peek 0).2 with cursor := (stream.peek 0).2.cursor + 1 } :
      TokenStream).stop = stream.stop := stop_eq_of_whole leads.whole
  have moved : ({ (stream.peek 0).2 with cursor := (stream.peek 0).2.cursor + 1 } :
      TokenStream).Sound := by
    have inside : stream.cursor < (stream.peek 0).2.buffer.size := inBuffer (by omega)
    refine ⟨laterSound.lexer, laterSound.unparked, laterSound.closed, ?_, ?_⟩
    · simp only [cursor]
      omega
    · change (stream.peek 0).2.cursor + 1 < (stream.peek 0).2.whole.length
      rw [leads.whole, cursor]
      omega
  refine ⟨rfl, moved, ⟨leads.whole, leads.failure, leads.read, ?_⟩, ?_, ?_⟩
  · simp only [cursor]
    omega
  · have dropped := moved.drop_cursor
    have before := sound.drop_cursor
    rw [sameStop] at dropped
    change (stream.peek 0).2.whole.drop ((stream.peek 0).2.cursor + 1) = _ at dropped
    rw [leads.whole, cursor, ← List.drop_drop, before, split] at dropped
    simp only [List.cons_append, List.drop_succ_cons, List.drop_zero] at dropped
    simpa only [cursor] using (List.append_cancel_right dropped).symm
  · rw [moved.previousSpan_eq]
    simp only
    change ((stream.peek 0).2.whole[(stream.peek 0).2.cursor]?.map Token.span).getD _ = _
    rw [leads.whole, cursor, whole]
    rfl

/-- Going back to an earlier cursor of the same tokens shows again what was ahead there. -/
theorem reset_spec {stream later : TokenStream} (sound : stream.Sound) (laterSound : later.Sound)
    (leads : stream.Leads later) :
    (later.reset stream.cursor).Sound ∧ stream.Leads (later.reset stream.cursor) ∧
      (later.reset stream.cursor).cursor = stream.cursor := by
  have cursor : (later.reset stream.cursor).cursor = stream.cursor := Nat.min_eq_left leads.cursor
  have read := sound.read
  have inside := sound.inside
  refine ⟨⟨laterSound.lexer, laterSound.unparked, laterSound.closed, ?_, ?_⟩,
    ⟨leads.whole, leads.failure, leads.read, Nat.le_of_eq cursor.symm⟩, cursor⟩
  · rw [cursor]
    exact Nat.le_trans read leads.read
  · change (later.reset stream.cursor).cursor < later.whole.length
    rw [cursor, leads.whole]
    exact inside

/-- There is room for every token that is left. -/
theorem length_ahead_lt_tokensAhead {stream : TokenStream} (sound : stream.Sound) :
    stream.ahead.length < stream.tokensAhead := by
  have lengths := sound.length_whole
  have read := sound.read
  unfold tokensAhead
  cases exhausted : stream.isExhausted with
  | true =>
      rw [whole_of_exhausted exhausted, Array.length_toList] at lengths
      omega
  | false =>
      have bound := Lexer.length_closed_run_le stream.lexer (sound.lexer exhausted)
      rw [whole_of_unexhausted exhausted, List.length_append, Array.length_toList] at lengths
      rw [Lexer.bytesAhead_eq (sound.lexer exhausted)]
      omega

/-! ### The beginning -/

theorem ofSource_isExhausted (source : String) (settings : Settings) :
    (ofSource source settings).isExhausted = false := rfl

theorem ofSource_whole (source : String) (settings : Settings) :
    (ofSource source settings).whole = (TokenRun.ofSource source settings).closed := by
  rw [whole_of_unexhausted (ofSource_isExhausted _ _)]
  rfl

theorem ofSource_failure (source : String) (settings : Settings) :
    (ofSource source settings).failure = (TokenRun.ofSource source settings).error := by
  rw [failure_of_unexhausted (ofSource_isExhausted _ _)]
  rfl

theorem sound_ofSource (source : String) (settings : Settings) :
    (ofSource source settings).Sound := by
  have closed : Closed (ofSource source settings).whole := by
    rw [ofSource_whole]
    exact Lexer.closed_run _ (Lexer.Sound.ofSource source settings)
  refine ⟨fun _ => Lexer.Sound.ofSource source settings, fun _ => rfl, closed, Nat.le_refl _, ?_⟩
  obtain ⟨inner, stop, split, _⟩ := closed
  rw [split]
  simp [ofSource]

end TokenStream

end SqlDml
