import SqlDml.Proofs.Naming.Qualifiers
import SqlDml.Proofs.Parsing.Entry
import SqlDml.Proofs.Reading.Statements

/-!
Contract: the leaves of a tree keep what the tokens of its source carry.

Owns:
- the leaves of a tree and their places;
- the words and sizes of the target type of a cast, which no leaf keeps;
- that leaves lie apart, that a name is one token, and that a token which carries something lies
  inside one leaf.

Does not own: what is made of the leaves.
-/

namespace SqlDml

/-! ### Leaves -/

/-- The place of a leaf: a name, a constant or a parameter marker. -/
def Visit.leafSpan? : Visit → Option Span
  | .ident name => some name.span
  | .expr (.literal _ span) | .expr (.placeholder _ span) => some span
  | _ => none

/-- The places of the leaves of a tree, one for each leaf. -/
def leafSpans (visits : List Visit) : List Span := visits.filterMap Visit.leafSpan?

instance (outer inner : Span) : Decidable (outer.Contains inner) :=
  inferInstanceAs (Decidable (_ ∧ _))

/-- How many leaves a token lies inside. -/
def Token.leafCount (token : Token) (visits : List Visit) : Nat :=
  (leafSpans visits).countP fun span => span.Contains token.span

/-- A word or a size of the target type of a cast.  The type stands between `AS` and the parenthesis
that the cast ends with. -/
def Token.InTarget (token : Token) (visits : List Visit) (tokens : List Token) : Prop :=
  ∃ operand target span front word typed stop back,
    .expr (.cast operand target span) ∈ visits ∧
      tokens = front ++ (word :: (typed ++ [stop]) ++ back) ∧ word.kind = .keyword .AS ∧
      target.WrittenBy typed ∧ stop.kind = .punct .rightParen ∧ stop.span.stop = span.stop ∧
      token ∈ typed

/-- The leaves of a tree keep what the tokens carry that it was read from. -/
structure Kept (source : List Char) (visits : List Visit) (tokens : List Token) : Prop where
  /-- A leaf runs from one token to one at or behind it. -/
  runs : ∀ span ∈ leafSpans visits, ∃ first ∈ tokens, ∃ last ∈ tokens,
    span = first.span.through last.span
  apart : (leafSpans visits).Pairwise Span.Apart
  names : ∀ name, .ident name ∈ visits →
    ∃! token, token ∈ tokens ∧ token.span = name.span ∧
      token.nameParts? source = some (name.value, name.quote)
  once : ∀ token ∈ tokens, token.kind.isPayload = true →
    token.leafCount visits = 1 ∨ token.InTarget visits tokens

theorem Token.InTarget.mono {token : Token} {visits more : List Visit} {tokens : List Token}
    (target : token.InTarget visits tokens) (below : visits ⊆ more) (before behind : List Token) :
    token.InTarget more (before ++ (tokens ++ behind)) := by
  obtain ⟨operand, type, span, front, word, typed, stop, back, cast, rfl, facts⟩ := target
  refine ⟨operand, type, span, before ++ front, word, typed, stop, back ++ behind, below cast, ?_,
    facts⟩
  simp only [List.append_assoc]

/-! ### Tokens of a source -/

section Laid

variable {source : List Char} {front back tokens : List Token}

theorem inOrder_of_laid (laid : Laid 0 source (tokens.map Token.span)) : InOrder tokens := by
  refine ⟨List.pairwise_map.mp laid.pairwise, fun token member => ?_⟩
  exact Nat.le_of_lt (laid.bounds (List.mem_map_of_mem member)).2.1

theorem start_lt_stop (laid : Laid 0 source (tokens.map Token.span)) {token : Token}
    (member : token ∈ tokens) : token.span.start < token.span.stop :=
  (laid.bounds (List.mem_map_of_mem member)).2.1

theorem laid_front (laid : Laid 0 source ((front ++ back).map Token.span)) :
    Laid 0 source (front.map Token.span) :=
  laid.sublist ((List.sublist_append_left front back).map _)

theorem laid_back (laid : Laid 0 source ((front ++ back).map Token.span)) :
    Laid 0 source (back.map Token.span) :=
  laid.sublist ((List.sublist_append_right front back).map _)

/-- No two tokens have one place. -/
theorem token_eq_of_span (laid : Laid 0 source (tokens.map Token.span)) {token other : Token}
    (member : token ∈ tokens) (inTokens : other ∈ tokens) (same : other.span = token.span) :
    other = token :=
  List.inj_on_of_nodup_map laid.nodup inTokens member same

theorem stop_le_start (laid : Laid 0 source ((front ++ back).map Token.span)) {left right : Token}
    (inFront : left ∈ front) (inBack : right ∈ back) : left.span.stop ≤ right.span.start :=
  (List.pairwise_append.mp (inOrder_of_laid laid).apart).2.2 left inFront right inBack

end Laid

/-! ### Trees put together -/

namespace Kept

variable {source : List Char} {visits left right more : List Visit}
  {tokens front back : List Token}

/-- Tokens that carry nothing, or stand for a type. -/
theorem of_none (unnamed : leafSpans visits = [])
    (others : ∀ token ∈ tokens, token.kind.isPayload = true → token.InTarget visits tokens) :
    Kept source visits tokens where
  runs span member := by
    rw [unnamed] at member
    cases member
  apart := by
    rw [unnamed]
    exact .nil
  names name member := by
    have named : name.span ∈ leafSpans visits := List.mem_filterMap.mpr ⟨_, member, rfl⟩
    rw [unnamed] at named
    cases named
  once token member payload := .inr (others token member payload)

theorem nothing : Kept source [] [] := of_none rfl nofun

theorem passed {token : Token} (plain : token.kind.isPayload = false) : Kept source [] [token] := by
  refine of_none rfl fun other member payload => ?_
  rw [List.mem_singleton.mp member, plain] at payload
  cases payload

/-- One leaf over tokens. -/
theorem leaf {visit : Visit} {span : Span} (place : visit.leafSpan? = some span)
    (covers : Covers tokens span) (order : InOrder tokens)
    (names : ∀ name, visit = .ident name → ∃! token, token ∈ tokens ∧ token.span = name.span ∧
      token.nameParts? source = some (name.value, name.quote)) : Kept source [visit] tokens := by
  have leaves : leafSpans [visit] = [span] := List.filterMap_cons_some place
  obtain ⟨first, last, opens, closes, rfl⟩ := covers
  refine ⟨fun span member => ?_, ?_, fun name member => ?_, fun token member _ => .inl ?_⟩
  · rw [leaves] at member
    obtain rfl := List.mem_singleton.mp member
    exact ⟨first, List.mem_of_head? opens, last, List.mem_of_getLast? closes, rfl⟩
  · rw [leaves]
    exact List.pairwise_singleton _ _
  · exact names name (List.mem_singleton.mp member).symm
  · have inside : (first.span.through last.span).Contains token.span :=
      ⟨order.start_le opens member, order.stop_le closes member⟩
    rw [Token.leafCount, leaves, List.countP_singleton, if_pos (by simpa using inside)]

/-- A tree above others that is no leaf. -/
theorem above {visit : Visit} (kept : Kept source visits tokens) (node : visit.leafSpan? = none) :
    Kept source (visit :: visits) tokens := by
  have leaves : leafSpans (visit :: visits) = leafSpans visits := List.filterMap_cons_none node
  refine ⟨leaves ▸ kept.runs, leaves ▸ kept.apart, fun name member => ?_, ?_⟩
  · rcases List.mem_cons.mp member with rfl | below
    · cases node
    · exact kept.names name below
  · intro token member payload
    rw [Token.leafCount, leaves]
    refine (kept.once token member payload).imp_right fun target => ?_
    simpa using target.mono (List.subset_cons_self visit visits) [] []

/-- The order of the leaves tells nothing. -/
theorem perm (kept : Kept source visits tokens) (same : visits.Perm more) :
    Kept source more tokens := by
  have leaves : (leafSpans visits).Perm (leafSpans more) := same.filterMap _
  have symmetric : ∀ {left right : Span}, left.Apart right → right.Apart left := Or.symm
  refine ⟨fun span member => ?_, ?_, fun name member => ?_, fun token member payload => ?_⟩
  · exact kept.runs span (leaves.mem_iff.mpr member)
  · exact (leaves.pairwise_iff symmetric).mp kept.apart
  · exact kept.names name (same.mem_iff.mpr member)
  · rw [Token.leafCount, ← leaves.countP_eq]
    refine (kept.once token member payload).imp_right fun target => ?_
    simpa using target.mono same.subset [] []

/-- Trees behind each other. -/
theorem append (first : Kept source left front) (second : Kept source right back)
    (laid : Laid 0 source ((front ++ back).map Token.span)) :
    Kept source (left ++ right) (front ++ back) := by
  have leaves : leafSpans (left ++ right) = leafSpans left ++ leafSpans right :=
    List.filterMap_append
  have inFront : ∀ token ∈ front, token.leafCount right = 0 := by
    intro token member
    refine List.countP_eq_zero.mpr fun span place => ?_
    obtain ⟨start, among, last, _, rfl⟩ := second.runs span place
    have apart := stop_le_start laid member among
    have solid := start_lt_stop (laid_front laid) member
    show ¬decide (start.span.start ≤ token.span.start ∧ token.span.stop ≤ last.span.stop) = true
    rw [decide_eq_true_iff]
    omega
  have inBack : ∀ token ∈ back, token.leafCount left = 0 := by
    intro token member
    refine List.countP_eq_zero.mpr fun span place => ?_
    obtain ⟨start, _, last, among, rfl⟩ := first.runs span place
    have apart := stop_le_start laid among member
    have solid := start_lt_stop (laid_back laid) member
    show ¬decide (start.span.start ≤ token.span.start ∧ token.span.stop ≤ last.span.stop) = true
    rw [decide_eq_true_iff]
    omega
  have counted : ∀ token : Token,
      token.leafCount (left ++ right) = token.leafCount left + token.leafCount right := by
    intro token
    rw [Token.leafCount, leaves, List.countP_append]
    rfl
  refine ⟨fun span member => ?_, ?_, fun name member => ?_, fun token member payload => ?_⟩
  · rw [leaves] at member
    rcases List.mem_append.mp member with before | behind
    · obtain ⟨start, opens, last, closes, same⟩ := first.runs span before
      exact ⟨start, List.mem_append_left _ opens, last, List.mem_append_left _ closes, same⟩
    · obtain ⟨start, opens, last, closes, same⟩ := second.runs span behind
      exact ⟨start, List.mem_append_right _ opens, last, List.mem_append_right _ closes, same⟩
  · rw [leaves]
    refine List.pairwise_append.mpr ⟨first.apart, second.apart, ?_⟩
    intro before inLeft behind inRight
    obtain ⟨_, _, last, closes, rfl⟩ := first.runs before inLeft
    obtain ⟨start, opens, _, _, rfl⟩ := second.runs behind inRight
    exact .inl (stop_le_start laid closes opens)
  · have unique : ∀ token, token ∈ front ++ back ∧ token.span = name.span ∧
        token.nameParts? source = some (name.value, name.quote) →
        ∃! token, token ∈ front ++ back ∧ token.span = name.span ∧
          token.nameParts? source = some (name.value, name.quote) := by
      rintro token ⟨among, place, parts⟩
      refine ⟨token, ⟨among, place, parts⟩, ?_⟩
      rintro other ⟨inTokens, same, _⟩
      exact token_eq_of_span laid among inTokens (same.trans place.symm)
    rcases List.mem_append.mp member with inLeft | inRight
    · obtain ⟨token, ⟨among, facts⟩, _⟩ := first.names name inLeft
      exact unique token ⟨List.mem_append_left _ among, facts⟩
    · obtain ⟨token, ⟨among, facts⟩, _⟩ := second.names name inRight
      exact unique token ⟨List.mem_append_right _ among, facts⟩
  · rw [counted]
    rcases List.mem_append.mp member with before | behind
    · rw [inFront token before, Nat.add_zero]
      refine (first.once token before payload).imp_right fun target => ?_
      exact target.mono (List.subset_append_left left right) [] back
    · rw [inBack token behind, Nat.zero_add]
      refine (second.once token behind payload).imp_right fun target => ?_
      simpa using target.mono (List.subset_append_right left right) front []

end Kept

/-! ### What is read -/

/-- A name that stands for a token of the source is this token. -/
theorem Ident.StandsFor.exists_unique {name : Ident} {source : List Char} {token : Token}
    (stands : name.StandsFor source token) (laid : Laid 0 source ([token].map Token.span)) :
    ∃! other, other ∈ [token] ∧ other.span = name.span ∧
      other.nameParts? source = some (name.value, name.quote) := by
  obtain ⟨text, sliced⟩ := laid.slice? List.mem_cons_self
  have parts := stands.parts (Option.isSome_iff_exists.mpr ⟨text, sliced⟩)
  refine ⟨token, ⟨List.mem_cons_self, stands.place.symm, parts⟩, ?_⟩
  rintro other ⟨member, _⟩
  exact List.mem_singleton.mp member

/-- The tokens behind the operand of a cast. -/
theorem Kept.target {source : List Char} {operand : Expr} {target : TypeName} {span : Span}
    {tokens : List Token} {last : Token} (typed : target.EndsCast tokens)
    (closes : tokens.getLast? = some last) (ends : last.span.stop = span.stop) :
    Kept source [.expr (.cast operand target span)] tokens := by
  obtain ⟨word, type, stop, rfl, behind, written, closed⟩ := typed
  obtain rfl : stop = last := by
    rw [← List.cons_append, List.getLast?_concat] at closes
    exact Option.some.inj closes
  refine .of_none rfl fun token member payload => ?_
  have inType : token ∈ type := by
    rcases List.mem_cons.mp member with rfl | among
    · rw [behind] at payload
      cases payload
    · rcases List.mem_append.mp among with inside | final
      · exact inside
      · rw [List.mem_singleton.mp final, closed] at payload
        cases payload
  exact ⟨operand, target, span, [], word, type, stop, [], List.mem_cons_self, by simp, behind,
    written, closed, ends, inType⟩

/-- A cast from its first token to the parenthesis behind its target type. -/
theorem Kept.cast {source : List Char} {operand : Expr} {target : TypeName}
    {front tokens : List Token} {first last : Token} (kept : Kept source operand.visits front)
    (typed : target.EndsCast tokens) (opens : (front ++ tokens).head? = some first)
    (closes : tokens.getLast? = some last)
    (laid : Laid 0 source ((front ++ tokens).map Token.span)) :
    Kept source (.expr (.cast operand target (first.span.merge last.span)) :: operand.visits)
      (front ++ tokens) := by
  have order := inOrder_of_laid laid
  have final : (front ++ tokens).getLast? = some last := by
    rw [List.getLast?_append, closes]
    rfl
  have begins := order.start_le opens (List.mem_of_getLast? final)
  have stops := order.stop_le final (List.mem_of_head? opens)
  have ends : last.span.stop = (first.span.merge last.span).stop := by
    rw [Span.merge, if_pos begins]
    exact (Nat.max_eq_right stops).symm
  exact (kept.append (Kept.target typed closes ends) laid).perm (List.perm_append_singleton _ _)

/-- The leaves that are read keep what the tokens carry. -/
theorem Read.kept {visits : List Visit} {spot later : Spot} (read : Read visits spot later) :
    Laid 0 spot.source (spot.ahead.map Token.span) →
      ∃ tokens, spot.ahead = tokens ++ later.ahead ∧ later.source = spot.source ∧
        Kept spot.source visits tokens := by
  induction read with
  | nothing spot => exact fun _ => ⟨[], rfl, rfl, .nothing⟩
  | @passed spot plain =>
      intro _
      obtain ⟨tokens, split, rfl | rfl⟩ := spot.ahead_next
      · exact ⟨[], split, rfl, .nothing⟩
      · exact ⟨_, split, rfl, .passed plain⟩
  | @name spot name inner _ stands =>
      intro laid
      have split : spot.ahead = [spot.token 0] ++ spot.next.ahead := Spot.ahead_of_inner inner
      rw [split] at laid
      have covers : Covers [spot.token 0] name.span := stands.place ▸ .singleton _
      refine ⟨_, split, rfl, .leaf rfl covers (inOrder_of_laid (laid_front laid)) ?_⟩
      rintro _ ⟨⟩
      exact stands.exists_unique (laid_front laid)
  | @marker spot marked =>
      intro laid
      have split : spot.ahead = [spot.token 0] ++ spot.next.ahead :=
        Spot.ahead_of_inner (by simp [marked])
      rw [split] at laid
      exact ⟨_, split, rfl, .leaf rfl (.singleton _) (inOrder_of_laid (laid_front laid)) nofun⟩
  | @literal value span spot later tokens takes covers =>
      intro laid
      rw [takes.through.split] at laid
      have order := inOrder_of_laid (laid_front laid)
      exact ⟨tokens, takes.through.split, takes.through.source,
        .leaf rfl (covers order) order nofun⟩
  | @append left right first middle last _ _ inFront inBack =>
      intro laid
      obtain ⟨front, split, same, keptFront⟩ := inFront laid
      have laidBack := laid
      rw [split] at laidBack
      rw [← same] at laidBack
      obtain ⟨back, splitBack, sameBack, keptBack⟩ := inBack (laid_back laidBack)
      have whole : first.ahead = front ++ back ++ last.ahead := by
        rw [split, splitBack, List.append_assoc]
      rw [whole] at laid
      rw [same] at keptBack
      exact ⟨front ++ back, whole, sameBack.trans same, keptFront.append keptBack (laid_front laid)⟩
  | @node visit visits spot later node _ inductionHypothesis =>
      intro laid
      obtain ⟨tokens, split, same, kept⟩ := inductionHypothesis laid
      have unplaced : visit.leafSpan? = none := by
        unfold Visit.isNode at node
        unfold Visit.leafSpan?
        split at node <;> simp_all
      exact ⟨tokens, split, same, kept.above unplaced⟩
  | @cast operand target spot middle later tokens _ takes typed inductionHypothesis =>
      intro laid
      obtain ⟨front, split, same, kept⟩ := inductionHypothesis laid
      have whole : spot.ahead = front ++ tokens ++ later.ahead := by
        rw [split, takes.through.split, List.append_assoc]
      rw [whole] at laid
      obtain ⟨last, closes⟩ : ∃ last, tokens.getLast? = some last := by
        obtain ⟨word, type, stop, rfl, _⟩ := typed
        exact ⟨stop, by rw [← List.cons_append, List.getLast?_concat]⟩
      have opens : (front ++ tokens).head? = some (spot.token 0) := by
        cases ahead : front ++ tokens with
        | nil =>
            rw [(List.append_eq_nil_iff.mp ahead).2] at closes
            cases closes
        | cons token rest => simp [Spot.token, whole, ahead]
      rw [takes.last_eq closes]
      exact ⟨front ++ tokens, whole, takes.through.source.trans same,
        kept.cast typed opens closes (laid_front laid)⟩
  | tableName _ _ inductionHypothesis =>
      intro laid
      obtain ⟨tokens, split, same, kept⟩ := inductionHypothesis laid
      exact ⟨tokens, split, same, kept.above rfl⟩
  | qualifier _ _ inductionHypothesis =>
      intro laid
      obtain ⟨tokens, split, same, kept⟩ := inductionHypothesis laid
      exact ⟨tokens, split, same, kept.above rfl⟩
  | swap _ _ inductionHypothesis =>
      intro laid
      obtain ⟨tokens, split, same, kept⟩ := inductionHypothesis laid
      exact ⟨tokens, split, same, kept.perm List.perm_append_comm⟩

/-- What is read from all tokens of a source keeps what they carry. -/
theorem Read.kept_of_source {source : String} {settings : Settings} {visits : List Visit}
    {later : Spot} (unfailed : (TokenRun.ofSource source settings).error = none)
    (read : Read visits (Spot.ofSource source settings) later) (all : later.ahead = []) :
    ∃ tokens stop, tokenize source settings = .ok (tokens ++ [stop]) ∧
      stop.kind = .endOfInput ∧ Kept source.toList visits tokens := by
  obtain ⟨tokens, split, _, kept⟩ := read.kept (laid_ofSource source settings)
  rw [all, List.append_nil] at split
  have whole := tokenize_eq_ok.mpr ⟨unfailed, ofSource_whole source settings⟩
  rw [split] at whole
  exact ⟨tokens, _, whole, (TokenStream.sound_ofSource source settings).stop_kind, kept⟩

/-- Parsing loses and doubles no token that carries something.  The leaves of a parsed tree lie apart;
a name is exactly one token, which decodes to its value and quote; and each name, constant and `?`
among the tokens lies inside exactly one leaf, unless it is a word or a size of the target type of a
cast.  This holds of statements and of expressions. -/
theorem leaves_keep_tokens (source : String) (settings : Settings) :
    (∀ parsed, parseStatement source settings = .ok parsed →
      ∃ tokens stop, tokenize source settings = .ok (tokens ++ [stop]) ∧
        stop.kind = .endOfInput ∧ Kept source.toList parsed.statement.visits tokens) ∧
    ∀ expr, parseExpression source settings = .ok expr →
      ∃ tokens stop, tokenize source settings = .ok (tokens ++ [stop]) ∧
        stop.kind = .endOfInput ∧ Kept source.toList expr.visits tokens := by
  constructor
  · intro parsed accepted
    have unfailed := ((parseStatement_eq_ok source settings).mp accepted).1
    obtain ⟨later, read, all⟩ := read_of_parseStatement accepted
    exact read.kept_of_source unfailed all
  · intro expr accepted
    have unfailed := ((parseExpression_eq_ok source settings).mp accepted).1
    obtain ⟨later, read, all⟩ := read_of_parseExpression accepted
    exact read.kept_of_source unfailed all

/-- The offset of the limit is read in front of the count, a character set and two strings are one
constant, and the type of the cast has no leaf. -/
theorem leaves_keep_tokens_of_select :
    ∃ parsed tokens stop,
      parseStatement "SELECT _utf8'x' 'y', CAST(? AS CHAR(3)) FROM t LIMIT 2, 1" {} = .ok parsed ∧
        (leafSpans parsed.statement.visits).map Span.start = [7, 26, 45, 56, 53] ∧
        tokenize "SELECT _utf8'x' 'y', CAST(? AS CHAR(3)) FROM t LIMIT 2, 1" {} =
          .ok (tokens ++ [stop]) ∧
        Kept "SELECT _utf8'x' 'y', CAST(? AS CHAR(3)) FROM t LIMIT 2, 1".toList
          parsed.statement.visits tokens := by
  obtain ⟨parsed, accepted, places⟩ :=
    @exists_parsed "SELECT _utf8'x' 'y', CAST(? AS CHAR(3)) FROM t LIMIT 2, 1" {}
      (fun parsed => (leafSpans parsed.statement.visits).map Span.start = [7, 26, 45, 56, 53]) _ _ rfl
      (by decide +kernel)
  obtain ⟨tokens, stop, whole, _, kept⟩ := (leaves_keep_tokens _ _).1 parsed accepted
  exact ⟨parsed, tokens, stop, accepted, places, whole, kept⟩

end SqlDml
