import SqlDml.Proofs.Naming.Retokenized

/-!
Contract: tokens and the text that they are written in.

Owns:
- the text under a token spells it, and the tokens begin one behind the other;
- the text under a keyword is a spelling of that keyword;
- what is read from the token of a name is written back as its text.

Does not own: what is read from the tokens.
-/

namespace SqlDml

open Text

namespace Item

variable {settings : Settings}

/-- The text under a token of a sequence of items spells it. -/
theorem Sequence.spelled {items : List Item} (sequence : Sequence settings items)
    {position : Position} {token : Token} (member : token ∈ placeAll position items)
    (inner : token.kind ≠ .endOfInput) :
    ∃ before text after next, charsAll items = before ++ (text ++ after) ∧
      token.span.start = position.offset + byteCount before ∧
      token.span.stop = token.span.start + byteCount text ∧
      Spelled settings token.kind text next := by
  induction sequence generalizing position with
  | ended read stops =>
      obtain rfl := List.mem_singleton.mp member
      exact absurd stops inner
  | @inner item items read innerItem behind inductionHypothesis =>
      rw [charsAll_cons, chars]
      rcases List.mem_cons.mp member with rfl | later
      · obtain ⟨start, stop⟩ := item.place_span position
        obtain ⟨_, _, spelled⟩ := (readBefore_iff innerItem).mp read
        exact ⟨item.trivia, item.text, charsAll items, _, List.append_assoc .., start, stop, spelled⟩
      · obtain ⟨before, text, after, next, split, start, stop, spelled⟩ := inductionHypothesis later
        refine ⟨item.trivia ++ item.text ++ before, text, after, next, ?_, ?_, stop, spelled⟩
        · rw [split]
          simp only [List.append_assoc]
        · rw [start, Position.advanceAll_offset, chars, byteCount_append _ before, Nat.add_assoc]

/-- The tokens of a sequence of items begin one behind the other. -/
theorem Sequence.starts {items : List Item} (sequence : Sequence settings items)
    (position : Position) :
    (placeAll position items).Pairwise fun token later => token.span.start < later.span.start := by
  induction sequence generalizing position with
  | ended _ _ => exact List.pairwise_singleton _ _
  | @inner item items read innerItem behind inductionHypothesis =>
      refine .cons (fun later member => ?_) (inductionHypothesis (position.advanceAll item.chars))
      have positive := byteCount_pos (read.text_ne_nil innerItem)
      have bound := le_start_of_mem_placeAll member
      obtain ⟨start, _⟩ := item.place_span position
      rw [Position.advanceAll_offset, chars, byteCount_append] at bound
      omega

end Item

theorem Spelled.ofWord?_of_keyword {settings : Settings} {keyword : Keyword} {text : List Char}
    {next : Option Char} (spelled : Spelled settings (.keyword keyword) text next) :
    Keyword.ofWord? text = some keyword := by
  generalize same : TokenKind.keyword keyword = kind at spelled
  cases spelled with
  | word starts all ends apart =>
      unfold wordKind at same
      split at same
      · next found =>
          cases same
          exact found
      · cases same
  | number numeral =>
      cases numeral with
      | decimal _ _ _ =>
          unfold decimalKind at same
          split at same
          · unfold integerToken at same
            split at same <;> cases same
          · cases same
      | _ => cases same
  | _ => cases same

/-- Tokens of a text: one behind the other, and each keyword is spelled under its token. -/
structure WrittenIn (source : List Char) (tokens : List Token) : Prop where
  starts : tokens.Pairwise fun token later => token.span.start < later.span.start
  keyword : ∀ token ∈ tokens, ∀ keyword, token.kind = .keyword keyword →
    ∃ text, token.span.slice? source = some text ∧ Keyword.ofWord? text = some keyword

/-- The text under a token of a source spells the token. -/
theorem spelled_of_tokenize {source : String} {settings : Settings} {tokens : List Token}
    (read : tokenize source settings = .ok tokens) {token : Token} (member : token ∈ tokens)
    (inner : token.kind ≠ .endOfInput) :
    ∃ before text after next, source.toList = before ++ (text ++ after) ∧
      token.span.slice? source.toList = some text ∧ Spelled settings token.kind text next := by
  obtain ⟨_, items, sequence, split, rfl⟩ := tokenize_eq_ok_iff.mp read
  obtain ⟨before, text, after, next, whole, start, stop, spelled⟩ := sequence.spelled member inner
  have offset : token.span.start = byteCount before := start.trans (Nat.zero_add _)
  refine ⟨before, text, after, next, split.trans whole, ?_, spelled⟩
  rw [Span.slice?, stop, offset, split, whole]
  exact sliceBytes?_append before text after

/-- The tokens of a source are written in it. -/
theorem writtenIn_of_tokenize {source : String} {settings : Settings} {tokens : List Token}
    (read : tokenize source settings = .ok tokens) : WrittenIn source.toList tokens := by
  constructor
  · obtain ⟨_, items, sequence, split, rfl⟩ := tokenize_eq_ok_iff.mp read
    exact sequence.starts Position.start
  · intro token member keyword kind
    obtain ⟨_, text, _, next, _, slice, spelled⟩ :=
      spelled_of_tokenize read member (by simp [kind])
    exact ⟨text, slice, (kind ▸ spelled).ofWord?_of_keyword⟩

/-! ### The text of a name -/

/-- A keyword is spelled with the characters of names. -/
theorem Spelled.needsQuoting_of_keyword {settings : Settings} {keyword : Keyword}
    {text : List Char} {next : Option Char} (spelled : Spelled settings (.keyword keyword) text next) :
    needsQuoting (String.ofList text) = false := by
  generalize same : TokenKind.keyword keyword = kind at spelled
  cases spelled with
  | @word first others _ starts all _ _ =>
      exact needsQuoting_eq_false_iff.mpr ⟨first, others, String.toList_ofList, starts, all⟩
  | number numeral =>
      subst same
      cases numeral.isNameAfterDot
  | _ => cases same

/-- What is read from the token of a name is written back as the text of the token. -/
theorem Spelled.toList_render {settings : Settings} {chars text : List Char} {token : Token}
    {next : Option Char} {ident : Ident} (spelled : Spelled settings token.kind text next)
    (slice : token.span.slice? chars = some text) (named : token.kind.isNameAfterDot = true)
    (parts : token.nameParts? chars = some (ident.value, ident.quote)) :
    ident.render.toList = text := by
  rw [Ident.toList_render]
  unfold Token.nameParts? at parts
  split at parts
  · next word kind =>
      obtain ⟨value, quote⟩ := Prod.mk.inj (Option.some.inj parts)
      obtain ⟨written, plain, _⟩ := spelled_word_iff.mp (kind ▸ spelled)
      rw [← value, ← quote, writtenQuote, if_neg (by simp [plain]), nameText, written]
  · next word mark kind =>
      obtain ⟨value, quote⟩ := Prod.mk.inj (Option.some.inj parts)
      obtain ⟨_, written, _⟩ := spelled_quotedWord_iff.mp (kind ▸ spelled)
      rw [← value, ← quote, writtenQuote, nameText, written]
  · next word mark kind =>
      rw [kind] at named
      cases named
  · next keyword kind =>
      rw [slice, Option.map_some] at parts
      obtain ⟨value, quote⟩ := Prod.mk.inj (Option.some.inj parts)
      have plain := (kind ▸ spelled).needsQuoting_of_keyword
      rw [← value, ← quote, writtenQuote, if_neg (by simp [plain]), nameText, String.toList_ofList]
  · cases parts

end SqlDml
