import Mathlib.Data.List.Forall2
import SqlDml.Proofs.Extents.Parts
import SqlDml.Proofs.Spelling.Written

/-!
Contract: a piece of a source, read on its own.

Owns:
- items in front of the end of a text in place of further items;
- the text from one token of a source to a later one has the tokens between the two, with the same
  kinds and the same texts, unless the last of them is a dash.

Does not own: what is read from the tokens.
-/

namespace SqlDml

open Text

variable {settings : Settings}

/-! ### At the end of a text -/

section

variable {kind : TokenKind} {text : List Char} {next : Option Char}

/-- Every numeral may stand at the end of a text. -/
theorem Numeral.atEnd (numeral : Numeral kind text next) : Numeral kind text none := by
  cases numeral with
  | decimal parts _ _ => exact .decimal parts nofun fun _ _ => nofun
  | hex mark nonempty all _ => exact .hex mark nonempty all nofun
  | bit mark nonempty all _ => exact .bit mark nonempty all nofun

/-- Every token may stand at the end of a text. -/
theorem Spelled.atEnd (spelled : Spelled settings kind text next) :
    Spelled settings kind text none := by
  cases spelled with
  | string opens body _ => exact .string opens body nofun
  | quotedWord quotes body _ => exact .quotedWord quotes body nofun
  | hexString mark all even => exact .hexString mark all even
  | bitString mark all => exact .bitString mark all
  | number numeral => exact .number numeral.atEnd
  | word starts all _ _ => exact .word starts all nofun fun _ => nofun
  | mark _ _ => exact .mark nofun fun _ => nofun

/-- A token that is spelled as a mark is one. -/
theorem Spelled.kind_of_mark (mark : Punct) (spelled : Spelled settings kind mark.text.toList next) :
    kind = .punct mark := by
  have alone : Spelled settings (.punct mark) mark.text.toList none := .mark nofun fun _ => nofun
  have read := @Spelled.scanLexeme_eq settings kind _ [] spelled.atEnd _ (Nat.le_refl _)
  rw [@Spelled.scanLexeme_eq settings _ _ [] alone _ (Nat.le_refl _)] at read
  simp only [Lexeme.token, Lexeme.mk.injEq, Except.ok.injEq] at read
  exact read.1.symm

end

namespace Item

variable {item : Item} {rest more : List Char} {front back items : List Item}

/-- An item without the trivia in front of it. -/
def bare (item : Item) : Item := { item with trivia := [] }

/-- The end of a text, with no trivia in front of it. -/
def ending : Item := ⟨[], .endOfInput, []⟩

theorem ReadBefore.bare (read : item.ReadBefore settings rest) :
    item.bare.ReadBefore settings rest :=
  ⟨.nothing _, read.front, read.scan⟩

theorem sequence_ending : Sequence settings [ending] :=
  .ended ⟨.nothing _, rfl, rfl⟩ rfl

/-- An item is read in front of the beginning of its rest, if that does not make a comment of two
dashes. -/
theorem ReadBefore.cut (read : item.ReadBefore settings (rest ++ more))
    (inner : item.kind ≠ .endOfInput) (apart : item.text = ['-'] → rest ≠ ['-']) :
    item.ReadBefore settings rest := by
  obtain ⟨run, noComment, spelled⟩ := (readBefore_iff inner).mp read
  refine (readBefore_iff inner).mpr ⟨?_, fun begins => noComment ?_, ?_⟩
  · obtain ⟨first, others, text⟩ := List.exists_cons_of_ne_nil spelled.text_ne_nil
    rw [text] at run ⊢
    exact run.change (.inl rfl) _
  · rcases begins with ⟨dash, behind, same, opens⟩ | ⟨slash, star⟩
    · cases behind with
      | nil => exact absurd same (apart dash)
      | cons char behind => exact .inl ⟨dash, char :: (behind ++ more), by rw [same]; rfl, opens⟩
    · refine .inr ⟨slash, ?_⟩
      rw [List.head?_append, star]
      rfl
  · cases rest with
    | nil => exact spelled.atEnd
    | cons char rest => exact spelled

theorem Sequence.of_append (sequence : Sequence settings (front ++ back)) (some_ : back ≠ []) :
    Sequence settings back := by
  induction front with
  | nil => exact sequence
  | cons first front inductionHypothesis =>
      rcases (sequence_cons_iff.mp sequence).2 with ⟨_, none⟩ | ⟨_, behind⟩
      · exact absurd (List.append_eq_nil_iff.mp none).2 some_
      · exact inductionHypothesis behind

/-- In front of other items no item is the end of the text. -/
theorem Sequence.spelled_of_mem (sequence : Sequence settings (front ++ back)) (some_ : back ≠ [])
    (member : item ∈ front) : ∃ next, Spelled settings item.kind item.text next := by
  induction front with
  | nil => cases member
  | cons first front inductionHypothesis =>
      obtain ⟨read, ⟨_, none⟩ | ⟨inner, behind⟩⟩ := sequence_cons_iff.mp sequence
      · exact absurd (List.append_eq_nil_iff.mp none).2 some_
      · rcases List.mem_cons.mp member with rfl | later
        · obtain ⟨_, _, spelled⟩ := (readBefore_iff inner).mp read
          exact ⟨_, spelled⟩
        · exact inductionHypothesis behind later

/-- Items, the last of which is no dash, are not spelled as one dash. -/
theorem Sequence.charsAll_ne_dash (sequence : Sequence settings (front ++ back)) (some_ : back ≠ [])
    (clean : ∀ last ∈ front.getLast?, last.kind ≠ .punct .minus) : charsAll front ≠ ['-'] := by
  intro dash
  obtain rfl | ⟨before, last, rfl⟩ := List.eq_nil_or_concat front
  · cases dash
  · rw [List.concat_eq_append] at sequence clean dash
    obtain ⟨next, spelled⟩ :=
      sequence.spelled_of_mem some_ (List.mem_append_right before List.mem_cons_self)
    refine clean last (by simp) ?_
    rw [charsAll_append, charsAll_cons, charsAll_nil, List.append_nil, chars,
      ← List.append_assoc] at dash
    rcases List.append_eq_singleton_iff.mp dash with ⟨_, text⟩ | ⟨_, none⟩
    · exact (text ▸ spelled).kind_of_mark .minus
    · exact absurd none spelled.text_ne_nil

/-- Items in front of others are read in front of the end of a text, unless the last of them is a
dash. -/
theorem Sequence.cut (sequence : Sequence settings (front ++ back)) (some_ : back ≠ [])
    (clean : ∀ last ∈ front.getLast?, last.kind ≠ .punct .minus) :
    Sequence settings (front ++ [ending]) := by
  induction front with
  | nil => exact sequence_ending
  | cons first front inductionHypothesis =>
      rw [List.cons_append] at sequence ⊢
      obtain ⟨read, ⟨_, none⟩ | ⟨inner, behind⟩⟩ := sequence_cons_iff.mp sequence
      · exact absurd (List.append_eq_nil_iff.mp none).2 some_
      · have cleanBehind : ∀ last ∈ front.getLast?, last.kind ≠ .punct .minus := fun last closes =>
          clean last (by rw [List.getLast?_cons, Option.mem_def.mp closes]; rfl)
        refine .inner ?_ inner (inductionHypothesis behind cleanBehind)
        rw [charsAll_append] at read
        have ends : charsAll [ending] = [] := rfl
        rw [charsAll_append, ends, List.append_nil]
        exact read.cut inner fun _ => behind.charsAll_ne_dash some_ cleanBehind

/-! ### The tokens of items -/

/-- A token stands for an item of a text. -/
def StandsFor (source : List Char) (token : Token) (item : Item) : Prop :=
  token.kind = item.kind ∧ token.span.slice? source = some item.text

/-- Each token of items, placed behind some text, stands for its item. -/
theorem standsFor_placeAll (items : List Item) {position : Position} {before : List Char}
    (offset : position.offset = byteCount before) (after : List Char) :
    List.Forall₂ (StandsFor (before ++ (charsAll items ++ after))) (placeAll position items)
      items := by
  induction items generalizing position before with
  | nil => exact .nil
  | cons item items inductionHypothesis =>
      obtain ⟨start, stop⟩ := item.place_span position
      refine .cons ⟨rfl, ?_⟩ ?_
      · have split : before ++ (charsAll (item :: items) ++ after) =
            (before ++ item.trivia) ++ (item.text ++ (charsAll items ++ after)) := by
          simp [chars]
        rw [Span.slice?, stop, start, offset, split, ← byteCount_append]
        exact sliceBytes?_append _ _ _
      · have split : before ++ (charsAll (item :: items) ++ after) =
            (before ++ item.chars) ++ (charsAll items ++ after) := by simp
        rw [split]
        refine inductionHypothesis ?_
        rw [Position.advanceAll_offset, offset, byteCount_append]

/-- The tokens in front belong to the items in front. -/
theorem placeAll_eq_append {position : Position} {tokens later : List Token}
    (placed : placeAll position items = tokens ++ later) :
    ∃ front back, items = front ++ back ∧ tokens = placeAll position front ∧
      later = placeAll (position.advanceAll (charsAll front)) back := by
  induction tokens generalizing position items with
  | nil => exact ⟨[], items, rfl, rfl, placed.symm⟩
  | cons token tokens inductionHypothesis =>
      cases items with
      | nil => cases placed
      | cons item items =>
          obtain ⟨rfl, rest⟩ := List.cons.inj placed
          obtain ⟨front, back, rfl, rfl, rfl⟩ := inductionHypothesis rest
          refine ⟨item :: front, back, rfl, rfl, ?_⟩
          rw [charsAll_cons, Position.advanceAll_append]

/-- Where the last token is no dash, the last item is none. -/
theorem clean_of_placeAll {position : Position} (clean : EndsClean (placeAll position items)) :
    ∀ last ∈ items.getLast?, last.kind ≠ .punct .minus := by
  intro last closes
  obtain ⟨front, rfl⟩ := List.getLast?_eq_some_iff.mp closes
  refine (clean (last.place (position.advanceAll (charsAll front))) ?_).1
  rw [placeAll_append, placeAll, placeAll, List.getLast?_concat]

/-- Items end where their last token ends. -/
theorem stop_of_getLast? {position : Position} {last : Token}
    (closes : (placeAll position items).getLast? = some last) :
    last.span.stop = position.offset + byteCount (charsAll items) := by
  obtain rfl | ⟨front, item, rfl⟩ := List.eq_nil_or_concat items
  · cases closes
  · rw [List.concat_eq_append, placeAll_append, placeAll, placeAll,
      List.getLast?_concat] at closes
    obtain rfl := Option.some.inj closes
    obtain ⟨start, stop⟩ := item.place_span (position.advanceAll (charsAll front))
    simp [stop, start, chars, Nat.add_assoc]

end Item

/-! ### Pieces of a source -/

/-- Two tokens of one kind, over the same text in two sources. -/
def SameText (source source' : List Char) (token token' : Token) : Prop :=
  token'.kind = token.kind ∧ token'.span.slice? source' = token.span.slice? source

instance (source source' : List Char) (token token' : Token) :
    Decidable (SameText source source' token token') :=
  inferInstanceAs (Decidable (_ ∧ _))

theorem sameText_of_standsFor {source source' : List Char} {tokens tokens' : List Token}
    {items : List Item} (left : List.Forall₂ (Item.StandsFor source) tokens items)
    (right : List.Forall₂ (Item.StandsFor source') tokens' items) :
    List.Forall₂ (SameText source source') tokens tokens' := by
  induction left generalizing tokens' with
  | nil =>
      cases right
      exact .nil
  | cons first _ inductionHypothesis =>
      cases right with
      | cons first' rest' =>
          exact .cons ⟨first'.1.trans first.1.symm, first'.2.trans first.2.symm⟩
            (inductionHypothesis rest')

namespace Item

/-- Items up to the end of a text are read from their characters. -/
theorem Sequence.tokenize_eq {items : List Item} (sequence : Sequence settings (items ++ [ending]))
    (fits : byteCount (charsAll items) ≤ maxSourceLength) :
    tokenize (String.ofList (charsAll items)) settings =
      .ok (placeAll Position.start items ++
        [ending.place (Position.start.advanceAll (charsAll items))]) := by
  refine tokenize_eq_ok_iff.mpr ⟨by rwa [utf8ByteSize_ofList], _, sequence, ?_, ?_⟩
  · simp [chars, ending]
  · rw [placeAll_append]
    rfl

/-- The first of some items without its trivia, in front of the end of the text. -/
theorem Sequence.bare {item : Item} {items : List Item}
    (sequence : Sequence settings (item :: items ++ [ending])) :
    Sequence settings (item.bare :: items ++ [ending]) := by
  rw [List.cons_append] at sequence ⊢
  obtain ⟨read, ⟨_, none⟩ | ⟨inner, later⟩⟩ := sequence_cons_iff.mp sequence
  · simp at none
  · exact .inner read.bare inner later

end Item

open Item in
/-- The text of a span that covers some tokens of a source is read as these tokens, unless the last
of them is a dash, which could make a comment. -/
theorem tokenize_slice {source : String} {front inside back : List Token} {stop : Token} {span : Span}
    (read : tokenize source settings = .ok (front ++ (inside ++ (back ++ [stop]))))
    (clean : EndsClean inside) (covers : Covers inside span) :
    ∃ (text : String) (tokens : List Token) (last : Token),
      span.slice? source.toList = some text.toList ∧
      tokenize text settings = .ok (tokens ++ [last]) ∧ last.kind = .endOfInput ∧
      List.Forall₂ (SameText source.toList text.toList) inside tokens := by
  obtain ⟨fits, items, sequence, split, placed⟩ := tokenize_eq_ok_iff.mp read
  obtain ⟨before, _, rfl, rfl, others⟩ := placeAll_eq_append placed.symm
  obtain ⟨block, after, rfl, rfl, rest⟩ := placeAll_eq_append others.symm
  have some_ : after ≠ [] := by
    rintro rfl
    simp [placeAll] at rest
  obtain ⟨item, block, rfl⟩ := List.exists_cons_of_ne_nil
    (show block ≠ [] by
      rintro rfl
      exact covers.ne_nil rfl)
  obtain ⟨first, last, opens, closes, rfl⟩ := covers
  obtain rfl := Option.some.inj opens
  have whole : source.toList = (charsAll before ++ item.trivia) ++
      (charsAll (item.bare :: block) ++ charsAll after) := by
    rw [split]
    simp [chars, Item.bare]
  have starts : (item.place (Position.start.advanceAll (charsAll before))).span.start =
      byteCount (charsAll before ++ item.trivia) := by
    rw [(item.place_span _).1, Position.advanceAll_offset, byteCount_append]
    exact congrArg (· + _) (Nat.zero_add _)
  have stops : last.span.stop = byteCount (charsAll before ++ item.trivia) +
      byteCount (charsAll (item.bare :: block)) := by
    rw [stop_of_getLast? closes, Position.advanceAll_offset]
    simp only [charsAll_cons, chars, Item.bare, byteCount_append, Position.start, byteCount_nil]
    omega
  have cut := (sequence.of_append (by simp)).cut some_ (clean_of_placeAll clean)
  have shorter : byteCount (charsAll (item.bare :: block)) ≤ maxSourceLength := by
    rw [utf8ByteSize_eq_byteCount, whole] at fits
    simp only [byteCount_append] at fits
    omega
  refine ⟨String.ofList (charsAll (item.bare :: block)), _, _, ?_, cut.bare.tokenize_eq shorter, rfl,
    ?_⟩
  · rw [Span.slice?, Span.through, starts, stops, whole, String.toList_ofList]
    exact sliceBytes?_append _ _ _
  · have left := standsFor_placeAll (item :: block)
      (show (Position.start.advanceAll (charsAll before)).offset = byteCount (charsAll before) by
        rw [Position.advanceAll_offset]
        exact Nat.zero_add _) (charsAll after)
    have right : List.Forall₂ (StandsFor (charsAll (item.bare :: block)))
        (placeAll Position.start (item.bare :: block)) (item :: block) := by
      have placed := @standsFor_placeAll (item.bare :: block) Position.start [] rfl []
      rw [List.nil_append, List.append_nil] at placed
      obtain ⟨first, others⟩ := List.forall₂_cons.mp placed
      exact .cons first others
    rw [split, charsAll_append, charsAll_append, String.toList_ofList]
    exact sameText_of_standsFor left right

end SqlDml
