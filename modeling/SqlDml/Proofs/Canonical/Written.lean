import SqlDml.Proofs.Canonical.Constants
import SqlDml.Proofs.Spelt.Nodes

/-!
Contract: pieces that are read as their signs, and how they are put together.

Owns:
- pieces that are read as their signs in front of what ends a token, and pieces that may stand
  behind any token;
- keywords, lists, parentheses and optional parts;
- names with qualifiers, type names, and the clauses without expressions.

Does not own: the pieces of trees with expressions in them.
-/

namespace SqlDml

namespace Piece

variable {settings : Settings} {spaced : Bool} {pieces others : List Piece}

/-- Pieces that are read as their signs in front of whatever ends a token. -/
structure Written (settings : Settings) (pieces : List Piece) : Prop where
  inFront : ∀ {spaced : Bool} {rest : List Piece}, ends rest = true → Lexed settings spaced rest →
    Lexed settings false (pieces ++ rest)

/-- Pieces that may stand behind any token, and end it. -/
structure Appended (settings : Settings) (pieces : List Piece) : Prop where
  behind : ∀ {spaced : Bool} {rest : List Piece}, ends rest = true → Lexed settings spaced rest →
    ends (pieces ++ rest) = true ∧ ∃ spaced, Lexed settings spaced (pieces ++ rest)

theorem Written.lexed (written : Written settings pieces) : Lexed settings false pieces := by
  have whole := written.inFront rfl .nil
  rwa [List.append_nil] at whole

namespace Appended

theorem nil : Appended settings [] := ⟨fun ended lexed => ⟨ended, _, lexed⟩⟩

theorem blank (written : Written settings pieces) : Appended settings (.blank :: pieces) :=
  ⟨fun ended lexed => ⟨rfl, true, .blank (written.inFront ended lexed)⟩⟩

theorem append (first : Appended settings pieces) (second : Appended settings others) :
    Appended settings (pieces ++ others) := by
  refine ⟨fun ended lexed => ?_⟩
  obtain ⟨endedMiddle, _, lexedMiddle⟩ := second.behind ended lexed
  rw [List.append_assoc]
  exact first.behind endedMiddle lexedMiddle

/-- A part that is left out under a condition. -/
theorem ite {condition : Prop} [Decidable condition] (first : Appended settings pieces)
    (second : Appended settings others) :
    Appended settings (if condition then pieces else others) := by
  split
  · exact first
  · exact second

theorem flatMap {α : Type} {items : List α} {part : α → List Piece}
    (each : ∀ item ∈ items, Appended settings (part item)) :
    Appended settings (items.flatMap part) := by
  induction items with
  | nil => exact nil
  | cons item items inductionHypothesis =>
      rw [List.forall_mem_cons] at each
      rw [List.flatMap_cons]
      exact each.1.append (inductionHypothesis each.2)

end Appended

namespace Written

theorem append (first : Written settings pieces) (second : Appended settings others) :
    Written settings (pieces ++ others) := by
  refine ⟨fun ended lexed => ?_⟩
  obtain ⟨endedMiddle, _, lexedMiddle⟩ := second.behind ended lexed
  rw [List.append_assoc]
  exact first.inFront endedMiddle lexedMiddle

/-! ### Single pieces -/

theorem word (keyword : Keyword) : Written settings [.word keyword] :=
  ⟨fun ended lexed => .word keyword ended lexed⟩

theorem mark (punct : Punct) : Written settings [.mark punct] :=
  ⟨fun ended lexed => .mark punct ended lexed⟩

theorem endsName_of_ends (ended : ends pieces = true) : endsName pieces = true := by
  unfold ends at ended
  split at ended <;> first | rfl | cases ended

theorem ident {name : Ident} {accepts : Keyword → Bool} (labels : name.Labels settings accepts)
    (regular : name.Regular settings) : Written settings [.ident name] :=
  ⟨fun ended lexed => .ident labels regular (endsName_of_ends ended) lexed⟩

theorem name {name : Ident} {accepts : Keyword → Bool} (named : name.Named settings accepts) :
    Written settings [.ident name] :=
  ident (.inl named) named.regular

theorem constant {value : Literal} (spelt : value.Spelt) (worded : value.Worded settings) :
    Written settings value.pieces :=
  ⟨fun ended lexed => .constant spelt worded ended lexed⟩

/-! ### Keywords -/

theorem words {keywords : List Keyword} (nonempty : keywords ≠ []) :
    Written settings (words keywords) := by
  induction keywords with
  | nil => exact absurd rfl nonempty
  | cons keyword keywords inductionHypothesis =>
      cases keywords with
      | nil => exact word keyword
      | cons next keywords =>
          have behind := inductionHypothesis (List.cons_ne_nil _ _)
          exact (word keyword).append (.blank behind)

end Written

/-! ### Lists and parentheses -/

/-- A comma ends a token by itself. -/
theorem Appended.comma (behind : Written settings pieces) :
    Appended settings (Piece.comma ++ pieces) :=
  ⟨fun ended lexed => ⟨rfl, _, ((Written.mark .comma).append (.blank behind)).inFront ended lexed⟩⟩

namespace Written

theorem parens (inside : Written settings pieces) : Written settings (parens pieces) := by
  refine ⟨fun {spaced rest} _ lexed => ?_⟩
  have closed : Lexed settings false (.mark .rightParen :: rest) := .single .rightParen rfl lexed
  rw [Piece.parens, List.cons_append, List.append_assoc]
  exact .single .leftParen rfl (inside.inFront rfl closed)

theorem parens_nil : Written settings (Piece.parens []) :=
  ⟨fun _ lexed => .single .leftParen rfl (.single .rightParen rfl lexed)⟩

theorem parensIf {needed : Bool} (inside : Written settings pieces) :
    Written settings (parensIf needed pieces) := by
  cases needed with
  | true => exact inside.parens
  | false => exact inside

/-- Behind the first item of a list the others stand behind commas. -/
theorem commaList {items : List (List Piece)} (nonempty : items ≠ [])
    (each : ∀ item ∈ items, Written settings item) : Written settings (commaList items) := by
  unfold Piece.commaList
  induction items with
  | nil => exact absurd rfl nonempty
  | cons item items inductionHypothesis =>
      rw [List.forall_mem_cons] at each
      cases items with
      | nil => simpa using each.1
      | cons next items =>
          have behind := inductionHypothesis (List.cons_ne_nil _ _) each.2
          exact each.1.append (.comma behind)

theorem listInParens {items : List (List Piece)} (each : ∀ item ∈ items, Written settings item) :
    Written settings (Piece.parens (Piece.commaList items)) := by
  cases items with
  | nil => exact parens_nil
  | cons item items => exact (commaList (List.cons_ne_nil _ _) each).parens

theorem identsInParens {idents : List Ident} (plain : ∀ ident ∈ idents, ident.Plain settings) :
    Written settings (identsInParens idents) := by
  refine listInParens fun item member => ?_
  obtain ⟨ident, among, rfl⟩ := List.mem_map.mp member
  exact name (plain ident among)

end Written

namespace Appended

/-- Parentheses end a token by themselves. -/
theorem parens (inside : Written settings (Piece.parens pieces)) :
    Appended settings (Piece.parens pieces) :=
  ⟨fun ended lexed => ⟨rfl, _, inside.inFront ended lexed⟩⟩

theorem clause {keywords : List Keyword} (nonempty : keywords ≠ []) :
    Appended settings (clause keywords) :=
  .blank (.words nonempty)

theorem flag (wanted : Bool) (keyword : Keyword) : Appended settings (flag wanted keyword) :=
  .ite (.clause (List.cons_ne_nil _ _)) .nil

/-- Keywords and what stands behind them. -/
theorem clauseOf {keywords : List Keyword} (nonempty : keywords ≠ [])
    (written : Written settings pieces) :
    Appended settings (Piece.clause keywords ++ .blank :: pieces) :=
  (clause nonempty).append (.blank written)

theorem listPieces {keywords : List Keyword} {items : List (List Piece)} (nonempty : keywords ≠ [])
    (each : ∀ item ∈ items, Written settings item) :
    Appended settings (listPieces keywords items) := by
  unfold Piece.listPieces
  cases items with
  | nil => exact nil
  | cons item items => exact clauseOf nonempty (.commaList (List.cons_ne_nil _ _) each)

theorem optionalIdents {lead : List Piece} {idents : List Ident}
    (plain : ∀ ident ∈ idents, ident.Plain settings)
    (led : ∀ {pieces}, Written settings pieces → Appended settings (lead ++ pieces)) :
    Appended settings (Piece.optionalIdents lead idents) :=
  .ite .nil (led (.identsInParens plain))

theorem optionalAlias {found : Option Ident} {accepts : Keyword → Bool}
    (labels : ∀ ident ∈ found, ident.Labels settings accepts)
    (regular : ∀ ident ∈ found, ident.Regular settings) :
    Appended settings (optionalAlias found) := by
  cases found with
  | none => exact nil
  | some ident => exact clauseOf (List.cons_ne_nil _ _) (.ident (labels ident rfl) (regular ident rfl))

end Appended

/-! ### Names -/

/-- No digit stands in front. -/
def Undigited (pieces : List Piece) : Prop := ∀ char ∈ (chars pieces).head?, char.isDigit = false

/-- A dot stands in front of anything but a digit. -/
theorem Lexed.dot (undigited : Undigited pieces) (behind : Lexed settings spaced pieces) :
    Lexed settings false (.mark .dot :: pieces) :=
  .token rfl (.mark (by simp [Punct.longer]) fun _ => undigited)
    (plain_of_ne (by decide) (by decide)) behind

/-- A name begins with a letter or a quote. -/
theorem undigited_ident {name : Ident} {accepts : Keyword → Bool}
    (named : name.Named settings accepts) : Undigited (.ident name :: pieces) := by
  unfold Undigited
  rw [chars_cons]
  intro char first
  have front : ∀ written : List Char, name.render.toList = written →
      (written ++ chars pieces).head? = some char := by
    rintro _ rfl
    exact first
  unfold Ident.Named at named
  cases quoted : name.quote with
  | some quote =>
      rw [quoted] at named
      have written : name.render = quoteName quote name.value := by rw [Ident.render, quoted]
      have same := front _ (written ▸ toList_quoteName quote name.value)
      cases same
      rcases named with rfl | ⟨rfl, _⟩ <;> decide
  | none =>
      rw [quoted] at named
      obtain ⟨letter, others, written, starts, _⟩ := needsQuoting_eq_false_iff.mp named.1
      have same := front (letter :: others) (by rw [Ident.render, quoted]; simp [named.1, written])
      cases same
      exact isDigit_of_isNameStart starts

namespace Written

/-- A name, a dot and what is named within it. -/
theorem dotted {name : Ident} {accepts : Keyword → Bool} (named : name.Named settings accepts)
    (undigited : ∀ {rest}, Undigited (pieces ++ rest)) (behind : Written settings pieces) :
    Written settings (.ident name :: .mark .dot :: pieces) :=
  ⟨fun ended lexed =>
    .ident (.inl named) named.regular rfl (.dot undigited (behind.inFront ended lexed))⟩

theorem tableName {name : TableName} (named : name.Named settings) : Written settings name.pieces := by
  obtain ⟨schema, table, span⟩ := name
  cases schema with
  | some schema => exact dotted named.1 (undigited_ident named.2) (.name named.2)
  | none => exact name named

theorem columnRef {ref : ColumnRef} (named : ref.Named settings) : Written settings ref.pieces := by
  obtain ⟨schema, table, column, span⟩ := ref
  cases table with
  | some table =>
      cases schema with
      | some schema =>
          obtain ⟨plain, dottedTable, dottedColumn⟩ := named
          exact dotted plain (undigited_ident dottedTable)
            (dotted dottedTable (undigited_ident dottedColumn) (.name dottedColumn))
      | none => exact dotted named.1 (undigited_ident named.2) (.name named.2)
  | none =>
      cases schema with
      | some schema => exact named.elim
      | none => exact name named

/-- All columns of a table. -/
theorem wildcard {schema : Option Ident} {table : Ident} {span : Span}
    (spelt : (SelectItem.qualifiedWildcard schema table span).Spelt settings) :
    Written settings (SelectItem.qualifiedWildcard schema table span).pieces := by
  have star : ∀ {rest}, Undigited (Piece.mark .star :: rest) := by
    rintro rest char ⟨⟩
    decide
  cases schema with
  | some schema =>
      exact dotted spelt.1 (undigited_ident spelt.2) (dotted spelt.2 star (mark .star))
  | none => exact dotted spelt star (mark .star)

end Written

/-! ### Type names -/

/-- The sign of a word that is written as it is. -/
def wordSign (word : String) : Sign := ⟨wordKind word.toList, some word⟩

theorem signs_words {words : List String} (nonempty : words ≠ [])
    (plain : ∀ word ∈ words, needsQuoting word = false) :
    (verbatim (" ".intercalate words)).signs settings = words.map wordSign := by
  have texts : (" ".intercalate words).toList = [' '].intercalate (words.map String.toList) :=
    String.toList_intercalate
  have parts : ((" ".intercalate words).toList).splitOn ' ' = words.map String.toList := by
    rw [texts]
    refine @List.splitOn_intercalate _ _ _ _ ' ' ?_ (by simpa using nonempty)
    intro text member
    obtain ⟨word, among, rfl⟩ := List.mem_map.mp member
    exact noBlank_of_needsQuoting (plain word among)
  rw [signs, parts, List.flatMap_map, List.map_eq_flatMap]
  refine List.flatMap_congr fun word member => ?_
  rw [Sign.ofText_eq (spelled_wordKind (plain word member) (by simp [EndsName])), String.ofList_toList]
  rfl

/-- Words with blanks between them are read as words. -/
theorem Written.words_verbatim {words : List String} (nonempty : words ≠ [])
    (plain : ∀ word ∈ words, needsQuoting word = false) :
    Written settings [.verbatim (" ".intercalate words)] := by
  refine ⟨fun {spaced rest} ended lexed => ?_⟩
  have texts : chars (.verbatim (" ".intercalate words) :: rest) =
      [' '].intercalate (words.map String.toList) ++ chars rest := by
    rw [chars_cons, text, String.toList_intercalate]
    rfl
  unfold Lexed signsOf
  rw [List.singleton_append, List.flatMap_cons, signs_words nonempty plain, texts]
  clear texts
  induction words with
  | nil => exact absurd rfl nonempty
  | cons word words inductionHypothesis =>
      rw [List.forall_mem_cons] at plain
      have first : ∀ {kind text after}, Spelled settings kind text after →
          kind = wordKind word.toList → ∀ more, ¬ BeginsComment text more := by
        rintro kind text after spelled rfl more
        exact Lexed.plain_of_unmarked spelled (by unfold wordKind; split <;> simp)
      cases words with
      | nil =>
          have spelled : Spelled settings _ _ _ :=
            spelled_wordKind plain.1 (endsToken_of_ends ended).name
          have token := SqlDml.Lexed.token spelled (first spelled rfl _) lexed
          simpa [wordSign, signsOf] using token
      | cons next words =>
          have behind := inductionHypothesis (List.cons_ne_nil _ _) plain.2
          have blank := SqlDml.Lexed.blank behind
          have ends : EndsName (some ' ') := by
            rintro char ⟨⟩
            decide
          have spelled : Spelled settings _ _ _ := spelled_wordKind plain.1 ends
          have token := SqlDml.Lexed.token spelled (first spelled rfl _) blank
          simpa [wordSign, List.intercalate_cons_cons] using token

theorem Written.typeName {target : TypeName} (spelt : target.Spelt) :
    Written settings target.pieces := by
  obtain ⟨name, length, scale⟩ := target
  obtain ⟨⟨words, nonempty, all, rfl⟩, short, exact⟩ := spelt
  have named : Written settings [.verbatim (" ".intercalate words)] :=
    .words_verbatim nonempty fun word member => (all word member).1
  have number : ∀ value : Nat, value < 4294967296 →
      Written settings [.verbatim (toString value)] := by
    intro value small
    exact ⟨fun ended lexed => .number (fun _ => numeral_integer (by omega)) ended lexed⟩
  cases length with
  | none =>
      cases scale <;> exact named
  | some length =>
      have first := number length (short length rfl)
      cases scale with
      | none => exact named.append (.parens first.parens)
      | some scale =>
          have second := number scale (exact scale rfl)
          exact named.append (.parens (first.append (.comma second)).parens)

end Piece

end SqlDml
