import SqlDml.Proofs.Canonical.Signs
import SqlDml.Proofs.Lexing.Spelled

/-!
Contract: names are read back from canonical text.

Owns:
- names that stand where a name is read, and labels that may also be strings;
- the kinds of token that a written name or label can be;
- that the rules for names, for lists of names and for aliases read the signs of what was written.

Does not own: expressions and tables.
-/

namespace SqlDml

/-! ### Names where they are read -/

/-- A quote that surrounds a string. -/
def Settings.QuotesString (settings : Settings) (quote : Char) : Prop :=
  quote = '\'' ∨ quote = '"' ∧ settings.ansiQuotes = false

/-- Every keyword is accepted. -/
def Keyword.isAny (_ : Keyword) : Bool := true

namespace Ident

variable (settings : Settings)

/-- A name that can be read where the accepted keywords may stand for one. -/
def Named (accepts : Keyword → Bool) (ident : Ident) : Prop :=
  match ident.quote with
  | some quote => settings.QuotesName quote
  | none => needsQuoting ident.value = false ∧
      ∀ keyword, Keyword.ofWord? ident.value.toList = some keyword → accepts keyword = true

/-- A plain name. -/
def Plain (ident : Ident) : Prop := ident.Named settings Keyword.isNonreserved

/-- A name behind a dot, where every keyword may stand. -/
def Dotted (ident : Ident) : Prop := ident.Named settings Keyword.isAny

/-- A name, or a string in its place. -/
def Labels (accepts : Keyword → Bool) (ident : Ident) : Prop :=
  ident.Named settings accepts ∨ ∃ quote, ident.quote = some quote ∧ settings.QuotesString quote

end Ident

/-- The names of a table as they are read. -/
def TableName.Named (settings : Settings) (name : TableName) : Prop :=
  match name.schema with
  | some schema => schema.Plain settings ∧ name.table.Dotted settings
  | none => name.table.Plain settings

/-- The names of a column as they are read. -/
def ColumnRef.Named (settings : Settings) (ref : ColumnRef) : Prop :=
  match ref.schema, ref.table with
  | some schema, some table =>
      schema.Plain settings ∧ table.Dotted settings ∧ ref.column.Dotted settings
  | none, some table => table.Plain settings ∧ ref.column.Dotted settings
  | none, none => ref.column.Plain settings
  | some _, none => False

/-! ### Kinds of written names -/

variable {settings : Settings} {accepts : Keyword → Bool} {ident : Ident}

/-- A name is still one where more keywords may stand. -/
theorem Ident.Named.mono {more : Keyword → Bool} (named : ident.Named settings accepts)
    (covers : ∀ keyword, accepts keyword = true → more keyword = true) :
    ident.Named settings more := by
  unfold Ident.Named at named ⊢
  split at named
  · exact named
  · exact ⟨named.1, fun keyword known => covers keyword (named.2 keyword known)⟩

/-- The keyword of an unquoted name is accepted. -/
theorem Ident.Named.accepted {keyword : Keyword} (named : ident.Named settings accepts)
    (unquoted : ident.quote = none)
    (known : Keyword.ofWord? ident.value.toList = some keyword) : accepts keyword = true := by
  unfold Ident.Named at named
  rw [unquoted] at named
  exact named.2 keyword known

/-- A written name is a quoted one, an unquoted one, or an accepted keyword. -/
theorem Ident.Named.kind_cases (named : ident.Named settings accepts) :
    (∃ quote, ident.quote = some quote ∧ ident.kind settings = .quotedWord ident.value quote) ∨
      ident.quote = none ∧ ident.render = ident.value ∧
        (ident.kind settings = .word ident.value ∧
            Keyword.ofWord? ident.value.toList = none ∨
          ∃ keyword, ident.kind settings = .keyword keyword ∧
            Keyword.ofWord? ident.value.toList = some keyword ∧ accepts keyword = true) := by
  unfold Ident.Named at named
  unfold Ident.kind Ident.render
  cases quoted : ident.quote with
  | some quote =>
      rw [quoted] at named
      refine .inl ⟨quote, rfl, if_neg ?_⟩
      rintro (rfl | ⟨rfl, plain⟩)
      · rcases named with same | ⟨same, _⟩ <;> cases same
      · rcases named with same | ⟨_, ansi⟩
        · cases same
        · simp [plain] at ansi
  | none =>
      rw [quoted] at named
      refine .inr ⟨rfl, by rw [named.1]; rfl, ?_⟩
      cases spelled : Keyword.ofWord? ident.value.toList with
      | none => exact .inl ⟨rfl, rfl⟩
      | some keyword => exact .inr ⟨keyword, rfl, rfl, named.2 keyword spelled⟩

theorem Ident.Plain.isName (plain : ident.Plain settings) :
    (ident.kind settings).isName = true := by
  rcases plain.kind_cases with ⟨quote, _, kind⟩ | ⟨_, _, ⟨kind, _⟩ | ⟨keyword, kind, _, accepted⟩⟩
  · rw [kind]; rfl
  · rw [kind]; rfl
  · rw [kind]; exact accepted

theorem Ident.Named.isNameAfterDot (named : ident.Named settings accepts) :
    (ident.kind settings).isNameAfterDot = true := by
  rcases named.kind_cases with ⟨quote, _, kind⟩ | ⟨_, _, ⟨kind, _⟩ | ⟨keyword, kind, _⟩⟩ <;>
    rw [kind] <;> rfl

/-- A label is a name, or a string in its place. -/
theorem Ident.Labels.kind_cases (labels : ident.Labels settings accepts) :
    ident.Named settings accepts ∨
      ∃ quote, ident.quote = some quote ∧ ident.kind settings = .string ident.value quote := by
  rcases labels with named | ⟨quote, quoted, surrounds⟩
  · exact .inl named
  · refine .inr ⟨quote, quoted, ?_⟩
    unfold Ident.kind
    rw [quoted]
    exact if_pos surrounds

/-- No label is a mark. -/
theorem Ident.Labels.unmarked (labels : ident.Labels settings accepts) (mark : Punct) :
    ident.kind settings ≠ .punct mark := by
  rcases labels.kind_cases with named | ⟨quote, _, kind⟩
  · rcases named.kind_cases with ⟨quote, _, kind⟩ | ⟨_, _, ⟨kind, _⟩ | ⟨keyword, kind, _⟩⟩ <;> simp [kind]
  · simp [kind]

/-- A token with the sign of a name is read as that name. -/
theorem identOfToken?_of_sign {source : List Char} {token : Token} {anyKeyword : Bool}
    (named : ident.Named settings accepts)
    (covers : ∀ keyword, accepts keyword = true → (anyKeyword || keyword.isNonreserved) = true)
    (sign : token.sign source = ident.sign settings) :
    ∃ found, identOfToken? source anyKeyword token = some found ∧ Alike .plain ident found := by
  have kind : token.kind = ident.kind settings := congrArg Sign.kind sign
  have text : (token.span.slice? source).map String.ofList = some ident.render :=
    congrArg Sign.text sign
  rcases named.kind_cases with
    ⟨quote, quoted, known⟩ | ⟨unquoted, render, ⟨known, _⟩ | ⟨keyword, known, _, accepted⟩⟩
  · refine ⟨⟨ident.value, some quote, token.span⟩, ?_, Ident.alike_iff.mpr ⟨rfl, quoted⟩⟩
    simp only [identOfToken?, kind, known]
  · refine ⟨⟨ident.value, none, token.span⟩, ?_, Ident.alike_iff.mpr ⟨rfl, unquoted⟩⟩
    simp only [identOfToken?, kind, known]
  · refine ⟨⟨ident.value, none, token.span⟩, ?_, Ident.alike_iff.mpr ⟨rfl, unquoted⟩⟩
    simp only [identOfToken?, kind, known, covers keyword accepted, if_true, text, render,
      Option.getD_some]

/-! ### Signs of names -/

/-- The signs of a table name. -/
def TableName.signs (settings : Settings) (name : TableName) : List Sign :=
  Piece.signsOf settings name.pieces

/-- The signs of a column reference. -/
def ColumnRef.signs (settings : Settings) (ref : ColumnRef) : List Sign :=
  Piece.signsOf settings ref.pieces

namespace Rule

namespace Takes

variable {concat : Bool} {rest : List Sign}

/-! ### Names -/

theorem name (anyKeyword : Bool) (named : ident.Named settings accepts)
    (covers : ∀ keyword, accepts keyword = true → (anyKeyword || keyword.isNonreserved) = true) :
    (Rule.name anyKeyword).Takes concat (ident.sign settings :: rest) rest ident := by
  refine of_on fun spot _ front => ?_
  obtain ⟨found, read, alike⟩ := identOfToken?_of_sign named covers (Spot.sign_of_signs front)
  refine ⟨found, spot.next, ?_, ?_, alike⟩
  · rw [on_name, read]
  · rw [spot.next_signs, front, List.tail_cons]

theorem identifier (plain : ident.Plain settings) :
    Rule.identifier.Takes concat (ident.sign settings :: rest) rest ident :=
  name false plain fun _ accepted => accepted

theorem identifierAfterDot (dotted : ident.Named settings accepts) :
    Rule.identifierAfterDot.Takes concat (ident.sign settings :: rest) rest ident :=
  name true dotted fun _ _ => rfl

section

variable {β : Type} [Labelled β] {before after : List Sign} {whole : β}

theorem dotNameFollows {next : Bool → Rule β} (dotted : ident.Named settings accepts)
    (second : (next true).Takes concat (Sign.mark .dot :: ident.sign settings :: before) after
      whole) :
    (Rule.dotNameFollows >>= next).Takes concat (Sign.mark .dot :: ident.sign settings :: before)
      after whole := by
  refine step (?_ : Takes concat Rule.dotNameFollows _ _ true) second
  unfold Rule.dotNameFollows
  refine .nextIs _ ?_
  rw [if_pos (by simp)]
  refine .peekAhead 1 ?_
  simp only [kindAt_succ, kindAt_zero, Ident.sign_kind, dotted.isNameAfterDot]
  exact .pure

theorem dotNameFollows_none {next : Bool → Rule β} (noDot : kindAt before 0 ≠ .punct .dot)
    (second : (next false).Takes concat before after whole) :
    (Rule.dotNameFollows >>= next).Takes concat before after whole := by
  refine step (?_ : Takes concat Rule.dotNameFollows _ _ false) second
  unfold Rule.dotNameFollows
  refine .nextIs_other noDot ?_
  exact .pure

end

theorem tableName {name : TableName} (named : name.Named settings)
    (noDot : kindAt rest 0 ≠ .punct .dot) :
    Rule.tableName.Takes concat (name.signs settings ++ rest) rest name := by
  obtain ⟨schema, table, place⟩ := name
  unfold Rule.tableName TableName.signs TableName.pieces
  cases schema with
  | some schema =>
      obtain ⟨plain, dotted⟩ := named
      refine (identifier plain).bind fun first _ => dotNameFollows dotted ?_
      exact .advance fun _ _ => (identifierAfterDot dotted).bind fun second _ => .pure
  | none =>
      exact (identifier named).bind fun first _ => dotNameFollows_none noDot .pure

theorem columnRef {ref : ColumnRef} (named : ref.Named settings)
    (noDot : kindAt rest 0 ≠ .punct .dot) :
    Rule.columnRef.Takes concat (ref.signs settings ++ rest) rest ref := by
  obtain ⟨schema, table, column, place⟩ := ref
  unfold Rule.columnRef ColumnRef.signs ColumnRef.pieces
  cases table with
  | none =>
      cases schema with
      | some schema => exact named.elim
      | none =>
          exact (identifier named).bind fun first _ => dotNameFollows_none noDot .pure
  | some table =>
      cases schema with
      | some schema =>
          obtain ⟨plain, dottedTable, dottedColumn⟩ := named
          refine (identifier plain).bind fun first _ => dotNameFollows dottedTable ?_
          refine .advance fun _ _ => (identifierAfterDot dottedTable).bind fun second _ => ?_
          refine dotNameFollows dottedColumn (.advance fun _ _ => ?_)
          exact (identifierAfterDot dottedColumn).bind fun third _ => .pure
      | none =>
          obtain ⟨plain, dotted⟩ := named
          refine (identifier plain).bind fun first _ => dotNameFollows dotted ?_
          refine .advance fun _ _ => (identifierAfterDot dotted).bind fun second _ => ?_
          exact dotNameFollows_none noDot .pure

/-! ### Lists of names and aliases -/

variable {idents : List Ident}

theorem restOfIdents (nonempty : idents ≠ []) (plain : ∀ ident ∈ idents, ident.Plain settings) :
    Rule.restOfIdents.Takes concat
      (Sign.commaList (idents.map fun ident => [ident.sign settings]) ++
        (Sign.mark .rightParen :: rest)) rest idents := by
  unfold Rule.restOfIdents
  refine (commaSeparated nonempty (by simp) ?_).bind fun values _ => .expect rfl fun _ => .pure
  exact fun ident member tail _ => identifier (plain ident member)

theorem identsInParens (nonempty : idents ≠ []) (plain : ∀ ident ∈ idents, ident.Plain settings) :
    Rule.identsInParens.Takes concat (Ident.listSigns settings idents ++ rest) rest idents := by
  unfold Rule.identsInParens Ident.listSigns Sign.parens
  simp only [List.cons_append, List.append_assoc, List.nil_append]
  exact .expect rfl fun _ => restOfIdents nonempty plain

theorem identsInParensOrNone (plain : ∀ ident ∈ idents, ident.Plain settings) :
    Rule.identsInParensOrNone.Takes concat (Ident.listSigns settings idents ++ rest) rest
      idents := by
  unfold Rule.identsInParensOrNone Ident.listSigns Sign.parens
  simp only [List.cons_append, List.append_assoc, List.nil_append]
  refine .expect rfl fun _ => ?_
  cases idents with
  | nil => exact .eat rfl .pure
  | cons ident idents =>
      refine .eat_none ?_ (restOfIdents (List.cons_ne_nil _ _) plain)
      have named := (plain ident List.mem_cons_self).isName
      intro closes
      simp only [List.map_cons, Sign.commaList, List.cons_append, kindAt_zero, Ident.sign_kind]
        at closes
      rw [closes] at named
      cases named

variable {found : Option Ident}

theorem aliasName (plain : ∀ ident ∈ found, ident.Plain settings)
    (noAs : kindAt rest 0 ≠ .keyword .AS) (noName : (kindAt rest 0).isName = false) :
    Rule.aliasName.Takes concat (Ident.aliasSigns settings found ++ rest) rest found := by
  unfold Rule.aliasName
  cases found with
  | some ident =>
      exact .eat rfl ((identifier (plain ident rfl)).bind fun value _ => .pure)
  | none =>
      refine .eat_none noAs (.peek ?_)
      simp only [Ident.aliasSigns, List.nil_append, noName, Bool.false_eq_true, if_false]
      exact .pure

theorem aliasOrString (labels : ∀ ident ∈ found, ident.Labels settings Keyword.isNonreserved)
    (noAs : kindAt rest 0 ≠ .keyword .AS) (noName : (kindAt rest 0).isName = false)
    (noString : (kindAt rest 0).isString = false) :
    Rule.aliasOrString.Takes concat (Ident.aliasSigns settings found ++ rest) rest found := by
  unfold Rule.aliasOrString
  cases found with
  | some ident =>
      refine .eat rfl (.peekToken 0 fun token kind => ?_)
      have kind : token.kind = ident.kind settings := kind
      rcases (labels ident rfl).kind_cases with named | ⟨quote, quoted, known⟩
      · have isName := Ident.Plain.isName named
        split
        · next value quote string =>
            rw [← kind, string] at isName
            cases isName
        · exact (identifier named).bind fun value _ => .pure
      · rw [kind, known]
        refine .advance fun _ _ => ?_
        have alike : Alike .plain ident ⟨ident.value, some quote, token.span⟩ :=
          Ident.alike_iff.mpr ⟨rfl, quoted⟩
        exact .pure
  | none =>
      refine .eat_none noAs (.peekToken 0 fun token kind => ?_)
      simp only [Ident.aliasSigns, List.nil_append] at kind
      rw [kind]
      split
      · next value quote string =>
          rw [string] at noString
          cases noString
      · rw [noName]
        exact .pure

theorem partitions (plain : ∀ ident ∈ idents, ident.Plain settings)
    (noPartition : kindAt rest 0 ≠ .keyword .PARTITION) :
    Rule.partitions.Takes concat
      (Ident.optionalSigns settings [Sign.word .PARTITION] idents ++ rest) rest idents := by
  unfold Rule.partitions Ident.optionalSigns
  cases idents with
  | nil => exact .eat_none noPartition .pure
  | cons ident idents =>
      exact .eat rfl (identsInParens (List.cons_ne_nil _ _) plain)

end Takes

end Rule

end SqlDml
