import SqlDml.Lexer.Scan
import SqlDml.Proofs.Canonical.Takes
import SqlDml.Proofs.Text.Bytes
import SqlDml.Proofs.Trees.Pieces

/-!
Contract: the signs that canonical text is read back as.

Owns:
- what a written string is read as, which differs from it where strings have no escapes;
- the signs of names, and of parts that may be left out;
- the signs of each piece of canonical text, and of pieces put together.

Does not own: that the lexer finds these signs.
-/

namespace SqlDml

/-- The kind of token that a written identifier is. -/
def Ident.kind (settings : Settings) (ident : Ident) : TokenKind :=
  match ident.quote with
  | some quote =>
      if quote = '\'' ∨ (quote = '"' ∧ settings.ansiQuotes = false) then .string ident.value quote
      else .quotedWord ident.value quote
  | none =>
      match Keyword.ofWord? ident.value.toList with
      | some keyword => .keyword keyword
      | none => .word ident.value

/-- The sign of a written identifier. -/
def Ident.sign (settings : Settings) (ident : Ident) : Sign :=
  ⟨ident.kind settings, some ident.render⟩

@[simp] theorem Ident.sign_kind (settings : Settings) (ident : Ident) :
    (ident.sign settings).kind = ident.kind settings := rfl

/-- What a character inside a written string is read as where strings have no escapes. -/
def unescapedChar (char : Char) : List Char :=
  if char = '\\' then ['\\', '\\'] else if char = '\x00' then ['\\', '0'] else [char]

/-- What a written string is read as.  Strings are written with escapes, which stand for themselves
where strings have none. -/
def Settings.reread (settings : Settings) (value : String) : String :=
  if settings.noBackslashEscapes then String.ofList (value.toList.flatMap unescapedChar) else value

namespace Sign

/-- The sign of a written string. -/
def string (settings : Settings) (value : String) : Sign :=
  ⟨.string (settings.reread value) '\'', some (quoteString value)⟩

@[simp] theorem string_kind (settings : Settings) (value : String) :
    (string settings value).kind = .string (settings.reread value) '\'' := rfl

/-- The sign of a text that is one token. -/
def ofText (chars : List Char) : List Sign :=
  match (scanLexeme {} (Text.byteCount chars) chars).outcome with
  | .ok kind => [⟨kind, some (String.ofList chars)⟩]
  | .error _ => []

end Sign

/-! ### Signs of names and of what may be left out -/

/-- The sign of a keyword, if wanted. -/
def Sign.flag (wanted : Bool) (keyword : Keyword) : List Sign :=
  if wanted then [Sign.word keyword] else []

/-- The signs of a list behind its keywords, left out when it is empty. -/
def Sign.optionalList (keywords : List Keyword) (items : List (List Sign)) : List Sign :=
  if items.isEmpty then [] else keywords.map Sign.word ++ Sign.commaList items

namespace Ident

variable (settings : Settings)

/-- The signs of an optional qualifier and the dot behind it. -/
def qualifierSigns : Option Ident → List Sign
  | some qualifier => [qualifier.sign settings, Sign.mark .dot]
  | none => []

/-- The signs of names in parentheses. -/
def listSigns (idents : List Ident) : List Sign :=
  Sign.parens (Sign.commaList (idents.map fun ident => [ident.sign settings]))

/-- The signs of names in parentheses behind a lead, left out when there are none. -/
def optionalSigns (lead : List Sign) (idents : List Ident) : List Sign :=
  if idents.isEmpty then [] else lead ++ listSigns settings idents

/-- The signs of an optional alias, which is always behind `AS`. -/
def aliasSigns : Option Ident → List Sign
  | some ident => [Sign.word .AS, ident.sign settings]
  | none => []

end Ident

/-! ### Signs of pieces -/

open Piece

/-- The signs of a piece.  Words with blanks between them stand for a sign each. -/
def Piece.signs (settings : Settings) : Piece → List Sign
  | .blank => []
  | .word keyword => [Sign.word keyword]
  | .mark punct => [Sign.mark punct]
  | .ident name => [name.sign settings]
  | .string value => [Sign.string settings value]
  | .verbatim text => (text.toList.splitOn ' ').flatMap Sign.ofText

/-- The signs of pieces. -/
def Piece.signsOf (settings : Settings) (pieces : List Piece) : List Sign :=
  pieces.flatMap (Piece.signs settings)

namespace Piece

variable (settings : Settings)

@[simp] theorem signsOf_nil : signsOf settings [] = [] := rfl

@[simp] theorem signsOf_append (left right : List Piece) :
    signsOf settings (left ++ right) = signsOf settings left ++ signsOf settings right :=
  List.flatMap_append

theorem signsOf_flatMap {α : Type} (items : List α) (part : α → List Piece) :
    signsOf settings (items.flatMap part) = items.flatMap fun item => signsOf settings (part item) :=
  List.flatMap_assoc

@[simp] theorem signsOf_blank (pieces : List Piece) :
    signsOf settings (.blank :: pieces) = signsOf settings pieces := rfl

@[simp] theorem signsOf_word (keyword : Keyword) (pieces : List Piece) :
    signsOf settings (.word keyword :: pieces) = Sign.word keyword :: signsOf settings pieces := rfl

@[simp] theorem signsOf_mark (punct : Punct) (pieces : List Piece) :
    signsOf settings (.mark punct :: pieces) = Sign.mark punct :: signsOf settings pieces := rfl

@[simp] theorem signsOf_ident (name : Ident) (pieces : List Piece) :
    signsOf settings (.ident name :: pieces) = name.sign settings :: signsOf settings pieces := rfl

@[simp] theorem signsOf_string (value : String) (pieces : List Piece) :
    signsOf settings (.string value :: pieces) =
      Sign.string settings value :: signsOf settings pieces := rfl

@[simp] theorem signsOf_words (keywords : List Keyword) :
    signsOf settings (words keywords) = keywords.map Sign.word := by
  unfold words
  induction keywords with
  | nil => rfl
  | cons keyword keywords inductionHypothesis =>
      cases keywords with
      | nil => rfl
      | cons => simpa using inductionHypothesis

@[simp] theorem signsOf_clause (keywords : List Keyword) :
    signsOf settings (clause keywords) = keywords.map Sign.word := by
  simp [clause]

@[simp] theorem signsOf_flag (wanted : Bool) (keyword : Keyword) :
    signsOf settings (flag wanted keyword) = Sign.flag wanted keyword := by
  cases wanted <;> simp [flag, Sign.flag]

@[simp] theorem signsOf_parens (pieces : List Piece) :
    signsOf settings (parens pieces) = Sign.parens (signsOf settings pieces) := by
  simp [parens, Sign.parens]

@[simp] theorem signsOf_commaList (items : List (List Piece)) :
    signsOf settings (commaList items) = Sign.commaList (items.map (signsOf settings)) := by
  unfold commaList
  cases items with
  | nil => rfl
  | cons item items =>
      induction items generalizing item with
      | nil => simp [Sign.commaList, Sign.behindCommas]
      | cons next items inductionHypothesis =>
          have rest := inductionHypothesis next
          simp only [List.intersperse, List.flatten_cons, signsOf_append, comma] at rest ⊢
          rw [rest]
          simp [Sign.commaList, Sign.behindCommas]

@[simp] theorem signsOf_qualifierPieces (qualifier : Option Ident) :
    signsOf settings (Ident.qualifierPieces qualifier) =
      Ident.qualifierSigns settings qualifier := by
  cases qualifier <;> rfl

@[simp] theorem signsOf_identsInParens (idents : List Ident) :
    signsOf settings (identsInParens idents) = Ident.listSigns settings idents := by
  simp [identsInParens, Ident.listSigns, Function.comp_def]

@[simp] theorem signsOf_optionalIdents (lead : List Piece) (idents : List Ident) :
    signsOf settings (optionalIdents lead idents) =
      Ident.optionalSigns settings (signsOf settings lead) idents := by
  unfold optionalIdents Ident.optionalSigns
  split <;> simp

@[simp] theorem signsOf_optionalAlias (aliasName : Option Ident) :
    signsOf settings (optionalAlias aliasName) = Ident.aliasSigns settings aliasName := by
  cases aliasName <;> simp [optionalAlias, Ident.aliasSigns]

@[simp] theorem signsOf_partitionPieces (partitions : List Ident) :
    signsOf settings (partitionPieces partitions) =
      Ident.optionalSigns settings [Sign.word .PARTITION] partitions := by
  simp [partitionPieces]

@[simp] theorem signsOf_listPieces (keywords : List Keyword) (items : List (List Piece)) :
    signsOf settings (listPieces keywords items) =
      Sign.optionalList keywords (items.map (signsOf settings)) := by
  unfold listPieces Sign.optionalList
  cases items <;> simp

end Piece

end SqlDml
