import SqlDml.Proofs.Lexing.Calls

/-!
Contract: strings as a reader of one character at a time decodes them.

Owns:
- a decoder that knows no more than where it stands: inside the string, behind a quote or behind a
  backslash;
- the scan of a string, which goes from quote to quote and from backslash to backslash, decodes the
  same value from the same characters;
- a string without end is told at its opening, and leaves nothing to read.

Does not own: quoted names, in which no backslash counts.
-/

namespace SqlDml

open Text

/-! ### The decoder -/

/-- The characters that stand for another one behind a backslash. -/
def escapeTable : List (Char × Char) :=
  [('0', '\x00'), ('b', '\x08'), ('n', '\n'), ('r', '\r'), ('t', '\t'), ('Z', '\x1a')]

/-- What a backslash and a character decode to.  A character that the table does not list stands for
itself, and the wildcards of patterns keep their backslash. -/
def decodedEscape (char : Char) : List Char :=
  if char = '%' ∨ char = '_' then ['\\', char] else [(escapeTable.lookup char).getD char]

/-- Where a decoder stands. -/
inductive StringPhase where
  /-- Behind a character of the string, or behind the opening quote. -/
  | inside
  /-- Behind a quote, which closes the string unless another one follows. -/
  | behindQuote
  /-- Behind a backslash that escapes the next character. -/
  | behindBackslash
  /-- Behind the string, from which nothing more is read. -/
  | closed

/-- A decoder: where it stands, what it has decoded, and how many characters belong to the string so
far, its closing quote included. -/
structure StringDecoder where
  phase : StringPhase
  value : List Char
  passed : Nat

namespace StringDecoder

/-- A decoder behind an opening quote. -/
def start : StringDecoder := ⟨.inside, [], 0⟩

/-- Reads one character. -/
def read (quote : Char) (escapes : Bool) (decoder : StringDecoder) (char : Char) :
    StringDecoder :=
  match decoder.phase with
  | .inside =>
      if char = quote then ⟨.behindQuote, decoder.value, decoder.passed + 1⟩
      else if escapes = true ∧ char = '\\' then
        ⟨.behindBackslash, decoder.value, decoder.passed + 1⟩
      else ⟨.inside, decoder.value ++ [char], decoder.passed + 1⟩
  | .behindQuote =>
      if char = quote then ⟨.inside, decoder.value ++ [quote], decoder.passed + 1⟩
      else ⟨.closed, decoder.value, decoder.passed⟩
  | .behindBackslash => ⟨.inside, decoder.value ++ decodedEscape char, decoder.passed + 1⟩
  | .closed => decoder

/-- The value of the string and the number of its characters, unless the input ran out inside it. -/
def result? (decoder : StringDecoder) : Option (List Char × Nat) :=
  match decoder.phase with
  | .behindQuote | .closed => some (decoder.value, decoder.passed)
  | .inside | .behindBackslash => none

end StringDecoder

/-- Decodes the characters behind an opening quote one by one. -/
def decodeString (quote : Char) (escapes : Bool) (chars : List Char) : Option (List Char × Nat) :=
  (chars.foldl (StringDecoder.read quote escapes) .start).result?

/-! ### Scan and decoder -/

theorem unescape_eq (char : Char) : unescape char = decodedEscape char := by
  unfold unescape decodedEscape
  split
  case h_9 =>
    next noNul noBackspace noFeed noReturn noTab noEnd noPercent noUnderscore =>
      have unlisted : escapeTable.lookup char = none := by
        rw [List.lookup_eq_none_iff]
        simpa [escapeTable] using ⟨noNul, noBackspace, noFeed, noReturn, noTab, noEnd⟩
      rw [unlisted, Option.getD_none, if_neg]
      rintro (rfl | rfl)
      · exact noPercent rfl
      · exact noUnderscore rfl
  all_goals rfl

/-- Behind the string the decoder reads nothing more. -/
theorem foldl_read_closed {quote : Char} {escapes : Bool} (value chars : List Char)
    (passed : Nat) :
    chars.foldl (StringDecoder.read quote escapes) ⟨.closed, value, passed⟩ =
      ⟨.closed, value, passed⟩ := by
  induction chars with
  | nil => rfl
  | cons char chars inductionHypothesis => exact inductionHypothesis

/-- A body that is read behind some characters of the string. -/
def QuotedBody.behind (value : List Char) (passed : Nat) (body : QuotedBody) : List Char × Nat :=
  (value ++ body.value, passed + body.taken.length)

theorem map_behind_prepend (body : Option QuotedBody) (value more taken : List Char)
    (passed : Nat) :
    (body.map (QuotedBody.prepend more taken)).map (QuotedBody.behind value passed) =
      body.map (QuotedBody.behind (value ++ more) (passed + taken.length)) := by
  cases body <;> simp [QuotedBody.prepend, QuotedBody.behind, Nat.add_assoc]

/-- From inside a string the decoder comes to what the scan of the rest comes to.  Where the scan
has a stretch of characters, the decoder reads them one by one. -/
theorem result?_foldl_read {quote : Char} {escapes : Bool} (chars : List Char) (fuel : Nat)
    (room : chars.length ≤ fuel) (value : List Char) (passed : Nat) :
    (chars.foldl (StringDecoder.read quote escapes) ⟨.inside, value, passed⟩).result? =
      (quotedBody? quote escapes fuel chars).map (QuotedBody.behind value passed) := by
  match chars, fuel with
  | [], fuel => cases fuel <;> rfl
  | char :: rest, fuel + 1 =>
      simp only [List.length_cons, Nat.add_le_add_iff_right] at room
      rw [List.foldl_cons]
      by_cases quotes : char = quote
      · subst quotes
        cases rest with
        | nil =>
            rw [quotedBody?_closed (by simp)]
            simp [StringDecoder.read, StringDecoder.result?, QuotedBody.behind]
        | cons next after =>
            by_cases doubled : next = char
            · subst doubled
              rw [quotedBody?_doubled, map_behind_prepend, List.foldl_cons]
              simp only [List.length_cons] at room
              rw [← result?_foldl_read after fuel (by omega)]
              simp [StringDecoder.read]
            · rw [quotedBody?_closed (by simpa using doubled), List.foldl_cons]
              simp only [StringDecoder.read, if_true, if_neg doubled, foldl_read_closed]
              simp [StringDecoder.result?, QuotedBody.behind]
      · by_cases escape : escapes = true ∧ char = '\\'
        · obtain ⟨rfl, rfl⟩ := escape
          cases rest with
          | nil =>
              have ended : quotedBody? quote true (fuel + 1) ['\\'] = none := by
                rw [quotedBody?]
                simp [quotes]
              rw [ended]
              simp [StringDecoder.read, StringDecoder.result?, quotes]
          | cons escaped after =>
              rw [quotedBody?_escaped (Ne.symm quotes), map_behind_prepend, List.foldl_cons]
              simp only [List.length_cons] at room
              rw [← result?_foldl_read after fuel (by omega), unescape_eq]
              simp [StringDecoder.read, quotes]
        · rw [quotedBody?_plain quotes fun on same => escape ⟨on, same⟩, map_behind_prepend,
            ← result?_foldl_read rest (fuel + 1) (by omega)]
          simp [StringDecoder.read, quotes, escape]
termination_by chars.length

/-- The scan of a string decodes it, with room for its characters. -/
theorem scanString_eq {quote : Char} {escapes : Bool} {fuel : Nat} {chars : List Char}
    (room : chars.length ≤ fuel) (opening : List Char) :
    scanString fuel escapes opening quote chars =
      (decodeString quote escapes chars).elim
        (.failure (.unterminatedString quote) (opening ++ chars) []) fun decoded =>
          .token (.string (String.ofList decoded.1) quote) (opening ++ chars.take decoded.2)
            (chars.drop decoded.2) := by
  rw [decodeString, StringDecoder.start, result?_foldl_read chars fuel room, scanString]
  cases read : quotedBody? quote escapes fuel chars with
  | none => rfl
  | some body =>
      have split := (quotedBody?_append read).1
      simp [QuotedBody.behind, ← split]

/-- What opens a string literal begins no trivia. -/
theorem Settings.OpensString.first_eq_absent {settings : Settings} {opening : List Char}
    {quote : Char} (opens : settings.OpensString opening quote) (chars : List Char) :
    Trivia.first (opening ++ chars) = .absent := by
  cases opens with
  | single => exact Trivia.first_of_plainStart (by decide)
  | double _ => exact Trivia.first_of_plainStart (by decide)
  | national mark => rcases mark with rfl | rfl <;> exact Trivia.first_of_plainStart (by decide)

/-- A string literal is scanned behind its opening. -/
theorem Settings.OpensString.scanLexeme_eq {settings : Settings} {opening : List Char}
    {quote : Char} (opens : settings.OpensString opening quote) (fuel : Nat) (chars : List Char) :
    scanLexeme settings fuel (opening ++ chars) =
      scanString fuel (!settings.noBackslashEscapes) opening quote chars := by
  cases opens with
  | single => exact scanLexeme_string .single
  | double plain => exact scanLexeme_string (.double plain)
  | national mark => exact scanLexeme_national mark

/-- Wherever a lexer stands at the opening of a string, it reads the value that the decoder decodes
from the characters behind the opening, and stops where the decoder does.  It tells a string without
end if and only if the input runs out for the decoder, at the opening of the string, and then stands
at the end of its source. -/
theorem Lexer.scanToken_of_string {source : String} {lexer : Lexer} (stands : lexer.Stands source)
    (fits : source.utf8ByteSize ≤ maxSourceLength) {opening chars : List Char} {quote : Char}
    (opens : lexer.settings.OpensString opening quote) (ahead : lexer.rest = opening ++ chars) :
    (∀ value passed,
      decodeString quote (!lexer.settings.noBackslashEscapes) chars = some (value, passed) →
        lexer.scanToken =
          (.ok ⟨.string (String.ofList value) quote, Span.between lexer.position
              (lexer.position.advanceAll (opening ++ chars.take passed))⟩,
            lexer.move (opening ++ chars.take passed) (chars.drop passed))) ∧
    (lexer.scanToken.1 = .error ⟨.unterminatedString quote, lexer.position⟩ ↔
      decodeString quote (!lexer.settings.noBackslashEscapes) chars = none) ∧
    (decodeString quote (!lexer.settings.noBackslashEscapes) chars = none →
      lexer.scanToken.2.rest = [] ∧ lexer.scanToken.2.position.offset = source.utf8ByteSize) := by
  have room : chars.length ≤ byteCount (opening ++ chars) := by
    have chars := length_le_byteCount (opening ++ chars)
    rw [List.length_append] at chars
    omega
  have scanned := scanToken_of_absent stands.sound (stands.size ▸ fits)
    (ahead ▸ opens.first_eq_absent chars)
  rw [ahead, opens.scanLexeme_eq, scanString_eq room] at scanned
  cases decoded : decodeString quote (!lexer.settings.noBackslashEscapes) chars with
  | none =>
      rw [decoded] at scanned
      have error : lexer.scanToken = (.error ⟨.unterminatedString quote, lexer.position⟩,
          lexer.move (opening ++ chars) []) := scanned
      rw [error]
      have whole : lexer.rest = (opening ++ chars) ++ [] := by rw [ahead, List.append_nil]
      exact ⟨by simp, by simp, fun _ => ⟨rfl, (stands.move fits whole).offset_of_rest_eq_nil rfl⟩⟩
  | some found =>
      obtain ⟨value, passed⟩ := found
      rw [decoded] at scanned
      refine ⟨?_, ?_, by simp⟩
      · rintro _ _ ⟨⟩
        exact scanned
      · rw [scanned]
        simp [Lexeme.token]

/-- Doubled quotes, a wildcard, an escaped quote and an escaped line feed in one string, and a
backslash at the end of the input in another one. -/
theorem Lexer.scanToken_of_escapes :
    let lexer := Lexer.ofSource "'it''s \\% \\'\\n' x" {}
    let open_ := Lexer.ofSource "'a\\" {}
    lexer.scanToken.1 = .ok ⟨.string "it's \\% '\n" '\'', ⟨0, 15, 1, 1⟩⟩ ∧
      lexer.scanToken.2.rest = [' ', 'x'] ∧
      open_.scanToken.1 = .error ⟨.unterminatedString '\'', Position.start⟩ := by
  intro lexer open_
  have read := (scanToken_of_string (Stands.ofSource "'it''s \\% \\'\\n' x" {}) (by decide +kernel)
    (.single : Settings.OpensString {} ['\''] '\'')
    (show _ = ['\''] ++ "it''s \\% \\'\\n' x".toList from rfl)).1 "it's \\% '\n".toList 14
    (by decide +kernel)
  have ended := (scanToken_of_string (Stands.ofSource "'a\\" {}) (by decide +kernel)
    (.single : Settings.OpensString {} ['\''] '\'')
    (show _ = ['\''] ++ "a\\".toList from rfl)).2.1.mpr (by decide +kernel)
  refine ⟨?_, ?_, ended⟩
  · rw [read]
    decide +kernel
  · rw [read]
    decide +kernel

end SqlDml
