import SqlDml.Proofs.Lexing.Items
import SqlDml.Proofs.Reading.Read

/-!
Contract: new names in a sequence of items.

Owns:
- the texts that spell words and quoted names;
- an item under a new name, in the quotes that it had;
- when all items are read under their new names: where each name that had no quotes stands apart.

Does not own: which items get new names.
-/

namespace SqlDml

open Item

/-! ### The texts of names -/

namespace TokenKind

/-- Whether a token is an identifier with the given value. -/
def Names (name : String) : TokenKind → Prop
  | .word text => text = name
  | .quotedWord value _ => value = name
  | _ => False

end TokenKind

/-- The quote that a name is written with: its own, or backticks where it cannot do without. -/
def writtenQuote (quote : Option Char) (name : String) : Option Char :=
  match quote with
  | some quote => some quote
  | none => if needsQuoting name then some '\x60' else none

/-- A name between quotes, or as it is. -/
def nameText (quote : Option Char) (name : String) : List Char :=
  match quote with
  | some quote => (quoteName quote name).toList
  | none => name.toList

/-- The token of a name between quotes, or of a word. -/
def nameKind (quote : Option Char) (name : String) : TokenKind :=
  match quote with
  | some quote => .quotedWord name quote
  | none => .word name

theorem Ident.toList_render (ident : Ident) :
    ident.render.toList = nameText (writtenQuote ident.quote ident.value) ident.value := by
  unfold Ident.render writtenQuote nameText
  cases ident.quote with
  | some quote => rfl
  | none =>
      dsimp only
      split <;> rfl

theorem nameKind_names (quote : Option Char) (name : String) : (nameKind quote name).Names name := by
  cases quote <;> rfl

theorem toList_quoteName (quote : Char) (value : String) :
    (quoteName quote value).toList =
      quote :: (value.toList.flatMap (doubleQuote quote) ++ [quote]) := by
  simp [quoteName]

/-- A name that needs no quotes is made of the characters of names. -/
theorem needsQuoting_eq_false_iff {value : String} :
    needsQuoting value = false ↔ ∃ first others, value.toList = first :: others ∧
      isNameStart first = true ∧ ∀ char ∈ others, isNameChar char = true := by
  unfold needsQuoting
  cases chars : value.toList with
  | nil => simp
  | cons first others =>
      simp only [Bool.or_eq_false_iff, Bool.not_eq_eq_eq_not, Bool.not_false, List.all_eq_true,
        List.forall_mem_cons, List.cons.injEq]
      constructor
      · rintro ⟨noDigit, inside, all⟩
        exact ⟨first, others, ⟨rfl, rfl⟩, by simpa [isNameChar, noDigit] using inside, all⟩
      · rintro ⟨_, _, ⟨rfl, rfl⟩, starts, all⟩
        exact ⟨isDigit_of_isNameStart starts, by simp [isNameChar, starts], all⟩

section

variable {settings : Settings} {text : List Char} {next : Option Char}

/-- A number is no name. -/
theorem Numeral.isNameAfterDot {kind : TokenKind} (numeral : Numeral kind text next) :
    kind.isNameAfterDot = false := by
  cases numeral with
  | decimal _ _ _ =>
      unfold decimalKind integerToken
      split
      · split <;> rfl
      · rfl
  | _ => rfl

theorem quotedText_unique {quote : Char} {value taken : List Char}
    (body : QuotedText quote false value taken) :
    taken = value.flatMap (doubleQuote quote) ++ [quote] := by
  induction body with
  | closed => rfl
  | plain other _ _ inductionHypothesis =>
      rw [List.flatMap_cons, doubleQuote, if_neg other, List.append_assoc, ← inductionHypothesis]
      rfl
  | doubled _ inductionHypothesis =>
      rw [List.flatMap_cons, doubleQuote, if_pos rfl, List.append_assoc, ← inductionHypothesis]
      rfl
  | escaped _ on _ _ _ => cases on

/-- A quoted name has one text, which no quote of its kind follows. -/
theorem spelled_quotedWord_iff {value : String} {quote : Char} :
    Spelled settings (.quotedWord value quote) text next ↔
      settings.QuotesName quote ∧ text = (quoteName quote value).toList ∧ next ≠ some quote := by
  rw [toList_quoteName]
  constructor
  · intro spelled
    generalize kind : TokenKind.quotedWord value quote = found at spelled
    cases spelled with
    | quotedWord quotes body apart =>
        cases kind
        rw [String.toList_ofList, ← quotedText_unique body]
        exact ⟨quotes, rfl, apart⟩
    | number numeral =>
        subst kind
        cases numeral.isNameAfterDot
    | word _ _ _ _ =>
        unfold wordKind at kind
        split at kind <;> cases kind
    | _ => cases kind
  · rintro ⟨quotes, rfl, apart⟩
    have spelled := Spelled.quotedWord quotes (quotedText_doubleQuote quote value.toList) apart
    rwa [String.ofList_toList] at spelled

/-- A word has one text, that of a name which needs no quotes and is no keyword. -/
theorem spelled_word_iff {name : String} :
    Spelled settings (.word name) text next ↔
      text = name.toList ∧ needsQuoting name = false ∧ Keyword.ofWord? name.toList = none ∧
        (∀ char ∈ next, isNameChar char = false) ∧
        (marksLiteral name.toList = true → next ≠ some '\'') := by
  constructor
  · intro spelled
    generalize kind : TokenKind.word name = found at spelled
    cases spelled with
    | @word first others _ starts all ends apart =>
        unfold wordKind at kind
        split at kind
        · cases kind
        · next unknown =>
            cases kind
            rw [String.toList_ofList]
            refine ⟨rfl, needsQuoting_eq_false_iff.mpr ?_, unknown, ends, apart⟩
            exact ⟨first, others, String.toList_ofList, starts, all⟩
    | number numeral =>
        subst kind
        cases numeral.isNameAfterDot
    | _ => cases kind
  · rintro ⟨rfl, plain, unknown, ends, apart⟩
    obtain ⟨first, others, chars, starts, all⟩ := needsQuoting_eq_false_iff.mp plain
    rw [chars] at unknown apart
    have spelled : Spelled settings (wordKind (first :: others)) (first :: others) next :=
      .word starts all ends apart
    rw [wordKind, unknown] at spelled
    rw [chars]
    rwa [← chars, String.ofList_toList, chars] at spelled

end

/-! ### In front of changed text -/

/-- The first characters of two texts: the same, or the beginnings of two names, of which the first
has no quotes. -/
def HeadLike (old new : Option Char) : Prop :=
  new = old ∨ (∃ char ∈ old, isNameStart char = true) ∧
    ∃ char ∈ new, isNameStart char = true ∨ char = '\x60'

/-- Two texts in front of which the same tokens are read, quoted names apart. -/
structure Resembles (old new : List Char) : Prop where
  head : HeadLike old.head? new.head?
  behindDash : ∀ behind, new = '-' :: behind →
    ∃ before, old = '-' :: before ∧ HeadLike before.head? behind.head?

theorem toNat_of_isNameStart {char : Char} (starts : isNameStart char = true) :
    0x20 < char.toNat := by
  by_contra low
  have outside : ∀ code < 33, isNameStart (Char.ofNat code) = false := by decide
  have none := outside char.toNat (by omega)
  rw [Char.ofNat_toNat, starts] at none
  cases none

/-- What begins a name is different from every other character but a backtick. -/
theorem beginsName_ne {char other : Char} (begins : isNameStart char = true ∨ char = '\x60')
    (outside : isNameStart other = false) (noBacktick : other ≠ '\x60') : char ≠ other := by
  rintro rfl
  rcases begins with starts | same
  · rw [outside] at starts
    cases starts
  · exact noBacktick same

namespace HeadLike

variable {old new : Option Char}

theorem refl (first : Option Char) : HeadLike first first := .inl rfl

/-- A character that begins no name stands at both places or at none. -/
theorem eq_iff (like : HeadLike old new) {char : Char} (outside : isNameStart char = false)
    (noBacktick : char ≠ '\x60') : new = some char ↔ old = some char := by
  rcases like with rfl | ⟨⟨first, rfl, starts⟩, other, rfl, begins⟩
  · exact .rfl
  · simp only [Option.some.injEq, beginsName_ne begins outside noBacktick,
      beginsName_ne (.inl starts) outside noBacktick]

/-- In front of no name nothing changes. -/
theorem eq_of_ends (like : HeadLike old new) (ends : ∀ char ∈ old, isNameChar char = false) :
    new = old := by
  rcases like with same | ⟨⟨first, here, starts⟩, _⟩
  · exact same
  · have outside := ends first here
    simp [isNameChar, starts] at outside

end HeadLike

theorem opensLineComment_of_headLike {old new : List Char} (like : HeadLike old.head? new.head?)
    (opens : Trivia.opensLineComment new = true) : Trivia.opensLineComment old = true := by
  rcases like with same | ⟨_, first, here, begins⟩
  · cases old <;> cases new <;> simp_all [Trivia.opensLineComment]
  · obtain ⟨behind, rfl⟩ := List.head?_eq_some_iff.mp here
    have low : first.toNat ≤ 0x20 := by simpa [Trivia.opensLineComment] using opens
    rcases begins with starts | rfl
    · exact absurd (toNat_of_isNameStart starts) (by omega)
    · exact absurd low (by decide)

theorem Resembles.refl (text : List Char) : Resembles text text :=
  ⟨.refl _, fun behind same => ⟨behind, same, .refl _⟩⟩

theorem BeginsComment.of_resembles {text old new : List Char} (like : Resembles old new)
    (begins : BeginsComment text new) : BeginsComment text old := by
  rcases begins with ⟨rfl, behind, rfl, opens⟩ | ⟨rfl, star⟩
  · obtain ⟨before, rfl, later⟩ := like.behindDash behind rfl
    exact .inl ⟨rfl, before, rfl, opensLineComment_of_headLike later opens⟩
  · exact .inr ⟨rfl, (like.head.eq_iff (by decide) (by decide)).mp star⟩

section

variable {settings : Settings} {kind : TokenKind} {text : List Char} {old new next : Option Char}

theorem Numeral.noBacktick (numeral : Numeral kind text next) : '\x60' ∉ text := by
  have none_ : ∀ {holds : Char → Bool} {chars : List Char}, holds '\x60' = false →
      (∀ char ∈ chars, holds char = true) → '\x60' ∉ chars := fun outside all member => by
    rw [all _ member] at outside
    cases outside
  cases numeral with
  | decimal parts _ _ =>
      rw [List.mem_append, List.mem_append, not_or, not_or]
      refine ⟨⟨none_ rfl parts.digits, ?_⟩, ?_⟩
      · rcases parts.afterDot with rfl | ⟨digits, rfl, all⟩
        · exact List.not_mem_nil
        · simpa using none_ rfl all
      · rcases parts.afterLetter with rfl | ⟨letter, sign, digits, rfl, isLetter, isSign, _, all⟩
        · exact List.not_mem_nil
        · have noDigit := none_ rfl all
          rcases isLetter with rfl | rfl <;> rcases isSign with rfl | rfl | rfl <;>
            simpa using noDigit
  | hex mark _ all _ => rcases mark with rfl | rfl <;> simpa using none_ rfl all
  | bit mark _ all _ => rcases mark with rfl | rfl <;> simpa using none_ rfl all

/-- A token that ends with a backtick is a name between backticks. -/
theorem Spelled.eq_quotedWord (spelled : Spelled settings kind text next)
    (last : text.getLast? = some '\x60') : ∃ value, kind = .quotedWord value '\x60' := by
  have noName : ∀ chars : List Char, (∀ char ∈ chars, isNameChar char = true) →
      chars.getLast? ≠ some '\x60' := fun chars inside ends =>
    absurd (inside _ (List.mem_of_getLast? ends)) (by decide)
  cases spelled with
  | string opens body _ =>
      rw [List.getLast?_append, body.getLast?, Option.some_or, Option.some.injEq] at last
      subst last
      cases opens
  | quotedWord quotes body _ =>
      rw [List.getLast?_cons, body.getLast?, Option.getD_some, Option.some.injEq] at last
      subst last
      exact ⟨_, rfl⟩
  | hexString _ _ _ => simp [List.getLast?_cons] at last
  | bitString _ _ => simp [List.getLast?_cons] at last
  | number numeral => exact absurd (List.mem_of_getLast? last) numeral.noBacktick
  | word starts all _ _ =>
      refine absurd last (noName _ (List.forall_mem_cons.mpr ⟨?_, all⟩))
      simp [isNameChar, starts]
  | @mark mark _ _ _ => cases mark <;> simp [Punct.text] at last

/-- A name without quotes has no backtick in it, and nothing behind it goes on with a name. -/
theorem Spelled.unquoted (spelled : Spelled settings kind text next)
    (named : kind.isNameAfterDot = true) (unquoted : kind.quote? = none) :
    text.getLast? ≠ some '\x60' ∧ ∀ char ∈ next, isNameChar char = false := by
  refine ⟨fun last => ?_, ?_⟩
  · obtain ⟨value, rfl⟩ := spelled.eq_quotedWord last
    cases unquoted
  · cases spelled with
    | number numeral =>
        rw [numeral.isNameAfterDot] at named
        cases named
    | word _ _ ends _ => exact ends
    | quotedWord _ _ _ => cases unquoted
    | _ => cases named

/-- No character that would make a mark longer begins a name. -/
theorem Punct.outside_of_mem_longer {mark : Punct} {char : Char} (member : char ∈ mark.longer) :
    isNameStart char = false ∧ char ≠ '\x60' := by
  have all : mark.longer.all (fun char => !isNameStart char && char != '\x60') = true := by
    cases mark <;> decide
  simpa using List.all_eq_true.mp all char member

/-- Every token is read in front of a text that begins alike, but for a name between backticks in
front of another backtick. -/
theorem Spelled.change_iff (spelled : Spelled settings kind text old) (like : HeadLike old new) :
    Spelled settings kind text new ↔ ¬ (text.getLast? = some '\x60' ∧ new = some '\x60') := by
  constructor
  · rintro again ⟨last, rfl⟩
    obtain ⟨value, rfl⟩ := again.eq_quotedWord last
    exact (spelled_quotedWord_iff.mp again).2.2 rfl
  · intro apart
    cases spelled with
    | string opens body ends =>
        refine .string opens body fun same => ends ?_
        cases opens <;> exact (like.eq_iff (by decide) (by decide)).mp same
    | quotedWord quotes body ends =>
        refine .quotedWord quotes body fun same => ?_
        rcases quotes with rfl | ⟨rfl, _⟩
        · exact apart ⟨by rw [List.getLast?_cons, body.getLast?]; rfl, same⟩
        · exact ends ((like.eq_iff (by decide) (by decide)).mp same)
    | hexString mark all even => exact .hexString mark all even
    | bitString mark all => exact .bitString mark all
    | number numeral =>
        have ends : ∀ char ∈ old, isNameChar char = false := by cases numeral <;> assumption
        rw [like.eq_of_ends ends]
        exact .number numeral
    | word starts all ends unmarked =>
        rw [like.eq_of_ends ends]
        exact .word starts all ends unmarked
    | @mark mark _ ends noDigit =>
        refine .mark (fun char here longer => ?_) fun dot char here => ?_
        · rcases like with rfl | ⟨_, other, same, begins⟩
          · exact ends char here longer
          · cases here.symm.trans same
            have outside := Punct.outside_of_mem_longer longer
            exact beginsName_ne begins outside.1 outside.2 rfl
        · rcases like with rfl | ⟨_, other, same, begins⟩
          · exact noDigit dot char here
          · cases here.symm.trans same
            rcases begins with starts | rfl
            · exact isDigit_of_isNameStart starts
            · decide

end

/-! ### The first characters of names -/

section

variable {settings : Settings} {kind : TokenKind} {text rest : List Char}
  {quote first next : Option Char}

/-- The first character of a name: its quote, or a character that begins a word. -/
def BeginsName (settings : Settings) (quote first : Option Char) : Prop :=
  match quote with
  | some quote => settings.QuotesName quote ∧ first = some quote
  | none => ∃ char ∈ first, isNameStart char = true

theorem Spelled.beginsName (spelled : Spelled settings kind text next)
    (named : kind.isNameAfterDot = true) : BeginsName settings kind.quote? text.head? := by
  cases spelled with
  | quotedWord quotes _ _ => exact ⟨quotes, rfl⟩
  | number numeral =>
      rw [numeral.isNameAfterDot] at named
      cases named
  | @word head others _ starts _ _ _ =>
      have unquoted : (wordKind (head :: others)).quote? = none := by
        unfold wordKind
        split <;> rfl
      rw [unquoted]
      exact ⟨head, rfl, starts⟩
  | _ => cases named

/-- A new name in the quotes of a name begins like a name. -/
theorem nameText_begins (begins : BeginsName settings quote first) (name : String) :
    BeginsName settings (writtenQuote quote name) (nameText (writtenQuote quote name) name).head? := by
  cases quote with
  | some quote => exact ⟨begins.1, by simp [nameText, writtenQuote, toList_quoteName]⟩
  | none =>
      unfold writtenQuote
      cases needed : needsQuoting name with
      | true => exact ⟨.inl rfl, by simp [nameText, toList_quoteName]⟩
      | false =>
          obtain ⟨head, others, chars, starts, _⟩ := needsQuoting_eq_false_iff.mp needed
          exact ⟨head, by simp [nameText, chars], starts⟩

theorem BeginsName.plain (begins : BeginsName settings quote text.head?) :
    ∃ head others, text = head :: others ∧ isPlainStart head = true := by
  cases quote with
  | some quote =>
      obtain ⟨others, rfl⟩ := List.head?_eq_some_iff.mp begins.2
      exact ⟨quote, others, rfl, by rcases begins.1 with rfl | ⟨rfl, _⟩ <;> decide⟩
  | none =>
      obtain ⟨head, here, starts⟩ := begins
      obtain ⟨others, rfl⟩ := List.head?_eq_some_iff.mp here
      exact ⟨head, others, rfl, isPlainStart_of_isNameChar (by simp [isNameChar, starts])⟩

/-- The first character of a name tells its quote. -/
theorem BeginsName.quote_unique {other : Option Char} (begins : BeginsName settings quote first)
    (again : BeginsName settings other first) : quote = other := by
  have noStart : ∀ quote, settings.QuotesName quote → isNameStart quote = false := by
    rintro quote (rfl | ⟨rfl, _⟩) <;> decide
  cases quote with
  | some quote =>
      obtain ⟨quotes, rfl⟩ := begins
      cases other with
      | some other => exact again.2
      | none =>
          obtain ⟨head, ⟨⟩, starts⟩ := again
          rw [noStart _ quotes] at starts
          cases starts
  | none =>
      cases other with
      | none => rfl
      | some other =>
          obtain ⟨quotes, rfl⟩ := again
          obtain ⟨head, ⟨⟩, starts⟩ := begins
          rw [noStart _ quotes] at starts
          cases starts

/-- A name and a new name in its quotes begin alike. -/
theorem BeginsName.headLike {old new : Option Char} {name : String}
    (before : BeginsName settings quote old)
    (after : BeginsName settings (writtenQuote quote name) new) : HeadLike old new := by
  cases quote with
  | some quote => exact .inl (after.2.trans before.2.symm)
  | none =>
      refine .inr ⟨before, ?_⟩
      unfold writtenQuote at after
      cases needed : needsQuoting name with
      | true =>
          rw [needed] at after
          exact ⟨_, after.2, .inr rfl⟩
      | false =>
          rw [needed] at after
          obtain ⟨head, here, starts⟩ := after
          exact ⟨head, here, .inl starts⟩

end

/-! ### Items under new names -/

/-- A name without quotes stands apart from what surrounds it: no backtick touches one that needs
backticks; one that needs none is no keyword, and begins no literal. -/
def StandsApart (before quote : Option Char) (name : String) (after : Option Char) : Prop :=
  quote = none →
    (needsQuoting name = true → before ≠ some '\x60' ∧ after ≠ some '\x60') ∧
    (needsQuoting name = false → Keyword.ofWord? name.toList = none ∧
      (marksLiteral name.toList = true → after ≠ some '\''))

instance (before quote : Option Char) (name : String) (after : Option Char) :
    Decidable (StandsApart before quote name after) :=
  inferInstanceAs (Decidable (_ → _))

namespace Item

/-- An item with a new name, in the quotes that it had. -/
def renamed (item : Item) (name : String) : Item :=
  let quote := writtenQuote item.kind.quote? name
  ⟨item.trivia, nameKind quote name, nameText quote name⟩

/-- An item under a new name, if it gets one. -/
def under (item : Item) : Option String → Item
  | none => item
  | some name => item.renamed name

@[simp] theorem under_none (item : Item) : item.under none = item := rfl

@[simp] theorem under_some (item : Item) (name : String) : item.under (some name) = item.renamed name :=
  rfl

@[simp] theorem under_trivia (item : Item) (change : Option String) :
    (item.under change).trivia = item.trivia := by
  cases change <;> rfl

/-- Two backticks that touch. -/
def Touch (before after : Option Char) : Prop := before = some '\x60' ∧ after = some '\x60'

variable {settings : Settings} {item : Item} {rest new : List Char}

/-- What stands in front of a changed text, and is no comment. -/
theorem ReadBefore.front_under (read : item.ReadBefore settings rest) (like : Resembles rest new)
    (change : Option String) (named : ∀ name ∈ change, item.kind.isNameAfterDot = true) :
    Trivia.Run item.trivia ((item.under change).text ++ new) ∧
      Trivia.first ((item.under change).text ++ new) = .absent := by
  by_cases ended : item.kind = .endOfInput
  · obtain ⟨noText, rfl⟩ := read.ended ended
    obtain rfl : new = [] := by
      rcases like.head with same | ⟨⟨_, first, _⟩, _⟩
      · simpa using same
      · cases first
    cases change with
    | none => exact ⟨read.trivia, read.front⟩
    | some name =>
        have contradiction := named name rfl
        rw [ended] at contradiction
        cases contradiction
  · obtain ⟨run, noComment, spelled⟩ := (readBefore_iff ended).mp read
    obtain ⟨first, others, text⟩ := List.exists_cons_of_ne_nil spelled.text_ne_nil
    cases change with
    | none =>
        have absent := spelled.first_eq_absent_iff.mpr fun begins => noComment (begins.of_resembles like)
        rw [under_none]
        refine ⟨?_, absent⟩
        rw [text] at run ⊢
        exact run.change (.inl rfl) _
    | some name =>
        obtain ⟨head, behind, same, plain⟩ :=
          (nameText_begins (spelled.beginsName (named name rfl)) name).plain
        have renamedText : (item.renamed name).text = head :: behind := same
        rw [under_some, renamedText]
        refine ⟨?_, Trivia.first_of_plainStart plain⟩
        rw [text] at run
        refine run.change (.inr ?_) _
        simp only [isPlainStart, Bool.and_eq_true, Bool.not_eq_true'] at plain
        exact plain.2

/-- The end of input stays in front of nothing. -/
theorem ReadBefore.new_of_ended (read : item.ReadBefore settings rest) (like : Resembles rest new)
    (ended : item.kind = .endOfInput) : item.text = [] ∧ rest = [] ∧ new = [] := by
  obtain ⟨noText, rfl⟩ := read.ended ended
  refine ⟨noText, rfl, ?_⟩
  rcases like.head with same | ⟨⟨_, first, _⟩, _⟩
  · simpa using same
  · cases first

/-- An item is read in front of a changed text, unless two backticks touch. -/
theorem ReadBefore.kept_iff (read : item.ReadBefore settings rest) (like : Resembles rest new) :
    item.ReadBefore settings new ↔ ¬ Touch item.text.getLast? new.head? := by
  by_cases ended : item.kind = .endOfInput
  · obtain ⟨noText, rfl, rfl⟩ := read.new_of_ended like ended
    simp [Touch, read]
  · obtain ⟨run, absent⟩ := read.front_under like none (by simp)
    obtain ⟨_, _, spelled⟩ := (readBefore_iff ended).mp read
    rw [Touch, ← spelled.change_iff like.head, readBefore_iff ended]
    constructor
    · exact fun again => again.2.2
    · exact fun again => ⟨run, again.first_eq_absent_iff.mp absent, again⟩

theorem nameKind_inner (quote : Option Char) (name : String) : nameKind quote name ≠ .endOfInput := by
  cases quote <;> simp [nameKind]

/-- A renamed item is read where its new name is spelled. -/
theorem ReadBefore.renamed_iff (read : item.ReadBefore settings rest) (like : Resembles rest new)
    (named : item.kind.isNameAfterDot = true) (name : String) :
    (item.renamed name).ReadBefore settings new ↔
      Spelled settings (nameKind (writtenQuote item.kind.quote? name) name)
        (nameText (writtenQuote item.kind.quote? name) name) new.head? := by
  obtain ⟨run, absent⟩ := read.front_under like (some name) fun _ _ => named
  rw [readBefore_iff (nameKind_inner _ _)]
  constructor
  · exact fun again => again.2.2
  · exact fun again => ⟨run, again.first_eq_absent_iff.mp absent, again⟩

/-! ### One item of a sequence -/

/-- The first character of an item: that of its trivia, or else that of its text. -/
theorem head?_chars (item : Item) (rest : List Char) (nonempty : item.text ≠ []) :
    (item.chars ++ rest).head? = item.trivia.head?.or item.text.head? := by
  obtain ⟨first, others, text⟩ := List.exists_cons_of_ne_nil nonempty
  rw [chars, text]
  cases item.trivia <;> rfl

theorem touch_quote_iff {quote : Char} {old next : Option Char} (quotes : settings.QuotesName quote)
    (like : HeadLike old next) (ends : old ≠ some quote) :
    ¬ Touch (some quote) next ↔ next ≠ some quote := by
  rcases quotes with rfl | ⟨rfl, _⟩
  · simp [Touch]
  · have same : next = some '"' ↔ old = some '"' := like.eq_iff (by decide) (by decide)
    simp [Touch, same, ends]

/-- An item is read under its new name, and no backticks touch in front of it, exactly where the name
stands apart and no backticks touch behind it. -/
theorem ReadBefore.under_iff (read : item.ReadBefore settings rest) (like : Resembles rest new)
    {change : Option String} (named : ∀ name ∈ change, item.kind.isNameAfterDot = true)
    {before : Option Char} (apart : ¬ Touch before (item.chars ++ rest).head?) :
    ((∀ name ∈ change, StandsApart (item.trivia.getLast?.or before) item.kind.quote? name rest.head?) ∧
        ¬ Touch item.text.getLast? new.head?) ↔
      ¬ Touch before ((item.under change).chars ++ new).head? ∧
        (item.under change).ReadBefore settings new := by
  cases change with
  | none =>
      rw [under_none, read.kept_iff like]
      have sameHead : (item.chars ++ new).head? = (item.chars ++ rest).head? := by
        by_cases ended : item.kind = .endOfInput
        · obtain ⟨_, rfl, rfl⟩ := read.new_of_ended like ended
          rfl
        · have nonempty := read.text_ne_nil ended
          rw [head?_chars _ _ nonempty, head?_chars _ _ nonempty]
      rw [sameHead]
      simp only [Option.not_mem_none, IsEmpty.forall_iff, implies_true, true_and, apart,
        not_false_eq_true]
  | some name =>
      have isName := named name rfl
      have inner : item.kind ≠ .endOfInput := fun ended => by
        rw [ended] at isName
        cases isName
      obtain ⟨run, _, spelled⟩ := (readBefore_iff inner).mp read
      have nonempty := spelled.text_ne_nil
      have begins := nameText_begins (spelled.beginsName isName) name
      obtain ⟨_, _, written, _⟩ := begins.plain
      have renamedNonempty : (item.renamed name).text ≠ [] := by
        intro empty
        exact absurd (written.symm.trans empty) (List.cons_ne_nil _ _)
      have lastOfTrivia : item.trivia.getLast? ≠ some '\x60' :=
        run.getLast?_ne (by simp [nonempty]) (by decide) (by decide)
      rw [head?_chars _ _ nonempty] at apart
      rw [under_some, read.renamed_iff like isName, head?_chars _ _ renamedNonempty]
      have trivia : (item.renamed name).trivia = item.trivia := rfl
      have text : (item.renamed name).text =
        nameText (writtenQuote item.kind.quote? name) name := rfl
      rw [trivia, text]
      cases known : item.kind.quote? with
      | some quote =>
          obtain ⟨value, kind⟩ : ∃ value, item.kind = .quotedWord value quote := by
            cases kind : item.kind <;> rw [kind] at known <;> cases known
            exact ⟨_, rfl⟩
          rw [kind] at spelled
          obtain ⟨quotes, old, ends⟩ := spelled_quotedWord_iff.mp spelled
          rw [toList_quoteName] at old
          have last : item.text.getLast? = some quote := by
            rw [old, List.getLast?_cons]
            simp
          have sameHead : (nameText (writtenQuote (some quote) name) name).head? =
              item.text.head? := by
            simp [nameText, writtenQuote, toList_quoteName, old]
          have unquoted : ∀ name' ∈ some name,
              StandsApart (item.trivia.getLast?.or before) (some quote) name' rest.head? :=
            fun _ _ impossible => nomatch impossible
          rw [sameHead, last, touch_quote_iff quotes like.head ends]
          refine (and_iff_right unquoted).trans (Iff.trans ?_ (and_iff_right apart).symm)
          exact (spelled_quotedWord_iff.trans
            (by simp only [quotes, nameText, writtenQuote, true_and])).symm
      | none =>
          obtain ⟨last, ends⟩ := spelled.unquoted isName known
          have same := like.head.eq_of_ends ends
          have noTouch : ¬ Touch item.text.getLast? new.head? := fun touch => last touch.1
          rw [and_iff_left noTouch, same]
          simp only [Option.mem_def, Option.some.injEq, forall_eq', StandsApart, true_implies,
            writtenQuote]
          cases needed : needsQuoting name with
          | true =>
              simp only [true_implies, Bool.true_eq_false, false_implies, and_true, if_true]
              have quoted : Spelled settings (nameKind (some '\x60') name)
                  (nameText (some '\x60') name) rest.head? ↔ rest.head? ≠ some '\x60' :=
                spelled_quotedWord_iff.trans
                  (by simp only [Settings.QuotesName, true_or, nameText, true_and])
              rw [quoted, and_congr_left_iff]
              intro _
              have opening : (nameText (some '\x60') name).head? = some '\x60' := by
                simp [nameText, toList_quoteName]
              rw [opening]
              cases spaces : item.trivia with
              | nil => simp [Touch]
              | cons first others =>
                  rw [spaces] at apart lastOfTrivia
                  rw [List.getLast?_cons] at lastOfTrivia ⊢
                  exact iff_of_true lastOfTrivia apart
          | false =>
              simp only [true_implies, Bool.false_eq_true, false_implies, true_and, if_false]
              have word : Spelled settings (nameKind none name) (nameText none name) rest.head? ↔
                  Keyword.ofWord? name.toList = none ∧
                    (marksLiteral name.toList = true → rest.head? ≠ some '\'') :=
                spelled_word_iff.trans
                  ⟨fun parts => ⟨parts.2.2.1, parts.2.2.2.2⟩,
                    fun parts => ⟨rfl, needed, parts.1, ends, parts.2⟩⟩
              rw [word]
              refine (and_iff_right fun touch => ?_).symm
              obtain ⟨head, others, chars, starts, _⟩ := needsQuoting_eq_false_iff.mp needed
              cases spaces : item.trivia with
              | nil =>
                  rw [spaces, nameText, chars] at touch
                  cases Option.some.inj touch.2
                  exact absurd starts (by decide)
              | cons first others =>
                  rw [spaces] at apart touch
                  exact apart touch

/-! ### Sequences under new names -/

/-- The items that are read, without the new names that some of them get. -/
def olds (pairs : List (Item × Option String)) : List Item := pairs.map Prod.fst

/-- The items under their new names. -/
def news (pairs : List (Item × Option String)) : List Item :=
  pairs.map fun pair => pair.1.under pair.2

@[simp] theorem olds_cons (item : Item) (change : Option String)
    (pairs : List (Item × Option String)) : olds ((item, change) :: pairs) = item :: olds pairs := rfl

@[simp] theorem news_cons (item : Item) (change : Option String)
    (pairs : List (Item × Option String)) :
    news ((item, change) :: pairs) = item.under change :: news pairs := rfl

theorem olds_eq_nil {pairs : List (Item × Option String)} (none : olds pairs = []) : pairs = [] :=
  List.map_eq_nil_iff.mp none

/-- Only names get new names. -/
def Named (pairs : List (Item × Option String)) : Prop :=
  ∀ pair ∈ pairs, ∀ name ∈ pair.2, pair.1.kind.isNameAfterDot = true

/-- Each name that was written without quotes stands apart from the old text around it, which ends
with the given character in front of the items. -/
def AllApart : Option Char → List (Item × Option String) → Prop
  | _, [] => True
  | before, (item, change) :: pairs =>
      (∀ name ∈ change, StandsApart (item.trivia.getLast?.or before) item.kind.quote? name
        (charsAll (olds pairs)).head?) ∧ AllApart item.text.getLast? pairs

/-- The end of input gets no new name. -/
theorem change_of_ended {change : Option String}
    (named : ∀ name ∈ change, item.kind.isNameAfterDot = true) (ended : item.kind = .endOfInput) :
    change = none := by
  cases change with
  | none => rfl
  | some name =>
      have isName := named name rfl
      rw [ended] at isName
      cases isName

/-- The text of an item resembles its text under a new name, where the texts behind do. -/
theorem resembles_under {next : Option Char} (spelled : Spelled settings item.kind item.text next)
    {change : Option String} (named : ∀ name ∈ change, item.kind.isNameAfterDot = true)
    (like : Resembles rest new) :
    Resembles (item.text ++ rest) ((item.under change).text ++ new) := by
  obtain ⟨first, others, text⟩ := List.exists_cons_of_ne_nil spelled.text_ne_nil
  cases change with
  | none =>
      rw [under_none, text]
      refine ⟨.refl _, ?_⟩
      rintro behind ⟨⟩
      -- a token that begins with a dash is a minus
      rcases spelled.start with minus | slash | ⟨head, tail, same, plain⟩
      · rw [minus] at text
        cases text
        exact ⟨_, rfl, like.head⟩
      · cases text.symm.trans slash
      · cases text.symm.trans same
        cases plain
  | some name =>
      have begins := spelled.beginsName (named name rfl)
      have beginsNew := nameText_begins begins name
      obtain ⟨head, tail, same, plain⟩ := beginsNew.plain
      have alike := begins.headLike beginsNew
      have renamedText : (item.renamed name).text = head :: tail := same
      rw [same, text] at alike
      rw [under_some, renamedText, text]
      refine ⟨alike, ?_⟩
      rintro behind ⟨⟩
      cases plain

/-- Under new names the text resembles the old one. -/
theorem resembles {pairs : List (Item × Option String)} (sequence : Sequence settings (olds pairs))
    (named : Named pairs) : Resembles (charsAll (olds pairs)) (charsAll (news pairs)) := by
  induction pairs with
  | nil => cases sequence
  | cons pair pairs inductionHypothesis =>
      obtain ⟨item, change⟩ := pair
      obtain ⟨isName, namedBehind⟩ := List.forall_mem_cons.mp named
      dsimp only at isName
      rw [olds_cons] at sequence ⊢
      obtain ⟨read, position⟩ := sequence_cons_iff.mp sequence
      have run := read.trivia
      rw [news_cons, charsAll_cons, charsAll_cons, chars, chars, under_trivia, List.append_assoc,
        List.append_assoc]
      cases spaces : item.trivia with
      | cons first others =>
          refine ⟨.refl _, ?_⟩
          rintro behind ⟨⟩
          rw [spaces] at run
          obtain ⟨others, rfl⟩ := run.dashes
          exact ⟨_, rfl, .refl _⟩
      | nil =>
          rw [List.nil_append, List.nil_append]
          rcases position with ⟨stops, rest⟩ | ⟨inner, behind⟩
          · obtain rfl := olds_eq_nil rest
            obtain rfl := change_of_ended isName stops
            exact .refl _
          · have later := inductionHypothesis behind namedBehind
            obtain ⟨_, _, spelled⟩ := (readBefore_iff inner).mp read
            exact resembles_under spelled isName later

/-- All items are read under their new names, and no backticks touch in front of them, exactly where
all new names stand apart. -/
theorem sequence_news_iff {pairs : List (Item × Option String)}
    (sequence : Sequence settings (olds pairs)) (named : Named pairs) (before : Option Char)
    (apart : ¬ Touch before (charsAll (olds pairs)).head?) :
    AllApart before pairs ↔
      ¬ Touch before (charsAll (news pairs)).head? ∧ Sequence settings (news pairs) := by
  induction pairs generalizing before with
  | nil => cases sequence
  | cons pair pairs inductionHypothesis =>
      obtain ⟨item, change⟩ := pair
      obtain ⟨isName, namedBehind⟩ := List.forall_mem_cons.mp named
      dsimp only at isName
      rw [olds_cons] at sequence apart
      obtain ⟨read, position⟩ := sequence_cons_iff.mp sequence
      rw [charsAll_cons] at apart
      rw [AllApart, news_cons, charsAll_cons, sequence_cons_iff]
      rcases position with ⟨stops, rest⟩ | ⟨inner, behind⟩
      · obtain rfl := olds_eq_nil rest
        obtain rfl := change_of_ended isName stops
        exact iff_of_true ⟨by simp, trivial⟩ ⟨apart, read, .inl ⟨stops, rfl⟩⟩
      · have like := resembles behind namedBehind
        have apartBehind := (read.kept_iff (.refl _)).mp read
        have innerUnder : (item.under change).kind ≠ .endOfInput := by
          cases change with
          | none => exact inner
          | some name => exact nameKind_inner _ _
        rw [inductionHypothesis behind namedBehind _ apartBehind, ← and_assoc,
          read.under_iff like isName apart, and_assoc]
        simp only [innerUnder, false_and, ne_eq, not_false_eq_true, true_and, false_or]

/-! ### Other readings of the new text -/

/-- The kind of a token, or an identifier of its new name. -/
def Agrees (before : TokenKind) (change : Option String) (after : TokenKind) : Prop :=
  match change with
  | none => after = before
  | some name => after.Names name

theorem isNameAfterDot_of_names {kind : TokenKind} {name : String} (names : kind.Names name) :
    kind.isNameAfterDot = true := by
  cases kind <;> first | rfl | cases names

theorem eq_nameKind_of_names {kind : TokenKind} {name : String} {quote : Option Char}
    (names : kind.Names name) (known : kind.quote? = quote) : kind = nameKind quote name := by
  subst known
  cases kind <;> first | (cases names; rfl) | cases names

theorem eq_nameText_of_spelled {quote next : Option Char} {name : String} {text : List Char}
    (spelled : Spelled settings (nameKind quote name) text next) : text = nameText quote name := by
  cases quote with
  | none => exact (spelled_word_iff.mp spelled).1
  | some quote => exact (spelled_quotedWord_iff.mp spelled).2.1

/-- An item that agrees with an item under its new name is that item. -/
theorem under_of_agrees (read : item.ReadBefore settings rest) (like : Resembles rest new)
    {change : Option String} (named : ∀ name ∈ change, item.kind.isNameAfterDot = true)
    {after : Item} {afterRest : List Char} (again : after.ReadBefore settings afterRest)
    (same : after.chars ++ afterRest = (item.under change).chars ++ new)
    (agrees : Agrees item.kind change after.kind) :
    after = item.under change ∧ afterRest = new := by
  obtain ⟨run, absent⟩ := read.front_under like _ named
  rw [chars, chars, under_trivia, List.append_assoc, List.append_assoc] at same
  obtain ⟨trivia, text⟩ := again.trivia.unique again.front run absent same
  -- the same text under the trivia decides the rest
  have closing : after.kind = (item.under change).kind → after.text = (item.under change).text →
      after = item.under change ∧ afterRest = new := by
    intro kind sameText
    rw [sameText] at text
    refine ⟨?_, List.append_cancel_left text⟩
    rw [show after = ⟨after.trivia, after.kind, after.text⟩ from rfl, trivia, kind, sameText,
      ← under_trivia item change]
  cases change with
  | none =>
      by_cases touch : Touch item.text.getLast? new.head?
      · have inner : item.kind ≠ .endOfInput := fun ended => by
          rw [(read.ended ended).1] at touch
          cases touch.1
        obtain ⟨_, _, spelled⟩ := (readBefore_iff inner).mp read
        have sameKind : after.kind = item.kind := agrees
        obtain ⟨_, _, spelledAgain⟩ := (readBefore_iff (sameKind ▸ inner)).mp again
        obtain ⟨value, kind⟩ := spelled.eq_quotedWord touch.1
        rw [sameKind, kind, spelled_quotedWord_iff] at spelledAgain
        rw [kind, spelled_quotedWord_iff] at spelled
        exact closing agrees (spelledAgain.2.1.trans spelled.2.1.symm)
      · have kept := (read.kept_iff like).mpr touch
        exact again.unique kept (by simpa [chars] using same)
  | some name =>
      have isName := named name rfl
      have inner : item.kind ≠ .endOfInput := fun ended => by
        rw [ended] at isName
        cases isName
      have innerAgain : after.kind ≠ .endOfInput := fun ended => by
        rw [Agrees, ended] at agrees
        exact agrees
      obtain ⟨_, _, spelled⟩ := (readBefore_iff inner).mp read
      obtain ⟨_, _, spelledAgain⟩ := (readBefore_iff innerAgain).mp again
      have begins := nameText_begins (spelled.beginsName isName) name
      obtain ⟨head, others, written, _⟩ := begins.plain
      have beginsAgain := spelledAgain.beginsName (isNameAfterDot_of_names agrees)
      obtain ⟨headAgain, othersAgain, writtenAgain⟩ :=
        List.exists_cons_of_ne_nil spelledAgain.text_ne_nil
      have renamedText : (item.renamed name).text =
        nameText (writtenQuote item.kind.quote? name) name := rfl
      have sameHead : headAgain = head := by
        rw [under_some, renamedText, written, writtenAgain] at text
        exact (List.cons.inj text).1
      have quote : after.kind.quote? = writtenQuote item.kind.quote? name := by
        rw [written] at begins
        rw [writtenAgain, sameHead] at beginsAgain
        exact beginsAgain.quote_unique begins
      have kind := eq_nameKind_of_names agrees quote
      refine closing kind ?_
      rw [kind] at spelledAgain
      exact eq_nameText_of_spelled spelledAgain

/-- Items that agree with the items under their new names are these items. -/
theorem news_of_agrees {pairs : List (Item × Option String)}
    (sequence : Sequence settings (olds pairs)) (named : Named pairs) {items : List Item}
    (again : Sequence settings items) (same : charsAll items = charsAll (news pairs))
    (agrees : List.Forall₂ (fun pair item => Agrees pair.1.kind pair.2 item.kind) pairs items) :
    items = news pairs := by
  induction pairs generalizing items with
  | nil => cases sequence
  | cons pair pairs inductionHypothesis =>
      obtain ⟨item, change⟩ := pair
      obtain ⟨isName, namedBehind⟩ := List.forall_mem_cons.mp named
      dsimp only at isName
      rw [olds_cons] at sequence
      obtain ⟨read, position⟩ := sequence_cons_iff.mp sequence
      cases agrees with
      | @cons _ after _ items first others =>
          obtain ⟨readAgain, positionAgain⟩ := sequence_cons_iff.mp again
          rw [news_cons, charsAll_cons, charsAll_cons] at same
          rcases position with ⟨stops, rest⟩ | ⟨inner, behind⟩
          · obtain rfl := olds_eq_nil rest
            obtain rfl := change_of_ended isName stops
            cases others
            rw [(readAgain.unique read same).1]
            rfl
          · obtain ⟨rfl, left⟩ := under_of_agrees read (resembles behind namedBehind) isName readAgain
              same first
            rcases positionAgain with ⟨stopsAgain, rfl⟩ | ⟨_, behindAgain⟩
            · cases others
              cases behind
            · rw [inductionHypothesis behind namedBehind behindAgain left others, news_cons]

end Item

end SqlDml
