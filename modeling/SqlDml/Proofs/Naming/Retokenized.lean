import Mathlib.Data.List.Perm.Basic
import SqlDml.Proofs.Lexing.Respelled
import SqlDml.Proofs.Naming.Qualifiers
import SqlDml.Proofs.Naming.Renamed
import SqlDml.Proofs.Parsing.Entry

/-!
Contract: the tokens of a text in which tables are renamed.

Owns:
- the identifiers that a renaming rewrites, each with its new name;
- the text with the new names, as the items of the source under their new names;
- when the new text has the tokens of the source with the new names in their places.

Does not own: which identifiers are rewritten.
-/

namespace SqlDml

open Text Item

/-! ### The rewritten identifiers -/

/-- An identifier that is rewritten, and its new name. -/
structure Rewrite where
  ident : Ident
  newName : String
deriving DecidableEq, Repr

/-- The splice that rewrites an identifier. -/
def Rewrite.splice (rewrite : Rewrite) : Splice :=
  ⟨rewrite.ident.span, rewrite.ident.requote rewrite.newName⟩

/-- The identifiers that a renaming rewrites: those of tables first, then qualifiers. -/
def Statement.rewrites (statement : Statement) (rename : TableName → Option String) :
    List Rewrite :=
  let renamed := renamings statement rename
  renamed.map (fun entry => ⟨entry.name.table, entry.newName⟩) ++
    statement.qualifiers.filterMap fun qualifier =>
      (newQualifier? statement.aliases renamed qualifier.1 qualifier.2).map
        (Rewrite.mk qualifier.2)

/-- The new name for what stands at a place, if it is rewritten. -/
def nameAt? (rewrites : List Rewrite) (span : Span) : Option String :=
  (rewrites.find? fun rewrite => rewrite.ident.span == span).map Rewrite.newName

/-- The character that ends in front of a byte offset. -/
def Text.charBefore? (offset : Nat) (chars : List Char) : Option Char :=
  (splitAtByte? offset chars).bind fun cut => cut.1.getLast?

/-- The character that begins at a byte offset. -/
def Text.charAt? (offset : Nat) (chars : List Char) : Option Char :=
  (splitAtByte? offset chars).bind fun cut => cut.2.head?

/-- The new name stands apart from the text around the identifier that it replaces. -/
def Rewrite.StandsApart (source : String) (rewrite : Rewrite) : Prop :=
  SqlDml.StandsApart (charBefore? rewrite.ident.span.start source.toList) rewrite.ident.quote
    rewrite.newName (charAt? rewrite.ident.span.stop source.toList)

instance (source : String) (rewrite : Rewrite) : Decidable (rewrite.StandsApart source) :=
  inferInstanceAs (Decidable (SqlDml.StandsApart _ _ _ _))

/-- A token of the new text has the kind of the token in its place, or it is one identifier whose
value is the new name. -/
def Token.RenamedTo (rewrites : List Rewrite) (before after : Token) : Prop :=
  Agrees before.kind (nameAt? rewrites before.span) after.kind

theorem Statement.map_splice_rewrites (statement : Statement) (rename : TableName → Option String) :
    (statement.rewrites rename).map Rewrite.splice =
      (renamings statement rename).map Renaming.splice ++ statement.qualifierSplices rename := by
  simp only [rewrites, qualifierSplices, List.map_append, List.map_map, List.map_filterMap]
  congr 1
  refine List.filterMap_congr fun qualifier _ => ?_
  simp [qualifierSplice?, Rewrite.splice, Option.map_map, Function.comp_def]

/-- Each identifier of a table or a qualifier stands for a token. -/
theorem Read.offers {visits : List Visit} {spot later : Spot} (read : Read visits spot later)
    {name : Ident} (member : name ∈ visits.filterMap Visit.tableIdent?) : spot.Offers name := by
  induction read with
  | nothing spot => cases member
  | passed plain => cases member
  | name _ _ _ => cases member
  | marker marked => cases member
  | literal _ _ => cases member
  | append front _ inFront inBack =>
      rw [List.filterMap_append, List.mem_append] at member
      rcases member with left | right
      · exact inFront left
      · obtain ⟨token, found, from_⟩ := inBack right
        obtain ⟨tokens, split, _⟩ := front.idents
        exact ⟨token, split ▸ List.mem_append_right _ found, from_⟩
  | @node visit visits spot later node _ inductionHypothesis =>
      have unnamed : visit.tableIdent? = none := by
        cases visit <;> first | rfl | cases node
      rw [List.filterMap_cons_none unnamed] at member
      exact inductionHypothesis member
  | cast _ _ _ inductionHypothesis => exact inductionHypothesis member
  | @tableName name spot later offers _ _ =>
      simp only [TableName.visits, List.filterMap_cons, Visit.tableIdent?, List.filterMap_append,
        Visit.filterMap_tableIdent?_idents] at member
      simp_all
  | @qualifier schema table spot later offers _ _ =>
      simp only [Visit.ofQualifier, List.filterMap_cons, Visit.tableIdent?, List.filterMap_append,
        Visit.filterMap_tableIdent?_idents] at member
      simp_all
  | swap _ _ inductionHypothesis =>
      rw [List.filterMap_append, List.mem_append] at member inductionHypothesis
      exact inductionHypothesis member.symm

/-! ### Items with their new names -/

namespace Item

/-- Items, the first of which begins at a position, with what is to be changed at their places. -/
def dealt (change : Span → Option String) (position : Position) :
    List Item → List (Item × Option String)
  | [] => []
  | item :: items =>
      (item, change (item.place position).span) ::
        dealt change (position.advanceAll item.chars) items

variable {change : Span → Option String} {settings : Settings}

@[simp] theorem olds_dealt (change : Span → Option String) (position : Position)
    (items : List Item) : olds (dealt change position items) = items := by
  induction items generalizing position with
  | nil => rfl
  | cons item items inductionHypothesis => rw [dealt, olds_cons, inductionHypothesis]

/-- Only names get new names, if that holds of the tokens. -/
theorem named_dealt {position : Position} {items : List Item}
    (names : ∀ token ∈ placeAll position items, ∀ name ∈ change token.span,
      token.kind.isNameAfterDot = true) : Named (dealt change position items) := by
  induction items generalizing position with
  | nil => exact List.forall_mem_nil _
  | cons item items inductionHypothesis =>
      obtain ⟨first, others⟩ := List.forall_mem_cons.mp names
      exact List.forall_mem_cons.mpr ⟨first, inductionHypothesis others⟩

/-- Agreement of tokens is agreement of the items that they belong to. -/
theorem forall₂_agrees_iff {position newPosition : Position} {items others : List Item} :
    List.Forall₂ (fun before after => Agrees before.kind (change before.span) after.kind)
        (placeAll position items) (placeAll newPosition others) ↔
      List.Forall₂ (fun pair item => Agrees pair.1.kind pair.2 item.kind)
        (dealt change position items) others := by
  induction items generalizing position newPosition others with
  | nil =>
      cases others with
      | nil => exact iff_of_true .nil .nil
      | cons _ _ => exact iff_of_false (fun wrong => nomatch wrong) (fun wrong => nomatch wrong)
  | cons item items inductionHypothesis =>
      cases others with
      | nil => exact iff_of_false (fun wrong => nomatch wrong) (fun wrong => nomatch wrong)
      | cons other others =>
          rw [placeAll, placeAll, dealt, List.forall₂_cons, List.forall₂_cons, inductionHypothesis]
          rfl

/-- No token begins in front of the items. -/
theorem le_start_of_mem_placeAll {position : Position} {items : List Item} {token : Token}
    (member : token ∈ placeAll position items) : position.offset ≤ token.span.start := by
  induction items generalizing position with
  | nil => cases member
  | cons item items inductionHypothesis =>
      rcases List.mem_cons.mp member with rfl | later
      · simp [place, Span.between]
      · have behind := inductionHypothesis later
        rw [Position.advanceAll_offset] at behind
        omega

theorem placeAll_ne_nil {items : List Item} (sequence : Sequence settings items)
    (position : Position) : placeAll position items ≠ [] := by
  cases sequence <;> exact List.cons_ne_nil _ _

theorem place_span (item : Item) (position : Position) :
    (item.place position).span.start = position.offset + byteCount item.trivia ∧
      (item.place position).span.stop =
        (item.place position).span.start + byteCount item.text := by
  simp [place, Span.between, chars, Nat.add_assoc]

/-- The places of a sequence of items lie in its text one behind the other, the end of input left
out. -/
theorem Sequence.laid {items : List Item} (sequence : Sequence settings items)
    (position : Position) : Laid position.offset (charsAll items)
      ((placeAll position items).dropLast.map Token.span) := by
  induction sequence generalizing position with
  | ended read stops => exact .nothing _ _
  | @inner item items read inner behind inductionHypothesis =>
      obtain ⟨start, stop⟩ := item.place_span position
      have later := inductionHypothesis (position.advanceAll item.chars)
      have moved : (position.advanceAll item.chars).offset = (item.place position).span.stop := rfl
      rw [moved] at later
      rw [placeAll, List.dropLast_cons_of_ne_nil (placeAll_ne_nil behind _), List.map_cons,
        charsAll_cons, chars, List.append_assoc]
      exact .span start stop (read.text_ne_nil inner) later

/-- No token behind an item has its place. -/
theorem span_ne_of_mem_placeAll {item : Item} {items : List Item} {position : Position}
    (nonempty : item.text ≠ []) {token : Token}
    (member : token ∈ placeAll (position.advanceAll item.chars) items) :
    token.span ≠ (item.place position).span := by
  intro same
  have later := le_start_of_mem_placeAll member
  have positive := byteCount_pos nonempty
  obtain ⟨start, _⟩ := item.place_span position
  rw [same, start, Position.advanceAll_offset, chars, byteCount_append] at later
  omega

/-- Each token has a place of its own. -/
theorem nodup_placeAll {items : List Item} (sequence : Sequence settings items)
    (position : Position) : ((placeAll position items).map Token.span).Nodup := by
  induction sequence generalizing position with
  | ended read stops => exact List.nodup_singleton _
  | @inner item items read inner behind inductionHypothesis =>
      rw [placeAll, List.map_cons, List.nodup_cons]
      refine ⟨fun again => ?_, inductionHypothesis _⟩
      obtain ⟨token, member, same⟩ := List.mem_map.mp again
      exact span_ne_of_mem_placeAll (read.text_ne_nil inner) member same

/-- A token is one of the items at its position. -/
theorem mem_placeAll_iff {token : Token} {position : Position} {items : List Item} :
    token ∈ placeAll position items ↔ ∃ front item back, items = front ++ item :: back ∧
      token = item.place (position.advanceAll (charsAll front)) := by
  constructor
  · intro member
    induction items generalizing position with
    | nil => cases member
    | cons item items inductionHypothesis =>
        rcases List.mem_cons.mp member with rfl | later
        · exact ⟨[], item, items, rfl, rfl⟩
        · obtain ⟨front, other, back, rfl, rfl⟩ := inductionHypothesis later
          exact ⟨item :: front, other, back, rfl, by
            rw [charsAll_cons, Position.advanceAll_append]⟩
  · rintro ⟨front, item, back, rfl, rfl⟩
    rw [placeAll_append]
    exact List.mem_append_right _ List.mem_cons_self

/-- The new text of an identifier is that of its item under the new name. -/
theorem toList_requote {item : Item} {position : Position} {name : Ident}
    (from_ : name.ReadFrom (item.place position)) (newName : String) :
    (name.requote newName).toList = (item.renamed newName).text := by
  rw [Ident.requote, Ident.toList_render, ← from_.2.2]
  rfl

/-- Splices at the places of some items give the items their new texts. -/
theorem applyFrom_dealt {items : List Item} (sequence : Sequence settings items)
    (position : Position) {rewrites : List Rewrite}
    (places : (rewrites.map fun rewrite => rewrite.ident.span).Sublist
      ((placeAll position items).dropLast.map Token.span))
    (written : ∀ token ∈ placeAll position items, ∀ rewrite ∈ rewrites,
      rewrite.ident.span = token.span → rewrite.ident.ReadFrom token)
    (changes : ∀ token ∈ placeAll position items, ∀ name, change token.span = some name ↔
      ∃ rewrite ∈ rewrites, rewrite.ident.span = token.span ∧ rewrite.newName = name) :
    Splice.applyFrom position.offset (charsAll items) (rewrites.map Rewrite.splice) =
      charsAll (news (dealt change position items)) := by
  induction sequence generalizing position rewrites with
  | @ended item read stops =>
      obtain rfl : rewrites = [] := List.map_eq_nil_iff.mp (List.sublist_nil.mp places)
      have kept : change (item.place position).span = none := by
        rw [Option.eq_none_iff_forall_ne_some]
        intro name found
        obtain ⟨_, absent, _⟩ := (changes _ List.mem_cons_self name).mp found
        cases absent
      rw [dealt, news_cons, kept]
      rfl
  | @inner item items read inner behind inductionHypothesis =>
      obtain ⟨start, stop⟩ := item.place_span position
      have apart : ∀ token ∈ placeAll (position.advanceAll item.chars) items,
          token.span ≠ (item.place position).span :=
        fun _ => span_ne_of_mem_placeAll (read.text_ne_nil inner)
      rw [placeAll, List.dropLast_cons_of_ne_nil (placeAll_ne_nil behind _), List.map_cons] at places
      rw [placeAll] at written changes
      obtain ⟨writtenHere, writtenBehind⟩ := List.forall_mem_cons.mp written
      obtain ⟨changesHere, changesBehind⟩ := List.forall_mem_cons.mp changes
      rw [dealt, news_cons, charsAll_cons, charsAll_cons]
      rcases List.sublist_cons_iff.mp places with later | ⟨others, same, later⟩
      · have kept : change (item.place position).span = none := by
          rw [Option.eq_none_iff_forall_ne_some]
          intro name found
          obtain ⟨rewrite, member, place, _⟩ := (changesHere name).mp found
          obtain ⟨token, inTail, span⟩ := List.mem_map.mp (later.subset (List.mem_map_of_mem member))
          exact apart token (List.dropLast_subset _ inTail) (span.trans place)
        have laid := (behind.laid (position.advanceAll item.chars)).sublist later
        rw [Position.advanceAll_offset] at laid
        have spliced := @Splice.applyFrom_append _ _ _ [] (rewrites.map Rewrite.splice)
          (.nothing position.offset item.chars) (by rwa [List.map_map])
        rw [List.nil_append] at spliced
        rw [kept, under_none, spliced, ← Position.advanceAll_offset,
          inductionHypothesis _ later writtenBehind changesBehind]
        rfl
      · obtain ⟨rewrite, rewrites, rfl, place, rfl⟩ := List.map_eq_cons_iff.mp same
        have changed : change (item.place position).span = some rewrite.newName :=
          (changesHere _).mpr ⟨rewrite, List.mem_cons_self, place, rfl⟩
        have text := toList_requote (writtenHere rewrite List.mem_cons_self place) rewrite.newName
        have startHere : rewrite.splice.span.start = position.offset + byteCount item.trivia :=
          (congrArg Span.start place).trans start
        have stopHere : rewrite.splice.span.stop =
            rewrite.splice.span.start + byteCount item.text := by
          rw [show rewrite.splice.span = (item.place position).span from place, stop]
        have tail : ∀ token ∈ placeAll (position.advanceAll item.chars) items, ∀ name,
            change token.span = some name ↔ ∃ other ∈ rewrites, other.ident.span = token.span ∧
              other.newName = name := by
          intro token member name
          rw [changesBehind token member name]
          constructor
          · rintro ⟨other, found, span, rfl⟩
            rcases List.mem_cons.mp found with rfl | found
            · exact absurd (span.symm.trans place) (apart token member)
            · exact ⟨other, found, span, rfl⟩
          · rintro ⟨other, found, span, rfl⟩
            exact ⟨other, List.mem_cons_of_mem _ found, span, rfl⟩
        have behindHere := inductionHypothesis (position.advanceAll item.chars) later
          (fun token member other found => writtenBehind token member other
            (List.mem_cons_of_mem _ found)) tail
        have renamedHere : item.trivia ++ rewrite.splice.replacement.toList =
            (item.renamed rewrite.newName).chars := congrArg (item.trivia ++ ·) text
        have stopped : rewrite.splice.span.stop = (position.advanceAll item.chars).offset :=
          congrArg Span.stop place
        have spliced := @Splice.applyFrom_cons _ _ _ (charsAll items) _ startHere stopHere
          (rewrites.map Rewrite.splice)
        rw [stopped, behindHere, renamedHere, ← List.append_assoc] at spliced
        rw [changed, List.map_cons]
        exact spliced

/-! ### Names that stand apart -/

/-- The places in a list are its first place and those in its tail. -/
theorem forall_split_cons {first : Item} {items : List Item}
    {holds : List Item → Item → List Item → Prop} :
    (∀ front item back, first :: items = front ++ item :: back → holds front item back) ↔
      holds [] first items ∧
        ∀ front item back, items = front ++ item :: back → holds (first :: front) item back := by
  constructor
  · intro all
    exact ⟨all [] first items rfl, fun front item back split =>
      all (first :: front) item back (by rw [split, List.cons_append])⟩
  · rintro ⟨here, behind⟩ front item back split
    cases front with
    | nil =>
        cases split
        exact here
    | cons head front =>
        cases split
        exact behind front item back rfl

/-- All new names stand apart if each does at its place. -/
theorem allApart_dealt_iff {items : List Item} (sequence : Sequence settings items)
    (position : Position) (before : Option Char) :
    AllApart before (dealt change position items) ↔
      ∀ front item back, items = front ++ item :: back → ∀ name,
        change (item.place (position.advanceAll (charsAll front))).span = some name →
        StandsApart ((charsAll front ++ item.trivia).getLast?.or before) item.kind.quote? name
          (charsAll back).head? := by
  induction sequence generalizing position before with
  | @ended item read stops =>
      rw [dealt, AllApart, forall_split_cons]
      refine and_congr .rfl (iff_of_true trivial fun front item back split => ?_)
      cases front <;> cases split
  | @inner item items read inner behind inductionHypothesis =>
      have final := List.getLast?_eq_some_getLast (read.text_ne_nil inner)
      have text : ∀ chars : List Char, (item.chars ++ chars).getLast?.or before =
          chars.getLast?.or item.text.getLast? := by
        intro chars
        rw [List.getLast?_append, Item.chars, List.getLast?_append, final]
        cases chars.getLast? <;> rfl
      rw [dealt, AllApart, inductionHypothesis, olds_dealt, forall_split_cons]
      refine and_congr .rfl ?_
      simp only [charsAll_cons, List.append_assoc, Position.advanceAll_append, text]

end Item

/-! ### The rewritten identifiers of a parsed statement -/

variable {source : String} {settings : Settings} {parsed : ParsedStatement}

namespace Statement

variable {statement : Statement} {rename : TableName → Option String}

theorem ident_mem_of_rewrites {rewrite : Rewrite} (member : rewrite ∈ statement.rewrites rename) :
    rewrite.ident ∈ statement.tableIdents := by
  rw [rewrites, List.mem_append] at member
  rw [tableIdents, List.mem_append]
  rcases member with table | qualifier
  · obtain ⟨entry, renamed, rfl⟩ := List.mem_map.mp table
    obtain ⟨name, inside, chosen⟩ := List.mem_filterMap.mp renamed
    obtain ⟨newName, _, rfl⟩ := Option.map_eq_some_iff.mp chosen
    exact .inl (List.mem_map_of_mem inside)
  · obtain ⟨qualifier, inside, chosen⟩ := List.mem_filterMap.mp qualifier
    obtain ⟨newName, _, rfl⟩ := Option.map_eq_some_iff.mp chosen
    exact .inr (List.mem_map_of_mem inside)

end Statement

/-- Each place is rewritten once, so its new name is the one of its rewriting. -/
theorem nameAt?_eq_some_iff {rewrites : List Rewrite}
    (nodup : (rewrites.map fun rewrite => rewrite.ident.span).Nodup) {span : Span}
    {name : String} : nameAt? rewrites span = some name ↔
      ∃ rewrite ∈ rewrites, rewrite.ident.span = span ∧ rewrite.newName = name := by
  rw [nameAt?, Option.map_eq_some_iff]
  constructor
  · rintro ⟨rewrite, found, rfl⟩
    exact ⟨rewrite, List.mem_of_find?_eq_some found, by simpa using List.find?_some found, rfl⟩
  · rintro ⟨rewrite, member, rfl, rfl⟩
    cases found : rewrites.find? fun other => other.ident.span == rewrite.ident.span with
    | none => simpa using List.find?_eq_none.mp found rewrite member
    | some other =>
        have same : other.ident.span = rewrite.ident.span := by simpa using List.find?_some found
        have inside := List.mem_of_find?_eq_some found
        exact ⟨other, rfl, by rw [List.inj_on_of_nodup_map nodup inside member same]⟩

/-- The identifiers that are rewritten in a parsed statement are tokens of its source, each another
one, and the splices are theirs. -/
theorem rewrites_offered (accepted : parseStatement source settings = .ok parsed)
    (rename : TableName → Option String) :
    renameSplices parsed.statement rename =
        (parsed.statement.rewrites rename).map Rewrite.splice ∧
      ((parsed.statement.rewrites rename).map fun rewrite => rewrite.ident.span).Nodup ∧
      ∀ rewrite ∈ parsed.statement.rewrites rename,
        (Spot.ofSource source settings).Offers rewrite.ident := by
  obtain ⟨spans, laid, places⟩ := tableIdents_laid accepted
  obtain ⟨later, read, _⟩ := read_of_parseStatement accepted
  have splices := Statement.renameSplices_eq rename laid places
  rw [← Statement.map_splice_rewrites] at splices
  refine ⟨splices, ?_, fun rewrite member => read.offers ?_⟩
  · have part := parsed.statement.map_span_sublist rename
    rw [← Statement.map_splice_rewrites, List.map_map] at part
    exact (Statement.nodup_of_laid laid places).sublist part
  · exact parsed.statement.tableIdents_perm.mem_iff.mp (Statement.ident_mem_of_rewrites member)

/-! ### The new text -/

/-- A new name stands apart in the source exactly where it stands apart from the items around it. -/
theorem Rewrite.standsApart_iff {rewrite : Rewrite} {front back : List Item} {item : Item}
    (split : source.toList = charsAll (front ++ item :: back))
    (from_ : rewrite.ident.ReadFrom (item.place (Position.start.advanceAll (charsAll front)))) :
    rewrite.StandsApart source ↔
      SqlDml.StandsApart (charsAll front ++ item.trivia).getLast? item.kind.quote? rewrite.newName
        (charsAll back).head? := by
  obtain ⟨start, stop⟩ := item.place_span (Position.start.advanceAll (charsAll front))
  obtain ⟨place, _, quote⟩ := from_
  have opening : rewrite.ident.span.start = byteCount (charsAll front ++ item.trivia) := by
    rw [place, start, Position.advanceAll_offset, byteCount_append]
    exact Nat.add_right_cancel_iff.mpr (Nat.zero_add _)
  have closing : rewrite.ident.span.stop =
      byteCount (charsAll front ++ item.trivia ++ item.text) := by
    rw [byteCount_append, ← opening, place, stop]
  have whole : source.toList = charsAll front ++ item.trivia ++ (item.text ++ charsAll back) := by
    rw [split, charsAll_append, charsAll_cons, Item.chars]
    simp only [List.append_assoc]
  have wholeBehind : source.toList =
      charsAll front ++ item.trivia ++ item.text ++ charsAll back := by
    rw [whole, List.append_assoc, List.append_assoc, List.append_assoc]
  have before : charBefore? rewrite.ident.span.start source.toList =
      (charsAll front ++ item.trivia).getLast? := by
    rw [charBefore?, opening, whole, splitAtByte?_append]
    rfl
  have after : charAt? rewrite.ident.span.stop source.toList = (charsAll back).head? := by
    rw [charAt?, closing, wholeBehind, splitAtByte?_append]
    rfl
  have sameQuote : rewrite.ident.quote = item.kind.quote? := quote.symm
  rw [StandsApart, before, after, sameQuote]

/-- Items under their new names agree with their changes. -/
theorem agrees_news (pairs : List (Item × Option String)) :
    List.Forall₂ (fun pair item => Agrees pair.1.kind pair.2 item.kind) pairs (news pairs) := by
  induction pairs with
  | nil => exact .nil
  | cons pair pairs inductionHypothesis =>
      obtain ⟨item, change⟩ := pair
      refine .cons ?_ inductionHypothesis
      cases change with
      | none => rfl
      | some name => exact nameKind_names _ _

/-- Splices that are sorted are those of rewritten identifiers in the same order. -/
theorem exists_sorted (rewrites : List Rewrite) :
    ∃ sorted : List Rewrite, sorted.Perm rewrites ∧
      Splice.sort (rewrites.map Rewrite.splice) = sorted.map Rewrite.splice := by
  have matched : List.Forall₂ (fun splice rewrite => splice = Rewrite.splice rewrite)
      (rewrites.map Rewrite.splice) rewrites :=
    List.forall₂_map_left_iff.mpr (List.forall₂_same.mpr fun _ _ => rfl)
  obtain ⟨sorted, same, perm⟩ := List.perm_comp_forall₂ (Splice.sort_perm _) matched
  refine ⟨sorted, perm, ?_⟩
  clear matched perm
  generalize Splice.sort (rewrites.map Rewrite.splice) = splices at same
  induction same with
  | nil => rfl
  | cons here _ inductionHypothesis => rw [List.map_cons, here, inductionHypothesis]

/-- A source as items, and its rewritten identifiers as some of their tokens. -/
structure Rewritten (source : String) (settings : Settings) (items : List Item)
    (rewrites : List Rewrite) : Prop where
  sequence : Sequence settings items
  split : source.toList = charsAll items
  nodup : (rewrites.map fun rewrite => rewrite.ident.span).Nodup
  offered : ∀ rewrite ∈ rewrites, ∃ token ∈ (placeAll Position.start items).dropLast,
    rewrite.ident.ReadFrom token

namespace Rewritten

variable {items : List Item} {rewrites : List Rewrite}
  (rewritten : Rewritten source settings items rewrites)

include rewritten

/-- An identifier stands for the token at its place. -/
theorem readFrom {rewrite : Rewrite} (member : rewrite ∈ rewrites) {token : Token}
    (inside : token ∈ placeAll Position.start items) (place : rewrite.ident.span = token.span) :
    rewrite.ident.ReadFrom token := by
  obtain ⟨other, found, from_⟩ := rewritten.offered rewrite member
  have same : other = token :=
    List.inj_on_of_nodup_map (nodup_placeAll rewritten.sequence _) (List.dropLast_subset _ found)
      inside (from_.1.symm.trans place)
  exact same ▸ from_

theorem named : Named (dealt (nameAt? rewrites) Position.start items) := by
  refine named_dealt fun token inside name changed => ?_
  obtain ⟨rewrite, member, place, _⟩ := (nameAt?_eq_some_iff rewritten.nodup).mp changed
  exact (rewritten.readFrom member inside place).2.1

/-- The spliced text is that of the items under their new names. -/
theorem applySplices_eq : ∃ out, applySplices source (rewrites.map Rewrite.splice) = .ok out ∧
    out.toList = charsAll (news (dealt (nameAt? rewrites) Position.start items)) := by
  obtain ⟨sorted, perm, same⟩ := exists_sorted rewrites
  have laid := rewritten.sequence.laid Position.start
  rw [← rewritten.split] at laid
  have places : ((rewrites.map Rewrite.splice).map Splice.span).Subperm
      ((placeAll Position.start items).dropLast.map Token.span) := by
    rw [List.map_map]
    refine List.subperm_of_subset rewritten.nodup fun span member => ?_
    obtain ⟨rewrite, inside, rfl⟩ := List.mem_map.mp member
    obtain ⟨token, found, from_⟩ := rewritten.offered rewrite inside
    exact List.mem_map.mpr ⟨token, found, from_.1.symm⟩
  refine ⟨_, Splice.applySplices_of_laid laid places, ?_⟩
  have ordered := Splice.sort_sublist laid places
  rw [same, List.map_map] at ordered
  rw [String.toList_ofList, same, rewritten.split]
  refine applyFrom_dealt rewritten.sequence Position.start ordered ?_ ?_
  · exact fun token inside rewrite member place =>
      rewritten.readFrom (perm.mem_iff.mp member) inside place
  · intro token _ name
    rw [nameAt?_eq_some_iff rewritten.nodup]
    simp only [perm.mem_iff]

/-- Every new name stands apart in the source exactly where all items do. -/
theorem standsApart_iff : (∀ rewrite ∈ rewrites, rewrite.StandsApart source) ↔
    AllApart none (dealt (nameAt? rewrites) Position.start items) := by
  rw [allApart_dealt_iff rewritten.sequence]
  have split := rewritten.split
  constructor
  · rintro all front item back rfl name changed
    obtain ⟨rewrite, member, place, rfl⟩ := (nameAt?_eq_some_iff rewritten.nodup).mp changed
    have from_ := rewritten.readFrom member (mem_placeAll_iff.mpr ⟨front, item, back, rfl, rfl⟩) place
    rw [Option.or_none]
    exact (Rewrite.standsApart_iff split from_).mp (all rewrite member)
  · intro all rewrite member
    obtain ⟨token, found, from_⟩ := rewritten.offered rewrite member
    obtain ⟨front, item, back, rfl, rfl⟩ := mem_placeAll_iff.mp (List.dropLast_subset _ found)
    have changed := (nameAt?_eq_some_iff rewritten.nodup).mpr ⟨rewrite, member, from_.1, rfl⟩
    have apart := all front item back rfl _ changed
    rw [Option.or_none] at apart
    exact (Rewrite.standsApart_iff split from_).mpr apart

/-- The new text has tokens that agree with those of the source exactly where it is not too long and
all new names stand apart. -/
theorem tokenize_iff {out : String}
    (text : out.toList = charsAll (news (dealt (nameAt? rewrites) Position.start items))) :
    (∃ after, tokenize out settings = .ok after ∧
        List.Forall₂ (Token.RenamedTo rewrites) (placeAll Position.start items) after) ↔
      out.utf8ByteSize ≤ maxSourceLength ∧ ∀ rewrite ∈ rewrites, rewrite.StandsApart source := by
  have sequence : Sequence settings (olds (dealt (nameAt? rewrites) Position.start items)) := by
    rw [olds_dealt]
    exact rewritten.sequence
  have readAll := sequence_news_iff sequence rewritten.named none fun touch => by
    cases touch.1
  rw [rewritten.standsApart_iff, readAll]
  constructor
  · rintro ⟨after, read, agrees⟩
    obtain ⟨fits, others, again, split, rfl⟩ := tokenize_eq_ok_iff.mp read
    have same := news_of_agrees sequence rewritten.named again (split.symm.trans text)
      (forall₂_agrees_iff.mp agrees)
    exact ⟨fits, (fun touch => nomatch touch.1), same ▸ again⟩
  · rintro ⟨fits, _, again⟩
    exact ⟨_, tokenize_eq_ok_iff.mpr ⟨fits, _, again, text, rfl⟩,
      forall₂_agrees_iff.mpr (agrees_news _)⟩

end Rewritten

/-- After a renaming, the tokens of the new text are those of the source with one identifier of the
new name in the place of each rewritten identifier, if and only if the new text is not too long and
each new name stands apart: a name that was written without quotes gets none if it has only
characters of names, so it must be no keyword, and must not be a letter that makes a literal of the
string behind it; else it gets backticks, and must touch no other backticks. -/
theorem renameTables_retokenizes (source : String) (settings : Settings) (parsed : ParsedStatement)
    (accepted : parseStatement source settings = .ok parsed) (rename : TableName → Option String) :
    renameSplices parsed.statement rename =
        (parsed.statement.rewrites rename).map Rewrite.splice ∧
      ∃ tokens out, tokenize source settings = .ok tokens ∧
        renameTables source parsed.statement rename = .ok out ∧
        (∀ rewrite ∈ parsed.statement.rewrites rename, ∃ token ∈ tokens,
          rewrite.ident.ReadFrom token ∧
            nameAt? (parsed.statement.rewrites rename) token.span = some rewrite.newName) ∧
        ((∃ after, tokenize out settings = .ok after ∧
            List.Forall₂ (Token.RenamedTo (parsed.statement.rewrites rename)) tokens after) ↔
          out.utf8ByteSize ≤ maxSourceLength ∧
            ∀ rewrite ∈ parsed.statement.rewrites rename, rewrite.StandsApart source) := by
  obtain ⟨splices, nodup, offered⟩ := rewrites_offered accepted rename
  have unfailed := ((parseStatement_eq_ok source settings).mp accepted).1
  have read := tokenize_eq_ok.mpr ⟨unfailed, ofSource_whole source settings⟩
  obtain ⟨_, items, sequence, split, placed⟩ := tokenize_eq_ok_iff.mp read
  have ahead : (Spot.ofSource source settings).ahead = (placeAll Position.start items).dropLast := by
    rw [← placed, List.dropLast_concat]
  have rewritten : Rewritten source settings items (parsed.statement.rewrites rename) :=
    ⟨sequence, split, nodup, fun rewrite member => ahead ▸ offered rewrite member⟩
  obtain ⟨out, applied, text⟩ := rewritten.applySplices_eq
  rw [placed] at read
  refine ⟨splices, _, out, read, by rw [renameTables, splices, applied], ?_,
    rewritten.tokenize_iff text⟩
  intro rewrite member
  obtain ⟨token, found, from_⟩ := rewritten.offered rewrite member
  exact ⟨token, List.dropLast_subset _ found, from_,
    (nameAt?_eq_some_iff nodup).mpr ⟨rewrite, member, from_.1, rfl⟩⟩

/-- The new name `order` is written without quotes, and then it is a keyword. -/
theorem renameTables_to_keyword :
    ∃ parsed tokens, parseStatement "SELECT a FROM t" {} = .ok parsed ∧
      tokenize "SELECT a FROM t" {} = .ok tokens ∧
      renameTables "SELECT a FROM t" parsed.statement (fun _ => some "order") =
        .ok "SELECT a FROM order" ∧
      ¬ ∃ after, tokenize "SELECT a FROM order" {} = .ok after ∧
        List.Forall₂ (Token.RenamedTo (parsed.statement.rewrites fun _ => some "order")) tokens
          after := by
  obtain ⟨parsed, accepted, written, touches⟩ := @exists_parsed "SELECT a FROM t" {}
    (fun parsed =>
      (renameTables "SELECT a FROM t" parsed.statement (fun _ => some "order")).toOption =
        some "SELECT a FROM order" ∧
      ∃ rewrite ∈ parsed.statement.rewrites fun _ => some "order",
        ¬ rewrite.StandsApart "SELECT a FROM t") _ _ rfl (by decide +kernel)
  obtain ⟨_, tokens, out, read, renamed, _, same⟩ :=
    renameTables_retokenizes _ _ parsed accepted fun _ => some "order"
  rw [renamed] at written
  obtain rfl : out = "SELECT a FROM order" := Option.some.inj written
  refine ⟨parsed, tokens, accepted, read, renamed, fun agrees => ?_⟩
  obtain ⟨rewrite, member, near⟩ := touches
  exact near ((same.mp agrees).2 rewrite member)

end SqlDml
