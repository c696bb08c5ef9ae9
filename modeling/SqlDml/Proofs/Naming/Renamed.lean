import Mathlib.Data.List.Nodup
import SqlDml.Naming.Rename
import SqlDml.Proofs.Naming.Spliced
import SqlDml.Proofs.Parsing.Entry
import SqlDml.Proofs.Reading.Statements

/-!
Contract: renaming tables in the source of a parsed statement.

Owns:
- that table names and qualifiers stand for tokens of the source, each for another one;
- which splices rename the tables, and that they can be applied;
- the text of a qualifier after the renaming.

Does not own: which qualifiers name which table.
-/

namespace SqlDml

open Text

namespace Visit

def ident? : Visit → Option Ident
  | .ident name => some name
  | _ => none

/-- The identifier by which a stop names a table. -/
def tableIdent? : Visit → Option Ident
  | .tableName name => some name.table
  | .qualifier _ table => some table
  | _ => none

theorem filterMap_ident?_idents (names : List Ident) : (idents names).filterMap ident? = names := by
  rw [idents, List.filterMap_map]
  exact List.filterMap_some

theorem filterMap_tableIdent?_idents (names : List Ident) :
    (idents names).filterMap tableIdent? = [] := by
  simp [idents, tableIdent?]

end Visit

/-! ### The places of names -/

namespace Read

variable {visits : List Visit} {spot later : Spot}

/-- Each identifier that is read is a token of its own. -/
theorem idents (read : Read visits spot later) :
    ∃ tokens, spot.ahead = tokens ++ later.ahead ∧
      ((visits.filterMap Visit.ident?).map Ident.span).Subperm (tokens.map Token.span) := by
  induction read with
  | nothing spot => exact ⟨[], rfl, .refl _⟩
  | @passed spot plain =>
      obtain ⟨tokens, split, _⟩ := spot.ahead_next
      exact ⟨tokens, split, List.nil_subperm⟩
  | @name spot name inner _ stands =>
      refine ⟨[spot.token 0], Spot.ahead_of_inner inner, ?_⟩
      simp [Visit.ident?, stands.place]
  | @marker spot marked =>
      have inner : spot.kind ≠ .endOfInput := by simp [marked]
      exact ⟨[spot.token 0], Spot.ahead_of_inner inner, List.nil_subperm⟩
  | @literal value span spot later tokens takes _ =>
      exact ⟨tokens, takes.through.split, List.nil_subperm⟩
  | @append left right first middle last _ _ front back =>
      obtain ⟨tokens, split, same⟩ := front
      obtain ⟨more, splitMore, sameMore⟩ := back
      refine ⟨tokens ++ more, by rw [split, splitMore, List.append_assoc], ?_⟩
      rw [List.filterMap_append, List.map_append, List.map_append]
      exact same.append sameMore
  | @node visit visits spot later node _ inductionHypothesis =>
      have unnamed : visit.ident? = none := by
        cases visit <;> first | rfl | cases node
      rwa [List.filterMap_cons_none unnamed]
  | @cast operand target spot middle later tokens _ takes _ inductionHypothesis =>
      obtain ⟨front, split, same⟩ := inductionHypothesis
      refine ⟨front ++ tokens, ?_, ?_⟩
      · rw [split, takes.through.split, List.append_assoc]
      · rw [List.map_append]
        exact same.trans (List.sublist_append_left _ _).subperm
  | tableName _ _ inductionHypothesis => exact inductionHypothesis
  | qualifier _ _ inductionHypothesis => exact inductionHypothesis
  | @swap left right spot later _ _ inductionHypothesis =>
      obtain ⟨tokens, split, same⟩ := inductionHypothesis
      refine ⟨tokens, split, ?_⟩
      rw [List.filterMap_append] at same ⊢
      exact (List.perm_append_comm.map _).subperm.trans same

/-- The identifiers of tables and qualifiers are identifiers of their own. -/
theorem tableIdents (read : Read visits spot later) :
    (visits.filterMap Visit.tableIdent?).Subperm (visits.filterMap Visit.ident?) := by
  induction read with
  | nothing spot => exact .refl _
  | passed plain => exact .refl _
  | name _ _ _ => exact List.nil_subperm
  | marker marked => exact .refl _
  | literal _ _ => exact .refl _
  | append _ _ front back =>
      rw [List.filterMap_append, List.filterMap_append]
      exact front.append back
  | @node visit visits spot later node _ inductionHypothesis =>
      have unnamed : visit.ident? = none ∧ visit.tableIdent? = none := by
        cases visit <;> first | exact ⟨rfl, rfl⟩ | cases node
      rwa [List.filterMap_cons_none unnamed.1, List.filterMap_cons_none unnamed.2]
  | cast _ _ _ inductionHypothesis => exact inductionHypothesis
  | @tableName name spot later _ _ _ =>
      simp [TableName.visits, Visit.filterMap_ident?_idents, Visit.filterMap_tableIdent?_idents,
        List.filterMap_cons, Visit.tableIdent?, Visit.ident?]
  | @qualifier schema table spot later _ _ _ =>
      simp [Visit.ofQualifier, Visit.filterMap_ident?_idents, Visit.filterMap_tableIdent?_idents,
        List.filterMap_cons, Visit.tableIdent?, Visit.ident?]
  | @swap left right spot later leaves _ inductionHypothesis =>
      rw [List.filterMap_append] at inductionHypothesis ⊢
      rw [List.filterMap_append] at inductionHypothesis ⊢
      exact List.perm_append_comm.subperm.trans
        (inductionHypothesis.trans List.perm_append_comm.subperm)

end Read

/-- The identifiers of the tables and of the qualifiers of a statement. -/
def Statement.tableIdents (statement : Statement) : List Ident :=
  statement.tableNames.map TableName.table ++ statement.qualifiers.map Prod.snd

/-- Table names and qualifiers are collected apart. -/
theorem Statement.tableIdents_perm (statement : Statement) :
    statement.tableIdents.Perm (statement.visits.filterMap Visit.tableIdent?) := by
  unfold Statement.tableIdents Statement.tableNames Statement.qualifiers
  induction statement.visits with
  | nil => exact .refl _
  | cons visit visits inductionHypothesis =>
      cases visit with
      | tableName name => exact inductionHypothesis.cons name.table
      | qualifier schema table =>
          exact List.perm_middle.trans (inductionHypothesis.cons table)
      | _ => exact inductionHypothesis

variable {source : String} {settings : Settings} {parsed : ParsedStatement}

/-- The names of tables and the qualifiers of a statement lie in its source. -/
theorem tableIdents_laid (accepted : parseStatement source settings = .ok parsed) :
    ∃ spans, Laid 0 source.toList spans ∧
      (parsed.statement.tableIdents.map Ident.span).Subperm spans := by
  obtain ⟨later, read, _⟩ := read_of_parseStatement accepted
  obtain ⟨tokens, split, places⟩ := read.idents
  have laid := laid_ofSource source settings
  rw [split, List.map_append] at laid
  refine ⟨tokens.map Token.span, laid.sublist (List.sublist_append_left _ _), ?_⟩
  obtain ⟨named, same, part⟩ :=
    parsed.statement.tableIdents_perm.subperm.trans read.tableIdents
  exact List.Subperm.trans ⟨_, same.map Ident.span, part.map Ident.span⟩ places

/-! ### The splices of a renaming -/

/-- What is read off some entries of a list is part of what is read off all of them. -/
theorem map_filterMap_sublist {α β γ : Type} {choose : α → Option β} {read : β → γ} {full : α → γ}
    (same : ∀ item found, choose item = some found → read found = full item) (items : List α) :
    ((items.filterMap choose).map read).Sublist (items.map full) := by
  induction items with
  | nil => exact .slnil
  | cons item items inductionHypothesis =>
      cases chosen : choose item with
      | none =>
          rw [List.filterMap_cons_none chosen]
          exact inductionHypothesis.cons _
      | some found =>
          rw [List.filterMap_cons_some chosen, List.map_cons, List.map_cons, same item found chosen]
          exact inductionHypothesis.cons_cons _

/-- The splice of one qualifier. -/
def qualifierSplice? (aliases : List Ident) (renamed : List Renaming)
    (qualifier : Option Ident × Ident) : Option Splice :=
  (newQualifier? aliases renamed qualifier.1 qualifier.2).map fun newName =>
    ⟨qualifier.2.span, qualifier.2.requote newName⟩

/-- Qualifiers at different places are all spliced. -/
theorem qualifierSplices_eq (aliases : List Ident) (renamed : List Renaming) (seen : List Nat)
    {qualifiers : List (Option Ident × Ident)}
    (distinct : qualifiers.Pairwise fun left right => left.2.span.start ≠ right.2.span.start)
    (unseen : ∀ qualifier ∈ qualifiers, qualifier.2.span.start ∉ seen) :
    qualifierSplices aliases renamed seen qualifiers =
      qualifiers.filterMap (qualifierSplice? aliases renamed) := by
  induction qualifiers generalizing seen with
  | nil => rfl
  | cons qualifier qualifiers inductionHypothesis =>
      obtain ⟨schema, table⟩ := qualifier
      obtain ⟨apart, distinct⟩ := List.pairwise_cons.mp distinct
      obtain ⟨fresh, unseen⟩ := List.forall_mem_cons.mp unseen
      rw [qualifierSplices]
      cases chosen : newQualifier? aliases renamed schema table with
      | none =>
          have skipped : qualifierSplice? aliases renamed (schema, table) = none := by
            rw [qualifierSplice?, chosen, Option.map_none]
          rw [List.filterMap_cons_none skipped]
          exact inductionHypothesis seen distinct unseen
      | some newName =>
          have spliced : qualifierSplice? aliases renamed (schema, table) =
              some ⟨table.span, table.requote newName⟩ := by
            rw [qualifierSplice?, chosen, Option.map_some]
          have unmet : seen.contains table.span.start = false := by simpa using fresh
          rw [List.filterMap_cons_some spliced]
          simp only [unmet, Bool.false_eq_true, if_false]
          refine congrArg _ (inductionHypothesis _ distinct fun qualifier member => ?_)
          exact List.not_mem_cons_of_ne_of_not_mem (apart qualifier member).symm
            (unseen qualifier member)

/-- The splice of a renamed table. -/
def Renaming.splice (entry : Renaming) : Splice :=
  ⟨entry.name.table.span, entry.name.table.requote entry.newName⟩

namespace Statement

variable (statement : Statement) (rename : TableName → Option String)

/-- The splices of the qualifiers of a statement, wherever they stand. -/
def qualifierSplices : List Splice :=
  statement.qualifiers.filterMap
    (qualifierSplice? statement.aliases (renamings statement rename))

/-- The splices are at some of the tables and the qualifiers of the statement, in their order. -/
theorem map_span_sublist :
    (((renamings statement rename).map Renaming.splice ++ statement.qualifierSplices rename).map
      Splice.span).Sublist (statement.tableIdents.map Ident.span) := by
  rw [List.map_append, tableIdents, List.map_append, List.map_map, List.map_map, List.map_map]
  refine .append (map_filterMap_sublist (fun name entry chosen => ?_) _)
    (map_filterMap_sublist (fun qualifier splice chosen => ?_) _)
  · obtain ⟨newName, _, rfl⟩ := Option.map_eq_some_iff.mp chosen
    rfl
  · obtain ⟨newName, _, rfl⟩ := Option.map_eq_some_iff.mp chosen
    rfl

variable {statement} {spans : List Span} {chars : List Char} {offset : Nat}

/-- Names at places of their own are named once. -/
theorem nodup_of_laid (laid : Laid offset chars spans)
    (places : (statement.tableIdents.map Ident.span).Subperm spans) :
    (statement.tableIdents.map Ident.span).Nodup := by
  obtain ⟨part, same, sublist⟩ := places
  exact same.nodup_iff.mp (laid.nodup.sublist sublist)

theorem renameSplices_eq (laid : Laid offset chars spans)
    (places : (statement.tableIdents.map Ident.span).Subperm spans) :
    renameSplices statement rename =
      (renamings statement rename).map Renaming.splice ++ statement.qualifierSplices rename := by
  have nodup := nodup_of_laid laid places
  rw [tableIdents, List.map_append, List.map_map, List.map_map] at nodup
  have apart := List.pairwise_map.mp (List.nodup_append.mp nodup).2.1
  have distinct : statement.qualifiers.Pairwise fun left right =>
      left.2.span.start ≠ right.2.span.start := by
    refine apart.imp_of_mem fun leftMember rightMember different same => different ?_
    have inside : ∀ qualifier ∈ statement.qualifiers, qualifier.2.span ∈ spans := by
      intro qualifier member
      refine places.subset (List.mem_map_of_mem ?_)
      exact List.mem_append_right _ (List.mem_map_of_mem member)
    exact laid.eq_of_start (inside _ leftMember) (inside _ rightMember) same
  exact congrArg _ (SqlDml.qualifierSplices_eq _ _ [] distinct (by simp))

/-- A qualifier that has no new name is at the place of no splice. -/
theorem unspliced (nodup : (statement.tableIdents.map Ident.span).Nodup) {schema : Option Ident}
    {table : Ident} (member : (schema, table) ∈ statement.qualifiers)
    (kept : newQualifier? statement.aliases (renamings statement rename) schema table = none) :
    table.span ∉ ((renamings statement rename).map Renaming.splice ++
      statement.qualifierSplices rename).map Splice.span := by
  rw [tableIdents, List.map_append, List.map_map, List.map_map] at nodup
  obtain ⟨_, distinct, apart⟩ := List.nodup_append.mp nodup
  have here : table.span ∈ statement.qualifiers.map (Ident.span ∘ Prod.snd) :=
    List.mem_map_of_mem (f := Ident.span ∘ Prod.snd) member
  rw [List.map_append, List.mem_append]
  rintro (found | found)
  · -- a table is not at the place of a qualifier
    rw [List.map_map] at found
    obtain ⟨entry, renamed, place⟩ := List.mem_map.mp found
    obtain ⟨name, inside, chosen⟩ := List.mem_filterMap.mp renamed
    obtain ⟨newName, _, rfl⟩ := Option.map_eq_some_iff.mp chosen
    exact apart _ (List.mem_map_of_mem (f := Ident.span ∘ TableName.table) inside) _ here place
  · -- another qualifier is not at the place of this one
    obtain ⟨splice, spliced, place⟩ := List.mem_map.mp found
    obtain ⟨other, inside, chosen⟩ := List.mem_filterMap.mp spliced
    obtain ⟨newName, given, rfl⟩ := Option.map_eq_some_iff.mp chosen
    have same : other = (schema, table) :=
      List.inj_on_of_nodup_map distinct inside member place
    rw [same, kept] at given
    cases given

end Statement

/-- Renaming the tables of a parsed statement in its source does not fail, and each qualifier that
has a new name then reads so; any other qualifier keeps its text. -/
theorem renamed_qualifier (accepted : parseStatement source settings = .ok parsed)
    (rename : TableName → Option String) {schema : Option Ident} {table : Ident}
    (member : (schema, table) ∈ parsed.statement.qualifiers) :
    ∃ out text, renameTables source parsed.statement rename = .ok out ∧
      table.span.slice? source.toList = some text ∧
      Splice.Stands (renameSplices parsed.statement rename) table.span.start
        (((newQualifier? parsed.statement.aliases (renamings parsed.statement rename) schema
          table).map fun newName => (table.requote newName).toList).getD text) out := by
  obtain ⟨spans, laid, places⟩ := tableIdents_laid accepted
  have splices := Statement.renameSplices_eq rename laid places
  have spliced : ((renameSplices parsed.statement rename).map Splice.span).Subperm spans := by
    rw [splices]
    exact (parsed.statement.map_span_sublist rename).subperm.trans places
  have inside : table.span ∈ spans := by
    refine places.subset (List.mem_map_of_mem ?_)
    exact List.mem_append_right _ (List.mem_map_of_mem (f := Prod.snd) member)
  obtain ⟨text, slice⟩ := laid.slice? inside
  cases chosen : newQualifier? parsed.statement.aliases (renamings parsed.statement rename) schema
      table with
  | none =>
      have absent := Statement.unspliced rename (Statement.nodup_of_laid laid places) member chosen
      rw [← splices] at absent
      obtain ⟨out, inner, applied, same, stands⟩ :=
        Splice.slice_of_kept laid spliced inside absent
      exact ⟨out, inner, applied, same, stands⟩
  | some newName =>
      have present : ⟨table.span, table.requote newName⟩ ∈
          renameSplices parsed.statement rename := by
        rw [splices]
        refine List.mem_append_right _ (List.mem_filterMap.mpr ⟨_, member, ?_⟩)
        rw [qualifierSplice?, chosen, Option.map_some]
      obtain ⟨out, applied, stands⟩ := Splice.slice_of_spliced laid spliced present
      exact ⟨out, text, applied, slice, stands⟩

/-! ### All splices of a renaming -/

/-- The splices of a renaming are at tokens of the source, each at another one. -/
theorem renameSplices_laid (accepted : parseStatement source settings = .ok parsed)
    (rename : TableName → Option String) :
    ∃ spans, Laid 0 source.toList spans ∧
      ((renameSplices parsed.statement rename).map Splice.span).Subperm spans := by
  obtain ⟨spans, laid, places⟩ := tableIdents_laid accepted
  refine ⟨spans, laid, ?_⟩
  rw [Statement.renameSplices_eq rename laid places]
  exact (parsed.statement.map_span_sublist rename).subperm.trans places

/-- A span of a text lies within it, between two characters at both ends. -/
theorem Laid.inside {chars : List Char} {spans : List Span} (laid : Laid 0 chars spans)
    {span : Span} (member : span ∈ spans) :
    span.start < span.stop ∧ span.stop ≤ byteCount chars ∧ isBoundary span.start chars = true ∧
      isBoundary span.stop chars = true := by
  obtain ⟨_, nonempty, within⟩ := laid.bounds member
  rw [Nat.zero_add] at within
  obtain ⟨front, back, rfl⟩ := List.append_of_mem member
  obtain ⟨before, inside, after, rfl, start, stop, _⟩ := laid.split
  rw [Nat.zero_add] at start
  have last : span.stop = byteCount (before ++ inside) := by rw [byteCount_append, stop, start]
  refine ⟨nonempty, within, ?_, ?_⟩
  · rw [start]
    exact Splice.isBoundary_append before _
  · rw [last, ← List.append_assoc]
    exact Splice.isBoundary_append _ after

/-- Renaming the tables of a parsed statement in its source never fails, whatever the new names are:
each splice is at a nonempty stretch of the source between two characters, and no two of them
overlap. -/
theorem renameTables_applies (source : String) (settings : Settings) (parsed : ParsedStatement)
    (accepted : parseStatement source settings = .ok parsed) (rename : TableName → Option String) :
    (∃ out, renameTables source parsed.statement rename = .ok out) ∧
      (∀ splice ∈ renameSplices parsed.statement rename,
        splice.span.start < splice.span.stop ∧ splice.span.stop ≤ source.utf8ByteSize ∧
          isBoundary splice.span.start source.toList = true ∧
          isBoundary splice.span.stop source.toList = true) ∧
      (renameSplices parsed.statement rename).Pairwise fun left right =>
        left.span.stop ≤ right.span.start ∨ right.span.stop ≤ left.span.start := by
  obtain ⟨spans, laid, places⟩ := renameSplices_laid accepted rename
  refine ⟨⟨_, Splice.applySplices_of_laid laid places⟩, fun splice member => ?_, ?_⟩
  · rw [utf8ByteSize_eq_byteCount]
    exact laid.inside (places.subset (List.mem_map_of_mem member))
  · obtain ⟨some, same, part⟩ := places
    have apart : some.Pairwise fun left right : Span =>
        left.stop ≤ right.start ∨ right.stop ≤ left.start :=
      (laid.pairwise.sublist part).imp Or.inl
    exact List.pairwise_map.mp ((same.pairwise_iff fun before => before.symm).mp apart)

/-- Two new names that need quotes, for the table of a delete and for a qualifier of its column. -/
theorem renameTables_applies_to_delete :
    ∃ parsed, parseStatement "DELETE t FROM t WHERE t.a = 1" {} = .ok parsed ∧
      ∃ out, renameTables "DELETE t FROM t WHERE t.a = 1" parsed.statement
        (fun name => some (name.table.value ++ "\x60 2")) = .ok out := by
  cases accepted : parseStatement "DELETE t FROM t WHERE t.a = 1" {} with
  | ok parsed => exact ⟨parsed, rfl, (renameTables_applies _ _ parsed accepted _).1⟩
  | error error =>
      have holds : (parseStatement "DELETE t FROM t WHERE t.a = 1" {}).toOption.isSome = true := by
        decide +kernel
      rw [accepted] at holds
      cases holds

end SqlDml
