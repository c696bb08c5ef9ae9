import SqlDml.Proofs.Reading.Kept
import SqlDml.Proofs.Spelling.Written

/-!
Contract: renaming every table to its own name.

Owns:
- that an identifier of a table or a qualifier is written back as the text that it was read from;
- splices that put back the text that they cover;
- that renaming each table to itself gives the source back, character by character.

Does not own: the text after other renamings.
-/

namespace SqlDml

open Text

variable {source : String} {settings : Settings} {parsed : ParsedStatement}

/-! ### The texts of tables and qualifiers -/

/-- An identifier that is read as a table or a qualifier is written back as the text that it was read
from. -/
theorem slice_of_tableIdents (accepted : parseStatement source settings = .ok parsed) {name : Ident}
    (member : name ∈ parsed.statement.tableIdents) :
    name.span.slice? source.toList = some name.render.toList := by
  obtain ⟨later, read, _⟩ := read_of_parseStatement accepted
  have unfailed := ((parseStatement_eq_ok source settings).mp accepted).1
  have laid := laid_ofSource source settings
  have inTree := parsed.statement.tableIdents_perm.mem_iff.mp member
  -- the token that the name stands for, told by its kind and by what it carries
  obtain ⟨token, ahead, place, named, _⟩ := read.offers inTree
  obtain ⟨tokens, split, _, kept⟩ := read.kept laid
  have inVisits : .ident name ∈ parsed.statement.visits := by
    obtain ⟨visit, found, same⟩ := List.mem_filterMap.mp (read.tableIdents.subset inTree)
    cases visit with
    | ident other =>
        cases same
        exact found
    | _ => cases same
  obtain ⟨other, ⟨among, span, parts⟩, _⟩ := kept.names name inVisits
  have inAhead : other ∈ (Spot.ofSource source settings).ahead :=
    split ▸ List.mem_append_left _ among
  obtain rfl := token_eq_of_span laid ahead inAhead (span.trans place)
  have inner : other.kind ≠ .endOfInput := by
    intro ended
    rw [ended] at named
    cases named
  have whole := tokenize_eq_ok.mpr ⟨unfailed, ofSource_whole source settings⟩
  obtain ⟨_, text, _, next, _, slice, spelled⟩ :=
    spelled_of_tokenize whole (List.mem_append_left _ inAhead) inner
  rw [place, slice, spelled.toList_render slice named parts]

/-! ### Splices that change nothing -/

/-- Splices that put back what they cover give the text back. -/
theorem Splice.applyFrom_unchanged {rest : List Char} {splices : List Splice} {offset : Nat}
    (laid : Laid offset rest (splices.map Splice.span)) (done : List Char)
    (start : offset = byteCount done)
    (same : ∀ splice ∈ splices,
      splice.span.slice? (done ++ rest) = some splice.replacement.toList) :
    Splice.applyFrom offset rest splices = rest := by
  induction splices generalizing offset rest done with
  | nil => rfl
  | cons splice splices inductionHypothesis =>
      rw [List.map_cons] at laid
      cases laid with
      | @span _ before inside after _ _ first last _ behind =>
          obtain ⟨here, others⟩ := List.forall_mem_cons.mp same
          have replaced : splice.replacement.toList = inside := by
            have covered := sliceBytes?_append (done ++ before) inside after
            rw [byteCount_append, ← start, ← first, ← last] at covered
            rw [Span.slice?, ← List.append_assoc done before, covered] at here
            exact (Option.some.inj here).symm
          have stops : splice.span.stop = byteCount (done ++ (before ++ inside)) := by
            rw [last, first, start, byteCount_append, byteCount_append, Nat.add_assoc]
          rw [applyFrom_cons first last, replaced,
            inductionHypothesis behind (done ++ (before ++ inside)) stops (by simpa using others),
            List.append_assoc]

/-- Splices at places of their own that put back what they cover give the source back. -/
theorem Splice.applySplices_unchanged {splices : List Splice} {spans : List Span}
    (laid : Laid 0 source.toList spans) (places : (splices.map Splice.span).Subperm spans)
    (same : ∀ splice ∈ splices,
      splice.span.slice? source.toList = some splice.replacement.toList) :
    applySplices source splices = .ok source := by
  have ordered := laid.sublist (sort_sublist laid places)
  have back := applyFrom_unchanged ordered [] rfl fun splice member =>
    same splice ((sort_perm splices).mem_iff.mp member)
  rw [applySplices_of_laid laid places, back, String.ofList_toList]

/-! ### Every table under its own name -/

/-- A renaming that gives each table its own name. -/
def ownName (name : TableName) : Option String := some name.table.value

/-- A qualifier names the tables that have its value, so their names are its own. -/
theorem newQualifier?_ownName {statement : Statement} {aliases : List Ident}
    {schema : Option Ident} {table : Ident} {newName : String}
    (given : newQualifier? aliases (renamings statement ownName) schema table = some newName) :
    newName = table.value := by
  unfold newQualifier? at given
  split at given
  · cases given
  · obtain ⟨entry, found, rfl⟩ := Option.map_eq_some_iff.mp given
    have named : entry.newName = entry.name.table.value := by
      obtain ⟨name, _, chosen⟩ := List.mem_filterMap.mp (List.mem_of_find?_eq_some found)
      obtain ⟨newName, own, rfl⟩ := Option.map_eq_some_iff.mp chosen
      exact (Option.some.inj own).symm
    have matched := List.find?_some found
    simp only [Renaming.matchesQualifier, Bool.and_eq_true, beq_iff_eq] at matched
    exact named.trans matched.1

/-- Each rewriting writes the identifier that is there. -/
theorem Statement.newName_of_rewrites {statement : Statement} {rewrite : Rewrite}
    (member : rewrite ∈ statement.rewrites ownName) : rewrite.newName = rewrite.ident.value := by
  rw [rewrites, List.mem_append] at member
  rcases member with table | qualifier
  · obtain ⟨entry, renamed, rfl⟩ := List.mem_map.mp table
    obtain ⟨name, _, chosen⟩ := List.mem_filterMap.mp renamed
    obtain ⟨newName, own, rfl⟩ := Option.map_eq_some_iff.mp chosen
    exact (Option.some.inj own).symm
  · obtain ⟨qualifier, _, chosen⟩ := List.mem_filterMap.mp qualifier
    obtain ⟨newName, given, rfl⟩ := Option.map_eq_some_iff.mp chosen
    exact newQualifier?_ownName given

/-- Renaming every table to itself gives the source back, character by character.  The identifier of
each table and each qualifier, written anew in its quotes, is the text that it was read from, and what
replaces a qualifier is its own value. -/
theorem renameTables_ownName (source : String) (settings : Settings) (parsed : ParsedStatement)
    (accepted : parseStatement source settings = .ok parsed) :
    renameTables source parsed.statement ownName = .ok source ∧
      (∀ name ∈ parsed.statement.tableNames, name.table.span.slice? source.toList =
        some (name.table.requote name.table.value).toList) ∧
      ∀ schema table, (schema, table) ∈ parsed.statement.qualifiers →
        table.span.slice? source.toList = some (table.requote table.value).toList ∧
          ∀ newName, newQualifier? parsed.statement.aliases
            (renamings parsed.statement ownName) schema table = some newName →
              newName = table.value := by
  refine ⟨?_, fun name member => ?_, fun schema table member => ⟨?_, fun newName => ?_⟩⟩
  · obtain ⟨spans, laid, places⟩ := renameSplices_laid accepted ownName
    refine Splice.applySplices_unchanged laid places fun splice member => ?_
    rw [(rewrites_offered accepted ownName).1] at member
    obtain ⟨rewrite, inside, rfl⟩ := List.mem_map.mp member
    have own := Statement.newName_of_rewrites inside
    rw [Rewrite.splice, own]
    exact slice_of_tableIdents accepted (Statement.ident_mem_of_rewrites inside)
  · exact slice_of_tableIdents accepted (List.mem_append_left _ (List.mem_map_of_mem member))
  · exact slice_of_tableIdents accepted
      (List.mem_append_right _ (List.mem_map_of_mem (f := Prod.snd) member))
  · exact newQualifier?_ownName

/-- A doubled quote, a keyword as a name, and a name with letters outside of ASCII. -/
theorem renameTables_ownName_of_quotes :
    ∃ parsed, parseStatement "SELECT \"a\"\"b\".x, Status.*, né.y FROM \"a\"\"b\", Status, né"
        { ansiQuotes := true } = .ok parsed ∧ parsed.statement.qualifiers.length = 3 ∧
      renameTables "SELECT \"a\"\"b\".x, Status.*, né.y FROM \"a\"\"b\", Status, né"
        parsed.statement ownName =
          .ok "SELECT \"a\"\"b\".x, Status.*, né.y FROM \"a\"\"b\", Status, né" := by
  obtain ⟨parsed, accepted, qualifiers⟩ := @exists_parsed
    "SELECT \"a\"\"b\".x, Status.*, né.y FROM \"a\"\"b\", Status, né" { ansiQuotes := true }
    (fun parsed => parsed.statement.qualifiers.length = 3) _ _ rfl (by decide +kernel)
  exact ⟨parsed, accepted, qualifiers, (renameTables_ownName _ _ parsed accepted).1⟩

end SqlDml
