import SqlDml.Proofs.Naming.Renamed
import SqlDml.Proofs.Trees.Nodes

/-!
Contract: which qualifiers a renaming of tables rewrites.

Owns:
- qualifiers, table names and aliases by where they stand within a statement;
- qualifiers that are named like an alias;
- qualifiers of a select block that name a table of the block itself.

Does not own: the text that a renaming leaves.
-/

namespace SqlDml

/-- The alias of a table reference, if it has one itself. -/
def TableRef.aliasName? : TableRef → Option Ident
  | .named table => table.aliasName
  | .derived _ aliasName _ => some aliasName
  | .joined _ _ _ _ _ | .parenthesized _ _ => none

namespace Statement

/-- The alias of the table of a delete over a single table, which is no table reference. -/
def deletedAlias? : Statement → Option Ident
  | .delete tree =>
      match tree.source with
      | .single table => table.aliasName
      | .multi _ _ => none
  | .select _ | .insert _ | .update _ => none

/-- A table reference anywhere in a statement has the alias. -/
def GivesAlias (statement : Statement) (aliasName : Ident) : Prop :=
  ∃ tree : TableRef, (Node.ref tree).Within (.statement statement) ∧
    tree.aliasName? = some aliasName

/-- An identifier is named like the alias of a table reference, the case of ASCII letters apart. -/
def Protects (statement : Statement) (table : Ident) : Prop :=
  ∃ aliasName, statement.GivesAlias aliasName ∧
    asciiLower aliasName.value = asciiLower table.value

variable {statement : Statement}

theorem mem_qualifiers_iff {schema : Option Ident} {table : Ident} :
    (schema, table) ∈ statement.qualifiers ↔
      ∃ node : Node, node.Within (.statement statement) ∧
        node.qualifier? = some (schema, table) := by
  have stop : ∀ visit : Visit, visit.qualifier? = some (schema, table) ↔
      visit = .qualifier schema table := by
    intro visit
    cases visit <;> simp [Visit.qualifier?]
  rw [← Node.qualifier_mem_visits_iff, qualifiers, List.mem_filterMap]
  simp [stop, Node.visits]

theorem mem_aliases_iff {aliasName : Ident} :
    aliasName ∈ statement.aliases ↔ statement.GivesAlias aliasName := by
  have stop : ∀ visit : Visit, visit.alias? = some aliasName ↔
      ∃ tree : TableRef, visit = .tableRef tree ∧ tree.aliasName? = some aliasName := by
    intro visit
    rcases visit with _ | _ | _ | (_ | _ | _ | _) | _ | _ | _ | _ | _ <;>
      simp [Visit.alias?, TableRef.aliasName?]
  simp only [aliases, List.mem_filterMap, stop, GivesAlias, ← Node.tableRef_mem_visits_iff]
  constructor
  · rintro ⟨_, member, tree, rfl, named⟩
    exact ⟨tree, member, named⟩
  · rintro ⟨tree, member, named⟩
    exact ⟨_, member, tree, rfl, named⟩

theorem mem_tableNames_iff {name : TableName} :
    name ∈ statement.tableNames ↔ (Node.tableName name).Within (.statement statement) := by
  have stop : ∀ visit : Visit, visit.tableName? = some name ↔ visit = .tableName name := by
    intro visit
    cases visit <;> simp [Visit.tableName?]
  rw [← Node.tableName_mem_visits_iff, tableNames, List.mem_filterMap]
  simp [stop, Node.visits]

theorem protects_iff {table : Ident} :
    statement.Protects table ↔
      ∃ aliasName ∈ statement.aliases, asciiLower aliasName.value = asciiLower table.value := by
  simp only [Protects, mem_aliases_iff]

instance (table : Ident) : Decidable (statement.Protects table) :=
  decidable_of_iff _ protects_iff.symm

theorem newQualifier?_of_protects {table : Ident} (protect : statement.Protects table)
    (renamed : List Renaming) (schema : Option Ident) :
    newQualifier? statement.aliases renamed schema table = none := by
  obtain ⟨aliasName, given, same⟩ := protects_iff.mp protect
  refine if_pos (List.any_eq_true.mpr ⟨aliasName, given, ?_⟩)
  exact beq_iff_eq.mpr same

theorem newQualifier?_of_not_protects {table : Ident} (free : ¬ statement.Protects table)
    (renamed : List Renaming) (schema : Option Ident) :
    newQualifier? statement.aliases renamed schema table =
      (renamed.find? fun entry => entry.matchesQualifier schema table).map Renaming.newName := by
  refine if_neg fun found => free (protects_iff.mpr ?_)
  obtain ⟨aliasName, member, same⟩ := List.any_eq_true.mp found
  exact ⟨aliasName, member, beq_iff_eq.mp same⟩

end Statement

/-- The first renamed table that a qualifier without a schema names is the first table of that name
that is renamed. -/
theorem find?_renamings (statement : Statement) (rename : TableName → Option String)
    (table : Ident) :
    ((renamings statement rename).find? fun entry => entry.matchesQualifier none table) =
      (statement.tableNames.find? fun name =>
        name.table.value == table.value && (rename name).isSome).bind fun name =>
          (rename name).map (Renaming.mk name) := by
  rw [renamings, List.find?_filterMap]
  congr 2
  funext name
  cases rename name <;> simp [Renaming.matchesQualifier]

variable {source : String} {settings : Settings} {parsed : ParsedStatement}

/-- A qualifier that is named like an alias keeps its text, the case of ASCII letters apart, if a
table reference has the alias.  Only the table of a delete over a single table does not protect its
alias: a qualifier of that name takes the new name of the first renamed table that it names. -/
theorem alias_qualifier_kept (accepted : parseStatement source settings = .ok parsed)
    (rename : TableName → Option String) {node : Node} {schema : Option Ident} {table : Ident}
    (inside : node.Within (.statement parsed.statement))
    (qualified : node.qualifier? = some (schema, table)) {aliasName : Ident}
    (same : asciiLower aliasName.value = asciiLower table.value)
    (aliased : parsed.statement.GivesAlias aliasName ∨
      parsed.statement.deletedAlias? = some aliasName) :
    ∃ out text, renameTables source parsed.statement rename = .ok out ∧
      table.span.slice? source.toList = some text ∧
      (parsed.statement.Protects table →
        Splice.Stands (renameSplices parsed.statement rename) table.span.start text out) ∧
      (¬ parsed.statement.Protects table →
        parsed.statement.deletedAlias? = some aliasName ∧
        Splice.Stands (renameSplices parsed.statement rename) table.span.start
          ((((renamings parsed.statement rename).find? fun entry =>
            entry.matchesQualifier schema table).map fun entry =>
              (table.requote entry.newName).toList).getD text) out) := by
  have member := Statement.mem_qualifiers_iff.mpr ⟨node, inside, qualified⟩
  obtain ⟨out, text, renamed, slice, stands⟩ := renamed_qualifier accepted rename member
  refine ⟨out, text, renamed, slice, fun protect => ?_, fun free => ⟨?_, ?_⟩⟩
  · rwa [Statement.newQualifier?_of_protects protect] at stands
  · exact aliased.resolve_left fun given => free ⟨aliasName, given, same⟩
  · rw [Statement.newQualifier?_of_not_protects free, Option.map_map] at stands
    exact stands

/-- The alias of the table of a delete reads like the renamed table of a subquery. -/
theorem deleted_alias_rewritten :
    ∃ parsed table aliasName out,
      parseStatement "DELETE FROM t AS a WHERE a.x IN (SELECT 1 FROM a)" {} = .ok parsed ∧
      (none, table) ∈ parsed.statement.qualifiers ∧
      parsed.statement.deletedAlias? = some aliasName ∧ aliasName.value = table.value ∧
      renameTables "DELETE FROM t AS a WHERE a.x IN (SELECT 1 FROM a)" parsed.statement
        (fun name => if name.table.value = "a" then some "b" else none) = .ok out ∧
      table.span.slice? "DELETE FROM t AS a WHERE a.x IN (SELECT 1 FROM a)".toList = some ['a'] ∧
      Splice.Stands (renameSplices parsed.statement
        fun name => if name.table.value = "a" then some "b" else none) table.span.start ['b']
        out := by
  let rename : TableName → Option String :=
    fun name => if name.table.value = "a" then some "b" else none
  obtain ⟨parsed, accepted, qualifier, member, schema, ⟨aliasName, deleted, same⟩, free, first, text⟩ :=
    @exists_parsed "DELETE FROM t AS a WHERE a.x IN (SELECT 1 FROM a)" {}
      (fun parsed => ∃ qualifier ∈ parsed.statement.qualifiers, qualifier.1 = none ∧
        (∃ aliasName ∈ parsed.statement.deletedAlias?, aliasName.value = qualifier.2.value) ∧
        ¬ parsed.statement.Protects qualifier.2 ∧
        ((renamings parsed.statement rename).find? fun entry =>
          entry.matchesQualifier none qualifier.2).map (fun entry =>
            (qualifier.2.requote entry.newName).toList) = some ['b'] ∧
        qualifier.2.span.slice? "DELETE FROM t AS a WHERE a.x IN (SELECT 1 FROM a)".toList =
          some ['a']) _ _ rfl (by decide +kernel)
  obtain ⟨_, table⟩ := qualifier
  obtain rfl : _ = none := schema
  obtain ⟨node, inside, qualified⟩ := Statement.mem_qualifiers_iff.mp member
  obtain ⟨out, _, renamed, _, _, rewritten⟩ :=
    alias_qualifier_kept accepted rename inside qualified (congrArg asciiLower same) (.inr deleted)
  have stands := (rewritten free).2
  rw [first] at stands
  exact ⟨parsed, table, aliasName, out, accepted, member, deleted, same, renamed, text, stands⟩

/-! ### Qualifiers of a select block -/

/-- An identifier is the name of exactly one table without alias in the `FROM` of a select block
itself, and no alias there is the same. -/
structure SelectCore.Names (core : SelectCore) (table : Ident) (named : NamedTable) : Prop where
  own : (Node.table named).OwnedBy (.core core)
  unaliased : named.aliasName = none
  sameName : named.name.table.value = table.value
  only : ∀ other : NamedTable, (Node.table other).OwnedBy (.core core) → other.aliasName = none →
    other.name.table.value = table.value → other = named
  free : ∀ tree : TableRef, (Node.ref tree).OwnedBy (.core core) → ∀ aliasName ∈ tree.aliasName?,
    aliasName.value ≠ table.value

/-- The select block, the column and the table of a statement that selects one column of one table,
with one subquery: under the condition that it has rows, or as a second item. -/
def Statement.single? : Statement → Option (SelectCore × ColumnRef × NamedTable)
  | .select ⟨_, ⟨.select ⟨modifiers, [.expr (.column ref) aliasName place], [.named named],
      some (.exists rows rowsPlace), [], rollup, none, corePlace⟩, _, _⟩, _, _, _, _⟩ =>
      some (⟨modifiers, [.expr (.column ref) aliasName place], [.named named],
        some (.exists rows rowsPlace), [], rollup, none, corePlace⟩, ref, named)
  | .select ⟨_, ⟨.select ⟨modifiers, [.expr (.column ref) aliasName place,
      .expr (.subquery rows rowsPlace) rowsName itemPlace], [.named named], none, [], rollup, none,
      corePlace⟩, _, _⟩, _, _, _, _⟩ =>
      some (⟨modifiers, [.expr (.column ref) aliasName place,
        .expr (.subquery rows rowsPlace) rowsName itemPlace], [.named named], none, [], rollup, none,
        corePlace⟩, ref, named)
  | _ => none

/-- The column of such a statement has a qualifier of the block, which names the table. -/
theorem own_of_single {statement : Statement} {core : SelectCore} {ref : ColumnRef}
    {named : NamedTable} (single : (core, ref, named) ∈ statement.single?) {table : Ident}
    (owner : table ∈ ref.table) (schema : ref.schema = none) (unaliased : named.aliasName = none)
    (sameName : named.name.table.value = table.value) :
    (Node.core core).Within (.statement statement) ∧ (Node.column ref).OwnedBy (.core core) ∧
      (Node.column ref).qualifier? = some (none, table) ∧ core.Names table named := by
  have qualified : (Node.column ref).qualifier? = some (none, table) := by
    simp_all [Node.qualifier?]
  unfold Statement.single? at single
  split at single
  case h_3 => cases single
  all_goals
    cases single
    refine ⟨((Node.within_self _).step (by simp)).step (List.mem_singleton_self _), ?_, qualified,
      ?_, unaliased, sameName, ?_, ?_⟩
    all_goals
      simp [Node.ownedBy_iff, Node.ownedAmong_cons, Node.ownedAmong_nil, Node.isQuery,
        TableRef.aliasName?, *]

/-- A text that stands in no result stands in none that there is. -/
theorem not_exists_of_missed {result : Except SpliceError String} {stands : String → Prop}
    (missed : ∀ out ∈ result.toOption, ¬ stands out) : ¬ ∃ out, result = .ok out ∧ stands out := by
  rintro ⟨out, rfl, inside⟩
  exact missed out rfl inside

/-- A qualifier of a select block takes the new name of the table of the block that it names, if no
alias anywhere in the statement is named alike, the case of ASCII letters apart, and if the first
table of that name in the whole statement that is renamed takes the same new name. -/
theorem own_qualifier_renamed (accepted : parseStatement source settings = .ok parsed)
    (rename : TableName → Option String) {core : SelectCore}
    (inside : (Node.core core).Within (.statement parsed.statement)) {node : Node} {table : Ident}
    (own : node.OwnedBy (.core core)) (qualified : node.qualifier? = some (none, table))
    {named : NamedTable} (names : core.Names table named) {newName : String}
    (renamed : rename named.name = some newName)
    (unprotected : ¬ parsed.statement.Protects table)
    (first : ∀ name, (parsed.statement.tableNames.find? fun name =>
      name.table.value == table.value && (rename name).isSome) = some name →
        rename name = some newName) :
    ∃ out, renameTables source parsed.statement rename = .ok out ∧
      Splice.Stands (renameSplices parsed.statement rename) table.span.start
        (table.requote newName).toList out := by
  have member := Statement.mem_qualifiers_iff.mpr ⟨node, own.within.trans inside, qualified⟩
  have listed : named.name ∈ parsed.statement.tableNames := by
    have below : (Node.tableName named.name).Within (.table named) :=
      (Node.within_self _).step (by simp)
    exact Statement.mem_tableNames_iff.mpr (below.trans (names.own.within.trans inside))
  obtain ⟨out, text, done, _, stands⟩ := renamed_qualifier accepted rename member
  refine ⟨out, done, ?_⟩
  obtain ⟨name, found⟩ : ∃ name, (parsed.statement.tableNames.find? fun name =>
      name.table.value == table.value && (rename name).isSome) = some name := by
    refine Option.isSome_iff_exists.mp (List.find?_isSome.mpr ⟨named.name, listed, ?_⟩)
    simp [names.sameName, renamed]
  have entry := find?_renamings parsed.statement rename table
  rw [found, Option.bind_some, first name found, Option.map_some] at entry
  rw [Statement.newQualifier?_of_not_protects unprotected, entry] at stands
  exact stands

/-- A qualifier of a block is renamed beside an alias that is not named alike. -/
theorem own_qualifier_renamed_beside_alias :
    ∃ parsed core node table named out,
      parseStatement "SELECT t.a FROM t WHERE EXISTS (SELECT 1 FROM u AS v)" {} = .ok parsed ∧
      (Node.core core).Within (.statement parsed.statement) ∧
      Node.OwnedBy node (.core core) ∧ node.qualifier? = some (none, table) ∧
      core.Names table named ∧ ¬ parsed.statement.Protects table ∧
      renameTables "SELECT t.a FROM t WHERE EXISTS (SELECT 1 FROM u AS v)" parsed.statement
        (fun name => if name.table.value = "t" then some "n" else none) = .ok out ∧
      Splice.Stands (renameSplices parsed.statement
        fun name => if name.table.value = "t" then some "n" else none) table.span.start
        (table.requote "n").toList out := by
  let rename : TableName → Option String :=
    fun name => if name.table.value = "t" then some "n" else none
  obtain ⟨parsed, accepted, ⟨core, ref, named⟩, single, table, owner, schema, unaliased, name, same,
      unprotected⟩ :=
    @exists_parsed "SELECT t.a FROM t WHERE EXISTS (SELECT 1 FROM u AS v)" {}
      (fun parsed => ∃ parts ∈ parsed.statement.single?, ∃ table ∈ parts.2.1.table,
        parts.2.1.schema = none ∧ parts.2.2.aliasName = none ∧
        parts.2.2.name.table.value = "t" ∧ parts.2.2.name.table.value = table.value ∧
        ¬ parsed.statement.Protects table) _ _ rfl (by decide +kernel)
  obtain ⟨inside, own, qualified, names⟩ := own_of_single single owner schema unaliased same
  have first : ∀ name, (parsed.statement.tableNames.find? fun name =>
      name.table.value == table.value && (rename name).isSome) = some name →
        rename name = some "n" := by
    intro name found
    have chosen := List.find?_some found
    simp only [rename, Bool.and_eq_true] at chosen ⊢
    split at chosen <;> simp_all
  obtain ⟨out, renamed, stands⟩ := own_qualifier_renamed accepted rename inside own qualified
    names (if_pos name) unprotected first
  exact ⟨parsed, core, .column ref, table, named, out, accepted, inside, own, qualified, names,
    unprotected, renamed, stands⟩

/-- A qualifier that names the table of its own block is not renamed with it in two cases: it keeps its
text if an alias of a nested query is named alike, and it takes another name if a table of a nested
query is named alike, stands in front and is renamed otherwise. -/
theorem own_qualifier_not_renamed :
    (∃ parsed core node table named,
      parseStatement "SELECT t.a FROM t WHERE EXISTS (SELECT 1 FROM u AS t)" {} = .ok parsed ∧
      (Node.core core).Within (.statement parsed.statement) ∧
      Node.OwnedBy node (.core core) ∧ node.qualifier? = some (none, table) ∧
      core.Names table named ∧ named.name.table.value = "t" ∧
      ¬ ∃ out,
        renameTables "SELECT t.a FROM t WHERE EXISTS (SELECT 1 FROM u AS t)" parsed.statement
          (fun name => if name.table.value = "t" then some "n" else none) = .ok out ∧
        Splice.Stands (renameSplices parsed.statement
          fun name => if name.table.value = "t" then some "n" else none) table.span.start
          (table.requote "n").toList out) ∧
    ∃ parsed core node table named,
      parseStatement "SELECT t.a, (SELECT 1 FROM s.t) FROM t" {} = .ok parsed ∧
      (Node.core core).Within (.statement parsed.statement) ∧
      Node.OwnedBy node (.core core) ∧ node.qualifier? = some (none, table) ∧
      core.Names table named ∧ named.name.schema = none ∧ ¬ parsed.statement.Protects table ∧
      ¬ ∃ out,
        renameTables "SELECT t.a, (SELECT 1 FROM s.t) FROM t" parsed.statement
          (fun name => some (if name.schema = none then "n" else "m")) = .ok out ∧
        Splice.Stands (renameSplices parsed.statement
          fun name => some (if name.schema = none then "n" else "m")) table.span.start
          (table.requote "n").toList out := by
  constructor
  · let rename : TableName → Option String :=
      fun name => if name.table.value = "t" then some "n" else none
    obtain ⟨parsed, accepted, ⟨core, ref, named⟩, single, table, owner, schema, unaliased, name, same,
        missed⟩ :=
      @exists_parsed "SELECT t.a FROM t WHERE EXISTS (SELECT 1 FROM u AS t)" {}
        (fun parsed => ∃ parts ∈ parsed.statement.single?, ∃ table ∈ parts.2.1.table,
          parts.2.1.schema = none ∧ parts.2.2.aliasName = none ∧
          parts.2.2.name.table.value = "t" ∧ parts.2.2.name.table.value = table.value ∧
          ∀ out ∈ (renameTables "SELECT t.a FROM t WHERE EXISTS (SELECT 1 FROM u AS t)"
            parsed.statement rename).toOption,
            ¬ Splice.Stands (renameSplices parsed.statement rename) table.span.start
              (table.requote "n").toList out) _ _ rfl (by decide +kernel)
    obtain ⟨inside, own, qualified, names⟩ := own_of_single single owner schema unaliased same
    exact ⟨parsed, core, .column ref, table, named, accepted, inside, own, qualified, names, name,
      not_exists_of_missed missed⟩
  · let rename : TableName → Option String :=
      fun name => some (if name.schema = none then "n" else "m")
    obtain ⟨parsed, accepted, ⟨core, ref, named⟩, single, table, owner, schema, unaliased, name, same,
        free, missed⟩ :=
      @exists_parsed "SELECT t.a, (SELECT 1 FROM s.t) FROM t" {}
        (fun parsed => ∃ parts ∈ parsed.statement.single?, ∃ table ∈ parts.2.1.table,
          parts.2.1.schema = none ∧ parts.2.2.aliasName = none ∧
          parts.2.2.name.schema = none ∧ parts.2.2.name.table.value = table.value ∧
          ¬ parsed.statement.Protects table ∧
          ∀ out ∈ (renameTables "SELECT t.a, (SELECT 1 FROM s.t) FROM t" parsed.statement
            rename).toOption,
            ¬ Splice.Stands (renameSplices parsed.statement rename) table.span.start
              (table.requote "n").toList out) _ _ rfl (by decide +kernel)
    obtain ⟨inside, own, qualified, names⟩ := own_of_single single owner schema unaliased same
    exact ⟨parsed, core, .column ref, table, named, accepted, inside, own, qualified, names, name,
      free, not_exists_of_missed missed⟩

end SqlDml
