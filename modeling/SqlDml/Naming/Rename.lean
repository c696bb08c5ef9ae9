import SqlDml.Naming.Splice
import SqlDml.Render.Quoting
import SqlDml.Traversal.Visit

/-!
Contract: renaming tables in the text of a statement.

Owns:
- the table names, column references, qualifiers and aliases of a statement, in order;
- which table names and qualifiers are replaced, and by what;
- the text with the new names, everything else left as it was written.

Does not own: the walk that meets the names, and applying the splices.
-/

namespace SqlDml

/-! ### Names of a statement -/

namespace Visit

def tableName? : Visit → Option TableName
  | .tableName name => some name
  | _ => none

def columnRef? : Visit → Option ColumnRef
  | .columnRef ref => some ref
  | _ => none

def qualifier? : Visit → Option (Option Ident × Ident)
  | .qualifier schema table => some (schema, table)
  | _ => none

/-- The alias of a table reference, if it has one itself. -/
def alias? : Visit → Option Ident
  | .tableRef (.named table) => table.aliasName
  | .tableRef (.derived _ aliasName _) => some aliasName
  | _ => none

end Visit

namespace Statement

/-- All names in the position of a table, those in nested queries included. -/
def tableNames (statement : Statement) : List TableName :=
  statement.visits.filterMap Visit.tableName?

/-- All column references. -/
def columnRefs (statement : Statement) : List ColumnRef :=
  statement.visits.filterMap Visit.columnRef?

/-- The schemas and tables in front of columns and wildcards. -/
def qualifiers (statement : Statement) : List (Option Ident × Ident) :=
  statement.visits.filterMap Visit.qualifier?

/-- The aliases of all table references. -/
def aliases (statement : Statement) : List Ident :=
  statement.visits.filterMap Visit.alias?

end Statement

/-! ### New names -/

/-- A table name and the new name of its table. -/
structure Renaming where
  name : TableName
  newName : String

/-- A new name in the quotes of the identifier that it replaces. -/
def Ident.requote (replaced : Ident) (value : String) : String :=
  ({ replaced with value := value } : Ident).render

/-- The letters of ASCII in small. -/
def asciiLower (text : String) : String := String.ofList (text.toList.map Char.toLower)

/-- The table names that are renamed, in order. -/
def renamings (statement : Statement) (rename : TableName → Option String) : List Renaming :=
  statement.tableNames.filterMap fun name => (rename name).map (Renaming.mk name)

/-- Whether a qualifier names the table of a renaming.  A qualifier with a schema needs that schema
in the table name. -/
def Renaming.matchesQualifier (entry : Renaming) (schema : Option Ident) (table : Ident) :
    Bool :=
  entry.name.table.value == table.value &&
    match schema with
    | none => true
    | some ident =>
        match entry.name.schema with
        | some tableSchema => tableSchema.value == ident.value
        | none => false

/-- The new name for a qualifier: none for an alias, else that of the first renamed table it names.
-/
def newQualifier? (aliases : List Ident) (renamed : List Renaming) (schema : Option Ident)
    (table : Ident) : Option String :=
  if aliases.any fun aliasName => asciiLower aliasName.value == asciiLower table.value then
    none
  else
    (renamed.find? fun entry => entry.matchesQualifier schema table).map Renaming.newName

/-- The splices for qualifiers; a place is spliced once. -/
def qualifierSplices (aliases : List Ident) (renamed : List Renaming) (seen : List Nat) :
    List (Option Ident × Ident) → List Splice
  | [] => []
  | (schema, table) :: qualifiers =>
      match newQualifier? aliases renamed schema table with
      | none => qualifierSplices aliases renamed seen qualifiers
      | some newName =>
          if seen.contains table.span.start then
            qualifierSplices aliases renamed seen qualifiers
          else
            ⟨table.span, table.requote newName⟩ ::
              qualifierSplices aliases renamed (table.span.start :: seen) qualifiers

/-- The splices that rename tables: the table identifiers first, then the qualifiers. -/
def renameSplices (statement : Statement) (rename : TableName → Option String) : List Splice :=
  let renamed := renamings statement rename
  renamed.map (fun entry =>
    ⟨entry.name.table.span, entry.name.table.requote entry.newName⟩) ++
  qualifierSplices statement.aliases renamed [] statement.qualifiers

/-- Renames tables in the text that a statement was parsed from.  Schemas are kept, and so are
qualifiers that are aliases. -/
def renameTables (source : String) (statement : Statement) (rename : TableName → Option String) :
    Except SpliceError String :=
  applySplices source (renameSplices statement rename)

end SqlDml
