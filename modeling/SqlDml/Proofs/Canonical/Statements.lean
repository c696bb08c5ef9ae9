import SqlDml.Proofs.Canonical.Texts
import SqlDml.Proofs.Spelt.Changes

/-!
Contract: the canonical text of statements is read as their signs.

Owns:
- the signs of inserts, updates and deletes;
- that the text of every legible statement is read as its signs.

Does not own: that the rules read these signs.
-/

namespace SqlDml

open Piece

variable {settings : Settings}

/-! ### Signs -/

/-- The signs of an assignment. -/
def Assignment.signs (settings : Settings) (assignment : Assignment) : List Sign :=
  assignment.column.signs settings ++ Sign.mark .equal :: assignment.value.signs settings

/-- The signs of assignments with commas between them. -/
def Assignment.listSigns (settings : Settings) (assignments : List Assignment) : List Sign :=
  Sign.commaList (assignments.map (Assignment.signs settings))

/-- The signs of the assignments behind an insert. -/
def Assignment.duplicateSigns (settings : Settings) (assignments : List Assignment) : List Sign :=
  Sign.optionalList [.ON, .DUPLICATE, .KEY, .UPDATE] (assignments.map (Assignment.signs settings))

/-- The signs of a row of values. -/
def Expr.rowSigns (settings : Settings) (row : List Expr) : List Sign :=
  Sign.parens (Expr.listSigns settings row)

def InsertSource.signs (settings : Settings) : InsertSource → List Sign
  | .values rows => Sign.word .VALUES :: Sign.commaList (rows.map (Expr.rowSigns settings))
  | .select query => query.signs settings
  | .set assignments => Sign.word .SET :: Assignment.listSigns settings assignments

/-- The sign of a priority. -/
def InsertPriority.signs : Option InsertPriority → List Sign
  | some priority => [Sign.word priority.keyword]
  | none => []

def Insert.signs (settings : Settings) (insert : Insert) : List Sign :=
  Sign.word insert.kind.keyword :: (InsertPriority.signs insert.priority ++
    (Sign.flag insert.ignore .IGNORE ++ Sign.word .INTO :: (insert.table.signs settings ++
      (Ident.optionalSigns settings [Sign.word .PARTITION] insert.partitions ++
        (Ident.optionalSigns settings [] insert.columns ++ (insert.source.signs settings ++
          Assignment.duplicateSigns settings insert.onDuplicate))))))

/-- The signs of the clauses that updates and deletes end with. -/
def tailSigns (settings : Settings) (filter : Option Expr) (orderBy : List OrderingTerm)
    (limit : Option LimitClause) : List Sign :=
  Expr.optionalSigns settings [Sign.word .WHERE] filter ++
    (OrderingTerm.listSigns settings [.ORDER, .BY] orderBy ++ LimitClause.signs settings limit)

/-- The signs of table references with commas between them. -/
def TableRef.listSigns (settings : Settings) (refs : List TableRef) : List Sign :=
  Sign.commaList (refs.map (TableRef.signs settings))

def Update.signs (settings : Settings) (update : Update) : List Sign :=
  Sign.word .UPDATE :: (Sign.flag update.lowPriority .LOW_PRIORITY ++
    (Sign.flag update.ignore .IGNORE ++ (TableRef.listSigns settings update.tables ++
      Sign.word .SET :: (Assignment.listSigns settings update.assignments ++
        tailSigns settings update.filter update.orderBy update.limit))))

/-- The signs of the targets of a delete. -/
def TableName.listSigns (settings : Settings) (targets : List TableName) : List Sign :=
  Sign.commaList (targets.map (TableName.signs settings))

def DeleteSource.signs (settings : Settings) (targets : List TableName) : DeleteSource → List Sign
  | .single table => Sign.word .FROM :: table.signs settings
  | .multi tables false =>
      TableName.listSigns settings targets ++
        Sign.word .FROM :: TableRef.listSigns settings tables
  | .multi tables true =>
      Sign.word .FROM :: (TableName.listSigns settings targets ++
        Sign.word .USING :: TableRef.listSigns settings tables)

def Delete.signs (settings : Settings) (delete : Delete) : List Sign :=
  Sign.word .DELETE :: (Sign.flag delete.lowPriority .LOW_PRIORITY ++
    (Sign.flag delete.quick .QUICK ++ (Sign.flag delete.ignore .IGNORE ++
      (delete.source.signs settings delete.targets ++
        tailSigns settings delete.filter delete.orderBy delete.limit))))

def Statement.signs (settings : Settings) : Statement → List Sign
  | .select query => query.signs settings
  | .insert tree => tree.signs settings
  | .update tree => tree.signs settings
  | .delete tree => tree.signs settings

@[simp] theorem Assignment.signsOf_pieces (assignment : Assignment) :
    signsOf settings assignment.pieces = assignment.signs settings := by
  simp [pieces, signs]

@[simp] theorem Assignment.signsOf_listPieces (assignments : List Assignment) :
    signsOf settings (Assignment.listPieces assignments) =
      Assignment.listSigns settings assignments := by
  simp [listPieces, listSigns, Function.comp_def]

@[simp] theorem TableRef.signsOf_listPieces (refs : List TableRef) :
    signsOf settings (TableRef.listPieces refs) = TableRef.listSigns settings refs := by
  rw [listPieces, refPieces_eq]
  simp [listSigns, Function.comp_def]

@[simp] theorem signsOf_targetPieces (targets : List TableName) :
    signsOf settings (targetPieces targets) = TableName.listSigns settings targets := by
  simp [targetPieces, TableName.listSigns, Function.comp_def]

@[simp] theorem Expr.signsOf_row (row : List Expr) :
    signsOf settings (parens (commaList (Expr.itemPieces row))) = Expr.rowSigns settings row := by
  rw [signsOf_parens, signsOf_itemPieces, rowSigns]

@[simp] theorem InsertSource.signsOf_pieces (source : InsertSource) :
    signsOf settings source.pieces = source.signs settings := by
  cases source with
  | values rows =>
      rw [pieces, signsOf_append, signsOf_blank, signsOf_commaList, List.map_map]
      simp [signs, Function.comp_def, -signsOf_parens]
  | select query => rfl
  | set assignments => simp [pieces, signs]

@[simp] theorem signsOf_tailPieces (filter : Option Expr) (orderBy : List OrderingTerm)
    (limit : Option LimitClause) : signsOf settings (tailPieces filter orderBy limit) =
      tailSigns settings filter orderBy limit := by
  rw [tailPieces_eq, OrderingTerm.termPieces_eq]
  simp [tailSigns, OrderingTerm.listSigns, Function.comp_def]

theorem Insert.signsOf_pieces (tree : Insert) :
    signsOf settings tree.pieces = tree.signs settings := by
  obtain ⟨kind, priority, ignore, table, partitions, columns, source, onDuplicate, span⟩ := tree
  unfold pieces signs Assignment.duplicateSigns Sign.optionalList
  cases priority <;> cases onDuplicate <;> simp [InsertPriority.signs, Assignment.listSigns]

theorem Update.signsOf_pieces (tree : Update) :
    signsOf settings tree.pieces = tree.signs settings := by
  simp [pieces, signs]

theorem Delete.signsOf_pieces (tree : Delete) :
    signsOf settings tree.pieces = tree.signs settings := by
  obtain ⟨lowPriority, quick, ignore, targets, source, filter, orderBy, limit, span⟩ := tree
  rcases source with table | ⟨tables, _ | _⟩ <;>
    simp [pieces, signs, DeleteSource.pieces, DeleteSource.signs]

theorem Statement.signsOf_pieces (tree : Statement) :
    signsOf settings tree.pieces = tree.signs settings := by
  cases tree with
  | select query => rfl
  | insert tree => exact tree.signsOf_pieces
  | update tree => exact tree.signsOf_pieces
  | delete tree => exact tree.signsOf_pieces

/-! ### Texts -/

theorem Piece.Appended.tail {filter : Option Expr} {orderBy : List OrderingTerm}
    {limit : Option LimitClause}
    (written : ∀ child ∈ tailChildren filter orderBy limit, child.IsWritten settings) :
    Appended settings (tailPieces filter orderBy limit) := by
  simp only [tailChildren, LimitClause.children, List.forall_mem_append, List.forall_mem_map,
    List.forall_mem_flatMap, List.forall_mem_cons, Option.mem_toList] at written
  obtain ⟨⟨filters, entries⟩, numbers⟩ := written
  rw [tailPieces_eq]
  refine ((Expr.appended_optional (.clause (List.cons_ne_nil _ _)) filters).append ?_).append
    (LimitClause.appended_optional numbers)
  exact .listPieces (List.cons_ne_nil _ _) (OrderingTerm.written_terms entries)

theorem Assignment.written_list {assignments : List Assignment} (nonempty : assignments ≠ [])
    (written : ∀ child ∈ assignments.flatMap Assignment.children, child.IsWritten settings) :
    Written settings (Assignment.listPieces assignments) := by
  refine .commaList (by simpa using nonempty) (List.forall_mem_map.mpr fun assignment member => ?_)
  obtain ⟨column, value, span⟩ := assignment
  simp only [List.forall_mem_flatMap] at written
  have both := written _ member
  simp only [Assignment.children, List.forall_mem_cons] at both
  have first : Written settings column.pieces := both.1
  have second : Written settings value.pieces := both.2.1
  exact first.append (.blank ((Written.mark .equal).append (.blank second)))

theorem TableRef.written_list {refs : List TableRef} (nonempty : refs ≠ [])
    (written : ∀ ref ∈ refs, (Node.ref ref).IsWritten settings) :
    Written settings (TableRef.listPieces refs) := by
  rw [listPieces, refPieces_eq]
  exact .commaList (by simpa using nonempty) (List.forall_mem_map.mpr written)

theorem Insert.appended_source {insert : Insert} (filled : insert.Filled)
    (written : ∀ child ∈ insert.source.children, child.IsWritten settings) :
    Appended settings insert.source.pieces := by
  obtain ⟨kind, priority, ignore, table, partitions, columns, source, onDuplicate, span⟩ := insert
  cases source with
  | values rows =>
      have nonempty : rows ≠ [] := filled
      refine .clauseOf (List.cons_ne_nil _ _) (.commaList (by simpa using nonempty) ?_)
      simp only [InsertSource.children, List.forall_mem_flatMap] at written
      exact List.forall_mem_map.mpr fun row member =>
        .listInParens (Expr.written_items (written row member))
  | select query =>
      have inside : Written settings query.pieces := written (.query query) (by simp)
      exact .blank inside
  | set assignments =>
      have nonempty : assignments ≠ [] := filled.1
      exact .clauseOf (List.cons_ne_nil _ _) (Assignment.written_list nonempty written)

theorem InsertPriority.appended (priority : Option InsertPriority) :
    Appended settings (match priority with
      | some priority => clause [priority.keyword]
      | none => []) := by
  cases priority with
  | none => exact .nil
  | some priority => exact .clause (List.cons_ne_nil _ _)

theorem Insert.written {insert : Insert} (spelt : (Statement.insert insert).Spelt settings)
    (filled : insert.Filled)
    (children : ∀ child ∈ (Statement.insert insert).children, child.IsWritten settings) :
    Written settings insert.pieces := by
  simp only [Statement.children, List.cons_append, List.forall_mem_cons,
    List.forall_mem_append] at children
  obtain ⟨named, sources, assigned⟩ := children
  have sourced := Insert.appended_source filled sources
  obtain ⟨kind, priority, ignore, table, partitions, columns, source, onDuplicate, span⟩ := insert
  obtain ⟨parts, listed⟩ := spelt
  have partitioned : Appended settings (partitionPieces partitions) :=
    .optionalIdents parts fun written => by
      rw [List.append_assoc]
      exact .clauseOf (List.cons_ne_nil _ _) written
  have duplicates : Appended settings (if onDuplicate.isEmpty then []
      else clause [.ON, .DUPLICATE, .KEY, .UPDATE] ++
        .blank :: Assignment.listPieces onDuplicate) := by
    cases onDuplicate with
    | nil => exact .nil
    | cons first others =>
        exact .clauseOf (List.cons_ne_nil _ _)
          (Assignment.written_list (List.cons_ne_nil _ _) assigned)
  have listedPieces : Appended settings (optionalIdents [.blank] columns) :=
    .optionalIdents listed fun written => .blank written
  have into : Appended settings (clause [.INTO]) := .clause (List.cons_ne_nil _ _)
  have named : Written settings table.pieces := named
  exact ((((((((Written.word _).append (InsertPriority.appended priority)).append
    (.flag ignore .IGNORE)).append into).append (.blank named)).append partitioned).append listedPieces).append sourced).append
      duplicates

theorem Update.written {update : Update} (filled : update.Filled)
    (children : ∀ child ∈ (Statement.update update).children, child.IsWritten settings) :
    Written settings update.pieces := by
  simp only [Statement.children, List.forall_mem_append, List.forall_mem_map] at children
  obtain ⟨⟨refs, assigned⟩, tail⟩ := children
  obtain ⟨lowPriority, ignore, tables, assignments, filter, orderBy, limit, span⟩ := update
  obtain ⟨someTables, someAssignments⟩ := filled
  have listed : Written settings (TableRef.listPieces tables) := TableRef.written_list someTables refs
  have values : Written settings (Assignment.listPieces assignments) :=
    Assignment.written_list someAssignments assigned
  have set_ : Appended settings (clause [.SET]) := .clause (List.cons_ne_nil _ _)
  exact ((((((Written.word .UPDATE).append (.flag lowPriority .LOW_PRIORITY)).append
    (.flag ignore .IGNORE)).append (.blank listed)).append set_).append (.blank values)).append
      (Appended.tail tail)

theorem Delete.written {delete : Delete} (shaped : delete.Shaped) (filled : delete.Filled settings)
    (children : ∀ child ∈ (Statement.delete delete).children, child.IsWritten settings) :
    Written settings delete.pieces := by
  simp only [Statement.children, List.forall_mem_append, List.forall_mem_map] at children
  obtain ⟨⟨named, sources⟩, tail⟩ := children
  obtain ⟨lowPriority, quick, ignore, targets, source, filter, orderBy, limit, span⟩ := delete
  obtain ⟨fits, _⟩ := shaped
  have listed : targets ≠ [] → Written settings (targetPieces targets) := fun nonempty =>
    .commaList (by simpa using nonempty) (List.forall_mem_map.mpr named)
  have keyword : ∀ keyword : Keyword, Appended settings (clause [keyword]) :=
    fun keyword => .clause (List.cons_ne_nil _ _)
  have sourced : Appended settings (source.pieces targets) := by
    cases source with
    | single table =>
        have inside : Written settings table.pieces := sources (.table table) (by simp)
        exact .clauseOf (List.cons_ne_nil _ _) inside
    | multi tables afterUsing =>
        have targeted := listed fits.1
        have refs : Written settings (TableRef.listPieces tables) :=
          TableRef.written_list filled.1 (List.forall_mem_map.mp sources)
        cases afterUsing with
        | false => exact ((Appended.blank targeted).append (keyword .FROM)).append (.blank refs)
        | true =>
            exact (((keyword .FROM).append (.blank targeted)).append (keyword .USING)).append
              (.blank refs)
  exact (((((Written.word .DELETE).append (.flag lowPriority .LOW_PRIORITY)).append
    (.flag quick .QUICK)).append (.flag ignore .IGNORE)).append sourced).append (Appended.tail tail)

/-- The text of a legible statement is read as its signs. -/
theorem Statement.written {tree : Statement} (all : (Node.statement tree).AllLegible settings)
    (filled : tree.Filled settings) : Written settings tree.pieces := by
  have children : ∀ child ∈ tree.children, child.IsWritten settings :=
    fun child member => Node.isWritten (all.child member)
  cases tree with
  | select query => exact children (.query query) (by simp)
  | insert tree => exact Insert.written all.self.spelt filled children
  | update tree => exact Update.written filled children
  | delete tree => exact Delete.written all.self.shaped filled children

end SqlDml
