import SqlDml.Render.Tree
import SqlDml.Tree.Statement

/-!
Contract: canonical text of statements.

Owns:
- the pieces of inserts, updates and deletes, and the text of every statement.

Does not own: the pieces of expressions and queries.
-/

namespace SqlDml

open Piece

def Assignment.pieces (assignment : Assignment) : List Piece :=
  assignment.column.pieces ++ .blank :: .mark .equal :: .blank :: assignment.value.pieces

/-- Assignments with commas between them. -/
def Assignment.listPieces (assignments : List Assignment) : List Piece :=
  commaList (assignments.map Assignment.pieces)

/-- Table references with commas between them. -/
def TableRef.listPieces (refs : List TableRef) : List Piece := commaList (TableRef.refPieces refs)

/-- The clauses that updates and deletes end with. -/
def tailPieces (filter : Option Expr) (orderBy : List OrderingTerm) (limit : Option LimitClause) :
    List Piece :=
  (match filter with
    | some condition => clause [.WHERE] ++ .blank :: condition.pieces
    | none => []) ++
  (if orderBy.isEmpty then []
    else clause [.ORDER, .BY] ++ .blank :: commaList (OrderingTerm.termPieces orderBy)) ++
  match limit with
  | some clause => .blank :: clause.pieces
  | none => []

def InsertKind.keyword : InsertKind → Keyword
  | .insert => .INSERT
  | .replace => .REPLACE

def InsertPriority.keyword : InsertPriority → Keyword
  | .lowPriority => .LOW_PRIORITY
  | .delayed => .DELAYED
  | .highPriority => .HIGH_PRIORITY

def InsertSource.pieces : InsertSource → List Piece
  | .values rows =>
      clause [.VALUES] ++
        .blank :: commaList (rows.map fun row => parens (commaList (Expr.itemPieces row)))
  | .select query => .blank :: query.pieces
  | .set assignments => clause [.SET] ++ .blank :: Assignment.listPieces assignments

def Insert.pieces (insert : Insert) : List Piece :=
  .word insert.kind.keyword ::
  (match insert.priority with
    | some priority => clause [priority.keyword]
    | none => []) ++
  flag insert.ignore .IGNORE ++ clause [.INTO] ++ .blank :: insert.table.pieces ++
  partitionPieces insert.partitions ++ optionalIdents [.blank] insert.columns ++
  insert.source.pieces ++
  if insert.onDuplicate.isEmpty then []
  else clause [.ON, .DUPLICATE, .KEY, .UPDATE] ++ .blank :: Assignment.listPieces insert.onDuplicate

def Update.pieces (update : Update) : List Piece :=
  .word .UPDATE :: flag update.lowPriority .LOW_PRIORITY ++ flag update.ignore .IGNORE ++
  .blank :: TableRef.listPieces update.tables ++ clause [.SET] ++
  .blank :: Assignment.listPieces update.assignments ++
  tailPieces update.filter update.orderBy update.limit

/-- The targets of a delete with commas between them. -/
def targetPieces (targets : List TableName) : List Piece :=
  commaList (targets.map TableName.pieces)

/-- The targets of a delete and the tables that it looks at. -/
def DeleteSource.pieces (targets : List TableName) : DeleteSource → List Piece
  | .single table => clause [.FROM] ++ .blank :: table.pieces
  | .multi tables false =>
      .blank :: targetPieces targets ++ clause [.FROM] ++ .blank :: TableRef.listPieces tables
  | .multi tables true =>
      clause [.FROM] ++ .blank :: targetPieces targets ++ clause [.USING] ++
        .blank :: TableRef.listPieces tables

def Delete.pieces (delete : Delete) : List Piece :=
  .word .DELETE :: flag delete.lowPriority .LOW_PRIORITY ++ flag delete.quick .QUICK ++
  flag delete.ignore .IGNORE ++ delete.source.pieces delete.targets ++
  tailPieces delete.filter delete.orderBy delete.limit

def Statement.pieces : Statement → List Piece
  | .select query => query.pieces
  | .insert tree => tree.pieces
  | .update tree => tree.pieces
  | .delete tree => tree.pieces

/-- A statement as canonical text. -/
def Statement.render (statement : Statement) : String := textOf statement.pieces

end SqlDml
