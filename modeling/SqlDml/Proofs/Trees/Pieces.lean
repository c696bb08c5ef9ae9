import SqlDml.Render.Statement

/-!
Contract: the canonical text of trees with optional parts.

Owns:
- the pieces of an optional part, and of a list that is left out when it is empty;
- one equation for each tree that holds such parts.

Does not own: the pieces of any other tree.
-/

namespace SqlDml

open Piece

/-- An optional expression behind its keywords. -/
def Expr.optionalPieces (keywords : List Piece) : Option Expr → List Piece
  | some expr => keywords ++ .blank :: expr.pieces
  | none => []

/-- A list behind its keywords, left out when it is empty. -/
def Piece.listPieces (keywords : List Keyword) (items : List (List Piece)) : List Piece :=
  if items.isEmpty then [] else clause keywords ++ .blank :: commaList items

/-- An optional limit. -/
def LimitClause.optionalPieces : Option LimitClause → List Piece
  | some limit => .blank :: limit.pieces
  | none => []

/-- Optional common table expressions. -/
def WithClause.optionalPieces : Option WithClause → List Piece
  | some tables => tables.pieces ++ [.blank]
  | none => []

/-- Optional row locks. -/
def LockingClause.optionalPieces : Option LockingClause → List Piece
  | some locking => .blank :: locking.pieces
  | none => []

/-- An optional condition of a join. -/
def JoinCondition.optionalPieces : Option JoinCondition → List Piece
  | some test => test.pieces
  | none => []

/-! ### Lists -/

theorem Expr.itemPieces_eq (items : List Expr) : itemPieces items = items.map pieces := by
  induction items with
  | nil => rfl
  | cons item items inductionHypothesis => rw [itemPieces, inductionHypothesis, List.map_cons]

/-- The pieces of a branch of a case. -/
def Expr.branchPieces (branch : Expr × Expr) : List Piece :=
  clause [.WHEN] ++ .blank :: branch.1.pieces ++ clause [.THEN] ++ .blank :: branch.2.pieces

theorem Expr.whenPieces_eq (whens : List (Expr × Expr)) :
    whenPieces whens = whens.flatMap branchPieces := by
  induction whens with
  | nil => rfl
  | cons branch whens inductionHypothesis =>
      rw [whenPieces, inductionHypothesis, List.flatMap_cons]
      rfl

theorem CommonTable.tablePieces_eq (tables : List CommonTable) :
    tablePieces tables = tables.map pieces := by
  induction tables with
  | nil => rfl
  | cons table tables inductionHypothesis => rw [tablePieces, inductionHypothesis, List.map_cons]

/-- The pieces of a term behind the words that unite it with those in front. -/
def QueryTerm.unitedPieces (compound : CompoundOp × QueryTerm) : List Piece :=
  clause compound.1.keywords ++ .blank :: compound.2.pieces

theorem QueryTerm.compoundPieces_eq (compounds : List (CompoundOp × QueryTerm)) :
    compoundPieces compounds = compounds.flatMap unitedPieces := by
  induction compounds with
  | nil => rfl
  | cons compound compounds inductionHypothesis =>
      rw [compoundPieces, inductionHypothesis, List.flatMap_cons]
      rfl

theorem SelectItem.itemPieces_eq (items : List SelectItem) : itemPieces items = items.map pieces := by
  induction items with
  | nil => rfl
  | cons item items inductionHypothesis => rw [itemPieces, inductionHypothesis, List.map_cons]

theorem OrderingTerm.termPieces_eq (terms : List OrderingTerm) :
    termPieces terms = terms.map pieces := by
  induction terms with
  | nil => rfl
  | cons term terms inductionHypothesis => rw [termPieces, inductionHypothesis, List.map_cons]

theorem TableRef.refPieces_eq (refs : List TableRef) : refPieces refs = refs.map pieces := by
  induction refs with
  | nil => rfl
  | cons ref refs inductionHypothesis => rw [refPieces, inductionHypothesis, List.map_cons]

/-! ### Optional parts -/

@[simp] theorem OrderingTerm.isEmpty_termPieces (terms : List OrderingTerm) :
    (OrderingTerm.termPieces terms).isEmpty = terms.isEmpty := by
  cases terms <;> rfl

@[simp] theorem TableRef.isEmpty_refPieces (refs : List TableRef) :
    (TableRef.refPieces refs).isEmpty = refs.isEmpty := by
  cases refs <;> rfl

variable (span : Span)

theorem Expr.pieces_case (operand : Option Expr) (whens : List (Expr × Expr))
    (otherwise : Option Expr) :
    (case operand whens otherwise span).pieces =
      .word .CASE :: Expr.optionalPieces [] operand ++ whenPieces whens ++
        Expr.optionalPieces (clause [.ELSE]) otherwise ++ clause [.END] := by
  cases operand <;> cases otherwise <;> rw [pieces] <;> rfl

theorem Query.pieces_mk (withClause : Option WithClause) (body : QueryBody)
    (orderBy : List OrderingTerm) (limit : Option LimitClause) (locking : Option LockingClause) :
    (Query.mk withClause body orderBy limit locking span).pieces =
      WithClause.optionalPieces withClause ++ body.pieces ++
        listPieces [.ORDER, .BY] (OrderingTerm.termPieces orderBy) ++
        LimitClause.optionalPieces limit ++ LockingClause.optionalPieces locking := by
  unfold listPieces
  rw [OrderingTerm.isEmpty_termPieces]
  cases withClause <;> cases limit <;> cases locking <;> rw [pieces] <;> rfl

theorem SelectCore.pieces_mk (modifiers : SelectModifiers) (columns : List SelectItem)
    (sources : List TableRef) (filter : Option Expr) (groupBy : List OrderingTerm)
    (withRollup : Bool) (having : Option Expr) :
    (SelectCore.mk modifiers columns sources filter groupBy withRollup having span).pieces =
      .word .SELECT :: modifiers.pieces ++ .blank :: commaList (SelectItem.itemPieces columns) ++
        listPieces [.FROM] (TableRef.refPieces sources) ++
        Expr.optionalPieces (clause [.WHERE]) filter ++
        (if groupBy.isEmpty then []
          else clause [.GROUP, .BY] ++ .blank :: commaList (OrderingTerm.termPieces groupBy) ++
            if withRollup then clause [.WITH, .ROLLUP] else []) ++
        Expr.optionalPieces (clause [.HAVING]) having := by
  unfold listPieces
  rw [TableRef.isEmpty_refPieces]
  cases filter <;> cases having <;> rw [pieces] <;> rfl

theorem LimitClause.pieces_mk (count : Expr) (offset : Option Expr) :
    (LimitClause.mk count offset span).pieces =
      .word .LIMIT :: .blank :: count.pieces ++ Expr.optionalPieces (clause [.OFFSET]) offset := by
  cases offset <;> rw [pieces] <;> rfl

theorem TableRef.pieces_joined (left right : TableRef) (join : JoinType)
    (condition : Option JoinCondition) :
    (joined left join right condition span).pieces =
      left.pieces ++ clause join.keywords ++ .blank :: right.pieces ++
        JoinCondition.optionalPieces condition := by
  cases condition <;> rw [pieces] <;> rfl

theorem tailPieces_eq (filter : Option Expr) (orderBy : List OrderingTerm)
    (limit : Option LimitClause) :
    tailPieces filter orderBy limit =
      Expr.optionalPieces (clause [.WHERE]) filter ++
        listPieces [.ORDER, .BY] (OrderingTerm.termPieces orderBy) ++
        LimitClause.optionalPieces limit := by
  unfold listPieces
  rw [OrderingTerm.isEmpty_termPieces]
  cases filter <;> cases limit <;> rfl

end SqlDml
