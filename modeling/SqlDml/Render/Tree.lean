import SqlDml.Render.Piece
import SqlDml.Tree.Query

/-!
Contract: canonical text of expressions and queries.

Owns:
- the pieces of every tree, with parentheses around each compound operand;
- the text of expressions, queries and table references.

Does not own: the text of statements other than queries.
-/

namespace SqlDml

open Piece

/-- Whether an expression needs parentheses as an operand. -/
def Expr.isCompound : Expr → Bool
  | .binary .. | .unary .. | .is .. | .quantified .. | .between .. | .isIn .. | .like ..
  | .soundsLike .. => true
  | _ => false

mutual
def Expr.pieces : Expr → List Piece
  | .literal value _ => value.pieces
  | .column ref => ref.pieces
  | .placeholder _ _ => [.mark .question]
  | .default _ => [.word .DEFAULT]
  | .binary left op right _ =>
      parensIf left.isCompound left.pieces ++ .blank :: op.piece :: .blank ::
        parensIf right.isCompound right.pieces
  | .unary op operand _ => op.pieces ++ parensIf operand.isCompound operand.pieces
  | .is operand negated value _ =>
      parensIf operand.isCompound operand.pieces ++ clause [.IS] ++ flag negated .NOT ++
        clause [value.keyword]
  | .quantified left op quantifier query _ =>
      parensIf left.isCompound left.pieces ++ .blank :: op.piece :: clause [quantifier.keyword] ++
        .blank :: parens query.pieces
  | .between operand low high negated _ =>
      parensIf operand.isCompound operand.pieces ++ flag negated .NOT ++ clause [.BETWEEN] ++
        .blank :: parensIf low.isCompound low.pieces ++ clause [.AND] ++
        .blank :: parensIf high.isCompound high.pieces
  | .isIn operand set negated _ =>
      parensIf operand.isCompound operand.pieces ++ flag negated .NOT ++ clause [.IN] ++
        .blank :: parens set.pieces
  | .like operand pattern escape op negated _ =>
      parensIf operand.isCompound operand.pieces ++ flag negated .NOT ++ clause [op.keyword] ++
        .blank :: parensIf pattern.isCompound pattern.pieces ++
        match escape with
        | some char => clause [.ESCAPE] ++ .blank :: parensIf char.isCompound char.pieces
        | none => []
  | .soundsLike operand pattern _ =>
      parensIf operand.isCompound operand.pieces ++ clause [.SOUNDS, .LIKE] ++
        .blank :: parensIf pattern.isCompound pattern.pieces
  | .case operand whens otherwise _ =>
      .word .CASE ::
        (match operand with
          | some expr => .blank :: expr.pieces
          | none => []) ++
        Expr.whenPieces whens ++
        (match otherwise with
          | some expr => clause [.ELSE] ++ .blank :: expr.pieces
          | none => []) ++
        clause [.END]
  | .cast operand target _ =>
      .word .CAST :: parens (operand.pieces ++ clause [.AS] ++ .blank :: target.pieces)
  | .call name args distinct _ =>
      .ident name ::
        parens ((if distinct then [.word .DISTINCT, .blank] else []) ++ args.pieces)
  | .subquery query _ => parens query.pieces
  | .exists query _ => .word .EXISTS :: .blank :: parens query.pieces
  | .row items _ =>
      (if items.length = 1 then [.word .ROW] else []) ++ parens (commaList (Expr.itemPieces items))
  | .collate operand collation _ =>
      parensIf operand.isCompound operand.pieces ++ clause [.COLLATE] ++ [.blank, .ident collation]

def Expr.itemPieces : List Expr → List (List Piece)
  | [] => []
  | item :: items => item.pieces :: Expr.itemPieces items

def Expr.whenPieces : List (Expr × Expr) → List Piece
  | [] => []
  | (condition, result) :: whens =>
      clause [.WHEN] ++ .blank :: condition.pieces ++ clause [.THEN] ++ .blank :: result.pieces ++
        Expr.whenPieces whens

def InSet.pieces : InSet → List Piece
  | .list items => commaList (Expr.itemPieces items)
  | .subquery query => query.pieces

def CallArgs.pieces : CallArgs → List Piece
  | .star => [.mark .star]
  | .list items => commaList (Expr.itemPieces items)

def Query.pieces : Query → List Piece
  | ⟨withClause, body, orderBy, limit, locking, _⟩ =>
      (match withClause with
        | some tables => tables.pieces ++ [.blank]
        | none => []) ++
      body.pieces ++
      (if orderBy.isEmpty then []
        else clause [.ORDER, .BY] ++ .blank :: commaList (OrderingTerm.termPieces orderBy)) ++
      (match limit with
        | some clause => .blank :: clause.pieces
        | none => []) ++
      match locking with
      | some clause => .blank :: clause.pieces
      | none => []

def WithClause.pieces : WithClause → List Piece
  | ⟨recursive, tables, _⟩ =>
      .word .WITH :: flag recursive .RECURSIVE ++
        .blank :: commaList (CommonTable.tablePieces tables)

def CommonTable.pieces : CommonTable → List Piece
  | ⟨name, columns, query, _⟩ =>
      .ident name :: optionalIdents [.blank] columns ++ clause [.AS] ++
        .blank :: parens query.pieces

def CommonTable.tablePieces : List CommonTable → List (List Piece)
  | [] => []
  | table :: tables => table.pieces :: CommonTable.tablePieces tables

def QueryBody.pieces : QueryBody → List Piece
  | ⟨first, compounds, _⟩ => first.pieces ++ QueryTerm.compoundPieces compounds

def QueryTerm.pieces : QueryTerm → List Piece
  | .select core => core.pieces
  | .nested query => parens query.pieces

def QueryTerm.compoundPieces : List (CompoundOp × QueryTerm) → List Piece
  | [] => []
  | (op, term) :: compounds =>
      clause op.keywords ++ .blank :: term.pieces ++ QueryTerm.compoundPieces compounds

def SelectCore.pieces : SelectCore → List Piece
  | ⟨modifiers, columns, sources, filter, groupBy, withRollup, having, _⟩ =>
      .word .SELECT :: modifiers.pieces ++ .blank :: commaList (SelectItem.itemPieces columns) ++
      (if sources.isEmpty then []
        else clause [.FROM] ++ .blank :: commaList (TableRef.refPieces sources)) ++
      (match filter with
        | some condition => clause [.WHERE] ++ .blank :: condition.pieces
        | none => []) ++
      (if groupBy.isEmpty then []
        else clause [.GROUP, .BY] ++ .blank :: commaList (OrderingTerm.termPieces groupBy) ++
          if withRollup then clause [.WITH, .ROLLUP] else []) ++
      match having with
      | some condition => clause [.HAVING] ++ .blank :: condition.pieces
      | none => []

def SelectItem.pieces : SelectItem → List Piece
  | .wildcard _ => [.mark .star]
  | .qualifiedWildcard schema table _ =>
      Ident.qualifierPieces schema ++ [.ident table, .mark .dot, .mark .star]
  | .expr value aliasName _ => value.pieces ++ optionalAlias aliasName

def SelectItem.itemPieces : List SelectItem → List (List Piece)
  | [] => []
  | item :: items => item.pieces :: SelectItem.itemPieces items

def OrderingTerm.pieces : OrderingTerm → List Piece
  | ⟨expr, direction, _⟩ => expr.pieces ++ SortDirection.pieces direction

def OrderingTerm.termPieces : List OrderingTerm → List (List Piece)
  | [] => []
  | term :: terms => term.pieces :: OrderingTerm.termPieces terms

def LimitClause.pieces : LimitClause → List Piece
  | ⟨count, offset, _⟩ =>
      .word .LIMIT :: .blank :: count.pieces ++
        match offset with
        | some expr => clause [.OFFSET] ++ .blank :: expr.pieces
        | none => []

def TableRef.pieces : TableRef → List Piece
  | .named table => table.pieces
  | .derived query aliasName _ => parens query.pieces ++ clause [.AS] ++ [.blank, .ident aliasName]
  | .joined left join right condition _ =>
      left.pieces ++ clause join.keywords ++ .blank :: right.pieces ++
        match condition with
        | some test => test.pieces
        | none => []
  | .parenthesized inner _ => parens (commaList (TableRef.refPieces inner))

def TableRef.refPieces : List TableRef → List (List Piece)
  | [] => []
  | ref :: refs => ref.pieces :: TableRef.refPieces refs

def JoinCondition.pieces : JoinCondition → List Piece
  | .on condition => clause [.ON] ++ .blank :: condition.pieces
  | .using columns => clause [.USING] ++ .blank :: identsInParens columns
end

attribute [simp] Expr.pieces Expr.itemPieces Expr.whenPieces InSet.pieces CallArgs.pieces
  Query.pieces WithClause.pieces CommonTable.pieces CommonTable.tablePieces QueryBody.pieces
  QueryTerm.pieces QueryTerm.compoundPieces SelectCore.pieces SelectItem.pieces
  SelectItem.itemPieces OrderingTerm.pieces OrderingTerm.termPieces LimitClause.pieces
  TableRef.pieces TableRef.refPieces JoinCondition.pieces

/-- An expression as canonical text. -/
def Expr.render (expr : Expr) : String := textOf expr.pieces

/-- A query as canonical text. -/
def Query.render (query : Query) : String := textOf query.pieces

end SqlDml
