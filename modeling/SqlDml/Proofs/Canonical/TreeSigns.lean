import SqlDml.Proofs.Canonical.Names
import SqlDml.Proofs.Trees.Pieces

/-!
Contract: the signs of trees.

Owns:
- the signs of expressions, queries, table references and their parts;
- one equation for each form of tree, in terms of the signs of its parts.

Does not own: that rules read these signs.
-/

namespace SqlDml

open Piece

/-! ### Parts -/

section

variable (settings : Settings)

def Expr.signs (tree : Expr) : List Sign := signsOf settings tree.pieces

/-- The signs of an expression as an operand. -/
def Expr.operandSigns (tree : Expr) : List Sign :=
  if tree.isCompound then Sign.parens (tree.signs settings) else tree.signs settings

def Query.signs (tree : Query) : List Sign := signsOf settings tree.pieces

def QueryTerm.signs (tree : QueryTerm) : List Sign := signsOf settings tree.pieces

def SelectCore.signs (tree : SelectCore) : List Sign := signsOf settings tree.pieces

def SelectItem.signs (tree : SelectItem) : List Sign := signsOf settings tree.pieces

def TableRef.signs (tree : TableRef) : List Sign := signsOf settings tree.pieces

def NamedTable.signs (tree : NamedTable) : List Sign := signsOf settings tree.pieces

def TypeName.signs (target : TypeName) : List Sign := signsOf settings target.pieces

def BinaryOp.signs (op : BinaryOp) : List Sign := signsOf settings [op.piece]

def UnaryOp.signs (op : UnaryOp) : List Sign := signsOf settings op.pieces

/-- The signs of expressions with commas between them. -/
def Expr.listSigns (items : List Expr) : List Sign :=
  Sign.commaList (items.map (Expr.signs settings))

/-- The signs of an optional expression behind a lead. -/
def Expr.optionalSigns (lead : List Sign) : Option Expr → List Sign
  | some tree => lead ++ tree.signs settings
  | none => []

/-- The signs of a branch of a case. -/
def Expr.branchSigns (branch : Expr × Expr) : List Sign :=
  Sign.word .WHEN :: (branch.1.signs settings ++ Sign.word .THEN :: branch.2.signs settings)

def InSet.signs (set : InSet) : List Sign := signsOf settings set.pieces

def CallArgs.signs (args : CallArgs) : List Sign := signsOf settings args.pieces

end

variable {settings : Settings}

@[simp] theorem Expr.signsOf_pieces (tree : Expr) :
    signsOf settings tree.pieces = tree.signs settings := rfl

@[simp] theorem Query.signsOf_pieces (tree : Query) :
    signsOf settings tree.pieces = tree.signs settings := rfl

@[simp] theorem QueryTerm.signsOf_pieces (tree : QueryTerm) :
    signsOf settings tree.pieces = tree.signs settings := rfl

@[simp] theorem SelectCore.signsOf_pieces (tree : SelectCore) :
    signsOf settings tree.pieces = tree.signs settings := rfl

@[simp] theorem TableRef.signsOf_pieces (tree : TableRef) :
    signsOf settings tree.pieces = tree.signs settings := rfl

@[simp] theorem NamedTable.signsOf_pieces (tree : NamedTable) :
    signsOf settings tree.pieces = tree.signs settings := rfl

@[simp] theorem TypeName.signsOf_pieces (target : TypeName) :
    signsOf settings target.pieces = target.signs settings := rfl

@[simp] theorem UnaryOp.signsOf_pieces (op : UnaryOp) :
    signsOf settings op.pieces = op.signs settings := rfl

@[simp] theorem InSet.signsOf_pieces (set : InSet) :
    signsOf settings set.pieces = set.signs settings := rfl

@[simp] theorem CallArgs.signsOf_pieces (args : CallArgs) :
    signsOf settings args.pieces = args.signs settings := rfl

@[simp] theorem ColumnRef.signsOf_pieces (ref : ColumnRef) :
    signsOf settings ref.pieces = ref.signs settings := rfl

@[simp] theorem TableName.signsOf_pieces (name : TableName) :
    signsOf settings name.pieces = name.signs settings := rfl

@[simp] theorem Expr.signsOf_parensIf (tree : Expr) :
    signsOf settings (parensIf tree.isCompound tree.pieces) = tree.operandSigns settings := by
  unfold parensIf operandSigns
  split <;> simp

@[simp] theorem BinaryOp.signsOf_cons (op : BinaryOp) (pieces : List Piece) :
    signsOf settings (op.piece :: pieces) = op.signs settings ++ signsOf settings pieces := by
  rw [← List.singleton_append, signsOf_append]
  rfl

@[simp] theorem Expr.signsOf_itemPieces (items : List Expr) :
    signsOf settings (commaList (Expr.itemPieces items)) = Expr.listSigns settings items := by
  rw [Expr.itemPieces_eq, signsOf_commaList, List.map_map]
  rfl

@[simp] theorem Expr.signsOf_optionalPieces (lead : List Piece) (found : Option Expr) :
    signsOf settings (Expr.optionalPieces lead found) =
      Expr.optionalSigns settings (signsOf settings lead) found := by
  cases found <;> simp [Expr.optionalPieces, Expr.optionalSigns]

@[simp] theorem Expr.signsOf_whenPieces (whens : List (Expr × Expr)) :
    signsOf settings (Expr.whenPieces whens) = whens.flatMap (Expr.branchSigns settings) := by
  rw [Expr.whenPieces_eq, signsOf_flatMap]
  exact List.flatMap_congr fun branch _ => by simp [Expr.branchPieces, Expr.branchSigns]

/-! ### Expressions -/

namespace Expr

theorem operandSigns_of_compound {tree : Expr} (compound : tree.isCompound = true) :
    tree.operandSigns settings = Sign.parens (tree.signs settings) := if_pos compound

theorem operandSigns_of_bare {tree : Expr} (bare : tree.isCompound = false) :
    tree.operandSigns settings = tree.signs settings := if_neg (by simp [bare])

variable (span : Span) (left right operand low high pattern : Expr) (negated : Bool)

theorem signs_column (ref : ColumnRef) : (column ref).signs settings = ref.signs settings := rfl

theorem signs_binary (op : BinaryOp) :
    (binary left op right span).signs settings =
      left.operandSigns settings ++ (op.signs settings ++ right.operandSigns settings) := by
  rw [signs, pieces]
  simp

theorem signs_unary (op : UnaryOp) :
    (unary op operand span).signs settings =
      op.signs settings ++ operand.operandSigns settings := by
  rw [signs, pieces]
  simp

theorem signs_is (value : IsValue) :
    (is operand negated value span).signs settings =
      operand.operandSigns settings ++
        Sign.word .IS :: (Sign.flag negated .NOT ++ [Sign.word value.keyword]) := by
  rw [signs, pieces]
  simp

theorem signs_quantified (op : BinaryOp) (quantifier : Quantifier) (query : Query) :
    (quantified left op quantifier query span).signs settings =
      left.operandSigns settings ++ (op.signs settings ++
        Sign.word quantifier.keyword :: Sign.parens (query.signs settings)) := by
  rw [signs, pieces]
  simp

theorem signs_between :
    (between operand low high negated span).signs settings =
      operand.operandSigns settings ++ (Sign.flag negated .NOT ++ Sign.word .BETWEEN ::
        (low.operandSigns settings ++ Sign.word .AND :: high.operandSigns settings)) := by
  rw [signs, pieces]
  simp

theorem signs_isIn (set : InSet) :
    (isIn operand set negated span).signs settings =
      operand.operandSigns settings ++ (Sign.flag negated .NOT ++ Sign.word .IN ::
        Sign.parens (set.signs settings)) := by
  rw [signs, pieces]
  simp

/-- The signs of an optional operand behind a keyword. -/
def escapeSigns (settings : Settings) : Option Expr → List Sign
  | some char => Sign.word .ESCAPE :: char.operandSigns settings
  | none => []

theorem signs_like (escape : Option Expr) (op : LikeOp) :
    (like operand pattern escape op negated span).signs settings =
      operand.operandSigns settings ++ (Sign.flag negated .NOT ++ Sign.word op.keyword ::
        (pattern.operandSigns settings ++ escapeSigns settings escape)) := by
  cases escape <;> simp [signs, escapeSigns]

theorem signs_soundsLike :
    (soundsLike operand pattern span).signs settings =
      operand.operandSigns settings ++ Sign.word .SOUNDS :: Sign.word .LIKE ::
        pattern.operandSigns settings := by
  rw [signs, pieces]
  simp

theorem signs_case (subject : Option Expr) (whens : List (Expr × Expr)) (otherwise : Option Expr) :
    (case subject whens otherwise span).signs settings =
      Sign.word .CASE :: (Expr.optionalSigns settings [] subject ++
        (whens.flatMap (branchSigns settings) ++
          (Expr.optionalSigns settings [Sign.word .ELSE] otherwise ++ [Sign.word .END]))) := by
  rw [signs, pieces_case]
  simp

theorem signs_cast (target : TypeName) :
    (cast operand target span).signs settings =
      Sign.word .CAST :: Sign.parens
        (operand.signs settings ++ Sign.word .AS :: target.signs settings) := by
  rw [signs, pieces]
  simp

theorem signs_call (name : Ident) (args : CallArgs) (distinct : Bool) :
    (call name args distinct span).signs settings =
      name.sign settings :: Sign.parens (Sign.flag distinct .DISTINCT ++ args.signs settings) := by
  cases distinct <;> simp [signs, Sign.flag]

theorem signs_subquery (query : Query) :
    (subquery query span).signs settings = Sign.parens (query.signs settings) := by
  rw [signs, pieces]
  simp

theorem signs_exists (query : Query) :
    (Expr.exists query span).signs settings =
      Sign.word .EXISTS :: Sign.parens (query.signs settings) := by
  rw [signs, pieces]
  simp

theorem signs_row (items : List Expr) :
    (row items span).signs settings =
      (if items.length = 1 then [Sign.word .ROW] else []) ++
        Sign.parens (listSigns settings items) := by
  simp only [signs, pieces, signsOf_append, signsOf_parens, signsOf_itemPieces]
  split <;> rfl

theorem signs_collate (collation : Ident) :
    (collate operand collation span).signs settings =
      operand.operandSigns settings ++ [Sign.word .COLLATE, collation.sign settings] := by
  rw [signs, pieces]
  simp

end Expr

theorem InSet.signs_list (items : List Expr) :
    (InSet.list items).signs settings = Expr.listSigns settings items := by
  rw [signs, pieces, Expr.signsOf_itemPieces]

theorem InSet.signs_subquery (query : Query) :
    (InSet.subquery query).signs settings = query.signs settings := by
  rw [signs, pieces, Query.signsOf_pieces]

theorem CallArgs.signs_star : CallArgs.star.signs settings = [Sign.mark .star] := by
  rw [signs, pieces, signsOf_mark, signsOf_nil]

theorem CallArgs.signs_list (items : List Expr) :
    (CallArgs.list items).signs settings = Expr.listSigns settings items := by
  rw [signs, pieces, Expr.signsOf_itemPieces]

/-! ### Queries -/

section

variable (settings : Settings)

/-- The signs of an ordering term. -/
def OrderingTerm.signs (term : OrderingTerm) : List Sign := signsOf settings term.pieces

/-- The signs of a direction. -/
def SortDirection.signs : Option SortDirection → List Sign
  | some .asc => [Sign.word .ASC]
  | some .desc => [Sign.word .DESC]
  | none => []

/-- The signs of ordering terms behind keywords. -/
def OrderingTerm.listSigns (keywords : List Keyword) (terms : List OrderingTerm) : List Sign :=
  Sign.optionalList keywords (terms.map (OrderingTerm.signs settings))

/-- The signs of an optional limit. -/
def LimitClause.signs : Option LimitClause → List Sign
  | some limit =>
      Sign.word .LIMIT :: (limit.count.signs settings ++
        Expr.optionalSigns settings [Sign.word .OFFSET] limit.offset)
  | none => []

/-- The signs of what is done about locked rows. -/
def LockWait.signs : Option LockWait → List Sign
  | some .noWait => [Sign.word .NOWAIT]
  | some .skipLocked => [Sign.word .SKIP, Sign.word .LOCKED]
  | none => []

/-- The signs of optional row locks. -/
def LockingClause.signs : Option LockingClause → List Sign
  | some locking =>
      locking.mode.keywords.map Sign.word ++
        (Sign.optionalList [.OF] (locking.tables.map (TableName.signs settings)) ++
          LockWait.signs locking.wait)
  | none => []

/-- The signs of a common table expression. -/
def CommonTable.signs (table : CommonTable) : List Sign := signsOf settings table.pieces

/-- The signs of optional common table expressions. -/
def WithClause.signs : Option WithClause → List Sign
  | some clause =>
      Sign.word .WITH :: (Sign.flag clause.recursive .RECURSIVE ++
        Sign.commaList (clause.tables.map (CommonTable.signs settings)))
  | none => []

/-- The signs of a term behind the words that unite it with those in front. -/
def QueryTerm.unitedSigns (compound : CompoundOp × QueryTerm) : List Sign :=
  compound.1.keywords.map Sign.word ++ compound.2.signs settings

/-- The signs of the terms of a query body. -/
def QueryBody.signs (body : QueryBody) : List Sign :=
  body.first.signs settings ++ body.compounds.flatMap (QueryTerm.unitedSigns settings)

/-- The signs of the options of a select block. -/
def SelectModifiers.signs (modifiers : SelectModifiers) : List Sign :=
  signsOf settings modifiers.pieces

/-- The signs of `GROUP BY` and what belongs to it. -/
def OrderingTerm.groupSigns (terms : List OrderingTerm) (withRollup : Bool) : List Sign :=
  if terms.isEmpty then []
  else OrderingTerm.listSigns settings [.GROUP, .BY] terms ++
    if withRollup then [Sign.word .WITH, Sign.word .ROLLUP] else []

end

section

variable (span : Span)

theorem OrderingTerm.signs_mk (expr : Expr) (direction : Option SortDirection) :
    (OrderingTerm.mk expr direction span).signs settings =
      expr.signs settings ++ SortDirection.signs direction := by
  rw [signs, pieces, signsOf_append, Expr.signsOf_pieces]
  rcases direction with _ | _ | _ <;> rfl

@[simp] theorem OrderingTerm.signsOf_pieces (term : OrderingTerm) :
    signsOf settings term.pieces = term.signs settings := rfl

@[simp] theorem CommonTable.signsOf_pieces (table : CommonTable) :
    signsOf settings table.pieces = table.signs settings := rfl

@[simp] theorem SelectModifiers.signsOf_pieces (modifiers : SelectModifiers) :
    signsOf settings modifiers.pieces = modifiers.signs settings := rfl

@[simp] theorem SelectItem.signsOf_pieces (item : SelectItem) :
    signsOf settings item.pieces = item.signs settings := rfl

theorem TableName.signsOf_list (names : List TableName) :
    (names.map TableName.pieces).map (signsOf settings) = names.map (TableName.signs settings) := by
  rw [List.map_map]
  rfl

@[simp] theorem LimitClause.signsOf_optionalPieces (limit : Option LimitClause) :
    signsOf settings (LimitClause.optionalPieces limit) = LimitClause.signs settings limit := by
  cases limit with
  | none => rfl
  | some limit =>
      obtain ⟨count, offset, place⟩ := limit
      rw [LimitClause.optionalPieces, LimitClause.pieces_mk]
      simp [signs]

@[simp] theorem LockingClause.signsOf_optionalPieces (locking : Option LockingClause) :
    signsOf settings (LockingClause.optionalPieces locking) =
      LockingClause.signs settings locking := by
  cases locking with
  | none => rfl
  | some locking =>
      obtain ⟨mode, tables, wait, place⟩ := locking
      have tablesSigns : ∀ pieces, signsOf settings ((if tables.isEmpty then []
          else clause [.OF] ++ .blank :: commaList (tables.map TableName.pieces)) ++ pieces) =
            Sign.optionalList [.OF] (tables.map (TableName.signs settings)) ++
              signsOf settings pieces := by
        intro pieces
        rw [← TableName.signsOf_list]
        cases tables <;> simp [Sign.optionalList]
      rw [LockingClause.optionalPieces, signsOf_blank, LockingClause.pieces, List.append_assoc,
        signsOf_append, signsOf_words, tablesSigns]
      rcases wait with _ | _ | _ <;> rfl

theorem CommonTable.signs_mk (name : Ident) (columns : List Ident) (query : Query) :
    (CommonTable.mk name columns query span).signs settings =
      name.sign settings :: (Ident.optionalSigns settings [] columns ++
        Sign.word .AS :: Sign.parens (query.signs settings)) := by
  rw [signs, pieces]
  simp

@[simp] theorem WithClause.signsOf_optionalPieces (found : Option WithClause) :
    signsOf settings (WithClause.optionalPieces found) = WithClause.signs settings found := by
  cases found with
  | none => rfl
  | some clause =>
      obtain ⟨recursive, tables, place⟩ := clause
      rw [WithClause.optionalPieces, WithClause.pieces, CommonTable.tablePieces_eq]
      simp [signs, Function.comp_def]

@[simp] theorem QueryBody.signsOf_pieces (body : QueryBody) :
    signsOf settings body.pieces = body.signs settings := by
  obtain ⟨first, compounds, place⟩ := body
  rw [pieces, QueryTerm.compoundPieces_eq, signsOf_append, signsOf_flatMap]
  refine congrArg _ (List.flatMap_congr fun compound _ => ?_)
  simp [QueryTerm.unitedPieces, QueryTerm.unitedSigns]

theorem QueryTerm.signs_select (core : SelectCore) :
    (QueryTerm.select core).signs settings = core.signs settings := by
  rw [signs, pieces, SelectCore.signsOf_pieces]

theorem QueryTerm.signs_nested (query : Query) :
    (QueryTerm.nested query).signs settings = Sign.parens (query.signs settings) := by
  rw [signs, pieces, signsOf_parens, Query.signsOf_pieces]

theorem Query.signs_mk (withClause : Option WithClause) (body : QueryBody)
    (orderBy : List OrderingTerm) (limit : Option LimitClause) (locking : Option LockingClause) :
    (Query.mk withClause body orderBy limit locking span).signs settings =
      WithClause.signs settings withClause ++ (body.signs settings ++
        (OrderingTerm.listSigns settings [.ORDER, .BY] orderBy ++
          (LimitClause.signs settings limit ++ LockingClause.signs settings locking))) := by
  rw [signs, pieces_mk, OrderingTerm.termPieces_eq]
  simp [OrderingTerm.listSigns, Function.comp_def]

/-! ### Select blocks -/

theorem SelectCore.signs_mk (modifiers : SelectModifiers) (columns : List SelectItem)
    (sources : List TableRef) (filter : Option Expr) (groupBy : List OrderingTerm)
    (withRollup : Bool) (having : Option Expr) :
    (SelectCore.mk modifiers columns sources filter groupBy withRollup having span).signs settings =
      Sign.word .SELECT :: (modifiers.signs settings ++
        (Sign.commaList (columns.map (SelectItem.signs settings)) ++
          (Sign.optionalList [.FROM] (sources.map (TableRef.signs settings)) ++
            (Expr.optionalSigns settings [Sign.word .WHERE] filter ++
              (OrderingTerm.groupSigns settings groupBy withRollup ++
                Expr.optionalSigns settings [Sign.word .HAVING] having))))) := by
  rw [signs, pieces_mk, OrderingTerm.termPieces_eq, TableRef.refPieces_eq,
    SelectItem.itemPieces_eq]
  have groups : signsOf settings (if groupBy.isEmpty then []
      else clause [.GROUP, .BY] ++ .blank :: commaList (groupBy.map OrderingTerm.pieces) ++
        if withRollup then clause [.WITH, .ROLLUP] else []) =
          OrderingTerm.groupSigns settings groupBy withRollup := by
    unfold OrderingTerm.groupSigns OrderingTerm.listSigns Sign.optionalList
    cases groupBy <;> cases withRollup <;> simp [Function.comp_def]
  rw [signsOf_append, signsOf_append, groups]
  simp [Function.comp_def]

theorem SelectItem.signs_wildcard :
    (SelectItem.wildcard span).signs settings = [Sign.mark .star] := rfl

theorem SelectItem.signs_qualifiedWildcard (schema : Option Ident) (table : Ident) :
    (SelectItem.qualifiedWildcard schema table span).signs settings =
      Ident.qualifierSigns settings schema ++
        [table.sign settings, Sign.mark .dot, Sign.mark .star] := by
  rw [signs, pieces]
  simp

theorem SelectItem.signs_expr (value : Expr) (aliasName : Option Ident) :
    (SelectItem.expr value aliasName span).signs settings =
      value.signs settings ++ Ident.aliasSigns settings aliasName := by
  rw [signs, pieces]
  simp

/-! ### Tables -/

/-- The signs of what an index hint is meant for. -/
def IndexHintScope.signs : Option IndexHintScope → List Sign
  | some .join => [Sign.word .FOR, Sign.word .JOIN]
  | some .orderBy => [Sign.word .FOR, Sign.word .ORDER, Sign.word .BY]
  | some .groupBy => [Sign.word .FOR, Sign.word .GROUP, Sign.word .BY]
  | none => []

/-- The signs of an index hint. -/
def IndexHint.signs (settings : Settings) (hint : IndexHint) : List Sign :=
  Sign.word hint.action.keyword :: Sign.word .INDEX ::
    (IndexHintScope.signs hint.scope ++ Ident.listSigns settings hint.indexes)

/-- The signs of an optional condition of a join. -/
def JoinCondition.signs (settings : Settings) : Option JoinCondition → List Sign
  | some (.on condition) => Sign.word .ON :: condition.signs settings
  | some (.using columns) => Sign.word .USING :: Ident.listSigns settings columns
  | none => []

theorem NamedTable.signs_mk (name : TableName) (partitions : List Ident) (aliasName : Option Ident)
    (hints : List IndexHint) :
    (NamedTable.mk name partitions aliasName hints span).signs settings =
      name.signs settings ++ (Ident.optionalSigns settings [Sign.word .PARTITION] partitions ++
        (Ident.aliasSigns settings aliasName ++ hints.flatMap (IndexHint.signs settings))) := by
  have hint : ∀ hint : IndexHint,
      signsOf settings (.blank :: hint.pieces) = hint.signs settings := by
    rintro ⟨action, scope, indexes, place⟩
    rw [signsOf_blank, IndexHint.pieces]
    rcases scope with _ | _ | _ | _ <;> simp [IndexHint.signs, IndexHintScope.signs]
  rw [signs, pieces]
  simp [signsOf_flatMap, hint]

theorem TableRef.signs_named (table : NamedTable) :
    (TableRef.named table).signs settings = table.signs settings := by
  rw [signs, pieces, NamedTable.signsOf_pieces]

theorem TableRef.signs_derived (query : Query) (aliasName : Ident) :
    (TableRef.derived query aliasName span).signs settings =
      Sign.parens (query.signs settings) ++ [Sign.word .AS, aliasName.sign settings] := by
  rw [signs, pieces]
  simp

theorem TableRef.signs_joined (left right : TableRef) (join : JoinType)
    (condition : Option JoinCondition) :
    (TableRef.joined left join right condition span).signs settings =
      left.signs settings ++ (join.keywords.map Sign.word ++
        (right.signs settings ++ JoinCondition.signs settings condition)) := by
  rw [signs, pieces_joined]
  rcases condition with _ | _ | _ <;>
    simp [JoinCondition.optionalPieces, JoinCondition.signs]

theorem TableRef.signs_parenthesized (inner : List TableRef) :
    (TableRef.parenthesized inner span).signs settings =
      Sign.parens (Sign.commaList (inner.map (TableRef.signs settings))) := by
  rw [signs, pieces, TableRef.refPieces_eq]
  simp [Function.comp_def]

end

end SqlDml
