import SqlDml.Proofs.Markers.Trees
import SqlDml.Proofs.Trees.Induction
import SqlDml.Proofs.Trees.Leaves
import SqlDml.Proofs.Trees.Pieces

/-!
Contract: values in the place of parameter markers, in a tree and in its canonical text.

Owns:
- a statement with a literal in place of each marker, by the number of the marker;
- canonical text with the markers replaced in turn, by a list of numbers;
- both give the same text for the numbers of the markers in the tree.

Does not own: the order of these numbers.
-/

namespace SqlDml

/-- Puts a literal in place of each parameter marker, by its number. -/
def LeafMap.binding (values : Nat → Literal) : LeafMap where
  marker index span := .literal (values index) span

@[simp] theorem LeafMap.binding_tableName (values : Nat → Literal) :
    (binding values).tableName = id := rfl

@[simp] theorem LeafMap.binding_columnRef (values : Nat → Literal) :
    (binding values).columnRef = id := rfl

/-- A statement with a literal in place of each parameter marker. -/
def Statement.bind (statement : Statement) (values : Nat → Literal) : Statement :=
  statement.mapLeaves (.binding values)

/-- Pieces with a literal in place of each parameter marker; the markers in turn have the given
numbers. -/
def bindMarkers (values : Nat → Literal) : List Nat → List Piece → List Piece
  | _, [] => []
  | numbers, piece :: pieces =>
      if piece = .mark .question then
        match numbers with
        | number :: numbers => (values number).pieces ++ bindMarkers values numbers pieces
        | [] => piece :: bindMarkers values [] pieces
      else
        piece :: bindMarkers values numbers pieces

/-- Pieces with a literal in place of each parameter marker, by the position of the marker. -/
def bindPositions (values : Nat → Literal) (pieces : List Piece) : List Piece :=
  bindMarkers values (List.range (pieces.count (.mark .question))) pieces

section

variable (values : Nat → Literal) (numbers : List Nat) (rest : List Piece)

@[simp] theorem bindMarkers_nil : bindMarkers values numbers [] = [] := by
  cases numbers <;> rfl

@[simp] theorem bindMarkers_marker (number : Nat) :
    bindMarkers values (number :: numbers) (.mark .question :: rest) =
      (values number).pieces ++ bindMarkers values numbers rest := by
  rw [bindMarkers, if_pos rfl]

/-- Other pieces stay. -/
theorem bindMarkers_cons {piece : Piece} (other : piece ≠ .mark .question) :
    bindMarkers values numbers (piece :: rest) = piece :: bindMarkers values numbers rest := by
  cases numbers <;> simp [bindMarkers, other]

theorem bindMarkers_append {pieces : List Piece} (unmarked : .mark .question ∉ pieces) :
    bindMarkers values numbers (pieces ++ rest) = pieces ++ bindMarkers values numbers rest := by
  induction pieces with
  | nil => rfl
  | cons piece pieces inductionHypothesis =>
      rw [List.mem_cons, not_or] at unmarked
      rw [List.cons_append, bindMarkers_cons _ _ _ (Ne.symm unmarked.1),
        inductionHypothesis unmarked.2, List.cons_append]

@[simp] theorem bindMarkers_blank :
    bindMarkers values numbers (.blank :: rest) = .blank :: bindMarkers values numbers rest :=
  bindMarkers_cons _ _ _ (by simp)

@[simp] theorem bindMarkers_word (word : Keyword) :
    bindMarkers values numbers (.word word :: rest) =
      .word word :: bindMarkers values numbers rest :=
  bindMarkers_cons _ _ _ (by simp)

@[simp] theorem bindMarkers_ident (name : Ident) :
    bindMarkers values numbers (.ident name :: rest) =
      .ident name :: bindMarkers values numbers rest :=
  bindMarkers_cons _ _ _ (by simp)

@[simp] theorem bindMarkers_string (value : String) :
    bindMarkers values numbers (.string value :: rest) =
      .string value :: bindMarkers values numbers rest :=
  bindMarkers_cons _ _ _ (by simp)

@[simp] theorem bindMarkers_verbatim (text : String) :
    bindMarkers values numbers (.verbatim text :: rest) =
      .verbatim text :: bindMarkers values numbers rest :=
  bindMarkers_cons _ _ _ (by simp)

@[simp] theorem bindMarkers_leftParen :
    bindMarkers values numbers (.mark .leftParen :: rest) =
      .mark .leftParen :: bindMarkers values numbers rest :=
  bindMarkers_cons _ _ _ (by simp)

@[simp] theorem bindMarkers_rightParen :
    bindMarkers values numbers (.mark .rightParen :: rest) =
      .mark .rightParen :: bindMarkers values numbers rest :=
  bindMarkers_cons _ _ _ (by simp)

@[simp] theorem bindMarkers_comma :
    bindMarkers values numbers (.mark .comma :: rest) =
      .mark .comma :: bindMarkers values numbers rest :=
  bindMarkers_cons _ _ _ (by simp)

end

variable (values : Nat → Literal)

/-- Binding by number a tree whose markers and pieces are given leaves these pieces. -/
def Bound (trace : MarkerTrace) (pieces bound : List Piece) : Prop :=
  ∀ more rest, bindMarkers values (trace.numbers ++ more) (pieces ++ rest) =
    bound ++ bindMarkers values more rest

/-- Binding by number leaves given pieces of each of several trees. -/
inductive Bounds : List MarkerTrace → List (List Piece) → List (List Piece) → Prop where
  | nil : Bounds [] [] []
  | cons {trace : MarkerTrace} {pieces bound : List Piece} {traces : List MarkerTrace}
      {items boundItems : List (List Piece)} (first : Bound values trace pieces bound)
      (rest : Bounds traces items boundItems) :
      Bounds (trace :: traces) (pieces :: items) (bound :: boundItems)

variable {values} in
theorem Bounds.map {ι : Type} {items : List ι} {markers : ι → MarkerTrace}
    {pieces bound : ι → List Piece}
    (each : ∀ item ∈ items, Bound values (markers item) (pieces item) (bound item)) :
    Bounds values (items.map markers) (items.map pieces) (items.map bound) := by
  induction items with
  | nil => exact .nil
  | cons item items inductionHypothesis =>
      rw [List.forall_mem_cons] at each
      exact .cons each.1 (inductionHypothesis each.2)

namespace Bound

variable {values}

theorem unmarked {pieces : List Piece} (none : .mark .question ∉ pieces) :
    Bound values .none pieces pieces :=
  fun _ _ => bindMarkers_append _ _ _ none

theorem empty : Bound values .none [] [] := .unmarked (by simp)

theorem append {front back : MarkerTrace} {left right boundLeft boundRight : List Piece}
    (first : Bound values front left boundLeft) (second : Bound values back right boundRight) :
    Bound values (front ++ back) (left ++ right) (boundLeft ++ boundRight) := by
  intro more rest
  rw [MarkerTrace.append_numbers, List.append_assoc, List.append_assoc, first, second,
    List.append_assoc]

theorem marker (number : Nat) :
    Bound values ⟨[number], false⟩ [.mark .question] (values number).pieces := by
  intro more rest
  simp

variable {trace : MarkerTrace} {pieces bound : List Piece}

/-- Whether a limit reverses its markers says nothing about their numbers. -/
theorem reversing (read : Bound values trace pieces bound) (reversed : Bool) :
    Bound values (trace ++ ⟨[], reversed⟩) pieces bound := by
  intro more rest
  rw [MarkerTrace.append_numbers, List.append_nil, read]

theorem cons {piece : Piece} (other : piece ≠ .mark .question)
    (read : Bound values trace pieces bound) :
    Bound values trace (piece :: pieces) (piece :: bound) := by
  intro more rest
  rw [List.cons_append, bindMarkers_cons _ _ _ other, read]
  rfl

theorem blank (read : Bound values trace pieces bound) :
    Bound values trace (.blank :: pieces) (.blank :: bound) :=
  read.cons (by simp)

theorem word (keyword : Keyword) (read : Bound values trace pieces bound) :
    Bound values trace (.word keyword :: pieces) (.word keyword :: bound) :=
  read.cons (by simp)

/-- Pieces without markers in front. -/
theorem behind {front : List Piece} (none : .mark .question ∉ front)
    (read : Bound values trace pieces bound) :
    Bound values trace (front ++ pieces) (front ++ bound) := by
  have joined := (unmarked none).append read
  rwa [MarkerTrace.none_append] at joined

/-- Pieces without markers at the end. -/
theorem before {back : List Piece} (none : .mark .question ∉ back)
    (read : Bound values trace pieces bound) :
    Bound values trace (pieces ++ back) (bound ++ back) := by
  have joined := read.append (unmarked none)
  rwa [MarkerTrace.append_none] at joined

theorem parens (read : Bound values trace pieces bound) :
    Bound values trace (Piece.parens pieces) (Piece.parens bound) :=
  (read.before (by simp)).cons (by simp)

theorem parensIf (needed : Bool) (read : Bound values trace pieces bound) :
    Bound values trace (Piece.parensIf needed pieces) (Piece.parensIf needed bound) := by
  unfold Piece.parensIf
  split
  · exact read.parens
  · exact read

theorem commaList {traces : List MarkerTrace} {items boundItems : List (List Piece)}
    (read : Bounds values traces items boundItems) :
    Bound values (.joined traces) (Piece.commaList items) (Piece.commaList boundItems) := by
  induction read with
  | nil => exact .empty
  | cons first rest inductionHypothesis =>
      cases rest with
      | nil => simpa [Piece.commaList, MarkerTrace.joined] using first
      | cons second rest =>
          have separated := inductionHypothesis.behind
            (by decide : .mark .question ∉ Piece.comma)
          simpa [Piece.commaList, MarkerTrace.joined] using first.append separated

/-- Trees that stand one behind the other without commas. -/
theorem flatten {traces : List MarkerTrace} {items boundItems : List (List Piece)}
    (read : Bounds values traces items boundItems) :
    Bound values (.joined traces) items.flatten boundItems.flatten := by
  induction read with
  | nil => exact .empty
  | cons first rest inductionHypothesis =>
      rw [List.flatten_cons, List.flatten_cons]
      exact first.append inductionHypothesis

end Bound

/-! ### Parts without markers -/

namespace Piece

@[simp] theorem question_mem_words (keywords : List Keyword) :
    .mark .question ∉ words keywords := by
  unfold words
  induction keywords with
  | nil => simp
  | cons keyword keywords inductionHypothesis =>
      cases keywords with
      | nil => simp
      | cons next keywords => simpa using inductionHypothesis

@[simp] theorem question_mem_clause (keywords : List Keyword) :
    .mark .question ∉ clause keywords := by
  simp [clause]

@[simp] theorem question_mem_flag (wanted : Bool) (keyword : Keyword) :
    .mark .question ∉ flag wanted keyword := by
  unfold flag
  split <;> simp

@[simp] theorem question_mem_parens (pieces : List Piece) :
    .mark .question ∈ parens pieces ↔ .mark .question ∈ pieces := by
  simp [parens]

@[simp] theorem question_mem_commaList (items : List (List Piece)) :
    .mark .question ∈ commaList items ↔ ∃ item ∈ items, .mark .question ∈ item := by
  unfold commaList
  induction items with
  | nil => simp
  | cons item items inductionHypothesis =>
      cases items with
      | nil => simp
      | cons next items =>
          rw [List.intersperse_cons_cons, List.flatten_cons, List.flatten_cons, List.mem_append,
            List.mem_append, inductionHypothesis]
          simp [comma]

@[simp] theorem question_mem_identsInParens (idents : List Ident) :
    .mark .question ∉ identsInParens idents := by
  simp [identsInParens]

@[simp] theorem question_mem_optionalAlias (aliasName : Option Ident) :
    .mark .question ∉ optionalAlias aliasName := by
  cases aliasName <;> simp [optionalAlias]

@[simp] theorem question_mem_optionalIdents (lead : List Piece) (idents : List Ident)
    (unmarked : .mark .question ∉ lead) : .mark .question ∉ optionalIdents lead idents := by
  unfold optionalIdents
  split <;> simp [unmarked]

end Piece

@[simp] theorem Ident.question_mem_qualifierPieces (qualifier : Option Ident) :
    .mark .question ∉ qualifierPieces qualifier := by
  cases qualifier <;> simp [qualifierPieces]

@[simp] theorem TableName.question_mem_pieces (name : TableName) :
    .mark .question ∉ name.pieces := by
  simp [pieces]

@[simp] theorem ColumnRef.question_mem_pieces (ref : ColumnRef) : .mark .question ∉ ref.pieces := by
  simp [pieces]

@[simp] theorem Literal.question_mem_pieces (value : Literal) : .mark .question ∉ value.pieces := by
  induction value with
  | introduced charset value inductionHypothesis =>
      cases value <;> simp_all [pieces]
  | _ => simp [pieces]

@[simp] theorem IndexHint.question_mem_pieces (hint : IndexHint) : .mark .question ∉ hint.pieces := by
  unfold pieces
  split <;> simp

@[simp] theorem NamedTable.question_mem_pieces (table : NamedTable) :
    .mark .question ∉ table.pieces := by
  simp [pieces, partitionPieces]

@[simp] theorem TypeName.question_mem_pieces (target : TypeName) :
    .mark .question ∉ target.pieces := by
  unfold pieces
  split <;> simp [Piece.comma]

@[simp] theorem LockingClause.question_mem_pieces (locking : LockingClause) :
    .mark .question ∉ locking.pieces := by
  unfold pieces
  split <;> split <;> simp

@[simp] theorem SelectModifiers.question_mem_pieces (modifiers : SelectModifiers) :
    .mark .question ∉ modifiers.pieces := by
  unfold pieces
  split <;> split <;> simp

theorem BinaryOp.piece_ne_question (op : BinaryOp) : op.piece ≠ .mark .question := by
  cases op <;> decide

/-! ### Expressions and queries -/

@[simp] theorem Expr.isCompound_bind (expr : Expr) :
    (expr.mapLeaves (.binding values)).isCompound = expr.isCompound := by
  cases expr <;> simp [isCompound, LeafMap.binding]

namespace Bound

variable {values} {trace : MarkerTrace} {pieces bound : List Piece}

/-- A part behind its keywords. -/
theorem clause (keywords : List Keyword) (read : Bound values trace pieces bound) :
    Bound values trace (Piece.clause keywords ++ .blank :: pieces)
      (Piece.clause keywords ++ .blank :: bound) :=
  read.blank.behind (by simp)

/-- An operand in parentheses where they are needed. -/
theorem operand (expr : Expr)
    (read : Bound values expr.markers expr.pieces (expr.mapLeaves (.binding values)).pieces) :
    Bound values expr.markers (Piece.parensIf expr.isCompound expr.pieces)
      (Piece.parensIf (expr.mapLeaves (.binding values)).isCompound
        (expr.mapLeaves (.binding values)).pieces) := by
  rw [Expr.isCompound_bind]
  exact read.parensIf _

/-- A list that is left out when it is empty. -/
theorem listPieces (keywords : List Keyword) {traces : List MarkerTrace}
    {items boundItems : List (List Piece)} (read : Bounds values traces items boundItems) :
    Bound values (.joined traces) (Piece.listPieces keywords items)
      (Piece.listPieces keywords boundItems) := by
  cases read with
  | nil => exact .empty
  | cons first rest => exact (commaList (.cons first rest)).clause keywords

end Bound

@[simp] theorem LockingClause.mapLeaves_bind (locking : LockingClause) :
    locking.mapLeaves (.binding values) = locking := by
  simp [mapLeaves, LeafMap.binding]

@[simp] theorem LockingClause.map_mapLeaves_bind (locking : Option LockingClause) :
    locking.map (mapLeaves (.binding values)) = locking := by
  cases locking <;> simp

theorem Bound.groups {values : Nat → Literal} (terms : List OrderingTerm) (withRollup : Bool)
    (read : Bounds values (terms.map fun term => term.expr.markers)
      (OrderingTerm.termPieces terms)
      (OrderingTerm.termPieces (OrderingTerm.mapTerms (.binding values) terms))) :
    Bound values (OrderingTerm.markers terms)
      (if terms.isEmpty then []
        else Piece.clause [.GROUP, .BY] ++
          .blank :: Piece.commaList (OrderingTerm.termPieces terms) ++
            if withRollup then Piece.clause [.WITH, .ROLLUP] else [])
      (if (OrderingTerm.mapTerms (.binding values) terms).isEmpty then []
        else Piece.clause [.GROUP, .BY] ++ .blank :: Piece.commaList
          (OrderingTerm.termPieces (OrderingTerm.mapTerms (.binding values) terms)) ++
            if withRollup then Piece.clause [.WITH, .ROLLUP] else []) := by
  rw [OrderingTerm.isEmpty_mapTerms]
  have ending : .mark .question ∉
      if withRollup then Piece.clause [.WITH, .ROLLUP] else [] := by
    cases withRollup <;> simp
  split
  · rename_i nothing
    rw [List.isEmpty_iff.mp nothing]
    exact .empty
  · exact ((Bound.commaList read).clause [.GROUP, .BY]).before ending

section

variable {values}

/-- Binding by number an expression leaves the pieces of the bound expression. -/
abbrev Expr.Binds (values : Nat → Literal) (expr : Expr) : Prop :=
  Bound values expr.markers expr.pieces (expr.mapLeaves (.binding values)).pieces

abbrev Query.Binds (values : Nat → Literal) (query : Query) : Prop :=
  Bound values query.markers query.pieces (query.mapLeaves (.binding values)).pieces

abbrev QueryTerm.Binds (values : Nat → Literal) (term : QueryTerm) : Prop :=
  Bound values term.markers term.pieces (term.mapLeaves (.binding values)).pieces

abbrev SelectCore.Binds (values : Nat → Literal) (core : SelectCore) : Prop :=
  Bound values core.markers core.pieces (core.mapLeaves (.binding values)).pieces

abbrev TableRef.Binds (values : Nat → Literal) (ref : TableRef) : Prop :=
  Bound values ref.markers ref.pieces (ref.mapLeaves (.binding values)).pieces

theorem Expr.listBound {items : List Expr} (each : ∀ item ∈ items, item.Binds values) :
    Bound values (Expr.itemMarkers items) (Piece.commaList (Expr.itemPieces items))
      (Piece.commaList (Expr.itemPieces (Expr.mapItems (.binding values) items))) := by
  rw [itemPieces_eq, itemPieces_eq, mapItems_eq, List.map_map]
  exact .commaList (.map each)

theorem Expr.whensBound {whens : List (Expr × Expr)}
    (each : ∀ branch ∈ whens, branch.1.Binds values ∧ branch.2.Binds values) :
    Bound values (.joined (whens.map Expr.whenMarkers)) (Expr.whenPieces whens)
      (Expr.whenPieces (Expr.mapWhens (.binding values) whens)) := by
  have branches : Bounds values (whens.map whenMarkers) (whens.map branchPieces)
      (whens.map fun branch => branchPieces
        (branch.1.mapLeaves (.binding values), branch.2.mapLeaves (.binding values))) := by
    refine .map fun branch member => ?_
    have binds := each branch member
    simpa [branchPieces, whenMarkers] using (binds.1.clause [.WHEN]).append (binds.2.clause [.THEN])
  rw [whenPieces_eq, whenPieces_eq, mapWhens_eq, List.flatMap_map]
  exact .flatten branches

theorem Expr.optionalBound (keywords : List Piece) (unmarked : .mark .question ∉ keywords)
    {found : Option Expr} (each : ∀ tree ∈ found, tree.Binds values) :
    Bound values (optionalMarkers found) (optionalPieces keywords found)
      (optionalPieces keywords (found.map (mapLeaves (.binding values)))) := by
  cases found with
  | none => exact .empty
  | some tree => exact (each tree rfl).blank.behind unmarked

theorem OrderingTerm.termsBound {entries : List OrderingTerm}
    (each : ∀ entry ∈ entries, entry.expr.Binds values) :
    Bounds values (entries.map fun entry => entry.expr.markers) (termPieces entries)
      (termPieces (mapTerms (.binding values) entries)) := by
  rw [termPieces_eq, termPieces_eq, mapTerms_eq, List.map_map]
  refine .map fun entry member => ?_
  obtain ⟨tree, direction, span⟩ := entry
  have ending : .mark .question ∉ SortDirection.pieces direction := by
    rcases direction with _ | _ | _ <;> simp [SortDirection.pieces]
  simpa using (each _ member).before ending

theorem LimitClause.bound {limit : LimitClause} (count : limit.count.Binds values)
    (offset : ∀ tree ∈ limit.offset, tree.Binds values) :
    Bound values (.ofVisits limit.visits) limit.pieces
      (limit.mapLeaves (.binding values)).pieces := by
  obtain ⟨first, second, span⟩ := limit
  have lead := (count.blank.word .LIMIT).append
    (Expr.optionalBound (Piece.clause [.OFFSET]) (by simp) offset)
  rw [LimitClause.pieces_mk, LimitClause.mapLeaves_mk, LimitClause.pieces_mk]
  cases second <;> simpa using lead

theorem TableRef.refsBound {refs : List TableRef} (each : ∀ ref ∈ refs, ref.Binds values) :
    Bounds values (refs.map markers) (refPieces refs)
      (refPieces (mapRefs (.binding values) refs)) := by
  rw [refPieces_eq, refPieces_eq, mapRefs_eq, List.map_map]
  exact .map each

theorem SelectItem.itemsBound {columns : List SelectItem}
    (each : ∀ value aliasName place, SelectItem.expr value aliasName place ∈ columns →
      value.Binds values) :
    Bounds values (columns.map markers) (itemPieces columns)
      (itemPieces (mapItems (.binding values) columns)) := by
  rw [itemPieces_eq, itemPieces_eq, mapItems_eq, List.map_map]
  refine .map fun item member => ?_
  cases item with
  | wildcard span =>
      rw [markers_wildcard]
      exact .unmarked (by simp)
  | qualifiedWildcard schema table span =>
      rw [markers_qualifiedWildcard]
      exact .unmarked (by simp)
  | expr value aliasName span =>
      have ending : .mark .question ∉ Piece.optionalAlias aliasName := by simp
      simpa using (each value aliasName span member).before ending

theorem JoinCondition.bound {condition : Option JoinCondition}
    (each : ∀ test, some (JoinCondition.on test) = condition → test.Binds values) :
    Bound values (JoinCondition.markers condition) (optionalPieces condition)
      (optionalPieces (condition.map (mapLeaves (.binding values)))) := by
  rcases condition with _ | ⟨test⟩ | ⟨columns⟩
  · exact .empty
  · exact (each test rfl).clause [.ON]
  · rw [JoinCondition.markers_using]
    exact .unmarked (by simp [optionalPieces])

theorem Query.tablesBound {withClause : Option WithClause}
    (each : ∀ tables ∈ withClause, ∀ table ∈ WithClause.tables tables,
      table.query.Binds values) :
    Bound values (WithClause.markers withClause) (WithClause.optionalPieces withClause)
      (WithClause.optionalPieces (withClause.map (WithClause.mapLeaves (.binding values)))) := by
  rcases withClause with _ | ⟨recursive, tables, span⟩
  · exact .empty
  have lead : .mark .question ∉ Piece.flag recursive .RECURSIVE := by simp
  have bounds : Bounds values (tables.map CommonTable.markers) (tables.map CommonTable.pieces)
      (tables.map fun table => (table.mapLeaves (.binding values)).pieces) := by
    refine .map fun table member => ?_
    have binds := each _ rfl table member
    obtain ⟨name, columns, rows, span⟩ := table
    have lead : .mark .question ∉
        .ident name :: Piece.optionalIdents [.blank] columns ++ Piece.clause [.AS] := by simp
    simpa using binds.parens.blank.behind lead
  have list := (((Bound.commaList bounds).blank.behind lead).word .WITH).before
    (by simp : .mark .question ∉ [Piece.blank])
  simpa [WithClause.markers, WithClause.optionalPieces, CommonTable.tablePieces_eq,
    CommonTable.mapTables_eq, Function.comp_def] using list

theorem QueryTerm.compoundsBound {compounds : List (CompoundOp × QueryTerm)}
    (each : ∀ compound ∈ compounds, compound.2.Binds values) :
    Bound values (.joined (compounds.map fun compound => compound.2.markers))
      (compoundPieces compounds) (compoundPieces (mapCompounds (.binding values) compounds)) := by
  have bounds : Bounds values (compounds.map fun compound => compound.2.markers)
      (compounds.map unitedPieces)
      (compounds.map fun compound =>
        unitedPieces (compound.1, compound.2.mapLeaves (.binding values))) :=
    .map fun compound member => (each compound member).clause compound.1.keywords
  rw [compoundPieces_eq, compoundPieces_eq, mapCompounds_eq, List.flatMap_map]
  exact .flatten bounds

variable (values) in
/-- Binding passes from the parts of each tree to the tree. -/
theorem treesBind : TreeInduction (Expr.Binds values) (Query.Binds values) (QueryTerm.Binds values)
    (SelectCore.Binds values) (TableRef.Binds values) where
  literal value span := by
    rw [Expr.Binds, Expr.markers_literal]
    exact .unmarked (by simp)
  column name := by
    rw [Expr.Binds, Expr.markers_column]
    exact .unmarked (by simp)
  placeholder index span := by
    rw [Expr.Binds, Expr.markers_placeholder]
    exact .marker index
  default span := by
    rw [Expr.Binds, Expr.markers_default]
    exact .unmarked (by simp)
  binary left op right span first second := by
    have behind := ((Bound.operand right second).blank.cons op.piece_ne_question).blank
    simpa [Expr.Binds] using (Bound.operand left first).append behind
  unary op operand span inner := by
    have lead : .mark .question ∉ op.pieces := by cases op <;> decide
    simpa [Expr.Binds] using (Bound.operand operand inner).behind lead
  is operand negated value span inner := by
    have test : .mark .question ∉
        Piece.clause [.IS] ++ Piece.flag negated .NOT ++ Piece.clause [value.keyword] := by simp
    simpa [Expr.Binds] using (Bound.operand operand inner).before test
  quantified left op quantifier rows span first inner := by
    have behind := inner.parens.clause [quantifier.keyword]
    simpa [Expr.Binds] using (Bound.operand left first).append (behind.cons op.piece_ne_question).blank
  between operand low high negated span inner lower upper := by
    have lead : .mark .question ∉ Piece.flag negated .NOT ++ Piece.clause [.BETWEEN] := by simp
    have bounds := ((Bound.operand low lower).blank.behind lead).append
      ((Bound.operand high upper).clause [.AND])
    simpa [Expr.Binds, MarkerTrace.append_assoc] using (Bound.operand operand inner).append bounds
  inList operand items negated span inner each := by
    have lead : .mark .question ∉ Piece.flag negated .NOT ++ Piece.clause [.IN] := by simp
    have members := (Expr.listBound each).parens.blank.behind lead
    simpa [Expr.Binds] using (Bound.operand operand inner).append members
  inQuery operand rows negated span inner members := by
    have lead : .mark .question ∉ Piece.flag negated .NOT ++ Piece.clause [.IN] := by simp
    simpa [Expr.Binds] using (Bound.operand operand inner).append (members.parens.blank.behind lead)
  like operand pattern escape op negated span inner second last := by
    have lead : .mark .question ∉ Piece.flag negated .NOT ++ Piece.clause [op.keyword] := by simp
    have tested := (Bound.operand operand inner).append
      ((Bound.operand pattern second).blank.behind lead)
    cases escape with
    | none => simpa [Expr.Binds] using tested
    | some char => simpa [Expr.Binds] using tested.append ((Bound.operand char (last char rfl)).clause [.ESCAPE])
  soundsLike operand pattern span inner second := by
    simpa [Expr.Binds] using (Bound.operand operand inner).append
      ((Bound.operand pattern second).clause [.SOUNDS, .LIKE])
  case operand whens otherwise span subject branches last := by
    have ending : .mark .question ∉ Piece.clause [.END] := by simp
    have tested := (Expr.optionalBound [] (by simp) subject).append (Expr.whensBound branches)
    have parts := (tested.append (Expr.optionalBound (Piece.clause [.ELSE]) (by simp) last)).before
      ending
    rw [Expr.Binds, Expr.markers_case, Expr.pieces_case, Expr.mapLeaves_case, Expr.pieces_case]
    exact parts.word .CASE
  cast operand target span inner := by
    have shape : .mark .question ∉ Piece.clause [.AS] ++ .blank :: target.pieces := by simp
    simpa [Expr.Binds] using (inner.before shape).parens.word .CAST
  callStar name distinct span := by
    rw [Expr.Binds, Expr.markers_call_star]
    exact .unmarked (by cases distinct <;> simp)
  call name items distinct span each := by
    have lead : .mark .question ∉ if distinct then [Piece.word .DISTINCT, Piece.blank] else [] := by
      cases distinct <;> simp
    have list := ((Expr.listBound each).behind lead).parens
    simpa [Expr.Binds] using list.cons (by simp : Piece.ident name ≠ .mark .question)
  subquery rows span inner := by simpa [Expr.Binds] using inner.parens
  existsRows rows span inner := by simpa [Expr.Binds] using inner.parens.blank.word .EXISTS
  row items span each := by
    have lead : .mark .question ∉ if items.length = 1 then [Piece.word .ROW] else [] := by
      split <;> simp
    simpa [Expr.Binds] using (Expr.listBound each).parens.behind lead
  collate operand collation span inner := by
    have ending : .mark .question ∉ Piece.clause [.COLLATE] ++ [.blank, .ident collation] := by simp
    simpa [Expr.Binds] using (Bound.operand operand inner).before ending
  wholeQuery withClause body orderBy limit locking span tables first others terms numbers := by
    have united : Bound values body.markers body.pieces
        (body.mapLeaves (.binding values)).pieces := by
      obtain ⟨head, compounds, place⟩ := body
      simpa using first.append (QueryTerm.compoundsBound others)
    have limited : Bound values (LimitClause.markers limit) (LimitClause.optionalPieces limit)
        (LimitClause.optionalPieces (limit.map (LimitClause.mapLeaves (.binding values)))) := by
      cases limit with
      | none => exact .empty
      | some clause =>
          have inner := LimitClause.bound (numbers clause rfl).1 (numbers clause rfl).2
          exact (inner.reversing clause.reversesMarkers).blank
    have locks : .mark .question ∉ LockingClause.optionalPieces locking := by
      cases locking <;> simp [LockingClause.optionalPieces]
    have sorted : Bound values (OrderingTerm.markers orderBy) _ _ :=
      .listPieces [.ORDER, .BY] (OrderingTerm.termsBound terms)
    have parts := (((Query.tablesBound tables).append united).append sorted).append limited
    rw [Query.Binds, Query.markers_mk, Query.pieces_mk, Query.mapLeaves_mk, Query.pieces_mk,
      LockingClause.map_mapLeaves_bind]
    exact parts.before locks
  select block inner := by simpa [QueryTerm.Binds] using inner
  nested rows inner := by simpa [QueryTerm.Binds] using inner.parens
  block modifiers columns sources filter groupBy withRollup having span items refs condition terms
      kept := by
    have grouped := Bound.groups groupBy withRollup (OrderingTerm.termsBound terms)
    have choice := (Bound.commaList (SelectItem.itemsBound items)).blank.behind
      modifiers.question_mem_pieces
    have named := choice.append (Bound.listPieces [.FROM] (TableRef.refsBound refs))
    have filtered := named.append (Expr.optionalBound (Piece.clause [.WHERE]) (by simp) condition)
    have parts := ((filtered.append grouped).append
      (Expr.optionalBound (Piece.clause [.HAVING]) (by simp) kept)).word .SELECT
    rw [SelectCore.Binds, SelectCore.markers_mk, SelectCore.pieces_mk, SelectCore.mapLeaves_mk,
      SelectCore.pieces_mk]
    simpa using parts
  named table := by
    rw [TableRef.Binds, TableRef.markers_named]
    exact .unmarked (by simp)
  derived rows aliasName span inner := by
    have ending : .mark .question ∉ Piece.clause [.AS] ++ [.blank, .ident aliasName] := by simp
    simpa [TableRef.Binds] using inner.parens.before ending
  joined left join right condition span first second test := by
    have tables := first.append (second.clause join.keywords)
    have parts := tables.append (JoinCondition.bound test)
    rw [TableRef.Binds, TableRef.markers_joined, TableRef.pieces_joined, TableRef.mapLeaves_joined,
      TableRef.pieces_joined]
    simpa using parts
  parenthesized inner span each := by
    simpa [TableRef.Binds] using (Bound.commaList (TableRef.refsBound each)).parens

end

/-! ### Statements -/

theorem TableRef.allBound (refs : List TableRef) :
    Bounds values (refs.map markers) (refPieces refs)
      (refPieces (mapRefs (.binding values) refs)) :=
  TableRef.refsBound fun ref _ => (treesBind values).refHolds ref

theorem Assignment.bound (assignment : Assignment) :
    Bound values assignment.markers assignment.pieces
      (assignment.mapLeaves (.binding values)).pieces := by
  obtain ⟨column, value, span⟩ := assignment
  have lead : .mark .question ∉ column.pieces ++ [.blank, .mark .equal] := by simp
  simpa [Assignment.pieces, Assignment.mapLeaves] using
    ((treesBind values).exprHolds value).blank.behind lead

theorem Assignment.bounds (assignments : List Assignment) :
    Bounds values (assignments.map markers) (assignments.map pieces)
      ((assignments.map (mapLeaves (.binding values))).map pieces) := by
  induction assignments with
  | nil => exact .nil
  | cons assignment assignments inductionHypothesis =>
      exact .cons (assignment.bound values) inductionHypothesis

theorem Assignment.listBound (assignments : List Assignment) :
    Bound values (listMarkers assignments) (listPieces assignments)
      (listPieces (assignments.map (mapLeaves (.binding values)))) :=
  .commaList (Assignment.bounds values assignments)

theorem Expr.rowBounds (rows : List (List Expr)) :
    Bounds values (rows.map itemMarkers)
      (rows.map fun row => Piece.parens (Piece.commaList (itemPieces row)))
      ((rows.map (mapItems (.binding values))).map fun row =>
        Piece.parens (Piece.commaList (itemPieces row))) := by
  induction rows with
  | nil => exact .nil
  | cons row rows inductionHypothesis =>
      exact .cons (Expr.listBound fun item _ => (treesBind values).exprHolds item).parens inductionHypothesis

theorem tailPieces_bound (filter : Option Expr) (orderBy : List OrderingTerm)
    (limit : Option LimitClause) :
    Bound values
      (Expr.optionalMarkers filter ++ OrderingTerm.markers orderBy ++
        LimitClause.plainMarkers limit)
      (tailPieces filter orderBy limit)
      (tailPieces (filter.map (Expr.mapLeaves (.binding values)))
        (OrderingTerm.mapTerms (.binding values) orderBy)
        (limit.map (LimitClause.mapLeaves (.binding values)))) := by
  have filtered : Bound values (Expr.optionalMarkers filter)
      (Expr.optionalPieces (Piece.clause [.WHERE]) filter)
      (Expr.optionalPieces (Piece.clause [.WHERE])
        (filter.map (Expr.mapLeaves (.binding values)))) := by
    cases filter with
    | none => exact .empty
    | some condition => exact ((treesBind values).exprHolds condition).clause [.WHERE]
  have limited : Bound values (LimitClause.plainMarkers limit)
      (LimitClause.optionalPieces limit)
      (LimitClause.optionalPieces (limit.map (LimitClause.mapLeaves (.binding values)))) := by
    cases limit with
    | none => exact .empty
    | some clause => exact (LimitClause.bound ((treesBind values).exprHolds _) fun tree _ =>
        (treesBind values).exprHolds tree).blank
  have sorted : Bound values (OrderingTerm.markers orderBy) _ _ :=
    .listPieces [.ORDER, .BY] (OrderingTerm.termsBound fun entry _ => (treesBind values).exprHolds entry.expr)
  rw [tailPieces_eq, tailPieces_eq]
  exact (filtered.append sorted).append limited

theorem InsertSource.bound (source : InsertSource) :
    Bound values source.markers source.pieces (source.mapLeaves (.binding values)).pieces := by
  cases source with
  | values rows =>
      rw [InsertSource.markers_values]
      exact (Bound.commaList (Expr.rowBounds values rows)).clause [.VALUES]
  | select query => exact ((treesBind values).queryHolds query).blank
  | set assignments =>
      rw [InsertSource.markers_set]
      exact (Assignment.listBound values assignments).clause [.SET]

theorem Insert.bound (insert : Insert) :
    Bound values (insert.source.markers ++ Assignment.listMarkers insert.onDuplicate)
      insert.pieces (insert.mapLeaves (.binding values)).pieces := by
  obtain ⟨kind, priority, ignore, table, partitions, columns, source, onDuplicate, span⟩ := insert
  have lead : .mark .question ∉
      (priority.elim [] fun priority => Piece.clause [priority.keyword]) ++
      Piece.flag ignore .IGNORE ++ Piece.clause [.INTO] ++ .blank :: table.pieces ++
      partitionPieces partitions ++ Piece.optionalIdents [.blank] columns := by
    cases priority <;> simp [partitionPieces]
  have updates : Bound values (Assignment.listMarkers onDuplicate)
      (if onDuplicate.isEmpty then []
        else Piece.clause [.ON, .DUPLICATE, .KEY, .UPDATE] ++
          .blank :: Assignment.listPieces onDuplicate)
      (if (onDuplicate.map (Assignment.mapLeaves (.binding values))).isEmpty then []
        else Piece.clause [.ON, .DUPLICATE, .KEY, .UPDATE] ++
          .blank :: Assignment.listPieces
            (onDuplicate.map (Assignment.mapLeaves (.binding values)))) := by
    cases onDuplicate with
    | nil => exact .empty
    | cons assignment assignments =>
        exact (Assignment.listBound values (assignment :: assignments)).clause
          [.ON, .DUPLICATE, .KEY, .UPDATE]
  have parts := (((source.bound values).behind lead).append updates).word kind.keyword
  simp only [Insert.pieces, Insert.mapLeaves, LeafMap.binding_tableName, id_eq,
    List.append_assoc, List.cons_append] at parts ⊢
  cases priority <;> exact parts

theorem Update.bound (update : Update) :
    Bound values (.ofVisits update.visits) update.pieces
      (update.mapLeaves (.binding values)).pieces := by
  obtain ⟨lowPriority, ignore, tables, assignments, filter, orderBy, limit, span⟩ := update
  have lead : .mark .question ∉
      Piece.flag lowPriority .LOW_PRIORITY ++ Piece.flag ignore .IGNORE := by simp
  have named := ((Bound.commaList (TableRef.allBound values tables)).blank.behind lead).append
    ((Assignment.listBound values assignments).clause [.SET])
  have parts := (named.append (tailPieces_bound values filter orderBy limit)).word .UPDATE
  rw [Update.ofVisits_visits]
  simpa only [Update.pieces, Update.mapLeaves, TableRef.listPieces, List.append_assoc,
    List.cons_append, MarkerTrace.append_assoc] using parts

theorem DeleteSource.bound (targets : List TableName) (source : DeleteSource) :
    Bound values source.markers (source.pieces targets)
      ((source.mapLeaves (.binding values)).pieces targets) := by
  cases source with
  | single table =>
      rw [DeleteSource.markers_single]
      have single : .mark .question ∉ (DeleteSource.single table).pieces targets := by
        simp [DeleteSource.pieces]
      exact .unmarked single
  | multi tables afterUsing =>
      have named : .mark .question ∉ targetPieces targets := by simp [targetPieces]
      have rows := Bound.commaList (TableRef.allBound values tables)
      rw [DeleteSource.markers_multi]
      cases afterUsing with
      | false =>
          have lead : .mark .question ∉ .blank :: targetPieces targets := by simp [named]
          simpa [DeleteSource.pieces, DeleteSource.mapLeaves, TableRef.listPieces] using (rows.clause [.FROM]).behind lead
      | true =>
          have lead : .mark .question ∉ Piece.clause [.FROM] ++ .blank :: targetPieces targets := by
            simp [named]
          simpa [DeleteSource.pieces, DeleteSource.mapLeaves, TableRef.listPieces] using (rows.clause [.USING]).behind lead

theorem Delete.bound (delete : Delete) :
    Bound values (.ofVisits delete.visits) delete.pieces
      (delete.mapLeaves (.binding values)).pieces := by
  obtain ⟨lowPriority, quick, ignore, targets, source, filter, orderBy, limit, span⟩ := delete
  have lead : .mark .question ∉ Piece.flag lowPriority .LOW_PRIORITY ++
      Piece.flag quick .QUICK ++ Piece.flag ignore .IGNORE := by simp
  have parts := (((DeleteSource.bound values targets source).behind lead).append
    (tailPieces_bound values filter orderBy limit)).word .DELETE
  rw [Delete.ofVisits_visits]
  simpa [Delete.pieces, Delete.mapLeaves, MarkerTrace.append_assoc] using parts

theorem Statement.bound (statement : Statement) :
    Bound values statement.markers statement.pieces (statement.bind values).pieces := by
  cases statement with
  | select query =>
      rw [Statement.markers_select]
      exact (treesBind values).queryHolds query
  | insert tree =>
      rw [Statement.markers_insert]
      exact tree.bound values
  | update tree => exact tree.bound values
  | delete tree => exact tree.bound values

end SqlDml
