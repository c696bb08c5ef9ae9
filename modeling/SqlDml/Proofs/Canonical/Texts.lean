import SqlDml.Proofs.Canonical.Fronts
import SqlDml.Proofs.Canonical.Written

/-!
Contract: canonical text is read as the signs of its tree.

Owns:
- the clauses without expressions;
- that the text of every legible node is read as the signs of the node, by induction over the tree.

Does not own: that the rules read these signs.
-/

namespace SqlDml

open Piece

variable {settings : Settings}

/-! ### In front of a minus -/

/-- What does not begin with the token of a minus does not begin with its character. -/
theorem Lexed.noMinus {spaced : Bool} {chars : List Char} {signs : List Sign}
    (lexed : Lexed settings spaced chars signs) (other : kindAt signs 0 ≠ .punct .minus) :
    chars.head? ≠ some '-' := by
  cases lexed with
  | ended => simp
  | blank behind => simp
  | @token spaced kind text rest signs spelled plain behind =>
      rw [kindAt_zero] at other
      rcases spelled.start with rfl | rfl | ⟨first, others, rfl, visible⟩
      · exact absurd (spelled.kind_of_mark .minus) other
      · simp
      · rintro same
        obtain rfl : first = '-' := by simpa using same
        exact absurd visible (by decide)

/-- A minus stands in front of anything but another one. -/
theorem Piece.Lexed.minus {spaced : Bool} {pieces : List Piece}
    (lexed : Piece.Lexed settings spaced pieces)
    (other : kindAt (signsOf settings pieces) 0 ≠ .punct .minus) :
    Piece.Lexed settings false (.mark .minus :: pieces) := by
  refine .token rfl (Punct.spelled_single rfl (by simp)) ?_ lexed
  rintro (⟨_, behind, same, _⟩ | ⟨slash, _⟩)
  · exact SqlDml.Lexed.noMinus lexed other (by rw [same]; rfl)
  · exact absurd slash (by decide)

/-! ### Clauses without expressions -/

theorem SelectModifiers.appended (modifiers : SelectModifiers) :
    Appended settings modifiers.pieces := by
  obtain ⟨quantifier, high, straight, small, big, buffer, cache, rows⟩ := modifiers
  have flags : ∀ wanted keyword, Appended settings (flag wanted keyword) := .flag
  refine (((((((Appended.append ?quantified (flags _ _)).append (flags _ _)).append
    (flags _ _)).append (flags _ _)).append (flags _ _)).append ?cached).append (flags _ _))
  case quantified =>
    rcases quantifier with _ | _ | _ | _
    · exact .nil
    all_goals exact .clause (List.cons_ne_nil _ _)
  case cached =>
    rcases cache with _ | _ | _
    · exact .nil
    all_goals exact .clause (List.cons_ne_nil _ _)

theorem SortDirection.appended (direction : Option SortDirection) :
    Appended settings (SortDirection.pieces direction) := by
  rcases direction with _ | _ | _
  · exact .nil
  all_goals exact .clause (List.cons_ne_nil _ _)

theorem LockWait.appended (wait : Option LockWait) :
    Appended settings (match wait with
      | some .noWait => clause [.NOWAIT]
      | some .skipLocked => clause [.SKIP, .LOCKED]
      | none => []) := by
  rcases wait with _ | _ | _
  · exact .nil
  all_goals exact .clause (List.cons_ne_nil _ _)

theorem LockingClause.written {locking : LockingClause}
    (named : ∀ name ∈ locking.tables, name.Named settings) :
    Written settings locking.pieces := by
  obtain ⟨mode, tables, wait, span⟩ := locking
  have modes : Written settings (words mode.keywords) := .words (by cases mode <;> simp [LockMode.keywords])
  have names : Appended settings (if tables.isEmpty then []
      else clause [.OF] ++ .blank :: commaList (tables.map TableName.pieces)) := by
    cases tables with
    | nil => exact .nil
    | cons first others =>
        refine .clauseOf (List.cons_ne_nil _ _) (.commaList (List.cons_ne_nil _ _) fun item member => ?_)
        obtain ⟨name, among, rfl⟩ := List.mem_map.mp member
        exact .tableName (named name among)
  exact (modes.append names).append (LockWait.appended wait)

theorem IndexHintScope.appended (scope : Option IndexHintScope) :
    Appended settings (match scope with
      | some .join => clause [.FOR, .JOIN]
      | some .orderBy => clause [.FOR, .ORDER, .BY]
      | some .groupBy => clause [.FOR, .GROUP, .BY]
      | none => []) := by
  rcases scope with _ | _ | _ | _
  · exact .nil
  all_goals exact .clause (List.cons_ne_nil _ _)

theorem IndexHint.written {hint : IndexHint} (plain : ∀ index ∈ hint.indexes, index.Plain settings) :
    Written settings hint.pieces := by
  obtain ⟨action, scope, indexes, span⟩ := hint
  have front : Written settings (words [action.keyword, .INDEX]) := .words (List.cons_ne_nil _ _)
  exact (front.append (IndexHintScope.appended scope)).append (.blank (.identsInParens plain))

theorem NamedTable.written {table : NamedTable} (named : table.name.Named settings)
    (spelt : table.Spelt settings) : Written settings table.pieces := by
  obtain ⟨name, partitions, aliasName, hints, span⟩ := table
  obtain ⟨parts, alias_, indexes⟩ := spelt
  have partitioned : Appended settings (partitionPieces partitions) :=
    .optionalIdents parts fun written => by
      rw [List.append_assoc]
      exact .clauseOf (List.cons_ne_nil _ _) written
  have aliased : Appended settings (optionalAlias aliasName) :=
    .optionalAlias (fun ident found => .inl (alias_ ident found))
      fun ident found => (alias_ ident found).regular
  have hinted : Appended settings (hints.flatMap fun hint => .blank :: hint.pieces) :=
    .flatMap fun hint member => .blank (IndexHint.written (indexes hint member))
  exact (((Written.tableName named).append partitioned).append aliased).append hinted

/-! ### Nodes -/

/-- The text of a node is read as its signs. -/
def Node.IsWritten (settings : Settings) : Node → Prop
  | .statement _ => True
  | .query tree => Piece.Written settings tree.pieces
  | .core tree => Piece.Written settings tree.pieces
  | .item tree => Piece.Written settings tree.pieces
  | .ref tree => Piece.Written settings tree.pieces
  | .table tree => Piece.Written settings tree.pieces
  | .tableName name => Piece.Written settings name.pieces
  | .expr tree => Piece.Written settings tree.pieces
  | .column name => Piece.Written settings name.pieces

theorem BinaryOp.written (op : BinaryOp) : Written settings [op.piece] := by
  cases op <;> first | exact .word _ | exact .mark _

namespace Expr

theorem written_items {items : List Expr}
    (each : ∀ child ∈ items.map Node.expr, child.IsWritten settings) :
    ∀ item ∈ Expr.itemPieces items, Written settings item := by
  rw [itemPieces_eq, List.forall_mem_map]
  rw [List.forall_mem_map] at each
  exact each

/-- An operator in front of an operand. -/
theorem written_unary {op : UnaryOp} {operand : Expr}
    (all : (Node.expr operand).AllLegible settings) (written : Written settings operand.pieces) :
    Written settings (op.pieces ++ parensIf operand.isCompound operand.pieces) := by
  have inside : Written settings (parensIf operand.isCompound operand.pieces) := written.parensIf
  refine ⟨fun {spaced rest} ended lexed => ?_⟩
  have behind := inside.inFront ended lexed
  have begins := begins_operandSigns all (signsOf settings rest)
  have other : kindAt (signsOf settings (parensIf operand.isCompound operand.pieces ++ rest)) 0 ≠
      .punct .minus := by
    intro minus
    rw [signsOf_append, signsOf_parensIf] at minus
    rw [minus] at begins
    cases begins
  cases op with
  | negate => exact .minus behind other
  | plus => exact .single .plus rfl behind
  | bitNot => exact .single .tilde rfl behind
  | not => exact .word .NOT rfl (.blank behind)
  | binary => exact .word .BINARY rfl (.blank behind)

theorem written {tree : Expr} (all : (Node.expr tree).AllLegible settings)
    (children : ∀ child ∈ tree.children, child.IsWritten settings) :
    Written settings tree.pieces := by
  have operand : ∀ {child : Expr}, Node.expr child ∈ tree.children →
      Written settings (parensIf child.isCompound child.pieces) := by
    intro child member
    have inside : Written settings child.pieces := children _ member
    exact inside.parensIf
  have whole : ∀ {child : Expr}, Node.expr child ∈ tree.children → Written settings child.pieces :=
    fun member => children _ member
  have query : ∀ {child : Query}, Node.query child ∈ tree.children →
      Written settings (parens child.pieces) := by
    intro child member
    have inside : Written settings child.pieces := children _ member
    exact inside.parens
  have keyword : ∀ keyword : Keyword, Appended settings (clause [keyword]) :=
    fun keyword => .clause (List.cons_ne_nil _ _)
  cases tree with
  | literal value span => exact .constant all.self.spelt all.self.ordinary.1
  | column ref =>
      have below : (Node.column ref).AllLegible settings := all.child (by simp)
      exact .columnRef below.self.spelt
  | placeholder => exact .mark .question
  | default => exact .word .DEFAULT
  | binary left op right span =>
      have first : Written settings (parensIf left.isCompound left.pieces) := operand (by simp)
      have second : Written settings (parensIf right.isCompound right.pieces) := operand (by simp)
      rw [pieces]
      exact first.append (.blank (op.written.append (.blank second)))
  | unary op below span =>
      rw [pieces]
      exact written_unary (all.child (by simp)) (whole (by simp))
  | is below negated value span =>
      have first : Written settings (parensIf below.isCompound below.pieces) := operand (by simp)
      rw [pieces]
      exact ((first.append (keyword .IS)).append (.flag negated .NOT)).append (keyword value.keyword)
  | quantified left op quantifier rows span =>
      have first : Written settings (parensIf left.isCompound left.pieces) := operand (by simp)
      have second : Written settings (parens rows.pieces) := query (by simp)
      rw [pieces]
      exact (first.append (.blank (op.written.append (keyword quantifier.keyword)))).append
        (.blank second)
  | between below low high negated span =>
      have first : Written settings (parensIf below.isCompound below.pieces) := operand (by simp)
      have second : Written settings (parensIf low.isCompound low.pieces) := operand (by simp)
      have third : Written settings (parensIf high.isCompound high.pieces) := operand (by simp)
      rw [pieces]
      exact ((((first.append (.flag negated .NOT)).append (keyword .BETWEEN)).append
        (.blank second)).append (keyword .AND)).append (.blank third)
  | isIn below set negated span =>
      have first : Written settings (parensIf below.isCompound below.pieces) := operand (by simp)
      have second : Written settings (parens set.pieces) := by
        cases set with
        | list items =>
            exact .listInParens (written_items fun child member => children child (by
              simp only [Expr.children, InSet.children, List.mem_cons]
              exact .inr member))
        | subquery rows => exact query (by simp)
      rw [pieces]
      exact ((first.append (.flag negated .NOT)).append (keyword .IN)).append (.blank second)
  | like below pattern escape op negated span =>
      have first : Written settings (parensIf below.isCompound below.pieces) := operand (by simp)
      have second : Written settings (parensIf pattern.isCompound pattern.pieces) :=
        operand (by simp)
      have front := (((first.append (.flag negated .NOT)).append (keyword op.keyword)).append
        (.blank second))
      cases escape with
      | none =>
          rw [pieces]
          exact front.append .nil
      | some char =>
          have third : Written settings (parensIf char.isCompound char.pieces) := operand (by simp)
          rw [pieces]
          exact front.append (.clauseOf (List.cons_ne_nil _ _) third)
  | soundsLike below pattern span =>
      have first : Written settings (parensIf below.isCompound below.pieces) := operand (by simp)
      have second : Written settings (parensIf pattern.isCompound pattern.pieces) :=
        operand (by simp)
      rw [pieces]
      exact (first.append (.clause (List.cons_ne_nil _ _))).append (.blank second)
  | case subject whens otherwise span =>
      have optional : ∀ {found : Option Expr} {keywords : List Piece}, Appended settings keywords →
          (∀ child ∈ found, Node.expr child ∈ (case subject whens otherwise span).children) →
            Appended settings (Expr.optionalPieces keywords found) := by
        intro found keywords lead member
        cases found with
        | none => exact .nil
        | some child => exact lead.append (.blank (whole (member child rfl)))
      have branches : Appended settings (Expr.whenPieces whens) := by
        rw [Expr.whenPieces_eq]
        refine .flatMap fun branch member => ?_
        obtain ⟨among, behind⟩ := children_of_branch member
        have condition : Written settings branch.1.pieces := whole among
        have result : Written settings branch.2.pieces := whole behind
        exact ((Appended.clauseOf (List.cons_ne_nil _ _) condition).append
          (keyword .THEN)).append (.blank result)
      rw [pieces_case]
      exact ((((Written.word .CASE).append
        (optional .nil fun child found => child_of_subject found)).append branches).append
          (optional (keyword .ELSE) fun child found => child_of_otherwise found)).append
            (keyword .END)
  | cast below target span =>
      have inside : Written settings below.pieces := whole (by simp)
      have typed : Written settings target.pieces := .typeName all.self.spelt
      rw [pieces]
      exact (Written.word .CAST).append
        (.parens ((inside.append (keyword .AS)).append (.blank typed)).parens)
  | call name args distinct span =>
      have named : Written settings [.ident name] := .name all.self.spelt.1
      have inside : Written settings
          (parens ((if distinct then [.word .DISTINCT, .blank] else []) ++ args.pieces)) := by
        cases args with
        | star =>
            have star : Written settings [.mark .star] := .mark .star
            cases distinct with
            | true => exact ((Written.word .DISTINCT).append (.blank star)).parens
            | false => exact star.parens
        | list items =>
            have each := written_items children
            cases distinct with
            | false => exact .listInParens each
            | true =>
                obtain ⟨arguments, some_, same⟩ := all.self.shaped rfl
                cases same
                have nonempty : itemPieces items ≠ [] := by
                  rw [itemPieces_eq]
                  simpa using some_
                exact ((Written.word .DISTINCT).append (.blank (.commaList nonempty each))).parens
      rw [pieces]
      exact named.append (.parens inside)
  | subquery rows span => exact query (by simp)
  | «exists» rows span =>
      have inside : Written settings (parens rows.pieces) := query (by simp)
      rw [pieces]
      exact (Written.word .EXISTS).append (.blank inside)
  | row items span =>
      have inside : Written settings (parens (commaList (itemPieces items))) :=
        .listInParens (written_items children)
      rw [pieces]
      split
      · exact (Written.word .ROW).append (.parens inside)
      · exact inside
  | collate below collation span =>
      have first : Written settings (parensIf below.isCompound below.pieces) := operand (by simp)
      have label : Written settings [.ident collation] := .ident all.self.spelt all.self.ordinary
      rw [pieces]
      exact (first.append (keyword .COLLATE)).append (.blank label)

end Expr

/-! ### Queries -/

theorem Expr.appended_optional {lead : List Piece} {found : Option Expr}
    (front : Appended settings lead)
    (written : ∀ child ∈ found, Written settings child.pieces) :
    Appended settings (Expr.optionalPieces lead found) := by
  cases found with
  | none => exact .nil
  | some child => exact front.append (.blank (written child rfl))

theorem OrderingTerm.written_terms {terms : List OrderingTerm}
    (each : ∀ term ∈ terms, Written settings term.expr.pieces) :
    ∀ item ∈ OrderingTerm.termPieces terms, Written settings item := by
  rw [OrderingTerm.termPieces_eq, List.forall_mem_map]
  rintro ⟨expr, direction, span⟩ member
  have inside : Written settings expr.pieces := each _ member
  rw [OrderingTerm.pieces]
  exact inside.append (SortDirection.appended direction)

theorem LimitClause.appended_optional {limit : Option LimitClause}
    (written : ∀ found ∈ limit, Written settings found.count.pieces ∧
      ∀ offset ∈ found.offset, Written settings offset.pieces) :
    Appended settings (LimitClause.optionalPieces limit) := by
  cases limit with
  | none => exact .nil
  | some limit =>
      obtain ⟨count, offset, place⟩ := limit
      obtain ⟨number, offsets⟩ := written _ rfl
      rw [optionalPieces, pieces_mk]
      exact .blank (((Written.word .LIMIT).append (.blank number)).append
        (Expr.appended_optional (.clause (List.cons_ne_nil _ _)) offsets))

theorem CommonTable.written {table : CommonTable} (spelt : table.Spelt settings)
    (inside : Written settings table.query.pieces) : Written settings table.pieces := by
  obtain ⟨name, columns, query, span⟩ := table
  have named : Written settings [.ident name] := .name spelt.1
  have listed : Appended settings (optionalIdents [.blank] columns) :=
    .optionalIdents spelt.2 fun written => .blank written
  rw [CommonTable.pieces]
  exact ((named.append listed).append (.clause (List.cons_ne_nil _ _))).append (.blank inside.parens)

theorem QueryTerm.written {term : QueryTerm} (inside : term.node.IsWritten settings) :
    Written settings term.pieces := by
  cases term with
  | select core => exact inside
  | nested query =>
      have query : Written settings query.pieces := inside
      exact query.parens

theorem Query.written {tree : Query} (all : (Node.query tree).AllLegible settings)
    (children : ∀ child ∈ tree.children, child.IsWritten settings) :
    Written settings tree.pieces := by
  obtain ⟨withClause, ⟨first, compounds, place⟩, orderBy, limit, locking, span⟩ := tree
  simp only [Query.children, LimitClause.children, List.forall_mem_append, List.forall_mem_cons,
    List.forall_mem_map, List.forall_mem_flatMap, Option.mem_toList] at children
  obtain ⟨⟨⟨⟨tables, term, terms⟩, entries⟩, numbers⟩, _⟩ := children
  have body : Written settings (QueryBody.mk first compounds place).pieces := by
    rw [QueryBody.pieces, QueryTerm.compoundPieces_eq]
    refine (QueryTerm.written term).append (.flatMap fun compound member => ?_)
    exact (Appended.clause (by rcases compound with ⟨_ | _, _⟩ <;> simp [CompoundOp.keywords])).append
      (.blank (QueryTerm.written (terms compound member)))
  have ordered : Appended settings (listPieces [.ORDER, .BY] (OrderingTerm.termPieces orderBy)) :=
    .listPieces (List.cons_ne_nil _ _) (OrderingTerm.written_terms entries)
  have limited : Appended settings (LimitClause.optionalPieces limit) :=
    LimitClause.appended_optional fun found member => numbers found member
  have locked : Appended settings (LockingClause.optionalPieces locking) := by
    cases locking with
    | none => exact .nil
    | some locking =>
        refine .blank (LockingClause.written fun name member => ?_)
        have below : (Node.tableName name).AllLegible settings := all.child (by
          simp only [Node.children, Query.children, List.mem_append, List.mem_flatMap,
            Option.mem_toList]
          exact .inr ⟨locking, rfl, List.mem_map_of_mem member⟩)
        exact below.self.spelt
  have whole := ((body.append ordered).append limited).append locked
  rw [Query.pieces_mk]
  cases withClause with
  | none => exact whole
  | some clause =>
      obtain ⟨recursive, commons, place⟩ := clause
      obtain ⟨nonempty, spelt⟩ := all.self.spelt _ rfl
      have front : Written settings (WithClause.mk recursive commons place).pieces := by
        rw [WithClause.pieces, CommonTable.tablePieces_eq]
        refine ((Written.word .WITH).append (.flag recursive .RECURSIVE)).append
          (.blank (.commaList (by simpa using nonempty) ?_))
        rw [List.forall_mem_map]
        exact fun table member =>
          CommonTable.written (spelt table member) (tables _ rfl table member)
      rw [WithClause.optionalPieces]
      simpa using front.append (.blank whole)

/-! ### Select blocks and tables -/

theorem SelectItem.written {item : SelectItem} (all : (Node.item item).AllLegible settings)
    (children : ∀ child ∈ item.children, child.IsWritten settings) :
    Written settings item.pieces := by
  cases item with
  | wildcard span => exact .mark .star
  | qualifiedWildcard schema table span => exact .wildcard all.self.spelt
  | expr value aliasName span =>
      have inside : Written settings value.pieces := children (.expr value) (by simp)
      rw [SelectItem.pieces]
      exact inside.append (.optionalAlias all.self.spelt all.self.ordinary)

theorem SelectCore.written {core : SelectCore} (all : (Node.core core).AllLegible settings)
    (children : ∀ child ∈ core.children, child.IsWritten settings) :
    Written settings core.pieces := by
  obtain ⟨modifiers, columns, sources, filter, groupBy, withRollup, having, span⟩ := core
  simp only [SelectCore.children, List.forall_mem_append, List.forall_mem_map,
    Option.mem_toList] at children
  obtain ⟨⟨⟨⟨items, refs⟩, filters⟩, entries⟩, havings⟩ := children
  have selected : Written settings (commaList (SelectItem.itemPieces columns)) := by
    have nonempty : columns ≠ [] := all.self.spelt
    rw [SelectItem.itemPieces_eq]
    refine .commaList (by simpa using nonempty) ?_
    rw [List.forall_mem_map]
    exact items
  have listed : Appended settings (listPieces [.FROM] (TableRef.refPieces sources)) := by
    rw [TableRef.refPieces_eq]
    refine .listPieces (List.cons_ne_nil _ _) ?_
    rw [List.forall_mem_map]
    exact refs
  have grouped : Appended settings (if groupBy.isEmpty then []
      else clause [.GROUP, .BY] ++ .blank :: commaList (OrderingTerm.termPieces groupBy) ++
        if withRollup then clause [.WITH, .ROLLUP] else []) := by
    cases groupBy with
    | nil => exact .nil
    | cons term terms =>
        have terms := OrderingTerm.written_terms entries
        exact (Appended.clauseOf (List.cons_ne_nil _ _) (.commaList (List.cons_ne_nil _ _) terms)).append
          (.ite (.clause (List.cons_ne_nil _ _)) .nil)
  rw [SelectCore.pieces_mk]
  exact (((((((Written.word .SELECT).append modifiers.appended).append (.blank selected)).append
    listed).append (Expr.appended_optional (.clause (List.cons_ne_nil _ _)) filters)).append
      grouped).append (Expr.appended_optional (.clause (List.cons_ne_nil _ _)) havings))

theorem TableRef.written {ref : TableRef} (all : (Node.ref ref).AllLegible settings)
    (children : ∀ child ∈ ref.children, child.IsWritten settings) :
    Written settings ref.pieces := by
  cases ref with
  | named table => exact children (.table table) (by simp)
  | derived query aliasName span =>
      have inside : Written settings query.pieces := children (.query query) (by simp)
      have label : Written settings [.ident aliasName] := .name all.self.spelt
      rw [TableRef.pieces]
      exact (inside.parens.append (.clause (List.cons_ne_nil _ _))).append (.blank label)
  | joined left join right condition span =>
      have first : Written settings left.pieces := children (.ref left) (by simp)
      have second : Written settings right.pieces := children (.ref right) (by simp)
      have words : Appended settings (clause join.keywords) :=
        .clause (by cases join <;> simp [JoinType.keywords])
      have tested : Appended settings (JoinCondition.optionalPieces condition) := by
        cases condition with
        | none => exact .nil
        | some test =>
            cases test with
            | on condition =>
                have inside : Written settings condition.pieces :=
                  children (.expr condition) (by simp)
                exact .clauseOf (List.cons_ne_nil _ _) inside
            | «using» columns =>
                have spelt := all.self.spelt _ rfl
                exact .clauseOf (List.cons_ne_nil _ _) (.identsInParens spelt.2)
      rw [TableRef.pieces_joined]
      exact ((first.append words).append (.blank second)).append tested
  | parenthesized inner span =>
      have each : ∀ item ∈ TableRef.refPieces inner, Written settings item := by
        rw [TableRef.refPieces_eq, List.forall_mem_map]
        exact fun source member => children (.ref source) (by simpa using member)
      exact .listInParens each

/-! ### All nodes -/

/-- The text of a legible node is read as its signs. -/
theorem Node.isWritten {node : Node} (all : node.AllLegible settings) : node.IsWritten settings := by
  induction node using Node.induction with
  | step node inductionHypothesis =>
      have children : ∀ child ∈ node.children, child.IsWritten settings :=
        fun child member => inductionHypothesis child member (all.child member)
      cases node with
      | statement tree => trivial
      | query tree => exact Query.written all children
      | core tree => exact SelectCore.written all children
      | item tree => exact SelectItem.written all children
      | ref tree => exact TableRef.written all children
      | table tree =>
          have named : (Node.tableName tree.name).AllLegible settings := all.child (by simp)
          exact NamedTable.written named.self.spelt all.self.spelt
      | tableName name => exact Piece.Written.tableName all.self.spelt
      | expr tree => exact Expr.written all children
      | column name => exact Piece.Written.columnRef all.self.spelt

end SqlDml
