import SqlDml.Render.Tree
import SqlDml.Tree.Statement

/-!
Contract: how many nesting levels canonical text takes.

Owns:
- the levels that the rules open to read a tree from its canonical text, by recursion over the tree:
  operands in parentheses, the right operands of operators, and queries;
- when a number of levels is enough for a tree, told by its parts.

Does not own: that the rules open these levels and no others.
-/

namespace SqlDml

/-- The levels that parentheses around a compound operand take. -/
def Expr.parenLevels (tree : Expr) : Nat := tree.isCompound.toNat

/-- Whether the first table of a reference stands in parentheses together with others. -/
def TableRef.opensTables : TableRef → Bool
  | .parenthesized _ _ => true
  | .joined left _ _ _ _ => left.opensTables
  | _ => false

mutual
/-- The nesting levels that are opened below an expression.  A left operand is read on the level of
the expression; every other part takes a level of its own. -/
def Expr.levels : Expr → Nat
  | .literal _ _ | .column _ | .placeholder _ _ | .default _ => 0
  | .binary left _ right _ =>
      max (left.levels + left.parenLevels) (right.levels + right.parenLevels + 1)
  | .unary _ operand _ => operand.levels + operand.parenLevels + 1
  | .is operand _ _ _ | .collate operand _ _ => operand.levels + operand.parenLevels
  | .quantified left _ _ query _ => max (left.levels + left.parenLevels) (query.levels + 1)
  | .between operand low high _ _ =>
      max (operand.levels + operand.parenLevels)
        (max (low.levels + low.parenLevels + 1) (high.levels + high.parenLevels + 1))
  | .isIn operand set _ _ => max (operand.levels + operand.parenLevels) set.levels
  | .like operand pattern escape _ _ _ =>
      max (operand.levels + operand.parenLevels)
        (max (pattern.levels + pattern.parenLevels + 1)
          (match escape with
            | some char => char.levels + char.parenLevels + 1
            | none => 0))
  | .soundsLike operand pattern _ =>
      max (operand.levels + operand.parenLevels) (pattern.levels + pattern.parenLevels + 1)
  | .case operand whens otherwise _ =>
      max
        (match operand with
          | some expr => expr.levels + 1
          | none => 0)
        (max (Expr.whenLevels whens)
          (match otherwise with
            | some expr => expr.levels + 1
            | none => 0))
  | .cast operand _ _ => operand.levels + 1
  | .call _ args _ _ => args.levels
  | .subquery query _ | .exists query _ => query.levels + 1
  | .row items _ => Expr.itemLevels items

def Expr.itemLevels : List Expr → Nat
  | [] => 0
  | item :: items => max (item.levels + 1) (Expr.itemLevels items)

def Expr.whenLevels : List (Expr × Expr) → Nat
  | [] => 0
  | (condition, result) :: whens =>
      max (max (condition.levels + 1) (result.levels + 1)) (Expr.whenLevels whens)

def InSet.levels : InSet → Nat
  | .list items => Expr.itemLevels items
  | .subquery query => query.levels + 1

def CallArgs.levels : CallArgs → Nat
  | .star => 0
  | .list items => Expr.itemLevels items

/-- The nesting levels that are opened below a query. -/
def Query.levels : Query → Nat
  | ⟨withClause, body, orderBy, _, _, _⟩ =>
      max
        (match withClause with
          | some tables => tables.levels
          | none => 0)
        (max body.levels (OrderingTerm.termLevels orderBy))

def WithClause.levels : WithClause → Nat
  | ⟨_, tables, _⟩ => CommonTable.tableLevels tables

def CommonTable.levels : CommonTable → Nat
  | ⟨_, _, query, _⟩ => query.levels + 1

def CommonTable.tableLevels : List CommonTable → Nat
  | [] => 0
  | table :: tables => max table.levels (CommonTable.tableLevels tables)

def QueryBody.levels : QueryBody → Nat
  | ⟨first, compounds, _⟩ => max first.levels (QueryTerm.compoundLevels compounds)

def QueryTerm.levels : QueryTerm → Nat
  | .select core => core.levels
  | .nested query => query.levels + 1

def QueryTerm.compoundLevels : List (CompoundOp × QueryTerm) → Nat
  | [] => 0
  | (_, term) :: compounds => max term.levels (QueryTerm.compoundLevels compounds)

def SelectCore.levels : SelectCore → Nat
  | ⟨_, columns, sources, filter, groupBy, _, having, _⟩ =>
      max (SelectItem.itemLevels columns)
        (max (TableRef.refLevels sources)
          (max
            (match filter with
              | some condition => condition.levels + 1
              | none => 0)
            (max (OrderingTerm.termLevels groupBy)
              (match having with
                | some condition => condition.levels + 1
                | none => 0))))

def SelectItem.levels : SelectItem → Nat
  | .wildcard _ | .qualifiedWildcard _ _ _ => 0
  | .expr value _ _ => value.levels + 1

def SelectItem.itemLevels : List SelectItem → Nat
  | [] => 0
  | item :: items => max item.levels (SelectItem.itemLevels items)

def OrderingTerm.levels : OrderingTerm → Nat
  | ⟨expr, _, _⟩ => expr.levels + 1

def OrderingTerm.termLevels : List OrderingTerm → Nat
  | [] => 0
  | term :: terms => max term.levels (OrderingTerm.termLevels terms)

/-- The nesting levels that are opened for a table reference.  Two parentheses might begin a query, and
behind them a third level is opened to see that they do not. -/
def TableRef.levels : TableRef → Nat
  | .named _ => 0
  | .derived query _ _ => query.levels + 2
  | .joined left _ right condition _ =>
      max left.levels
        (max right.levels
          (match condition with
            | some test => test.levels
            | none => 0))
  | .parenthesized inner _ =>
      max (if inner.head?.any TableRef.opensTables then 2 else 0) (TableRef.refLevels inner) + 1

def TableRef.refLevels : List TableRef → Nat
  | [] => 0
  | ref :: refs => max ref.levels (TableRef.refLevels refs)

def JoinCondition.levels : JoinCondition → Nat
  | .on condition => condition.levels + 1
  | .using _ => 0
end

/-! ### Statements -/

def Assignment.levels (assignment : Assignment) : Nat := assignment.value.levels + 1

/-- The most levels that any of several trees takes. -/
def mostLevels {α : Type} (levels : α → Nat) (trees : List α) : Nat :=
  trees.foldr (fun tree most => max (levels tree) most) 0

def InsertSource.levels : InsertSource → Nat
  | .values rows => mostLevels Expr.itemLevels rows
  | .select query => query.levels + 1
  | .set assignments => mostLevels Assignment.levels assignments

def DeleteSource.levels : DeleteSource → Nat
  | .single _ => 0
  | .multi tables _ => TableRef.refLevels tables

/-- The levels of the clauses that updates and deletes end with. -/
def tailLevels (filter : Option Expr) (orderBy : List OrderingTerm) : Nat :=
  max (mostLevels (fun condition => condition.levels + 1) filter.toList)
    (OrderingTerm.termLevels orderBy)

/-- The nesting levels that are opened for a statement. -/
def Statement.levels : Statement → Nat
  | .select query => query.levels + 1
  | .insert tree => max tree.source.levels (mostLevels Assignment.levels tree.onDuplicate)
  | .update tree =>
      max (TableRef.refLevels tree.tables)
        (max (mostLevels Assignment.levels tree.assignments) (tailLevels tree.filter tree.orderBy))
  | .delete tree => max tree.source.levels (tailLevels tree.filter tree.orderBy)

/-! ### Enough levels -/

section

variable {levels : Nat}

namespace Expr

theorem itemLevels_le {items : List Expr} :
    itemLevels items ≤ levels ↔ ∀ item ∈ items, item.levels + 1 ≤ levels := by
  induction items with
  | nil => simp [itemLevels]
  | cons item items inductionHypothesis =>
      rw [itemLevels, Nat.max_le, inductionHypothesis, List.forall_mem_cons]

theorem whenLevels_le {whens : List (Expr × Expr)} :
    whenLevels whens ≤ levels ↔
      ∀ branch ∈ whens, branch.1.levels + 1 ≤ levels ∧ branch.2.levels + 1 ≤ levels := by
  induction whens with
  | nil => simp [whenLevels]
  | cons branch whens inductionHypothesis =>
      rw [whenLevels, Nat.max_le, Nat.max_le, inductionHypothesis, List.forall_mem_cons]

theorem like_levels_le {operand pattern : Expr} {escape : Option Expr} {op : LikeOp}
    {negated : Bool} {span : Span} :
    (like operand pattern escape op negated span).levels ≤ levels ↔
      operand.levels + operand.parenLevels ≤ levels ∧
        pattern.levels + pattern.parenLevels + 1 ≤ levels ∧
          ∀ char ∈ escape, char.levels + char.parenLevels + 1 ≤ levels := by
  cases escape <;> simp only [Expr.levels, Nat.max_le] <;> simp

theorem case_levels_le {operand otherwise : Option Expr} {whens : List (Expr × Expr)} {span : Span} :
    (case operand whens otherwise span).levels ≤ levels ↔
      (∀ tree ∈ operand, tree.levels + 1 ≤ levels) ∧
        (∀ branch ∈ whens, branch.1.levels + 1 ≤ levels ∧ branch.2.levels + 1 ≤ levels) ∧
          ∀ tree ∈ otherwise, tree.levels + 1 ≤ levels := by
  cases operand <;> cases otherwise <;> simp only [Expr.levels, Nat.max_le, whenLevels_le] <;> simp

end Expr

theorem CallArgs.levels_le {args : CallArgs} :
    args.levels ≤ levels ↔ ∀ items, args = .list items → ∀ item ∈ items, item.levels + 1 ≤ levels := by
  cases args with
  | star => simp [CallArgs.levels]
  | list items =>
      rw [CallArgs.levels, Expr.itemLevels_le]
      simp

theorem CommonTable.tableLevels_le {tables : List CommonTable} :
    tableLevels tables ≤ levels ↔ ∀ table ∈ tables, table.query.levels + 1 ≤ levels := by
  induction tables with
  | nil => simp [tableLevels]
  | cons table tables inductionHypothesis =>
      obtain ⟨name, columns, query, span⟩ := table
      rw [tableLevels, CommonTable.levels, Nat.max_le, inductionHypothesis, List.forall_mem_cons]

theorem QueryTerm.compoundLevels_le {compounds : List (CompoundOp × QueryTerm)} :
    compoundLevels compounds ≤ levels ↔ ∀ compound ∈ compounds, compound.2.levels ≤ levels := by
  induction compounds with
  | nil => simp [compoundLevels]
  | cons compound compounds inductionHypothesis =>
      rw [compoundLevels, Nat.max_le, inductionHypothesis, List.forall_mem_cons]

theorem OrderingTerm.termLevels_le {terms : List OrderingTerm} :
    termLevels terms ≤ levels ↔ ∀ term ∈ terms, term.expr.levels + 1 ≤ levels := by
  induction terms with
  | nil => simp [termLevels]
  | cons term terms inductionHypothesis =>
      obtain ⟨expr, direction, span⟩ := term
      rw [termLevels, OrderingTerm.levels, Nat.max_le, inductionHypothesis, List.forall_mem_cons]

theorem SelectItem.itemLevels_le {items : List SelectItem} :
    itemLevels items ≤ levels ↔ ∀ item ∈ items, item.levels ≤ levels := by
  induction items with
  | nil => simp [itemLevels]
  | cons item items inductionHypothesis =>
      rw [itemLevels, Nat.max_le, inductionHypothesis, List.forall_mem_cons]

theorem TableRef.refLevels_le {refs : List TableRef} :
    refLevels refs ≤ levels ↔ ∀ ref ∈ refs, ref.levels ≤ levels := by
  induction refs with
  | nil => simp [refLevels]
  | cons ref refs inductionHypothesis =>
      rw [refLevels, Nat.max_le, inductionHypothesis, List.forall_mem_cons]

theorem mostLevels_le {α : Type} {each : α → Nat} {trees : List α} :
    mostLevels each trees ≤ levels ↔ ∀ tree ∈ trees, each tree ≤ levels := by
  induction trees with
  | nil => simp [mostLevels]
  | cons tree trees inductionHypothesis =>
      rw [List.forall_mem_cons, ← inductionHypothesis]
      exact Nat.max_le

theorem Query.levels_le {query : Query} :
    query.levels ≤ levels ↔
      (∀ clause ∈ query.withClause, ∀ table ∈ clause.tables, table.query.levels + 1 ≤ levels) ∧
        (query.body.first.levels ≤ levels ∧
          ∀ compound ∈ query.body.compounds, compound.2.levels ≤ levels) ∧
            ∀ term ∈ query.orderBy, term.expr.levels + 1 ≤ levels := by
  obtain ⟨clause, ⟨first, compounds, _⟩, orderBy, limit, locking, span⟩ := query
  have tables : ∀ clause : WithClause, clause.levels ≤ levels ↔
      ∀ table ∈ clause.tables, table.query.levels + 1 ≤ levels := by
    rintro ⟨recursive, tables, span⟩
    exact CommonTable.tableLevels_le
  cases clause <;>
    simp only [Query.levels, QueryBody.levels, Nat.max_le, tables, QueryTerm.compoundLevels_le,
      OrderingTerm.termLevels_le] <;> simp

theorem SelectCore.levels_le {core : SelectCore} :
    core.levels ≤ levels ↔
      (∀ item ∈ core.columns, item.levels ≤ levels) ∧
        (∀ source ∈ core.sources, source.levels ≤ levels) ∧
          (∀ condition ∈ core.filter, condition.levels + 1 ≤ levels) ∧
            (∀ term ∈ core.groupBy, term.expr.levels + 1 ≤ levels) ∧
              ∀ condition ∈ core.having, condition.levels + 1 ≤ levels := by
  obtain ⟨modifiers, columns, sources, filter, groupBy, rollup, having, span⟩ := core
  cases filter <;> cases having <;>
    simp only [SelectCore.levels, Nat.max_le, SelectItem.itemLevels_le, TableRef.refLevels_le,
      OrderingTerm.termLevels_le] <;> simp

theorem TableRef.joined_levels_le {left right : TableRef} {join : JoinType}
    {condition : Option JoinCondition} {span : Span} :
    (joined left join right condition span).levels ≤ levels ↔
      left.levels ≤ levels ∧ right.levels ≤ levels ∧ ∀ test ∈ condition, test.levels ≤ levels := by
  cases condition <;> simp only [TableRef.levels, Nat.max_le] <;> simp

theorem TableRef.parenthesized_levels_le {inner : List TableRef} {span : Span} :
    (parenthesized inner span).levels ≤ levels ↔ ∃ less, levels = less + 1 ∧
      (inner.head?.any opensTables = true → 2 ≤ less) ∧ ∀ ref ∈ inner, ref.levels ≤ less := by
  rw [TableRef.levels]
  cases levels with
  | zero => simp
  | succ less =>
      rw [Nat.add_le_add_iff_right, Nat.max_le, refLevels_le]
      split <;> simp_all

theorem tailLevels_le {filter : Option Expr} {orderBy : List OrderingTerm} :
    tailLevels filter orderBy ≤ levels ↔
      (∀ condition ∈ filter, condition.levels + 1 ≤ levels) ∧
        ∀ term ∈ orderBy, term.expr.levels + 1 ≤ levels := by
  rw [tailLevels, Nat.max_le, mostLevels_le, OrderingTerm.termLevels_le]
  simp

namespace Statement

theorem insert_levels_le {tree : Insert} :
    (insert tree).levels ≤ levels ↔ tree.source.levels ≤ levels ∧
      ∀ assignment ∈ tree.onDuplicate, assignment.levels ≤ levels := by
  rw [Statement.levels, Nat.max_le, mostLevels_le]

theorem update_levels_le {tree : Update} :
    (update tree).levels ≤ levels ↔ (∀ ref ∈ tree.tables, ref.levels ≤ levels) ∧
      (∀ assignment ∈ tree.assignments, assignment.levels ≤ levels) ∧
        (∀ condition ∈ tree.filter, condition.levels + 1 ≤ levels) ∧
          ∀ term ∈ tree.orderBy, term.expr.levels + 1 ≤ levels := by
  rw [Statement.levels, Nat.max_le, Nat.max_le, TableRef.refLevels_le, mostLevels_le,
    tailLevels_le]

theorem delete_levels_le {tree : Delete} :
    (delete tree).levels ≤ levels ↔ tree.source.levels ≤ levels ∧
      (∀ condition ∈ tree.filter, condition.levels + 1 ≤ levels) ∧
        ∀ term ∈ tree.orderBy, term.expr.levels + 1 ≤ levels := by
  rw [Statement.levels, Nat.max_le, tailLevels_le]

end Statement

end

end SqlDml
