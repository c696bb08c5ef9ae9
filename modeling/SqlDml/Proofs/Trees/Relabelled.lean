import SqlDml.Proofs.Spelt.Nodes
import SqlDml.Proofs.Trees.RelabelLaws

/-!
Contract: the nodes of a tree with other labels.

Owns:
- nodes with other labels;
- the children of such a node are the children with other labels, so that what other labels do not
  change of one node they do not change of any node within it.

Does not own: what the labels are replaced for.
-/

namespace SqlDml

instance : Labelled Node where
  relabel labels
    | .statement tree => .statement (relabel labels tree)
    | .query tree => .query (relabel labels tree)
    | .core tree => .core (relabel labels tree)
    | .item tree => .item (relabel labels tree)
    | .ref tree => .ref (relabel labels tree)
    | .table tree => .table (relabel labels tree)
    | .tableName name => .tableName (relabel labels name)
    | .expr tree => .expr (relabel labels tree)
    | .column ref => .column (relabel labels ref)

namespace Node

variable (labels : Relabelling)

/-! ### Parts that stand for nodes -/

section

variable {α : Type} [Labelled α]

theorem map_relabel (build : α → Node)
    (builds : ∀ part, build (relabel labels part) = relabel labels (build part)) (items : List α) :
    (relabel labels items).map build = (items.map build).map (relabel labels) := by
  change (items.map _).map build = _
  rw [List.map_map, List.map_map]
  exact List.map_congr_left fun item _ => builds item

theorem flatMap_relabel (children : α → List Node)
    (each : ∀ part, children (relabel labels part) = (children part).map (relabel labels))
    (items : List α) :
    (relabel labels items).flatMap children = (items.flatMap children).map (relabel labels) := by
  change (items.map _).flatMap children = _
  rw [List.flatMap_map, List.map_flatMap]
  exact List.flatMap_congr fun item _ => each item

theorem toList_relabel (found : Option α) :
    (relabel labels found).toList = relabel labels found.toList := by
  cases found <;> rfl

end

theorem map_exprs (items : List Expr) :
    (relabel labels items).map Node.expr = (items.map Node.expr).map (relabel labels) :=
  map_relabel labels .expr (fun _ => rfl) items

theorem map_refs (refs : List TableRef) :
    (relabel labels refs).map Node.ref = (refs.map Node.ref).map (relabel labels) :=
  map_relabel labels .ref (fun _ => rfl) refs

theorem map_names (names : List TableName) :
    (relabel labels names).map Node.tableName =
      (names.map Node.tableName).map (relabel labels) :=
  map_relabel labels .tableName (fun _ => rfl) names

theorem map_terms (terms : List OrderingTerm) :
    (relabel labels terms).map (fun term => Node.expr term.expr) =
      (terms.map fun term => Node.expr term.expr).map (relabel labels) :=
  map_relabel labels (fun term : OrderingTerm => Node.expr term.expr) (by rintro ⟨_, _, _⟩; rfl)
    terms

theorem children_limit (limit : LimitClause) :
    (relabel labels limit).children = limit.children.map (relabel labels) := by
  obtain ⟨count, offset, span⟩ := limit
  rw [LimitClause.relabel_mk]
  cases offset <;> rfl

theorem children_assignments (assignments : List Assignment) :
    (relabel labels assignments).flatMap Assignment.children =
      (assignments.flatMap Assignment.children).map (relabel labels) :=
  flatMap_relabel labels Assignment.children (fun _ => rfl) assignments

/-! ### Children -/

theorem children_expr (tree : Expr) :
    (relabel labels tree).children = tree.children.map (relabel labels) := by
  cases tree with
  | isIn operand set negated span =>
      cases set with
      | list items =>
          change Node.expr _ :: (relabel labels (InSet.list items)).children = _
          rw [InSet.relabel_list]
          exact congrArg (Node.expr (relabel labels operand) :: ·) (map_exprs labels items)
      | subquery rows => rfl
  | like operand pattern escape op negated span =>
      rw [Expr.relabel_like]
      cases escape <;> rfl
  | case operand whens otherwise span =>
      have branches := flatMap_relabel labels
        (fun branch : Expr × Expr => [Node.expr branch.1, .expr branch.2]) (fun _ => rfl) whens
      rw [Expr.relabel_case]
      simp only [Expr.children, branches, toList_relabel, map_exprs, List.map_append]
  | call name args distinct span =>
      cases args with
      | star => rfl
      | list items =>
          rw [Expr.relabel_call]
          exact map_exprs labels items
  | row items span =>
      rw [Expr.relabel_row]
      exact map_exprs labels items
  | _ => rfl

theorem children_query (tree : Query) :
    (relabel labels tree).children = tree.children.map (relabel labels) := by
  obtain ⟨withClause, ⟨first, compounds, place⟩, orderBy, limit, locking, span⟩ := tree
  have node : ∀ term : QueryTerm, (relabel labels term).node = relabel labels term.node := by
    intro term
    cases term <;> rfl
  have tables := flatMap_relabel labels
    (fun clause : WithClause => clause.tables.map fun table => Node.query table.query)
    (by
      rintro ⟨recursive, tables, place⟩
      rw [WithClause.relabel_mk]
      refine map_relabel labels (fun table : CommonTable => Node.query table.query) ?_ tables
      rintro ⟨_, _, _, _⟩
      rfl)
    withClause.toList
  have united := map_relabel labels (fun compound : CompoundOp × QueryTerm => compound.2.node)
    (fun compound => node compound.2) compounds
  have numbers := flatMap_relabel labels LimitClause.children (children_limit labels) limit.toList
  have locked := flatMap_relabel labels
    (fun clause : LockingClause => clause.tables.map Node.tableName)
    (fun clause => map_names labels clause.tables) locking.toList
  rw [Query.relabel_mk, QueryBody.relabel_mk]
  simp only [Query.children, toList_relabel, tables, united, map_terms, numbers, locked, node,
    List.map_append, List.map_cons]

theorem children_core (tree : SelectCore) :
    (relabel labels tree).children = tree.children.map (relabel labels) := by
  obtain ⟨modifiers, columns, sources, filter, groupBy, withRollup, having, span⟩ := tree
  have items := map_relabel labels Node.item (fun _ => rfl) columns
  rw [SelectCore.relabel_mk]
  simp only [SelectCore.children, toList_relabel, items, map_refs, map_exprs, map_terms,
    List.map_append]

theorem children_ref (tree : TableRef) :
    (relabel labels tree).children = tree.children.map (relabel labels) := by
  cases tree with
  | joined left join right condition span =>
      rw [TableRef.relabel_joined]
      rcases condition with _ | condition | columns <;> rfl
  | parenthesized inner span =>
      rw [TableRef.relabel_parenthesized]
      exact map_refs labels inner
  | _ => rfl

theorem children_tail (filter : Option Expr) (orderBy : List OrderingTerm)
    (limit : Option LimitClause) :
    tailChildren (relabel labels filter) (relabel labels orderBy) (relabel labels limit) =
      (tailChildren filter orderBy limit).map (relabel labels) := by
  have numbers := flatMap_relabel labels LimitClause.children (children_limit labels) limit.toList
  simp only [tailChildren, toList_relabel, map_exprs, map_terms, numbers, List.map_append]

theorem children_insertSource (source : InsertSource) :
    (relabel labels source).children = source.children.map (relabel labels) := by
  cases source with
  | values rows =>
      exact flatMap_relabel labels (fun row : List Expr => row.map Node.expr) (map_exprs labels) rows
  | select query => rfl
  | set assignments => exact children_assignments labels assignments

theorem children_deleteSource (source : DeleteSource) :
    (relabel labels source).children = source.children.map (relabel labels) := by
  cases source with
  | single table => rfl
  | multi tables afterUsing => exact map_refs labels tables

theorem children_statement (tree : Statement) :
    (relabel labels tree).children = tree.children.map (relabel labels) := by
  cases tree with
  | select query => rfl
  | insert tree =>
      obtain ⟨kind, priority, ignore, table, partitions, columns, source, onDuplicate, span⟩ := tree
      change Node.tableName _ :: (relabel labels source).children ++
        (relabel labels onDuplicate).flatMap Assignment.children = _
      rw [children_insertSource, children_assignments, List.cons_append, ← List.map_append]
      rfl
  | update tree =>
      obtain ⟨lowPriority, ignore, tables, assignments, filter, orderBy, limit, span⟩ := tree
      change (relabel labels tables).map Node.ref ++
        (relabel labels assignments).flatMap Assignment.children ++
          tailChildren (relabel labels filter) (relabel labels orderBy) (relabel labels limit) = _
      rw [map_refs, children_assignments, children_tail, ← List.map_append, ← List.map_append]
      rfl
  | delete tree =>
      obtain ⟨lowPriority, quick, ignore, targets, source, filter, orderBy, limit, span⟩ := tree
      change (relabel labels targets).map Node.tableName ++ (relabel labels source).children ++
        tailChildren (relabel labels filter) (relabel labels orderBy) (relabel labels limit) = _
      rw [map_names, children_deleteSource, children_tail, ← List.map_append, ← List.map_append]
      rfl

/-- The children of a node with other labels are its children with other labels. -/
theorem children_relabel (node : Node) :
    (relabel labels node).children = node.children.map (relabel labels) := by
  cases node with
  | statement tree => exact children_statement labels tree
  | query tree => exact children_query labels tree
  | core tree => exact children_core labels tree
  | item tree => cases tree <;> rfl
  | ref tree => exact children_ref labels tree
  | table tree => rfl
  | tableName name => rfl
  | expr tree => exact children_expr labels tree
  | column ref => rfl

/-- What other labels do not change of one node, they do not change of any node within it. -/
theorem all_relabel {holds : Node → Prop} (same : ∀ node, holds (relabel labels node) ↔ holds node)
    (node : Node) : (relabel labels node).All holds ↔ node.All holds := by
  induction node using Node.induction with
  | step node inductionHypothesis =>
      rw [all_iff, all_iff, same, children_relabel, List.forall_mem_map]
      exact and_congr_right fun _ => forall₂_congr inductionHypothesis

end Node

end SqlDml
