import Mathlib.Logic.Relation
import SqlDml.Proofs.Trees.Induction
import SqlDml.Proofs.Trees.Visits

/-!
Contract: the nodes of a tree, by what stands directly below each of them.

Owns:
- the children of a node, which nodes lie within another one, and induction from the children of a
  node to the node;
- which nodes belong to a select block itself, and not to a query nested in it;
- that the walk stops at the nodes within a tree, and nowhere else.

Does not own: what is looked for in a tree.
-/

namespace SqlDml

/-- A node of a tree. -/
inductive Node where
  | statement (tree : Statement)
  | query (tree : Query)
  | core (tree : SelectCore)
  | item (tree : SelectItem)
  | ref (tree : TableRef)
  | table (tree : NamedTable)
  | tableName (name : TableName)
  | expr (tree : Expr)
  | column (ref : ColumnRef)

/-! ### Children -/

def InSet.children : InSet → List Node
  | .list items => items.map .expr
  | .subquery query => [.query query]

def CallArgs.children : CallArgs → List Node
  | .star => []
  | .list items => items.map .expr

def Expr.children : Expr → List Node
  | .literal _ _ | .placeholder _ _ | .default _ => []
  | .column ref => [.column ref]
  | .binary left _ right _ => [.expr left, .expr right]
  | .unary _ operand _ | .is operand _ _ _ | .cast operand _ _ | .collate operand _ _ =>
      [.expr operand]
  | .quantified left _ _ query _ => [.expr left, .query query]
  | .between operand low high _ _ => [.expr operand, .expr low, .expr high]
  | .isIn operand set _ _ => .expr operand :: set.children
  | .like operand pattern escape _ _ _ =>
      .expr operand :: .expr pattern :: escape.toList.map .expr
  | .soundsLike operand pattern _ => [.expr operand, .expr pattern]
  | .case operand whens otherwise _ =>
      operand.toList.map .expr ++ whens.flatMap (fun branch => [.expr branch.1, .expr branch.2]) ++
        otherwise.toList.map .expr
  | .call _ args _ _ => args.children
  | .subquery query _ | .exists query _ => [.query query]
  | .row items _ => items.map .expr

/-- A term of a query body is a select block or a query. -/
def QueryTerm.node : QueryTerm → Node
  | .select core => .core core
  | .nested query => .query query

def LimitClause.children (limit : LimitClause) : List Node :=
  .expr limit.count :: limit.offset.toList.map .expr

def Query.children (query : Query) : List Node :=
  query.withClause.toList.flatMap (fun clause => clause.tables.map fun table => .query table.query) ++
    query.body.first.node :: query.body.compounds.map (fun compound => compound.2.node) ++
    query.orderBy.map (fun term => .expr term.expr) ++
    query.limit.toList.flatMap LimitClause.children ++
    query.locking.toList.flatMap fun clause => clause.tables.map .tableName

def SelectCore.children (core : SelectCore) : List Node :=
  core.columns.map .item ++ core.sources.map .ref ++ core.filter.toList.map .expr ++
    core.groupBy.map (fun term => .expr term.expr) ++ core.having.toList.map .expr

def SelectItem.children : SelectItem → List Node
  | .wildcard _ | .qualifiedWildcard _ _ _ => []
  | .expr value _ _ => [.expr value]

def JoinCondition.children : JoinCondition → List Node
  | .on condition => [.expr condition]
  | .using _ => []

def TableRef.children : TableRef → List Node
  | .named table => [.table table]
  | .derived query _ _ => [.query query]
  | .joined left _ right condition _ =>
      .ref left :: .ref right :: condition.toList.flatMap JoinCondition.children
  | .parenthesized inner _ => inner.map .ref

def Assignment.children (assignment : Assignment) : List Node :=
  [.column assignment.column, .expr assignment.value]

/-- The children in the clauses that updates and deletes end with. -/
def tailChildren (filter : Option Expr) (orderBy : List OrderingTerm) (limit : Option LimitClause) :
    List Node :=
  filter.toList.map .expr ++ orderBy.map (fun term => .expr term.expr) ++
    limit.toList.flatMap LimitClause.children

def InsertSource.children : InsertSource → List Node
  | .values rows => rows.flatMap fun row => row.map .expr
  | .select query => [.query query]
  | .set assignments => assignments.flatMap Assignment.children

def DeleteSource.children : DeleteSource → List Node
  | .single table => [.table table]
  | .multi tables _ => tables.map .ref

def Statement.children : Statement → List Node
  | .select query => [.query query]
  | .insert tree =>
      .tableName tree.table :: tree.source.children ++
        tree.onDuplicate.flatMap Assignment.children
  | .update tree =>
      tree.tables.map .ref ++ tree.assignments.flatMap Assignment.children ++
        tailChildren tree.filter tree.orderBy tree.limit
  | .delete tree =>
      tree.targets.map .tableName ++ tree.source.children ++
        tailChildren tree.filter tree.orderBy tree.limit

namespace Node

/-- What stands directly below a node. -/
def children : Node → List Node
  | .statement tree => tree.children
  | .query tree => tree.children
  | .core tree => tree.children
  | .item tree => tree.children
  | .ref tree => tree.children
  | .table tree => [.tableName tree.name]
  | .expr tree => tree.children
  | .tableName _ | .column _ => []

/-- A node is another one, or lies anywhere below it. -/
def Within (inner outer : Node) : Prop :=
  Relation.ReflTransGen (fun parent child => child ∈ parent.children) outer inner

def isQuery : Node → Bool
  | .query _ => true
  | _ => false

/-- A node is another one or lies below it, and not in a query nested in it. -/
def OwnedBy (inner outer : Node) : Prop :=
  Relation.ReflTransGen (fun parent child => child ∈ parent.children ∧ child.isQuery = false)
    outer inner

/-- A node is owned by one of several nodes that are no queries. -/
def OwnedAmong (inner : Node) (nodes : List Node) : Prop :=
  ∃ outer ∈ nodes, outer.isQuery = false ∧ inner.OwnedBy outer

section

variable {inner outer : Node}

theorem OwnedBy.within (owned : inner.OwnedBy outer) : inner.Within outer :=
  Relation.ReflTransGen.mono (fun _ _ step => step.1) _ _ owned

theorem ownedBy_iff : inner.OwnedBy outer ↔ inner = outer ∨ inner.OwnedAmong outer.children := by
  rw [OwnedBy, Relation.ReflTransGen.cases_head_iff]
  simp only [OwnedAmong, OwnedBy, eq_comm, and_assoc]

theorem ownedAmong_nil : ¬ inner.OwnedAmong [] := by simp [OwnedAmong]

theorem ownedAmong_cons {nodes : List Node} :
    inner.OwnedAmong (outer :: nodes) ↔
      outer.isQuery = false ∧ inner.OwnedBy outer ∨ inner.OwnedAmong nodes := by
  simp [OwnedAmong]

end

attribute [simp] InSet.children CallArgs.children Expr.children QueryTerm.node LimitClause.children
  Query.children SelectCore.children SelectItem.children JoinCondition.children TableRef.children
  Assignment.children tailChildren InsertSource.children DeleteSource.children Statement.children
  Node.children

/-! ### Induction -/

section

variable {holds : Node → Prop}

/-- What passes from the children of each node to the node holds of all trees in queries. -/
theorem treeInduction (step : ∀ node, (∀ child ∈ node.children, holds child) → holds node) :
    TreeInduction (fun tree => holds (.expr tree)) (fun tree => holds (.query tree))
      (fun tree => holds tree.node) (fun tree => holds (.core tree))
      (fun tree => holds (.ref tree)) where
  literal value span := step _ (by simp)
  column name := step _ (by simpa using step (.column name) (by simp))
  placeholder index span := step _ (by simp)
  default span := step _ (by simp)
  binary left op right span first second := step _ (by simp [first, second])
  unary op operand span below := step _ (by simp [below])
  is operand negated value span below := step _ (by simp [below])
  quantified left op quantifier rows span first second := step _ (by simp [first, second])
  between operand low high negated span first second third :=
    step _ (by simp [first, second, third])
  inList operand items negated span first below := step _ (by simpa [first] using below)
  inQuery operand rows negated span first second := step _ (by simp [first, second])
  like operand pattern escape op negated span first second below :=
    step _ (by simpa [first, second] using below)
  soundsLike operand pattern span first second := step _ (by simp [first, second])
  case operand whens otherwise span first below last := by
    refine step _ ?_
    simp only [children, Expr.children, List.forall_mem_append, List.forall_mem_map,
      List.forall_mem_flatMap, Option.mem_toList, List.forall_mem_cons]
    exact ⟨⟨first, fun branch member => ⟨(below branch member).1, (below branch member).2, by simp⟩⟩,
      last⟩
  cast operand target span below := step _ (by simp [below])
  callStar name distinct span := step _ (by simp)
  call name items distinct span below := step _ (by simpa using below)
  subquery rows span below := step _ (by simp [below])
  existsRows rows span below := step _ (by simp [below])
  row items span below := step _ (by simpa using below)
  collate operand collation span below := step _ (by simp [below])
  wholeQuery withClause body orderBy limit locking span tables first compounds entries numbers := by
    refine step _ ?_
    simp only [children, Query.children, LimitClause.children, List.forall_mem_append,
      List.forall_mem_cons, List.forall_mem_map, List.forall_mem_flatMap, Option.mem_toList]
    exact ⟨⟨⟨⟨tables, first, compounds⟩, entries⟩, numbers⟩,
      fun _ _ name _ => step (.tableName name) (by simp)⟩
  select block below := below
  nested rows below := below
  block modifiers columns sources filter groupBy withRollup having span values refs condition entries
      groups := by
    refine step _ ?_
    simp only [children, SelectCore.children, List.forall_mem_append, List.forall_mem_map,
      Option.mem_toList]
    refine ⟨⟨⟨⟨fun item member => step _ ?_, refs⟩, condition⟩, entries⟩, groups⟩
    cases item with
    | wildcard place => simp
    | qualifiedWildcard schema table place => simp
    | expr value aliasName place => simpa using values value aliasName place member
  named table :=
    step _ (by simpa using step (.table table) (by simpa using step (.tableName table.name) (by simp)))
  derived rows aliasName span below := step _ (by simp [below])
  joined left join right condition span first second below := by
    refine step _ ?_
    cases condition with
    | none => simp [first, second]
    | some test =>
        rcases test with condition | columns
        · simpa [first, second] using below condition rfl
        · simp [first, second]
  parenthesized inner span below := step _ (by simpa using below)

/-- What holds of the nodes that statements consist of holds of their children. -/
theorem statementChildren (expr : ∀ tree, holds (.expr tree)) (query : ∀ tree, holds (.query tree))
    (ref : ∀ tree, holds (.ref tree)) (table : ∀ tree, holds (.table tree))
    (tableName : ∀ name, holds (.tableName name)) (column : ∀ name, holds (.column name))
    (tree : Statement) : ∀ child ∈ tree.children, holds child := by
  have assigned : ∀ assignments : List Assignment,
      ∀ child ∈ assignments.flatMap Assignment.children, holds child := by
    simp only [Assignment.children, List.forall_mem_flatMap, List.forall_mem_cons]
    exact fun assignments entry _ => ⟨column entry.column, expr entry.value, by simp⟩
  have tail : ∀ filter orderBy limit, ∀ child ∈ tailChildren filter orderBy limit, holds child := by
    simp only [tailChildren, LimitClause.children, List.forall_mem_append, List.forall_mem_map,
      List.forall_mem_flatMap, List.forall_mem_cons]
    exact fun filter orderBy limit =>
      ⟨⟨fun tree _ => expr tree, fun term _ => expr term.expr⟩,
        fun numbers _ => ⟨expr numbers.count, fun tree _ => expr tree⟩⟩
  cases tree with
  | select tree => simpa using query tree
  | insert tree =>
      simp only [Statement.children, List.cons_append, List.forall_mem_cons,
        List.forall_mem_append]
      refine ⟨tableName tree.table, ?_, assigned tree.onDuplicate⟩
      cases tree.source with
      | values rows =>
          simp only [InsertSource.children, List.forall_mem_flatMap, List.forall_mem_map]
          exact fun row _ tree _ => expr tree
      | select rows => simp [query]
      | set assignments => exact assigned assignments
  | update tree =>
      simp only [Statement.children, List.forall_mem_append, List.forall_mem_map]
      exact ⟨⟨fun source _ => ref source, assigned tree.assignments⟩, tail _ _ _⟩
  | delete tree =>
      simp only [Statement.children, List.forall_mem_append, List.forall_mem_map]
      refine ⟨⟨fun target _ => tableName target, ?_⟩, tail _ _ _⟩
      cases tree.source with
      | single source => simp [table]
      | multi sources afterUsing => simp [ref]

/-- What passes from the children of each node to the node holds of every node. -/
theorem induction (step : ∀ node, (∀ child ∈ node.children, holds child) → holds node)
    (node : Node) : holds node := by
  have trees := treeInduction step
  have expr := trees.exprHolds
  have query := trees.queryHolds
  have ref := trees.refHolds
  have name : ∀ name, holds (.tableName name) := fun name => step _ (by simp)
  have column : ∀ name, holds (.column name) := fun name => step _ (by simp)
  have table : ∀ tree, holds (.table tree) := fun tree => step _ (by simp [name])
  cases node with
  | statement tree => exact step _ (statementChildren expr query ref table name column tree)
  | query tree => exact query tree
  | core tree => exact trees.coreHolds tree
  | item tree => cases tree <;> exact step _ (by simp [expr])
  | ref tree => exact ref tree
  | table tree => exact table tree
  | tableName tree => exact name tree
  | expr tree => exact expr tree
  | column tree => exact column tree

end

/-! ### Stops -/

/-- The schema and table in front of a column or a wildcard. -/
def qualifier? : Node → Option (Option Ident × Ident)
  | .column name => name.table.map fun owner => (name.schema, owner)
  | .item (.qualifiedWildcard schema owner _) => some (schema, owner)
  | _ => none

/-- The stops that stand for a node itself. -/
def stops : Node → List Visit
  | .statement tree => [.statement tree]
  | .query tree => [.query tree]
  | .core _ => []
  | .item (.qualifiedWildcard schema owner span) =>
      [.selectItem (.qualifiedWildcard schema owner span), .qualifier schema owner]
  | .item tree => [.selectItem tree]
  | .ref tree => [.tableRef tree]
  | .table _ => []
  | .tableName name => [.tableName name]
  | .expr tree => [.expr tree]
  | .column name =>
      .columnRef name :: name.table.toList.map fun owner => .qualifier name.schema owner

/-- The stops of the tree below a node. -/
def visits : Node → List Visit
  | .statement tree => tree.visits
  | .query tree => tree.visits
  | .core tree => tree.visits
  | .item tree => tree.visits
  | .ref tree => tree.visits
  | .table tree => tree.visits
  | .tableName name => name.visits
  | .expr tree => tree.visits
  | .column name => name.visits

end Node

/-! ### The walk -/

/-- Whether a stop is more than a single identifier. -/
def Visit.unnamed : Visit → Bool
  | .ident _ => false
  | _ => true

/-- The stops that are more than single identifiers. -/
def unnamed (visits : List Visit) : List Visit := visits.filter Visit.unnamed

section

variable (visits : List Visit)

@[simp]
theorem unnamed_nil : unnamed [] = [] := rfl

@[simp]
theorem unnamed_append (back : List Visit) :
    unnamed (visits ++ back) = unnamed visits ++ unnamed back :=
  List.filter_append visits back

@[simp]
theorem unnamed_flatMap {α : Type} (items : List α) (visits : α → List Visit) :
    unnamed (items.flatMap visits) = items.flatMap fun item => unnamed (visits item) :=
  List.filter_flatMap

@[simp]
theorem unnamed_idents (names : List Ident) : unnamed (Visit.idents names) = [] := by
  simp [unnamed, Visit.unnamed, Visit.idents]

@[simp]
theorem unnamed_ident (name : Ident) : unnamed (.ident name :: visits) = unnamed visits := rfl

theorem unnamed_cons {visit : Visit} (kept : visit.unnamed = true) :
    unnamed (visit :: visits) = visit :: unnamed visits :=
  List.filter_cons_of_pos kept

@[simp]
theorem unnamed_ofQualifier (schema : Option Ident) (table : Ident) :
    unnamed (Visit.ofQualifier schema table) = [.qualifier schema table] := by
  rw [Visit.ofQualifier, unnamed_cons _ rfl]
  simp

end

/-- The stops of nodes one behind the other. -/
def Node.walk (nodes : List Node) : List Visit := nodes.flatMap fun node => unnamed node.visits

namespace Node

@[simp]
theorem walk_nil : walk [] = [] := rfl

@[simp]
theorem walk_cons (node : Node) (nodes : List Node) :
    walk (node :: nodes) = unnamed node.visits ++ walk nodes := rfl

@[simp]
theorem walk_append (front back : List Node) : walk (front ++ back) = walk front ++ walk back :=
  List.flatMap_append

@[simp]
theorem walk_map {α : Type} (items : List α) (node : α → Node) :
    walk (items.map node) = items.flatMap fun item => unnamed (node item).visits :=
  List.flatMap_map _ _ _

@[simp]
theorem walk_flatMap {α : Type} (items : List α) (nodes : α → List Node) :
    walk (items.flatMap nodes) = items.flatMap fun item => walk (nodes item) :=
  List.flatMap_assoc

end Node

/-! ### One node of the walk -/

theorem InSet.unnamed_visits (set : InSet) : unnamed set.visits = Node.walk set.children := by
  cases set <;> simp [Node.visits, Expr.itemVisits_eq]

theorem CallArgs.unnamed_visits (args : CallArgs) :
    unnamed args.visits = Node.walk args.children := by
  cases args <;> simp [Node.visits, Expr.itemVisits_eq]

theorem Expr.unnamed_visits (tree : Expr) :
    unnamed tree.visits = .expr tree :: Node.walk tree.children := by
  have stop : ∀ visits, unnamed (.expr tree :: visits) = .expr tree :: unnamed visits :=
    fun visits => unnamed_cons visits rfl
  cases tree with
  | isIn operand set negated span =>
      simp only [Expr.visits, Expr.children, stop, unnamed_append, Node.walk_cons, Node.visits,
        set.unnamed_visits]
  | call name args distinct span =>
      simp only [Expr.visits, Expr.children, stop, unnamed_ident, args.unnamed_visits]
  | _ =>
      simp [stop, Node.visits, Expr.visits_like, Expr.visits_case, Expr.itemVisits_eq,
        Expr.branchVisits]

theorem QueryTerm.unnamed_visits (term : QueryTerm) :
    unnamed term.visits = unnamed term.node.visits := by
  cases term <;> simp [Node.visits]

theorem LimitClause.unnamed_visits (limit : LimitClause) :
    unnamed limit.visits = Node.walk limit.children := by
  simp [LimitClause.visits_eq, Node.visits, -LimitClause.visits]

theorem CommonTable.unnamed_visits (table : CommonTable) :
    unnamed table.visits = unnamed table.query.visits := by
  obtain ⟨name, columns, query, span⟩ := table
  simp [-Query.visits]

theorem Query.unnamed_visits (tree : Query) :
    unnamed tree.visits = .query tree :: Node.walk tree.children := by
  rw [Query.visits_eq, unnamed_cons _ rfl]
  simp [QueryBody.visits_eq, WithClause.visits_eq, OrderingTerm.visits_eq,
    CommonTable.unnamed_visits, QueryTerm.unnamed_visits, LimitClause.unnamed_visits, Node.visits,
    -Query.visits, -QueryTerm.node, -LimitClause.children]

theorem SelectCore.unnamed_visits (tree : SelectCore) :
    unnamed tree.visits = Node.walk tree.children := by
  simp [SelectCore.visits_eq, OrderingTerm.visits_eq, Node.visits]

theorem SelectItem.unnamed_visits (tree : SelectItem) :
    unnamed tree.visits = (Node.item tree).stops ++ Node.walk tree.children := by
  cases tree with
  | wildcard span => rfl
  | qualifiedWildcard schema table span =>
      rw [SelectItem.visits, unnamed_cons _ rfl]
      simp [Node.stops]
  | expr value aliasName span =>
      rw [SelectItem.visits, unnamed_cons _ rfl]
      simp [Node.stops, Node.visits]

theorem JoinCondition.unnamed_visits (condition : JoinCondition) :
    unnamed condition.visits = Node.walk condition.children := by
  rcases condition with condition | columns <;> simp [Node.visits]

theorem TableRef.unnamed_visits (tree : TableRef) :
    unnamed tree.visits = .tableRef tree :: Node.walk tree.children := by
  cases tree with
  | joined left join right condition span =>
      rw [TableRef.visits_joined, unnamed_cons _ rfl]
      simp [JoinCondition.unnamed_visits, Node.visits, -JoinCondition.children, -TableRef.visits]
  | _ =>
      rw [TableRef.visits, unnamed_cons _ rfl]
      simp [TableRef.refVisits_eq, Node.visits]

theorem NamedTable.unnamed_visits (tree : NamedTable) :
    unnamed tree.visits = unnamed tree.name.visits := by
  simp [NamedTable.visits, IndexHint.visits]

theorem TableName.unnamed_visits (name : TableName) : unnamed name.visits = [.tableName name] := by
  rw [TableName.visits, unnamed_cons _ rfl]
  simp

theorem ColumnRef.unnamed_visits (name : ColumnRef) :
    unnamed name.visits = (Node.column name).stops := by
  obtain ⟨schema, table, column, span⟩ := name
  cases table with
  | none => rfl
  | some table =>
      rw [ColumnRef.visits_of_table, unnamed_cons _ rfl]
      simp [Node.stops]

theorem Assignment.unnamed_visits (assignment : Assignment) :
    unnamed assignment.visits = Node.walk assignment.children := by
  simp [Assignment.visits, Node.visits]

theorem unnamed_tailVisits (filter : Option Expr) (orderBy : List OrderingTerm)
    (limit : Option LimitClause) :
    unnamed (tailVisits filter orderBy limit) = Node.walk (tailChildren filter orderBy limit) := by
  simp [tailVisits, OrderingTerm.termVisits_eq, OrderingTerm.visits_eq,
    LimitClause.unnamed_visits, Node.visits, -LimitClause.children]

theorem InsertSource.unnamed_visits (source : InsertSource) :
    unnamed source.visits = Node.walk source.children := by
  cases source <;>
    simp [InsertSource.visits, Expr.itemVisits_eq, Assignment.unnamed_visits, Node.visits,
      -Assignment.children]

theorem DeleteSource.unnamed_visits (source : DeleteSource) :
    unnamed source.visits = Node.walk source.children := by
  cases source <;> simp [DeleteSource.visits, TableRef.refVisits_eq, Node.visits]

theorem Statement.unnamed_visits (tree : Statement) :
    unnamed tree.visits = .statement tree :: Node.walk tree.children := by
  refine (unnamed_cons _ rfl).trans (congrArg _ ?_)
  cases tree with
  | select tree => simp [Statement.children, Node.visits]
  | insert tree =>
      simp [Insert.visits, InsertSource.unnamed_visits, Assignment.unnamed_visits, Node.visits,
        -InsertSource.children, -Assignment.children]
  | update tree =>
      simp [Update.visits, unnamed_tailVisits, TableRef.refVisits_eq, Assignment.unnamed_visits,
        Node.visits, -tailChildren, -Assignment.children]
  | delete tree =>
      simp [Delete.visits, unnamed_tailVisits, DeleteSource.unnamed_visits, Node.visits,
        -tailChildren, -DeleteSource.children]

namespace Node

/-- The walk stops at a node, and then it goes through the children of the node in order. -/
theorem unnamed_visits (node : Node) :
    unnamed node.visits = node.stops ++ walk node.children := by
  cases node with
  | statement tree => exact tree.unnamed_visits
  | query tree => exact tree.unnamed_visits
  | core tree => exact tree.unnamed_visits
  | item tree => exact tree.unnamed_visits
  | ref tree => exact tree.unnamed_visits
  | table tree => simpa [visits, stops] using tree.unnamed_visits
  | tableName name => exact name.unnamed_visits
  | expr tree => exact tree.unnamed_visits
  | column name => simpa [visits] using name.unnamed_visits

/-! ### Where the walk stops -/

variable {node inner : Node} {visit : Visit}

theorem within_self (node : Node) : node.Within node := .refl

theorem Within.step {child : Node} (below : inner.Within child) (step : child ∈ node.children) :
    inner.Within node :=
  .head step below

theorem Within.trans {outer : Node} (inside : inner.Within node) (behind : node.Within outer) :
    inner.Within outer :=
  Relation.ReflTransGen.trans behind inside

/-- The walk stops for the nodes within a tree, and nowhere else. -/
theorem mem_unnamed_visits_iff :
    visit ∈ unnamed node.visits ↔ ∃ inner : Node, inner.Within node ∧ visit ∈ inner.stops := by
  induction node using induction with
  | step node inductionHypothesis =>
      rw [unnamed_visits, List.mem_append, walk, List.mem_flatMap]
      constructor
      · rintro (own | ⟨child, below, member⟩)
        · exact ⟨node, node.within_self, own⟩
        · obtain ⟨inner, within, stop⟩ := (inductionHypothesis child below).mp member
          exact ⟨inner, within.step below, stop⟩
      · rintro ⟨inner, within, stop⟩
        rcases within.cases_head with rfl | ⟨child, below, later⟩
        · exact .inl stop
        · exact .inr ⟨child, below, (inductionHypothesis child below).mpr ⟨inner, later, stop⟩⟩

theorem mem_visits_iff (kept : visit.unnamed = true) :
    visit ∈ node.visits ↔ ∃ inner : Node, inner.Within node ∧ visit ∈ inner.stops := by
  rw [← mem_unnamed_visits_iff, unnamed, List.mem_filter]
  exact ⟨fun member => ⟨member, kept⟩, And.left⟩

theorem tableRef_mem_visits_iff {tree : TableRef} :
    .tableRef tree ∈ node.visits ↔ (Node.ref tree).Within node := by
  have stop : ∀ inner : Node, .tableRef tree ∈ inner.stops ↔ inner = .ref tree := by
    intro inner
    rcases inner with _ | _ | _ | (_ | _ | _) | _ | _ | _ | _ | _ <;> simp [stops, eq_comm]
  rw [mem_visits_iff rfl]
  simp [stop]

theorem tableName_mem_visits_iff {name : TableName} :
    .tableName name ∈ node.visits ↔ (Node.tableName name).Within node := by
  have stop : ∀ inner : Node, .tableName name ∈ inner.stops ↔ inner = .tableName name := by
    intro inner
    rcases inner with _ | _ | _ | (_ | _ | _) | _ | _ | _ | _ | _ <;> simp [stops, eq_comm]
  rw [mem_visits_iff rfl]
  simp [stop]

theorem columnRef_mem_visits_iff {ref : ColumnRef} :
    .columnRef ref ∈ node.visits ↔ (Node.column ref).Within node := by
  have stop : ∀ inner : Node, .columnRef ref ∈ inner.stops ↔ inner = .column ref := by
    intro inner
    rcases inner with _ | _ | _ | (_ | _ | _) | _ | _ | _ | _ | _ <;> simp [stops, eq_comm]
  rw [mem_visits_iff rfl]
  simp [stop]

theorem qualifier_mem_visits_iff {schema : Option Ident} {owner : Ident} :
    .qualifier schema owner ∈ node.visits ↔
      ∃ inner : Node, inner.Within node ∧ inner.qualifier? = some (schema, owner) := by
  have stop : ∀ inner : Node, .qualifier schema owner ∈ inner.stops ↔
      inner.qualifier? = some (schema, owner) := by
    intro inner
    rcases inner with _ | _ | _ | (_ | _ | _) | _ | _ | _ | _ | name <;>
      simp [stops, qualifier?, eq_comm]
  rw [mem_visits_iff rfl]
  simp [stop]

end Node

end SqlDml
