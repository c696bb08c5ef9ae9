import SqlDml.Proofs.Spelt.Statements

/-!
Contract: the identifiers in a tree, each with the place of the grammar where it is read.

Owns:
- the places of identifiers, the rule for each place, and the identifiers that a place takes;
- the identifiers of a node, and that the walk stops at these and at no others;
- that the identifiers of a tree are taken by their places.

Does not own: the texts of identifiers.
-/

namespace SqlDml

/-- A place of the grammar where an identifier is read. -/
inductive NamePlace where
  | name
  /-- A name behind a dot. -/
  | behindDot
  /-- The name of a call. -/
  | call
  /-- The alias of a select item. -/
  | label
  | collation
deriving DecidableEq, Repr

namespace NamePlace

/-- The rule that reads the identifier at a place.  What begins a call is decided in front of it, so
its name is read like any other keyword that stands for a name. -/
def rule : NamePlace → Rule (Option Ident)
  | .name => some <$> Rule.identifier
  | .behindDot | .call => some <$> Rule.identifierAfterDot
  | .label => Rule.aliasOrString
  | .collation => some <$> Rule.collationName

/-- The identifiers that a place takes. -/
def Takes (settings : Settings) (ident : Ident) : NamePlace → Prop
  | .name => ident.Plain settings
  | .behindDot => ident.Dotted settings
  | .call => ident.Named settings Keyword.isCallName
  | .label => ident.Labels settings Keyword.isNonreserved
  | .collation => ident.Labels settings Keyword.isAny

end NamePlace

/-! ### Identifiers of a node -/

/-- Identifiers at places for names. -/
def Ident.listed (idents : List Ident) : List (NamePlace × Ident) := idents.map (NamePlace.name, ·)

/-- A schema and a name behind it, or a name alone. -/
def Ident.qualified : Option Ident → Ident → List (NamePlace × Ident)
  | some schema, name => [(.name, schema), (.behindDot, name)]
  | none, name => [(.name, name)]

def ColumnRef.names (ref : ColumnRef) : List (NamePlace × Ident) :=
  match ref.table with
  | some table => Ident.qualified ref.schema table ++ [(.behindDot, ref.column)]
  | none => [(.name, ref.column)]

def CommonTable.names (table : CommonTable) : List (NamePlace × Ident) :=
  Ident.listed (table.name :: table.columns)

def JoinCondition.names : JoinCondition → List (NamePlace × Ident)
  | .on _ => []
  | .using columns => Ident.listed columns

def Expr.names : Expr → List (NamePlace × Ident)
  | .call name _ _ _ => [(.call, name)]
  | .collate _ collation _ => [(.collation, collation)]
  | _ => []

def SelectItem.names : SelectItem → List (NamePlace × Ident)
  | .wildcard _ => []
  | .qualifiedWildcard schema table _ => Ident.qualified schema table
  | .expr _ aliasName _ => aliasName.toList.map (NamePlace.label, ·)

def TableRef.names : TableRef → List (NamePlace × Ident)
  | .named _ | .parenthesized _ _ => []
  | .derived _ aliasName _ => Ident.listed [aliasName]
  | .joined _ _ _ condition _ => condition.toList.flatMap JoinCondition.names

def NamedTable.names (table : NamedTable) : List (NamePlace × Ident) :=
  Ident.listed (table.partitions ++ table.aliasName.toList ++
    table.indexHints.flatMap IndexHint.indexes)

def Statement.names : Statement → List (NamePlace × Ident)
  | .insert tree => Ident.listed (tree.partitions ++ tree.columns)
  | .select _ | .update _ | .delete _ => []

/-- The identifiers that a node has itself, each with its place. -/
def Node.names : Node → List (NamePlace × Ident)
  | .statement tree => tree.names
  | .query tree => tree.withClause.toList.flatMap fun clause => clause.tables.flatMap CommonTable.names
  | .core _ => []
  | .item tree => tree.names
  | .ref tree => tree.names
  | .table tree => tree.names
  | .tableName name => Ident.qualified name.schema name.table
  | .expr tree => tree.names
  | .column name => name.names

/-! ### The walk over identifiers -/

namespace Node

/-- The stops of nodes one behind the other, single identifiers among them. -/
def trail (nodes : List Node) : List Visit := nodes.flatMap Node.visits

@[simp] theorem trail_nil : trail [] = [] := rfl

@[simp] theorem trail_cons (node : Node) (nodes : List Node) :
    trail (node :: nodes) = node.visits ++ trail nodes := rfl

@[simp] theorem trail_append (front back : List Node) :
    trail (front ++ back) = trail front ++ trail back := List.flatMap_append

@[simp] theorem trail_map {α : Type} (items : List α) (node : α → Node) :
    trail (items.map node) = items.flatMap fun item => (node item).visits := List.flatMap_map _ _ _

@[simp] theorem trail_flatMap {α : Type} (items : List α) (nodes : α → List Node) :
    trail (items.flatMap nodes) = items.flatMap fun item => trail (nodes item) :=
  List.flatMap_assoc

end Node

variable {ident : Ident}

@[simp] theorem ident_mem_idents_iff {idents : List Ident} :
    .ident ident ∈ Visit.idents idents ↔ ident ∈ idents := by
  simp [Visit.idents]

@[simp] theorem ident_mem_ofQualifier_iff {schema : Option Ident} {table : Ident} :
    .ident ident ∈ Visit.ofQualifier schema table ↔ schema = some ident ∨ ident = table := by
  simp [Visit.ofQualifier]

@[simp] theorem mem_snd_listed_iff {idents : List Ident} :
    (∃ place, (place, ident) ∈ Ident.listed idents) ↔ ident ∈ idents := by
  simp [Ident.listed]

@[simp] theorem mem_snd_qualified_iff {schema : Option Ident} {name : Ident} :
    (∃ place, (place, ident) ∈ Ident.qualified schema name) ↔ schema = some ident ∨ ident = name := by
  cases schema with
  | none => simp [Ident.qualified]
  | some schema => simp [Ident.qualified, exists_or, or_comm, eq_comm]

theorem InSet.visits_eq (set : InSet) : set.visits = Node.trail set.children := by
  cases set <;> simp [Node.visits, Expr.itemVisits_eq]

theorem CallArgs.visits_eq (args : CallArgs) : args.visits = Node.trail args.children := by
  cases args <;> simp [Node.visits, Expr.itemVisits_eq]

/-- The walk stops at the identifiers that an expression has itself, and at those below it. -/
theorem Expr.ident_mem_visits_iff (tree : Expr) : .ident ident ∈ tree.visits ↔
    (∃ place, (place, ident) ∈ tree.names) ∨ .ident ident ∈ Node.trail tree.children := by
  cases tree with
  | isIn operand set negated span =>
      simp [Expr.names, Node.visits, InSet.visits_eq, -InSet.visits, -InSet.children]
  | call name args distinct span =>
      simp [Expr.names, CallArgs.visits_eq, -CallArgs.visits, -CallArgs.children]
  | collate operand collation span => simp [Expr.names, Node.visits, or_comm]
  | _ =>
      simp [Expr.names, Node.visits, Expr.visits_like, Expr.visits_case, Expr.itemVisits_eq,
        Expr.branchVisits]

theorem QueryTerm.visits_node (term : QueryTerm) : term.visits = term.node.visits := by
  cases term <;> simp [Node.visits]

theorem LimitClause.visits_children (limit : LimitClause) :
    limit.visits = Node.trail limit.children := by
  simp [LimitClause.visits_eq, Node.visits, -LimitClause.visits]

theorem CommonTable.ident_mem_visits_iff (table : CommonTable) : .ident ident ∈ table.visits ↔
    (∃ place, (place, ident) ∈ table.names) ∨ .ident ident ∈ table.query.visits := by
  obtain ⟨name, columns, query, span⟩ := table
  simp [CommonTable.names, or_assoc, -Query.visits]

theorem Query.mem_snd_names_iff (tree : Query) :
    (∃ place, (place, ident) ∈ (Node.query tree).names) ↔
      ∃ clause ∈ tree.withClause, ∃ table ∈ clause.tables, ∃ place, (place, ident) ∈ table.names := by
  simp only [Node.names, List.mem_flatMap, Option.mem_toList]
  constructor
  · rintro ⟨place, clause, some_, table, member, found⟩
    exact ⟨clause, some_, table, member, place, found⟩
  · rintro ⟨clause, some_, table, member, place, found⟩
    exact ⟨place, clause, some_, table, member, found⟩

theorem Query.ident_mem_visits_iff (tree : Query) : .ident ident ∈ tree.visits ↔
    (∃ place, (place, ident) ∈ (Node.query tree).names) ∨
      .ident ident ∈ Node.trail tree.children := by
  rw [Query.visits_eq, Query.mem_snd_names_iff]
  simp [QueryBody.visits_eq, WithClause.visits_eq, OrderingTerm.visits_eq, and_or_left, exists_or,
    CommonTable.ident_mem_visits_iff, QueryTerm.visits_node, LimitClause.visits_children, or_assoc,
    Node.visits, -Query.visits, -QueryTerm.node, -LimitClause.children]

theorem SelectCore.ident_mem_visits_iff (tree : SelectCore) :
    .ident ident ∈ tree.visits ↔ .ident ident ∈ Node.trail tree.children := by
  simp [SelectCore.visits_eq, OrderingTerm.visits_eq, Node.visits]

theorem SelectItem.ident_mem_visits_iff (tree : SelectItem) : .ident ident ∈ tree.visits ↔
    (∃ place, (place, ident) ∈ tree.names) ∨ .ident ident ∈ Node.trail tree.children := by
  cases tree <;> simp [SelectItem.names, Node.visits, or_comm]

theorem JoinCondition.ident_mem_visits_iff (condition : JoinCondition) :
    .ident ident ∈ condition.visits ↔
      (∃ place, (place, ident) ∈ condition.names) ∨ .ident ident ∈ Node.trail condition.children := by
  cases condition <;> simp [JoinCondition.names, Node.visits]

theorem TableRef.ident_mem_visits_iff (tree : TableRef) : .ident ident ∈ tree.visits ↔
    (∃ place, (place, ident) ∈ tree.names) ∨ .ident ident ∈ Node.trail tree.children := by
  cases tree with
  | joined left join right condition span =>
      rw [TableRef.visits_joined]
      cases condition with
      | none => simp [TableRef.names, Node.visits]
      | some test =>
          simp [TableRef.names, Node.visits, JoinCondition.ident_mem_visits_iff, -JoinCondition.visits,
            -JoinCondition.children]
          tauto
  | _ => simp [TableRef.names, Node.visits, TableRef.refVisits_eq, or_comm]

theorem NamedTable.ident_mem_visits_iff (tree : NamedTable) : .ident ident ∈ tree.visits ↔
    (∃ place, (place, ident) ∈ tree.names) ∨ .ident ident ∈ tree.name.visits := by
  simp only [NamedTable.visits, NamedTable.names, IndexHint.visits, mem_snd_listed_iff,
    List.mem_append, List.mem_flatMap, ident_mem_idents_iff, or_assoc]
  rw [or_comm]
  simp only [or_assoc]

theorem TableName.ident_mem_visits_iff (name : TableName) : .ident ident ∈ name.visits ↔
    ∃ place, (place, ident) ∈ (Node.tableName name).names := by
  simp [TableName.visits, Node.names]

theorem ColumnRef.ident_mem_visits_iff (name : ColumnRef) : .ident ident ∈ name.visits ↔
    ∃ place, (place, ident) ∈ name.names := by
  obtain ⟨schema, table, column, span⟩ := name
  cases table <;> simp [ColumnRef.visits, ColumnRef.names, exists_or]

theorem Assignment.visits_children (assignment : Assignment) :
    assignment.visits = Node.trail assignment.children := by
  simp [Assignment.visits, Node.visits]

theorem tailVisits_children (filter : Option Expr) (orderBy : List OrderingTerm)
    (limit : Option LimitClause) :
    .ident ident ∈ tailVisits filter orderBy limit ↔
      .ident ident ∈ Node.trail (tailChildren filter orderBy limit) := by
  simp [tailVisits, OrderingTerm.termVisits_eq, OrderingTerm.visits_eq,
    LimitClause.visits_children, Node.visits, -LimitClause.children]

theorem InsertSource.ident_mem_visits_iff (source : InsertSource) :
    .ident ident ∈ source.visits ↔ .ident ident ∈ Node.trail source.children := by
  cases source <;>
    simp [InsertSource.visits, Expr.itemVisits_eq, Assignment.visits_children, Node.visits,
      -Assignment.children]

theorem DeleteSource.visits_children (source : DeleteSource) :
    source.visits = Node.trail source.children := by
  cases source <;> simp [DeleteSource.visits, TableRef.refVisits_eq, Node.visits]

theorem Statement.ident_mem_visits_iff (tree : Statement) : .ident ident ∈ tree.visits ↔
    (∃ place, (place, ident) ∈ tree.names) ∨ .ident ident ∈ Node.trail tree.children := by
  cases tree with
  | select tree => simp [Statement.visits, Statement.names, Statement.children, Node.visits]
  | insert tree =>
      simp [Statement.visits, Statement.names, Insert.visits, InsertSource.ident_mem_visits_iff,
        Assignment.visits_children, Node.visits, or_left_comm, or_assoc, -InsertSource.children,
        -Assignment.children]
  | update tree =>
      simp [Statement.visits, Statement.names, Update.visits, tailVisits_children,
        TableRef.refVisits_eq, Assignment.visits_children, Node.visits, -tailChildren,
        -Assignment.children]
  | delete tree =>
      simp [Statement.visits, Statement.names, Delete.visits, tailVisits_children,
        DeleteSource.visits_children, Node.visits, -tailChildren, -DeleteSource.children]

/-- The walk stops at the identifiers that a node has itself, and at those below it. -/
theorem Node.ident_mem_visits_iff_step (node : Node) : .ident ident ∈ node.visits ↔
    (∃ place, (place, ident) ∈ node.names) ∨
      ∃ child ∈ node.children, .ident ident ∈ child.visits := by
  have below : .ident ident ∈ trail node.children ↔
      ∃ child ∈ node.children, .ident ident ∈ child.visits := List.mem_flatMap
  rw [← below]
  cases node with
  | statement tree => exact tree.ident_mem_visits_iff
  | query tree => exact tree.ident_mem_visits_iff
  | core tree => exact tree.ident_mem_visits_iff.trans (by simp [names])
  | item tree => exact tree.ident_mem_visits_iff
  | ref tree => exact tree.ident_mem_visits_iff
  | table tree => simpa [visits, names] using tree.ident_mem_visits_iff
  | tableName name => exact name.ident_mem_visits_iff.trans (by simp)
  | expr tree => exact tree.ident_mem_visits_iff
  | column name => exact name.ident_mem_visits_iff.trans (by simp [names])

/-- The walk stops at the identifiers of the nodes within a tree, and at no others. -/
theorem Node.ident_mem_visits_iff {node : Node} : .ident ident ∈ node.visits ↔
    ∃ inner : Node, inner.Within node ∧ ∃ place, (place, ident) ∈ inner.names := by
  induction node using Node.induction with
  | step node inductionHypothesis =>
      rw [ident_mem_visits_iff_step]
      constructor
      · rintro (own | ⟨child, below, member⟩)
        · exact ⟨node, node.within_self, own⟩
        · obtain ⟨inner, within, found⟩ := (inductionHypothesis child below).mp member
          exact ⟨inner, within.step below, found⟩
      · rintro ⟨inner, within, found⟩
        rcases within.cases_head with rfl | ⟨child, below, later⟩
        · exact .inl found
        · exact .inr ⟨child, below, (inductionHypothesis child below).mpr ⟨inner, later, found⟩⟩

/-! ### What the places take -/

section

variable {settings : Settings} {place : NamePlace}

theorem takes_of_listed {idents : List Ident} (plain : ∀ name ∈ idents, name.Plain settings)
    (member : (place, ident) ∈ Ident.listed idents) : place.Takes settings ident := by
  obtain ⟨name, found, same⟩ := List.mem_map.mp member
  cases same
  exact plain ident found

theorem takes_of_qualified {schema : Option Ident} {name : Ident}
    (alone : schema = none → name.Plain settings)
    (behind : ∀ owner ∈ schema, owner.Plain settings ∧ name.Dotted settings)
    (member : (place, ident) ∈ Ident.qualified schema name) : place.Takes settings ident := by
  cases schema with
  | none =>
      cases List.mem_singleton.mp member
      exact alone rfl
  | some owner =>
      obtain ⟨plain, dotted⟩ := behind owner rfl
      rcases List.mem_cons.mp member with same | later
      · cases same
        exact plain
      · cases List.mem_singleton.mp later
        exact dotted

theorem ColumnRef.Named.takes {name : ColumnRef} (named : name.Named settings)
    (member : (place, ident) ∈ name.names) : place.Takes settings ident := by
  obtain ⟨schema, table, column, span⟩ := name
  cases table with
  | none =>
      cases schema with
      | some _ => exact named.elim
      | none =>
          cases List.mem_singleton.mp member
          exact named
  | some table =>
      rcases List.mem_append.mp member with owner | last
      · refine takes_of_qualified ?_ ?_ owner
        · rintro rfl
          exact named.1
        · rintro schema rfl
          exact ⟨named.1, named.2.1⟩
      · cases List.mem_singleton.mp last
        cases schema with
        | some _ => exact named.2.2
        | none => exact named.2

theorem TableRef.Spelt.takes {tree : TableRef} (spelt : tree.Spelt settings)
    (member : (place, ident) ∈ tree.names) : place.Takes settings ident := by
  cases tree with
  | derived query aliasName span =>
      refine takes_of_listed ?_ member
      rintro name (_ | ⟨_, ⟨⟩⟩)
      exact spelt
  | joined left join right condition span =>
      obtain ⟨test, given, found⟩ := List.mem_flatMap.mp member
      rcases test with condition | columns
      · cases found
      · exact takes_of_listed (spelt _ (Option.mem_toList.mp given)).2 found
  | _ => cases member

/-- The identifiers of a tree are taken by the places where they stand. -/
theorem Node.Spelt.takes {node : Node} (spelt : node.Spelt settings)
    (member : (place, ident) ∈ node.names) : place.Takes settings ident := by
  cases node with
  | statement tree =>
      cases tree with
      | insert tree =>
          refine takes_of_listed (fun name found => ?_) member
          exact (List.mem_append.mp found).elim (spelt.1 name) (spelt.2 name)
      | _ => cases member
  | query tree =>
      obtain ⟨clause, given, inClause⟩ := List.mem_flatMap.mp member
      obtain ⟨table, inTables, found⟩ := List.mem_flatMap.mp inClause
      have plain := (spelt clause (Option.mem_toList.mp given)).2 table inTables
      exact takes_of_listed (List.forall_mem_cons.mpr plain) found
  | core tree => cases member
  | item tree =>
      cases tree with
      | wildcard span => cases member
      | qualifiedWildcard schema table span =>
          refine takes_of_qualified ?_ ?_ member
          · rintro rfl
            exact spelt
          · rintro owner rfl
            exact spelt
      | expr value aliasName span =>
          obtain ⟨name, given, same⟩ := List.mem_map.mp member
          cases same
          exact spelt ident (Option.mem_toList.mp given)
  | ref tree => exact TableRef.Spelt.takes spelt member
  | table tree =>
      obtain ⟨partitions, aliasName, hints⟩ := spelt
      refine takes_of_listed (fun name found => ?_) member
      simp only [List.mem_append, List.mem_flatMap, Option.mem_toList] at found
      rcases found with (found | found) | ⟨hint, inHints, found⟩
      · exact partitions name found
      · exact aliasName name found
      · exact hints hint inHints name found
  | tableName name =>
      obtain ⟨schema, table, span⟩ := name
      refine takes_of_qualified ?_ ?_ member
      · rintro rfl
        exact spelt
      · rintro owner rfl
        exact spelt
  | expr tree =>
      cases tree with
      | call name args distinct span =>
          cases List.mem_singleton.mp member
          exact spelt.1
      | collate operand collation span =>
          cases List.mem_singleton.mp member
          exact spelt
      | _ => cases member
  | column name => exact ColumnRef.Named.takes spelt member

end

end SqlDml
