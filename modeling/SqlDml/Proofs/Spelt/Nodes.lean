import SqlDml.Proofs.Canonical.Constants
import SqlDml.Proofs.Shapes.Shaped

/-!
Contract: what holds of the words in a tree, beyond the shapes of its nodes.

Owns:
- properties of all nodes of a tree;
- the words of the target types of casts, and the names of calls;
- for each kind of node, which names and constants its source can give it, and which parts the
  grammar would have read as something else.

Does not own: that the grammar reads such trees.
-/

namespace SqlDml

/-! ### Properties of all nodes -/

/-- All nodes within a node have a property. -/
def Node.All (holds : Node → Prop) (node : Node) : Prop := ∀ inner : Node, inner.Within node → holds inner

theorem Node.all_iff {holds : Node → Prop} {node : Node} :
    node.All holds ↔ holds node ∧ ∀ child ∈ node.children, child.All holds := by
  constructor
  · intro all
    exact ⟨all node .refl, fun child member inner below => all inner (.head member below)⟩
  · rintro ⟨self, below⟩ inner within
    rcases Relation.ReflTransGen.cases_head within with rfl | ⟨child, member, rest⟩
    · exact self
    · exact below child member inner rest

/-! ### Types and calls -/

/-- A word of a type, which is read as itself. -/
def IsTypeWord (word : String) : Prop :=
  needsQuoting word = false ∧ Rule.typeWord? (wordKind word.toList) = some word

/-- One word or more, and sizes below 2^32. -/
def TypeName.Spelt (target : TypeName) : Prop :=
  (∃ words, words ≠ [] ∧ (∀ word ∈ words, IsTypeWord word) ∧
    target.name = " ".intercalate words) ∧
  (∀ length ∈ target.length, length < 4294967296) ∧ ∀ scale ∈ target.scale, scale < 4294967296

/-- A keyword that may stand in front of the arguments of a call. -/
def Keyword.isCallName (keyword : Keyword) : Bool := keyword.isNonreserved || keyword.isFunctionName

/-- Without arguments `CURRENT_TIMESTAMP` is no call. -/
def CallArgs.Fills (args : CallArgs) (name : Ident) : Prop :=
  name.quote = none → Keyword.ofWord? name.value.toList = some .CURRENT_TIMESTAMP →
    args ≠ .list []

/-! ### Nodes -/

def Expr.isSubquery : Expr → Bool
  | .subquery _ _ => true
  | _ => false

/-- A query in further parentheses behind `IN` is no list. -/
def InSet.Spelt : InSet → Prop
  | .list items => ∀ item, items = [item] → item.isSubquery = false
  | .subquery _ => True

/-- What the source gives an expression. -/
def Expr.Spelt (settings : Settings) : Expr → Prop
  | .literal value _ => value.Spelt
  | .binary _ op _ _ => op = .concat → settings.pipesAsConcat = true
  | .isIn _ set _ _ => set.Spelt
  | .like _ _ escape op _ _ => op = .regexp → escape = none
  | .cast _ target _ => target.Spelt
  | .call name args _ _ => name.Named settings Keyword.isCallName ∧ args.Fills name
  | .collate _ collation _ => collation.Labels settings Keyword.isAny
  | _ => True

def CommonTable.Spelt (settings : Settings) (table : CommonTable) : Prop :=
  table.name.Plain settings ∧ ∀ column ∈ table.columns, column.Plain settings

def Query.Spelt (settings : Settings) (query : Query) : Prop :=
  ∀ clause ∈ query.withClause, clause.tables ≠ [] ∧ ∀ table ∈ clause.tables, table.Spelt settings

def SelectCore.Spelt (core : SelectCore) : Prop := core.columns ≠ []

def SelectItem.Spelt (settings : Settings) : SelectItem → Prop
  | .wildcard _ => True
  | .qualifiedWildcard (some schema) table _ => schema.Plain settings ∧ table.Dotted settings
  | .qualifiedWildcard none table _ => table.Plain settings
  | .expr _ aliasName _ => ∀ ident ∈ aliasName, ident.Labels settings Keyword.isNonreserved

def NamedTable.Spelt (settings : Settings) (table : NamedTable) : Prop :=
  (∀ part ∈ table.partitions, part.Plain settings) ∧
  (∀ ident ∈ table.aliasName, ident.Plain settings) ∧
  ∀ hint ∈ table.indexHints, ∀ index ∈ hint.indexes, index.Plain settings

def JoinCondition.Spelt (settings : Settings) : JoinCondition → Prop
  | .on _ => True
  | .using columns => columns ≠ [] ∧ ∀ column ∈ columns, column.Plain settings

def TableRef.Spelt (settings : Settings) : TableRef → Prop
  | .named _ => True
  | .derived _ aliasName _ => aliasName.Plain settings
  | .joined _ _ _ condition _ => ∀ test ∈ condition, test.Spelt settings
  | .parenthesized inner _ => inner ≠ []

def Statement.Spelt (settings : Settings) : Statement → Prop
  | .insert tree =>
      (∀ part ∈ tree.partitions, part.Plain settings) ∧ ∀ column ∈ tree.columns, column.Plain settings
  | .select _ | .update _ | .delete _ => True

/-- What the source gives a node. -/
def Node.Spelt (settings : Settings) : Node → Prop
  | .statement tree => tree.Spelt settings
  | .query tree => tree.Spelt settings
  | .core tree => tree.Spelt
  | .item tree => tree.Spelt settings
  | .ref tree => tree.Spelt settings
  | .table tree => tree.Spelt settings
  | .tableName name => name.Named settings
  | .expr tree => tree.Spelt settings
  | .column name => name.Named settings

/-- The source gives every node within a node what it holds. -/
def Node.WellSpelt (settings : Settings) (node : Node) : Prop := node.All (Node.Spelt settings)

theorem Node.WellSpelt.of_children {settings : Settings} {node : Node} (self : node.Spelt settings)
    (children : ∀ child ∈ node.children, child.WellSpelt settings) : node.WellSpelt settings :=
  Node.all_iff.mpr ⟨self, children⟩

end SqlDml
