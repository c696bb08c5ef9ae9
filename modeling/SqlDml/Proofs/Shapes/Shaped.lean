import SqlDml.Proofs.Rules.Ensures
import SqlDml.Proofs.Trees.Nodes

/-!
Contract: the shapes of trees that their types do not rule out by themselves.

Owns:
- for each kind of node, how its parts must fit together;
- queries that end with a join which could still take a condition;
- trees of which every node has its shape;
- what holds of every value that a rule reads, wherever it reads it, and rules of the next nesting
  level that read well-shaped trees.

Does not own: that the grammar reads such trees.
-/

/-! ## Trees -/

namespace SqlDml

/-! ### Expressions -/

/-- A literal that can stand behind the name of a character set. -/
def Literal.Introducible : Literal → Prop
  | .string _ | .hex _ | .bit _ => True
  | _ => False

/-- The name of a character set introduces a string, a hexadecimal or a bit literal. -/
def Literal.Shaped : Literal → Prop
  | .introduced _ value => value.Introducible
  | _ => True

/-- There is no scale without a length. -/
def TypeName.Shaped (target : TypeName) : Prop :=
  target.scale.isSome = true → target.length.isSome = true

/-- A list behind `IN` has items. -/
def InSet.Shaped : InSet → Prop
  | .list items => items ≠ []
  | .subquery _ => True

/-- `DISTINCT` stands in front of arguments. -/
def CallArgs.Shaped (args : CallArgs) (distinct : Bool) : Prop :=
  distinct = true → ∃ items, items ≠ [] ∧ args = .list items

def Expr.Shaped : Expr → Prop
  | .literal value _ => value.Shaped
  | .quantified _ op _ _ _ => op.isComparison = true
  | .isIn _ set _ _ => set.Shaped
  | .case _ whens _ _ => whens ≠ []
  | .cast _ target _ => target.Shaped
  | .call _ args distinct _ => args.Shaped distinct
  | .row items _ => items ≠ []
  | _ => True

/-- A schema stands in front of a table only. -/
def ColumnRef.Shaped (ref : ColumnRef) : Prop :=
  ref.schema.isSome = true → ref.table.isSome = true

/-! ### Queries -/

/-- Whether an expression can be a number of a limit: an integer, which is never negative, or a
parameter marker. -/
def Expr.isLimitNumber : Expr → Bool
  | .literal (.integer _) _ | .placeholder _ _ => true
  | _ => false

def LimitClause.Shaped (limit : LimitClause) : Prop :=
  limit.count.isLimitNumber = true ∧ ∀ offset ∈ limit.offset, offset.isLimitNumber = true

/-- `LOCK IN SHARE MODE` neither lists tables nor tells what to do about locked rows. -/
def LockingClause.Shaped (locking : LockingClause) : Prop :=
  locking.mode = .lockInShareMode → locking.tables = [] ∧ locking.wait = none

def Query.Shaped (query : Query) : Prop :=
  (∀ limit ∈ query.limit, limit.Shaped) ∧ ∀ locking ∈ query.locking, locking.Shaped

/-- `WITH ROLLUP` stands behind the terms of a `GROUP BY`. -/
def SelectCore.Shaped (core : SelectCore) : Prop :=
  core.withRollup = true → core.groupBy ≠ []

/-! ### Tables -/

/-- Only `USE` takes an empty list of indexes. -/
def IndexHint.Shaped (hint : IndexHint) : Prop :=
  hint.indexes = [] → hint.action = .use

def NamedTable.Shaped (table : NamedTable) : Prop :=
  ∀ hint ∈ table.indexHints, hint.Shaped

def TableRef.isJoined : TableRef → Bool
  | .joined _ _ _ _ _ => true
  | _ => false

/-- The conditions that a type of join takes.  A natural join has none, an outer join has one, and a
straight join has no other than `ON`. -/
def JoinType.Admits (join : JoinType) (condition : Option JoinCondition) : Prop :=
  match join with
  | .natural | .naturalLeft | .naturalRight => condition = none
  | .left | .right => condition.isSome = true
  | .straight => ∀ columns, condition ≠ some (.using columns)
  | .inner | .cross => True

/-- Joins group to the left. -/
def TableRef.Shaped : TableRef → Prop
  | .joined _ join right condition _ => right.isJoined = false ∧ join.Admits condition
  | _ => True

/-! ### Open ends -/

/-- Whether a table reference is a join that could still take a condition. -/
def TableRef.isOpen : TableRef → Bool
  | .joined _ join _ none _ => !join.forbidsCondition
  | _ => false

/-- Whether a select block ends with such a join. -/
def SelectCore.isOpen (core : SelectCore) : Bool :=
  core.sources.getLast?.any TableRef.isOpen && core.filter.isNone && core.groupBy.isEmpty &&
    core.having.isNone

/-- Whether a term of a query body ends with such a join, outside of parentheses. -/
def QueryTerm.isOpen : QueryTerm → Bool
  | .select core => core.isOpen
  | .nested _ => false

/-- The last term of a query body. -/
def QueryBody.last (body : QueryBody) : QueryTerm :=
  (body.compounds.getLast?.map Prod.snd).getD body.first

/-- Whether a query ends with such a join. -/
def Query.isOpen (query : Query) : Bool :=
  query.body.last.isOpen && query.orderBy.isEmpty && query.limit.isNone && query.locking.isNone

theorem TableRef.isOpen_of_not_joined {ref : TableRef} (single : ref.isJoined = false) :
    ref.isOpen = false := by
  cases ref with
  | joined => cases single
  | _ => rfl

/-! ### Statements -/

/-- A replace has none of what only inserts take. -/
def Insert.Shaped (insert : Insert) : Prop :=
  insert.kind = .replace →
    insert.ignore = false ∧ insert.priority ≠ some .highPriority ∧ insert.onDuplicate = []

/-- A limit of a change has no offset. -/
def LimitClause.CountsOnly (limit : LimitClause) : Prop :=
  limit.Shaped ∧ limit.offset = none

def Update.Shaped (update : Update) : Prop :=
  ∀ limit ∈ update.limit, limit.CountsOnly

/-- A delete over a single table lists no targets.  One over several tables lists at least one, and
has neither an order nor a limit. -/
def Delete.FitsSource (delete : Delete) : Prop :=
  match delete.source with
  | .single _ => delete.targets = []
  | .multi _ _ => delete.targets ≠ [] ∧ delete.orderBy = [] ∧ delete.limit = none

def Delete.Shaped (delete : Delete) : Prop :=
  delete.FitsSource ∧ ∀ limit ∈ delete.limit, limit.CountsOnly

def Statement.Shaped : Statement → Prop
  | .select _ => True
  | .insert tree => tree.Shaped
  | .update tree => tree.Shaped
  | .delete tree => tree.Shaped

/-! ### Nodes -/

namespace Node

/-- The parts of a node fit together. -/
def Shaped : Node → Prop
  | .statement tree => tree.Shaped
  | .query tree => tree.Shaped
  | .core tree => tree.Shaped
  | .ref tree => tree.Shaped
  | .table tree => tree.Shaped
  | .expr tree => tree.Shaped
  | .column name => name.Shaped
  | .item _ | .tableName _ => True

/-- Every node within a node has its shape. -/
def WellShaped (node : Node) : Prop := ∀ inner : Node, inner.Within node → inner.Shaped

theorem wellShaped_iff {node : Node} :
    node.WellShaped ↔ node.Shaped ∧ ∀ child ∈ node.children, child.WellShaped := by
  constructor
  · intro all
    exact ⟨all node .refl, fun child member inner below => all inner (.head member below)⟩
  · rintro ⟨self, below⟩ inner within
    rcases Relation.ReflTransGen.cases_head within with rfl | ⟨child, member, rest⟩
    · exact self
    · exact below child member inner rest

end Node

/-- A node without a shape of its own is well shaped together with its children. -/
theorem Node.WellShaped.of_children {node : Node} (shaped : node.Shaped)
    (children : ∀ child ∈ node.children, child.WellShaped) : node.WellShaped :=
  Node.wellShaped_iff.mpr ⟨shaped, children⟩

end SqlDml

/-! ## Rules -/

namespace SqlDml

namespace Rule

variable {α β σ : Type} {holds : α → Prop} {after : β → Prop}

/-- Every value that a rule reads has a property. -/
def Yields (rule : Rule α) (holds : α → Prop) : Prop :=
  ∀ spot, rule.Ensures spot fun value _ => holds value

namespace Yields

theorem pure {value : α} (known : holds value) : (Pure.pure value : Rule α).Yields holds :=
  fun _ => .pure known

theorem fail {expected : List String} : (Rule.fail expected : Rule α).Yields holds :=
  fun _ => .fail

theorem tooDeep : (Rule.tooDeep : Rule α).Yields holds := fun _ => .tooDeep

theorem bind {rule : Rule α} {next : α → Rule β} (first : rule.Yields holds)
    (rest : ∀ value, holds value → (next value).Yields after) : (rule >>= next).Yields after :=
  fun spot => (first spot).bind fun value later known => rest value known later

/-- Going on behind a rule of whose value nothing needs to be known. -/
theorem skip {rule : Rule α} {next : α → Rule β} [rule.Lawful]
    (rest : ∀ value, (next value).Yields after) : (rule >>= next).Yields after :=
  have anything : rule.Yields fun _ => True := fun _ => .of_on fun _ _ _ => trivial
  anything.bind fun value _ => rest value

theorem mono {rule : Rule α} {weaker : α → Prop} (yields : rule.Yields holds)
    (weakens : ∀ value, holds value → weaker value) : rule.Yields weaker :=
  fun spot => (yields spot).mono fun value _ known => weakens value known

theorem map {rule : Rule α} {change : α → β} (first : rule.Yields holds)
    (known : ∀ value, holds value → after (change value)) : (change <$> rule).Yields after :=
  fun spot => (first spot).map fun value _ read => known value read

theorem enter {rule : Rule α} [rule.Lawful] (yields : rule.Yields holds) :
    (Rule.enter rule).Yields holds :=
  fun spot => .enter (yields spot)

theorem ite {condition : Prop} [Decidable condition] {left right : Rule α}
    (known : condition → left.Yields holds) (missing : ¬condition → right.Yields holds) :
    (if condition then left else right).Yields holds :=
  fun spot => .ite (fun found => known found spot) fun absent => missing absent spot

theorem attempt {rule : Rule α} {next : Option α → Rule β} [rule.Lawful]
    (tried : rule.Yields holds) (found : ∀ value, holds value → (next (some value)).Yields after)
    (missing : (next none).Yields after) : (Rule.attempt rule >>= next).Yields after :=
  fun spot => .attempt (tried spot) (fun value later known => found value known later)
    (missing spot)

/-- What every step of a repetition keeps holds of what all of it gives. -/
theorem whileSome {step : σ → Rule (Option σ)} [∀ value, (step value).Lawful]
    [∀ value, (step value).Shortens] {holds : σ → Prop} {first : σ} (start : holds first)
    (steps : ∀ value, holds value → (step value).Yields fun found => ∀ next ∈ found, holds next) :
    (Rule.whileSome step first).Yields holds := by
  have each : ∀ value spot, holds value →
      (step value).Ensures spot fun found _ => holds (found.getD value) := by
    intro value spot known
    apply (steps value known spot).mono
    intro found _ kept
    cases found with
    | none => exact known
    | some next => exact kept next rfl
  intro spot
  exact .whileSome start each

/-- A list with commas has items, each of which is read by the rule of the items. -/
theorem commaSeparated {item : Rule α} [item.Lawful] (each : item.Yields holds) :
    (Rule.commaSeparated item).Yields fun items => items ≠ [] ∧ ∀ value ∈ items, holds value := by
  have steps : ∀ items : List α, (items ≠ [] ∧ ∀ value ∈ items, holds value) →
      (nextItem item items).Yields fun found =>
        ∀ more ∈ found, more ≠ [] ∧ ∀ value ∈ more, holds value := by
    intro items known
    apply skip
    intro comma
    apply ite
    · intro _
      apply each.bind
      intro value read
      apply pure
      simpa using ⟨read, known.2⟩
    · intro _
      exact pure (by simp)
  rw [commaSeparated_eq]
  apply each.bind
  intro first read
  apply bind (whileSome (by simpa using read) steps)
  intro items known
  exact pure (by simpa using known)

end Yields

end Rule

/-- Rules for one nesting level deeper that read well-shaped trees.  What stands in parentheses
among table references is not a join itself. -/
structure InnerRules.Shaped (inner : InnerRules) : Prop where
  lawful : inner.Lawful
  operand : ∀ power, (inner.operand power).Yields fun tree => (Node.expr tree).WellShaped
  query : inner.query.Yields fun tree => (Node.query tree).WellShaped
  tableInParens :
    inner.tableInParens.Yields fun tree => (Node.ref tree).WellShaped ∧ tree.isJoined = false

end SqlDml
