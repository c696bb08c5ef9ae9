import SqlDml.Tree.Name

/-!
Contract: the parts of statements that hold no expression.

Owns:
- the options of a select block, sort directions, set operations and locking;
- join types and which of them take a condition;
- named tables with their partitions, alias and index hints;
- target types of casts, and the kinds and priorities of inserts.

Does not own: queries and expressions.
-/

namespace SqlDml

/-- Whether a select block keeps equal rows. -/
inductive SetQuantifier where
  | all | distinct | distinctRow
deriving DecidableEq, Repr

/-- Whether a result may be cached. -/
inductive CacheOption where
  | cache | noCache
deriving DecidableEq, Repr

/-- The options between `SELECT` and the select list. -/
structure SelectModifiers where
  quantifier : Option SetQuantifier := none
  highPriority : Bool := false
  straightJoin : Bool := false
  smallResult : Bool := false
  bigResult : Bool := false
  bufferResult : Bool := false
  cache : Option CacheOption := none
  calcFoundRows : Bool := false
deriving DecidableEq, Repr

/-- How two terms of a query body are united. -/
inductive CompoundOp where
  | union | unionAll
deriving DecidableEq, Repr

inductive SortDirection where
  | asc | desc
deriving DecidableEq, Repr

/-- The kind of lock that a query takes. -/
inductive LockMode where
  | forUpdate | forShare | lockInShareMode
deriving DecidableEq, Repr

/-- What to do about rows that are locked already. -/
inductive LockWait where
  | noWait | skipLocked
deriving DecidableEq, Repr

/-- The locking clause of a query. -/
structure LockingClause where
  mode : LockMode
  tables : List TableName
  wait : Option LockWait
  span : Span
deriving DecidableEq, Repr

/-- How two table references are joined. -/
inductive JoinType where
  | inner | cross | straight | left | right | natural | naturalLeft | naturalRight
deriving DecidableEq, Repr

namespace JoinType

/-- Whether a condition must follow the join. -/
def requiresCondition : JoinType → Bool
  | .left | .right => true
  | _ => false

/-- Whether no condition may follow the join. -/
def forbidsCondition : JoinType → Bool
  | .natural | .naturalLeft | .naturalRight => true
  | _ => false

end JoinType

inductive IndexHintAction where
  | use | ignore | force
deriving DecidableEq, Repr

/-- For which purpose an index hint is meant. -/
inductive IndexHintScope where
  | join | orderBy | groupBy
deriving DecidableEq, Repr

/-- An index hint of a named table. -/
structure IndexHint where
  action : IndexHintAction
  scope : Option IndexHintScope
  indexes : List Ident
  span : Span
deriving DecidableEq, Repr

/-- A table given by name. -/
structure NamedTable where
  name : TableName
  partitions : List Ident
  aliasName : Option Ident
  indexHints : List IndexHint
  span : Span
deriving DecidableEq, Repr

/-- The target type of a cast: its words in capitals, and its sizes. -/
structure TypeName where
  name : String
  length : Option Nat
  scale : Option Nat
deriving DecidableEq, Repr

inductive InsertKind where
  | insert | replace
deriving DecidableEq, Repr

inductive InsertPriority where
  | lowPriority | delayed | highPriority
deriving DecidableEq, Repr

end SqlDml
