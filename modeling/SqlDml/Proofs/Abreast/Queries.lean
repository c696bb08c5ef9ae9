import SqlDml.Proofs.Abreast.Expressions

/-!
Contract: table references, queries and statements of two runs side by side.

Owns:
- one instance for each rule for table references, shared clauses, select blocks and queries;
- one instance for each rule for inserts, updates, deletes and statements;
- the rules that may come first behind an open level, which consume a token before they open the
  next one.

Does not own: how levels are opened, the end of a source, and what is reported.
-/

namespace SqlDml.Comparison

open Rule

set_option synthInstance.maxSize 1000

variable {C : Comparison} {need inside : Bool} {inner inner' : InnerRules} [inner.Lawful]
  [InnerInStep C inner inner']

namespace InStep

/-! ### Named tables -/

instance : InStep C need hintScope hintScope := by
  unfold hintScope
  infer_instance

instance (action : IndexHintAction) : InStep C need (indexHint action) (indexHint action) := by
  unfold indexHint
  dsimp only
  infer_instance

instance : InStep C need skipHintComma skipHintComma := by
  unfold skipHintComma
  infer_instance

instance {hints hints' : List IndexHint} [Alike C.likeness hints hints'] :
    InStep C need (nextHint hints) (nextHint hints') := by
  unfold nextHint
  refine behindPlain fun kind => ?_
  split <;> infer_instance

instance : InStep C need indexHints indexHints := by
  rw [indexHints_eq]
  infer_instance

instance : InStep C need namedTable namedTable := by
  unfold namedTable
  infer_instance

/-! ### Joins -/

instance (join : JoinType) : InStep C need (joinWord join) (joinWord join) := by
  unfold joinWord
  infer_instance

instance : InStep C need naturalJoin naturalJoin := by
  unfold naturalJoin
  infer_instance

instance : InStep C need joinType joinType := by
  unfold joinType
  refine behindPlain fun kind => ?_
  split <;> infer_instance

instance : InStep C true (onCondition inner) (onCondition inner') := by
  unfold onCondition
  infer_instance

instance : InStep C true (onOrUsing inner) (onOrUsing inner') := by
  unfold onOrUsing
  exact .found (fun condition => inferInstance) inferInstance

instance (join : JoinType) : InStep C true (joinCondition inner join) (joinCondition inner' join) := by
  unfold joinCondition
  split
  · infer_instance
  · split
    · infer_instance
    · exact .found (fun condition => inferInstance) inferInstance

instance : InStep C true (tableFactor inner) (tableFactor inner') := by
  unfold tableFactor
  infer_instance

instance {left left' : TableRef} [Alike C.likeness left left'] :
    InStep C true (extendJoin inner left) (extendJoin inner' left') := by
  unfold extendJoin
  refine behindPlain fun found => ?_
  split <;> infer_instance

instance : InStep C true (tableRef inner) (tableRef inner') := by
  unfold tableRef
  infer_instance

instance : InStep C true (tableRefs inner) (tableRefs inner') := by
  unfold tableRefs
  infer_instance

/-! ### Clauses -/

instance : InStep C true (whereClause inner) (whereClause inner') := by
  unfold whereClause
  infer_instance

instance : InStep C need sortDirection sortDirection := by
  unfold sortDirection
  infer_instance

instance : InStep C true (orderingTerm inner) (orderingTerm inner') := by
  unfold orderingTerm
  refine behind fun expr => behindPlain fun direction => ?_
  split <;> infer_instance

instance : InStep C true (orderingTerms inner) (orderingTerms inner') := by
  unfold orderingTerms
  infer_instance

instance : InStep C true (orderByClause inner) (orderByClause inner') := by
  unfold orderByClause
  infer_instance

instance : InStep C need limitOperand limitOperand := by
  unfold limitOperand
  refine behindPlain fun kind => ?_
  split <;> infer_instance

instance : InStep C need limitNumbers limitNumbers := by
  unfold limitNumbers
  infer_instance

instance (allowOffset : Bool) : InStep C need (limitClause allowOffset) (limitClause allowOffset) := by
  unfold limitClause
  refine behindPlain fun limited => ?_
  split
  · refine behind fun start => ?_
    dsimp only
    split
    · refine .both fun count offset => ?_
      dsimp only
      infer_instance
    · infer_instance
  · infer_instance

instance : InStep C need lockMode lockMode := by
  unfold lockMode
  infer_instance

instance : InStep C need lockedTables lockedTables := by
  unfold lockedTables
  infer_instance

instance : InStep C need lockWait lockWait := by
  unfold lockWait
  infer_instance

instance : InStep C need lockingClause lockingClause := by
  unfold lockingClause
  infer_instance

/-! ### Select blocks -/

instance (modifiers : SelectModifiers) :
    InStep C need (nextModifier modifiers) (nextModifier modifiers) := by
  unfold nextModifier
  refine behindPlain fun kind => ?_
  split <;> infer_instance

instance : InStep C need selectModifiers selectModifiers := by
  rw [selectModifiers_eq]
  infer_instance

instance : InStep C true (exprItem inner) (exprItem inner') := by
  unfold exprItem
  refine behind fun value => .found (fun name => ?_) ?_
  · dsimp only
    infer_instance
  · dsimp only
    infer_instance

instance : InStep C need tableWildcard tableWildcard := by
  unfold tableWildcard
  infer_instance

instance : InStep C need schemaWildcard schemaWildcard := by
  unfold schemaWildcard
  infer_instance

instance : InStep C need schemaWildcardFollows schemaWildcardFollows := by
  unfold schemaWildcardFollows
  infer_instance

instance : InStep C true (dottedItem inner) (dottedItem inner') := by
  unfold dottedItem
  infer_instance

instance : InStep C true (selectItem inner) (selectItem inner') := by
  unfold selectItem
  infer_instance

instance : InStep C true (fromClause inner) (fromClause inner') := by
  unfold fromClause
  infer_instance

instance : InStep C need withRollup withRollup := by
  unfold withRollup
  infer_instance

instance : InStep C true (groupByClause inner) (groupByClause inner') := by
  unfold groupByClause
  infer_instance

instance : InStep C true (havingClause inner) (havingClause inner') := by
  unfold havingClause
  infer_instance

end InStep

namespace Opening

instance : Opening C inside (selectCore inner) (selectCore inner') := by
  unfold selectCore
  refine behind fun start => .behindPlain fun modifiers => .behind fun columns =>
    .behind fun sources => .behind fun filter => .both ?_
  rintro terms ⟨rollup, copied⟩
  rename_i alike
  obtain rfl := alike.eq
  dsimp only
  infer_instance

instance : Opening C inside (queryTerm inner) (queryTerm inner') := by
  unfold queryTerm
  refine byKind fun {state other} near => ?_
  generalize found : state.spot.kind = kind
  split
  · exact Opening.inner near (found ▸ nofun)
  · exact anywhere near
  · exact anywhere near

end Opening

namespace InStep

instance : InStep C need (queryTerm inner) (queryTerm inner') := of_opening inferInstance

instance : InStep C need compoundOp compoundOp := by
  unfold compoundOp
  infer_instance

instance {compounds compounds' : List (CompoundOp × QueryTerm)}
    [Alike C.likeness compounds compounds'] :
    InStep C true (nextCompound inner compounds) (nextCompound inner' compounds') := by
  unfold nextCompound
  infer_instance

end InStep

instance : Opening C inside (queryBody inner) (queryBody inner') := by
  rw [queryBody_eq, queryBody_eq]
  exact .look fun start => inferInstance

namespace InStep

instance : InStep C true (commonTable inner) (commonTable inner') := by
  unfold commonTable
  dsimp only
  infer_instance

instance : InStep C need (withClause inner) (withClause inner') := by
  unfold withClause
  refine behindPlain fun opened => ?_
  split
  · exact of_opening inferInstance
  · infer_instance

instance (power : Nat) : InStep C need (operandBody inner power) (operandBody inner' power) :=
  of_opening inferInstance

instance : InStep C need (wholeQuery inner) (wholeQuery inner') := by
  unfold wholeQuery
  exact behind fun start => behind fun tables => of_opening inferInstance

end InStep

namespace Opening

variable {start start' : Span} [Alike C.likeness start start']

instance : Opening C inside (derivedTable inner start) (derivedTable inner' start') := by
  unfold derivedTable
  exact behind fun opened => .behind fun query => .behind fun closed =>
    .found (fun name => inferInstance) inferInstance

instance : Opening C inside (tableRefsInParens inner start) (tableRefsInParens inner' start') := by
  unfold tableRefsInParens
  infer_instance

end Opening

instance : InStep C need (tableInParensBody inner) (tableInParensBody inner') := by
  unfold tableInParensBody
  refine .behind fun start => .behindPlain fun next => ?_
  split
  · exact .of_opening (.attempt (fun derived => inferInstance) inferInstance)
  · exact .of_opening inferInstance

namespace InStep

/-! ### Assignments and rows -/

instance : InStep C true (assignment inner) (assignment inner') := by
  unfold assignment
  infer_instance

instance : InStep C true (assignments inner) (assignments inner') := by
  unfold assignments
  infer_instance

instance : InStep C true (valueRow inner) (valueRow inner') := by
  unfold valueRow
  infer_instance

/-! ### Inserts -/

instance : InStep C need insertKind insertKind := by
  unfold insertKind
  infer_instance

instance (kind : InsertKind) : InStep C need (insertPriority kind) (insertPriority kind) := by
  unfold insertPriority
  refine behindPlain fun next => ?_
  split <;> infer_instance

instance (kind : InsertKind) (word : Keyword) :
    InStep C need (eatInsertWord kind word) (eatInsertWord kind word) := by
  unfold eatInsertWord
  infer_instance

instance : InStep C need insertColumns insertColumns := by
  unfold insertColumns
  infer_instance

instance : InStep C true (insertRows inner) (insertRows inner') := by
  unfold insertRows
  refine behindPlain fun kind => ?_
  split <;> infer_instance

instance : InStep C true (insertSource inner) (insertSource inner') := by
  unfold insertSource
  infer_instance

instance (kind : InsertKind) : InStep C true (onDuplicate inner kind) (onDuplicate inner' kind) := by
  unfold onDuplicate
  infer_instance

instance : InStep C true (Rule.insert inner) (Rule.insert inner') := by
  unfold Rule.insert
  refine behind fun start => behindPlain fun kind => behindPlain fun priority =>
    behindPlain fun ignore => behindPlain fun into => behind fun table => behind fun partitions =>
      both fun columns source => ?_
  dsimp only
  infer_instance

/-! ### Updates -/

instance (options : Bool × Bool) :
    InStep C need (nextUpdateOption options) (nextUpdateOption options) := by
  unfold nextUpdateOption
  infer_instance

instance : InStep C need updateOptions updateOptions := by
  rw [updateOptions_eq]
  infer_instance

instance : InStep C true (update inner) (update inner') := by
  unfold update
  infer_instance

/-! ### Deletes -/

instance (options : DeleteOptions) :
    InStep C need (nextDeleteOption options) (nextDeleteOption options) := by
  unfold nextDeleteOption
  refine behindPlain fun kind => ?_
  split <;> infer_instance

instance : InStep C need deleteOptions deleteOptions := by
  rw [deleteOptions_eq]
  infer_instance

instance : InStep C need deleteTarget deleteTarget := by
  unfold deleteTarget
  infer_instance

instance : InStep C need deleteTargets deleteTargets := by
  unfold deleteTargets
  infer_instance

instance : InStep C need deleteTable deleteTable := by
  unfold deleteTable
  refine behind fun name => behind fun before => behind fun called => ?_
  rw [before.alike.isEmpty_eq]
  dsimp only
  infer_instance

instance : InStep C true (deleteUsing inner) (deleteUsing inner') := by
  unfold deleteUsing
  infer_instance

instance : InStep C true (deleteSource inner) (deleteSource inner') := by
  unfold deleteSource
  refine behindPlain fun behindFrom => ?_
  split
  · exact attempt (fun form => inferInstance) inferInstance
  · infer_instance

instance {source source' : DeleteSource} [alike : Alike C.likeness source source'] :
    InStep C true (deleteTail inner source) (deleteTail inner' source') := by
  have same := alike.same
  unfold deleteTail
  cases source with
  | single =>
      cases source' with
      | single => infer_instance
      | multi => cases same
  | multi =>
      cases source' with
      | single => cases same
      | multi => infer_instance

instance : InStep C true (delete inner) (delete inner') := by
  unfold delete
  refine behind fun start => behindPlain fun options => both fun targets source => ?_
  dsimp only
  refine behind fun filter => both fun terms limit => ?_
  dsimp only
  infer_instance

/-! ### Statements -/

instance : InStep C true (statement inner) (statement inner') := by
  unfold statement
  refine behindPlain fun kind => ?_
  split <;> infer_instance

end InStep

end SqlDml.Comparison
