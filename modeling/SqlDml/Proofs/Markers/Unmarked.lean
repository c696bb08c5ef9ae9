import SqlDml.Proofs.Markers.Trace
import SqlDml.Proofs.Rules.Language

/-!
Contract: the rules and the trees that hold no parameter markers.

Owns:
- rules for tokens, names, constants, hints and options number no markers;
- the trees that these rules read have none.

Does not own: expressions and queries.
-/

namespace SqlDml

namespace Rule

/-! ### Tokens -/

instance (ahead : Nat) : (peekAhead ahead).Keeps := by
  unfold peekAhead
  infer_instance

instance : peek.Keeps := by
  unfold peek
  infer_instance

instance : currentSpan.Keeps := by
  unfold currentSpan
  infer_instance

instance (kind : TokenKind) : (nextIs kind).Keeps := by
  unfold nextIs
  infer_instance

instance (ahead : Nat) (kind : TokenKind) : (aheadIs ahead kind).Keeps := by
  unfold aheadIs
  infer_instance

instance (kind : TokenKind) : (eat kind).Keeps := by
  unfold eat
  infer_instance

instance (kind : TokenKind) : (expect kind).Keeps := by
  unfold expect
  infer_instance

instance (word : Keyword) : (nextIsWord word).Keeps := inferInstanceAs (nextIs _).Keeps

instance (word : Keyword) : (eatWord word).Keeps := inferInstanceAs (eat _).Keeps

instance (word : Keyword) : (expectWord word).Keeps := inferInstanceAs (expect _).Keeps

instance (mark : Punct) : (nextIsMark mark).Keeps := inferInstanceAs (nextIs _).Keeps

instance (mark : Punct) : (eatMark mark).Keeps := inferInstanceAs (eat _).Keeps

instance (mark : Punct) : (expectMark mark).Keeps := inferInstanceAs (expect _).Keeps

instance : sourceChars.Keeps where
  markers spot later value outcome := by
    rw [on_sourceChars] at outcome
    cases outcome
    rfl

instance : currentSettings.Keeps where
  markers spot later value outcome := by
    rw [on_currentSettings] at outcome
    cases outcome
    rfl

/-! ### Names -/

instance (anyKeyword : Bool) : (name anyKeyword).Keeps := by
  rw [name_eq]
  refine keeps_bind fun token => keeps_bind fun source => ?_
  split <;> infer_instance

instance : identifier.Keeps := inferInstanceAs (name false).Keeps

instance : identifierAfterDot.Keeps := inferInstanceAs (name true).Keeps

instance : dotNameFollows.Keeps := by
  unfold dotNameFollows
  infer_instance

instance : tableName.Keeps := by
  unfold tableName
  infer_instance

instance : columnRef.Keeps := by
  unfold columnRef
  infer_instance

instance : restOfIdents.Keeps := by
  unfold restOfIdents
  infer_instance

instance : identsInParens.Keeps := by
  unfold identsInParens
  infer_instance

instance : identsInParensOrNone.Keeps := by
  unfold identsInParensOrNone
  infer_instance

instance : aliasName.Keeps := by
  unfold aliasName
  infer_instance

instance : aliasOrString.Keeps := by
  unfold aliasOrString
  refine keeps_bind fun explicit => keeps_bind fun token => ?_
  split <;> infer_instance

instance : partitions.Keeps := by
  unfold partitions
  infer_instance

/-! ### Constants -/

instance (value : String) : (nextPart value).Keeps := by
  unfold nextPart
  refine keeps_bind fun kind => ?_
  split <;> infer_instance

instance : stringRun.Keeps := by
  rw [stringRun_eq]
  have := keeps_whileSome nextPart ""
  infer_instance

instance (value : Literal) : (tokenLiteral value).Keeps := by
  unfold tokenLiteral
  infer_instance

instance (kind : TemporalKind) : (temporalLiteral kind).Keeps := by
  unfold temporalLiteral
  infer_instance

instance : introducedValue.Keeps := by
  unfold introducedValue
  refine keeps_bind fun kind => ?_
  split <;> infer_instance

instance (charset : String) : (introducedLiteral charset).Keeps := by
  unfold introducedLiteral
  infer_instance

instance : odbcLiteral.Keeps := by
  unfold odbcLiteral
  infer_instance

instance : currentTimestamp.Keeps := by
  unfold currentTimestamp
  infer_instance

instance : typeSize.Keeps := by
  unfold typeSize
  refine keeps_bind fun kind => ?_
  split <;> infer_instance

instance : typeSizes.Keeps := by
  unfold typeSizes
  infer_instance

instance (words : List String) : (nextTypeWord words).Keeps := by
  unfold nextTypeWord
  refine keeps_bind fun kind => ?_
  split <;> infer_instance

instance : typeName.Keeps := by
  rw [typeName_eq]
  have := keeps_whileSome nextTypeWord []
  infer_instance

/-! ### Operators -/

instance (ahead : Nat) : (subqueryFollows ahead).Keeps := by
  unfold subqueryFollows
  infer_instance

instance : collationName.Keeps := by
  unfold collationName
  refine keeps_bind fun token => ?_
  split <;> infer_instance

instance : continuation?.Keeps := by
  rw [continuation?_eq]
  refine keeps_bind fun kind => ?_
  split <;> infer_instance

instance (continuation : Continuation) : (skipContinuation continuation).Keeps := by
  unfold skipContinuation
  infer_instance

/-! ### Tables -/

instance : hintScope.Keeps := by
  unfold hintScope
  refine keeps_bind fun purpose => ?_
  split
  · refine keeps_bind fun join => ?_
    split <;> infer_instance
  · infer_instance

instance (action : IndexHintAction) : (indexHint action).Keeps := by
  unfold indexHint
  infer_instance

instance : skipHintComma.Keeps := by
  unfold skipHintComma
  infer_instance

instance (hints : List IndexHint) : (nextHint hints).Keeps := by
  unfold nextHint
  refine keeps_bind fun kind => ?_
  split <;> infer_instance

instance : indexHints.Keeps := by
  rw [indexHints_eq]
  have := keeps_whileSome nextHint []
  infer_instance

instance : namedTable.Keeps := by
  unfold namedTable
  infer_instance

instance (join : JoinType) : (joinWord join).Keeps := by
  unfold joinWord
  infer_instance

instance : naturalJoin.Keeps := by
  unfold naturalJoin
  infer_instance

instance : joinType.Keeps := by
  unfold joinType
  refine keeps_bind fun kind => ?_
  split <;> infer_instance

/-! ### Clauses -/

instance : sortDirection.Keeps := by
  unfold sortDirection
  infer_instance

instance : lockMode.Keeps := by
  unfold lockMode
  infer_instance

instance : lockedTables.Keeps := by
  unfold lockedTables
  infer_instance

instance : lockWait.Keeps := by
  unfold lockWait
  infer_instance

instance : lockingClause.Keeps := by
  unfold lockingClause
  refine keeps_bind fun start => keeps_bind fun locks => ?_
  split <;> infer_instance

instance (modifiers : SelectModifiers) : (nextModifier modifiers).Keeps := by
  unfold nextModifier
  refine keeps_bind fun kind => ?_
  split <;> infer_instance

instance : selectModifiers.Keeps := by
  rw [selectModifiers_eq]
  exact keeps_whileSome _ _

instance : tableWildcard.Keeps := by
  unfold tableWildcard
  infer_instance

instance : schemaWildcard.Keeps := by
  unfold schemaWildcard
  infer_instance

instance : schemaWildcardFollows.Keeps := by
  unfold schemaWildcardFollows
  infer_instance

instance : withRollup.Keeps := by
  unfold withRollup
  infer_instance

instance : compoundOp.Keeps := by
  unfold compoundOp
  infer_instance

/-! ### Statements -/

instance : insertKind.Keeps := by
  unfold insertKind
  infer_instance

instance (kind : InsertKind) : (insertPriority kind).Keeps := by
  unfold insertPriority
  refine keeps_bind fun next => ?_
  split <;> infer_instance

instance (kind : InsertKind) (word : Keyword) : (eatInsertWord kind word).Keeps := by
  unfold eatInsertWord
  infer_instance

instance : insertColumns.Keeps := by
  unfold insertColumns
  infer_instance

instance (options : Bool × Bool) : (nextUpdateOption options).Keeps := by
  unfold nextUpdateOption
  infer_instance

instance : updateOptions.Keeps := by
  rw [updateOptions_eq]
  exact keeps_whileSome _ _

instance (options : DeleteOptions) : (nextDeleteOption options).Keeps := by
  unfold nextDeleteOption
  refine keeps_bind fun kind => ?_
  split <;> infer_instance

instance : deleteOptions.Keeps := by
  rw [deleteOptions_eq]
  exact keeps_whileSome _ _

instance : deleteTarget.Keeps := by
  unfold deleteTarget
  infer_instance

instance : deleteTargets.Keeps := inferInstanceAs (commaSeparated deleteTarget).Keeps

instance : deleteTable.Keeps := by
  unfold deleteTable
  infer_instance

end Rule

/-! ### Trees without markers -/

namespace MarkerTrace

open Visit (idents ofQualifier)

/-- A stop that is no marker and no query changes nothing. -/
@[simp] theorem ofVisits_cons_of_unmarked {visit : Visit} {visits : List Visit}
    (noMarker : visit.marker? = Option.none) (noLimit : visit.reversesMarkers = false) :
    ofVisits (visit :: visits) = ofVisits visits := by
  ext1 <;> simp [ofVisits, noMarker, noLimit]

@[simp] theorem ofVisits_idents (names : List Ident) : ofVisits (idents names) = none := by
  unfold idents
  induction names with
  | nil => rfl
  | cons name names inductionHypothesis =>
      rw [List.map_cons, ofVisits_cons_of_unmarked rfl rfl, inductionHypothesis]

theorem ofVisits_flatMap_of_none {ι : Type} (items : List ι) (visits : ι → List Visit)
    (unmarked : ∀ item ∈ items, ofVisits (visits item) = none) :
    ofVisits (items.flatMap visits) = none := by
  induction items with
  | nil => rfl
  | cons item items inductionHypothesis =>
      rw [List.flatMap_cons, ofVisits_append, unmarked item List.mem_cons_self,
        inductionHypothesis fun other member => unmarked other (List.mem_cons_of_mem _ member),
        append_none]

@[simp] theorem ofVisits_ofQualifier (schema : Option Ident) (table : Ident) :
    ofVisits (ofQualifier schema table) = none := by
  rw [ofQualifier, ofVisits_cons_of_unmarked rfl rfl, ofVisits_append, ofVisits_idents,
    ofVisits_cons_of_unmarked rfl rfl]
  rfl

@[simp] theorem ofVisits_tableName (name : TableName) : ofVisits name.visits = none := by
  rw [TableName.visits, ofVisits_cons_of_unmarked rfl rfl, ofVisits_append, ofVisits_idents,
    ofVisits_cons_of_unmarked rfl rfl]
  rfl

@[simp] theorem ofVisits_columnRef (ref : ColumnRef) : ofVisits ref.visits = none := by
  rw [ColumnRef.visits, ofVisits_cons_of_unmarked rfl rfl, ofVisits_append]
  cases ref.table with
  | none => rfl
  | some table =>
      dsimp only
      rw [ofVisits_ofQualifier]
      rfl

@[simp] theorem ofVisits_namedTable (table : NamedTable) : ofVisits table.visits = none := by
  have hints := ofVisits_flatMap_of_none table.indexHints IndexHint.visits
    fun hint _ => ofVisits_idents hint.indexes
  simp [NamedTable.visits, hints]

@[simp] theorem ofVisits_tableNames (names : List TableName) :
    ofVisits (names.flatMap TableName.visits) = none :=
  ofVisits_flatMap_of_none names _ fun name _ => ofVisits_tableName name

end MarkerTrace

end SqlDml
