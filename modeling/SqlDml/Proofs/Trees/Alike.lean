import Mathlib.Logic.Basic
import SqlDml.Proofs.Trees.RelabelLaws

/-!
Contract: trees that are the same but for their labels.

Owns:
- two ways to replace labels, under which trees are compared;
- trees that are alike: with their labels replaced, the left one in the one way and the right one in
  the other, they are the same tree;
- one instance for each form of tree, from its parts.

Does not own: how trees that are alike come about.
-/

namespace SqlDml

/-- Two ways to replace labels, one for each side of a comparison. -/
structure Likeness where
  left : Relabelling
  right : Relabelling
  /-- What two spans cover together is alike when the spans are. -/
  merge : ∀ {first second first' second' : Span}, left.span first = right.span first' →
    left.span second = right.span second' →
      left.span (first.merge second) = right.span (first'.merge second')
  /-- Identifiers that are alike have spans that are. -/
  place : ∀ {name name' : Ident}, left.ident name = right.ident name' →
    left.span name.span = right.span name'.span
  /-- A text in quotes is alike wherever it stands. -/
  quoted : ∀ {span span' : Span} (value : String) (quote : Char), left.span span = right.span span' →
    left.ident ⟨value, some quote, span⟩ = right.ident ⟨value, some quote, span'⟩
  /-- A constant is like itself. -/
  literal : ∀ value, left.literal value = right.literal value
  /-- Escapes in braces are alike when the names of their kinds are. -/
  odbc : ∀ {kind kind' : Ident} (value : String), left.ident kind = right.ident kind' →
    left.literal (.odbc kind.value value) = right.literal (.odbc kind'.value value)

/-- Nothing is replaced on either side. -/
def Likeness.refl : Likeness where
  left := {}
  right := {}
  merge first second := by
    cases first
    cases second
    rfl
  place name := congrArg Ident.span name
  quoted value quote span := congrArg (Ident.mk value (some quote)) span
  literal _ := rfl
  odbc value kind := congrArg (fun kind : Ident => Literal.odbc kind.value value) kind

/-- Things that are the same but for their labels. -/
class Alike {α : Type} [Labelled α] (likeness : Likeness) (value copy : α) : Prop where
  same : relabel likeness.left value = relabel likeness.right copy

/-- Two things that are the same but for their labels. -/
structure AlikePair (likeness : Likeness) (α : Type) [Labelled α] where
  left : α
  right : α
  [alike : Alike likeness left right]

attribute [instance] AlikePair.alike

namespace Alike

variable {α β γ δ ε : Type} [Labelled α] [Labelled β] [Labelled γ] [Labelled δ] [Labelled ε]
  {likeness : Likeness}

/-! ### Parts and wholes -/

theorem of₁ {a a' : α} (build : α → ε)
    (parts : ∀ labels a, relabel labels (build a) = build (relabel labels a))
    [first : Alike likeness a a'] : Alike likeness (build a) (build a') :=
  ⟨by rw [parts, parts, first.same]⟩

theorem of₂ {a a' : α} {b b' : β} (build : α → β → ε)
    (parts : ∀ labels a b, relabel labels (build a b) = build (relabel labels a) (relabel labels b))
    [first : Alike likeness a a'] [second : Alike likeness b b'] :
    Alike likeness (build a b) (build a' b') :=
  ⟨by rw [parts, parts, first.same, second.same]⟩

theorem of₃ {a a' : α} {b b' : β} {c c' : γ} (build : α → β → γ → ε)
    (parts : ∀ labels a b c, relabel labels (build a b c) =
      build (relabel labels a) (relabel labels b) (relabel labels c))
    [first : Alike likeness a a'] [second : Alike likeness b b'] [third : Alike likeness c c'] :
    Alike likeness (build a b c) (build a' b' c') :=
  ⟨by rw [parts, parts, first.same, second.same, third.same]⟩

theorem of₄ {a a' : α} {b b' : β} {c c' : γ} {d d' : δ} (build : α → β → γ → δ → ε)
    (parts : ∀ labels a b c d, relabel labels (build a b c d) =
      build (relabel labels a) (relabel labels b) (relabel labels c) (relabel labels d))
    [first : Alike likeness a a'] [second : Alike likeness b b'] [third : Alike likeness c c']
    [fourth : Alike likeness d d'] : Alike likeness (build a b c d) (build a' b' c' d') :=
  ⟨by rw [parts, parts, first.same, second.same, third.same, fourth.same]⟩

/-- What has no labels is like itself. -/
instance labelFree [LabelFree α] (value : α) : Alike likeness value value :=
  ⟨by rw [LabelFree.relabel_eq, LabelFree.relabel_eq]⟩

/-- What has no labels is like nothing else. -/
theorem eq [LabelFree α] {value copy : α} (same : Alike likeness value copy) : value = copy := by
  have equal := same.same
  rwa [LabelFree.relabel_eq, LabelFree.relabel_eq] at equal

/-- With nothing replaced only equal things are alike. -/
theorem eq_of_refl [LawfulLabels α] {value copy : α} (same : Alike .refl value copy) :
    value = copy :=
  (functorial value).same.symm.trans (same.same.trans (functorial copy).same)

theorem refl (value : α) : Alike .refl value value := ⟨rfl⟩

instance nil : Alike likeness ([] : List α) [] := ⟨rfl⟩

instance cons {a a' : α} {rest rest' : List α} [Alike likeness a a'] [Alike likeness rest rest'] :
    Alike likeness (a :: rest) (a' :: rest') :=
  of₂ List.cons fun _ _ _ => rfl

instance reverse {items items' : List α} [same : Alike likeness items items'] :
    Alike likeness items.reverse items'.reverse := by
  refine of₁ List.reverse fun labels items => ?_
  exact List.map_reverse

theorem isEmpty_eq {items items' : List α} (same : Alike likeness items items') :
    items.isEmpty = items'.isEmpty := by
  have lengths := congrArg List.isEmpty same.same
  change (items.map _).isEmpty = (items'.map _).isEmpty at lengths
  rwa [List.isEmpty_map, List.isEmpty_map] at lengths

instance none : Alike likeness (none : Option α) .none := ⟨rfl⟩

instance some {a a' : α} [Alike likeness a a'] : Alike likeness (some a) (.some a') :=
  of₁ Option.some fun _ _ => rfl

theorem option_cases {found found' : Option α} (same : Alike likeness found found') :
    (found = .none ∧ found' = .none) ∨
      ∃ value value', found = .some value ∧ found' = .some value' ∧ Alike likeness value value' := by
  have equal := same.same
  cases found with
  | none =>
      cases found' with
      | none => exact .inl ⟨rfl, rfl⟩
      | some => cases equal
  | some value =>
      cases found' with
      | none => cases equal
      | some value' => exact .inr ⟨value, value', rfl, rfl, ⟨Option.some.inj equal⟩⟩

instance pair {a a' : α} {b b' : β} [Alike likeness a a'] [Alike likeness b b'] :
    Alike likeness (a, b) (a', b') :=
  of₂ Prod.mk fun _ _ _ => rfl

instance fst {both both' : α × β} [same : Alike likeness both both'] :
    Alike likeness both.1 both'.1 := ⟨congrArg Prod.fst same.same⟩

instance snd {both both' : α × β} [same : Alike likeness both both'] :
    Alike likeness both.2 both'.2 := ⟨congrArg Prod.snd same.same⟩

/-! ### Spans and names -/

section

variable {span span' place place' : Span} [at_ : Alike likeness span span'] {name name' : Ident}

instance merge [second : Alike likeness place place'] :
    Alike likeness (span.merge place) (span'.merge place') :=
  ⟨likeness.merge at_.same second.same⟩

instance placeOf [same : Alike likeness name name'] : Alike likeness name.span name'.span :=
  ⟨likeness.place same.same⟩

instance quoted (value : String) (quote : Char) :
    Alike likeness (Ident.mk value (.some quote) span) ⟨value, .some quote, span'⟩ :=
  ⟨likeness.quoted value quote at_.same⟩

instance token (kind : TokenKind) : Alike likeness (Token.mk kind span) ⟨kind, span'⟩ :=
  of₁ (Token.mk kind) fun _ _ => rfl

omit at_ in
theorem kind_eq {token token' : Token} (same : Alike likeness token token') :
    token.kind = token'.kind := by
  have kinds := congrArg Token.kind same.same
  exact kinds

instance spanOfToken {token token' : Token} [same : Alike likeness token token'] :
    Alike likeness token.span token'.span := ⟨congrArg Token.span same.same⟩

instance tableName {schema schema' : Option Ident} [Alike likeness schema schema']
    [Alike likeness name name'] :
    Alike likeness (TableName.mk schema name span) ⟨schema', name', span'⟩ :=
  of₃ TableName.mk fun _ _ _ _ => rfl

instance spanOfTableName {name name' : TableName} [same : Alike likeness name name'] :
    Alike likeness name.span name'.span := ⟨congrArg TableName.span same.same⟩

instance columnRef {schema schema' table table' : Option Ident} [Alike likeness schema schema']
    [Alike likeness table table'] [Alike likeness name name'] :
    Alike likeness (ColumnRef.mk schema table name span) ⟨schema', table', name', span'⟩ :=
  of₄ ColumnRef.mk fun _ _ _ _ _ => rfl

instance spanOfColumnRef {ref ref' : ColumnRef} [same : Alike likeness ref ref'] :
    Alike likeness ref.span ref'.span := ⟨congrArg ColumnRef.span same.same⟩

instance indexHint {indexes indexes' : List Ident} (action : IndexHintAction)
    (scope : Option IndexHintScope) [Alike likeness indexes indexes'] :
    Alike likeness (IndexHint.mk action scope indexes span) ⟨action, scope, indexes', span'⟩ :=
  of₂ (IndexHint.mk action scope) fun _ _ _ => rfl

instance namedTable {name name' : TableName} {partitions partitions' : List Ident}
    {aliasName aliasName' : Option Ident} {hints hints' : List IndexHint}
    [named : Alike likeness name name'] [listed : Alike likeness partitions partitions']
    [called : Alike likeness aliasName aliasName'] [hinted : Alike likeness hints hints'] :
    Alike likeness (NamedTable.mk name partitions aliasName hints span)
      ⟨name', partitions', aliasName', hints', span'⟩ :=
  ⟨by rw [NamedTable.relabel_mk, NamedTable.relabel_mk, named.same, listed.same, called.same,
    hinted.same, at_.same]⟩

instance lockingClause {tables tables' : List TableName} (mode : LockMode)
    (wait : Option LockWait) [Alike likeness tables tables'] :
    Alike likeness (LockingClause.mk mode tables wait span) ⟨mode, tables', wait, span'⟩ :=
  of₂ (fun tables span => LockingClause.mk mode tables wait span) fun _ _ _ => rfl

end

/-! ### Expressions -/

section

variable {span span' : Span} [at_ : Alike likeness span span']
  {operand operand' left left' right right' low low' high high' : Expr} {name name' : Ident}
  {items items' : List Expr} {query query' : Query}

instance spanOfExpr [same : Alike likeness operand operand'] :
    Alike likeness operand.span operand'.span :=
  ⟨by
    have equal := congrArg Expr.span same.same
    rwa [Expr.span_relabel, Expr.span_relabel] at equal⟩

instance literal (value : Literal) :
    Alike likeness (Expr.literal value span) (.literal value span') :=
  ⟨congrArg₂ Expr.literal (likeness.literal value) at_.same⟩

instance odbc (value : String) [kind : Alike likeness name name'] :
    Alike likeness (Expr.literal (.odbc name.value value) span)
      (.literal (.odbc name'.value value) span') :=
  ⟨congrArg₂ Expr.literal (likeness.odbc value kind.same) at_.same⟩

instance column {ref ref' : ColumnRef} [Alike likeness ref ref'] :
    Alike likeness (Expr.column ref) (.column ref') :=
  of₁ Expr.column fun _ _ => rfl

theorem placeholder {index index' : Nat}
    (numbers : likeness.left.marker index = likeness.right.marker index') :
    Alike likeness (Expr.placeholder index span) (.placeholder index' span') :=
  ⟨congrArg₂ Expr.placeholder numbers at_.same⟩

instance default : Alike likeness (Expr.default span) (.default span') :=
  of₁ Expr.default fun _ _ => rfl

instance binary (op : BinaryOp) [Alike likeness left left'] [Alike likeness right right'] :
    Alike likeness (Expr.binary left op right span) (.binary left' op right' span') :=
  of₃ (fun left right span => Expr.binary left op right span) fun _ _ _ _ => rfl

instance ofOperands (op : BinaryOp) [Alike likeness left left'] [Alike likeness right right'] :
    Alike likeness (Expr.ofOperands left op right) (.ofOperands left' op right') :=
  binary op

instance unary (op : UnaryOp) [Alike likeness operand operand'] :
    Alike likeness (Expr.unary op operand span) (.unary op operand' span') :=
  of₂ (fun operand span => Expr.unary op operand span) fun _ _ _ => rfl

instance is (negated : Bool) (value : IsValue) [Alike likeness operand operand'] :
    Alike likeness (Expr.is operand negated value span) (.is operand' negated value span') :=
  of₂ (fun operand span => Expr.is operand negated value span) fun _ _ _ => rfl

instance quantified (op : BinaryOp) (quantifier : Quantifier) [Alike likeness left left']
    [Alike likeness query query'] :
    Alike likeness (Expr.quantified left op quantifier query span)
      (.quantified left' op quantifier query' span') :=
  of₃ (fun left query span => Expr.quantified left op quantifier query span) fun _ _ _ _ => rfl

instance between (negated : Bool) [Alike likeness operand operand'] [Alike likeness low low']
    [Alike likeness high high'] :
    Alike likeness (Expr.between operand low high negated span)
      (.between operand' low' high' negated span') :=
  of₄ (fun operand low high span => Expr.between operand low high negated span)
    fun _ _ _ _ _ => rfl

instance isIn {set set' : InSet} (negated : Bool) [Alike likeness operand operand']
    [Alike likeness set set'] :
    Alike likeness (Expr.isIn operand set negated span) (.isIn operand' set' negated span') :=
  of₃ (fun operand set span => Expr.isIn operand set negated span) fun _ _ _ _ => rfl

instance like {escape escape' : Option Expr} (op : LikeOp) (negated : Bool)
    [Alike likeness left left'] [Alike likeness right right'] [Alike likeness escape escape'] :
    Alike likeness (Expr.like left right escape op negated span)
      (.like left' right' escape' op negated span') :=
  of₄ (fun left right escape span => Expr.like left right escape op negated span)
    fun labels left right escape span => Expr.relabel_like labels span left right escape op negated

instance soundsLike [Alike likeness left left'] [Alike likeness right right'] :
    Alike likeness (Expr.soundsLike left right span) (.soundsLike left' right' span') :=
  of₃ Expr.soundsLike fun _ _ _ _ => rfl

instance case {subject subject' otherwise otherwise' : Option Expr}
    {whens whens' : List (Expr × Expr)} [Alike likeness subject subject']
    [Alike likeness whens whens'] [Alike likeness otherwise otherwise'] :
    Alike likeness (Expr.case subject whens otherwise span)
      (.case subject' whens' otherwise' span') :=
  of₄ Expr.case fun labels subject whens otherwise span =>
    Expr.relabel_case labels span subject whens otherwise

instance cast (target : TypeName) [Alike likeness operand operand'] :
    Alike likeness (Expr.cast operand target span) (.cast operand' target span') :=
  of₂ (fun operand span => Expr.cast operand target span) fun _ _ _ => rfl

instance callStar (distinct : Bool) [Alike likeness name name'] :
    Alike likeness (Expr.call name .star distinct span) (.call name' .star distinct span') :=
  of₂ (fun name span => Expr.call name .star distinct span) fun _ _ _ => rfl

instance call (distinct : Bool) [Alike likeness name name'] [Alike likeness items items'] :
    Alike likeness (Expr.call name (.list items) distinct span)
      (.call name' (.list items') distinct span') :=
  of₃ (fun name items span => Expr.call name (.list items) distinct span)
    fun labels name items span => Expr.relabel_call labels span name items distinct

instance subquery [Alike likeness query query'] :
    Alike likeness (Expr.subquery query span) (.subquery query' span') :=
  of₂ Expr.subquery fun _ _ _ => rfl

instance existsRows [Alike likeness query query'] :
    Alike likeness (Expr.exists query span) (.exists query' span') :=
  of₂ Expr.exists fun _ _ _ => rfl

instance row [Alike likeness items items'] :
    Alike likeness (Expr.row items span) (.row items' span') :=
  of₂ Expr.row fun labels items span => Expr.relabel_row labels span items

instance collate [Alike likeness operand operand'] [Alike likeness name name'] :
    Alike likeness (Expr.collate operand name span) (.collate operand' name' span') :=
  of₃ Expr.collate fun _ _ _ _ => rfl

instance list [Alike likeness items items'] :
    Alike likeness (InSet.list items) (.list items') :=
  of₁ InSet.list InSet.relabel_list

instance rows [Alike likeness query query'] :
    Alike likeness (InSet.subquery query) (.subquery query') :=
  of₁ InSet.subquery fun _ _ => rfl

end

/-! ### Tables -/

section

variable {span span' : Span} [at_ : Alike likeness span span'] {left left' right right' : TableRef}
  {name name' : Ident} {query query' : Query}

instance spanOfTableRef [same : Alike likeness left left'] :
    Alike likeness left.span left'.span :=
  ⟨by
    have equal := congrArg TableRef.span same.same
    rwa [TableRef.span_relabel, TableRef.span_relabel] at equal⟩

instance named {table table' : NamedTable} [Alike likeness table table'] :
    Alike likeness (TableRef.named table) (.named table') :=
  of₁ TableRef.named fun _ _ => rfl

instance derived [Alike likeness query query'] [Alike likeness name name'] :
    Alike likeness (TableRef.derived query name span) (.derived query' name' span') :=
  of₃ TableRef.derived fun _ _ _ _ => rfl

instance on {condition condition' : Expr} [Alike likeness condition condition'] :
    Alike likeness (JoinCondition.on condition) (.on condition') :=
  of₁ JoinCondition.on fun _ _ => rfl

instance usingColumns {columns columns' : List Ident} [Alike likeness columns columns'] :
    Alike likeness (JoinCondition.using columns) (.using columns') :=
  of₁ JoinCondition.using fun _ _ => rfl

instance joined {test test' : Option JoinCondition} (join : JoinType) [Alike likeness left left']
    [Alike likeness right right'] [Alike likeness test test'] :
    Alike likeness (TableRef.joined left join right test span)
      (.joined left' join right' test' span') :=
  of₄ (fun left right test span => TableRef.joined left join right test span)
    fun labels left right test span => TableRef.relabel_joined labels span left right join test

instance parenthesized {refs refs' : List TableRef} [Alike likeness refs refs'] :
    Alike likeness (TableRef.parenthesized refs span) (.parenthesized refs' span') :=
  of₂ TableRef.parenthesized fun labels refs span =>
    TableRef.relabel_parenthesized labels span refs

end

/-! ### Queries -/

section

variable {span span' : Span} [at_ : Alike likeness span span'] {value value' : Expr}
  {query query' : Query} {terms terms' : List OrderingTerm} {name name' : Ident}
  {aliasName aliasName' : Option Ident}

instance wildcard : Alike likeness (SelectItem.wildcard span) (.wildcard span') :=
  of₁ SelectItem.wildcard fun _ _ => rfl

instance qualifiedWildcard [Alike likeness aliasName aliasName'] [Alike likeness name name'] :
    Alike likeness (SelectItem.qualifiedWildcard aliasName name span)
      (.qualifiedWildcard aliasName' name' span') :=
  of₃ SelectItem.qualifiedWildcard fun _ _ _ _ => rfl

instance item [Alike likeness value value'] [Alike likeness aliasName aliasName'] :
    Alike likeness (SelectItem.expr value aliasName span) (.expr value' aliasName' span') :=
  of₃ SelectItem.expr fun _ _ _ _ => rfl

instance orderingTerm (direction : Option SortDirection) [Alike likeness value value'] :
    Alike likeness (OrderingTerm.mk value direction span) ⟨value', direction, span'⟩ :=
  of₂ (fun value span => OrderingTerm.mk value direction span) fun _ _ _ => rfl

instance limit {offset offset' : Option Expr} [Alike likeness value value']
    [Alike likeness offset offset'] :
    Alike likeness (LimitClause.mk value offset span) ⟨value', offset', span'⟩ :=
  of₃ LimitClause.mk fun labels value offset span =>
    LimitClause.relabel_mk labels span value offset

instance core {columns columns' : List SelectItem} {sources sources' : List TableRef}
    {filter filter' having having' : Option Expr} (modifiers : SelectModifiers) (withRollup : Bool)
    [items : Alike likeness columns columns'] [refs : Alike likeness sources sources']
    [filtered : Alike likeness filter filter'] [ordered : Alike likeness terms terms']
    [kept : Alike likeness having having'] :
    Alike likeness (SelectCore.mk modifiers columns sources filter terms withRollup having span)
      ⟨modifiers, columns', sources', filter', terms', withRollup, having', span'⟩ :=
  ⟨by rw [SelectCore.relabel_mk, SelectCore.relabel_mk, items.same, refs.same, filtered.same,
    ordered.same, kept.same, at_.same]⟩

instance select {core core' : SelectCore} [Alike likeness core core'] :
    Alike likeness (QueryTerm.select core) (.select core') :=
  of₁ QueryTerm.select fun _ _ => rfl

instance nested [Alike likeness query query'] :
    Alike likeness (QueryTerm.nested query) (.nested query') :=
  of₁ QueryTerm.nested fun _ _ => rfl

instance body {first first' : QueryTerm} {compounds compounds' : List (CompoundOp × QueryTerm)}
    [Alike likeness first first'] [Alike likeness compounds compounds'] :
    Alike likeness (QueryBody.mk first compounds span) ⟨first', compounds', span'⟩ :=
  of₃ QueryBody.mk fun labels first compounds span =>
    QueryBody.relabel_mk labels span first compounds

instance commonTable {columns columns' : List Ident} [Alike likeness name name']
    [Alike likeness columns columns'] [Alike likeness query query'] :
    Alike likeness (CommonTable.mk name columns query span) ⟨name', columns', query', span'⟩ :=
  of₄ CommonTable.mk fun _ _ _ _ _ => rfl

instance withClause {tables tables' : List CommonTable} (recursive : Bool)
    [Alike likeness tables tables'] :
    Alike likeness (WithClause.mk recursive tables span) ⟨recursive, tables', span'⟩ :=
  of₂ (fun tables span => WithClause.mk recursive tables span) fun labels tables span =>
    WithClause.relabel_mk labels span recursive tables

instance wholeQuery {withClause withClause' : Option WithClause} {body body' : QueryBody}
    {limit limit' : Option LimitClause} {locking locking' : Option LockingClause}
    [tables : Alike likeness withClause withClause'] [inner : Alike likeness body body']
    [ordered : Alike likeness terms terms'] [limited : Alike likeness limit limit']
    [locked : Alike likeness locking locking'] :
    Alike likeness (Query.mk withClause body terms limit locking span)
      ⟨withClause', body', terms', limit', locking', span'⟩ :=
  ⟨by rw [Query.relabel_mk, Query.relabel_mk, tables.same, inner.same, ordered.same, limited.same,
    locked.same, at_.same]⟩

end

/-! ### Statements -/

section

variable {span span' : Span} [at_ : Alike likeness span span'] {query query' : Query}
  {assignments assignments' : List Assignment} {tables tables' : List TableRef}
  {filter filter' : Option Expr} {terms terms' : List OrderingTerm}
  {limit limit' : Option LimitClause}

instance assignment {column column' : ColumnRef} {value value' : Expr}
    [Alike likeness column column'] [Alike likeness value value'] :
    Alike likeness (Assignment.mk column value span) ⟨column', value', span'⟩ :=
  of₃ Assignment.mk fun _ _ _ _ => rfl

instance values {rows rows' : List (List Expr)} [Alike likeness rows rows'] :
    Alike likeness (InsertSource.values rows) (.values rows') :=
  of₁ InsertSource.values fun _ _ => rfl

instance insertSelect [Alike likeness query query'] :
    Alike likeness (InsertSource.select query) (.select query') :=
  of₁ InsertSource.select fun _ _ => rfl

instance insertSet [Alike likeness assignments assignments'] :
    Alike likeness (InsertSource.set assignments) (.set assignments') :=
  of₁ InsertSource.set fun _ _ => rfl

instance insert {table table' : TableName} {partitions partitions' columns columns' : List Ident}
    {source source' : InsertSource} (kind : InsertKind) (priority : Option InsertPriority)
    (ignore : Bool) [into : Alike likeness table table']
    [parts : Alike likeness partitions partitions'] [listed : Alike likeness columns columns']
    [sourced : Alike likeness source source'] [assigned : Alike likeness assignments assignments'] :
    Alike likeness
      (Insert.mk kind priority ignore table partitions columns source assignments span)
      ⟨kind, priority, ignore, table', partitions', columns', source', assignments', span'⟩ :=
  ⟨by rw [Insert.relabel_mk, Insert.relabel_mk, into.same, parts.same, listed.same, sourced.same,
    assigned.same, at_.same]⟩

instance update (lowPriority ignore : Bool) [refs : Alike likeness tables tables']
    [assigned : Alike likeness assignments assignments'] [filtered : Alike likeness filter filter']
    [ordered : Alike likeness terms terms'] [limited : Alike likeness limit limit'] :
    Alike likeness (Update.mk lowPriority ignore tables assignments filter terms limit span)
      ⟨lowPriority, ignore, tables', assignments', filter', terms', limit', span'⟩ :=
  ⟨by rw [Update.relabel_mk, Update.relabel_mk, refs.same, assigned.same, filtered.same,
    ordered.same, limited.same, at_.same]⟩

instance single {table table' : NamedTable} [Alike likeness table table'] :
    Alike likeness (DeleteSource.single table) (.single table') :=
  of₁ DeleteSource.single fun _ _ => rfl

instance multi (afterUsing : Bool) [Alike likeness tables tables'] :
    Alike likeness (DeleteSource.multi tables afterUsing) (.multi tables' afterUsing) :=
  of₁ (DeleteSource.multi · afterUsing) fun _ _ => rfl

instance delete {targets targets' : List TableName} {source source' : DeleteSource}
    (lowPriority quick ignore : Bool) [targeted : Alike likeness targets targets']
    [sourced : Alike likeness source source'] [filtered : Alike likeness filter filter']
    [ordered : Alike likeness terms terms'] [limited : Alike likeness limit limit'] :
    Alike likeness (Delete.mk lowPriority quick ignore targets source filter terms limit span)
      ⟨lowPriority, quick, ignore, targets', source', filter', terms', limit', span'⟩ :=
  ⟨by rw [Delete.relabel_mk, Delete.relabel_mk, targeted.same, sourced.same, filtered.same,
    ordered.same, limited.same, at_.same]⟩

instance selectStatement [Alike likeness query query'] :
    Alike likeness (Statement.select query) (.select query') :=
  of₁ Statement.select fun _ _ => rfl

instance insertStatement {tree tree' : Insert} [Alike likeness tree tree'] :
    Alike likeness (Statement.insert tree) (.insert tree') :=
  of₁ Statement.insert fun _ _ => rfl

instance updateStatement {tree tree' : Update} [Alike likeness tree tree'] :
    Alike likeness (Statement.update tree) (.update tree') :=
  of₁ Statement.update fun _ _ => rfl

instance deleteStatement {tree tree' : Delete} [Alike likeness tree tree'] :
    Alike likeness (Statement.delete tree) (.delete tree') :=
  of₁ Statement.delete fun _ _ => rfl

end

end Alike

end SqlDml
