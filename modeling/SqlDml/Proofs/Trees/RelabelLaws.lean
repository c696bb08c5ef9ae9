import SqlDml.Proofs.Trees.Induction
import SqlDml.Proofs.Trees.Relabel

/-!
Contract: replacing labels is functorial.

Owns:
- replacing nothing changes no tree;
- replacing twice is replacing once, by both replacements.

Does not own: what labels are replaced by.
-/

namespace SqlDml

/-- One replacement behind another. -/
def Relabelling.after (outer inner : Relabelling) : Relabelling where
  span := outer.span ∘ inner.span
  ident := outer.ident ∘ inner.ident
  literal := outer.literal ∘ inner.literal
  marker := outer.marker ∘ inner.marker

/-- Replacing nothing changes nothing, and replacing twice is replacing once. -/
structure Functorial {α : Type} [Labelled α] (value : α) : Prop where
  same : relabel {} value = value
  twice : ∀ outer inner : Relabelling,
    relabel outer (relabel inner value) = relabel (outer.after inner) value

/-- A type in which labels are replaced lawfully. -/
class LawfulLabels (α : Type) [Labelled α] : Prop where
  functorial : ∀ value : α, Functorial value

export LawfulLabels (functorial)

namespace Functorial

variable {α β γ δ ε : Type} [Labelled α] [Labelled β] [Labelled γ] [Labelled δ] [Labelled ε]

theorem of₁ {a : α} (build : α → ε)
    (parts : ∀ labels a, relabel labels (build a) = build (relabel labels a))
    (first : Functorial a) : Functorial (build a) :=
  ⟨by rw [parts, first.same], fun outer inner => by rw [parts, parts, parts, first.twice]⟩

theorem of₂ {a : α} {b : β} (build : α → β → ε)
    (parts : ∀ labels a b, relabel labels (build a b) = build (relabel labels a) (relabel labels b))
    (first : Functorial a) (second : Functorial b) : Functorial (build a b) :=
  ⟨by rw [parts, first.same, second.same],
    fun outer inner => by rw [parts, parts, parts, first.twice, second.twice]⟩

theorem of₃ {a : α} {b : β} {c : γ} (build : α → β → γ → ε)
    (parts : ∀ labels a b c, relabel labels (build a b c) =
      build (relabel labels a) (relabel labels b) (relabel labels c))
    (first : Functorial a) (second : Functorial b) (third : Functorial c) :
    Functorial (build a b c) :=
  ⟨by rw [parts, first.same, second.same, third.same],
    fun outer inner => by rw [parts, parts, parts, first.twice, second.twice, third.twice]⟩

theorem of₄ {a : α} {b : β} {c : γ} {d : δ} (build : α → β → γ → δ → ε)
    (parts : ∀ labels a b c d, relabel labels (build a b c d) =
      build (relabel labels a) (relabel labels b) (relabel labels c) (relabel labels d))
    (first : Functorial a) (second : Functorial b) (third : Functorial c) (fourth : Functorial d) :
    Functorial (build a b c d) :=
  ⟨by rw [parts, first.same, second.same, third.same, fourth.same],
    fun outer inner => by
      rw [parts, parts, parts, first.twice, second.twice, third.twice, fourth.twice]⟩

theorem list {items : List α} (each : ∀ item ∈ items, Functorial item) : Functorial items := by
  induction items with
  | nil => exact ⟨rfl, fun _ _ => rfl⟩
  | cons item items inductionHypothesis =>
      rw [List.forall_mem_cons] at each
      exact of₂ List.cons (fun _ _ _ => rfl) each.1 (inductionHypothesis each.2)

theorem option {found : Option α} (each : ∀ value ∈ found, Functorial value) :
    Functorial found := by
  cases found with
  | none => exact ⟨rfl, fun _ _ => rfl⟩
  | some value => exact of₁ some (fun _ _ => rfl) (each value rfl)

end Functorial

namespace LawfulLabels

variable {α β : Type}

instance : @LawfulLabels α (unlabelled α) :=
  @LawfulLabels.mk α (unlabelled α) fun _ => @Functorial.mk α (unlabelled α) _ rfl fun _ _ => rfl

variable [Labelled α] [LawfulLabels α] [Labelled β] [LawfulLabels β]

instance : LawfulLabels (List α) := ⟨fun _ => .list fun item _ => functorial item⟩

instance : LawfulLabels (Option α) := ⟨fun _ => .option fun value _ => functorial value⟩

instance : LawfulLabels (α × β) :=
  ⟨fun value => .of₂ Prod.mk (fun _ _ _ => rfl) (functorial value.1) (functorial value.2)⟩

instance : LawfulLabels Span := ⟨fun _ => ⟨rfl, fun _ _ => rfl⟩⟩

instance : LawfulLabels Ident := ⟨fun _ => ⟨rfl, fun _ _ => rfl⟩⟩

instance : LawfulLabels TableName :=
  ⟨fun name => .of₃ TableName.mk (fun _ _ _ _ => rfl) (functorial name.schema)
    (functorial name.table) (functorial name.span)⟩

instance : LawfulLabels ColumnRef :=
  ⟨fun ref => .of₄ ColumnRef.mk (fun _ _ _ _ _ => rfl) (functorial ref.schema)
    (functorial ref.table) (functorial ref.column) (functorial ref.span)⟩

instance : LawfulLabels IndexHint :=
  ⟨fun hint => .of₂ (IndexHint.mk hint.action hint.scope) (fun _ _ _ => rfl)
    (functorial hint.indexes) (functorial hint.span)⟩

instance : LawfulLabels NamedTable where
  functorial
    | ⟨name, partitions, aliasName, hints, span⟩ =>
        .of₃ (fun (names : TableName × List Ident) (rest : Option Ident × List IndexHint) span =>
            NamedTable.mk names.1 names.2 rest.1 rest.2 span) (fun _ _ _ _ => rfl)
          (functorial (name, partitions)) (functorial (aliasName, hints)) (functorial span)

instance : LawfulLabels LockingClause :=
  ⟨fun locking => .of₂ (fun tables span => LockingClause.mk locking.mode tables locking.wait span)
    (fun _ _ _ => rfl) (functorial locking.tables) (functorial locking.span)⟩

end LawfulLabels

/-! ### Expressions and queries -/

namespace Functorial

theorem commonTable (table : CommonTable) (rows : Functorial table.query) : Functorial table := by
  obtain ⟨name, columns, query, span⟩ := table
  exact of₄ CommonTable.mk (fun _ _ _ _ _ => rfl) (functorial name) (functorial columns) rows
    (functorial span)

theorem limitClause (limit : LimitClause) (first : Functorial limit.count)
    (second : ∀ expr ∈ limit.offset, Functorial expr) : Functorial limit := by
  obtain ⟨count, offset, span⟩ := limit
  exact of₃ LimitClause.mk
    (fun labels count offset span => LimitClause.relabel_mk labels span count offset) first
    (option second) (functorial span)

theorem orderingTerm (entry : OrderingTerm) (first : Functorial entry.expr) : Functorial entry := by
  obtain ⟨value, direction, span⟩ := entry
  exact of₂ (fun value span => OrderingTerm.mk value direction span) (fun _ _ _ => rfl) first
    (functorial span)

theorem selectItem (item : SelectItem)
    (each : ∀ value aliasName place, item = .expr value aliasName place → Functorial value) :
    Functorial item := by
  cases item with
  | wildcard span => exact ⟨rfl, fun _ _ => rfl⟩
  | qualifiedWildcard schema table span =>
      exact of₃ SelectItem.qualifiedWildcard (fun _ _ _ _ => rfl) (functorial schema)
        (functorial table) (functorial span)
  | expr value aliasName span =>
      exact of₃ SelectItem.expr (fun _ _ _ _ => rfl) (each value aliasName span rfl)
        (functorial aliasName) (functorial span)

theorem joinCondition (test : JoinCondition)
    (each : ∀ value, test = .on value → Functorial value) : Functorial test :=
  match test, each with
  | .on value, each => of₁ JoinCondition.on (fun _ _ => rfl) (each value rfl)
  | .using columns, _ => of₁ JoinCondition.using (fun _ _ => rfl) (functorial columns)

end Functorial

open Functorial in
theorem functorialTrees : TreeInduction (Functorial (α := Expr)) Functorial Functorial Functorial
    Functorial where
  literal value span := ⟨rfl, fun _ _ => rfl⟩
  column name := of₁ Expr.column (fun _ _ => rfl) (functorial name)
  placeholder index span := ⟨rfl, fun _ _ => rfl⟩
  default span := ⟨rfl, fun _ _ => rfl⟩
  binary left op right span first second :=
    of₃ (fun left right span => Expr.binary left op right span) (fun _ _ _ _ => rfl) first second
      (functorial span)
  unary op operand span first :=
    of₂ (Expr.unary op) (fun _ _ _ => rfl) first (functorial span)
  is operand negated value span first :=
    of₂ (fun operand span => Expr.is operand negated value span) (fun _ _ _ => rfl) first
      (functorial span)
  quantified left op quantifier rows span first second :=
    of₃ (fun left rows span => Expr.quantified left op quantifier rows span) (fun _ _ _ _ => rfl)
      first second (functorial span)
  between operand low high negated span first second third :=
    of₄ (fun operand low high span => Expr.between operand low high negated span)
      (fun _ _ _ _ _ => rfl) first second third (functorial span)
  inList operand items negated span first each :=
    of₃ (fun operand items span => Expr.isIn operand (.list items) negated span)
      (fun labels operand items span =>
        congrArg (Expr.isIn _ · negated _) (InSet.relabel_list labels items))
      first (list each) (functorial span)
  inQuery operand rows negated span first second :=
    of₃ (fun operand rows span => Expr.isIn operand (.subquery rows) negated span)
      (fun _ _ _ _ => rfl) first second (functorial span)
  like operand pattern escape op negated span first second each :=
    of₄ (fun operand pattern escape span => Expr.like operand pattern escape op negated span)
      (fun labels operand pattern escape span =>
        Expr.relabel_like labels span operand pattern escape op negated)
      first second (option each) (functorial span)
  soundsLike operand pattern span first second :=
    of₃ Expr.soundsLike (fun _ _ _ _ => rfl) first second (functorial span)
  case operand whens otherwise span subject branches last :=
    of₄ Expr.case
      (fun labels operand whens otherwise span =>
        Expr.relabel_case labels span operand whens otherwise)
      (option subject)
      (list fun branch member =>
        of₂ Prod.mk (fun _ _ _ => rfl) (branches branch member).1 (branches branch member).2)
      (option last) (functorial span)
  cast operand target span first :=
    of₂ (fun operand span => Expr.cast operand target span) (fun _ _ _ => rfl) first
      (functorial span)
  callStar name distinct span := ⟨rfl, fun _ _ => rfl⟩
  call name items distinct span each :=
    of₃ (fun name items span => Expr.call name (.list items) distinct span)
      (fun labels name items span => Expr.relabel_call labels span name items distinct)
      (functorial name) (list each) (functorial span)
  subquery rows span first := of₂ Expr.subquery (fun _ _ _ => rfl) first (functorial span)
  existsRows rows span first := of₂ Expr.exists (fun _ _ _ => rfl) first (functorial span)
  row items span each :=
    of₂ Expr.row (fun labels items span => Expr.relabel_row labels span items) (list each)
      (functorial span)
  collate operand collation span first :=
    of₃ Expr.collate (fun _ _ _ _ => rfl) first (functorial collation) (functorial span)
  wholeQuery withClause body orderBy limit locking span tables first compounds entries numbers := by
    obtain ⟨term, others, place⟩ := body
    have withs : Functorial withClause := option fun found member => by
      obtain ⟨recursive, list, place⟩ := found
      exact of₂ (WithClause.mk recursive)
        (fun labels tables span => WithClause.relabel_mk labels span recursive tables)
        (.list fun table inside => commonTable table (tables _ member table inside))
        (functorial place)
    have united : Functorial (QueryBody.mk term others place) :=
      of₃ QueryBody.mk
        (fun labels first compounds span => QueryBody.relabel_mk labels span first compounds) first
        (list fun compound member =>
          of₂ Prod.mk (fun _ _ _ => rfl) (functorial compound.1) (compounds compound member))
        (functorial place)
    have limits : Functorial limit := option fun found member =>
      limitClause found (numbers found member).1 (numbers found member).2
    exact of₄
      (fun (front : Option WithClause × QueryBody) terms (back : Option LimitClause × _) span =>
        Query.mk front.1 front.2 terms back.1 back.2 span)
      (fun labels front terms back span =>
        Query.relabel_mk labels span front.1 front.2 terms back.1 back.2)
      (of₂ Prod.mk (fun _ _ _ => rfl) withs united)
      (list fun entry member => orderingTerm entry (entries entry member))
      (of₂ Prod.mk (fun _ _ _ => rfl) limits (functorial locking)) (functorial span)
  select block first := of₁ QueryTerm.select (fun _ _ => rfl) first
  nested rows first := of₁ QueryTerm.nested (fun _ _ => rfl) first
  block modifiers columns sources filter groupBy withRollup having span items refs filtered entries
      kept :=
    of₄
      (fun (front : List SelectItem × List TableRef) filter
          (back : List OrderingTerm × Option Expr) span =>
        SelectCore.mk modifiers front.1 front.2 filter back.1 withRollup back.2 span)
      (fun labels front filter back span =>
        SelectCore.relabel_mk labels span modifiers front.1 front.2 filter back.1 withRollup back.2)
      (of₂ Prod.mk (fun _ _ _ => rfl)
        (list fun item member => selectItem item fun value aliasName place same =>
          items value aliasName place (same ▸ member))
        (list refs))
      (option filtered)
      (of₂ Prod.mk (fun _ _ _ => rfl)
        (list fun entry member => orderingTerm entry (entries entry member)) (option kept))
      (functorial span)
  named table := of₁ TableRef.named (fun _ _ => rfl) (functorial table)
  derived rows aliasName span first :=
    of₃ TableRef.derived (fun _ _ _ _ => rfl) first (functorial aliasName) (functorial span)
  joined left join right condition span first second tested :=
    of₄ (fun left right condition span => TableRef.joined left join right condition span)
      (fun labels left right condition span =>
        TableRef.relabel_joined labels span left right join condition)
      first second
      (option fun test member => joinCondition test fun value same =>
        tested value (same ▸ Option.mem_def.mp member).symm)
      (functorial span)
  parenthesized inner span each :=
    of₂ TableRef.parenthesized (fun labels refs span => TableRef.relabel_parenthesized labels span refs)
      (list each) (functorial span)

namespace LawfulLabels

instance : LawfulLabels Expr := ⟨functorialTrees.exprHolds⟩

instance : LawfulLabels Query := ⟨functorialTrees.queryHolds⟩

instance : LawfulLabels TableRef := ⟨functorialTrees.refHolds⟩

instance : LawfulLabels OrderingTerm := ⟨fun entry => .orderingTerm entry (functorial entry.expr)⟩

instance : LawfulLabels LimitClause :=
  ⟨fun limit => .limitClause limit (functorial limit.count) fun expr _ => functorial expr⟩

/-! ### Statements -/

instance : LawfulLabels Assignment :=
  ⟨fun assignment => .of₃ Assignment.mk (fun _ _ _ _ => rfl) (functorial assignment.column)
    (functorial assignment.value) (functorial assignment.span)⟩

instance : LawfulLabels InsertSource where
  functorial
    | .values rows => .of₁ InsertSource.values (fun _ _ => rfl) (functorial rows)
    | .select query => .of₁ InsertSource.select (fun _ _ => rfl) (functorial query)
    | .set assignments => .of₁ InsertSource.set (fun _ _ => rfl) (functorial assignments)

instance : LawfulLabels DeleteSource where
  functorial
    | .single table => .of₁ DeleteSource.single (fun _ _ => rfl) (functorial table)
    | .multi tables afterUsing =>
        .of₁ (DeleteSource.multi · afterUsing) (fun _ _ => rfl) (functorial tables)

instance : LawfulLabels Insert where
  functorial
    | ⟨kind, priority, ignore, table, partitions, columns, source, onDuplicate, span⟩ =>
        .of₄
          (fun (names : TableName × List Ident × List Ident) source onDuplicate span =>
            Insert.mk kind priority ignore names.1 names.2.1 names.2.2 source onDuplicate span)
          (fun _ _ _ _ _ => rfl) (functorial (table, partitions, columns)) (functorial source)
          (functorial onDuplicate) (functorial span)

instance : LawfulLabels Update where
  functorial
    | ⟨lowPriority, ignore, tables, assignments, filter, orderBy, limit, span⟩ =>
        .of₄
          (fun (front : List TableRef × List Assignment) filter
              (back : List OrderingTerm × Option LimitClause) span =>
            Update.mk lowPriority ignore front.1 front.2 filter back.1 back.2 span)
          (fun _ _ _ _ _ => rfl) (functorial (tables, assignments)) (functorial filter)
          (functorial (orderBy, limit)) (functorial span)

instance : LawfulLabels Delete where
  functorial
    | ⟨lowPriority, quick, ignore, targets, source, filter, orderBy, limit, span⟩ =>
        .of₄
          (fun (front : List TableName × DeleteSource) filter
              (back : List OrderingTerm × Option LimitClause) span =>
            Delete.mk lowPriority quick ignore front.1 front.2 filter back.1 back.2 span)
          (fun _ _ _ _ _ => rfl) (functorial (targets, source)) (functorial filter)
          (functorial (orderBy, limit)) (functorial span)

instance : LawfulLabels Statement where
  functorial
    | .select query => .of₁ Statement.select (fun _ _ => rfl) (functorial query)
    | .insert tree => .of₁ Statement.insert (fun _ _ => rfl) (functorial tree)
    | .update tree => .of₁ Statement.update (fun _ _ => rfl) (functorial tree)
    | .delete tree => .of₁ Statement.delete (fun _ _ => rfl) (functorial tree)

end LawfulLabels

end SqlDml
