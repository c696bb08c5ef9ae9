import SqlDml.Proofs.Trees.Distinct
import SqlDml.Proofs.Trees.Erased
import SqlDml.Proofs.Trees.Pieces
import SqlDml.Proofs.Trees.RelabelLaws

/-!
Contract: setting the spans of a tree to zero reaches every span and nothing else.

Owns:
- shapes with other spans, and shapes that are the same but for their spans;
- the shape of a tree without its spans, and its text, which has none;
- trees are the same but for their spans when they are the same without them.

Does not own: the walk that sets the spans.
-/

namespace SqlDml

open Shape (optional listOf plain)

/-! ### The spans in a shape -/

namespace Shape

mutual
/-- A shape with every span in it replaced. -/
def mapSpans (change : Span → Span) : Shape → Shape
  | .span value => .span (change value)
  | .present inner => .present (inner.mapSpans change)
  | .list items => .list (mapSpansItems change items)
  | .tuple items => .tuple (mapSpansItems change items)
  | .record name fields => .record name (mapSpansFields change fields)
  | .choiceOf tagging name items => .choiceOf tagging name (mapSpansItems change items)
  | .choiceWith tagging name fields => .choiceWith tagging name (mapSpansFields change fields)
  | shape => shape

def mapSpansItems (change : Span → Span) : List Shape → List Shape
  | [] => []
  | item :: items => item.mapSpans change :: mapSpansItems change items

def mapSpansFields (change : Span → Span) : List (String × Shape) → List (String × Shape)
  | [] => []
  | (name, field) :: fields => (name, field.mapSpans change) :: mapSpansFields change fields
end

attribute [simp] mapSpans mapSpansItems mapSpansFields

mutual
/-- Two shapes are the same in everything but their spans. -/
def SameButSpans : Shape → Shape → Prop
  | .span _, .span _ => True
  | .present left, .present right => left.SameButSpans right
  | .list left, .list right => SameButSpansItems left right
  | .tuple left, .tuple right => SameButSpansItems left right
  | .record leftName left, .record rightName right =>
      leftName = rightName ∧ SameButSpansFields left right
  | .choiceOf leftTagging leftName left, .choiceOf rightTagging rightName right =>
      leftTagging = rightTagging ∧ leftName = rightName ∧ SameButSpansItems left right
  | .choiceWith leftTagging leftName left, .choiceWith rightTagging rightName right =>
      leftTagging = rightTagging ∧ leftName = rightName ∧ SameButSpansFields left right
  | left, right => left = right

def SameButSpansItems : List Shape → List Shape → Prop
  | left :: lefts, right :: rights => left.SameButSpans right ∧ SameButSpansItems lefts rights
  | lefts, rights => lefts = rights

def SameButSpansFields : List (String × Shape) → List (String × Shape) → Prop
  | (leftName, left) :: lefts, (rightName, right) :: rights =>
      leftName = rightName ∧ left.SameButSpans right ∧ SameButSpansFields lefts rights
  | lefts, rights => lefts = rights
end

mutual
/-- Shapes that are the same but for their spans are the same with every span set to zero. -/
theorem sameButSpans_iff : ∀ left right : Shape,
    left.SameButSpans right ↔ left.mapSpans (fun _ => .zero) = right.mapSpans fun _ => .zero
  | .present left, right => by
      cases right <;> simp [SameButSpans, sameButSpans_iff left]
  | .list left, right => by
      cases right <;> simp [SameButSpans, sameButSpansItems_iff left]
  | .tuple left, right => by
      cases right <;> simp [SameButSpans, sameButSpansItems_iff left]
  | .record _ left, right => by
      cases right <;> simp [SameButSpans, sameButSpansFields_iff left]
  | .choiceOf _ _ left, right => by
      cases right <;> simp [SameButSpans, sameButSpansItems_iff left]
  | .choiceWith _ _ left, right => by
      cases right <;> simp [SameButSpans, sameButSpansFields_iff left]
  | .text _, right | .char _, right | .number _, right | .flag _, right | .span _, right
  | .absent, right | .choice _ _, right => by
      cases right <;> simp [SameButSpans]

theorem sameButSpansItems_iff : ∀ lefts rights : List Shape,
    SameButSpansItems lefts rights ↔
      mapSpansItems (fun _ => .zero) lefts = mapSpansItems (fun _ => .zero) rights
  | [], rights => by
      cases rights <;> simp [SameButSpansItems]
  | left :: lefts, rights => by
      cases rights <;> simp [SameButSpansItems, sameButSpans_iff left, sameButSpansItems_iff lefts]

theorem sameButSpansFields_iff : ∀ lefts rights : List (String × Shape),
    SameButSpansFields lefts rights ↔
      mapSpansFields (fun _ => .zero) lefts = mapSpansFields (fun _ => .zero) rights
  | [], rights => by
      cases rights <;> simp [SameButSpansFields]
  | (_, left) :: lefts, rights => by
      cases rights <;>
        simp [SameButSpansFields, sameButSpans_iff left, sameButSpansFields_iff lefts, and_assoc]
end

end Shape

/-! ### The shape of a tree without its spans -/

/-- The shape of a tree without its spans is its shape with every span set to zero. -/
def Spanless {Tree : Type} [Labelled Tree] (shape : Tree → Shape) (tree : Tree) : Prop :=
  shape (relabel .erasing tree) = (shape tree).mapSpans fun _ => .zero

namespace Spanless

section

variable {Tree : Type} [Labelled Tree] {shape : Tree → Shape}

theorem optional {found : Option Tree} (each : ∀ tree ∈ found, Spanless shape tree) :
    Spanless (Shape.optional shape) found := by
  cases found with
  | none => rfl
  | some tree => exact congrArg Shape.present (each tree rfl)

theorem map {trees : List Tree} (each : ∀ tree ∈ trees, Spanless shape tree) :
    (relabel .erasing trees).map shape =
      Shape.mapSpansItems (fun _ => .zero) (trees.map shape) := by
  induction trees with
  | nil => rfl
  | cons tree trees inductionHypothesis =>
      obtain ⟨first, later⟩ := List.forall_mem_cons.mp each
      exact congrArg₂ List.cons first (inductionHypothesis later)

theorem list {trees : List Tree} (each : ∀ tree ∈ trees, Spanless shape tree) :
    Spanless (listOf shape) trees :=
  congrArg Shape.list (map each)

end

/-! ### Values -/

theorem literal (value : Literal) : (value.shape.mapSpans fun _ => .zero) = value.shape := by
  induction value with
  | introduced charset value inductionHypothesis => simp [Literal.shape, inductionHypothesis]
  | temporal kind value => cases kind <;> rfl
  | _ => rfl

theorem modifiers (modifiers : SelectModifiers) :
    (modifiers.shape.mapSpans fun _ => .zero) = modifiers.shape := by
  obtain ⟨quantifier, _, _, _, _, _, cache, _⟩ := modifiers
  rcases quantifier with _ | _ | _ | _ <;> rcases cache with _ | _ | _ <;> rfl

/-! ### Names -/

theorem ident (name : Ident) : Spanless Ident.shape name := by
  obtain ⟨value, quote, span⟩ := name
  cases quote <;> rfl

theorem idents (names : List Ident) : Spanless (listOf Ident.shape) names :=
  .list fun name _ => ident name

theorem optionalIdent (name : Option Ident) : Spanless (Shape.optional Ident.shape) name :=
  .optional fun name _ => ident name

theorem tableName (name : TableName) : Spanless TableName.shape name := by
  obtain ⟨schema, table, span⟩ := name
  simp only [Spanless, TableName.shape, Shape.mapSpans, Shape.mapSpansFields]
  rw [← optionalIdent schema, ← ident table]
  rfl

theorem columnRef (name : ColumnRef) : Spanless ColumnRef.shape name := by
  obtain ⟨schema, table, column, span⟩ := name
  simp only [Spanless, ColumnRef.shape, Shape.mapSpans, Shape.mapSpansFields]
  rw [← optionalIdent schema, ← optionalIdent table, ← ident column]
  rfl

theorem indexHint (hint : IndexHint) : Spanless IndexHint.shape hint := by
  obtain ⟨action, scope, indexes, span⟩ := hint
  simp only [Spanless, IndexHint.shape, Shape.mapSpans, Shape.mapSpansFields]
  rw [← idents indexes]
  cases action <;> rcases scope with _ | _ | _ | _ <;> rfl

theorem namedTable (table : NamedTable) : Spanless NamedTable.shape table := by
  obtain ⟨name, partitions, aliasName, hints, span⟩ := table
  simp only [Spanless, NamedTable.shape, Shape.mapSpans, Shape.mapSpansFields]
  rw [← tableName name, ← idents partitions, ← optionalIdent aliasName,
    ← list fun hint _ => indexHint hint]
  rfl

theorem lockingClause (clause : LockingClause) : Spanless LockingClause.shape clause := by
  obtain ⟨mode, tables, wait, span⟩ := clause
  simp only [Spanless, LockingClause.shape, Shape.mapSpans, Shape.mapSpansFields]
  rw [← list fun name _ => tableName name]
  cases mode <;> rcases wait with _ | _ | _ <;> rfl

/-! ### Expressions and queries -/

theorem commonTable (table : CommonTable) (rows : Spanless Query.shape table.query) :
    Spanless CommonTable.shape table := by
  obtain ⟨name, columns, query, span⟩ := table
  simp only [Spanless, CommonTable.shape, Shape.mapSpans, Shape.mapSpansFields]
  rw [← ident name, ← idents columns, ← rows]
  rfl

theorem withClause (clause : WithClause)
    (rows : ∀ table ∈ clause.tables, Spanless Query.shape table.query) :
    Spanless WithClause.shape clause := by
  obtain ⟨recursive, tables, span⟩ := clause
  rw [Spanless, WithClause.relabel_mk]
  simp only [WithClause.shape, CommonTable.tableShapes_eq, Shape.mapSpans, Shape.mapSpansFields]
  rw [← map fun table member => commonTable table (rows table member)]
  rfl

theorem queryBody (body : QueryBody) (term : Spanless QueryTerm.shape body.first)
    (others : ∀ compound ∈ body.compounds, Spanless QueryTerm.shape compound.2) :
    Spanless QueryBody.shape body := by
  obtain ⟨first, compounds, span⟩ := body
  have each : ∀ compound ∈ compounds, Spanless QueryTerm.compoundShape compound := by
    rintro ⟨op, tree⟩ member
    have tree := others _ member
    simp only [Spanless, QueryTerm.compoundShape, Shape.mapSpans, Shape.mapSpansItems]
    rw [← tree]
    cases op <;> rfl
  rw [Spanless, QueryBody.relabel_mk]
  simp only [QueryBody.shape, QueryTerm.compoundShapes_eq, Shape.mapSpans, Shape.mapSpansFields]
  rw [← term, ← map each]
  rfl

theorem limitClause (limit : LimitClause) (first : Spanless Expr.shape limit.count)
    (second : ∀ expr ∈ limit.offset, Spanless Expr.shape expr) :
    Spanless LimitClause.shape limit := by
  obtain ⟨count, offset, span⟩ := limit
  rw [Spanless, LimitClause.relabel_mk, LimitClause.shape_mk, LimitClause.shape_mk]
  simp only [Shape.mapSpans, Shape.mapSpansFields]
  rw [← first, ← optional second]
  rfl

theorem orderingTerm (entry : OrderingTerm) (first : Spanless Expr.shape entry.expr) :
    Spanless OrderingTerm.shape entry := by
  obtain ⟨value, direction, span⟩ := entry
  simp only [Spanless, OrderingTerm.shape, Shape.mapSpans, Shape.mapSpansFields]
  rw [← first]
  rcases direction with _ | _ | _ <;> rfl

theorem selectItem (item : SelectItem)
    (each : ∀ value aliasName place, item = .expr value aliasName place →
      Spanless Expr.shape value) : Spanless SelectItem.shape item := by
  cases item with
  | wildcard span => rfl
  | qualifiedWildcard schema table span =>
      simp only [Spanless, SelectItem.shape, Shape.mapSpans, Shape.mapSpansFields]
      rw [← optionalIdent schema, ← ident table]
      rfl
  | expr value aliasName span =>
      simp only [Spanless, SelectItem.shape, Shape.mapSpans, Shape.mapSpansFields]
      rw [← each value aliasName span rfl, ← optionalIdent aliasName]
      rfl

theorem joinCondition (test : JoinCondition)
    (each : ∀ value, test = .on value → Spanless Expr.shape value) :
    Spanless JoinCondition.shape test := by
  rcases test with value | columns
  · simp only [Spanless, JoinCondition.shape, Shape.mapSpans, Shape.mapSpansItems]
    rw [← each value rfl]
    rfl
  · simp only [Spanless, JoinCondition.shape, Shape.mapSpans, Shape.mapSpansItems]
    rw [← idents columns]
    rfl

end Spanless

open Spanless in
theorem spanlessTrees : TreeInduction (Spanless Expr.shape) (Spanless Query.shape)
    (Spanless QueryTerm.shape) (Spanless SelectCore.shape) (Spanless TableRef.shape) where
  literal value span := by
    simp only [Spanless, Expr.shape, Shape.mapSpans, Shape.mapSpansItems]
    rw [literal value]
    rfl
  column name := by
    simp only [Spanless, Expr.shape, Shape.mapSpans, Shape.mapSpansItems]
    rw [← columnRef name]
    rfl
  placeholder index span := rfl
  default span := rfl
  binary left op right span first second := by
    simp only [Spanless, Expr.shape, Shape.mapSpans, Shape.mapSpansFields]
    rw [← first, ← second]
    rfl
  unary op operand span first := by
    simp only [Spanless, Expr.shape, Shape.mapSpans, Shape.mapSpansFields]
    rw [← first]
    cases op <;> rfl
  is operand negated value span first := by
    simp only [Spanless, Expr.shape, Shape.mapSpans, Shape.mapSpansFields]
    rw [← first]
    cases value <;> rfl
  quantified left op quantifier rows span first second := by
    simp only [Spanless, Expr.shape, Shape.mapSpans, Shape.mapSpansFields]
    rw [← first, ← second]
    cases quantifier <;> rfl
  between operand low high negated span first second third := by
    simp only [Spanless, Expr.shape, Shape.mapSpans, Shape.mapSpansFields]
    rw [← first, ← second, ← third]
    rfl
  inList operand items negated span first each := by
    simp only [Spanless, Expr.shape, InSet.shape, Expr.itemShapes_eq, Shape.mapSpans,
      Shape.mapSpansFields, Shape.mapSpansItems]
    rw [← first, ← map each, ← Expr.itemShapes_eq, ← Expr.mapItemsLabels_eq]
    rfl
  inQuery operand rows negated span first second := by
    simp only [Spanless, Expr.shape, InSet.shape, Shape.mapSpans, Shape.mapSpansFields,
      Shape.mapSpansItems]
    rw [← first, ← second]
    rfl
  like operand pattern escape op negated span first second each := by
    rw [Spanless, Expr.relabel_like, Expr.shape_like, Expr.shape_like]
    simp only [Shape.mapSpans, Shape.mapSpansFields]
    rw [← first, ← second, ← optional each]
    cases op <;> rfl
  soundsLike operand pattern span first second := by
    simp only [Spanless, Expr.shape, Shape.mapSpans, Shape.mapSpansFields]
    rw [← first, ← second]
    rfl
  case operand whens otherwise span subject branches last := by
    have each : ∀ branch ∈ whens, Spanless Expr.branchShape branch := by
      intro branch member
      obtain ⟨first, second⟩ := branches branch member
      simp only [Spanless, Expr.branchShape, Shape.mapSpans, Shape.mapSpansItems]
      rw [← first, ← second]
      rfl
    rw [Spanless, Expr.relabel_case, Expr.shape_case, Expr.shape_case]
    simp only [Shape.mapSpans, Shape.mapSpansFields]
    rw [← optional subject, ← map each, ← optional last]
    rfl
  cast operand target span first := by
    obtain ⟨name, length, scale⟩ := target
    simp only [Spanless, Expr.shape, Shape.mapSpans, Shape.mapSpansFields]
    rw [← first]
    cases length <;> cases scale <;> rfl
  callStar name distinct span := by
    simp only [Spanless, Expr.shape, Shape.mapSpans, Shape.mapSpansFields]
    rw [← ident name]
    rfl
  call name items distinct span each := by
    simp only [Spanless, Expr.relabel_call, Expr.shape, CallArgs.shape, Expr.itemShapes_eq,
      Shape.mapSpans, Shape.mapSpansFields, Shape.mapSpansItems]
    rw [← ident name, ← map each]
    rfl
  subquery rows span first := by
    simp only [Spanless, Expr.shape, Shape.mapSpans, Shape.mapSpansItems]
    rw [← first]
    rfl
  existsRows rows span first := by
    simp only [Spanless, Expr.shape, Shape.mapSpans, Shape.mapSpansFields]
    rw [← first]
    rfl
  row items span each := by
    simp only [Spanless, Expr.relabel_row, Expr.shape, Expr.itemShapes_eq, Shape.mapSpans,
      Shape.mapSpansItems]
    rw [← map each]
    rfl
  collate operand collation span first := by
    simp only [Spanless, Expr.shape, Shape.mapSpans, Shape.mapSpansFields]
    rw [← first, ← ident collation]
    rfl
  wholeQuery withClause body orderBy limit locking span tables first compounds entries numbers := by
    have withs : Spanless (Shape.optional WithClause.shape) withClause :=
      optional fun found member => Spanless.withClause found (tables found member)
    have orders : Spanless (listOf OrderingTerm.shape) orderBy :=
      list fun entry member => orderingTerm entry (entries entry member)
    have limits : Spanless (Shape.optional LimitClause.shape) limit :=
      optional fun found member =>
        limitClause found (numbers found member).1 (numbers found member).2
    have locks : Spanless (Shape.optional LockingClause.shape) locking :=
      optional fun found _ => lockingClause found
    rw [Spanless, Query.relabel_mk, Query.shape_mk, Query.shape_mk]
    simp only [Shape.mapSpans, Shape.mapSpansFields]
    rw [← withs, ← queryBody body first compounds, ← orders, ← limits, ← locks]
    rfl
  select block first := by
    simp only [Spanless, QueryTerm.shape, Shape.mapSpans, Shape.mapSpansItems]
    rw [← first]
    rfl
  nested rows first := by
    simp only [Spanless, QueryTerm.shape, Shape.mapSpans, Shape.mapSpansItems]
    rw [← first]
    rfl
  block modifiers columns sources filter groupBy withRollup having span items refs filtered entries
      kept := by
    have lists : Spanless (listOf SelectItem.shape) columns :=
      list fun item member => selectItem item fun value aliasName place same =>
        items value aliasName place (same ▸ member)
    have groups : Spanless (listOf OrderingTerm.shape) groupBy :=
      list fun entry member => orderingTerm entry (entries entry member)
    rw [Spanless, SelectCore.relabel_mk, SelectCore.shape_mk, SelectCore.shape_mk]
    simp only [Shape.mapSpans, Shape.mapSpansFields]
    rw [Spanless.modifiers, ← lists, ← list refs, ← optional filtered, ← groups, ← optional kept]
    rfl
  named table := by
    simp only [Spanless, TableRef.shape_named, Shape.mapSpans, Shape.mapSpansItems]
    rw [← namedTable table, ← TableRef.shape_named]
    rfl
  derived rows aliasName span first := by
    simp only [Spanless, TableRef.shape_derived, Shape.mapSpans, Shape.mapSpansFields]
    rw [← first, ← ident aliasName]
    exact TableRef.shape_derived _ _ _
  joined left join right condition span first second tested := by
    have tests : Spanless (Shape.optional JoinCondition.shape) condition :=
      optional fun test member => joinCondition test fun value same =>
        tested value (same ▸ Option.mem_def.mp member).symm
    rw [Spanless, TableRef.relabel_joined, TableRef.shape_joined, TableRef.shape_joined]
    simp only [Shape.mapSpans, Shape.mapSpansFields]
    rw [← first, ← second, ← tests]
    cases join <;> rfl
  parenthesized inner span each := by
    rw [Spanless, TableRef.relabel_parenthesized, TableRef.shape_parenthesized,
      TableRef.shape_parenthesized]
    simp only [Shape.mapSpans, Shape.mapSpansFields]
    rw [← list each]
    rfl

namespace Spanless

theorem expr (tree : Expr) : Spanless Expr.shape tree :=
  TreeInduction.exprHolds spanlessTrees tree

theorem query (tree : Query) : Spanless Query.shape tree :=
  TreeInduction.queryHolds spanlessTrees tree

/-! ### Statements -/

theorem tableRefs (refs : List TableRef) : Spanless TableRef.listShape refs := by
  have each : Spanless (listOf TableRef.shape) refs :=
    list fun ref _ => TreeInduction.refHolds spanlessTrees ref
  simpa only [Spanless, TableRef.listShape, TableRef.refShapes_eq, listOf] using each

theorem orderingTerms (terms : List OrderingTerm) : Spanless OrderingTerm.listShape terms := by
  have each : Spanless (listOf OrderingTerm.shape) terms :=
    list fun entry _ => orderingTerm entry (expr entry.expr)
  simpa only [Spanless, OrderingTerm.listShape, OrderingTerm.termShapes_eq, listOf] using each

theorem optionalExpr (found : Option Expr) : Spanless (Shape.optional Expr.shape) found :=
  optional fun tree _ => expr tree

theorem optionalLimit (found : Option LimitClause) :
    Spanless (Shape.optional LimitClause.shape) found :=
  optional fun limit _ => limitClause limit (expr limit.count) fun offset _ => expr offset

theorem assignments (list : List Assignment) : Spanless (listOf Assignment.shape) list := by
  apply Spanless.list
  rintro ⟨column, value, span⟩ _
  simp only [Spanless, Assignment.shape, Shape.mapSpans, Shape.mapSpansFields]
  rw [← columnRef column, ← expr value]
  rfl

theorem rows (rows : List (List Expr)) :
    Spanless (listOf fun row => .list (Expr.itemShapes row)) rows := by
  apply list
  intro row _
  have each : Spanless (listOf Expr.shape) row := list fun item _ => expr item
  simpa only [Spanless, Expr.itemShapes_eq, listOf] using each

theorem insertSource (source : InsertSource) : Spanless InsertSource.shape source := by
  cases source with
  | values list =>
      simp only [Spanless, InsertSource.shape, Shape.mapSpans, Shape.mapSpansItems]
      rw [← rows list]
      rfl
  | select tree =>
      simp only [Spanless, InsertSource.shape, Shape.mapSpans, Shape.mapSpansItems]
      rw [← query tree]
      rfl
  | set list =>
      simp only [Spanless, InsertSource.shape, Shape.mapSpans, Shape.mapSpansItems]
      rw [← assignments list]
      rfl

theorem insert (tree : Insert) : Spanless Insert.shape tree := by
  obtain ⟨kind, priority, ignore, table, partitions, columns, source, onDuplicate, span⟩ := tree
  simp only [Spanless, Insert.shape, Shape.mapSpans, Shape.mapSpansFields]
  rw [← tableName table, ← idents partitions, ← idents columns, ← insertSource source,
    ← assignments onDuplicate]
  cases kind <;> rcases priority with _ | _ | _ | _ <;> rfl

theorem update (tree : Update) : Spanless Update.shape tree := by
  obtain ⟨lowPriority, ignore, tables, assigned, filter, orderBy, limit, span⟩ := tree
  simp only [Spanless, Update.shape, Shape.mapSpans, Shape.mapSpansFields]
  rw [← tableRefs tables, ← assignments assigned, ← optionalExpr filter, ← orderingTerms orderBy,
    ← optionalLimit limit]
  rfl

theorem deleteSource (source : DeleteSource) : Spanless DeleteSource.shape source := by
  cases source with
  | single table =>
      simp only [Spanless, DeleteSource.shape, Shape.mapSpans, Shape.mapSpansItems]
      rw [← namedTable table]
      rfl
  | multi tables afterUsing =>
      simp only [Spanless, DeleteSource.shape, Shape.mapSpans, Shape.mapSpansFields]
      rw [← tableRefs tables]
      rfl

theorem delete (tree : Delete) : Spanless Delete.shape tree := by
  obtain ⟨lowPriority, quick, ignore, targets, source, filter, orderBy, limit, span⟩ := tree
  simp only [Spanless, Delete.shape, Shape.mapSpans, Shape.mapSpansFields]
  rw [← list fun name _ => tableName name, ← deleteSource source, ← optionalExpr filter,
    ← orderingTerms orderBy, ← optionalLimit limit]
  rfl

theorem statement (tree : Statement) : Spanless Statement.shape tree := by
  cases tree with
  | select tree =>
      simp only [Spanless, Statement.shape, Shape.mapSpans, Shape.mapSpansItems]
      rw [← query tree]
      rfl
  | insert tree =>
      simp only [Spanless, Statement.shape, Shape.mapSpans, Shape.mapSpansItems]
      rw [← insert tree]
      rfl
  | update tree =>
      simp only [Spanless, Statement.shape, Shape.mapSpans, Shape.mapSpansItems]
      rw [← update tree]
      rfl
  | delete tree =>
      simp only [Spanless, Statement.shape, Shape.mapSpans, Shape.mapSpansItems]
      rw [← delete tree]
      rfl

end Spanless

/-! ### The text of a tree without its spans -/

/-- A piece of text without the span of its name. -/
def Piece.unplaced : Piece → Piece
  | .ident name => .ident { name with span := .zero }
  | piece => piece

/-- Pieces of text without the spans of the names among them. -/
def unplaced (pieces : List Piece) : List Piece := pieces.map Piece.unplaced

namespace Piece

theorem text_unplaced (piece : Piece) : piece.unplaced.text = piece.text := by
  cases piece <;> rfl

theorem textOf_unplaced (pieces : List Piece) :
    textOf (SqlDml.unplaced pieces) = textOf pieces := by
  rw [textOf, SqlDml.unplaced, List.map_map]
  exact congrArg String.join (List.map_congr_left fun piece _ => piece.text_unplaced)

end Piece

open Piece

/-- A function that is applied behind separators is applied to the separators too. -/
theorem map_intersperse {α β : Type} (change : α → β) (separator : α) (items : List α) :
    (List.intersperse separator items).map change =
      List.intersperse (change separator) (items.map change) := by
  induction items with
  | nil => rfl
  | cons item items inductionHypothesis =>
      cases items with
      | nil => rfl
      | cons next items => simpa using inductionHypothesis

section

variable (pieces front back : List Piece) (items : List (List Piece)) (wanted : Bool)

@[simp] theorem unplaced_nil : unplaced [] = [] := rfl

@[simp] theorem unplaced_cons (piece : Piece) :
    unplaced (piece :: pieces) = piece.unplaced :: unplaced pieces := rfl

@[simp] theorem unplaced_append : unplaced (front ++ back) = unplaced front ++ unplaced back :=
  List.map_append

@[simp] theorem unplaced_words (keywords : List Keyword) :
    unplaced (words keywords) = words keywords := by
  rw [unplaced, words, map_intersperse, List.map_map]
  rfl

@[simp] theorem unplaced_clause (keywords : List Keyword) :
    unplaced (clause keywords) = clause keywords := by
  simp [clause, Piece.unplaced]

@[simp] theorem unplaced_flag (keyword : Keyword) :
    unplaced (flag wanted keyword) = flag wanted keyword := by
  cases wanted <;> simp [flag]

@[simp] theorem unplaced_commaList :
    unplaced (commaList items) = commaList (items.map unplaced) := by
  rw [unplaced, commaList, List.map_flatten, map_intersperse]
  rfl

@[simp] theorem unplaced_parens : unplaced (parens pieces) = parens (unplaced pieces) := by
  simp [parens, Piece.unplaced]

@[simp] theorem unplaced_parensIf :
    unplaced (parensIf wanted pieces) = parensIf wanted (unplaced pieces) := by
  cases wanted <;> simp [parensIf]

end

/-- The pieces of a tree without its spans are its pieces without theirs. -/
def Unplaced {Tree : Type} [Labelled Tree] (pieces : Tree → List Piece) (tree : Tree) : Prop :=
  pieces (relabel .erasing tree) = unplaced (pieces tree)

namespace Unplaced

section

variable {Tree : Type} [Labelled Tree] {pieces : Tree → List Piece}

theorem map {trees : List Tree} (each : ∀ tree ∈ trees, Unplaced pieces tree) :
    (relabel .erasing trees).map pieces = (trees.map pieces).map unplaced := by
  rw [show relabel .erasing trees = trees.map (relabel .erasing) from rfl, List.map_map,
    List.map_map]
  exact List.map_congr_left each

theorem commaList {trees : List Tree} (each : ∀ tree ∈ trees, Unplaced pieces tree) :
    Unplaced (fun trees => Piece.commaList (trees.map pieces)) trees := by
  rw [Unplaced, map each, unplaced_commaList]

theorem flatMap {trees : List Tree} (each : ∀ tree ∈ trees, Unplaced pieces tree) :
    Unplaced (List.flatMap pieces) trees := by
  rw [Unplaced, List.flatMap_def, List.flatMap_def, map each, unplaced, List.map_flatten]
  rfl

theorem listPieces {trees : List Tree} (each : ∀ tree ∈ trees, Unplaced pieces tree)
    (keywords : List Keyword) :
    Unplaced (fun trees => Piece.listPieces keywords (trees.map pieces)) trees := by
  have items := map each
  simp only [Unplaced, Piece.listPieces, items, List.isEmpty_map]
  split <;> simp [Piece.unplaced]

end

/-! ### Values -/

theorem literal (value : Literal) : unplaced value.pieces = value.pieces := by
  induction value with
  | introduced charset value inductionHypothesis =>
      cases value with
      | string text => rfl
      | _ => exact congrArg (_ :: .blank :: ·) inductionHypothesis
  | _ => rfl

theorem binaryOp (op : BinaryOp) : op.piece.unplaced = op.piece := by
  cases op <;> rfl

theorem unaryOp (op : UnaryOp) : unplaced op.pieces = op.pieces := by
  cases op <;> rfl

theorem modifiers (modifiers : SelectModifiers) :
    unplaced modifiers.pieces = modifiers.pieces := by
  obtain ⟨quantifier, _, _, _, _, _, cache, _⟩ := modifiers
  rcases quantifier with _ | _ | _ | _ <;> rcases cache with _ | _ | _ <;>
    simp [SelectModifiers.pieces]

theorem direction (direction : Option SortDirection) :
    unplaced (SortDirection.pieces direction) = SortDirection.pieces direction := by
  rcases direction with _ | _ | _ <;> rfl

theorem typeName (target : TypeName) : unplaced target.pieces = target.pieces := by
  obtain ⟨name, length, scale⟩ := target
  cases length <;> cases scale <;> rfl

/-! ### Names -/

theorem qualifier (name : Option Ident) : Unplaced Ident.qualifierPieces name := by
  cases name <;> rfl

theorem optionalAlias (name : Option Ident) : Unplaced Piece.optionalAlias name := by
  cases name <;> rfl

theorem identsInParens (names : List Ident) : Unplaced Piece.identsInParens names := by
  have each : ∀ name ∈ names, Unplaced (fun name => [.ident name]) name := fun _ _ => rfl
  rw [Unplaced, Piece.identsInParens, Piece.identsInParens, unplaced_parens, ← commaList each]

theorem optionalIdents (lead : List Piece) (same : unplaced lead = lead) (names : List Ident) :
    Unplaced (Piece.optionalIdents lead) names := by
  cases names with
  | nil => rfl
  | cons name names =>
      show lead ++ Piece.identsInParens (relabel .erasing (name :: names)) =
        unplaced (lead ++ Piece.identsInParens (name :: names))
      rw [identsInParens, unplaced_append, same]

theorem tableName (name : TableName) : Unplaced TableName.pieces name := by
  obtain ⟨schema, table, span⟩ := name
  simp only [Unplaced, TableName.pieces, unplaced_append]
  rw [← qualifier]
  rfl

theorem columnRef (name : ColumnRef) : Unplaced ColumnRef.pieces name := by
  obtain ⟨schema, table, column, span⟩ := name
  simp only [Unplaced, ColumnRef.pieces, unplaced_append]
  rw [← qualifier schema, ← qualifier table]
  rfl

theorem indexHint (hint : IndexHint) : Unplaced IndexHint.pieces hint := by
  obtain ⟨action, scope, indexes, span⟩ := hint
  simp only [Unplaced, IndexHint.pieces, unplaced_append, unplaced_cons, unplaced_words]
  rw [← identsInParens]
  rcases scope with _ | _ | _ | _ <;> rfl

theorem namedTable (table : NamedTable) : Unplaced NamedTable.pieces table := by
  obtain ⟨name, partitions, aliasName, hints, span⟩ := table
  have each : ∀ hint ∈ hints, Unplaced (fun hint => .blank :: hint.pieces) hint := by
    intro hint _
    rw [Unplaced, indexHint]
    rfl
  simp only [Unplaced, NamedTable.pieces, unplaced_append, partitionPieces]
  rw [← tableName, ← optionalIdents _ rfl, ← optionalAlias, ← flatMap each]
  rfl

theorem lockingClause (clause : LockingClause) : Unplaced LockingClause.pieces clause := by
  obtain ⟨mode, tables, wait, span⟩ := clause
  have names := listPieces (fun name (_ : name ∈ tables) => tableName name) [.OF]
  simp only [Unplaced, Piece.listPieces, List.isEmpty_map] at names
  simp only [Unplaced, LockingClause.pieces, unplaced_append, unplaced_words]
  rw [← names]
  rcases wait with _ | _ | _ <;> rfl

/-! ### Expressions and queries -/

theorem operand {tree : Expr} (whole : Unplaced Expr.pieces tree) :
    Unplaced (fun tree => parensIf tree.isCompound tree.pieces) tree := by
  have same : (relabel .erasing tree).isCompound = tree.isCompound := by
    cases tree with
    | like operand pattern escape => cases escape <;> rfl
    | case subject branches otherwise => cases subject <;> cases otherwise <;> rfl
    | _ => rfl
  rw [Unplaced, same, whole, unplaced_parensIf]

theorem optionalExpr {found : Option Expr} (each : ∀ tree ∈ found, Unplaced Expr.pieces tree)
    (keywords : List Piece) (same : unplaced keywords = keywords) :
    Unplaced (Expr.optionalPieces keywords) found := by
  cases found with
  | none => rfl
  | some tree =>
      show keywords ++ .blank :: (relabel .erasing tree).pieces =
        unplaced (keywords ++ .blank :: tree.pieces)
      rw [each tree rfl, unplaced_append, same]
      rfl

theorem commonTable (table : CommonTable) (rows : Unplaced Query.pieces table.query) :
    Unplaced CommonTable.pieces table := by
  obtain ⟨name, columns, query, span⟩ := table
  simp only [Unplaced, CommonTable.pieces, unplaced_append, unplaced_cons, unplaced_clause,
    unplaced_parens]
  rw [← optionalIdents _ rfl columns, ← rows]
  rfl

theorem withClause (clause : WithClause)
    (rows : ∀ table ∈ clause.tables, Unplaced Query.pieces table.query) :
    Unplaced WithClause.pieces clause := by
  obtain ⟨recursive, tables, span⟩ := clause
  have each := commaList fun table member => commonTable table (rows table member)
  rw [Unplaced, WithClause.relabel_mk]
  simp only [WithClause.pieces, CommonTable.tablePieces_eq, unplaced_append, unplaced_cons,
    unplaced_flag]
  rw [← each]
  rfl

theorem queryBody (body : QueryBody) (term : Unplaced QueryTerm.pieces body.first)
    (others : ∀ compound ∈ body.compounds, Unplaced QueryTerm.pieces compound.2) :
    Unplaced QueryBody.pieces body := by
  obtain ⟨first, compounds, span⟩ := body
  have each : ∀ compound ∈ compounds, Unplaced QueryTerm.unitedPieces compound := by
    rintro ⟨op, tree⟩ member
    have tree := others _ member
    simp only [Unplaced, QueryTerm.unitedPieces, unplaced_append, unplaced_cons, unplaced_clause]
    rw [← tree]
    rfl
  rw [Unplaced, QueryBody.relabel_mk]
  simp only [QueryBody.pieces, QueryTerm.compoundPieces_eq, unplaced_append]
  rw [term, ← flatMap each]

theorem limitClause (limit : LimitClause) (first : Unplaced Expr.pieces limit.count)
    (second : ∀ expr ∈ limit.offset, Unplaced Expr.pieces expr) :
    Unplaced LimitClause.pieces limit := by
  obtain ⟨count, offset, span⟩ := limit
  rw [Unplaced, LimitClause.relabel_mk, LimitClause.pieces_mk, LimitClause.pieces_mk]
  simp only [unplaced_append, unplaced_cons]
  rw [← first, ← optionalExpr second _ rfl]
  rfl

theorem orderingTerm (entry : OrderingTerm) (first : Unplaced Expr.pieces entry.expr) :
    Unplaced OrderingTerm.pieces entry := by
  obtain ⟨value, direction, span⟩ := entry
  simp only [Unplaced, OrderingTerm.pieces, unplaced_append]
  rw [← first, Unplaced.direction]
  rfl

theorem selectItem (item : SelectItem)
    (each : ∀ value aliasName place, item = .expr value aliasName place →
      Unplaced Expr.pieces value) : Unplaced SelectItem.pieces item := by
  cases item with
  | wildcard span => rfl
  | qualifiedWildcard schema table span =>
      simp only [Unplaced, SelectItem.pieces, unplaced_append]
      rw [← qualifier]
      rfl
  | expr value aliasName span =>
      simp only [Unplaced, SelectItem.pieces, unplaced_append]
      rw [← each value aliasName span rfl, ← optionalAlias]
      rfl

theorem joinCondition (test : JoinCondition)
    (each : ∀ value, test = .on value → Unplaced Expr.pieces value) :
    Unplaced JoinCondition.pieces test := by
  rcases test with value | columns
  · simp only [Unplaced, JoinCondition.pieces, unplaced_append, unplaced_cons, unplaced_clause]
    rw [← each value rfl]
    rfl
  · simp only [Unplaced, JoinCondition.pieces, unplaced_append, unplaced_cons, unplaced_clause]
    rw [← identsInParens columns]
    rfl

theorem optionalWith {found : Option WithClause}
    (rows : ∀ clause ∈ found, ∀ table ∈ clause.tables, Unplaced Query.pieces table.query) :
    Unplaced WithClause.optionalPieces found := by
  cases found with
  | none => rfl
  | some clause =>
      show (relabel .erasing clause).pieces ++ [.blank] = unplaced (clause.pieces ++ [.blank])
      rw [withClause clause (rows clause rfl), unplaced_append]
      rfl

theorem optionalLimit {found : Option LimitClause}
    (numbers : ∀ limit ∈ found, Unplaced Expr.pieces limit.count ∧
      ∀ expr ∈ limit.offset, Unplaced Expr.pieces expr) :
    Unplaced LimitClause.optionalPieces found := by
  cases found with
  | none => rfl
  | some limit =>
      obtain ⟨first, second⟩ := numbers limit rfl
      exact congrArg (.blank :: ·) (limitClause limit first second)

theorem optionalLocking (found : Option LockingClause) :
    Unplaced LockingClause.optionalPieces found := by
  cases found with
  | none => rfl
  | some clause => exact congrArg (.blank :: ·) (lockingClause clause)

theorem optionalCondition {found : Option JoinCondition}
    (each : ∀ value, some (.on value) = found → Unplaced Expr.pieces value) :
    Unplaced JoinCondition.optionalPieces found := by
  cases found with
  | none => rfl
  | some test => exact joinCondition test fun value same => each value (congrArg some same.symm)

end Unplaced

open Unplaced in
theorem unplacedTrees : TreeInduction (Unplaced Expr.pieces) (Unplaced Query.pieces)
    (Unplaced QueryTerm.pieces) (Unplaced SelectCore.pieces) (Unplaced TableRef.pieces) where
  literal value span := (literal value).symm
  column name := columnRef name
  placeholder index span := rfl
  default span := rfl
  binary left op right span first second := by
    simp only [Unplaced, Expr.pieces, unplaced_append, unplaced_cons, binaryOp]
    rw [← operand first, ← operand second]
    rfl
  unary op value span first := by
    simp only [Unplaced, Expr.pieces, unplaced_append, unaryOp]
    rw [← operand first]
    rfl
  is value negated truth span first := by
    simp only [Unplaced, Expr.pieces, unplaced_append, unplaced_clause, unplaced_flag]
    rw [← operand first]
    rfl
  quantified left op quantifier rows span first second := by
    simp only [Unplaced, Expr.pieces, unplaced_append, unplaced_cons, unplaced_clause,
      unplaced_parens, binaryOp]
    rw [← operand first, ← second]
    rfl
  between value low high negated span first second third := by
    simp only [Unplaced, Expr.pieces, unplaced_append, unplaced_cons, unplaced_clause,
      unplaced_flag]
    rw [← operand first, ← operand second, ← operand third]
    rfl
  inList value items negated span first each := by
    have set : Unplaced InSet.pieces (.list items) := by
      rw [Unplaced, InSet.relabel_list, InSet.pieces, InSet.pieces, Expr.itemPieces_eq,
        Expr.itemPieces_eq, ← commaList each]
    simp only [Unplaced, Expr.pieces, unplaced_append, unplaced_cons, unplaced_clause,
      unplaced_flag, unplaced_parens]
    rw [← operand first, ← set]
    rfl
  inQuery value rows negated span first second := by
    simp only [Unplaced, Expr.pieces, InSet.pieces, unplaced_append, unplaced_cons,
      unplaced_clause, unplaced_flag, unplaced_parens]
    rw [← operand first, ← second]
    rfl
  like value pattern escape op negated span first second each := by
    cases escape with
    | none =>
        simp only [Unplaced, Expr.pieces, unplaced_append, unplaced_cons, unplaced_clause,
          unplaced_flag]
        rw [← operand first, ← operand second]
        rfl
    | some char =>
        simp only [Unplaced, Expr.pieces, unplaced_append, unplaced_cons, unplaced_clause,
          unplaced_flag]
        rw [← operand first, ← operand second, ← operand (each char rfl)]
        rfl
  soundsLike value pattern span first second := by
    simp only [Unplaced, Expr.pieces, unplaced_append, unplaced_cons, unplaced_clause]
    rw [← operand first, ← operand second]
    rfl
  case subject whens otherwise span first branches last := by
    have each : ∀ branch ∈ whens, Unplaced Expr.branchPieces branch := by
      intro branch member
      obtain ⟨first, second⟩ := branches branch member
      simp only [Unplaced, Expr.branchPieces, unplaced_append, unplaced_cons, unplaced_clause]
      rw [← first, ← second]
      rfl
    rw [Unplaced, Expr.relabel_case, Expr.pieces_case, Expr.pieces_case]
    simp only [unplaced_append, unplaced_cons, unplaced_clause, Expr.whenPieces_eq]
    rw [← optionalExpr first _ rfl, ← flatMap each, ← optionalExpr last _ rfl]
    rfl
  cast value target span first := by
    simp only [Unplaced, Expr.pieces, unplaced_append, unplaced_cons, unplaced_clause,
      unplaced_parens, typeName]
    rw [← first]
    rfl
  callStar name distinct span := by
    cases distinct <;> rfl
  call name items distinct span each := by
    rw [Unplaced, Expr.relabel_call]
    simp only [Expr.pieces, CallArgs.pieces, Expr.itemPieces_eq, unplaced_cons, unplaced_append,
      unplaced_parens]
    rw [← commaList each]
    cases distinct <;> rfl
  subquery rows span first := by
    simp only [Unplaced, Expr.pieces, unplaced_parens]
    rw [← first]
    rfl
  existsRows rows span first := by
    simp only [Unplaced, Expr.pieces, unplaced_cons, unplaced_parens]
    rw [← first]
    rfl
  row items span each := by
    rw [Unplaced, Expr.relabel_row]
    simp only [Expr.pieces, Expr.itemPieces_eq, unplaced_append, unplaced_parens]
    rw [← commaList each, show (relabel .erasing items).length = _ from List.length_map _]
    split <;> rfl
  collate value collation span first := by
    simp only [Unplaced, Expr.pieces, unplaced_append, unplaced_clause]
    rw [← operand first]
    rfl
  wholeQuery tables body orderBy limit locking span found first compounds entries numbers := by
    have orders := listPieces (fun entry member => orderingTerm entry (entries entry member))
      [.ORDER, .BY]
    rw [Unplaced, Query.relabel_mk, Query.pieces_mk, Query.pieces_mk]
    simp only [unplaced_append, OrderingTerm.termPieces_eq]
    rw [← queryBody body first compounds, ← orders, ← optionalWith found, ← optionalLimit numbers,
      ← optionalLocking locking]
  select block first := first
  nested rows first := by
    simp only [Unplaced, QueryTerm.pieces, unplaced_parens]
    rw [← first]
    rfl
  block modifiers columns sources filter groupBy withRollup having span items refs filtered entries
      kept := by
    have lists := commaList fun item member => selectItem item fun value aliasName place same =>
      items value aliasName place (same ▸ member)
    have tables := listPieces refs [.FROM]
    have groups := commaList fun entry member => orderingTerm entry (entries entry member)
    rw [Unplaced, SelectCore.relabel_mk, SelectCore.pieces_mk, SelectCore.pieces_mk]
    simp only [unplaced_append, unplaced_cons, SelectItem.itemPieces_eq, TableRef.refPieces_eq,
      OrderingTerm.termPieces_eq, Unplaced.modifiers]
    rw [← lists, ← tables, ← optionalExpr filtered _ rfl, ← optionalExpr kept _ rfl,
      show (relabel .erasing groupBy).isEmpty = _ from List.isEmpty_map]
    by_cases none : groupBy.isEmpty
    · simp only [if_pos none]
      rfl
    · simp only [if_neg none, unplaced_append, unplaced_cons, unplaced_clause]
      rw [← groups]
      cases withRollup <;> rfl
  named table := namedTable table
  derived rows aliasName span first := by
    simp only [Unplaced, TableRef.pieces, unplaced_append, unplaced_clause, unplaced_parens]
    rw [← first]
    rfl
  joined left join right condition span first second tested := by
    rw [Unplaced, TableRef.relabel_joined, TableRef.pieces_joined, TableRef.pieces_joined]
    simp only [unplaced_append, unplaced_cons, unplaced_clause]
    rw [← first, ← second, ← optionalCondition tested]
    rfl
  parenthesized inner span each := by
    rw [Unplaced, TableRef.relabel_parenthesized]
    simp only [TableRef.pieces, TableRef.refPieces_eq, unplaced_parens]
    rw [← commaList each]

namespace Unplaced

theorem expr (tree : Expr) : Unplaced Expr.pieces tree :=
  TreeInduction.exprHolds unplacedTrees tree

theorem query (tree : Query) : Unplaced Query.pieces tree :=
  TreeInduction.queryHolds unplacedTrees tree

/-! ### Statements -/

theorem tableRefs (refs : List TableRef) : Unplaced TableRef.listPieces refs := by
  have each := commaList fun ref (_ : ref ∈ refs) => TreeInduction.refHolds unplacedTrees ref
  simpa only [Unplaced, TableRef.listPieces, TableRef.refPieces_eq] using each

theorem assignments (list : List Assignment) : Unplaced Assignment.listPieces list := by
  apply commaList
  rintro ⟨column, value, span⟩ _
  simp only [Unplaced, Assignment.pieces, unplaced_append, unplaced_cons]
  rw [← columnRef column, ← expr value]
  rfl

theorem tail (filter : Option Expr) (orderBy : List OrderingTerm) (limit : Option LimitClause) :
    tailPieces (relabel .erasing filter) (relabel .erasing orderBy) (relabel .erasing limit) =
      unplaced (tailPieces filter orderBy limit) := by
  have orders := listPieces
    (fun entry (_ : entry ∈ orderBy) => orderingTerm entry (expr entry.expr)) [.ORDER, .BY]
  rw [tailPieces_eq, tailPieces_eq]
  simp only [unplaced_append, OrderingTerm.termPieces_eq]
  rw [← optionalExpr (fun tree _ => expr tree) _ rfl, ← orders,
    ← optionalLimit fun limit _ => ⟨expr limit.count, fun offset _ => expr offset⟩]

theorem insertSource (source : InsertSource) : Unplaced InsertSource.pieces source := by
  cases source with
  | values rows =>
      have each : ∀ row ∈ rows,
          Unplaced (fun row => parens (Piece.commaList (Expr.itemPieces row))) row := by
        intro row _
        simp only [Unplaced, Expr.itemPieces_eq, unplaced_parens]
        rw [← commaList fun item _ => expr item]
      simp only [Unplaced, InsertSource.pieces, unplaced_append, unplaced_cons, unplaced_clause]
      rw [← commaList each]
      rfl
  | select tree => exact congrArg (.blank :: ·) (query tree)
  | set list =>
      simp only [Unplaced, InsertSource.pieces, unplaced_append, unplaced_cons, unplaced_clause]
      rw [← assignments list]
      rfl

theorem insert (tree : Insert) : Unplaced Insert.pieces tree := by
  obtain ⟨kind, priority, ignore, table, partitions, columns, source, onDuplicate, span⟩ := tree
  simp only [Unplaced, Insert.pieces, unplaced_append, unplaced_cons, unplaced_clause,
    unplaced_flag, partitionPieces]
  rw [← tableName table, ← optionalIdents _ rfl partitions, ← optionalIdents _ rfl columns,
    ← insertSource source]
  cases onDuplicate with
  | nil => cases priority <;> rfl
  | cons entry list =>
      rw [show (List.isEmpty (entry :: list)) = false from rfl, if_neg Bool.false_ne_true,
        unplaced_append, unplaced_cons, ← assignments]
      cases priority <;> rfl

theorem update (tree : Update) : Unplaced Update.pieces tree := by
  obtain ⟨lowPriority, ignore, tables, assigned, filter, orderBy, limit, span⟩ := tree
  simp only [Unplaced, Update.pieces, unplaced_append, unplaced_cons, unplaced_clause,
    unplaced_flag]
  rw [← tableRefs tables, ← assignments assigned, ← tail]
  rfl

theorem deleteSource (targets : List TableName) (source : DeleteSource) :
    (relabel .erasing source).pieces (relabel .erasing targets) =
      unplaced (source.pieces targets) := by
  have names : Unplaced targetPieces targets := commaList fun name _ => tableName name
  cases source with
  | single table =>
      simp only [DeleteSource.pieces, unplaced_append, unplaced_cons, unplaced_clause]
      rw [← namedTable table]
      rfl
  | multi tables afterUsing =>
      cases afterUsing <;>
        simp only [DeleteSource.pieces, unplaced_append, unplaced_cons, unplaced_clause] <;>
        rw [← names, ← tableRefs tables] <;> rfl

theorem delete (tree : Delete) : Unplaced Delete.pieces tree := by
  obtain ⟨lowPriority, quick, ignore, targets, source, filter, orderBy, limit, span⟩ := tree
  simp only [Unplaced, Delete.pieces, unplaced_append, unplaced_cons, unplaced_flag]
  rw [← deleteSource targets source, ← tail]
  rfl

theorem statement (tree : Statement) : Unplaced Statement.pieces tree := by
  cases tree with
  | select tree => exact query tree
  | insert tree => exact insert tree
  | update tree => exact update tree
  | delete tree => exact delete tree

theorem render {Tree : Type} [Labelled Tree] {pieces : Tree → List Piece} {tree : Tree}
    (same : Unplaced pieces tree) :
    textOf (pieces (relabel .erasing tree)) = textOf (pieces tree) := by
  rw [same, textOf_unplaced]

end Unplaced

/-! ### Setting the spans to zero -/

/-- What it means for `erase` to set the spans of trees to zero, all of them and nothing else.
The shape of a tree lists its fields, those of the trees in it included. -/
structure ErasesSpans {Tree : Type} (shape : Tree → Shape) (render : Tree → String)
    (erase : Tree → Tree) : Prop where
  /-- Nothing of a tree is missing from its shape. -/
  complete : Function.Injective shape
  /-- Each span is zero, and everything else is as it was. -/
  erased : ∀ tree, shape (erase tree) = (shape tree).mapSpans fun _ => .zero
  sameButSpans_iff : ∀ left right,
    (shape left).SameButSpans (shape right) ↔ erase left = erase right
  idempotent : ∀ tree, erase (erase tree) = erase tree
  sameText : ∀ tree, render (erase tree) = render tree

/-- A relabelling that sets the spans in the shape of every tree erases spans. -/
theorem ErasesSpans.ofSpanless {Tree : Type} [Labelled Tree] [LawfulLabels Tree]
    {shape : Tree → Shape} {pieces : Tree → List Piece} (complete : Function.Injective shape)
    (spanless : ∀ tree, Spanless shape tree) (unplaced : ∀ tree, Unplaced pieces tree) :
    ErasesSpans shape (fun tree => textOf (pieces tree)) (relabel .erasing) where
  complete := complete
  erased := spanless
  sameButSpans_iff left right := by
    rw [Shape.sameButSpans_iff, ← spanless left, ← spanless right]
    exact complete.eq_iff
  idempotent tree := (functorial tree).twice _ _
  sameText tree := (unplaced tree).render

/-- Setting the spans of a statement, a query or an expression to zero reaches every span in it and
nothing else. -/
theorem eraseSpans_erases_spans_only :
    ErasesSpans Statement.shape Statement.render Statement.eraseSpans ∧
      ErasesSpans Query.shape Query.render Query.eraseSpans ∧
      ErasesSpans Expr.shape Expr.render Expr.eraseSpans := by
  have queries : Query.eraseSpans = relabel .erasing := funext Erased.query
  rw [funext Statement.eraseSpans_eq, queries, funext Expr.eraseSpans_eq]
  exact ⟨.ofSpanless Statement.shape_injective Spanless.statement Unplaced.statement,
    .ofSpanless Query.shape_injective Spanless.query Unplaced.query,
    .ofSpanless Expr.shape_injective Spanless.expr Unplaced.expr⟩

end SqlDml
