import Mathlib.Logic.Relation
import SqlDml.Token.Basic
import SqlDml.Traversal.Visit

/-!
Contract: the trees that have a place in the source, and the tokens that they stand for.

Owns:
- every tree that carries a span, with the trees directly below it that carry one;
- the table names and column references in a tree, in the order of the walk;
- the span over a run of tokens, and when one span contains another;
- the nesting of parentheses in a run of tokens;
- the relation of trees to the tokens that they lie over.

Does not own: how the trees are read.
-/

namespace SqlDml

/-! ### Trees with spans -/

/-- A tree that carries a span. -/
inductive Part where
  | ident (name : Ident)
  | tableName (name : TableName)
  | column (ref : ColumnRef)
  | hint (hint : IndexHint)
  | table (table : NamedTable)
  | expr (tree : Expr)
  | query (tree : Query)
  | withClause (clause : WithClause)
  | commonTable (table : CommonTable)
  | body (body : QueryBody)
  | core (core : SelectCore)
  | item (item : SelectItem)
  | term (term : OrderingTerm)
  | limit (clause : LimitClause)
  | locking (clause : LockingClause)
  | tableRef (tree : TableRef)
  | assignment (entry : Assignment)
  | statement (tree : Statement)

/-- The span of an entry of a select list. -/
def SelectItem.span : SelectItem → Span
  | .wildcard span | .qualifiedWildcard _ _ span | .expr _ _ span => span

/-- The span that a tree carries. -/
def Part.span : Part → Span
  | .ident tree => tree.span
  | .tableName tree => tree.span
  | .column tree => tree.span
  | .hint tree => tree.span
  | .table tree => tree.span
  | .expr tree => tree.span
  | .query tree => tree.span
  | .withClause tree => tree.span
  | .commonTable tree => tree.span
  | .body tree => tree.span
  | .core tree => tree.span
  | .item tree => tree.span
  | .term tree => tree.span
  | .limit tree => tree.span
  | .locking tree => tree.span
  | .tableRef tree => tree.span
  | .assignment tree => tree.span
  | .statement tree => tree.span

/-! ### Children -/

def InSet.parts : InSet → List Part
  | .list items => items.map .expr
  | .subquery query => [.query query]

def CallArgs.parts : CallArgs → List Part
  | .star => []
  | .list items => items.map .expr

/-- The two expressions of a branch of a case. -/
def Expr.branchParts (branch : Expr × Expr) : List Part := [.expr branch.1, .expr branch.2]

def Expr.parts : Expr → List Part
  | .literal _ _ | .placeholder _ _ | .default _ => []
  | .column ref => [.column ref]
  | .binary left _ right _ => [.expr left, .expr right]
  | .unary _ operand _ | .is operand _ _ _ | .cast operand _ _ => [.expr operand]
  | .collate operand collation _ => [.expr operand, .ident collation]
  | .quantified left _ _ query _ => [.expr left, .query query]
  | .between operand low high _ _ => [.expr operand, .expr low, .expr high]
  | .isIn operand set _ _ => .expr operand :: set.parts
  | .like operand pattern escape _ _ _ =>
      [.expr operand, .expr pattern] ++ escape.toList.map .expr
  | .soundsLike operand pattern _ => [.expr operand, .expr pattern]
  | .case operand whens otherwise _ =>
      operand.toList.map .expr ++ whens.flatMap branchParts ++ otherwise.toList.map .expr
  | .call name args _ _ => .ident name :: args.parts
  | .subquery query _ | .exists query _ => [.query query]
  | .row items _ => items.map .expr

/-- A term of a query body is a select block or a query. -/
def QueryTerm.part : QueryTerm → Part
  | .select core => .core core
  | .nested query => .query query

def JoinCondition.parts : JoinCondition → List Part
  | .on condition => [.expr condition]
  | .using columns => columns.map .ident

def SelectItem.parts : SelectItem → List Part
  | .wildcard _ => []
  | .qualifiedWildcard schema table _ => schema.toList.map .ident ++ [.ident table]
  | .expr value aliasName _ => .expr value :: aliasName.toList.map .ident

def TableRef.parts : TableRef → List Part
  | .named table => [.table table]
  | .derived query aliasName _ => [.query query, .ident aliasName]
  | .joined left _ right condition _ =>
      [.tableRef left, .tableRef right] ++ condition.toList.flatMap JoinCondition.parts
  | .parenthesized inner _ => inner.map .tableRef

def InsertSource.parts : InsertSource → List Part
  | .values rows => rows.flatMap fun row => row.map .expr
  | .select query => [.query query]
  | .set assignments => assignments.map .assignment

def DeleteSource.parts : DeleteSource → List Part
  | .single table => [.table table]
  | .multi tables _ => tables.map .tableRef

def Insert.parts (tree : Insert) : List Part :=
  .tableName tree.table :: (tree.partitions.map .ident ++ tree.columns.map .ident ++
    tree.source.parts ++ tree.onDuplicate.map .assignment)

def Update.parts (tree : Update) : List Part :=
  tree.tables.map .tableRef ++ tree.assignments.map .assignment ++ tree.filter.toList.map .expr ++
    tree.orderBy.map .term ++ tree.limit.toList.map .limit

def Delete.parts (tree : Delete) : List Part :=
  tree.targets.map .tableName ++ tree.source.parts ++ tree.filter.toList.map .expr ++
    tree.orderBy.map .term ++ tree.limit.toList.map .limit

def Statement.parts : Statement → List Part
  | .select query => [.query query]
  | .insert tree => tree.parts
  | .update tree => tree.parts
  | .delete tree => tree.parts

namespace Part

/-- The trees directly below a tree. -/
def children : Part → List Part
  | .ident _ => []
  | .tableName tree => tree.schema.toList.map .ident ++ [.ident tree.table]
  | .column tree =>
      tree.schema.toList.map .ident ++ tree.table.toList.map .ident ++ [.ident tree.column]
  | .hint tree => tree.indexes.map .ident
  | .table tree =>
      .tableName tree.name :: (tree.partitions.map .ident ++ tree.aliasName.toList.map .ident ++
        tree.indexHints.map .hint)
  | .expr tree => tree.parts
  | .query tree =>
      tree.withClause.toList.map .withClause ++ .body tree.body :: (tree.orderBy.map .term ++
        tree.limit.toList.map .limit ++ tree.locking.toList.map .locking)
  | .withClause tree => tree.tables.map .commonTable
  | .commonTable tree => .ident tree.name :: (tree.columns.map .ident ++ [.query tree.query])
  | .body tree => tree.first.part :: tree.compounds.map fun compound => compound.2.part
  | .core tree =>
      tree.columns.map .item ++ tree.sources.map .tableRef ++ tree.filter.toList.map .expr ++
        tree.groupBy.map .term ++ tree.having.toList.map .expr
  | .item tree => tree.parts
  | .term tree => [.expr tree.expr]
  | .limit tree => .expr tree.count :: tree.offset.toList.map .expr
  | .locking tree => tree.tables.map .tableName
  | .tableRef tree => tree.parts
  | .assignment tree => [.column tree.column, .expr tree.value]
  | .statement tree => tree.parts

/-- A tree is another one, or lies anywhere below it. -/
def Within (inner outer : Part) : Prop :=
  Relation.ReflTransGen (fun parent child => child ∈ parent.children) outer inner

end Part

/-! ### Names -/

/-- A table name or a column reference that the walk stops at. -/
def Visit.name? : Visit → Option Part
  | .tableName name => some (.tableName name)
  | .columnRef ref => some (.column ref)
  | _ => none

/-- The table names and column references among some stops. -/
def namesAmong (visits : List Visit) : List Part := visits.filterMap Visit.name?

namespace Part

/-- The stops of a tree. -/
def visits : Part → List Visit
  | .ident name => [.ident name]
  | .tableName tree => tree.visits
  | .column tree => tree.visits
  | .hint tree => tree.visits
  | .table tree => tree.visits
  | .expr tree => tree.visits
  | .query tree => tree.visits
  | .withClause tree => tree.visits
  | .commonTable tree => tree.visits
  | .body tree => tree.visits
  | .core tree => tree.visits
  | .item tree => tree.visits
  | .term tree => tree.visits
  | .limit tree => tree.visits
  | .locking tree => tree.tables.flatMap TableName.visits
  | .tableRef tree => tree.visits
  | .assignment tree => tree.visits
  | .statement tree => tree.visits

/-- The table names and column references in a tree, in the order of the walk. -/
def names (part : Part) : List Part := namesAmong part.visits

@[simp] theorem names_ident (name : Ident) : (ident name).names = [] := rfl

@[simp] theorem names_idents (idents : List Ident) : (idents.map ident).flatMap names = [] := by
  rw [List.flatMap_map]
  exact List.flatMap_eq_nil_iff.mpr fun _ _ => rfl

end Part

/-! ### Spans over tokens -/

namespace Span

/-- The span from the beginning of one span to the end of another. -/
def through (first last : Span) : Span := ⟨first.start, last.stop, first.line, first.column⟩

/-- A span holds another one. -/
def Contains (outer inner : Span) : Prop := outer.start ≤ inner.start ∧ inner.stop ≤ outer.stop

end Span

/-- A span runs from the first to the last token of a run. -/
def Covers (tokens : List Token) (span : Span) : Prop :=
  ∃ first last, tokens.head? = some first ∧ tokens.getLast? = some last ∧
    span = first.span.through last.span

/-- Tokens one behind the other. -/
structure InOrder (tokens : List Token) : Prop where
  apart : tokens.Pairwise fun left right => left.span.stop ≤ right.span.start
  upright : ∀ token ∈ tokens, token.span.start ≤ token.span.stop

namespace InOrder

variable {tokens front back : List Token}

theorem of_back (order : InOrder (front ++ back)) : InOrder back :=
  ⟨(List.pairwise_append.mp order.apart).2.1,
    fun token member => order.upright token (List.mem_append_right _ member)⟩

theorem of_front (order : InOrder (front ++ back)) : InOrder front :=
  ⟨(List.pairwise_append.mp order.apart).1,
    fun token member => order.upright token (List.mem_append_left _ member)⟩

/-- No token begins in front of the first one. -/
theorem start_le (order : InOrder tokens) {first token : Token} (opens : tokens.head? = some first)
    (member : token ∈ tokens) : first.span.start ≤ token.span.start := by
  obtain ⟨rest, rfl⟩ := List.head?_eq_some_iff.mp opens
  rcases List.mem_cons.mp member with rfl | behind
  · exact Nat.le_refl _
  · have upright := order.upright first List.mem_cons_self
    have apart := (List.pairwise_cons.mp order.apart).1 token behind
    omega

/-- No token ends behind the last one. -/
theorem stop_le (order : InOrder tokens) {last token : Token} (closes : tokens.getLast? = some last)
    (member : token ∈ tokens) : token.span.stop ≤ last.span.stop := by
  obtain ⟨rest, rfl⟩ := List.getLast?_eq_some_iff.mp closes
  rcases List.mem_append.mp member with before | same
  · have apart := (List.pairwise_append.mp order.apart).2.2 token before last List.mem_cons_self
    have upright := order.upright last (List.mem_append_right _ List.mem_cons_self)
    omega
  · exact Nat.le_of_eq (by rw [List.mem_singleton.mp same])

end InOrder

namespace Covers

variable {tokens front back : List Token} {span : Span}

theorem singleton (token : Token) : Covers [token] token.span := ⟨token, token, rfl, rfl, rfl⟩

theorem ne_nil (covers : Covers tokens span) : tokens ≠ [] := by
  rintro rfl
  obtain ⟨_, _, opens, _⟩ := covers
  cases opens

/-- A span begins in front of every token behind its first one. -/
theorem start_le (covers : Covers front span) (order : InOrder (front ++ back)) {token : Token}
    (member : token ∈ front ++ back) : span.start ≤ token.span.start := by
  obtain ⟨first, _, opens, _, rfl⟩ := covers
  exact order.start_le (by rw [List.head?_append, opens]; rfl) member

/-- A span over the front of some tokens grows to all of them. -/
theorem merge (covers : Covers front span) (order : InOrder (front ++ back)) {last : Token}
    (closes : (front ++ back).getLast? = some last) {other : Span}
    (behind : span.start ≤ other.start) (ends : other.stop = last.span.stop) :
    Covers (front ++ back) (span.merge other) := by
  obtain ⟨first, inside, opens, innermost, rfl⟩ := covers
  have member : inside ∈ front ++ back :=
    List.mem_append_left _ (List.mem_of_getLast? innermost)
  have within := order.stop_le closes member
  refine ⟨first, last, ?_, closes, ?_⟩
  · rw [List.head?_append, opens]
    rfl
  · rw [Span.merge, if_pos behind, ends]
    simp only [Span.through, Nat.max_eq_right within]

/-- The span over all tokens holds the one over some of them. -/
theorem contains {inside : List Token} {inner : Span} (order : InOrder tokens)
    (outer : Covers tokens span) (covers : Covers inside inner) (part : inside ⊆ tokens) :
    span.Contains inner := by
  obtain ⟨first, last, opens, closes, rfl⟩ := outer
  obtain ⟨start, stop, begins, ends, rfl⟩ := covers
  exact ⟨order.start_le opens (part (List.mem_of_head? begins)),
    order.stop_le closes (part (List.mem_of_getLast? ends))⟩

end Covers

/-! ### Parentheses -/

/-- How many parentheses are open behind one more token.  None can be closed that is not open, and a
semicolon stands behind every tree. -/
def TokenKind.depthBehind (depth : Nat) (kind : TokenKind) : Option Nat :=
  if kind = .punct .leftParen then
    some (depth + 1)
  else if kind = .punct .rightParen then
    if depth = 0 then none else some (depth - 1)
  else if kind = .punct .semicolon then
    none
  else
    some depth

/-- How many parentheses are open behind some tokens. -/
def depthAfter : Nat → List Token → Option Nat
  | depth, [] => some depth
  | depth, token :: tokens =>
      (token.kind.depthBehind depth).bind fun later => depthAfter later tokens

/-- Every parenthesis among the tokens has its counterpart among them, and no token is a
semicolon. -/
def Balanced (tokens : List Token) : Prop := depthAfter 0 tokens = some 0

instance (tokens : List Token) : Decidable (Balanced tokens) :=
  inferInstanceAs (Decidable (_ = _))

theorem depthAfter_append (depth : Nat) (front back : List Token) :
    depthAfter depth (front ++ back) =
      (depthAfter depth front).bind fun middle => depthAfter middle back := by
  induction front generalizing depth with
  | nil => rfl
  | cons token front inductionHypothesis =>
      simp only [List.cons_append, depthAfter, inductionHypothesis, Option.bind_assoc]

/-- Parentheses that are open in front of the tokens stay open. -/
theorem depthAfter_add {depth later : Nat} {tokens : List Token}
    (counted : depthAfter depth tokens = some later) (more : Nat) :
    depthAfter (depth + more) tokens = some (later + more) := by
  induction tokens generalizing depth with
  | nil =>
      cases counted
      rfl
  | cons token tokens inductionHypothesis =>
      obtain ⟨middle, step, rest⟩ := Option.bind_eq_some_iff.mp counted
      have shifted : token.kind.depthBehind (depth + more) = some (middle + more) := by
        unfold TokenKind.depthBehind at step ⊢
        grind
      rw [depthAfter, shifted]
      exact inductionHypothesis rest

theorem kind_ne_of_depthAfter {tokens : List Token} {depth later : Nat}
    (counted : depthAfter depth tokens = some later) {token : Token} (member : token ∈ tokens) :
    token.kind ≠ .punct .semicolon := by
  induction tokens generalizing depth with
  | nil => cases member
  | cons first tokens inductionHypothesis =>
      obtain ⟨middle, step, rest⟩ := Option.bind_eq_some_iff.mp counted
      rcases List.mem_cons.mp member with rfl | behind
      · intro ending
        rw [ending] at step
        cases step
      · exact inductionHypothesis rest behind

theorem depthAfter_opens {tokens : List Token}
    (opens : ∀ token ∈ tokens, token.kind = .punct .leftParen) (depth : Nat) :
    depthAfter depth tokens = some (depth + tokens.length) := by
  induction tokens generalizing depth with
  | nil => rfl
  | cons token tokens inductionHypothesis =>
      obtain ⟨first, others⟩ := List.forall_mem_cons.mp opens
      rw [depthAfter, first]
      refine (inductionHypothesis others (depth + 1)).trans (congrArg some ?_)
      rw [List.length_cons]
      omega

theorem depthAfter_closes {tokens : List Token}
    (closes : ∀ token ∈ tokens, token.kind = .punct .rightParen) {depth later : Nat}
    (counted : depthAfter depth tokens = some later) : depth = later + tokens.length := by
  induction tokens generalizing depth with
  | nil =>
      cases counted
      rfl
  | cons token tokens inductionHypothesis =>
      obtain ⟨first, others⟩ := List.forall_mem_cons.mp closes
      obtain ⟨middle, step, rest⟩ := Option.bind_eq_some_iff.mp counted
      have same := inductionHypothesis others rest
      rw [first, TokenKind.depthBehind, if_neg (by decide), if_pos rfl] at step
      split at step
      · cases step
      · cases step
        rw [List.length_cons]
        omega

/-! ### The last token -/

/-- The last token is no dash and no dot.  No tree ends with one; at the end of a text two dashes
would begin a comment, and behind a dot every word is a name. -/
def EndsClean (tokens : List Token) : Prop :=
  ∀ last, tokens.getLast? = some last → last.kind ≠ .punct .minus ∧ last.kind ≠ .punct .dot

namespace EndsClean

variable {tokens front back : List Token}

theorem nil : EndsClean [] := nofun

theorem singleton {token : Token} (notDash : token.kind ≠ .punct .minus)
    (notDot : token.kind ≠ .punct .dot) : EndsClean [token] := by
  intro last closes
  cases closes
  exact ⟨notDash, notDot⟩

theorem append (first : EndsClean front) (second : EndsClean back) : EndsClean (front ++ back) := by
  intro last closes
  rw [List.getLast?_append, Option.or_eq_some_iff] at closes
  rcases closes with behind | ⟨_, before⟩
  · exact second last behind
  · exact first last before

theorem of_append (clean : EndsClean (front ++ back)) : EndsClean back := by
  intro last closes
  exact clean last (by rw [List.getLast?_append, closes]; rfl)

/-- What stands in front of some tokens does not matter. -/
theorem behind (clean : EndsClean back) (some_ : back ≠ []) (front : List Token) :
    EndsClean (front ++ back) := by
  intro last closes
  obtain ⟨final, known⟩ := Option.ne_none_iff_exists'.mp (mt List.getLast?_eq_none_iff.mp some_)
  rw [List.getLast?_append, known] at closes
  exact clean last (known.trans closes)

theorem of_kind {kind : TokenKind} (all : ∀ token ∈ tokens, token.kind = kind)
    (notDash : kind ≠ .punct .minus) (notDot : kind ≠ .punct .dot) : EndsClean tokens := by
  intro last closes
  rw [all last (List.mem_of_getLast? closes)]
  exact ⟨notDash, notDot⟩

end EndsClean

/-! ### Trees over tokens -/

/-- Trees that lie over tokens: the span of each tree runs from the first to the last of some tokens
that stand one behind the other, the trees below it lie over these tokens, and of an expression also
something further is known. -/
inductive Over (known : Expr → List Token → Prop) : List Token → List Part → Prop where
  | nothing : Over known [] []
  | token (token : Token) : Over known [token] []
  | append {front back : List Token} {parts more : List Part} (first : Over known front parts)
      (second : Over known back more) : Over known (front ++ back) (parts ++ more)
  | part {tokens : List Token} {part : Part} (covers : Covers tokens part.span)
      (expr : ∀ tree, part = .expr tree → known tree tokens)
      (below : Over known tokens part.children) : Over known tokens [part]
  /-- The order of the trees tells nothing where the names in them stay in order. -/
  | perm {tokens : List Token} {parts others : List Part} (same : parts.Perm others)
      (sameNames : parts.flatMap Part.names = others.flatMap Part.names)
      (lies : Over known tokens parts) : Over known tokens others

namespace Over

variable {known : Expr → List Token → Prop} {tokens : List Token} {parts : List Part}

/-- Tokens that no tree stands for. -/
theorem passed (tokens : List Token) : Over known tokens [] := by
  induction tokens with
  | nil => exact .nothing
  | cons token tokens inductionHypothesis => exact (Over.token token).append inductionHypothesis

/-- The tokens of one of the trees. -/
theorem exists_tokens (lies : Over known tokens parts) {part : Part} (member : part ∈ parts) :
    ∃ front inside back, tokens = front ++ (inside ++ back) ∧ Covers inside part.span ∧
      (∀ tree, part = .expr tree → known tree inside) ∧ Over known inside part.children := by
  induction lies with
  | nothing => cases member
  | token token => cases member
  | @append first second _ _ _ _ inFirst inSecond =>
      rcases List.mem_append.mp member with left | right
      · obtain ⟨front, inside, back, rfl, facts⟩ := inFirst left
        exact ⟨front, inside, back ++ second, by simp only [List.append_assoc], facts⟩
      · obtain ⟨front, inside, back, rfl, facts⟩ := inSecond right
        exact ⟨first ++ front, inside, back, by simp only [List.append_assoc], facts⟩
  | @part tokens part covers expr below _ =>
      obtain rfl := List.mem_singleton.mp member
      exact ⟨[], tokens, [], by simp, covers, expr, below⟩
  | perm same _ _ inductionHypothesis => exact inductionHypothesis (same.mem_iff.mpr member)

theorem ne_nil (lies : Over known tokens parts) (some : parts ≠ []) : tokens ≠ [] := by
  obtain ⟨part, member⟩ := List.exists_mem_of_ne_nil _ some
  obtain ⟨front, inside, back, rfl, covers, _⟩ := lies.exists_tokens member
  simp [covers.ne_nil]

/-- The tokens of a tree anywhere below. -/
theorem exists_tokens_within (lies : Over known tokens parts) {root part : Part}
    (member : root ∈ parts) (within : part.Within root) :
    ∃ front inside back, tokens = front ++ (inside ++ back) ∧ Covers inside part.span ∧
      (∀ tree, part = .expr tree → known tree inside) ∧ Over known inside part.children := by
  induction within with
  | refl => exact lies.exists_tokens member
  | tail _ child inductionHypothesis =>
      obtain ⟨front, inside, back, rfl, _, _, below⟩ := inductionHypothesis
      obtain ⟨before, inner, behind, rfl, facts⟩ := below.exists_tokens child
      exact ⟨front ++ before, inner, behind ++ back, by simp only [List.append_assoc], facts⟩

/-- A tree holds the trees directly below it. -/
theorem contains (lies : Over known tokens parts) (order : InOrder tokens) {root part child : Part}
    (member : root ∈ parts) (within : part.Within root) (below : child ∈ part.children) :
    part.span.Contains child.span := by
  obtain ⟨front, inside, back, rfl, covers, _, parts⟩ := lies.exists_tokens_within member within
  obtain ⟨before, inner, behind, rfl, inCovers, _⟩ := parts.exists_tokens below
  refine Covers.contains order.of_back.of_front covers inCovers fun token inside => ?_
  exact List.mem_append_right _ (List.mem_append_left _ inside)

end Over

end SqlDml
