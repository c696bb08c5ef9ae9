import SqlDml.Naming.Rename
import SqlDml.Proofs.Extents.Aligned

/-!
Contract: the names that are collected from a statement are all names in it, once each and in the
order of the source.

Owns:
- the names in a tree from the names in the trees directly below it;
- places in a tree, and lists with one entry for each place of some kind;
- the names in trees over tokens stand one behind the other.

Does not own: which trees lie over which tokens.
-/

namespace SqlDml

open Visit (idents ofQualifier)

/-! ### The names among stops -/

attribute [simp] Visit.name?

section

variable {α : Type} (front back : List Visit)

@[simp] theorem namesAmong_nil : namesAmong [] = [] := rfl

@[simp] theorem namesAmong_cons (visit : Visit) :
    namesAmong (visit :: back) = visit.name?.toList ++ namesAmong back := by
  cases visit <;> rfl

@[simp] theorem namesAmong_append :
    namesAmong (front ++ back) = namesAmong front ++ namesAmong back :=
  List.filterMap_append

@[simp] theorem namesAmong_flatMap (visits : α → List Visit) (trees : List α) :
    namesAmong (trees.flatMap visits) = trees.flatMap fun tree => namesAmong (visits tree) :=
  List.filterMap_flatMap

@[simp] theorem namesAmong_idents (names : List Ident) : namesAmong (idents names) = [] := by
  apply List.filterMap_eq_nil_iff.mpr
  intro visit member
  obtain ⟨name, _, rfl⟩ := List.mem_map.mp member
  rfl

@[simp] theorem namesAmong_ofQualifier (schema : Option Ident) (table : Ident) :
    namesAmong (ofQualifier schema table) = [] := by
  simp [ofQualifier]

theorem flatMap_nothing (items : List α) : (items.flatMap fun _ => ([] : List Part)) = [] := by
  simp

end

/-! ### The names directly below a tree -/

namespace Part

def isTableName : Part → Bool
  | .tableName _ => true
  | _ => false

def isColumn : Part → Bool
  | .column _ => true
  | _ => false

/-- Whether a tree is a table name or a column reference. -/
def isName (part : Part) : Bool := part.isTableName || part.isColumn

end Part

attribute [simp] Part.isTableName Part.isColumn Part.isName

open SqlDml.Part

theorem QueryTerm.names_part (term : QueryTerm) : term.part.names = namesAmong term.visits := by
  cases term <;> simp [part, names, Part.visits]

theorem JoinCondition.names_parts (test : JoinCondition) :
    test.parts.flatMap names = namesAmong test.visits := by
  cases test <;> simp [parts, names, Part.visits]

theorem InsertSource.names_parts (source : InsertSource) :
    source.parts.flatMap names = namesAmong source.visits := by
  cases source <;>
    simp [parts, visits, names, Part.visits, List.flatMap_map, List.flatMap_assoc,
      Expr.itemVisits_eq]

theorem DeleteSource.names_parts (source : DeleteSource) :
    source.parts.flatMap names = namesAmong source.visits := by
  cases source <;>
    simp [parts, visits, names, Part.visits, List.flatMap_map, TableRef.refVisits_eq]

theorem Expr.names_parts (tree : Expr) : (expr tree).names = tree.parts.flatMap names := by
  cases tree with
  | isIn operand set negated span =>
      cases set <;>
        simp [parts, InSet.parts, names, Part.visits, List.flatMap_map, Expr.itemVisits_eq]
  | call name args distinct span =>
      cases args <;>
        simp [parts, CallArgs.parts, names, Part.visits, List.flatMap_map, Expr.itemVisits_eq]
  | _ =>
      simp [parts, names, Part.visits, Expr.visits_like, Expr.visits_case, Expr.itemVisits_eq,
        Expr.branchParts, Expr.branchVisits, List.flatMap_map, List.flatMap_assoc]

theorem TableRef.names_parts (tree : TableRef) :
    (tableRef tree).names = tree.parts.flatMap names := by
  cases tree with
  | joined left join right condition span =>
      simp only [parts, List.flatMap_append, List.flatMap_assoc, JoinCondition.names_parts]
      simp [names, Part.visits, TableRef.visits_joined, -TableRef.visits]
  | _ => simp [parts, names, Part.visits, TableRef.refVisits_eq, List.flatMap_map]

theorem Statement.names_parts (tree : Statement) :
    (statement tree).names = tree.parts.flatMap names := by
  cases tree with
  | select tree => simp [parts, names, Part.visits, visits]
  | insert tree =>
      simp only [parts, Insert.parts, List.flatMap_append, List.flatMap_cons, List.flatMap_map,
        InsertSource.names_parts]
      simp [names, Part.visits, visits, Insert.visits, flatMap_nothing]
  | update tree =>
      simp [parts, Update.parts, names, Part.visits, visits, Update.visits, tailVisits,
        TableRef.refVisits_eq, OrderingTerm.termVisits_eq, List.flatMap_map]
  | delete tree =>
      simp only [parts, Delete.parts, List.flatMap_append, List.flatMap_map,
        DeleteSource.names_parts]
      simp [names, Part.visits, visits, Delete.visits, tailVisits, OrderingTerm.termVisits_eq]

/-- The names in a tree are the tree itself if it is one, and those in the trees directly below it,
in order. -/
theorem Part.names_eq (part : Part) :
    part.names = (if part.isName then [part] else []) ++ part.children.flatMap names := by
  cases part with
  | ident name => rfl
  | tableName name => simp [names, visits, TableName.visits, children, List.flatMap_map]
  | column ref =>
      obtain ⟨schema, table, column, span⟩ := ref
      cases table <;> simp [names, visits, ColumnRef.visits, children, List.flatMap_map]
  | hint hint => simp [names, visits, IndexHint.visits, children, List.flatMap_map]
  | table tree =>
      simp [names, visits, NamedTable.visits, IndexHint.visits, children, List.flatMap_map,
        flatMap_nothing]
  | expr tree => exact tree.names_parts
  | query tree => simp [names, visits, Query.visits_eq, children, List.flatMap_map]
  | withClause tree => simp [names, visits, WithClause.visits_eq, children, List.flatMap_map]
  | commonTable tree =>
      obtain ⟨name, columns, query, span⟩ := tree
      simp [names, visits, children, List.flatMap_map]
  | body tree =>
      simp only [children, List.flatMap_cons, List.flatMap_map, QueryTerm.names_part]
      simp [names, visits, QueryBody.visits_eq]
  | core tree => simp [names, visits, SelectCore.visits_eq, children, List.flatMap_map]
  | item tree => cases tree <;> simp [names, visits, children, SelectItem.parts, List.flatMap_map]
  | term tree => simp [names, visits, children, OrderingTerm.visits_eq]
  | limit tree => simp [names, visits, children, LimitClause.visits_eq, List.flatMap_map]
  | locking tree => simp [names, visits, children, List.flatMap_map]
  | tableRef tree => exact tree.names_parts
  | assignment tree => simp [names, visits, children, Assignment.visits]
  | statement tree => exact tree.names_parts

/-- No name stands below another one. -/
theorem Part.names_of_isName {part : Part} (name : part.isName = true) : part.names = [part] := by
  cases part with
  | tableName tree => simp [names, visits, TableName.visits]
  | column tree =>
      obtain ⟨schema, table, column, span⟩ := tree
      cases table <;> simp [names, visits, ColumnRef.visits]
  | _ => cases name

/-! ### Places in a tree -/

namespace Part

/-- The tree at a place, which says at each step which of the trees directly below is taken. -/
def at? : Part → List Nat → Option Part
  | part, [] => some part
  | part, step :: place => part.children[step]?.bind fun child => child.at? place

/-- The tree at a place among several trees. -/
def among? (parts : List Part) : List Nat → Option Part
  | [] => none
  | step :: place => parts[step]?.bind fun part => part.at? place

/-- A list has each wanted tree once for every place that one is found at. -/
def ListedOnce (wanted : Part → Bool) (find : List Nat → Option Part) (listed : List Part) : Prop :=
  ∃ places : List (List Nat), places.Nodup ∧ places.map find = listed.map some ∧
    ∀ place, place ∈ places ↔ ∃ part, find place = some part ∧ wanted part = true

namespace ListedOnce

variable {wanted kept : Part → Bool} {find : List Nat → Option Part} {part : Part}
  {parts listed front back : List Part}

theorem nothing : ListedOnce wanted (among? []) [] := by
  refine ⟨[], List.nodup_nil, rfl, fun place => ?_⟩
  cases place <;> simp [among?]

/-- No tree among others is found without a first step. -/
theorem exists_step {place : List Nat} (found : among? parts place = some part) :
    ∃ step later, place = step :: later := by
  cases place with
  | nil => cases found
  | cons step later => exact ⟨step, later, rfl⟩

/-- One more tree in front of others, which are one step further away. -/
theorem cons (first : ListedOnce wanted part.at? front)
    (others : ListedOnce wanted (among? parts) back) :
    ListedOnce wanted (among? (part :: parts)) (front ++ back) := by
  obtain ⟨places, distinct, same, all⟩ := first
  obtain ⟨later, laterDistinct, laterSame, laterAll⟩ := others
  have stepped : ∀ place ∈ later, ∃ step rest, place = step :: rest := by
    intro place member
    obtain ⟨_, found, _⟩ := (laterAll place).mp member
    exact exists_step found
  refine ⟨places.map (0 :: ·) ++ later.map (List.modifyHead (· + 1)), ?_, ?_, ?_⟩
  · refine List.nodup_append.mpr ⟨distinct.map List.cons_injective, ?_, ?_⟩
    · refine laterDistinct.map_on fun left leftMember right rightMember equal => ?_
      obtain ⟨step, rest, rfl⟩ := stepped left leftMember
      obtain ⟨other, more, rfl⟩ := stepped right rightMember
      simpa using equal
    · rintro _ inFirst _ inLater rfl
      obtain ⟨place, _, rfl⟩ := List.mem_map.mp inFirst
      obtain ⟨other, member, equal⟩ := List.mem_map.mp inLater
      obtain ⟨step, rest, rfl⟩ := stepped other member
      simp at equal
  · rw [List.map_append, List.map_append, List.map_map, List.map_map, ← same, ← laterSame]
    refine congrArg₂ _ rfl (List.map_congr_left fun place member => ?_)
    obtain ⟨step, rest, rfl⟩ := stepped place member
    rfl
  · intro place
    rw [List.mem_append, List.mem_map, List.mem_map]
    rcases place with _ | ⟨_ | step, rest⟩
    · constructor
      · rintro (⟨_, _, equal⟩ | ⟨other, member, equal⟩)
        · cases equal
        · obtain ⟨step, rest, rfl⟩ := stepped other member
          cases equal
      · rintro ⟨_, found, _⟩
        cases found
    · refine Iff.trans ⟨?_, fun member => .inl ⟨rest, member, rfl⟩⟩ (all rest)
      rintro (⟨other, member, equal⟩ | ⟨other, member, equal⟩)
      · cases equal
        exact member
      · obtain ⟨step, more, rfl⟩ := stepped other member
        simp at equal
    · refine Iff.trans ⟨?_, fun member => .inr ⟨_, member, rfl⟩⟩ (laterAll (step :: rest))
      rintro (⟨other, _, equal⟩ | ⟨other, member, equal⟩)
      · simp at equal
      · obtain ⟨step, more, rfl⟩ := stepped other member
        cases equal
        exact member

/-- A tree in front of those below it. -/
theorem node (below : ListedOnce wanted (among? part.children) listed) :
    ListedOnce wanted part.at? ((if wanted part then [part] else []) ++ listed) := by
  obtain ⟨places, distinct, same, all⟩ := below
  have stepped : [] ∉ places := by
    intro member
    obtain ⟨_, found, _⟩ := (all []).mp member
    cases found
  have found : places.map part.at? = listed.map some := by
    rw [← same]
    refine List.map_congr_left fun place member => ?_
    cases place with
    | nil => exact absurd member stepped
    | cons step rest => rfl
  by_cases self : wanted part = true
  · rw [if_pos self]
    refine ⟨[] :: places, List.nodup_cons.mpr ⟨stepped, distinct⟩, ?_, fun place => ?_⟩
    · rw [List.map_cons, found]
      rfl
    · cases place with
      | nil => simpa [at?] using self
      | cons step rest =>
          rw [List.mem_cons, or_iff_right (List.cons_ne_nil step rest)]
          exact all (step :: rest)
  · rw [if_neg self]
    refine ⟨places, distinct, found, fun place => ?_⟩
    cases place with
    | nil => simpa [at?, self] using stepped
    | cons step rest => exact all (step :: rest)

/-- Trees one behind the other. -/
theorem among {list : Part → List Part}
    (each : ∀ part ∈ parts, ListedOnce wanted part.at? (list part)) :
    ListedOnce wanted (among? parts) (parts.flatMap list) := by
  induction parts with
  | nil => exact nothing
  | cons part parts inductionHypothesis =>
      obtain ⟨first, others⟩ := List.forall_mem_cons.mp each
      exact first.cons (inductionHypothesis others)

/-- Some of the wanted trees. -/
theorem filter (once : ListedOnce wanted find listed)
    (fewer : ∀ part, kept part = true → wanted part = true) :
    ListedOnce kept find (listed.filter kept) := by
  obtain ⟨places, distinct, same, all⟩ := once
  refine ⟨places.filter fun place => (find place).any kept, distinct.filter _, ?_, fun place => ?_⟩
  · have keep : (places.map find).filter (Option.any kept) =
        (listed.map some).filter (Option.any kept) := by rw [same]
    rw [List.filter_map, List.filter_map] at keep
    exact keep
  · rw [List.mem_filter, all place]
    constructor
    · rintro ⟨⟨part, found, _⟩, kept⟩
      exact ⟨part, found, by simpa [found] using kept⟩
    · rintro ⟨part, found, holds⟩
      exact ⟨⟨part, found, fewer part holds⟩, by simpa [found] using holds⟩

end ListedOnce

end Part

/-! ### Names in trees over tokens -/

theorem InOrder.sublist {tokens inside : List Token} (order : InOrder tokens)
    (part : inside.Sublist tokens) : InOrder inside :=
  ⟨order.apart.sublist part, fun token member => order.upright token (part.subset member)⟩

namespace Over

variable {known : Expr → List Token → Prop} {tokens : List Token} {parts : List Part}

/-- Each name in trees over tokens is listed once. -/
theorem listedOnce (lies : Over known tokens parts) {part : Part} (member : part ∈ parts) :
    ListedOnce isName part.at? part.names := by
  induction lies generalizing part with
  | nothing | token _ => cases member
  | append _ _ inFirst inSecond => exact (List.mem_append.mp member).elim inFirst inSecond
  | part _ _ _ inductionHypothesis =>
      obtain rfl := List.mem_singleton.mp member
      rw [part.names_eq]
      exact .node (.among fun child below => inductionHypothesis below)
  | perm same _ _ inductionHypothesis => exact inductionHypothesis (same.mem_iff.mpr member)

/-- The span of each name in trees over tokens covers a run of these. -/
theorem exists_covers (lies : Over known tokens parts) {name : Part}
    (member : name ∈ parts.flatMap names) :
    ∃ inside, inside.Sublist tokens ∧ Covers inside name.span := by
  induction lies with
  | nothing | token _ => cases member
  | @append front back _ _ _ _ inFirst inSecond =>
      rw [List.flatMap_append] at member
      rcases List.mem_append.mp member with first | second
      · obtain ⟨inside, part, covers⟩ := inFirst first
        exact ⟨inside, part.trans (List.sublist_append_left front back), covers⟩
      · obtain ⟨inside, part, covers⟩ := inSecond second
        exact ⟨inside, part.trans (List.sublist_append_right front back), covers⟩
  | @part tokens part covers _ _ inductionHypothesis =>
      rw [List.flatMap_singleton] at member
      by_cases itself : part.isName = true
      · rw [names_of_isName itself] at member
        obtain rfl := List.mem_singleton.mp member
        exact ⟨tokens, .refl tokens, covers⟩
      · rw [part.names_eq, if_neg itself] at member
        exact inductionHypothesis member
  | perm _ sameNames _ inductionHypothesis => exact inductionHypothesis (sameNames ▸ member)

/-- Names in trees over tokens stand one behind the other. -/
theorem names_apart (lies : Over known tokens parts) (order : InOrder tokens) :
    (parts.flatMap names).Pairwise fun left right => left.span.stop ≤ right.span.start := by
  induction lies with
  | nothing | token _ => exact .nil
  | @append front back _ _ first second inFirst inSecond =>
      rw [List.flatMap_append]
      refine List.pairwise_append.mpr ⟨inFirst order.of_front, inSecond order.of_back, ?_⟩
      intro left leftMember right rightMember
      obtain ⟨inside, leftPart, _, last, _, closes, leftSpan⟩ := first.exists_covers leftMember
      obtain ⟨behind, rightPart, head, _, opens, _, rightSpan⟩ := second.exists_covers rightMember
      rw [leftSpan, rightSpan]
      exact (List.pairwise_append.mp order.apart).2.2 last
        (leftPart.subset (List.mem_of_getLast? closes)) head
        (rightPart.subset (List.mem_of_head? opens))
  | @part tokens part covers _ _ inductionHypothesis =>
      rw [List.flatMap_singleton]
      by_cases itself : part.isName = true
      · rw [names_of_isName itself]
        exact List.pairwise_singleton _ _
      · rw [part.names_eq, if_neg itself]
        exact inductionHypothesis order
  | perm _ sameNames _ inductionHypothesis => exact sameNames ▸ inductionHypothesis order

/-- Where no token is empty, names in trees over tokens begin one behind the other. -/
theorem names_ascending (lies : Over known tokens parts) (order : InOrder tokens)
    (filled : ∀ token ∈ tokens, token.span.start < token.span.stop) :
    (parts.flatMap names).Pairwise fun left right => left.span.start < right.span.start := by
  refine List.Pairwise.imp_of_mem ?_ (lies.names_apart order)
  intro left right member _ apart
  obtain ⟨inside, part, first, last, opens, closes, span⟩ := lies.exists_covers member
  have within := (order.sublist part).stop_le closes (List.mem_of_head? opens)
  have begins := filled first (part.subset (List.mem_of_head? opens))
  rw [span] at apart ⊢
  simp only [Span.through] at apart ⊢
  omega

end Over

/-! ### Names of parsed statements -/

/-- A list has each wanted tree at or below a root once, for the place that it stands at, in the
order in which the trees begin in the source. -/
structure Part.Collects (root : Part) (wanted : Part → Bool) (listed : List Part) : Prop where
  once : ListedOnce wanted root.at? listed
  ascending : listed.Pairwise fun left right => left.span.start < right.span.start

theorem Statement.tableNames_eq (tree : Statement) :
    tree.tableNames.map .tableName = (statement tree).names.filter isTableName := by
  show _ = (tree.visits.filterMap Visit.name?).filter isTableName
  rw [tableNames, List.map_filterMap, List.filter_filterMap]
  refine congrArg (List.filterMap · tree.visits) (funext fun visit => ?_)
  cases visit <;> rfl

theorem Statement.columnRefs_eq (tree : Statement) :
    tree.columnRefs.map .column = (statement tree).names.filter isColumn := by
  show _ = (tree.visits.filterMap Visit.name?).filter isColumn
  rw [columnRefs, List.map_filterMap, List.filter_filterMap]
  refine congrArg (List.filterMap · tree.visits) (funext fun visit => ?_)
  cases visit <;> rfl

/-- The table names and the column references that are collected from a parsed statement are all
that are in it, once each and in the order of the source. -/
theorem names_collected_once_in_order {source : String} {settings : Settings}
    {parsed : ParsedStatement} (accepted : parseStatement source settings = .ok parsed) :
    (statement parsed.statement).Collects isTableName
        (parsed.statement.tableNames.map .tableName) ∧
      (statement parsed.statement).Collects isColumn (parsed.statement.columnRefs.map .column) := by
  obtain ⟨lies, _⟩ := over_of_parseStatement accepted
  obtain ⟨rest, split⟩ := exists_withoutSemicolon_append (Spot.ofSource source settings).ahead
  have order := inOrder_ofSource source settings
  have filled : ∀ token ∈ (Spot.ofSource source settings).ahead,
      token.span.start < token.span.stop := fun token member =>
    ((laid_ofSource source settings).bounds (List.mem_map_of_mem member)).2.1
  rw [split] at order filled
  have once := lies.listedOnce List.mem_cons_self
  have ascending := lies.names_ascending order.of_front
    fun token member => filled token (List.mem_append_left rest member)
  rw [List.flatMap_singleton] at ascending
  rw [Statement.tableNames_eq, Statement.columnRefs_eq]
  exact ⟨⟨once.filter (by simp +contextual), ascending.filter _⟩,
    ⟨once.filter (by simp +contextual), ascending.filter _⟩⟩

/-- Names in common table expressions, nested queries, joins and locks among them. -/
theorem names_collected_of_locked_join :
    ∃ parsed, parseStatement
        "WITH c AS (SELECT a FROM t) SELECT (SELECT b FROM x) FROM c JOIN u FOR UPDATE OF c" {} =
          .ok parsed ∧
      parsed.statement.tableNames.map (·.span.start) = [25, 50, 58, 65, 81] ∧
      parsed.statement.columnRefs.map (·.span.start) = [18, 43] ∧
      (statement parsed.statement).Collects isTableName
        (parsed.statement.tableNames.map .tableName) ∧
      (statement parsed.statement).Collects isColumn (parsed.statement.columnRefs.map .column) := by
  obtain ⟨parsed, accepted, tables, columns⟩ := @exists_parsed
    "WITH c AS (SELECT a FROM t) SELECT (SELECT b FROM x) FROM c JOIN u FOR UPDATE OF c" {}
    (fun parsed => parsed.statement.tableNames.map (·.span.start) = [25, 50, 58, 65, 81] ∧
      parsed.statement.columnRefs.map (·.span.start) = [18, 43]) _ _ rfl (by decide +kernel)
  exact ⟨parsed, accepted, tables, columns, names_collected_once_in_order accepted⟩

end SqlDml
