import SqlDml.Proofs.Canonical.Levels
import SqlDml.Proofs.Canonical.Queries

/-!
Contract: the rules read every legible tree back from its canonical text, with the levels that it takes.

Owns:
- comparisons with an operand that looks like a quantifier with a query behind it;
- that a node is read with the levels that it takes, and meets the nesting limit with fewer, where its
  children do, one lemma for each kind of node;
- the same of every legible node without such a comparison, by induction over the tree.

Does not own: how many levels a tree takes.
-/

namespace SqlDml

open Rule

variable {settings : Settings} {inner : InnerRules} {levels : Nat}

/-- Whether an expression is a comparison with an operand that looks like a quantifier with a query
behind it. -/
def Expr.misleads : Expr → Bool
  | .binary _ op right _ => op.isComparison && right.quantifies
  | _ => false

/-- A node is no such comparison. -/
def Node.Unquantified : Node → Prop
  | .expr tree => tree.misleads = false
  | _ => True

/-! ### Nodes and levels -/

/-- The rules read an expression from its signs just where they have the levels that it takes. -/
def Expr.ReadWithin (settings : Settings) (tree : Expr) : Prop :=
  ∀ levels, tree.Reads settings (innerAt levels) (tree.levels ≤ levels)

/-- The rules read a query from its signs just where they have the levels that it takes below it. -/
def Query.ReadWithin (settings : Settings) (tree : Query) : Prop :=
  ∀ levels, tree.ReadBy settings (innerAt levels) (tree.levels + 1 ≤ levels)

/-- The rules read a table reference from its signs just where they have the levels that it takes.  With
one level less they still do not read it as a query, but for a second parenthesis that opens a level
itself. -/
structure TableRef.ReadWithin (settings : Settings) (tree : TableRef) : Prop where
  reads : ∀ levels, tree.Reads settings (innerAt levels) (tree.levels ≤ levels)
  unclosed : ∀ (levels : Nat) (rest : List Sign),
    (wholeQuery (innerAt levels)).UnclosedIf
      (tree.levels ≤ levels + 1 ∧ (tree.opensTables = true → 1 ≤ levels)) settings.pipesAsConcat
      (tree.signs settings ++ rest)

/-- The rules read a node from its signs just where they have the levels that it takes. -/
def Node.ReadWithin (settings : Settings) : Node → Prop
  | .expr tree => tree.ReadWithin settings
  | .query tree => tree.ReadWithin settings
  | .core tree => ∀ levels, tree.ReadBy settings (innerAt levels) (tree.levels ≤ levels)
  | .item tree => ∀ levels, tree.ReadBy settings (innerAt levels) (tree.levels ≤ levels)
  | .ref tree => tree.ReadWithin settings
  | .statement _ | .table _ | .tableName _ | .column _ => True

namespace Expr.ReadWithin

variable {tree : Expr}

theorem readBy (read : tree.ReadWithin settings) (all : (Node.expr tree).AllLegible settings)
    (levels : Nat) : tree.ReadBy settings (innerAt levels) (tree.levels + 1 ≤ levels) := by
  cases levels with
  | zero => exact readBy_zero all (Nat.not_succ_le_zero _)
  | succ fewer => exact ((read fewer).readBy all).of_iff Nat.add_le_add_iff_right.symm

theorem inFront (read : tree.ReadWithin settings) (all : (Node.expr tree).AllLegible settings)
    (levels : Nat) :
    tree.InFront settings (innerAt levels) (tree.levels + tree.parenLevels ≤ levels) := by
  refine Expr.inFront (fun bare => ?_) fun compound => ?_
  · rw [parenLevels, bare]
    exact read levels
  · rw [parenLevels, compound]
    exact read.readBy all levels

theorem operandBy (read : tree.ReadWithin settings) (all : (Node.expr tree).AllLegible settings)
    (levels : Nat) :
    tree.OperandBy settings (innerAt levels) (tree.levels + tree.parenLevels + 1 ≤ levels) := by
  cases levels with
  | zero => exact operandBy_zero (Nat.not_succ_le_zero _)
  | succ fewer => exact ((read.inFront all fewer).of_iff Nat.add_le_add_iff_right.symm).operandBy

end Expr.ReadWithin

/-! ### Expressions -/

/-- An expression is read with its levels where its parts are. -/
theorem Expr.readWithin_of_children {tree : Expr}
    (all : (Node.expr tree).AllLegible settings) (plain : tree.misleads = false)
    (children : ∀ child ∈ tree.children, child.ReadWithin settings) :
    tree.ReadWithin settings := by
  intro levels
  have front : ∀ {child : Expr}, Node.expr child ∈ tree.children →
      child.InFront settings (innerAt levels) (child.levels + child.parenLevels ≤ levels) := by
    intro child member
    have read : child.ReadWithin settings := children _ member
    exact read.inFront (all.child member) levels
  have operand : ∀ {child : Expr}, Node.expr child ∈ tree.children →
      child.OperandBy settings (innerAt levels) (child.levels + child.parenLevels + 1 ≤ levels) := by
    intro child member
    have read : child.ReadWithin settings := children _ member
    exact @Expr.ReadWithin.operandBy _ _ read (all.child member) levels
  have part : ∀ {child : Expr}, Node.expr child ∈ tree.children →
      child.ReadBy settings (innerAt levels) (child.levels + 1 ≤ levels) := by
    intro child member
    have read : child.ReadWithin settings := children _ member
    exact read.readBy (all.child member) levels
  have query : ∀ {child : Query}, Node.query child ∈ tree.children →
      child.ReadBy settings (innerAt levels) (child.levels + 1 ≤ levels) := by
    intro child member
    have read : child.ReadWithin settings := children _ member
    exact @read levels
  have free : True ↔ 0 ≤ levels := (iff_true_intro (Nat.zero_le _)).symm
  have spelt : tree.Spelt settings := all.self.spelt
  have shaped : tree.Shaped := all.self.shaped
  cases tree with
  | literal value span => exact (Reads.literal spelt all.self.ordinary).of_iff free
  | column ref =>
      have below : (Node.column ref).AllLegible settings := all.child (by simp)
      exact (Reads.column below.self.spelt).of_iff free
  | placeholder index span => exact Reads.placeholder.of_iff free
  | default span => exact Reads.default.of_iff free
  | binary left op right span =>
      have unquantified : op.isComparison = true → right.quantifies = false := by
        simpa [misleads] using plain
      exact Reads.of_iff (.binary spelt (front (by simp)) (operand (by simp)) (all.child (by simp))
        unquantified) Nat.max_le.symm
  | unary op child span => exact .unary (operand (by simp))
  | is child negated value span => exact .is (front (by simp))
  | quantified left op quantifier rows span =>
      exact (Reads.quantified shaped (front (by simp)) (query (by simp))).of_iff Nat.max_le.symm
  | between child low high negated span =>
      exact Reads.of_iff (.between (front (by simp)) (operand (by simp)) (operand (by simp)))
        ((and_congr_right' Nat.max_le.symm).trans Nat.max_le.symm)
  | isIn child set negated span =>
      cases set with
      | list items =>
          have inside : (child.levels + child.parenLevels ≤ levels ∧
              ∀ item ∈ items, item.levels + 1 ≤ levels) ↔
                (isIn child (.list items) negated span).levels ≤ levels :=
            (and_congr_right' itemLevels_le.symm).trans Nat.max_le.symm
          refine Reads.of_iff (.isIn (front (by simp)) ?_) inside
          exact Reads.takes_inList shaped (fun item alone => spelt item alone) fun item member =>
            part (by simp [member])
      | subquery rows =>
          exact (Reads.isIn (front (by simp)) (Reads.takes_inQuery (query (by simp)))).of_iff
            Nat.max_le.symm
  | like child pattern escape op negated span =>
      refine Reads.of_iff (.like spelt (front (by simp)) (operand (by simp)) fun char found => ?_)
        like_levels_le.symm
      rw [Option.mem_def] at found
      exact operand (by simp [found])
  | soundsLike child pattern span =>
      exact (Reads.soundsLike (front (by simp)) (operand (by simp))).of_iff Nat.max_le.symm
  | case subject whens otherwise span =>
      refine Reads.of_iff (.case shaped (fun child found => part (child_of_subject found))
        (fun branch member => ?_) fun child found => part (child_of_otherwise found))
        case_levels_le.symm
      obtain ⟨condition, result⟩ := children_of_branch member
      exact ⟨part condition, part result⟩
  | cast child target span => exact .cast spelt shaped (part (by simp))
  | call name args distinct span =>
      refine Reads.of_iff (.call spelt.1 spelt.2 shaped fun items same item member => ?_)
        CallArgs.levels_le.symm
      subst same
      exact part (by simp [member])
  | subquery rows span => exact .subquery (query (by simp))
  | «exists» rows span => exact .existsRows (query (by simp))
  | row items span =>
      refine Reads.of_iff (.row shaped fun item member => ?_) itemLevels_le.symm
      exact part (by simp [member])
  | collate child collation span => exact .collate spelt (front (by simp))

/-! ### Queries -/

theorem QueryTerm.readBy_within {term : QueryTerm} (read : term.node.ReadWithin settings) :
    term.ReadBy settings (innerAt levels) (term.levels ≤ levels) := by
  cases term with
  | select core => exact @read levels
  | nested query =>
      have read : query.ReadWithin settings := read
      exact @read levels

/-- A query is read with its levels where its parts are. -/
theorem Query.readWithin_of_children {query : Query} (all : (Node.query query).AllLegible settings)
    (children : ∀ child ∈ query.children, child.ReadWithin settings) :
    query.ReadWithin settings := by
  intro levels rest ends noTest
  cases levels with
  | zero =>
      rw [query_zero]
      exact .tooDeep (Nat.not_succ_le_zero _)
  | succ fewer =>
      have legible : ∀ term ∈ query.orderBy, (Node.expr term.expr).AllLegible settings :=
        fun term member => all.child (by simp only [Node.children, Query.children]; simp; grind)
      simp only [Query.children, LimitClause.children, List.forall_mem_append, List.forall_mem_cons,
        List.forall_mem_map, List.forall_mem_flatMap, Option.mem_toList] at children
      obtain ⟨⟨⟨⟨tables, first, others⟩, terms⟩, _⟩, _⟩ := children
      rw [query_succ]
      refine TakesIf.enter (TakesIf.of_iff (@Query.takes_whole _ _ _ _ query
        (fun query => query.levels + 1 ≤ fewer) (fun term => term.levels ≤ fewer)
        (fun tree => tree.levels + 1 ≤ fewer) all (fun clause found table member => ?_)
        (QueryTerm.readBy_within first) (fun compound member => ?_) (fun term member => ?_) ends noTest)
        (Query.levels_le.symm.trans Nat.succ_le_succ_iff.symm))
      · have read : table.query.ReadWithin settings := tables clause found table member
        exact @read fewer
      · exact QueryTerm.readBy_within (others compound member)
      · have read : term.expr.ReadWithin settings := terms term member
        exact read.readBy (legible term member) fewer

/-- A select block is read with its levels where its parts are. -/
theorem SelectCore.readBy_within {core : SelectCore} (all : (Node.core core).AllLegible settings)
    (children : ∀ child ∈ core.children, child.ReadWithin settings) :
    core.ReadBy settings (innerAt levels) (core.levels ≤ levels) := by
  have part : ∀ {tree : Expr}, Node.expr tree ∈ core.children →
      tree.ReadBy settings (innerAt levels) (tree.levels + 1 ≤ levels) := by
    intro tree member
    have read : tree.ReadWithin settings := children _ member
    exact read.readBy (all.child member) levels
  intro rest ends noTest
  refine TakesIf.of_iff (SelectCore.readBy all (fun item member => ?_) (fun source member => ?_)
    (fun tree found => part ?_) (fun term member => part ?_) (fun tree found => part ?_) ends noTest)
    SelectCore.levels_le.symm
  · have read : (Node.item item).ReadWithin settings := children _ (by simp [member])
    exact @read levels
  · have read : source.ReadWithin settings := children (.ref source) (by simp [member])
    exact read.reads levels
  · rw [Option.mem_def] at found
    simp [found]
  · simp only [SelectCore.children, List.mem_append, List.mem_map]
    exact .inl (.inr ⟨term, member, rfl⟩)
  · rw [Option.mem_def] at found
    simp [found]

/-! ### Tables -/

namespace TableRef

variable {query : Query} {label : Ident} {span : Span} {trees : List TableRef}

/-- Where no level is left, no table in parentheses fits. -/
theorem tableInParens_zero {tree : TableRef} {fits : Prop} {rest : List Sign} (none : ¬ fits) :
    (innerAt 0).tableInParens.TakesIf fits settings.pipesAsConcat (tree.signs settings ++ rest) rest
      tree := by
  rw [Rule.tableInParens_zero]
  exact .tooDeep none

/-- A table with a query in parentheses takes two levels more than the query. -/
theorem readWithin_derived (plain : label.Plain settings) (read : query.ReadWithin settings) :
    (derived query label span).ReadWithin settings where
  reads levels := by
    refine .of_parens (by rw [signs_derived]; rfl) fun _ => ?_
    cases levels with
    | zero => exact tableInParens_zero (Nat.not_succ_le_zero _)
    | succ fewer =>
        rw [tableInParens_succ]
        exact ((Reads.takes_derived plain (read fewer)).of_iff Nat.succ_le_succ_iff.symm).enter
  unclosed levels rest := by
    rw [signs_derived, List.append_assoc]
    exact (Expr.Reads.unclosed_nested (read levels) rfl).mono fun both =>
      Nat.le_of_succ_le_succ both.1

/-- What might begin a query takes a level. -/
theorem levels_pos_of_startsQuery :
    ∀ {tree : TableRef}, (Node.ref tree).AllLegible settings → ∀ {rest : List Sign},
      (kindAt (tree.signs settings ++ rest) 0).startsQuery = true → 1 ≤ tree.levels
  | .named table, all, rest, starts => by
      have below : (Node.table table).AllLegible settings := all.child (by simp)
      have name : (Node.tableName table.name).AllLegible settings := below.child (by simp)
      have isName := NamedTable.begins_signs name.self.spelt rest
      rw [signs_named] at starts
      exact absurd rfl (ne_of_holds starts (TokenKind.not_startsQuery_of_isName isName))
  | .derived _ _ _, _, _, _ => Nat.le_add_left 1 _
  | .joined left join right condition span, all, rest, starts => by
      have below : (Node.ref left).AllLegible settings := all.child (by simp)
      rw [signs_joined, List.append_assoc] at starts
      exact Nat.le_trans (levels_pos_of_startsQuery below starts)
        (joined_levels_le.mp (Nat.le_refl _)).1
  | .parenthesized _ _, _, _, _ => Nat.le_add_left 1 _

/-- A reference that opens tables begins with a parenthesis. -/
theorem signs_of_opensTables (settings : Settings) :
    ∀ tree : TableRef, tree.opensTables = true → ∀ rest : List Sign,
      ∃ before, tree.signs settings ++ rest = Sign.mark .leftParen :: before
  | .parenthesized trees span, _, rest => by
      rw [signs_parenthesized]
      exact ⟨_, rfl⟩
  | .joined left join right condition span, opens, rest => by
      rw [signs_joined, List.append_assoc]
      exact signs_of_opensTables settings left opens _

/-- In front of a parenthesis a query opens a level for what is inside, so that it takes two. -/
theorem trips_query {concat : Bool} {before : List Sign} (few : levels < 2)
    (opens : kindAt before 0 = .punct .leftParen) : (innerAt levels).query.Trips concat before := by
  rcases Nat.lt_or_eq_of_le (Nat.le_of_lt_succ few) with none | rfl
  · obtain rfl := Nat.lt_one_iff.mp none
    rw [query_zero]
    exact .tooDeep
  · have noWith : kindAt before 0 ≠ .keyword .WITH := by simp [opens]
    have term : (queryTerm (innerAt 0)).Trips concat before := by
      cases before with
      | nil => cases opens
      | cons sign before =>
          unfold queryTerm
          refine .peek ?_ fun kind => ?_
          · rw [opens]
            refine .advance fun _ => Trips.bind ?_
            rw [query_zero]
            exact .tooDeep
          · split <;> infer_instance
    have body : (queryBody (innerAt 0)).Trips concat before := by
      rw [queryBody_eq]
      exact .currentSpan fun _ => Trips.bind term
    rw [query_succ]
    refine Trips.enter ?_
    unfold wholeQuery
    exact .currentSpan fun _ => (takes_withClause_none noWith).bind_meets fun _ _ => Trips.bind body

/-- In front of a second parenthesis a table in parentheses takes two levels below its own. -/
theorem takes_of_parens {tree : TableRef} {fits : Prop} {concat : Bool} {before rest : List Sign}
    (few : levels < 2) (opens : kindAt before 0 = .punct .leftParen) (none : ¬ fits) :
    (tableInParensBody (innerAt levels)).TakesIf fits concat (Sign.mark .leftParen :: before) rest
      tree := by
  have derived : ∀ start, (derivedTable (innerAt levels) start).TakesIf fits concat
      (Sign.mark .leftParen :: before) rest tree := by
    intro start
    refine Trips.takesIf ?_ none
    unfold derivedTable
    refine .expectFound rfl (fun _ => Trips.bind (trips_query few opens) fun query => ?_) fun _ => ?_
    · refine lawful_bind fun _ => lawful_bind fun found => ?_
      split <;> infer_instance
    · refine lawful_bind fun query => lawful_bind fun _ => lawful_bind fun found => ?_
      split <;> infer_instance
  unfold tableInParensBody
  refine .currentSpan fun start => .peekAhead 1 ?_
  rw [kindAt_succ, opens]
  exact (derived start).attempted.bind_takes (forall_alike_some fun value alike => .pure)

/-- A list of table references in parentheses is no query, as the first of them is none. -/
theorem unclosed_trees {rest : List Sign} (nonempty : trees ≠ [])
    (each : ∀ tree ∈ trees, tree.ReadWithin settings) (fewer : Nat) :
    (innerAt (fewer + 1)).query.UnclosedIf
      ((trees.head?.any opensTables = true → 2 ≤ fewer + 1) ∧
        ∀ tree ∈ trees, tree.levels ≤ fewer + 1)
      settings.pipesAsConcat (Sign.commaList (trees.map (TableRef.signs settings)) ++ rest) := by
  cases trees with
  | nil => exact absurd rfl nonempty
  | cons first others =>
      rw [query_succ, List.map_cons, Sign.commaList, List.append_assoc]
      refine (((each first List.mem_cons_self).unclosed fewer _).mono fun both => ?_).enter
      exact ⟨both.2 first List.mem_cons_self, fun parens => Nat.le_of_succ_le_succ (both.1 parens)⟩

/-- Table references in parentheses are read a level below, where a second parenthesis takes two. -/
theorem takes_parenthesized_within {rest : List Sign} (nonempty : trees ≠ [])
    (all : ∀ tree ∈ trees, (Node.ref tree).AllLegible settings)
    (each : ∀ tree ∈ trees, tree.ReadWithin settings) :
    (tableInParensBody (innerAt levels)).TakesIf
      ((trees.head?.any opensTables = true → 2 ≤ levels) ∧ ∀ tree ∈ trees, tree.levels ≤ levels)
      settings.pipesAsConcat ((parenthesized trees span).signs settings ++ rest) rest
      (.parenthesized trees span) := by
  by_cases parens : trees.head?.any opensTables = true → 2 ≤ levels
  · refine (Reads.takes_parenthesized nonempty (fun tree member => (each tree member).reads levels)
      all fun starts => ?_).of_iff (and_iff_right parens).symm
    cases levels with
    | zero =>
        rw [query_zero]
        refine .tooDeep fun fits => ?_
        cases trees with
        | nil => exact absurd rfl nonempty
        | cons first others =>
            rw [List.map_cons, Sign.commaList, List.append_assoc] at starts
            have positive := levels_pos_of_startsQuery (all first List.mem_cons_self) starts
            exact absurd (fits first List.mem_cons_self) (Nat.not_le.mpr positive)
    | succ fewer => exact (unclosed_trees nonempty each fewer).mono fun fits => ⟨parens, fits⟩
  · -- the query that is tried first meets the limit, before any reference is read
    obtain ⟨opened, few⟩ := Classical.not_imp.mp parens
    rw [signs_parenthesized]
    simp only [Sign.parens, List.cons_append, List.append_assoc]
    refine takes_of_parens (Nat.not_le.mp few) ?_ fun fits => parens fits.1
    cases trees with
    | nil => cases opened
    | cons first others =>
        obtain ⟨before, signs⟩ := signs_of_opensTables settings first opened
          (Sign.behindCommas (others.map (TableRef.signs settings)) ++ Sign.mark .rightParen :: rest)
        simp [Sign.commaList, signs]

theorem readWithin_parenthesized (nonempty : trees ≠ [])
    (all : ∀ tree ∈ trees, (Node.ref tree).AllLegible settings)
    (each : ∀ tree ∈ trees, tree.ReadWithin settings) :
    (parenthesized trees span).ReadWithin settings where
  reads levels := by
    refine .of_parens (by rw [signs_parenthesized]; rfl) fun _ => ?_
    cases levels with
    | zero => exact tableInParens_zero (Nat.not_succ_le_zero _)
    | succ fewer =>
        rw [tableInParens_succ]
        refine (takes_parenthesized_within nonempty all each).enter.of_iff ?_
        rw [parenthesized_levels_le]
        simp
  unclosed levels rest := by
    rw [signs_parenthesized]
    simp only [Sign.parens, List.cons_append, List.append_assoc]
    refine unclosed_of_parens rfl ?_
    cases levels with
    | zero =>
        rw [query_zero]
        exact .tooDeep fun fits => absurd (fits.2 rfl) (Nat.not_succ_le_zero 0)
    | succ fewer =>
        refine (unclosed_trees nonempty each fewer).mono fun fits => ?_
        obtain ⟨less, same, inside⟩ := parenthesized_levels_le.mp fits.1
        obtain rfl := Nat.succ.inj same
        exact inside

end TableRef

/-- A table reference is read with its levels where its parts are. -/
theorem TableRef.readWithin_of_children {tree : TableRef} (all : (Node.ref tree).AllLegible settings)
    (children : ∀ child ∈ tree.children, child.ReadWithin settings) : tree.ReadWithin settings := by
  cases tree with
  | named table =>
      have below : (Node.table table).AllLegible settings := all.child (by simp)
      have name : (Node.tableName table.name).AllLegible settings := below.child (by simp)
      have reads : ∀ levels, (named table).Reads settings (innerAt levels) True := fun _ =>
        .named name.self.spelt below.self.spelt below.self.shaped
      refine ⟨fun levels => (reads levels).of_iff (iff_true_intro (Nat.zero_le _)).symm,
        fun _ rest => unclosed_of_kind ?_⟩
      rw [signs_named]
      exact TokenKind.not_startsQuery_of_isName (NamedTable.begins_signs name.self.spelt rest)
  | derived query label span =>
      exact readWithin_derived all.self.spelt (children (.query query) (by simp))
  | joined left join right condition span =>
      obtain ⟨single, admits⟩ := all.self.shaped
      have lefts : left.ReadWithin settings := children (.ref left) (by simp)
      have rights : right.ReadWithin settings := children (.ref right) (by simp)
      refine ⟨fun levels => ?_, fun levels rest => ?_⟩
      · refine Reads.of_iff (.joined single admits (lefts.reads levels) (rights.reads levels) ?_)
          joined_levels_le.symm
        intro test found
        have spelt := all.self.spelt test found
        rw [Option.mem_def] at found
        subst found
        rcases test with condition | columns
        · have read : condition.ReadWithin settings := children (.expr condition) (by simp)
          exact read.readBy (all.child (by simp)) levels
        · exact ⟨Nat.zero_le _, spelt⟩
      · rw [signs_joined, List.append_assoc]
        refine (lefts.unclosed levels _).mono fun fits => ?_
        exact ⟨(joined_levels_le.mp fits.1).1, fits.2⟩
  | parenthesized trees span =>
      exact readWithin_parenthesized all.self.spelt
        (fun source member => all.child (by simpa using member))
        fun source member => children (.ref source) (by simpa using member)

/-! ### All trees -/

/-- Every legible node is read with the levels that it takes, and with no fewer, if no comparison within
it has an operand that looks like a quantifier with a query behind it. -/
theorem Node.readWithin {node : Node} (all : node.AllLegible settings)
    (plain : node.All Node.Unquantified) : node.ReadWithin settings := by
  induction node using Node.induction with
  | step node inductionHypothesis =>
      have children := fun child member => inductionHypothesis child member (all.child member)
        ((Node.all_iff.mp plain).2 child member)
      have self : node.Unquantified := (Node.all_iff.mp plain).1
      cases node with
      | expr tree => exact Expr.readWithin_of_children all self children
      | query tree => exact Query.readWithin_of_children all children
      | core tree => exact fun levels => SelectCore.readBy_within all children
      | item tree =>
          intro levels
          refine SelectItem.readBy all ?_ fun other => ?_
          · rintro value aliasName span rfl
            have read : value.ReadWithin settings := children (.expr value) (by simp)
            exact read.readBy (all.child (by simp)) levels
          · cases tree with
            | expr value aliasName span => exact absurd rfl (other value aliasName span)
            | wildcard | qualifiedWildcard => exact Nat.zero_le _
      | ref tree => exact TableRef.readWithin_of_children all children
      | statement | table | tableName | column => trivial

end SqlDml
