import SqlDml.Proofs.Canonical.Parsed
import SqlDml.Proofs.Extents.Alone
import SqlDml.Proofs.Markers.Numbering
import SqlDml.Proofs.Precedence.Chains
import SqlDml.Proofs.Trees.Erased

/-!
Contract: a source that is a chain of operands has the tree that the chain stands for.

Owns:
- chains with their parameter markers numbered from left to right;
- that trees of such operators which are alike, markers aside, have their markers in the same order;
- the parse of a chain.

Does not own: how the rules read a chain.
-/

namespace SqlDml

/-! ### Trees of operators -/

/-- Operators over columns, constants and parameter markers. -/
inductive Expr.Chained : Expr → Prop where
  | literal (value : Literal) (span : Span) : Chained (.literal value span)
  | column (ref : ColumnRef) : Chained (.column ref)
  | placeholder (number : Nat) (span : Span) : Chained (.placeholder number span)
  | unary {operand : Expr} (op : UnaryOp) (span : Span) (inside : Chained operand) :
      Chained (.unary op operand span)
  | binary {left right : Expr} (op : BinaryOp) (span : Span) (front : Chained left)
      (behind : Chained right) : Chained (.binary left op right span)

/-- Whether an expression is a match of patterns or a case, the labels of which are replaced part by
part. -/
def Expr.isMatchOrCase : Expr → Bool
  | .like _ _ _ _ _ _ | .case _ _ _ _ => true
  | _ => false

theorem Expr.isMatchOrCase_relabel (labels : Relabelling) (tree : Expr) :
    (relabel labels tree).isMatchOrCase = tree.isMatchOrCase := by
  cases tree with
  | like operand pattern escape op negated span => rw [Expr.relabel_like]; rfl
  | case operand whens otherwise span => rw [Expr.relabel_case]; rfl
  | _ => rfl

theorem Expr.isMatchOrCase_of_alike {tree copy : Expr} (alike : Alike .plain tree copy) :
    copy.isMatchOrCase = tree.isMatchOrCase := by
  rw [← copy.isMatchOrCase_relabel Likeness.plain.right, ← alike.same, isMatchOrCase_relabel]

/-- A tree that is like one of operators, markers aside, is that tree but for the places if the
numbers of its markers are the same. -/
theorem Expr.Chained.erased_eq {tree copy : Expr} (chained : tree.Chained)
    (alike : Alike .plain tree copy) :
    copy.markers.reversed = false ∧
      copy.markers.numbers.length = tree.markers.numbers.length ∧
      (copy.markers.numbers = tree.markers.numbers → copy.eraseSpans = tree.eraseSpans) := by
  rw [Expr.eraseSpans_eq, Expr.eraseSpans_eq]
  induction chained generalizing copy with
  | literal value span =>
      obtain ⟨place, rfl⟩ := Literal.eq_of_alike alike
      simp only [Expr.markers_literal]
      exact ⟨rfl, trivial, fun _ => rfl⟩
  | column ref =>
      have other := Expr.isMatchOrCase_of_alike alike
      obtain ⟨same⟩ := alike
      cases copy with
      | column found =>
          simp only [Expr.markers_column]
          exact ⟨rfl, trivial, fun _ => same.symm⟩
      | like | case => cases other
      | _ => cases same
  | placeholder number span =>
      have other := Expr.isMatchOrCase_of_alike alike
      obtain ⟨same⟩ := alike
      cases copy with
      | placeholder found place =>
          simp only [Expr.markers_placeholder]
          refine ⟨trivial, rfl, fun numbers => ?_⟩
          obtain rfl := (List.cons.inj numbers).1
          rfl
      | like | case => cases other
      | _ => cases same
  | @unary operand op span _ inductionHypothesis =>
      have other := Expr.isMatchOrCase_of_alike alike
      obtain ⟨same⟩ := alike
      cases copy with
      | unary sign found place =>
          have parts : Expr.unary op (relabel .plain operand) Span.zero =
              .unary sign (relabel .plain found) Span.zero := same
          obtain ⟨rfl, inside, _⟩ := Expr.unary.inj parts
          obtain ⟨straight, many, whole⟩ := inductionHypothesis ⟨inside⟩
          simp only [Expr.markers_unary]
          refine ⟨straight, many, fun numbers => ?_⟩
          have tree : Expr.unary op (relabel .erasing found) Span.zero =
              .unary op (relabel .erasing operand) Span.zero := by rw [whole numbers]
          exact tree
      | like | case => cases other
      | _ => cases same
  | @binary left right op span _ _ front behind =>
      have other := Expr.isMatchOrCase_of_alike alike
      obtain ⟨same⟩ := alike
      cases copy with
      | binary first sign second place =>
          have parts : Expr.binary (relabel .plain left) op (relabel .plain right) Span.zero =
              .binary (relabel .plain first) sign (relabel .plain second) Span.zero := same
          obtain ⟨before, rfl, after, _⟩ := Expr.binary.inj parts
          obtain ⟨straight, many, whole⟩ := front ⟨before⟩
          obtain ⟨straightBehind, manyBehind, wholeBehind⟩ := behind ⟨after⟩
          simp only [Expr.markers_binary, MarkerTrace.append_reversed, MarkerTrace.append_numbers,
            List.length_append, straight, straightBehind, many, manyBehind]
          refine ⟨rfl, trivial, fun numbers => ?_⟩
          obtain ⟨earlier, later⟩ := List.append_inj numbers many
          have tree : Expr.binary (relabel .erasing first) op (relabel .erasing second) Span.zero =
              .binary (relabel .erasing left) op (relabel .erasing right) Span.zero := by
            rw [whole earlier, wholeBehind later]
          exact tree
      | like | case => cases other
      | _ => cases same

/-- The tree of a chain is one of operators if those of its operands are. -/
theorem chained_splitTree {first : Expr} {links : List (BinaryOp × Expr)} (chained : first.Chained)
    (behind : ∀ link ∈ links, link.2.Chained) : (splitTree first links).Chained := by
  induction first, links using splitTree.induct with
  | case1 first links none =>
      rw [lastLowest?_eq_none none, splitTree_nil]
      exact chained
  | case2 first links before op next after found left right =>
      obtain ⟨split, noLower, higher⟩ := lastLowest?_spec found
      subst split
      rw [splitTree_append first noLower higher]
      rw [List.forall_mem_append, List.forall_mem_cons] at behind
      exact .binary _ _ (left chained behind.1) (right behind.2.1 behind.2.2)

/-- The tree of a chain has the markers of its operands, from left to right. -/
theorem numbers_splitTree (first : Expr) (links : List (BinaryOp × Expr)) :
    (splitTree first links).markers.numbers =
      first.markers.numbers ++ links.flatMap fun link => link.2.markers.numbers := by
  induction first, links using splitTree.induct with
  | case1 first links none =>
      rw [lastLowest?_eq_none none, splitTree_nil, List.flatMap_nil, List.append_nil]
  | case2 first links before op next after found left right =>
      obtain ⟨split, noLower, higher⟩ := lastLowest?_spec found
      subst split
      rw [splitTree_append first noLower higher, Expr.markers_ofOperands,
        MarkerTrace.append_numbers, left, right, List.flatMap_append, List.flatMap_cons,
        List.append_assoc]

/-! ### Chains -/

namespace Operand

variable {settings : Settings} (operand : Operand settings)

/-- The number of the parameter marker that an operand is, if it is one. -/
def numbers : List Nat := operand.atom.markers.numbers

theorem chained_tree : operand.tree.Chained := by
  obtain ⟨leads, inside, atom, read⟩ := operand
  unfold tree
  induction leads with
  | nil =>
      cases read with
      | column named => exact .column _
      | constant read => exact .literal _ _
      | marker question => exact .placeholder _ _
  | cons lead leads inductionHypothesis => exact .unary _ _ inductionHypothesis

theorem numbers_tree : operand.tree.markers.numbers = operand.numbers := by
  obtain ⟨leads, inside, atom, read⟩ := operand
  unfold tree numbers
  induction leads with
  | nil => rfl
  | cons lead leads inductionHypothesis =>
      rw [List.foldr_cons, Expr.markers_unary]
      exact inductionHypothesis

end Operand

/-- An operand and links behind it.  The parameter markers are numbered from left to right. -/
structure Chain (settings : Settings) where
  first : Operand settings
  links : List (Link settings)
  numbered : ∃ count, (first :: links.map Link.operand).flatMap Operand.numbers = List.range count

namespace Chain

variable {settings : Settings} (chain : Chain settings)

def operands : List (Operand settings) := chain.first :: chain.links.map Link.operand

/-- The signs of a chain, from left to right. -/
def signs : List Sign := chain.first.signs ++ Link.signsOf chain.links

/-- The tree that a chain stands for, split at its last operator of lowest precedence. -/
def tree : Expr := splitTree chain.first.tree (Link.trees chain.links)

theorem chained_tree : chain.tree.Chained := by
  refine chained_splitTree chain.first.chained_tree fun part member => ?_
  obtain ⟨link, _, rfl⟩ := List.mem_map.mp member
  exact link.operand.chained_tree

theorem numbers_tree : ∃ count, chain.tree.markers.numbers = List.range count := by
  obtain ⟨count, numbered⟩ := chain.numbered
  refine ⟨count, ?_⟩
  rw [← numbered, tree, numbers_splitTree, Link.trees, List.flatMap_map, List.flatMap_cons,
    List.flatMap_map, Operand.numbers_tree]
  simp only [Operand.numbers_tree]

end Chain

/-- A source that is a chain of operands, with operators between them in any spelling, has the tree
that the chain stands for, up to places, with twelve nesting levels and one for each operator in
front of an operand. -/
theorem parseExpression_of_chain {source : String} {settings : Settings} {tokens : List Token}
    {stop : Token} (chain : Chain settings)
    (read : tokenize source settings = .ok (tokens ++ [stop]))
    (spells : tokens.map (Token.sign source.toList) = chain.signs)
    (deep : ∀ operand ∈ chain.operands, 12 + operand.leads.length ≤ settings.maxDepth) :
    ∃ tree, parseExpression source settings = .ok tree ∧
      tree.eraseSpans = chain.tree.eraseSpans := by
  obtain ⟨unfailed, _⟩ := tokenize_eq_ok.mp read
  have signs : (Spot.ofSource source settings).signs =
      chain.first.signs ++ (Link.signsOf chain.links ++ []) := by
    rw [Spot.signs, (ahead_of_tokenize read).1, List.append_nil]
    exact spells
  have front := deep chain.first List.mem_cons_self
  obtain ⟨levels, depth⟩ : ∃ levels, settings.maxDepth = levels + 1 :=
    Nat.exists_eq_succ_of_ne_zero (by omega)
  rw [depth] at front deep
  have nothing : EndsBelow settings.pipesAsConcat 0 [] := .inl rfl
  have parts : Rule.Takes.Parts 0 0 := ⟨fun _ _ => Nat.zero_le _, fun op none =>
    absurd op.precedence_pos (Nat.not_lt.mpr none)⟩
  have takes : (Rule.innerAt settings.maxDepth).expr.Takes settings.pipesAsConcat
      (Spot.ofSource source settings).signs [] chain.tree := by
    rw [signs, depth]
    refine Rule.Takes.operandOfLinks chain.first (by omega)
      (nothing.behind (fun link _ => link.op.precedence_le) (Nat.zero_le 11)) fun found same => ?_
    have alone : Alike .plain (splitTree chain.first.tree []) found := by rwa [splitTree_nil]
    refine Rule.Takes.links parts (fun link _ => link.op.precedence_pos) ?_ ?_ nothing alone
    · simp
    · intro link member
      have enough := deep link.operand (List.mem_cons_of_mem _ (List.mem_map_of_mem member))
      omega
  obtain ⟨found, parsed, alike⟩ := (parseExpression_of_signs unfailed takes).1 trivial
  obtain ⟨straight, many, erased⟩ := chain.chained_tree.erased_eq alike
  refine ⟨found, parsed, erased ?_⟩
  -- both number their markers from zero, and they have as many
  obtain ⟨_, later, outcome, _⟩ := (parseExpression_eq_ok source settings).mp parsed
  obtain ⟨added, same, numbered⟩ :=
    (Rule.expr_traces (Rule.innerAt_traces settings.maxDepth)).numbered _ _ _ outcome
  rw [MarkerTrace.none_append] at same
  subst same
  obtain ⟨count, numbers⟩ := chain.numbers_tree
  rw [numbered.ordered.mp straight, many, numbers, List.length_range, List.range_eq_range']
  rfl

/-- Two signs, a comparison, two pipes that join strings, a parameter marker and a product. -/
def Chain.sample : Chain { pipesAsConcat := true, maxDepth := 14 } where
  first :=
    { leads := [⟨Sign.mark .bang, .not, rfl⟩, ⟨Sign.mark .minus, .negate, rfl⟩]
      inside := _
      atom := .column ⟨none, none, Ident.bare "a", Span.zero⟩
      read := .column ⟨rfl, by decide⟩ }
  links :=
    [⟨Sign.mark .equal, .equal, by decide,
        ⟨[], [⟨.integer 1, some "1"⟩], .literal (.integer 1) Span.zero, .constant (.token rfl)⟩⟩,
      ⟨Sign.mark .doublePipe, .concat, by decide,
        ⟨[], [Sign.mark .question], .placeholder 0 Span.zero, .marker rfl⟩⟩,
      ⟨Sign.mark .star, .multiply, by decide,
        ⟨[], [⟨.string "x" '\'', some "'x'"⟩], .literal (.string "x") Span.zero,
          .constant (.string (Sign.strings_single rfl) (by simp))⟩⟩]
  numbered := ⟨1, rfl⟩

/-- The comparison is split first, then the product. -/
theorem parseExpression_of_sample_chain :
    ∃ tree, parseExpression "!-a = 1 || ? * 'x'" { pipesAsConcat := true, maxDepth := 14 } =
        .ok tree ∧
      tree.eraseSpans =
        (Expr.binary
          (.unary .not (.unary .negate (.column ⟨none, none, Ident.bare "a", Span.zero⟩) Span.zero)
            Span.zero)
          .equal
          (.binary
            (.binary (.literal (.integer 1) Span.zero) .concat (.placeholder 0 Span.zero) Span.zero)
            .multiply (.literal (.string "x") Span.zero) Span.zero) Span.zero).eraseSpans := by
  obtain ⟨tokens, read, spells, some_⟩ := @exists_tokens "!-a = 1 || ? * 'x'" { pipesAsConcat := true, maxDepth := 14 }
    (fun tokens => tokens.dropLast.map (Token.sign "!-a = 1 || ? * 'x'".toList) =
      Chain.sample.signs ∧ tokens ≠ []) _ _ rfl (by decide +kernel)
  rw [← List.dropLast_append_getLast some_] at read
  obtain ⟨tree, parsed, same⟩ := parseExpression_of_chain Chain.sample read spells (by decide)
  refine ⟨tree, parsed, same.trans ?_⟩
  have split : ∀ front one marker text : Expr,
      splitTree front [(.equal, one), (.concat, marker), (.multiply, text)] =
        .ofOperands front .equal (.ofOperands (.ofOperands one .concat marker) .multiply text) := by
    intro front one marker text
    simp [splitTree, lastLowest?, BinaryOp.precedence]
  rw [show Chain.sample.tree = _ from split _ _ _ _, Expr.eraseSpans_eq, Expr.eraseSpans_eq]
  rfl

end SqlDml
