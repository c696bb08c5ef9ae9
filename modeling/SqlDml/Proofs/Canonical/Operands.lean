import SqlDml.Proofs.Canonical.Parsed
import SqlDml.Proofs.Canonical.Readable
import SqlDml.Proofs.Canonical.Texts
import SqlDml.Proofs.Extents.Alone
import SqlDml.Proofs.Shapes.Statements
import SqlDml.Proofs.Spelt.Statements

/-!
Contract: which expressions are read back from their canonical text.

Owns:
- how often the leftmost operand of an expression was extended, which reading never takes back;
- that a comparison with an operand that looks like a quantifier is read as something else;
- that every other expression of a source is read back, each of its operands where it stood.

Does not own: constants and identifiers that canonical text changes.
-/

namespace SqlDml

open Rule

variable {settings : Settings} {inner : InnerRules}

/-! ### Extensions of an operand -/

/-- How often the leftmost operand of an expression was extended by an operator behind it. -/
def Expr.extensions : Expr → Nat
  | .binary left _ _ _ | .is left _ _ _ | .quantified left _ _ _ _ | .between left _ _ _ _
  | .isIn left _ _ _ | .like left _ _ _ _ _ | .soundsLike left _ _ | .collate left _ _ =>
      left.extensions + 1
  | _ => 0

theorem Expr.extensions_of_front {tree left : Expr} (front : tree.front? = some left) :
    tree.extensions = left.extensions + 1 := by
  cases tree <;> first | (cases front; rfl) | cases front

theorem Expr.extensions_relabel (labels : Relabelling) :
    ∀ tree : Expr, (relabel labels tree).extensions = tree.extensions
  | .binary left _ _ _ | .is left _ _ _ | .quantified left _ _ _ _ | .between left _ _ _ _
  | .isIn left _ _ _ | .soundsLike left _ _ | .collate left _ _ =>
      congrArg (· + 1) (extensions_relabel labels left)
  | .like left pattern escape op negated span => by
      rw [relabel_like, extensions, extensions, extensions_relabel labels left]
  | .case operand whens otherwise span => by
      rw [relabel_case]
      rfl
  | .literal _ _ | .column _ | .placeholder _ _ | .default _ | .unary _ _ _ | .cast _ _ _
  | .call _ _ _ _ | .subquery _ _ | .exists _ _ | .row _ _ => rfl

theorem Expr.extensions_of_alike {tree copy : Expr} (alike : Alike .plain tree copy) :
    copy.extensions = tree.extensions := by
  rw [← copy.extensions_relabel Likeness.plain.right, ← alike.same, extensions_relabel]

/-- An operand that is extended any further has more extensions. -/
theorem Rule.extensions_of_repeats [inner.Lawful] {power : Nat} {left tree : Expr}
    {spot later : Spot} (repeats : Repeats (extendOperand inner power) left spot tree later) :
    tree = left ∨ left.extensions < tree.extensions := by
  induction repeats with
  | stop => exact .inl rfl
  | more extended _ inductionHypothesis =>
      have one := Expr.extensions_of_front ((extendOperand_extended _ _ _).on extended _ rfl)
      rcases inductionHypothesis with rfl | more
      · exact .inr (by omega)
      · exact .inr (by omega)

/-! ### Operands that are read as a quantifier -/

/-- An operand with parentheses around it, or which begins with one, has a parenthesis in front. -/
theorem Expr.opens_operand :
    ∀ {tree : Expr}, (tree.isCompound || tree.opensParen) = true → ∀ rest : List Sign,
      kindAt (tree.operandSigns settings ++ rest) 0 = .punct .leftParen
  | .subquery _ _, _, _ => rfl
  | .row items _, opens, rest => by
      have several : items.length ≠ 1 := by simpa [isCompound, opensParen] using opens
      rw [operandSigns_of_bare rfl, signs_row, if_neg several]
      rfl
  | .collate operand collation _, opens, rest => by
      have inside : (operand.isCompound || operand.opensParen) = true := opens
      rw [operandSigns_of_bare rfl, signs_collate, List.append_assoc]
      exact opens_operand inside _
  | .binary _ _ _ _, _, _ => rfl
  | .unary _ _ _, _, _ => rfl
  | .is _ _ _ _, _, _ => rfl
  | .quantified _ _ _ _ _, _, _ => rfl
  | .between _ _ _ _ _, _, _ => rfl
  | .isIn _ _ _ _, _, _ => rfl
  | .like _ _ _ _ _ _, _, _ => rfl
  | .soundsLike _ _ _, _, _ => rfl

/-- An expression that begins with a parenthesis has one in front. -/
theorem Expr.opens_signs {tree : Expr} (opens : tree.opensParen = true) (rest : List Sign) :
    kindAt (tree.signs settings ++ rest) 0 = .punct .leftParen := by
  have left : ∀ {operand : Expr} {behind : List Sign},
      (operand.isCompound || operand.opensParen) = true →
        kindAt (operand.operandSigns settings ++ behind ++ rest) 0 = .punct .leftParen := by
    intro operand behind opens
    rw [List.append_assoc]
    exact opens_operand opens _
  cases tree with
  | binary => exact signs_binary .. ▸ left opens
  | is => exact signs_is .. ▸ left opens
  | quantified => exact signs_quantified .. ▸ left opens
  | between => exact signs_between .. ▸ left opens
  | isIn => exact signs_isIn .. ▸ left opens
  | like => exact signs_like .. ▸ left opens
  | soundsLike => exact signs_soundsLike .. ▸ left opens
  | subquery | row | collate =>
      rw [← operandSigns_of_bare rfl]
      exact opens_operand ((Bool.or_eq_true ..).mpr (.inr opens)) rest
  | _ => cases opens

theorem Ident.quantifier?_isSome {name : Ident} (names : name.namesQuantifier = true) :
    (quantifier? (name.kind settings)).isSome = true := by
  unfold namesQuantifier at names
  rw [Bool.and_eq_true, Option.isNone_iff_eq_none] at names
  obtain ⟨unquoted, named⟩ := names
  unfold Ident.kind
  rw [unquoted]
  cases known : Keyword.ofWord? name.value.toList with
  | none => simpa [known] using named
  | some keyword => simpa [known] using named

/-- An operand that looks like a quantifier and a query begins so. -/
theorem Expr.quantifies_front :
    ∀ {tree : Expr}, tree.quantifies = true → ∀ rest : List Sign,
      (quantifier? (kindAt (tree.operandSigns settings ++ rest) 0)).isSome = true ∧
        kindAt (tree.operandSigns settings ++ rest) 1 = .punct .leftParen ∧
        (kindAt (tree.operandSigns settings ++ rest) 2).startsQuery = true
  | .call name (.list (first :: others)) false span, quantifies, rest => by
      have both : (name.namesQuantifier && first.opensParen) = true := quantifies
      obtain ⟨names, opens⟩ := (Bool.and_eq_true ..).mp both
      rw [operandSigns_of_bare rfl, signs_call, CallArgs.signs_list, listSigns, List.map_cons,
        Sign.commaList]
      simp only [Sign.parens, Sign.flag, Bool.false_eq_true, if_false, List.nil_append,
        List.cons_append, List.append_assoc, kindAt_zero, kindAt_succ]
      refine ⟨Ident.quantifier?_isSome names, rfl, ?_⟩
      rw [opens_signs opens]
      rfl
  | .collate operand collation span, quantifies, rest => by
      have inside : operand.quantifies = true := quantifies
      rw [operandSigns_of_bare rfl, signs_collate, List.append_assoc]
      exact quantifies_front inside _

def Expr.isQuantified : Expr → Bool
  | .quantified _ _ _ _ _ => true
  | _ => false

theorem Expr.isQuantified_relabel (labels : Relabelling) (tree : Expr) :
    (relabel labels tree).isQuantified = tree.isQuantified := by
  cases tree with
  | like operand pattern escape op negated span => rw [relabel_like]; rfl
  | case operand whens otherwise span => rw [relabel_case]; rfl
  | _ => rfl

theorem Expr.isQuantified_of_alike {tree copy : Expr} (alike : Alike .plain tree copy) :
    copy.isQuantified = tree.isQuantified := by
  rw [← copy.isQuantified_relabel Likeness.plain.right, ← alike.same, isQuantified_relabel]

namespace Rule

variable [inner.Lawful]

/-- In front of a quantifier and what looks like a query, a comparison reads the rows of a query. -/
theorem comparison_quantified {spot : Spot} {before : List Sign} {left : Expr} {op : BinaryOp}
    (front : spot.signs = before) (named : (quantifier? (kindAt before 0)).isSome = true)
    (opens : kindAt before 1 = .punct .leftParen) (follows : (kindAt before 2).startsQuery = true) :
    (comparison inner left op).Ensures spot fun tree _ => tree.isQuantified = true := by
  have seen : (subqueryFollows 1).Ensures spot fun found later => found = true ∧ later = spot := by
    unfold subqueryFollows
    refine .aheadIs (fun _ => .step (on_peekAhead spot 2) (.pure ⟨?_, rfl⟩)) fun other => ?_
    · rw [← spot.kindAt_signs, front, follows]
    · rw [← spot.kindAt_signs, front] at other
      exact absurd opens other
  unfold comparison
  refine .step (on_peek spot) ?_
  rw [spot.kind_eq_of_signs front]
  split
  · next none =>
      rw [none] at named
      cases named
  · next quantifier known =>
      refine seen.bind fun found later same => ?_
      obtain ⟨rfl, rfl⟩ := same
      have rows : (do
          let _ ← advance
          let _ ← expectMark .leftParen
          let query ← inner.query
          let stop ← expectMark .rightParen
          return Expr.quantified left op quantifier query (left.span.merge stop)).Yields
            fun tree => tree.isQuantified = true :=
        .skip fun _ => .skip fun _ => .skip fun _ => .skip fun _ => .pure rfl
      exact rows _

theorem extendOperand_quantified {spot : Spot} {before : List Sign} {sign : Sign} {left : Expr}
    {op : BinaryOp} (front : spot.signs = sign :: before)
    (spelled : sign.kind ∈ op.spellings spot.settings.pipesAsConcat)
    (compares : op.isComparison = true) (named : (quantifier? (kindAt before 0)).isSome = true)
    (opens : kindAt before 1 = .punct .leftParen) (follows : (kindAt before 2).startsQuery = true) :
    (extendOperand inner 0 left).Ensures spot fun found _ =>
      ∀ tree ∈ found, tree.isQuantified = true := by
  have continued := continuationAt_of_spelling spelled before
  have noCollate : spot.kind ≠ .keyword .COLLATE := by
    intro collates
    rw [← front, continuationAt, spot.kindAt_signs] at continued
    rw [Spot.kind] at collates
    rw [collates] at continued
    cases continued
  have width : op.continuation.width ≠ 2 := by simp [BinaryOp.continuation_width]
  have behind : (behindContinuation op.continuation spot).signs = before := by
    rw [behindContinuation, if_neg width, spot.next_signs, front, List.tail_cons]
  have comparison : op.continuation = .comparison op := if_pos compares
  refine .of_on fun found later outcome tree member => ?_
  rw [on_extendOperand, spot.continuation?_eq rfl front, if_neg noCollate, continued] at outcome
  dsimp only at outcome
  rw [if_pos (Nat.zero_le _), on_continueWith, Outcome.bind_eq_done] at outcome
  rw [comparison] at outcome behind
  obtain ⟨found, place, compared, rest⟩ := outcome
  cases rest
  cases member
  exact (comparison_quantified behind named opens follows).on compared

/-- A comparison with an operand that looks like a quantifier and a query is read as no tree like
it. -/
theorem misread_comparison {left right : Expr} {op : BinaryOp} {span : Span} {fits : Prop}
    (reads : left.InFront settings inner fits)
    (misleads : (Expr.binary left op right span).misleads = true) (rest : List Sign) :
    (operandBody inner 0).Meets settings.pipesAsConcat
      ((Expr.binary left op right span).signs settings ++ rest) fun outcome =>
        ∀ found later, outcome = .done found later →
          ¬ Alike .plain (Expr.binary left op right span) found := by
  have both : op.isComparison = true ∧ right.quantifies = true := by
    simpa [Expr.misleads] using misleads
  obtain ⟨compares, quantifies⟩ := both
  have known : op = .concat → settings.pipesAsConcat = true := by
    rintro rfl
    cases compares
  obtain ⟨sign, signs, spelled⟩ := BinaryOp.exists_sign known
  rw [Expr.signs_binary, signs]
  simp only [List.append_assoc, List.singleton_append]
  have begins := continuationAt_of_spelling spelled (right.operandSigns settings ++ rest)
  refine reads.meets (Nat.zero_le _) (behind_of_continuationAt begins).1
    (fun _ first alike spot setting front found later outcome same => ?_) (by simp)
  have count := Expr.extensions_of_alike alike
  have whole := Expr.extensions_of_alike same
  have more : (Expr.binary left op right span).extensions = left.extensions + 1 := rfl
  cases on_whileSome_eq_done.mp outcome with
  | stop => omega
  | @more _ next _ _ middle _ extended others =>
      -- what was extended once more than the left operand is the whole, and has the wrong form
      have once := Expr.extensions_of_front ((extendOperand_extended _ _ _).on extended _ rfl)
      rcases extensions_of_repeats others with rfl | further
      · obtain ⟨named, opens, follows⟩ := Expr.quantifies_front quantifies rest
        have form := (extendOperand_quantified front (setting ▸ spelled) compares named opens
          follows).on extended _ rfl
        cases form.symm.trans (Expr.isQuantified_of_alike same)
      · omega

end Rule

/-! ### Expressions of a source -/

/-- Every node of a source is legible, if its constants and labels are not changed by canonical
text. -/
theorem Node.OfSource.allLegible {source : String} {node : Node}
    (read : node.OfSource source settings) (ordinary : node.All (Node.Ordinary settings)) :
    node.AllLegible settings := by
  intro inner within
  cases read with
  | statement accepted below =>
      exact ⟨wellSpelt_of_parseStatement accepted inner (within.trans below),
        wellShaped_of_parseStatement accepted inner (within.trans below), ordinary inner within⟩
  | expression accepted below =>
      exact ⟨wellSpelt_of_parseExpression accepted inner (within.trans below),
        wellShaped_of_parseExpression accepted inner (within.trans below), ordinary inner within⟩

/-- With whatever limit, a text has the signs of its pieces. -/
theorem Piece.Written.signs_ofSource {pieces : List Piece} (written : Written settings pieces)
    (fits : (textOf pieces).utf8ByteSize ≤ maxSourceLength) (limit : Nat) :
    (TokenRun.ofSource (textOf pieces) (settings.withLimit limit)).error = none ∧
      (Spot.ofSource (textOf pieces) (settings.withLimit limit)).signs =
        signsOf settings pieces := by
  rw [textOf_eq, Text.utf8ByteSize_ofList] at fits
  obtain ⟨unfailed, signs⟩ := Lexed.signs_ofSource written.lexed fits
  rw [← textOf_eq] at unfailed signs
  refine ⟨(congrArg TokenRun.error (TokenRun.ofSource_withLimit ..)).trans unfailed, ?_⟩
  have ahead := (ParserState.twin_ofSource (textOf pieces) settings limit).ahead
  change (Spot.ofSource (textOf pieces) (settings.withLimit limit)).ahead = _ at ahead
  rw [← signs, Spot.signs, ahead]
  rfl

section

variable {tree : Expr}

/-- With whatever limit, the canonical text of an expression has its signs. -/
theorem Expr.signs_ofSource_render (all : (Node.expr tree).AllLegible settings)
    (fits : tree.render.utf8ByteSize ≤ maxSourceLength) (limit : Nat) :
    (TokenRun.ofSource tree.render (settings.withLimit limit)).error = none ∧
      (Spot.ofSource tree.render (settings.withLimit limit)).signs = tree.signs settings := by
  have written : Piece.Written settings tree.pieces := Node.isWritten all
  rw [← Expr.signsOf_pieces]
  exact written.signs_ofSource fits limit

/-- An expression without a misleading comparison is parsed from its canonical text if the limit leaves
the nesting levels that it takes and one for itself; else the parse meets the limit. -/
theorem Expr.parse_within (all : (Node.expr tree).AllLegible settings)
    (plain : (Node.expr tree).All Node.Unquantified)
    (fits : tree.render.utf8ByteSize ≤ maxSourceLength) (limit : Nat) :
    (tree.levels + 1 ≤ limit → ∃ found,
      parseExpression tree.render (settings.withLimit limit) = .ok found ∧ Alike .plain tree found) ∧
    (¬ tree.levels + 1 ≤ limit → ∃ bound position,
      parseExpression tree.render (settings.withLimit limit) =
        .error (.tooDeep bound position)) := by
  have read : tree.ReadWithin settings := Node.readWithin all plain
  obtain ⟨unfailed, signs⟩ := signs_ofSource_render all fits limit
  have whole := @(read.readBy all limit).alone [] rfl
  rw [List.append_nil] at whole
  exact parseExpression_of_signs unfailed (signs ▸ whole)

/-- A misleading comparison is not parsed from its canonical text. -/
theorem Expr.not_parse (all : (Node.expr tree).AllLegible settings)
    (below : ∀ child ∈ tree.children, child.All Node.Unquantified)
    (misleads : tree.misleads = true) (fits : tree.render.utf8ByteSize ≤ maxSourceLength)
    {limit : Nat} {found : Expr}
    (accepted : parseExpression tree.render (settings.withLimit limit) = .ok found) :
    ¬ Alike .plain tree found := by
  cases tree with
  | binary left op right span =>
      have inside : (Node.expr left).AllLegible settings := all.child (by simp)
      have read : left.ReadWithin settings := Node.readWithin inside (below _ (by simp))
      obtain ⟨_, later, outcome, _⟩ := (parseExpression_eq_ok _ _).mp accepted
      have entered : ((innerAt limit).operand 0).on _ = .done found later := outcome
      cases limit with
      | zero =>
          rw [operand_zero, on_tooDeep] at entered
          cases entered
      | succ levels =>
          obtain ⟨_, signs⟩ := signs_ofSource_render all fits (levels + 1)
          rw [operand_succ, on_enter] at entered
          exact misread_comparison (read.inFront inside levels) misleads [] _ rfl
            (signs.trans (List.append_nil _).symm) found later entered
  | _ => cases misleads

/-- An expression that misleads nowhere inside is parsed from its canonical text as the same tree, with
any limit above the number of tokens, if and only if it is no misleading comparison itself. -/
theorem Expr.parses_iff {source : String} (read : (Node.expr tree).OfSource source settings)
    (ordinary : (Node.expr tree).All (Node.Ordinary settings))
    (below : ∀ child ∈ tree.children, child.All Node.Unquantified)
    (fits : tree.render.utf8ByteSize ≤ maxSourceLength) :
    ∃ tokens stop, tokenize tree.render settings = .ok (tokens ++ [stop]) ∧
      ∀ limit, tokens.length < limit →
        ((∃ found, parseExpression tree.render (settings.withLimit limit) = .ok found ∧
          Alike .plain tree found) ↔ tree.misleads = false) := by
  have all := read.allLegible ordinary
  obtain ⟨unfailed, _⟩ := Expr.signs_ofSource_render all fits settings.maxDepth
  refine ⟨_, _, tokenize_of_ahead unfailed, fun limit few => ?_⟩
  have tokens := fun limit => (ParserState.twin_ofSource tree.render settings limit).ahead
  have same : ∀ {more}, limit ≤ more → parseExpression tree.render (settings.withLimit more) =
      parseExpression tree.render (settings.withLimit limit) :=
    parseExpression_of_few (lt_of_eq_of_lt (congrArg List.length (tokens limit)) few)
  constructor
  · rintro ⟨found, accepted, alike⟩
    cases misleads : tree.misleads with
    | false => rfl
    | true => exact absurd alike (Expr.not_parse all below misleads fits accepted)
  · intro plain
    obtain ⟨found, accepted, alike⟩ :=
      (Expr.parse_within all (Node.all_iff.mpr ⟨plain, below⟩) fits _).1 (le_max_left _ limit)
    exact ⟨found, (same (le_max_right _ _)).symm.trans accepted, alike⟩

/-- With any limit above the number of its tokens the canonical text of an expression is parsed as the
same tree, but for the spans and the numbers of the parameter markers: every operand, bare or in
parentheses, stands where it stood. -/
def Expr.ReadsBack (settings : Settings) (tree : Expr) : Prop :=
  ∃ tokens stop, tokenize tree.render settings = .ok (tokens ++ [stop]) ∧
    ∀ limit, tokens.length < limit →
      ∃ found, parseExpression tree.render (settings.withLimit limit) = .ok found ∧
        Alike .plain tree found

/-- Where a comparison misleads, there is one that misleads nowhere inside. -/
theorem Node.exists_innermost {node : Node} (quantified : ¬ node.All Node.Unquantified) :
    ∃ tree : Expr, (Node.expr tree).Within node ∧ tree.misleads = true ∧
      ∀ child ∈ tree.children, child.All Node.Unquantified := by
  induction node using Node.induction with
  | step node inductionHypothesis =>
      by_cases below : ∀ child ∈ node.children, child.All Node.Unquantified
      · rw [Node.all_iff, and_iff_left below] at quantified
        cases node with
        | expr tree => exact ⟨tree, .refl, by simpa [Node.Unquantified] using quantified, below⟩
        | _ => exact absurd trivial quantified
      · simp only [not_forall] at below
        obtain ⟨child, member, inside⟩ := below
        obtain ⟨tree, within, misleads, plain⟩ := inductionHypothesis child member inside
        exact ⟨tree, within.step member, misleads, plain⟩

/-- The operands of an expression of a source stay where they are, if canonical text does not change
its constants and labels.  An expression that misleads nowhere inside is read back if and only if it
is no misleading comparison: one with a bare operand that begins like a quantifier and a query, as a
call of `ANY` does in front of a query in parentheses.  So everything in a tree is read back from its
own text if and only if there is no such comparison in the tree. -/
theorem operands_stay_iff {source : String} (read : (Node.expr tree).OfSource source settings)
    (ordinary : (Node.expr tree).All (Node.Ordinary settings)) :
    (∀ inner : Expr, (Node.expr inner).Within (.expr tree) →
      inner.render.utf8ByteSize ≤ maxSourceLength →
      (∀ child ∈ inner.children, child.All Node.Unquantified) →
        ∃ tokens stop, tokenize inner.render settings = .ok (tokens ++ [stop]) ∧
          ∀ limit, tokens.length < limit →
            ((∃ found, parseExpression inner.render (settings.withLimit limit) = .ok found ∧
              Alike .plain inner found) ↔ inner.misleads = false)) ∧
    ((∀ inner : Expr, (Node.expr inner).Within (.expr tree) →
        inner.render.utf8ByteSize ≤ maxSourceLength) →
      ((∀ inner : Expr, (Node.expr inner).Within (.expr tree) → inner.ReadsBack settings) ↔
        ∀ inner : Expr, (Node.expr inner).Within (.expr tree) → inner.misleads = false)) := by
  have parses := fun (inner : Expr) (within : (Node.expr inner).Within (.expr tree)) fits below =>
    Expr.parses_iff (read.of_within within) (fun node inside => ordinary node (inside.trans within))
      below fits
  refine ⟨parses, fun fits => ⟨fun back => ?_, fun plain inner within => ?_⟩⟩
  · by_contra quantified
    have some_ : ¬ (Node.expr tree).All Node.Unquantified := by
      intro all
      exact quantified fun inner within => all (.expr inner) within
    obtain ⟨inner, within, misleads, below⟩ := Node.exists_innermost some_
    obtain ⟨tokens, stop, tokenized, exactly⟩ := parses inner within (fits inner within) below
    obtain ⟨tokens', stop', tokenized', readsBack⟩ := back inner within
    obtain rfl := (List.append_inj' (Except.ok.inj (tokenized.symm.trans tokenized')) rfl).1
    have free := (exactly _ (Nat.lt_succ_self _)).mp (readsBack _ (Nat.lt_succ_self _))
    cases misleads.symm.trans free
  · have all : (Node.expr inner).All Node.Unquantified := by
      intro node inside
      cases node with
      | expr found => exact plain found (inside.trans within)
      | _ => trivial
    obtain ⟨tokens, stop, tokenized, exactly⟩ :=
      parses inner within (fits inner within) (Node.all_iff.mp all).2
    exact ⟨tokens, stop, tokenized, fun limit few => (exactly limit few).mpr (plain inner within)⟩

end

/-! ### A quantifier by mistake -/

/-- Whether at a stop stands no constant but an integer, and no label. -/
def Visit.isPlain : Visit → Bool
  | .expr (.literal (.integer _) _) => true
  | .expr (.literal _ _) | .expr (.collate _ _ _) | .selectItem (.expr _ (some _) _) => false
  | _ => true

/-- Whether a misleading comparison stands at a stop. -/
def Visit.misleads : Visit → Bool
  | .expr tree => tree.misleads
  | _ => false

/-- Canonical text changes no node with plain stops only. -/
theorem Node.all_ordinary {node : Node} (plain : ∀ visit ∈ node.visits, visit.isPlain = true) :
    node.All (Node.Ordinary settings) := by
  intro inner within
  have own : ∀ visit ∈ inner.stops, visit.unnamed = true → visit.isPlain = true :=
    fun visit member kept => plain visit ((mem_visits_iff kept).mpr ⟨inner, within, member⟩)
  cases inner with
  | expr tree =>
      have here := own (.expr tree) List.mem_cons_self rfl
      cases tree with
      | literal value span =>
          cases value with
          | integer value => exact ⟨trivial, rfl⟩
          | _ => cases here
      | collate => cases here
      | _ => trivial
  | item item =>
      cases item with
      | expr value aliasName span =>
          have here := own (.selectItem (.expr value aliasName span)) List.mem_cons_self rfl
          cases aliasName with
          | none => exact fun ident found => by cases found
          | some ident => cases here
      | _ => trivial
  | _ => trivial

theorem Node.all_unquantified {node : Node}
    (plain : ∀ visit ∈ node.visits, visit.misleads = false) : node.All Node.Unquantified := by
  intro inner within
  cases inner with
  | expr tree =>
      exact plain (.expr tree) ((mem_visits_iff rfl).mpr ⟨_, within, List.mem_cons_self⟩)
  | _ => trivial

/-- A call of `ANY` in parentheses is written without them behind a comparison, and then it is no
call. -/
theorem quantifier_call_not_read_back :
    ∃ tree : Expr, parseExpression "a = (any((SELECT 1)))" {} = .ok tree ∧
      tree.render = "a = any((SELECT 1))" ∧
      ¬ ∃ found, parseExpression "a = any((SELECT 1))" {} = .ok found ∧
        Alike .plain tree found := by
  obtain ⟨tree, accepted, text, misleads, plain, others⟩ :=
    @exists_expr "a = (any((SELECT 1)))" {}
      (fun tree => tree.render = "a = any((SELECT 1))" ∧ tree.misleads = true ∧
        (∀ visit ∈ tree.visits, visit.isPlain = true) ∧
          ∀ visit ∈ tree.visits.tail, visit.misleads = false) _ _ rfl (by decide +kernel)
  have below : ∀ child ∈ tree.children, child.All Node.Unquantified := by
    cases tree with
    | binary left op right span =>
        have inside : ∀ visit ∈ left.visits ++ right.visits, visit.misleads = false := others
        rw [List.forall_mem_append] at inside
        simp only [Expr.children, List.forall_mem_cons]
        exact ⟨Node.all_unquantified inside.1, Node.all_unquantified inside.2, by simp⟩
    | _ => cases misleads
  obtain ⟨tokens, stop, tokenized, reads⟩ :=
    (operands_stay_iff (.expression accepted .refl) (Node.all_ordinary plain)).1 tree .refl
      (by rw [text]; decide) below
  have few : tokens.length < 64 := by
    obtain ⟨_, known, count⟩ := @exists_tokens "a = any((SELECT 1))" {}
      (fun tokens => tokens.length = 10) _ _ rfl (by decide +kernel)
    rw [text, known] at tokenized
    have length := congrArg List.length (Except.ok.inj tokenized)
    rw [count, List.length_append, List.length_singleton] at length
    omega
  refine ⟨tree, accepted, text, fun again => ?_⟩
  have iff := reads 64 few
  rw [text] at iff
  cases misleads.symm.trans (iff.mp again)

end SqlDml
