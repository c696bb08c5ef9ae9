import SqlDml.Proofs.Canonical.Operators
import SqlDml.Proofs.Canonical.Written

/-!
Contract: expressions that begin with their own token are read back from canonical text.

Owns:
- constants, columns, parameter markers and `DEFAULT`;
- cases, casts and the types that they name;
- calls, and the names that stand in front of arguments;
- queries in parentheses, and rows.

Does not own: operators.
-/

namespace SqlDml

open Rule

variable {settings : Settings} {inner : InnerRules} {rest : List Sign}

/-- What an operand would not take in can stand behind a name or a constant. -/
theorem TokenKind.behind_of_joinsOperand {kind : TokenKind} (apart : kind.joinsOperand = false) :
    kind.isString = false ∧ isIntroducible kind = false ∧ kind ≠ .punct .dot ∧
      kind ≠ .punct .leftParen := by
  cases kind with
  | string => cases apart
  | hex => cases apart
  | bit => cases apart
  | punct mark =>
      refine ⟨rfl, rfl, ?_, ?_⟩
      · rintro ⟨⟩
        cases apart
      · rintro ⟨⟩
        cases apart
  | _ => exact ⟨rfl, rfl, by simp, by simp⟩

theorem TokenKind.not_startsQuery_of_constant {kind : TokenKind}
    (begins : kind.beginsConstant = true) : kind.startsQuery = false := by
  unfold startsQuery
  split <;> first | rfl | cases begins

/-! ### Types -/

namespace Rule.Takes

variable {concat : Bool}

/-- The words of a type, up to where no further one follows. -/
theorem typeWords (ends : typeWord? (kindAt rest 0) = none) {words : List String}
    (all : ∀ word ∈ words, IsTypeWord word) (found : List String) :
    (whileSome nextTypeWord found).Takes concat (words.map Piece.wordSign ++ rest) rest
      (words.reverse ++ found) := by
  induction words generalizing found with
  | nil =>
      refine .whileSome_stop ?_ (.plain_self _)
      unfold nextTypeWord
      refine .peek ?_
      rw [List.map_nil, List.nil_append, ends]
      exact .pure
  | cons word words inductionHypothesis =>
      rw [List.forall_mem_cons] at all
      have more : (nextTypeWord found).Takes concat
          (Piece.wordSign word :: (words.map Piece.wordSign ++ rest))
          (words.map Piece.wordSign ++ rest) (some (word :: found)) := by
        unfold nextTypeWord
        refine .peek ?_
        rw [kindAt_zero, Piece.wordSign, all.1.2]
        exact .advance fun _ _ => .pure
      rw [List.reverse_cons, List.append_assoc, List.singleton_append]
      exact whileSome_more more fun next same => same.eq ▸ inductionHypothesis all.2 _

theorem typeSize {value : Nat} {text : Option String} (small : value < 4294967296) :
    Rule.typeSize.Takes concat (⟨.integer value, text⟩ :: rest) rest value := by
  unfold Rule.typeSize
  refine .peek ?_
  rw [kindAt_zero]
  dsimp only
  rw [if_pos small]
  exact .advance fun _ _ => .pure

/-- A type is its words, and the sizes behind them. -/
theorem typeName_of_sizes {words : List String} {sizes : List Sign} {length scale : Option Nat}
    (nonempty : words ≠ []) (all : ∀ word ∈ words, IsTypeWord word)
    (ends : typeWord? (kindAt sizes 0) = none)
    (read : typeSizes.Takes concat sizes rest (length, scale)) :
    Rule.typeName.Takes concat (words.map Piece.wordSign ++ sizes) rest
      ⟨" ".intercalate words, length, scale⟩ := by
  rw [typeName_eq]
  refine (typeWords ends all []).step ?_
  rw [List.append_nil, if_neg (by simpa using nonempty), List.reverse_reverse]
  exact read.step .pure

theorem typeName {target : TypeName} (spelt : target.Spelt) (shaped : target.Shaped)
    (noWord : typeWord? (kindAt rest 0) = none) (noParen : kindAt rest 0 ≠ .punct .leftParen) :
    Rule.typeName.Takes concat (target.signs settings ++ rest) rest target := by
  obtain ⟨name, length, scale⟩ := target
  obtain ⟨⟨words, nonempty, all, rfl⟩, short, exact⟩ := spelt
  have named : ∀ pieces, Piece.signsOf settings (.verbatim (" ".intercalate words) :: pieces) =
      words.map Piece.wordSign ++ Piece.signsOf settings pieces := by
    intro pieces
    rw [← Piece.signs_words nonempty fun word member => (all word member).1]
    rfl
  have number : ∀ value : Nat, value < 4294967296 → ∀ pieces,
      Piece.signsOf settings (.verbatim (toString value) :: pieces) =
        ⟨.integer value, some (toString value)⟩ :: Piece.signsOf settings pieces := by
    intro value small pieces
    have alone : (Piece.verbatim (toString value)).signs settings =
        [⟨.integer value, some (toString value)⟩] :=
      Piece.signs_number (numeral_integer (by omega) (by simp [EndsToken]))
    rw [Piece.signsOf, List.flatMap_cons, alone]
    rfl
  unfold TypeName.signs TypeName.pieces
  rw [named, List.append_assoc]
  cases length with
  | none =>
      cases scale with
      | some scale => exact absurd (shaped rfl) (by simp)
      | none =>
          refine typeName_of_sizes nonempty all noWord ?_
          unfold typeSizes
          exact .eat_none noParen .pure
  | some length =>
      have small : length < 4294967296 := short length rfl
      cases scale with
      | none =>
          simp only [Piece.signsOf_parens, number length small, Sign.parens, Piece.signsOf_nil,
            List.cons_append, List.nil_append]
          refine typeName_of_sizes nonempty all rfl ?_
          unfold typeSizes
          refine .eat rfl ?_
          rw [if_pos rfl]
          refine (typeSize small).step (.eat_none (by simp) ?_)
          exact .expect rfl fun _ => .pure
      | some scale =>
          have smaller : scale < 4294967296 := exact scale rfl
          simp only [Piece.signsOf_parens, Piece.comma, number length small, number scale smaller,
            Sign.parens, Piece.signsOf_mark, Piece.signsOf_blank, Piece.signsOf_nil,
            List.cons_append, List.nil_append]
          refine typeName_of_sizes nonempty all rfl ?_
          unfold typeSizes
          refine .eat rfl ?_
          rw [if_pos rfl]
          refine (typeSize small).step (.eat rfl ?_)
          rw [if_pos rfl]
          have second : (some <$> Rule.typeSize).Takes concat
              (⟨.integer scale, some (toString scale)⟩ :: Sign.mark .rightParen :: rest)
              (Sign.mark .rightParen :: rest) (some scale) :=
            (typeSize smaller).map fun value same => inferInstance
          exact second.step (.expect rfl fun _ => .pure)

end Rule.Takes

/-! ### Parts of cases -/

/-- What stands behind the subject of a case. -/
def Rule.caseBehind (inner : InnerRules) (start : Span) (subject : Option Expr) : Rule Expr := do
  let whens ← whenBranches inner
  if whens.isEmpty then
    fail [Keyword.WHEN.spelling]
  else
    let otherwise ← if ← eatWord .ELSE then some <$> inner.expr else pure none
    let stop ← expectWord .END
    return .case subject whens otherwise (start.merge stop)

theorem Rule.caseExpr_eq (inner : InnerRules) :
    caseExpr inner = (expectWord .CASE >>= fun start => nextIsWord .WHEN >>= fun bare =>
      if bare then caseBehind inner start none
      else some <$> inner.expr >>= caseBehind inner start) := rfl

namespace Expr.Reads

variable {span : Span} {fits : Prop}

/-! ### Single tokens and names -/

section

variable [inner.Lawful]

theorem literal {value : Literal} (spelt : value.Spelt) (ordinary : value.Ordinary settings) :
    (Expr.literal value span).Reads settings inner True := by
  have read : value.ReadFrom settings (value.signs settings) := by
    have reread := Literal.readFrom_signs spelt ordinary.1
    rwa [ordinary.2] at reread
  refine of_token (fun apart => ?_) fun rest => ?_
  · obtain ⟨noString, _, _, noParen⟩ := TokenKind.behind_of_joinsOperand apart
    exact (Takes.constant inner read noString noParen).congr inferInstance
  · exact TokenKind.not_startsQuery_of_constant (beginsConstant_of_readFrom read rest)

theorem column {ref : ColumnRef} (named : ref.Named settings) :
    (Expr.column ref).Reads settings inner True := by
  refine of_token (fun apart => ?_) fun rest => ?_
  · obtain ⟨_, noValue, noDot, noParen⟩ := TokenKind.behind_of_joinsOperand apart
    exact Takes.column inner named noDot noValue noParen
  · obtain ⟨first, plain, front, _⟩ := Takes.begins_column named rest
    have isName := plain.isName
    rw [signs_column, front]
    cases kind : first.kind settings with
    | keyword keyword =>
        rw [kind] at isName
        cases keyword <;> first | rfl | cases isName
    | punct mark =>
        rw [kind] at isName
        cases isName
    | _ => rfl

theorem placeholder {number : Nat} :
    (Expr.placeholder number span).Reads settings inner True := by
  refine of_token (fun _ => ?_) fun _ => rfl
  unfold primaryExpr
  refine .peek ?_
  change Rule.placeholder.Takes _ (Sign.mark .question :: _) _ _
  unfold Rule.placeholder
  exact .advance fun token _ => .nextPlaceholder fun number => .pure

theorem default : (Expr.default span).Reads settings inner True := by
  refine of_token (fun apart => ?_) fun _ => rfl
  obtain ⟨_, _, _, noParen⟩ := TokenKind.behind_of_joinsOperand apart
  unfold primaryExpr
  refine .peek ?_
  change (defaultExpr inner).Takes _ (Sign.word .DEFAULT :: _) _ _
  unfold defaultExpr
  refine .aheadIs_other noParen ?_
  exact .advance fun token _ => .pure

end

/-! ### Cases and casts -/

/-- Behind a branch of a case stands another one, or what ends the case. -/
theorem takes_whens [inner.Lawful] {whens : List (Expr × Expr)} {each : Expr → Prop}
    (reads : ∀ branch ∈ whens, branch.1.ReadBy settings inner (each branch.1) ∧
      branch.2.ReadBy settings inner (each branch.2))
    (ends : kindAt rest 0 = .keyword .ELSE ∨ kindAt rest 0 = .keyword .END)
    {before found : List (Expr × Expr)} (alike : Alike .plain before found) :
    (whileSome (nextWhen inner) found).TakesIf (∀ branch ∈ whens, each branch.1 ∧ each branch.2)
      settings.pipesAsConcat (whens.flatMap (branchSigns settings) ++ rest) rest
      (whens.reverse ++ before) := by
  have last : kindAt rest 0 ≠ .keyword .WHEN ∧ (kindAt rest 0).endsExpr = true := by
    rcases ends with kind | kind <;> simp [kind, TokenKind.endsExpr]
  induction whens generalizing before found with
  | nil =>
      refine TakesIf.of_iff (.whileSome_stop ?_ alike) (by simp)
      exact .eat_none last.1 .pure
  | cons branch whens inductionHypothesis =>
      obtain ⟨condition, result⟩ := branch
      rw [List.forall_mem_cons] at reads
      have behind : (kindAt (whens.flatMap (branchSigns settings) ++ rest) 0).endsExpr = true := by
        cases whens with
        | nil => exact last.2
        | cons next whens => rfl
      have more : (nextWhen inner found).TakesIf (each condition ∧ each result)
          settings.pipesAsConcat
          (branchSigns settings (condition, result) ++ (whens.flatMap (branchSigns settings) ++ rest))
          (whens.flatMap (branchSigns settings) ++ rest) (some ((condition, result) :: before)) := by
        simp only [branchSigns, List.cons_append, List.append_assoc]
        unfold nextWhen
        refine .eat rfl ((reads.1.1.alone rfl).bind fun test _ => .expect rfl fun _ => ?_)
        exact (reads.1.2.alone behind).bind_takes fun value _ => .pure
      rw [List.flatMap_cons, List.append_assoc, List.reverse_cons, List.append_assoc,
        List.singleton_append]
      exact (TakesIf.whileSome_more more fun next same => inductionHypothesis reads.2 same).of_iff
        (by simp)

/-- The branches of a case and what ends it. -/
theorem takes_caseBehind [inner.Lawful] {subject subject' otherwise : Option Expr}
    {whens : List (Expr × Expr)} {each : Expr → Prop} {start : Span} (nonempty : whens ≠ [])
    (branchRead : ∀ branch ∈ whens, branch.1.ReadBy settings inner (each branch.1) ∧
      branch.2.ReadBy settings inner (each branch.2))
    (otherwiseRead : ∀ tree ∈ otherwise, tree.ReadBy settings inner (each tree))
    (alike : Alike .plain subject subject') :
    (caseBehind inner start subject').TakesIf
      ((∀ branch ∈ whens, each branch.1 ∧ each branch.2) ∧ ∀ tree ∈ otherwise, each tree)
      settings.pipesAsConcat
      (whens.flatMap (branchSigns settings) ++
        (optionalSigns settings [Sign.word .ELSE] otherwise ++ Sign.word .END :: rest)) rest
      (.case subject whens otherwise span) := by
  have ends : kindAt (optionalSigns settings [Sign.word .ELSE] otherwise ++ Sign.word .END :: rest) 0
      = .keyword .ELSE ∨
      kindAt (optionalSigns settings [Sign.word .ELSE] otherwise ++ Sign.word .END :: rest) 0 =
        .keyword .END := by
    cases otherwise with
    | none => exact .inr rfl
    | some tree => exact .inl rfl
  have branches : (whenBranches inner).TakesIf (∀ branch ∈ whens, each branch.1 ∧ each branch.2)
      settings.pipesAsConcat
      (whens.flatMap (branchSigns settings) ++
        (optionalSigns settings [Sign.word .ELSE] otherwise ++ Sign.word .END :: rest))
      (optionalSigns settings [Sign.word .ELSE] otherwise ++ Sign.word .END :: rest) whens := by
    rw [whenBranches_eq]
    refine (takes_whens branchRead ends (.plain_self [])).bind_takes fun found same => ?_
    have alike : Alike .plain whens found.reverse := .of_reverse same
    exact .pure
  unfold caseBehind
  refine branches.bind fun found same => ?_
  rw [← same.isEmpty_eq, if_neg (by simpa using nonempty)]
  cases otherwise with
  | none =>
      exact TakesIf.of_iff (.eat_none (by simp [optionalSigns]) (.expect rfl fun stop => .pure))
        (by simp)
  | some tree =>
      have one : each tree ↔ ∀ found ∈ some tree, each found := by simp
      have read : (some <$> inner.expr).TakesIf (each tree) settings.pipesAsConcat
          (tree.signs settings ++ Sign.word .END :: rest) (Sign.word .END :: rest) (some tree) :=
        ((otherwiseRead tree rfl).alone rfl).map fun value _ => inferInstance
      simp only [optionalSigns, List.cons_append, List.nil_append]
      refine TakesIf.of_iff (.eat rfl (read.bind_takes fun value _ => ?_)) one
      exact .expect rfl fun stop => .pure

theorem case [inner.Lawful] {subject otherwise : Option Expr} {whens : List (Expr × Expr)}
    {each : Expr → Prop} (nonempty : whens ≠ [])
    (subjectRead : ∀ tree ∈ subject, tree.ReadBy settings inner (each tree))
    (branchRead : ∀ branch ∈ whens, branch.1.ReadBy settings inner (each branch.1) ∧
      branch.2.ReadBy settings inner (each branch.2))
    (otherwiseRead : ∀ tree ∈ otherwise, tree.ReadBy settings inner (each tree)) :
    (Expr.case subject whens otherwise span).Reads settings inner
      ((∀ tree ∈ subject, each tree) ∧ (∀ branch ∈ whens, each branch.1 ∧ each branch.2) ∧
        ∀ tree ∈ otherwise, each tree) := by
  refine of_token (fun {rest} _ => ?_) fun rest => ?_
  · rw [signs_case]
    simp only [List.cons_append, List.append_assoc, List.nil_append]
    unfold primaryExpr
    refine .peek ?_
    rw [kindAt_zero, Sign.word_kind]
    dsimp only
    rw [caseExpr_eq]
    refine .expect rfl fun start => .nextIs _ ?_
    cases subject with
    | none =>
        have bare : kindAt (whens.flatMap (branchSigns settings) ++
            (optionalSigns settings [Sign.word .ELSE] otherwise ++ Sign.word .END :: rest)) 0 =
              .keyword .WHEN := by
          cases whens with
          | nil => exact absurd rfl nonempty
          | cons branch whens => rfl
        rw [optionalSigns, List.nil_append, if_pos (by simpa using bare)]
        exact (takes_caseBehind nonempty branchRead otherwiseRead .none).of_iff (by simp)
    | some tree =>
        have read := subjectRead tree rfl
        have begins := read.begins (whens.flatMap (branchSigns settings) ++
            (optionalSigns settings [Sign.word .ELSE] otherwise ++ Sign.word .END :: rest))
        rw [optionalSigns, List.nil_append,
          if_neg (by simpa using ne_of_holds begins rfl)]
        have one : each tree ↔ ∀ found ∈ some tree, each found := by simp
        have alone : (some <$> inner.expr).TakesIf (∀ found ∈ some tree, each found)
            settings.pipesAsConcat (tree.signs settings ++ (whens.flatMap (branchSigns settings) ++
              (optionalSigns settings [Sign.word .ELSE] otherwise ++ Sign.word .END :: rest)))
            (whens.flatMap (branchSigns settings) ++
              (optionalSigns settings [Sign.word .ELSE] otherwise ++ Sign.word .END :: rest))
            (some tree) := by
          refine ((read.alone ?_).map fun value _ => inferInstance).of_iff one
          cases whens with
          | nil => exact absurd rfl nonempty
          | cons branch whens => rfl
        exact alone.bind fun value alike =>
          takes_caseBehind nonempty branchRead otherwiseRead alike
  · rw [signs_case]
    rfl

theorem cast [inner.Lawful] {operand : Expr} {target : TypeName} (spelt : target.Spelt)
    (shaped : target.Shaped) (read : operand.ReadBy settings inner fits) :
    (Expr.cast operand target span).Reads settings inner fits := by
  refine of_token (fun {rest} _ => ?_) fun rest => ?_
  · rw [signs_cast]
    simp only [Sign.parens, List.cons_append, List.append_assoc]
    unfold primaryExpr
    refine .peek ?_
    unfold castExpr
    refine .expect rfl fun start => .expect rfl fun _ => (read.alone rfl).bind_takes fun value _ => ?_
    refine .expect rfl fun _ => (Takes.typeName spelt shaped rfl (by simp)).step ?_
    exact .expect rfl fun stop => .pure
  · rw [signs_cast]
    rfl

/-! ### Queries in parentheses -/

theorem existsRows [inner.Lawful] {query : Query} (read : query.ReadBy settings inner fits) :
    (Expr.exists query span).Reads settings inner fits := by
  refine of_token (fun {rest} _ => ?_) fun rest => ?_
  · rw [signs_exists]
    simp only [Sign.parens, List.cons_append, List.append_assoc]
    unfold primaryExpr
    refine .peek ?_
    unfold existsExpr
    refine .advance fun start _ => .expect rfl fun _ => (read rfl .rightParen).bind_takes fun value _ => ?_
    exact .expect rfl fun stop => .pure
  · rw [signs_exists]
    rfl

/-- A query in parentheses is a query of its own, up to what does not go on with it. -/
theorem takes_nested [inner.Lawful] {query : Query} (read : query.ReadBy settings inner fits)
    (interrupts : (kindAt rest 0).interruptsQuery = true) :
    (wholeQuery inner).TakesIf fits settings.pipesAsConcat
      (Sign.parens (query.signs settings) ++ rest) rest
      ⟨none, ⟨.nested query, [], Span.zero⟩, [], none, none, Span.zero⟩ := by
  have opened : Sign.parens (query.signs settings) ++ rest =
      Sign.mark .leftParen :: (query.signs settings ++ Sign.mark .rightParen :: rest) := by
    simp [Sign.parens]
  have term : (queryTerm inner).TakesIf fits settings.pipesAsConcat
      (Sign.parens (query.signs settings) ++ rest) rest (.nested query) := by
    rw [opened]
    unfold queryTerm
    refine .peek (.advance fun _ _ => (read rfl .rightParen).bind_takes fun found alike => ?_)
    exact .expect rfl fun _ => .pure
  have body : (queryBody inner).TakesIf fits settings.pipesAsConcat
      (Sign.parens (query.signs settings) ++ rest) rest ⟨.nested query, [], Span.zero⟩ := by
    rw [queryBody_eq]
    refine .currentSpan fun start => term.bind_takes fun found alike => ?_
    have none : (nextCompound inner []).Takes settings.pipesAsConcat rest rest none :=
      .eat_none (ne_of_holds interrupts rfl) .pure
    refine Takes.bind (.whileSome_stop none (.plain_self _)) fun compounds same => ?_
    have alike : Alike .plain [] compounds.reverse := .of_reverse same
    exact .previousSpan fun stop => .pure
  have ordered : (orderByClause inner).Takes settings.pipesAsConcat rest rest [] :=
    .eat_none (ne_of_holds interrupts rfl) .pure
  have limited : (limitClause true).Takes settings.pipesAsConcat rest rest none := by
    unfold limitClause
    refine .nextIs_other (ne_of_holds interrupts rfl) ?_
    exact .pure
  have locked : lockingClause.Takes settings.pipesAsConcat rest rest none :=
    .currentSpan fun start =>
      .eat_none (ne_of_holds interrupts rfl) (.eat_none (ne_of_holds interrupts rfl) .pure)
  unfold wholeQuery
  refine .currentSpan fun start => (takes_withClause_none (by simp [opened])).bind fun clause _ => ?_
  refine body.bind_takes fun found alike => ordered.bind fun terms _ => limited.bind fun limit _ => ?_
  exact locked.bind fun locking _ => .previousSpan fun stop => .pure

/-- What begins with a query in parentheses is read as that query only where it is closed. -/
theorem unclosed_nested [inner.Lawful] {query : Query} (read : query.ReadBy settings inner fits)
    (interrupts : (kindAt rest 0).interruptsQuery = true) :
    (wholeQuery inner).UnclosedIf fits settings.pipesAsConcat
      (Sign.parens (query.signs settings) ++ rest) :=
  .of_takes (takes_nested read interrupts) (ne_of_holds interrupts rfl)

theorem subquery [inner.Lawful] {query : Query} (read : query.ReadBy settings inner fits) :
    (Expr.subquery query span).Reads settings inner fits := by
  have alone : ∀ rest, (Rule.subquery inner).TakesIf fits settings.pipesAsConcat
      (Sign.mark .leftParen :: (query.signs settings ++ Sign.mark .rightParen :: rest)) rest
      (.subquery query span) := by
    intro rest
    have inParens : (queryInParens inner).TakesIf fits settings.pipesAsConcat
        (Sign.mark .leftParen :: (query.signs settings ++ Sign.mark .rightParen :: rest)) rest
        (query, Span.zero) := by
      unfold queryInParens
      refine .expect rfl fun start => (read rfl .rightParen).bind_takes fun found _ => ?_
      exact .expect rfl fun stop => .pure
    unfold Rule.subquery
    refine inParens.bind_takes fun both same => ?_
    obtain ⟨found, place⟩ := both
    have alike : Alike .plain (query, Span.zero).1 (found, place).1 := .fst
    have alike : Alike .plain query found := alike
    exact .pure
  refine of_primary (fun {rest} _ => ?_) fun interrupts => ?_
  · rw [signs_subquery]
    simp only [Sign.parens, List.cons_append, List.append_assoc, List.nil_append]
    have begins : (kindAt (query.signs settings ++ Sign.mark .rightParen :: rest) 0).startsQuery =
        true := query.begins_signs _
    unfold primaryExpr
    refine .peek ?_
    rw [kindAt_zero, Sign.mark_kind]
    dsimp only
    unfold parenExpr
    refine .peekAhead 1 ?_
    rw [kindAt_succ]
    split
    · exact alone rest
    · exact alone rest
    · exact (alone rest).attempted.bind_takes (forall_alike_some fun value alike => .pure)
    · next noSelect noWith noParen =>
        unfold TokenKind.startsQuery at begins
        split at begins
        · next word => exact absurd word noSelect
        · next word => exact absurd word noWith
        · next mark => exact absurd mark noParen
        · cases begins
  · rw [signs_subquery]
    exact unclosed_nested read (interrupts rfl)

/-! ### Rows -/

/-- Several expressions in parentheses are a row. -/
theorem takes_several [inner.Lawful] {items : List Expr} {each : Expr → Prop}
    (reads : ∀ item ∈ items, item.ReadBy settings inner (each item)) (several : items.length ≠ 1)
    (nonempty : items ≠ []) :
    (exprInParens inner).TakesIf (∀ item ∈ items, each item) settings.pipesAsConcat
      (Sign.mark .leftParen :: (listSigns settings items ++ Sign.mark .rightParen :: rest)) rest
      (.row items span) := by
  cases items with
  | nil => exact absurd rfl nonempty
  | cons first others =>
      rw [List.forall_mem_cons] at reads
      cases others with
      | nil => exact absurd rfl several
      | cons next others =>
          have split : listSigns settings (first :: next :: others) ++ Sign.mark .rightParen :: rest =
              first.signs settings ++ (Sign.mark .comma ::
                (listSigns settings (next :: others) ++ Sign.mark .rightParen :: rest)) := by
            simp [listSigns, Sign.commaList, Sign.behindCommas]
          rw [split]
          unfold exprInParens
          refine TakesIf.of_iff ?_ List.forall_mem_cons.symm
          refine .expect rfl fun start => (reads.1.alone rfl).bind fun value _ => .eat rfl ?_
          exact (TakesIf.exprs (List.cons_ne_nil _ _) reads.2 rfl (by simp)).bind_takes
            fun values _ => .expect rfl fun stop => .pure

theorem row [inner.Lawful] {items : List Expr} {each : Expr → Prop} (nonempty : items ≠ [])
    (reads : ∀ item ∈ items, item.ReadBy settings inner (each item)) :
    (Expr.row items span).Reads settings inner (∀ item ∈ items, each item) := by
  have opened : ∀ rest, Sign.parens (listSigns settings items) ++ rest = Sign.mark .leftParen ::
      (listSigns settings items ++ Sign.mark .rightParen :: rest) := by
    intro rest
    simp [Sign.parens]
  by_cases single : items.length = 1
  · refine of_token (fun {rest} _ => ?_) fun rest => ?_
    · rw [signs_row, if_pos single, List.append_assoc, opened]
      unfold primaryExpr
      refine .peek (.aheadIs 1 _ ?_)
      rw [if_pos (by simp)]
      unfold rowExpr
      refine .advance fun start _ => .expect rfl fun _ => ?_
      exact (TakesIf.exprs nonempty reads rfl (by simp)).bind_takes fun values _ =>
        .expect rfl fun stop => .pure
    · rw [signs_row, if_pos single]
      rfl
  · have alone : ∀ item, items = [item] → item.isSubquery = false := by
      rintro item rfl
      exact absurd rfl single
    refine of_primary (fun {rest} _ => ?_) fun {rest} _ => ?_
    · rw [signs_row, if_neg single, List.nil_append, opened]
      have begins := begins_listSigns nonempty reads (Sign.mark .rightParen :: rest)
      have several : (exprInParens inner).TakesIf (∀ item ∈ items, each item) settings.pipesAsConcat
          (Sign.mark .leftParen :: (listSigns settings items ++ Sign.mark .rightParen :: rest)) rest
          (.row items span) :=
        takes_several reads single nonempty
      unfold primaryExpr
      refine .peek ?_
      rw [kindAt_zero, Sign.mark_kind]
      dsimp only
      unfold parenExpr
      refine .peekAhead 1 ?_
      rw [kindAt_succ]
      split
      · next word =>
          rw [word] at begins
          cases begins
      · next word =>
          rw [word] at begins
          cases begins
      · exact .attempt_none (misses_subquery rfl (unclosed_listSigns nonempty reads alone)) several
      · exact several
    · rw [signs_row, if_neg single, List.nil_append, opened]
      exact unclosed_of_parens rfl (unclosed_listSigns nonempty reads alone)

/-! ### Calls -/

/-- The arguments of a call in their parentheses. -/
theorem takes_callArguments [inner.Lawful] {name function : Ident} {args : CallArgs}
    {distinct : Bool} {each : Expr → Prop} (shaped : args.Shaped distinct)
    (reads : ∀ items, args = .list items → ∀ item ∈ items, item.ReadBy settings inner (each item))
    (alike : Alike .plain name function) :
    (callArguments inner function).TakesIf (∀ items, args = .list items → ∀ item ∈ items, each item)
      settings.pipesAsConcat
      (Sign.parens (Sign.flag distinct .DISTINCT ++ args.signs settings) ++ rest) rest
      (.call name args distinct span) := by
  simp only [Sign.parens, List.cons_append, List.append_assoc, List.nil_append]
  unfold callArguments
  refine .expect rfl fun _ => ?_
  cases args with
  | star =>
      cases distinct with
      | true =>
          obtain ⟨items, _, same⟩ := shaped rfl
          cases same
      | false => exact TakesIf.of_iff (.eat rfl (.expect rfl fun stop => .pure)) (by simp)
  | list items =>
      have reads := reads items rfl
      have those : (∀ item ∈ items, each item) ↔
          ∀ found, CallArgs.list items = .list found → ∀ item ∈ found, each item := by simp
      refine TakesIf.of_iff ?_ those
      rw [CallArgs.signs_list]
      by_cases nonempty : items = []
      · subst nonempty
        cases distinct with
        | true =>
            obtain ⟨items, filled, same⟩ := shaped rfl
            cases same
            exact absurd rfl filled
        | false =>
            have all : True ↔ ∀ item ∈ ([] : List Expr), each item := by simp
            refine TakesIf.of_iff ?_ all
            refine .eat_none (by simp [Sign.flag, Expr.listSigns, Sign.commaList]) ?_
            refine .eat_none (by simp [Sign.flag, Expr.listSigns, Sign.commaList]) ?_
            exact .nextIs _ (.expect rfl fun stop => .pure)
      · have begins := begins_listSigns nonempty reads (Sign.mark .rightParen :: rest)
        have listed : (exprs inner).TakesIf (∀ item ∈ items, each item) settings.pipesAsConcat
            (Expr.listSigns settings items ++ Sign.mark .rightParen :: rest)
            (Sign.mark .rightParen :: rest) items := .exprs nonempty reads rfl (by simp)
        cases distinct with
        | true =>
            refine .eat_none (by simp [Sign.flag]) (.eat rfl ?_)
            exact listed.bind_takes fun values _ => .expect rfl fun stop => .pure
        | false =>
            refine .eat_none (ne_of_holds begins rfl) (.eat_none (ne_of_holds begins rfl) ?_)
            refine .nextIs _ ?_
            dsimp only
            rw [if_neg (by simpa [Sign.flag] using ne_of_holds begins rfl)]
            exact listed.bind_takes fun values _ => .expect rfl fun stop => .pure

/-- The parentheses of a call with arguments do not close at once. -/
theorem arguments_ne_closed {args : CallArgs} {distinct : Bool} {each : Expr → Prop}
    (filled : args ≠ .list [])
    (reads : ∀ items, args = .list items → ∀ item ∈ items, item.ReadBy settings inner (each item)) :
    kindAt (Sign.flag distinct .DISTINCT ++ args.signs settings ++ rest) 0 ≠
      .punct .rightParen := by
  cases distinct with
  | true => simp [Sign.flag]
  | false =>
      cases args with
      | star => simp [Sign.flag, CallArgs.signs_star]
      | list items =>
          have nonempty : items ≠ [] := fun none => filled (by rw [none])
          rw [CallArgs.signs_list]
          exact ne_of_holds (begins_listSigns nonempty (reads items rfl) rest) rfl

/-- A name that is no built-in function is a plain one. -/
theorem plain_of_callName {name : Ident} (named : name.Named settings Keyword.isCallName)
    (nonreserved : ∀ keyword, name.kind settings = .keyword keyword →
      keyword.isNonreserved = true) : name.Plain settings := by
  unfold Ident.Plain Ident.Named at *
  cases quoted : name.quote with
  | some quote =>
      rw [quoted] at named
      exact named
  | none =>
      rw [quoted] at named
      refine ⟨named.1, fun keyword known => nonreserved keyword ?_⟩
      unfold Ident.kind
      rw [quoted]
      simp [known]

theorem call [inner.Lawful] {name : Ident} {args : CallArgs} {distinct : Bool} {each : Expr → Prop}
    (named : name.Named settings Keyword.isCallName) (fills : args.Fills name)
    (shaped : args.Shaped distinct)
    (reads : ∀ items, args = .list items → ∀ item ∈ items, item.ReadBy settings inner (each item)) :
    (Expr.call name args distinct span).Reads settings inner
      (∀ items, args = .list items → ∀ item ∈ items, each item) := by
  generalize fits_ : (∀ items, args = .list items → ∀ item ∈ items, each item) = fits
  refine of_token (fun {rest} _ => ?_) fun rest => ?_
  · rw [signs_call, List.cons_append]
    generalize before_ : Sign.parens (Sign.flag distinct .DISTINCT ++ args.signs settings) ++ rest =
      before
    have opens : kindAt before 0 = .punct .leftParen := by
      rw [← before_]
      rfl
    have behind : kindAt (name.sign settings :: before) 1 = .punct .leftParen := opens
    have called : ∀ {function}, Alike .plain name function →
        (callArguments inner function).TakesIf fits settings.pipesAsConcat before rest
          (.call name args distinct span) := by
      rw [← before_, ← fits_]
      exact takes_callArguments shaped reads
    have asKeyword : (keywordCall inner).TakesIf fits settings.pipesAsConcat
        (name.sign settings :: before) rest (.call name args distinct span) :=
      (Takes.name true named fun _ _ => rfl).bind fun function alike => called alike
    have asName : name.Plain settings → (nameExpr inner).TakesIf fits settings.pipesAsConcat
        (name.sign settings :: before) rest (.call name args distinct span) := by
      intro plain
      unfold nameExpr
      refine .aheadIs_same behind ?_
      exact (Takes.identifier plain).bind fun function alike => called alike
    have ofWord : ∀ {keyword : Keyword}, name.kind settings = .keyword keyword →
        keyword.isCallName = true → (keywordExpr inner keyword).TakesIf fits settings.pipesAsConcat
          (name.sign settings :: before) rest (.call name args distinct span) := by
      intro keyword kind accepted
      unfold keywordExpr
      dsimp only
      split
      · refine .aheadIs_same behind ?_
        exact asKeyword
      · next noFunction =>
          have nonreserved : keyword.isNonreserved = true := by
            simpa [Keyword.isCallName, noFunction] using accepted
          rw [if_pos nonreserved]
          refine asName (plain_of_callName named fun other same => ?_)
          cases kind.symm.trans same
          exact nonreserved
    have temporal : ∀ {keyword : Keyword} (moment : TemporalKind),
        name.kind settings = .keyword keyword → keyword.isCallName = true →
          (temporalExpr inner keyword moment).TakesIf fits settings.pipesAsConcat
            (name.sign settings :: before) rest (.call name args distinct span) := by
      intro keyword moment kind accepted
      unfold temporalExpr
      refine .peekAhead 1 ?_
      rw [kindAt_succ, opens]
      exact ofWord kind accepted
    unfold primaryExpr
    refine .peek ?_
    rw [kindAt_zero, Ident.sign_kind]
    rcases named.kind_cases with
      ⟨quote, _, kind⟩ | ⟨unquoted, _, ⟨kind, _⟩ | ⟨keyword, kind, known, accepted⟩⟩
    · rw [kind]
      exact asName (plain_of_callName named fun keyword same => by cases kind.symm.trans same)
    · rw [kind]
      dsimp only
      unfold wordExpr
      refine .peekAhead 1 ?_
      rw [kindAt_succ, opens]
      exact asName (plain_of_callName named fun keyword same => by cases kind.symm.trans same)
    · rw [kind]
      cases keyword
      case DATE => exact temporal .date kind rfl
      case TIME => exact temporal .time kind rfl
      case TIMESTAMP => exact temporal .timestamp kind rfl
      case DEFAULT =>
        refine .aheadIs_same behind ?_
        exact ofWord kind rfl
      case CURRENT_TIMESTAMP =>
        refine .aheadIs_same behind ?_
        refine .aheadIs 2 _ ?_
        have filled : kindAt (name.sign settings :: before) 2 ≠ .punct .rightParen := by
          rw [kindAt_succ, ← before_, Sign.parens, List.cons_append, kindAt_succ, List.append_assoc]
          exact arguments_ne_closed (fills unquoted known) reads
        rw [if_neg (fun closed => filled (of_decide_eq_true closed))]
        exact asKeyword
      all_goals first | (cases accepted; done) | exact ofWord kind rfl
  · rw [signs_call, List.cons_append, kindAt_zero, Ident.sign_kind]
    rcases named.kind_cases with ⟨quote, _, kind⟩ | ⟨_, _, ⟨kind, _⟩ | ⟨keyword, kind, _, accepted⟩⟩
    · rw [kind]
      rfl
    · rw [kind]
      rfl
    · rw [kind]
      cases keyword <;> first | rfl | cases accepted

end Expr.Reads

end SqlDml
