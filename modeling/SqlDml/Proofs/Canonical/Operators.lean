import SqlDml.Proofs.Canonical.Reads

/-!
Contract: expressions with operators are read back from canonical text.

Owns:
- lists of expressions and queries as the next nesting level reads them;
- that every operator, in front of its operand or behind it, is read with its operands.

Does not own: expressions that begin with their own token.
-/

namespace SqlDml

open Rule

/-- The rules for the next nesting level read a query from its signs, if its levels fit under the
nesting limit. -/
def Query.ReadBy (settings : Settings) (inner : InnerRules) (fits : Prop) (query : Query) : Prop :=
  ∀ {rest : List Sign}, (kindAt rest 0).endsQuery = true → Untested query.isOpen rest →
    inner.query.TakesIf fits settings.pipesAsConcat (query.signs settings ++ rest) rest query

/-- An operator is written as one of its spellings. -/
theorem BinaryOp.exists_sign {settings : Settings} {op : BinaryOp}
    (known : op = .concat → settings.pipesAsConcat = true) :
    ∃ sign, op.signs settings = [sign] ∧ sign.kind ∈ op.spellings settings.pipesAsConcat := by
  cases op with
  | concat => exact ⟨Sign.mark .doublePipe, rfl, by simp [spellings, known rfl]⟩
  | _ => exact ⟨_, rfl, by simp [spellings]⟩

/-- What goes on behind an operand is not taken in by it, and interrupts a query. -/
theorem behind_of_continuationAt {concat : Bool} {signs : List Sign} {continuation : Continuation}
    (found : continuationAt concat signs = some continuation) :
    (kindAt signs 0).joinsOperand = false ∧ (kindAt signs 0).interruptsQuery = true := by
  unfold continuationAt at found
  generalize kindAt signs 0 = kind at found ⊢
  split at found
  · exact ⟨rfl, rfl⟩
  · exact ⟨rfl, rfl⟩
  · unfold Continuation.ofToken? at found
    split at found <;> first | exact ⟨rfl, rfl⟩ | cases found

variable {settings : Settings} {inner : InnerRules} {rest : List Sign}

/-! ### Lists -/

section

variable {items : List Expr} {fits : Expr → Prop}

/-- Expressions with commas between them: all of them must fit. -/
theorem Rule.TakesIf.exprs [inner.Lawful] (nonempty : items ≠ [])
    (reads : ∀ item ∈ items, item.ReadBy settings inner (fits item))
    (ends : (kindAt rest 0).endsExpr = true) (noComma : kindAt rest 0 ≠ .punct .comma) :
    (Rule.exprs inner).TakesIf (∀ item ∈ items, fits item) settings.pipesAsConcat
      (Expr.listSigns settings items ++ rest) rest items := by
  refine commaSeparated nonempty noComma fun item member tail behind => (reads item member).alone ?_
  rcases behind with rfl | ⟨_, _, _, rfl⟩
  · exact ends
  · rfl

/-- A list of expressions begins like an expression. -/
theorem begins_listSigns (nonempty : items ≠ [])
    (reads : ∀ item ∈ items, item.ReadBy settings inner (fits item)) (rest : List Sign) :
    (kindAt (Expr.listSigns settings items ++ rest) 0).beginsExpr = true := by
  cases items with
  | nil => exact absurd rfl nonempty
  | cons first others =>
      rw [Expr.listSigns, List.map_cons, Sign.commaList, List.append_assoc]
      exact (reads first List.mem_cons_self).begins _

/-- What begins with an expression and a comma is no query, nor what begins with one that is no query
itself. -/
theorem unclosed_listSigns (nonempty : items ≠ [])
    (reads : ∀ item ∈ items, item.ReadBy settings inner (fits item))
    (alone : ∀ item, items = [item] → item.isSubquery = false) :
    inner.query.UnclosedIf (∀ item ∈ items, fits item) settings.pipesAsConcat
      (Expr.listSigns settings items ++ rest) := by
  cases items with
  | nil => exact absurd rfl nonempty
  | cons first others =>
      rw [Expr.listSigns, List.map_cons, Sign.commaList, List.append_assoc]
      have head : first.ReadBy settings inner (fits first) := reads first List.mem_cons_self
      refine (head.unclosed fun query => ?_).mono fun each => each first List.mem_cons_self
      cases others with
      | nil =>
          rw [alone first rfl] at query
          cases query
      | cons next others => rfl

end

namespace Expr.Reads

variable {operand left right low high pattern : Expr} {span : Span} {fits others further : Prop}

/-! ### Operators behind their operand -/

/-- The operand behind an operator, in front of the end of an expression. -/
theorem ends_right {power : Nat} (read : right.OperandBy settings inner fits)
    (tighter : power ≤ Power.collate) (ends : (kindAt rest 0).endsExpr = true) :
    (inner.operand power).TakesIf fits settings.pipesAsConcat
      (right.operandSigns settings ++ rest) rest right :=
  read tighter (TokenKind.not_joinsOperand_of_endsExpr ends)
    ((Loosens.of_endsExpr ends).mono (Nat.zero_le _))

variable [inner.Lawful]

/-- An operand with a continuation behind it. -/
theorem of_lead {tree : Expr} {tail : List Sign} (lead : List Sign) (continuation : Continuation)
    (compound : tree.isCompound = true)
    (signs : tree.signs settings = left.operandSigns settings ++ (lead ++ tail))
    (front : left.InFront settings inner fits)
    (begins : ∀ rest, continuationAt settings.pipesAsConcat (lead ++ rest) = some continuation)
    (goesOn : ∀ {rest : List Sign} {found : Expr}, (kindAt rest 0).endsExpr = true →
      Alike .plain left found → (continueWith inner found continuation).TakesIf others
        settings.pipesAsConcat (lead ++ (tail ++ rest)) rest tree) :
    tree.Reads settings inner (fits ∧ others) := by
  have behind : ∀ rest, (kindAt (lead ++ tail ++ rest) 0).joinsOperand = false ∧
      (kindAt (lead ++ tail ++ rest) 0).interruptsQuery = true := by
    intro rest
    rw [List.append_assoc]
    exact behind_of_continuationAt (begins _)
  refine of_left compound signs front (fun rest => (behind rest).1) (fun rest => (behind rest).2)
    fun ends alike => ?_
  rw [List.append_assoc]
  exact .extendOperand_some (begins _) (Nat.zero_le _) (goesOn ends alike)

theorem binary {op : BinaryOp} (known : op = .concat → settings.pipesAsConcat = true)
    (front : left.InFront settings inner fits) (read : right.OperandBy settings inner others)
    (all : (Node.expr right).AllLegible settings)
    (plain : op.isComparison = true → right.quantifies = false) :
    (Expr.binary left op right span).Reads settings inner (fits ∧ others) := by
  obtain ⟨sign, signs, spelled⟩ := BinaryOp.exists_sign known
  have behind := fun rest => behind_of_continuationAt (continuationAt_of_spelling spelled rest)
  refine of_left rfl (signs_binary ..) front ?_ ?_ fun ends alike => ?_
  · exact fun rest => signs ▸ (behind _).1
  · exact fun rest => signs ▸ (behind _).2
  · rw [signs, List.append_assoc]
    have tighter : op.power + 1 ≤ Power.collate := by cases op <;> decide
    have joined := TakesIf.extended spelled (Nat.zero_le _)
      (fun compares => unquantified all (plain compares)
        (TokenKind.not_joinsOperand_of_endsExpr ends)) alike
      (ends_right read tighter ends)
    have same : Alike .plain (Expr.binary left op right span) (.ofOperands left op right) :=
      have := Alike.plain_self left
      have := Alike.plain_self right
      .binary op
    exact joined.congr inferInstance

theorem quantified {op : BinaryOp} {quantifier : Quantifier} {query : Query}
    (compares : op.isComparison = true) (front : left.InFront settings inner fits)
    (read : query.ReadBy settings inner others) :
    (Expr.quantified left op quantifier query span).Reads settings inner (fits ∧ others) := by
  have known : op = .concat → settings.pipesAsConcat = true := by
    rintro rfl
    cases compares
  obtain ⟨sign, signs, spelled⟩ := BinaryOp.exists_sign known
  refine of_lead _ op.continuation rfl (signs_quantified ..) front ?_
    fun {rest found} ends alike => ?_
  · exact fun rest => signs ▸ continuationAt_of_spelling spelled rest
  · have named : quantifier? (.keyword quantifier.keyword) = some quantifier := by
      cases quantifier <;> rfl
    have follows : Takes settings.pipesAsConcat (subqueryFollows 1)
        (Sign.word quantifier.keyword :: Sign.parens (query.signs settings) ++ rest)
        (Sign.word quantifier.keyword :: Sign.parens (query.signs settings) ++ rest) true := by
      unfold subqueryFollows
      refine .aheadIs 1 _ ?_
      rw [if_pos (by simp [Sign.parens])]
      refine .peekAhead 2 ?_
      simp only [Sign.parens, List.cons_append, List.append_assoc, kindAt_succ]
      rw [query.begins_signs]
      exact .pure
    have continuation : op.continuation = .comparison op := if_pos compares
    have width : op.continuation.width = (op.signs settings).length := by
      rw [signs]
      exact op.continuation_width
    unfold continueWith
    refine (Takes.skipContinuation (op.signs settings) width).bind fun _ _ => ?_
    rw [continuation]
    unfold comparison
    refine .peek ?_
    simp only [List.cons_append, kindAt_zero, Sign.word_kind, named]
    refine follows.step ?_
    simp only [Sign.parens, List.cons_append, List.append_assoc]
    refine .advance fun _ _ => .expect rfl fun _ => (read rfl .rightParen).bind_takes fun value same => ?_
    exact .expect rfl fun stop => .pure

theorem is {negated : Bool} {value : IsValue} (front : operand.InFront settings inner fits) :
    (Expr.is operand negated value span).Reads settings inner fits := by
  refine (of_lead [Sign.word .IS] .is rfl (signs_is ..) front (fun _ => rfl)
    fun {rest found} ends alike => ?_).of_iff (and_iff_left trivial)
  have named : isValue? (.keyword value.keyword) = some value := by cases value <;> rfl
  unfold continueWith
  refine (Takes.skipContinuation [Sign.word .IS] rfl).bind fun _ _ => ?_
  unfold isTest
  cases negated with
  | true =>
      refine .eat rfl ?_
      change Takes _ _ (Sign.word value.keyword :: rest) _ _
      refine .peek ?_
      rw [kindAt_zero, Sign.word_kind, named]
      exact .advance fun stop _ => .pure
  | false =>
      refine .eat_none (by cases value <;> simp [Sign.flag, IsValue.keyword]) ?_
      change Takes _ _ (Sign.word value.keyword :: rest) _ _
      refine .peek ?_
      rw [kindAt_zero, Sign.word_kind, named]
      exact .advance fun stop _ => .pure

theorem between {negated : Bool} (front : operand.InFront settings inner fits)
    (lowRead : low.OperandBy settings inner others)
    (highRead : high.OperandBy settings inner further) :
    (Expr.between operand low high negated span).Reads settings inner (fits ∧ others ∧ further) := by
  have signs : (Expr.between operand low high negated span).signs settings =
      operand.operandSigns settings ++ ((Sign.flag negated .NOT ++ [Sign.word .BETWEEN]) ++
        (low.operandSigns settings ++ Sign.word .AND :: high.operandSigns settings)) := by
    rw [signs_between]
    simp
  refine of_lead _ (.between negated) rfl signs front
    (fun _ => by cases negated <;> rfl) fun {rest found} ends alike => ?_
  have loosens : ∀ {tail}, Loosens settings.pipesAsConcat Power.predicateOperand
      (Sign.word .AND :: tail) := by
    intro tail
    exact ⟨fun word => by simp at word, fun continuation known => by cases known; decide⟩
  unfold continueWith
  refine (Takes.skipContinuation _ (by cases negated <;> rfl)).bind fun _ _ => ?_
  unfold betweenTest
  rw [List.append_assoc]
  refine (lowRead (by decide) rfl loosens).bind fun value same => .expect rfl fun _ => ?_
  exact (ends_right highRead (by decide) ends).bind_takes fun last also => .pure

theorem soundsLike (front : operand.InFront settings inner fits)
    (read : pattern.OperandBy settings inner others) :
    (Expr.soundsLike operand pattern span).Reads settings inner (fits ∧ others) := by
  refine of_lead [Sign.word .SOUNDS, Sign.word .LIKE] .soundsLike rfl
    (signs_soundsLike ..) front (fun _ => rfl) fun {rest found} ends alike => ?_
  unfold continueWith
  refine (Takes.skipContinuation [Sign.word .SOUNDS, Sign.word .LIKE] rfl).bind fun _ _ => ?_
  exact (ends_right read (by decide) ends).bind_takes fun value same => .pure

omit [inner.Lawful] in
/-- The operand behind `ESCAPE`, which only `LIKE` takes. -/
theorem takes_escapeOperand {op : LikeOp} {escape : Option Expr} {fits : Expr → Prop}
    (read : ∀ char ∈ escape, char.OperandBy settings inner (fits char))
    (only : op = .regexp → escape = none) (ends : (kindAt rest 0).endsExpr = true) :
    (escapeOperand inner op).TakesIf (∀ char ∈ escape, fits char) settings.pipesAsConcat
      (escapeSigns settings escape ++ rest) rest escape := by
  unfold escapeOperand
  cases op with
  | regexp =>
      rw [only rfl]
      exact TakesIf.pure.of_iff (by simp)
  | like =>
      cases escape with
      | none => exact TakesIf.of_iff (.eat_none (ne_of_holds ends rfl) .pure) (by simp)
      | some char =>
          have one : (∀ found ∈ some char, fits found) ↔ fits char := by simp
          refine .eat rfl (TakesIf.of_iff ?_ one.symm)
          exact (ends_right (read char rfl) (by decide) ends).bind_takes fun value same => .pure

theorem like {escape : Option Expr} {op : LikeOp} {negated : Bool} {further : Expr → Prop}
    (only : op = .regexp → escape = none) (front : operand.InFront settings inner fits)
    (patternRead : pattern.OperandBy settings inner others)
    (escapeRead : ∀ char ∈ escape, char.OperandBy settings inner (further char)) :
    (Expr.like operand pattern escape op negated span).Reads settings inner
      (fits ∧ others ∧ ∀ char ∈ escape, further char) := by
  have signs : (Expr.like operand pattern escape op negated span).signs settings =
      operand.operandSigns settings ++ ((Sign.flag negated .NOT ++ [Sign.word op.keyword]) ++
        (pattern.operandSigns settings ++ escapeSigns settings escape)) := by
    rw [signs_like]
    simp
  refine of_lead _ (.like op negated) rfl signs front
    (fun _ => by cases negated <;> cases op <;> rfl) fun {rest found} ends alike => ?_
  have behind : (kindAt (escapeSigns settings escape ++ rest) 0).joinsOperand = false ∧
      Loosens settings.pipesAsConcat Power.predicateOperand (escapeSigns settings escape ++ rest) := by
    cases escape with
    | some char =>
        exact ⟨rfl, @Loosens.of_kind _ _ (.keyword .ESCAPE) _ rfl (by simp) (by simp) (by simp)
          fun _ => rfl⟩
    | none =>
        exact ⟨TokenKind.not_joinsOperand_of_endsExpr ends,
          (Loosens.of_endsExpr ends).mono (Nat.zero_le _)⟩
  unfold continueWith
  refine (Takes.skipContinuation _ (by cases negated <;> cases op <;> rfl)).bind fun _ _ => ?_
  unfold likeTest
  rw [List.append_assoc]
  refine (patternRead (by decide) behind.1 behind.2).bind fun value same => ?_
  exact (takes_escapeOperand escapeRead only ends).bind_takes fun char also => .pure

/-! ### Sets -/

theorem takes_inList {items : List Expr} {each : Expr → Prop} (nonempty : items ≠ [])
    (alone : ∀ item, items = [item] → item.isSubquery = false)
    (reads : ∀ item ∈ items, item.ReadBy settings inner (each item)) :
    (inSet inner).TakesIf (∀ item ∈ items, each item) settings.pipesAsConcat
      ((InSet.list items).signs settings ++ Sign.mark .rightParen :: rest)
      (Sign.mark .rightParen :: rest) (.list items) := by
  have listed : TakesIf (∀ item ∈ items, each item) settings.pipesAsConcat
      (do return InSet.list (← exprs inner))
      (Expr.listSigns settings items ++ Sign.mark .rightParen :: rest)
      (Sign.mark .rightParen :: rest) (.list items) :=
    (TakesIf.exprs nonempty reads rfl (by simp)).bind_takes fun values same => .pure
  have begins := begins_listSigns nonempty reads (Sign.mark .rightParen :: rest)
  unfold inSet
  refine .peek ?_
  rw [InSet.signs_list]
  split
  · next word =>
      rw [word] at begins
      cases begins
  · next word =>
      rw [word] at begins
      cases begins
  · exact .attempt_none (misses_queryBeforeParen (unclosed_listSigns nonempty reads alone)) listed
  · exact listed

omit [inner.Lawful] in
theorem takes_inQuery {query : Query} (read : query.ReadBy settings inner fits) :
    (inSet inner).TakesIf fits settings.pipesAsConcat
      ((InSet.subquery query).signs settings ++ Sign.mark .rightParen :: rest)
      (Sign.mark .rightParen :: rest) (.subquery query) := by
  have whole : inner.query.TakesIf fits settings.pipesAsConcat
      (query.signs settings ++ Sign.mark .rightParen :: rest) (Sign.mark .rightParen :: rest) query :=
    read rfl .rightParen
  have begins : (kindAt (query.signs settings ++ Sign.mark .rightParen :: rest) 0).startsQuery =
      true := query.begins_signs _
  unfold inSet
  refine .peek ?_
  rw [InSet.signs_subquery]
  split
  · exact whole.bind_takes fun value same => .pure
  · exact whole.bind_takes fun value same => .pure
  · have closed : (queryBeforeParen inner).TakesIf fits settings.pipesAsConcat
        (query.signs settings ++ Sign.mark .rightParen :: rest) (Sign.mark .rightParen :: rest)
        query := by
      unfold queryBeforeParen
      exact whole.bind_takes fun value same => .nextIs _ .pure
    exact closed.attempted.bind_takes (forall_alike_some fun value same => .pure)
  · next noSelect noWith noParen =>
      unfold TokenKind.startsQuery at begins
      split at begins
      · next word => exact absurd word noSelect
      · next word => exact absurd word noWith
      · next mark => exact absurd mark noParen
      · cases begins

theorem isIn {set : InSet} {negated : Bool} (front : operand.InFront settings inner fits)
    (read : ∀ {rest : List Sign}, (inSet inner).TakesIf others settings.pipesAsConcat
      (set.signs settings ++ Sign.mark .rightParen :: rest) (Sign.mark .rightParen :: rest) set) :
    (Expr.isIn operand set negated span).Reads settings inner (fits ∧ others) := by
  have signs : (Expr.isIn operand set negated span).signs settings =
      operand.operandSigns settings ++ ((Sign.flag negated .NOT ++ [Sign.word .IN]) ++
        Sign.parens (set.signs settings)) := by
    rw [signs_isIn]
    simp
  refine of_lead _ (.isIn negated) rfl signs front
    (fun _ => by cases negated <;> rfl) fun {rest found} ends alike => ?_
  unfold continueWith
  refine (Takes.skipContinuation _ (by cases negated <;> rfl)).bind fun _ _ => ?_
  unfold inTest
  simp only [Sign.parens, List.cons_append, List.append_assoc, List.nil_append]
  refine .expect rfl fun _ => read.bind_takes fun value same => ?_
  exact .expect rfl fun stop => .pure

/-! ### Operators in front of their operand -/

theorem unary {op : UnaryOp} (read : operand.OperandBy settings inner fits) :
    (Expr.unary op operand span).Reads settings inner fits where
  alone {rest} ends := by
    have nested : ∀ {sign : Sign} {power : Nat}, power ≤ Power.collate →
        (unaryExpr inner op power).TakesIf fits settings.pipesAsConcat
          (sign :: (operand.operandSigns settings ++ rest)) rest (.unary op operand span) := by
      intro sign power tighter
      unfold unaryExpr
      exact .advance fun start _ => (ends_right read tighter ends).bind_takes fun value same => .pure
    have primary : (primaryExpr inner).TakesIf fits settings.pipesAsConcat
        (op.signs settings ++ operand.operandSigns settings ++ rest) rest
        (.unary op operand span) := by
      unfold primaryExpr
      refine .peek ?_
      cases op <;> exact nested (by decide)
    rw [signs_unary]
    exact .operandBody_stop primary (.of_endsExpr ends)
  bare simple := by cases simple
  unclosed _ := by
    rw [signs_unary]
    exact unclosed_of_kind (by cases op <;> rfl)

/-! ### Collations -/

omit [inner.Lawful] in
theorem takes_collate {found : Expr} {collation : Ident} (alike : Alike .plain operand found)
    (labels : collation.Labels settings Keyword.isAny) :
    (Rule.collate found).Takes settings.pipesAsConcat
      (Sign.word .COLLATE :: collation.sign settings :: rest) rest
      (.collate operand collation span) := by
  have named : collationName.Takes settings.pipesAsConcat (collation.sign settings :: rest) rest
      collation := by
    unfold collationName
    refine .peekToken 0 fun token kind => ?_
    have kind : token.kind = collation.kind settings := kind
    rcases labels.kind_cases with named | ⟨quote, quoted, known⟩
    · split
      · next value quote string =>
          rcases named.kind_cases with ⟨_, _, known⟩ | ⟨_, _, ⟨known, _⟩ | ⟨_, known, _⟩⟩ <;>
            simp [kind, known] at string
      · exact Takes.name true named fun _ _ => rfl
    · rw [kind, known]
      refine .advance fun _ _ => ?_
      have alike : Alike .plain collation ⟨collation.value, some quote, token.span⟩ :=
        Ident.alike_iff.mpr ⟨rfl, quoted⟩
      exact .pure
  unfold Rule.collate
  exact .expect rfl fun _ => named.bind fun name same => .pure

theorem collate {collation : Ident} (labels : collation.Labels settings Keyword.isAny)
    (front : operand.InFront settings inner fits) :
    (Expr.collate operand collation span).Reads settings inner fits := by
  have extended : ∀ {power : Nat} {rest : List Sign} {post : Outcome Expr → Prop},
      power ≤ Power.collate →
      (fits → ∀ left, Alike .plain (Expr.collate operand collation span) left →
        (whileSome (extendOperand inner power) left).Meets settings.pipesAsConcat rest post) →
      (¬ fits → post .deep) →
      (operandBody inner power).Meets settings.pipesAsConcat
        ((Expr.collate operand collation span).signs settings ++ rest) post := by
    intro power rest post tighter behind met
    rw [signs_collate, List.append_assoc]
    refine front.meets tighter rfl (fun enough found alike => ?_) met
    exact Takes.whileSome_more_meets
      (.extendOperand_collate rfl tighter (takes_collate alike labels)) (behind enough)
  refine {
    alone := fun ends => takesIf_iff_meets.mpr (extended (Nat.zero_le _) (fun enough found alike => ?_)
      fun few => .inr ⟨few, rfl⟩)
    bare := fun _ _ _ _ tighter _ behind met => extended tighter behind met
    unclosed := fun _ => ?_ }
  · have stopped : (whileSome (extendOperand inner 0) found).Takes settings.pipesAsConcat _ _ _ :=
      .whileSome_stop (.extendOperand_none (.of_endsExpr ends)) alike
    exact takesIf_iff_meets.mp (stopped.of_iff (iff_of_true trivial enough))
  · rw [signs_collate, List.append_assoc]
    exact front.unclosed rfl

end Expr.Reads

end SqlDml
