import SqlDml.Proofs.Canonical.Ends

/-!
Contract: what it means that an expression is read from its signs.

Owns:
- operands that a comparison takes for a quantifier with a query behind it;
- an expression that is read alone, or as an operand of what follows it, and never as a query;
- the same one nesting level deeper;
- operands, in parentheses or bare, and expressions that begin with an operand.

Does not own: that the forms of expressions are read so.
-/

namespace SqlDml

open Rule

variable {settings : Settings}

/-! ### Operands that look like a quantifier -/

/-- Whether the canonical text of an expression begins with a parenthesis. -/
def Expr.opensParen : Expr → Bool
  | .subquery _ _ => true
  | .row items _ => items.length != 1
  | .binary operand _ _ _ | .is operand _ _ _ | .quantified operand _ _ _ _
  | .between operand _ _ _ _ | .isIn operand _ _ _ | .like operand _ _ _ _ _
  | .soundsLike operand _ _ | .collate operand _ _ => operand.isCompound || operand.opensParen
  | _ => false

/-- Whether an unquoted name is `ANY` or `SOME`. -/
def Ident.namesQuantifier (name : Ident) : Bool :=
  name.quote.isNone &&
    (quantifier? ((Keyword.ofWord? name.value.toList).elim (.word name.value) .keyword)).isSome

/-- Whether the canonical text of an operand begins like a quantifier with a query behind it: with a
call of a function named `ANY` or `SOME`, the first argument of which begins with a parenthesis. -/
def Expr.quantifies : Expr → Bool
  | .call name (.list (first :: _)) false _ => name.namesQuantifier && first.opensParen
  | .collate operand _ _ => operand.quantifies
  | _ => false

/-- A call of no function with such a name begins with no quantifier. -/
theorem Ident.quantifier?_kind {name : Ident} (named : name.Named settings Keyword.isCallName)
    (other : name.namesQuantifier = false) : quantifier? (name.kind settings) = none := by
  rcases named.kind_cases with ⟨quote, _, kind⟩ | ⟨unquoted, _, ⟨kind, _⟩ | ⟨keyword, kind, known, _⟩⟩
  · rw [kind]
    rfl
  · rw [kind]
    rfl
  · unfold namesQuantifier at other
    rw [unquoted, known] at other
    rw [kind]
    simpa using other

/-- An operand begins with a parenthesis if it has some around it, or begins with one itself. -/
theorem Expr.opensParen_of_operand :
    ∀ {tree : Expr}, (Node.expr tree).AllLegible settings → ∀ {rest : List Sign},
      kindAt (tree.operandSigns settings ++ rest) 0 = .punct .leftParen →
        (tree.isCompound || tree.opensParen) = true
  | .literal value span, all, rest, opens => by
      have spelt : value.Spelt := all.self.spelt
      have read := Literal.readFrom_signs spelt all.self.ordinary.1
      have begins := beginsConstant_of_readFrom read rest
      rw [show kindAt (value.signs settings ++ rest) 0 = .punct .leftParen from opens] at begins
      cases begins
  | .column ref, all, rest, opens => by
      have below : (Node.column ref).AllLegible settings := all.child (by simp)
      have named : ref.Named settings := below.self.spelt
      obtain ⟨first, plain, front, _⟩ := Rule.Takes.begins_column named rest
      have isName := plain.isName
      rw [← front, show kindAt (ref.signs settings ++ rest) 0 = .punct .leftParen from opens]
        at isName
      cases isName
  | .placeholder _ _, _, _, opens => by cases opens
  | .default _, _, _, opens => by cases opens
  | .case subject whens otherwise span, _, _, opens => by
      rw [operandSigns_of_bare rfl, signs_case] at opens
      cases opens
  | .cast _ _ _, _, _, opens => by
      rw [operandSigns_of_bare rfl, signs_cast] at opens
      cases opens
  | .call name args distinct span, all, rest, opens => by
      have labels : name.Labels settings Keyword.isCallName := .inl all.self.spelt.1
      rw [operandSigns_of_bare rfl, signs_call] at opens
      exact absurd opens (labels.unmarked _)
  | .subquery _ _, _, _, _ => rfl
  | .exists _ _, _, _, opens => by
      rw [operandSigns_of_bare rfl, signs_exists] at opens
      cases opens
  | .row items _, _, rest, opens => by
      rw [operandSigns_of_bare rfl, signs_row] at opens
      by_cases single : items.length = 1
      · rw [if_pos single] at opens
        cases opens
      · simp [isCompound, opensParen, single]
  | .collate operand collation span, all, rest, opens => by
      have below : (Node.expr operand).AllLegible settings := all.child (by simp)
      rw [operandSigns_of_bare rfl, signs_collate, List.append_assoc] at opens
      have inside : (operand.isCompound || operand.opensParen) = true :=
        opensParen_of_operand below opens
      simpa [isCompound, opensParen] using inside
  | .binary _ _ _ _, _, _, _ => rfl
  | .unary _ _ _, _, _, _ => rfl
  | .is _ _ _ _, _, _, _ => rfl
  | .quantified _ _ _ _ _, _, _, _ => rfl
  | .between _ _ _ _ _, _, _, _ => rfl
  | .isIn _ _ _ _, _, _, _ => rfl
  | .like _ _ _ _ _ _, _, _, _ => rfl
  | .soundsLike _ _ _, _, _, _ => rfl

/-- The signs of an expression begin with a parenthesis only if its text does. -/
theorem Expr.opensParen_of_signs {tree : Expr} (all : (Node.expr tree).AllLegible settings)
    {rest : List Sign} (opens : kindAt (tree.signs settings ++ rest) 0 = .punct .leftParen) :
    tree.opensParen = true := by
  have left : ∀ {operand : Expr} {behind : List Sign}, Node.expr operand ∈ tree.children →
      tree.signs settings = operand.operandSigns settings ++ behind →
        (operand.isCompound || operand.opensParen) = true := by
    intro operand behind member signs
    rw [signs, List.append_assoc] at opens
    exact opensParen_of_operand (all.child member) opens
  cases tree with
  | binary => exact left (by simp) (signs_binary ..)
  | unary op operand span =>
      rw [signs_unary] at opens
      cases op <;> cases opens
  | is => exact left (by simp) (signs_is ..)
  | quantified => exact left (by simp) (signs_quantified ..)
  | between => exact left (by simp) (signs_between ..)
  | isIn => exact left (by simp) (signs_isIn ..)
  | like => exact left (by simp) (signs_like ..)
  | soundsLike => exact left (by simp) (signs_soundsLike ..)
  | _ =>
      rw [← operandSigns_of_bare rfl] at opens
      exact (Bool.or_eq_true ..).mp (opensParen_of_operand all opens) |>.resolve_left Bool.false_ne_true

/-- No query follows a call of a quantifier whose arguments do not begin with a parenthesis. -/
theorem Expr.unquantified_call {name : Ident} {args : CallArgs} {distinct : Bool} {span : Span}
    (all : (Node.expr (.call name args distinct span)).AllLegible settings)
    (plain : (Expr.call name args distinct span).quantifies = false) (rest : List Sign) :
    Unquantified ((Expr.call name args distinct span).signs settings ++ rest) := by
  cases quantifier : name.namesQuantifier with
  | false => exact .inl (name.quantifier?_kind all.self.spelt.1 quantifier)
  | true =>
      refine .inr (.inr ?_)
      rw [signs_call]
      simp only [Sign.parens, List.cons_append, List.append_assoc, List.nil_append, kindAt_succ]
      cases distinct with
      | true => rfl
      | false =>
          cases args with
          | star => rfl
          | list items =>
              cases items with
              | nil => rfl
              | cons first others =>
                  have below : (Node.expr first).AllLegible settings := all.child (by simp)
                  have closed : first.opensParen = false := by
                    simpa [quantifies, quantifier] using plain
                  rw [CallArgs.signs_list, listSigns, List.map_cons, Sign.commaList,
                    Sign.flag, if_neg (by simp), List.nil_append, List.append_assoc]
                  have begins := begins_signs below
                    (Sign.behindCommas (others.map (Expr.signs settings)) ++
                      Sign.mark .rightParen :: rest)
                  generalize kind : kindAt (first.signs settings ++ _) 0 = opening at begins ⊢
                  cases starts : opening.startsQuery with
                  | false => rfl
                  | true =>
                      unfold TokenKind.startsQuery at starts
                      split at starts
                      · cases begins
                      · cases begins
                      · rw [opensParen_of_signs below kind] at closed
                        cases closed
                      · cases starts

/-- Any other operand does not look like a quantifier and a query. -/
theorem Expr.unquantified :
    ∀ {tree : Expr}, (Node.expr tree).AllLegible settings → tree.quantifies = false →
      ∀ {rest : List Sign}, (kindAt rest 0).joinsOperand = false →
        Unquantified (tree.operandSigns settings ++ rest)
  | .literal value span, all, _, rest, _ => by
      have spelt : value.Spelt := all.self.spelt
      have read := Literal.readFrom_signs spelt all.self.ordinary.1
      exact .inl (quantifier?_of_beginsConstant (beginsConstant_of_readFrom read rest))
  | .column ref, all, _, rest, apart => by
      have below : (Node.column ref).AllLegible settings := all.child (by simp)
      obtain ⟨_, _, _, dot | same⟩ := Rule.Takes.begins_column below.self.spelt rest
      · exact .inr (.inl (fun opens => by cases dot.symm.trans opens))
      · exact .inr (.inl (fun opens => by
          rw [← same, show kindAt (ref.signs settings ++ rest) 1 = .punct .leftParen from opens]
            at apart
          cases apart))
  | .placeholder _ _, _, _, _, _ => .inl rfl
  | .default _, _, _, _, _ => .inl rfl
  | .case subject whens otherwise span, _, _, _, _ => by
      rw [operandSigns_of_bare rfl, signs_case]
      exact .inl rfl
  | .cast _ _ _, _, _, _, _ => by
      rw [operandSigns_of_bare rfl, signs_cast]
      exact .inl rfl
  | .call name args distinct span, all, plain, rest, _ => unquantified_call all plain rest
  | .subquery _ _, _, _, _, _ => by
      rw [operandSigns_of_bare rfl, signs_subquery]
      exact .inl rfl
  | .exists _ _, _, _, _, _ => by
      rw [operandSigns_of_bare rfl, signs_exists]
      exact .inl rfl
  | .row items _, _, _, _, _ => by
      rw [operandSigns_of_bare rfl, signs_row]
      split <;> exact .inl rfl
  | .collate operand collation span, all, plain, rest, _ => by
      have below : (Node.expr operand).AllLegible settings := all.child (by simp)
      rw [operandSigns_of_bare rfl, signs_collate, List.append_assoc]
      exact unquantified below plain rfl
  | .binary _ _ _ _, _, _, _, _ => .inl rfl
  | .unary _ _ _, _, _, _, _ => .inl rfl
  | .is _ _ _ _, _, _, _, _ => .inl rfl
  | .quantified _ _ _ _ _, _, _, _, _ => .inl rfl
  | .between _ _ _ _ _, _, _, _, _ => .inl rfl
  | .isIn _ _ _ _, _, _, _, _ => .inl rfl
  | .like _ _ _ _ _ _, _, _, _, _ => .inl rfl
  | .soundsLike _ _ _, _, _, _, _ => .inl rfl

/-! ### Reading an expression -/

/-- The rules for operands read an expression from its signs, if its levels fit under the nesting
limit.  Alone it is read up to the end of an expression.  A bare one is also read as an operand,
whatever goes on behind it.  In parentheses it is not read as a query. -/
structure Expr.Reads (settings : Settings) (inner : InnerRules) (fits : Prop) (tree : Expr) :
    Prop where
  alone : ∀ {rest : List Sign}, (kindAt rest 0).endsExpr = true →
    (operandBody inner 0).TakesIf fits settings.pipesAsConcat (tree.signs settings ++ rest) rest tree
  bare : tree.isCompound = false → ∀ {power : Nat} {rest : List Sign} {post : Outcome Expr → Prop},
    power ≤ Power.collate → (kindAt rest 0).joinsOperand = false →
      (fits → ∀ left, Alike .plain tree left → (whileSome (extendOperand inner power) left).Meets
        settings.pipesAsConcat rest post) →
      (¬ fits → post .deep) →
      (operandBody inner power).Meets settings.pipesAsConcat (tree.signs settings ++ rest) post
  unclosed : ∀ {rest : List Sign},
    (tree.isSubquery = true → (kindAt rest 0).interruptsQuery = true) →
      (wholeQuery inner).UnclosedIf fits settings.pipesAsConcat (tree.signs settings ++ rest)

/-- The rules for the next nesting level read an expression from its signs, if its levels fit. -/
structure Expr.ReadBy (settings : Settings) (inner : InnerRules) (fits : Prop) (tree : Expr) :
    Prop where
  begins : ∀ rest : List Sign, (kindAt (tree.signs settings ++ rest) 0).beginsExpr = true
  alone : ∀ {rest : List Sign}, (kindAt rest 0).endsExpr = true →
    inner.expr.TakesIf fits settings.pipesAsConcat (tree.signs settings ++ rest) rest tree
  unclosed : ∀ {rest : List Sign},
    (tree.isSubquery = true → (kindAt rest 0).interruptsQuery = true) →
      inner.query.UnclosedIf fits settings.pipesAsConcat (tree.signs settings ++ rest)

/-- The rules for operands read an expression in front of an operator, with parentheses around a
compound one, if its levels fit.  In parentheses it is not read as a query. -/
structure Expr.InFront (settings : Settings) (inner : InnerRules) (fits : Prop) (tree : Expr) :
    Prop where
  meets : ∀ {power : Nat} {rest : List Sign} {post : Outcome Expr → Prop},
    power ≤ Power.collate → (kindAt rest 0).joinsOperand = false →
      (fits → ∀ left, Alike .plain tree left → (whileSome (extendOperand inner power) left).Meets
        settings.pipesAsConcat rest post) →
      (¬ fits → post .deep) →
      (operandBody inner power).Meets settings.pipesAsConcat (tree.operandSigns settings ++ rest) post
  unclosed : ∀ {rest : List Sign}, (kindAt rest 0).interruptsQuery = true →
    (wholeQuery inner).UnclosedIf fits settings.pipesAsConcat (tree.operandSigns settings ++ rest)

/-- The rules for the next nesting level read an expression as an operand, if its levels fit. -/
def Expr.OperandBy (settings : Settings) (inner : InnerRules) (fits : Prop) (tree : Expr) : Prop :=
  ∀ {power : Nat} {rest : List Sign}, power ≤ Power.collate → (kindAt rest 0).joinsOperand = false →
    Loosens settings.pipesAsConcat power rest →
      (inner.operand power).TakesIf fits settings.pipesAsConcat (tree.operandSigns settings ++ rest)
        rest tree

variable {inner : InnerRules} [inner.Lawful] {tree left : Expr} {fits others : Prop}
  {rest after tail : List Sign} {whole : Expr} {power : Nat}

/-- What is in parentheses is read alone. -/
theorem Rule.TakesIf.parenExpr (read : tree.ReadBy settings inner fits)
    (noQuery : tree.isSubquery = false) :
    (primaryExpr inner).TakesIf fits settings.pipesAsConcat
      (Sign.parens (tree.signs settings) ++ rest) rest tree := by
  have opened : Sign.parens (tree.signs settings) ++ rest =
      Sign.mark .leftParen :: (tree.signs settings ++ Sign.mark .rightParen :: rest) := by
    simp [Sign.parens]
  rw [opened]
  have alone : (exprInParens inner).TakesIf fits settings.pipesAsConcat
      (Sign.mark .leftParen :: (tree.signs settings ++ Sign.mark .rightParen :: rest)) rest tree := by
    unfold exprInParens
    refine .expect rfl fun start => (read.alone rfl).bind_takes fun found alike => ?_
    exact .eat_none (by simp) (.expect rfl fun stop => .pure)
  have begins := read.begins (Sign.mark .rightParen :: rest)
  unfold primaryExpr
  refine .peek ?_
  rw [kindAt_zero]
  unfold Rule.parenExpr
  refine .peekAhead 1 ?_
  rw [kindAt_succ]
  split
  · next word =>
      rw [word] at begins
      cases begins
  · next word =>
      rw [word] at begins
      cases begins
  · refine .attempt_none (misses_subquery rfl (read.unclosed ?_)) alone
    intro query
    rw [noQuery] at query
    cases query
  · exact alone

theorem Expr.not_isSubquery_of_compound (compound : tree.isCompound = true) :
    tree.isSubquery = false := by
  cases tree <;> first | rfl | cases compound

/-! ### Operands -/

/-- A compound expression is read in parentheses, a bare one as it stands. -/
theorem Expr.inFront (bare : tree.isCompound = false → tree.Reads settings inner fits)
    (inParens : tree.isCompound = true → tree.ReadBy settings inner fits) :
    tree.InFront settings inner fits := by
  cases compound : tree.isCompound with
  | true =>
      have read := inParens compound
      have noQuery := not_isSubquery_of_compound compound
      refine ⟨fun _ _ behind met => ?_, fun _ => ?_⟩
      · rw [operandSigns_of_compound compound]
        unfold operandBody
        exact (TakesIf.parenExpr read noQuery).bind_meets behind met
      · simp only [operandSigns_of_compound compound, Sign.parens, List.cons_append,
          List.append_assoc]
        refine unclosed_of_parens rfl (read.unclosed fun query => ?_)
        rw [noQuery] at query
        cases query
  | false =>
      have reads := bare compound
      refine ⟨fun tighter apart behind met => ?_, fun interrupts => ?_⟩
      · rw [operandSigns_of_bare compound]
        exact reads.bare compound tighter apart behind met
      · rw [operandSigns_of_bare compound]
        exact reads.unclosed fun _ => interrupts

omit [inner.Lawful] in
theorem Expr.ReadBy.of_iff (read : tree.ReadBy settings inner fits) (same : fits ↔ others) :
    tree.ReadBy settings inner others :=
  propext same ▸ read

namespace Expr.InFront

omit [inner.Lawful] in
theorem of_iff (front : tree.InFront settings inner fits) (same : fits ↔ others) :
    tree.InFront settings inner others :=
  propext same ▸ front

/-- An operand in front of what is known to go on behind it: both must fit. -/
theorem operand (front : tree.InFront settings inner fits) (tighter : power ≤ Power.collate)
    (apart : (kindAt rest 0).joinsOperand = false)
    (behind : ∀ left, Alike .plain tree left →
      (whileSome (extendOperand inner power) left).TakesIf others settings.pipesAsConcat rest after
        whole) :
    (operandBody inner power).TakesIf (fits ∧ others) settings.pipesAsConcat
      (tree.operandSigns settings ++ rest) after whole := by
  refine takesIf_iff_meets.mpr (front.meets tighter apart (fun enough left alike => ?_) fun few => ?_)
  · exact takesIf_iff_meets.mp ((behind left alike).of_iff (and_iff_right enough).symm)
  · exact .inr ⟨fun both => few both.1, rfl⟩

/-- The rules of the next nesting level read an operand. -/
theorem operandBy {levels : Nat} (front : tree.InFront settings (innerAt levels) fits) :
    tree.OperandBy settings (innerAt (levels + 1)) fits := by
  intro power rest tighter apart loosens
  rw [operand_succ]
  have read := front.operand tighter apart fun left alike =>
    TakesIf.whileSome_stop (.extendOperand_none loosens) alike
  exact (read.of_iff (and_iff_left trivial)).enter

end Expr.InFront

namespace Expr.Reads

omit [inner.Lawful] in
theorem of_iff (reads : tree.Reads settings inner fits) (same : fits ↔ others) :
    tree.Reads settings inner others :=
  propext same ▸ reads

/-- The rules of the next nesting level read an expression alone. -/
theorem readBy {levels : Nat} (reads : tree.Reads settings (innerAt levels) fits)
    (all : (Node.expr tree).AllLegible settings) :
    tree.ReadBy settings (innerAt (levels + 1)) fits where
  begins rest := begins_signs all rest
  alone ends := by
    rw [InnerRules.expr, operand_succ]
    exact (reads.alone ends).enter
  unclosed interrupts := by
    rw [query_succ]
    exact (reads.unclosed interrupts).enter

/-! ### Forms of expressions -/

/-- An expression that is read up to where an operator could follow. -/
theorem of_primary
    (primary : ∀ {rest : List Sign}, (kindAt rest 0).joinsOperand = false →
      (primaryExpr inner).TakesIf fits settings.pipesAsConcat (tree.signs settings ++ rest) rest tree)
    (unclosed : ∀ {rest : List Sign},
      (tree.isSubquery = true → (kindAt rest 0).interruptsQuery = true) →
        (wholeQuery inner).UnclosedIf fits settings.pipesAsConcat (tree.signs settings ++ rest)) :
    tree.Reads settings inner fits where
  alone ends := .operandBody_stop (primary (TokenKind.not_joinsOperand_of_endsExpr ends))
    (.of_endsExpr ends)
  bare _ _ _ _ _ apart behind met := (primary apart).bind_meets behind met
  unclosed := unclosed

/-- An expression of its own token, which begins no query. -/
theorem of_token
    (primary : ∀ {rest : List Sign}, (kindAt rest 0).joinsOperand = false →
      (primaryExpr inner).TakesIf fits settings.pipesAsConcat (tree.signs settings ++ rest) rest tree)
    (begins : ∀ rest : List Sign, (kindAt (tree.signs settings ++ rest) 0).startsQuery = false) :
    tree.Reads settings inner fits :=
  of_primary primary fun _ => unclosed_of_kind (begins _)

/-- An expression that an operator makes of its left operand. -/
theorem of_left (compound : tree.isCompound = true)
    (signs : tree.signs settings = left.operandSigns settings ++ tail)
    (front : left.InFront settings inner fits)
    (apart : ∀ rest, (kindAt (tail ++ rest) 0).joinsOperand = false)
    (interrupts : ∀ rest, (kindAt (tail ++ rest) 0).interruptsQuery = true)
    (extends_ : ∀ {rest : List Sign} {found : Expr}, (kindAt rest 0).endsExpr = true →
      Alike .plain left found → (extendOperand inner 0 found).TakesIf others settings.pipesAsConcat
        (tail ++ rest) rest (some tree)) :
    tree.Reads settings inner (fits ∧ others) where
  alone ends := by
    rw [signs, List.append_assoc]
    refine front.operand (Nat.zero_le _) (apart _) fun found alike => ?_
    refine (TakesIf.whileSome_more (extends_ ends alike) fun value same => ?_).of_iff
      (and_iff_left trivial)
    exact .whileSome_stop (.extendOperand_none (.of_endsExpr ends)) same
  bare simple := by
    rw [compound] at simple
    cases simple
  unclosed _ := by
    rw [signs, List.append_assoc]
    exact (front.unclosed (interrupts _)).mono And.left

end Expr.Reads

/-- Where no level is left, no expression fits. -/
theorem Expr.readBy_zero (all : (Node.expr tree).AllLegible settings) (none : ¬ fits) :
    tree.ReadBy settings (innerAt 0) fits where
  begins rest := begins_signs all rest
  alone _ := by
    rw [InnerRules.expr, operand_zero]
    exact .tooDeep none
  unclosed _ := by
    rw [query_zero]
    exact .tooDeep none

theorem Expr.operandBy_zero (none : ¬ fits) : tree.OperandBy settings (innerAt 0) fits := by
  intro power rest _ _ _
  rw [operand_zero]
  exact .tooDeep none

end SqlDml
