import SqlDml.Proofs.Canonical.Takes

/-!
Contract: what continues an operand, told by the next signs.

Owns:
- the continuation that signs begin with;
- that an operand is extended by a continuation that binds tightly enough, and by nothing else.

Does not own: how a continuation is read.
-/

namespace SqlDml

/-- The continuation that signs begin with, if they begin with one. -/
def continuationAt (concat : Bool) (signs : List Sign) : Option Continuation :=
  match kindAt signs 0 with
  | .keyword .NOT => Continuation.afterNot? (kindAt signs 1)
  | .keyword .SOUNDS => Continuation.afterSounds? (kindAt signs 1)
  | kind => Continuation.ofToken? concat kind

theorem Spot.continuation?_eq {spot : Spot} {concat : Bool} {signs : List Sign}
    (setting : spot.settings.pipesAsConcat = concat) (front : spot.signs = signs) :
    spot.continuation? = continuationAt concat signs := by
  subst setting
  subst front
  rw [continuation?, continuationAt, spot.kindAt_signs, spot.kindAt_signs]
  rfl

/-- Nothing in front of the signs is extended that binds at least as tightly as a power. -/
structure Loosens (concat : Bool) (power : Nat) (signs : List Sign) : Prop where
  collates : kindAt signs 0 = .keyword .COLLATE → Power.collate < power
  continues : ∀ continuation ∈ continuationAt concat signs, continuation.power < power

theorem Loosens.mono {concat : Bool} {power more : Nat} {signs : List Sign}
    (loosens : Loosens concat power signs) (tighter : power ≤ more) : Loosens concat more signs where
  collates word := Nat.lt_of_lt_of_le (loosens.collates word) tighter
  continues continuation found := Nat.lt_of_lt_of_le (loosens.continues continuation found) tighter

/-- A sign that begins nothing that extends an operand. -/
theorem Loosens.of_kind {concat : Bool} {signs : List Sign} {kind : TokenKind} (power : Nat)
    (first : kindAt signs 0 = kind) (noCollate : kind ≠ .keyword .COLLATE)
    (noNot : kind ≠ .keyword .NOT) (noSounds : kind ≠ .keyword .SOUNDS)
    (nothing : ∀ concat, Continuation.ofToken? concat kind = none) : Loosens concat power signs where
  collates word := absurd (first.symm.trans word) noCollate
  continues continuation found := by
    unfold continuationAt at found
    rw [first] at found
    split at found
    · exact absurd rfl noNot
    · exact absurd rfl noSounds
    · rw [nothing] at found
      cases found

/-- In front of the end nothing is extended. -/
theorem loosens_nil (concat : Bool) (power : Nat) : Loosens concat power [] :=
  .of_kind power rfl (by simp) (by simp) (by simp) fun _ => rfl

/-! ### Operators between operands -/

/-- The tokens that an operator can be spelled with.  Two pipes join strings or mean `OR`. -/
def BinaryOp.spellings (pipesAsConcat : Bool) : BinaryOp → List TokenKind
  | .or => .keyword .OR :: if pipesAsConcat then [] else [.punct .doublePipe]
  | .xor => [.keyword .XOR]
  | .and => [.keyword .AND, .punct .doubleAmpersand]
  | .equal => [.punct .equal]
  | .nullSafeEqual => [.punct .nullSafeEqual]
  | .notEqual => [.punct .bangEqual, .punct .lessGreater]
  | .less => [.punct .less]
  | .lessEqual => [.punct .lessEqual]
  | .greater => [.punct .greater]
  | .greaterEqual => [.punct .greaterEqual]
  | .bitOr => [.punct .pipe]
  | .bitAnd => [.punct .ampersand]
  | .shiftLeft => [.punct .shiftLeft]
  | .shiftRight => [.punct .shiftRight]
  | .bitXor => [.punct .caret]
  | .add => [.punct .plus]
  | .subtract => [.punct .minus]
  | .multiply => [.punct .star]
  | .divide => [.punct .slash]
  | .intDivide => [.keyword .DIV]
  | .modulo => [.punct .percent, .keyword .MOD]
  | .concat => if pipesAsConcat then [.punct .doublePipe] else []

/-- How an operator goes on behind an operand. -/
def BinaryOp.continuation (op : BinaryOp) : Continuation :=
  if op.isComparison then .comparison op else .operator op

theorem BinaryOp.continuation_cases (op : BinaryOp) :
    op.isComparison = true ∧ op.continuation = .comparison op ∨ op.continuation = .operator op := by
  unfold continuation
  split
  · next compares => exact .inl ⟨compares, rfl⟩
  · exact .inr rfl

theorem BinaryOp.continuation_power (op : BinaryOp) : op.continuation.power = op.power := by
  cases op <;> rfl

theorem BinaryOp.continuation_width (op : BinaryOp) : op.continuation.width = 1 := by
  cases op <;> rfl

/-- A spelling of an operator is one of these tokens, and begins its continuation alone. -/
theorem BinaryOp.ofToken?_of_spelling {concat : Bool} {op : BinaryOp} {kind : TokenKind}
    (spelled : kind ∈ op.spellings concat) :
    Continuation.ofToken? concat kind = some op.continuation := by
  cases op <;> cases concat <;>
    simp only [spellings, Bool.false_eq_true, if_true, if_false, List.mem_cons, List.not_mem_nil,
      or_false] at spelled <;>
    (rcases spelled with rfl | rfl <;> rfl)

theorem continuationAt_of_spelling {concat : Bool} {op : BinaryOp} {sign : Sign}
    (spelled : sign.kind ∈ op.spellings concat) (rest : List Sign) :
    continuationAt concat (sign :: rest) = some op.continuation := by
  have alone := BinaryOp.ofToken?_of_spelling spelled
  unfold continuationAt
  rw [kindAt_zero]
  split
  · next word =>
      rw [word] at alone
      cases alone
  · next word =>
      rw [word] at alone
      cases alone
  · exact alone

/-- The signs do not begin with a quantifier and a query behind it. -/
def Rule.Unquantified (signs : List Sign) : Prop :=
  quantifier? (kindAt signs 0) = none ∨ kindAt signs 1 ≠ .punct .leftParen ∨
    (kindAt signs 2).startsQuery = false

section

variable {inner : InnerRules} [inner.Lawful] {concat : Bool} {power : Nat} {signs rest : List Sign}
  {left tree : Expr} {fits : Prop}

namespace Rule.Takes

theorem extendOperand_none (loosens : Loosens concat power signs) :
    (extendOperand inner power left).Takes concat signs signs none := by
  refine .of_on fun spot setting front => ⟨none, spot, ?_, front, inferInstance⟩
  rw [on_extendOperand, spot.continuation?_eq setting front, spot.kind_eq_of_signs front]
  split
  · next collates => rw [if_neg (Nat.not_le.mpr (loosens.collates collates))]
  · split
    · next continuation found =>
        rw [if_neg (Nat.not_le.mpr (loosens.continues continuation found))]
    · rfl

theorem extendOperand_collate {sign : Sign} (word : sign.kind = .keyword .COLLATE)
    (tighter : power ≤ Power.collate)
    (read : (collate left).Takes concat (sign :: signs) rest tree) :
    (extendOperand inner power left).Takes concat (sign :: signs) rest (some tree) := by
  refine .of_on fun spot setting front => ?_
  obtain ⟨value, later, outcome, back, alike⟩ := read.on spot setting front
  refine ⟨some value, later, ?_, back, inferInstance⟩
  rw [on_extendOperand, spot.kind_eq_of_signs front, kindAt_zero, if_pos word, if_pos tighter,
    outcome, Outcome.bind_done]

omit [inner.Lawful] in
/-- The tokens that a continuation begins with are skipped. -/
theorem skipContinuation {continuation : Continuation} (lead : List Sign)
    (width : continuation.width = lead.length) :
    (Rule.skipContinuation continuation).Takes concat (lead ++ rest) rest () := by
  have widths : continuation.width = 1 ∨ continuation.width = 2 := by
    unfold Continuation.width
    split <;> simp
  unfold Rule.skipContinuation
  rcases widths with one | two
  · obtain ⟨sign, rfl⟩ : ∃ sign, lead = [sign] := List.length_eq_one_iff.mp (width.symm.trans one)
    refine .advance fun _ _ => ?_
    rw [one]
    exact .pure
  · obtain ⟨first, second, rfl⟩ : ∃ first second, lead = [first, second] :=
      List.length_eq_two.mp (width.symm.trans two)
    refine .advance fun _ _ => ?_
    rw [two]
    exact .advance fun _ _ => .pure

end Rule.Takes

namespace Rule.TakesIf

theorem extendOperand_some {continuation : Continuation}
    (found : continuationAt concat signs = some continuation) (tighter : power ≤ continuation.power)
    (read : (continueWith inner left continuation).TakesIf fits concat signs rest tree) :
    (extendOperand inner power left).TakesIf fits concat signs rest (some tree) := by
  have noCollate : kindAt signs 0 ≠ .keyword .COLLATE := by
    intro collates
    rw [continuationAt, collates] at found
    cases found
  refine takesIf_iff_meets.mpr fun spot setting front => ?_
  rw [on_extendOperand, spot.continuation?_eq setting front, spot.kind_eq_of_signs front,
    if_neg noCollate, found]
  simp only [if_pos tighter]
  rcases takesIf_iff_meets.mp read spot setting front with
    ⟨enough, value, later, outcome, back, alike⟩ | ⟨few, deep⟩
  · exact .inl ⟨enough, some value, later, by rw [outcome, Outcome.bind_done], back, inferInstance⟩
  · exact .inr ⟨few, by rw [deep]; rfl⟩

/-- An operand that nothing extends. -/
theorem operandBody_stop (primary : (primaryExpr inner).TakesIf fits concat signs rest tree)
    (loosens : Loosens concat power rest) :
    (operandBody inner power).TakesIf fits concat signs rest tree := by
  unfold operandBody
  exact primary.bind_takes fun found alike => .whileSome_stop (.extendOperand_none loosens) alike

/-! ### Operators -/

omit [inner.Lawful] in
/-- An operand behind a comparison is read as one behind any other operator. -/
theorem comparison {before : List Sign} {left' right : Expr} {op : BinaryOp}
    (unquantified : Unquantified before)
    (alike : Alike .plain left left')
    (read : (inner.operand (op.power + 1)).TakesIf fits concat before rest right) :
    (Rule.comparison inner left' op).TakesIf fits concat before rest
      (.ofOperands left op right) := by
  have plain : TakesIf fits concat
      (do return Expr.ofOperands left' op (← inner.operand (op.power + 1)))
      before rest (.ofOperands left op right) := read.bind_takes fun found same => .pure
  unfold Rule.comparison
  refine peek ?_
  split
  · exact plain
  · next quantifier found =>
      refine Takes.step (?_ : Takes concat (Rule.subqueryFollows 1) before before false) plain
      unfold Rule.subqueryFollows
      refine aheadIs 1 _ ?_
      rcases unquantified with none | noParen | noQuery
      · rw [found] at none
        cases none
      · rw [if_neg (by simpa using noParen)]
        exact .pure
      · split
        · exact peekAhead 2 (noQuery ▸ .pure)
        · exact .pure

/-- An operator extends what stands in front of it. -/
theorem extended {sign : Sign} {before : List Sign} {left' right : Expr} {op : BinaryOp}
    (spelled : sign.kind ∈ op.spellings concat) (tighter : power ≤ op.power)
    (unquantified : op.isComparison = true → Unquantified before) (alike : Alike .plain left left')
    (read : (inner.operand (op.power + 1)).TakesIf fits concat before rest right) :
    (extendOperand inner power left').TakesIf fits concat (sign :: before) rest
      (some (.ofOperands left op right)) := by
  refine extendOperand_some (continuationAt_of_spelling spelled before)
    (by rwa [op.continuation_power]) ?_
  unfold continueWith
  refine (Takes.skipContinuation [sign] op.continuation_width).bind fun _ _ => ?_
  rcases op.continuation_cases with ⟨compares, same⟩ | same
  · rw [same]
    exact comparison (unquantified compares) alike read
  · rw [same]
    exact read.bind_takes fun found same => .pure

end Rule.TakesIf

end

end SqlDml
