import Mathlib.Data.List.Basic
import SqlDml.Grammar.Precedence
import SqlDml.Proofs.Canonical.Constants
import SqlDml.Proofs.Canonical.Continued
import SqlDml.Tree.Query

/-!
Contract: precedence climbing reads a chain of operands as the tree that it stands for.

Owns:
- the precedence of every binary operator;
- the last operator of lowest precedence in a chain, and the tree that is split there;
- how the tree of a chain is put together from those of its parts;
- operands as operators in front of a column, a constant or a parameter marker;
- chains of operands, with operators between them in any spelling, and the tree of a chain;
- that the rules for operands take a chain up to where an operator of lower precedence follows.

Does not own: the numbering of parameter markers.
-/

namespace SqlDml

/-! ### Operators -/

namespace BinaryOp

/-- The precedence of an operator, lowest first. -/
def precedence : BinaryOp → Nat
  | .or => 1
  | .xor => 2
  | .and => 3
  | .equal | .nullSafeEqual | .notEqual | .less | .lessEqual | .greater | .greaterEqual => 4
  | .bitOr => 5
  | .bitAnd => 6
  | .shiftLeft | .shiftRight => 7
  | .add | .subtract => 8
  | .multiply | .divide | .intDivide | .modulo => 9
  | .bitXor => 10
  | .concat => 11

/-- The powers leave room for `NOT` between `AND` and the comparisons. -/
theorem power_eq (op : BinaryOp) :
    op.power = if op.precedence ≤ 3 then 2 * op.precedence - 1 else 2 * op.precedence + 1 := by
  cases op <;> rfl

theorem precedence_pos (op : BinaryOp) : 0 < op.precedence := by
  cases op <;> decide

theorem precedence_le (op : BinaryOp) : op.precedence ≤ 11 := by
  cases op <;> decide

/-- An operator binds more tightly than another one exactly if its precedence is higher. -/
theorem power_lt_iff {op other : BinaryOp} :
    op.power < other.power ↔ op.precedence < other.precedence := by
  rw [power_eq, power_eq]
  split <;> split <;> omega

theorem power_lt_unaryOperand (op : BinaryOp) : op.power < Power.unaryOperand := by
  cases op <;> decide

end BinaryOp

/-! ### Splitting -/

/-- The links of a chain before and behind the last one whose operator has the lowest precedence. -/
def lastLowest? : List (BinaryOp × Expr) →
    Option (List (BinaryOp × Expr) × (BinaryOp × Expr) × List (BinaryOp × Expr))
  | [] => none
  | link :: links =>
      match lastLowest? links with
      | none => some ([], link, [])
      | some (before, lowest, behind) =>
          if link.1.precedence < lowest.1.precedence then some ([], link, links)
          else some (link :: before, lowest, behind)

section

variable {links before behind : List (BinaryOp × Expr)} {lowest : BinaryOp × Expr}

theorem lastLowest?_eq_none (none : lastLowest? links = none) : links = [] := by
  cases links with
  | nil => rfl
  | cons link links =>
      unfold lastLowest? at none
      split at none
      · cases none
      · split at none <;> cases none

/-- Where a chain is split no link has a lower precedence, and none behind has the same. -/
theorem lastLowest?_spec (found : lastLowest? links = some (before, lowest, behind)) :
    links = before ++ lowest :: behind ∧
      (∀ link ∈ before, lowest.1.precedence ≤ link.1.precedence) ∧
      ∀ link ∈ behind, lowest.1.precedence < link.1.precedence := by
  induction links generalizing before lowest behind with
  | nil => cases found
  | cons link links inductionHypothesis =>
      unfold lastLowest? at found
      split at found
      · next none =>
          cases found
          rw [lastLowest?_eq_none none]
          simp
      · next inside least others among =>
          obtain ⟨split, noLower, higher⟩ := inductionHypothesis among
          split at found
          · next lower =>
              cases found
              refine ⟨rfl, by simp, fun other member => ?_⟩
              rw [split] at member
              rcases List.mem_append.mp member with earlier | later
              · exact Nat.lt_of_lt_of_le lower (noLower other earlier)
              · rcases List.mem_cons.mp later with rfl | later
                · exact lower
                · exact Nat.lt_trans lower (higher other later)
          · next noLess =>
              cases found
              refine ⟨by rw [split]; rfl, ?_, higher⟩
              exact List.forall_mem_cons.mpr ⟨Nat.le_of_not_lt noLess, noLower⟩

/-- A chain is split at such a link. -/
theorem lastLowest?_append (noLower : ∀ link ∈ before, lowest.1.precedence ≤ link.1.precedence)
    (higher : ∀ link ∈ behind, lowest.1.precedence < link.1.precedence) :
    lastLowest? (before ++ lowest :: behind) = some (before, lowest, behind) := by
  induction before with
  | nil =>
      rw [List.nil_append]
      unfold lastLowest?
      cases found : lastLowest? behind with
      | none => rw [lastLowest?_eq_none found]
      | some parts =>
          obtain ⟨earlier, least, later⟩ := parts
          have among : least ∈ behind := by
            rw [(lastLowest?_spec found).1]
            simp
          exact if_pos (higher least among)
  | cons link before inductionHypothesis =>
      rw [List.forall_mem_cons] at noLower
      rw [List.cons_append, lastLowest?, inductionHypothesis noLower.2]
      exact if_neg (Nat.not_lt.mpr noLower.1)

theorem length_before_lt (found : lastLowest? links = some (before, lowest, behind)) :
    before.length < links.length := by
  rw [(lastLowest?_spec found).1, List.length_append, List.length_cons]
  omega

theorem length_behind_lt (found : lastLowest? links = some (before, lowest, behind)) :
    behind.length < links.length := by
  rw [(lastLowest?_spec found).1, List.length_append, List.length_cons]
  omega

end

/-- The tree of a chain: the operator where the chain is split, over the trees of the two parts. -/
def splitTree (first : Expr) (links : List (BinaryOp × Expr)) : Expr :=
  match _found : lastLowest? links with
  | none => first
  | some (before, (op, next), behind) =>
      .ofOperands (splitTree first before) op (splitTree next behind)
termination_by links.length
decreasing_by
  · exact length_before_lt _found
  · exact length_behind_lt _found

@[simp] theorem splitTree_nil (first : Expr) : splitTree first [] = first := by
  unfold splitTree
  rfl

/-- The tree of a chain that has no lower operator than one of its own, and behind it higher ones
only. -/
theorem splitTree_append {before behind : List (BinaryOp × Expr)} {op : BinaryOp} {next : Expr}
    (first : Expr) (noLower : ∀ link ∈ before, op.precedence ≤ link.1.precedence)
    (higher : ∀ link ∈ behind, op.precedence < link.1.precedence) :
    splitTree first (before ++ (op, next) :: behind) =
      .ofOperands (splitTree first before) op (splitTree next behind) := by
  have found := @lastLowest?_append before behind (op, next) noLower higher
  rw [splitTree]
  split
  · next none =>
      rw [found] at none
      cases none
  · next some_ =>
      rw [found] at some_
      cases some_
      rfl

/-! ### Operands -/

/-- A column, a constant or a parameter marker, with the signs that it is read from. -/
inductive Atom (settings : Settings) : List Sign → Expr → Prop where
  | column {ref : ColumnRef} (named : ref.Named settings) :
      Atom settings (ref.signs settings) (.column ref)
  | constant {signs : List Sign} {value : Literal} {span : Span}
      (read : value.ReadFrom settings signs) : Atom settings signs (.literal value span)
  | marker {sign : Sign} {number : Nat} {span : Span} (question : sign.kind = .punct .question) :
      Atom settings [sign] (.placeholder number span)

/-- The operator that a token is in front of an operand. -/
def TokenKind.lead? : TokenKind → Option UnaryOp
  | .punct .minus => some .negate
  | .punct .plus => some .plus
  | .punct .tilde => some .bitNot
  | .punct .bang => some .not
  | .keyword .BINARY => some .binary
  | _ => none

/-- An operator in front of an operand. -/
structure Lead where
  sign : Sign
  op : UnaryOp
  names : sign.kind.lead? = some op

/-- Operators in front of a column, a constant or a parameter marker. -/
structure Operand (settings : Settings) where
  leads : List Lead
  inside : List Sign
  atom : Expr
  read : Atom settings inside atom

namespace Operand

variable {settings : Settings}

def signs (operand : Operand settings) : List Sign :=
  operand.leads.map Lead.sign ++ operand.inside

/-- All operators in front apply to the operand itself. -/
def tree (operand : Operand settings) : Expr :=
  operand.leads.foldr (fun lead tree => .unary lead.op tree Span.zero) operand.atom

end Operand

/-! ### Chains -/

/-- An operator in any of its spellings, and the operand behind it. -/
structure Link (settings : Settings) where
  sign : Sign
  op : BinaryOp
  spelled : sign.kind ∈ op.spellings settings.pipesAsConcat
  operand : Operand settings

namespace Link

variable {settings : Settings}

/-- The signs of links, one behind the other. -/
def signsOf (links : List (Link settings)) : List Sign :=
  links.flatMap fun link => link.sign :: link.operand.signs

@[simp] theorem signsOf_nil : signsOf ([] : List (Link settings)) = [] := rfl

@[simp] theorem signsOf_cons (link : Link settings) (links : List (Link settings)) :
    signsOf (link :: links) = link.sign :: (link.operand.signs ++ signsOf links) := by
  simp [signsOf]

theorem signsOf_append (front back : List (Link settings)) :
    signsOf (front ++ back) = signsOf front ++ signsOf back := List.flatMap_append

/-- The operators of links, with the trees of their operands. -/
def trees (links : List (Link settings)) : List (BinaryOp × Expr) :=
  links.map fun link => (link.op, link.operand.tree)

end Link

/-! ### Behind an operand -/

/-- Nothing stands behind a chain, or an operator of a precedence up to a limit. -/
def EndsBelow (concat : Bool) (limit : Nat) (signs : List Sign) : Prop :=
  signs = [] ∨ ∃ (op : BinaryOp) (sign : Sign) (rest : List Sign), signs = sign :: rest ∧
    sign.kind ∈ op.spellings concat ∧ op.precedence ≤ limit

namespace EndsBelow

variable {concat : Bool} {limit : Nat} {signs : List Sign}

/-- What stands behind a chain is nothing but an operator. -/
theorem kind_ne (ends : EndsBelow concat limit signs) {kind : TokenKind}
    (inner : kind ≠ .endOfInput) (other : Continuation.ofToken? concat kind = none) :
    kindAt signs 0 ≠ kind := by
  rcases ends with rfl | ⟨op, sign, rest, rfl, spelled, _⟩
  · exact inner.symm
  · rintro rfl
    rw [kindAt_zero, BinaryOp.ofToken?_of_spelling spelled] at other
    cases other

theorem noValue (ends : EndsBelow concat limit signs) :
    Rule.isIntroducible (kindAt signs 0) = false := by
  cases kind : kindAt signs 0 with
  | string value quote => exact absurd kind (ends.kind_ne (by simp) rfl)
  | hex digits => exact absurd kind (ends.kind_ne (by simp) rfl)
  | bit digits => exact absurd kind (ends.kind_ne (by simp) rfl)
  | _ => rfl

theorem noString (ends : EndsBelow concat limit signs) : (kindAt signs 0).isString = false := by
  cases kind : kindAt signs 0 with
  | string value quote => exact absurd kind (ends.kind_ne (by simp) rfl)
  | _ => rfl

/-- Operators that bind less tightly extend nothing. -/
theorem loosens (ends : EndsBelow concat limit signs) {power : Nat}
    (tighter : ∀ op : BinaryOp, op.precedence ≤ limit → op.power < power) :
    Loosens concat power signs where
  collates word := absurd word (ends.kind_ne (by simp) rfl)
  continues continuation found := by
    rcases ends with rfl | ⟨op, sign, rest, rfl, spelled, below⟩
    · cases found
    · rw [continuationAt_of_spelling spelled] at found
      cases found
      rw [op.continuation_power]
      exact tighter op below

/-- Further links, the first of which is not above the limit, end a chain too. -/
theorem behind {settings : Settings} {links : List (Link settings)} {higher : Nat}
    (ends : EndsBelow settings.pipesAsConcat limit signs)
    (next : ∀ link ∈ links.head?, link.op.precedence ≤ higher) (below : limit ≤ higher) :
    EndsBelow settings.pipesAsConcat higher (Link.signsOf links ++ signs) := by
  cases links with
  | nil =>
      rcases ends with rfl | ⟨op, sign, rest, rfl, spelled, low⟩
      · exact .inl rfl
      · exact .inr ⟨op, sign, rest, rfl, spelled, Nat.le_trans low below⟩
  | cons link links =>
      exact .inr ⟨link.op, link.sign, _, rfl, link.spelled, next link rfl⟩

end EndsBelow

/-! ### Reading operands -/

namespace Rule.Takes

variable {settings : Settings} {concat : Bool} {limit : Nat} {rest : List Sign}

theorem atom (inner : InnerRules) {signs : List Sign} {tree : Expr} (read : Atom settings signs tree)
    (ends : EndsBelow concat limit rest) :
    (primaryExpr inner).Takes concat (signs ++ rest) rest tree := by
  have noParen : kindAt rest 0 ≠ .punct .leftParen := ends.kind_ne (by simp) rfl
  cases read with
  | column named => exact column inner named (ends.kind_ne (by simp) rfl) ends.noValue noParen
  | constant read => exact (constant inner read ends.noString noParen).congr inferInstance
  | marker question =>
      unfold primaryExpr
      refine .peek ?_
      rw [List.singleton_append, kindAt_zero, question]
      unfold placeholder
      exact .advance fun token _ => .nextPlaceholder fun number => .pure

/-- An operator in front is read with the operand behind it, one nesting level deeper. -/
theorem unary {levels : Nat} {sign : Sign} {before : List Sign} {op : UnaryOp} {tree : Expr}
    (names : sign.kind.lead? = some op) (loosens : Loosens concat Power.unaryOperand rest)
    (read : (primaryExpr (innerAt levels)).Takes concat before rest tree) :
    (primaryExpr (innerAt (levels + 1))).Takes concat (sign :: before) rest
      (.unary op tree Span.zero) := by
  have nested : (unaryExpr (innerAt (levels + 1)) op Power.unaryOperand).Takes concat
      (sign :: before) rest (.unary op tree Span.zero) := by
    unfold unaryExpr
    rw [operand_succ]
    refine .advance fun start _ => ?_
    exact (TakesIf.operandBody_stop read loosens).enter.bind_takes fun found alike => .pure
  unfold primaryExpr
  refine .peek ?_
  rw [kindAt_zero]
  unfold TokenKind.lead? at names
  split at names
  case h_6 => cases names
  all_goals
    next kind =>
      cases names
      rw [kind]
      exact nested

/-- An operand is read with one nesting level for each operator in front. -/
theorem operand {levels : Nat} (operand : Operand settings) (enough : operand.leads.length ≤ levels)
    (ends : EndsBelow concat limit rest) :
    (primaryExpr (innerAt levels)).Takes concat (operand.signs ++ rest) rest operand.tree := by
  obtain ⟨leads, inside, atom, read⟩ := operand
  have loosens : Loosens concat Power.unaryOperand rest :=
    ends.loosens fun op _ => op.power_lt_unaryOperand
  induction leads generalizing levels with
  | nil => exact Takes.atom _ read ends
  | cons lead leads inductionHypothesis =>
      cases levels with
      | zero => cases enough
      | succ levels =>
          exact unary lead.names loosens (inductionHypothesis (Nat.le_of_succ_le_succ enough))

/-! ### Reading chains -/

/-- No operand of a chain begins with a quantifier and a parenthesis. -/
theorem unquantified (operand : Operand settings) (ends : EndsBelow concat limit rest) :
    Unquantified (operand.signs ++ rest) := by
  obtain ⟨leads, inside, atom, read⟩ := operand
  unfold Operand.signs
  cases leads with
  | cons lead leads =>
      left
      have names := lead.names
      rw [List.map_cons, List.cons_append, List.cons_append, kindAt_zero]
      unfold TokenKind.lead? at names
      split at names
      case h_6 => cases names
      all_goals
        next kind =>
          rw [kind]
          rfl
  | nil =>
      rw [List.map_nil, List.nil_append]
      cases read with
      | column named =>
          refine .inr (.inl ?_)
          obtain ⟨_, _, _, dot | same⟩ := begins_column named rest
          · simp [dot]
          · rw [same]
            exact ends.kind_ne (by simp) rfl
      | marker question =>
          left
          rw [List.singleton_append, kindAt_zero, question]
          rfl
      | constant read => exact .inl (quantifier?_of_beginsConstant (beginsConstant_of_readFrom read rest))

/-- The operators above a limit are those that bind at least as tightly as a power. -/
structure Parts (limit power : Nat) : Prop where
  tighter : ∀ op : BinaryOp, limit < op.precedence → power ≤ op.power
  looser : ∀ op : BinaryOp, op.precedence ≤ limit → op.power < power

/-- What an operator leaves to the operand behind it. -/
theorem parts_behind (op : BinaryOp) : Parts op.precedence (op.power + 1) where
  tighter _ above := Nat.succ_le_of_lt (BinaryOp.power_lt_iff.mpr above)
  looser _ below := Nat.lt_succ_of_le (Nat.le_of_not_lt fun lower =>
    Nat.not_lt.mpr below (BinaryOp.power_lt_iff.mp lower))

/-- Links begin with those above a precedence, up to one that is not. -/
theorem exists_above (precedence : Nat) (links : List (Link settings)) :
    ∃ inside behind, links = inside ++ behind ∧
      (∀ link ∈ inside, precedence < link.op.precedence) ∧
      ∀ link ∈ behind.head?, link.op.precedence ≤ precedence := by
  induction links with
  | nil => exact ⟨[], [], rfl, by simp, by simp⟩
  | cons link links inductionHypothesis =>
      by_cases above : precedence < link.op.precedence
      · obtain ⟨inside, behind, split, higher, next⟩ := inductionHypothesis
        refine ⟨link :: inside, behind, by rw [split]; rfl, ?_, next⟩
        exact List.forall_mem_cons.mpr ⟨above, higher⟩
      · exact ⟨[], link :: links, rfl, by simp, by simpa using above⟩

/-- An operand takes the links behind it, one nesting level deep. -/
theorem operandOfLinks {levels power : Nat} {links : List (Link settings)}
    (operand : Operand settings) (enough : operand.leads.length ≤ levels)
    (ends : EndsBelow concat limit (Link.signsOf links ++ rest))
    (behind : ∀ found, Alike .plain operand.tree found →
      (whileSome (extendOperand (innerAt levels) power) found).Takes concat
        (Link.signsOf links ++ rest) rest (splitTree operand.tree (Link.trees links))) :
    ((innerAt (levels + 1)).operand power).Takes concat
      (operand.signs ++ (Link.signsOf links ++ rest)) rest
      (splitTree operand.tree (Link.trees links)) := by
  rw [operand_succ]
  unfold operandBody
  exact ((Takes.operand operand enough ends).bind behind).enter

/-- Behind an operand links are taken as long as their operators are above the limit.  What is in
front of them, the operand and links before, makes one tree already, in which no operator is lower
than the next one. -/
theorem links {levels power : Nat} {first left : Expr} {before : List (BinaryOp × Expr)}
    {links : List (Link settings)} (parts : Parts limit power)
    (above : ∀ link ∈ links, limit < link.op.precedence)
    (falling : ∀ link ∈ links.head?, ∀ earlier ∈ before,
      link.op.precedence ≤ earlier.1.precedence)
    (deep : ∀ link ∈ links, 11 + link.operand.leads.length ≤ levels + limit)
    (ends : EndsBelow settings.pipesAsConcat limit rest)
    (alike : Alike .plain (splitTree first before) left) :
    (whileSome (extendOperand (innerAt levels) power) left).Takes settings.pipesAsConcat
      (Link.signsOf links ++ rest) rest (splitTree first (before ++ Link.trees links)) := by
  obtain ⟨size, bound⟩ : ∃ size, links.length ≤ size := ⟨_, Nat.le_refl _⟩
  induction size generalizing levels power limit first left before links rest with
  | zero =>
      obtain rfl := List.eq_nil_of_length_eq_zero (Nat.le_zero.mp bound)
      refine .whileSome_stop (.extendOperand_none (ends.loosens parts.looser)) ?_
      rwa [Link.trees, List.map_nil, List.append_nil]
  | succ size inductionHypothesis =>
      cases links with
      | nil =>
          refine .whileSome_stop (.extendOperand_none (ends.loosens parts.looser)) ?_
          rwa [Link.trees, List.map_nil, List.append_nil]
      | cons link links =>
          rw [List.forall_mem_cons] at above deep
          have noLower : ∀ earlier ∈ before, link.op.precedence ≤ earlier.1.precedence :=
            falling link rfl
          -- the operand behind the operator takes the links above it, and leaves the others
          obtain ⟨inside, behind, rfl, higher, next⟩ : ∃ inside behind, links = inside ++ behind ∧
              (∀ other ∈ inside, link.op.precedence < other.op.precedence) ∧
              ∀ other ∈ behind.head?, other.op.precedence ≤ link.op.precedence :=
            exists_above link.op.precedence links
          have room : inside.length ≤ size ∧ behind.length ≤ size := by
            rw [List.length_cons, List.length_append] at bound
            omega
          have apart : EndsBelow settings.pipesAsConcat link.op.precedence
              (Link.signsOf behind ++ rest) := ends.behind next (Nat.le_of_lt above.1)
          have last : EndsBelow settings.pipesAsConcat 11
              (Link.signsOf inside ++ (Link.signsOf behind ++ rest)) :=
            apart.behind (fun other _ => other.op.precedence_le) link.op.precedence_le
          obtain ⟨levels, rfl⟩ : ∃ fewer, levels = fewer + 1 := by
            have highest := link.op.precedence_le
            exact Nat.exists_eq_succ_of_ne_zero (by omega)
          have enough : link.operand.leads.length ≤ levels := by
            have highest := link.op.precedence_le
            omega
          have operand : ((innerAt (levels + 1)).operand (link.op.power + 1)).Takes _ _ _ _ :=
            operandOfLinks link.operand enough last fun found same => by
              have alone : Alike .plain (splitTree link.operand.tree []) found := by
                rwa [splitTree_nil]
              refine inductionHypothesis (parts_behind link.op) higher ?_ ?_ apart alone room.1
              · simp
              · intro other member
                have enough := deep.2 other (List.mem_append_left _ member)
                omega
          -- what is read so far is a tree of its own, split at the operator
          have joined : splitTree first
              (before ++ (link.op, link.operand.tree) :: Link.trees inside) =
                .ofOperands (splitTree first before) link.op
                  (splitTree link.operand.tree (Link.trees inside)) := by
            refine splitTree_append first noLower fun other member => ?_
            obtain ⟨source, among, rfl⟩ := List.mem_map.mp member
            exact higher source among
          have signs : Link.signsOf (link :: (inside ++ behind)) ++ rest = link.sign ::
              (link.operand.signs ++ (Link.signsOf inside ++ (Link.signsOf behind ++ rest))) := by
            simp [Link.signsOf_append]
          have trees : before ++ Link.trees (link :: (inside ++ behind)) =
              (before ++ (link.op, link.operand.tree) :: Link.trees inside) ++
                Link.trees behind := by
            simp [Link.trees]
          rw [signs, trees]
          refine whileSome_more (TakesIf.extended link.spelled (parts.tighter _ above.1)
            (fun _ => unquantified link.operand last) alike operand) fun found same => ?_
          refine inductionHypothesis parts ?_ ?_ ?_ ends (by rwa [joined]) room.2
          · exact fun other member => above.2 other (List.mem_append_right _ member)
          · intro other follows earlier member
            have low := next other follows
            rcases List.mem_append.mp member with front | inner
            · exact Nat.le_trans low (noLower earlier front)
            · rcases List.mem_cons.mp inner with rfl | inner
              · exact low
              · obtain ⟨source, among, rfl⟩ := List.mem_map.mp inner
                exact Nat.le_trans low (Nat.le_of_lt (higher source among))
          · exact fun other member => deep.2 other (List.mem_append_right _ member)

end Rule.Takes

end SqlDml
