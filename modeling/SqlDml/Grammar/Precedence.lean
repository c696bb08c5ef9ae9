import SqlDml.Token.Basic
import SqlDml.Tree.Operator

/-!
Contract: which tokens continue an expression, and how tightly they bind.

Owns:
- the binding power of every operator;
- the continuation that a token, or two, begins behind an operand.

Does not own: reading the operands.
-/

namespace SqlDml

/-- How tightly a binary operator binds its left operand.  Its right operand binds one step more
tightly, so that operators of one power group to the left. -/
def BinaryOp.power : BinaryOp → Nat
  | .or => 1
  | .xor => 3
  | .and => 5
  | .equal | .nullSafeEqual | .notEqual | .less | .lessEqual | .greater | .greaterEqual => 9
  | .bitOr => 11
  | .bitAnd => 13
  | .shiftLeft | .shiftRight => 15
  | .add | .subtract => 17
  | .multiply | .divide | .intDivide | .modulo => 19
  | .bitXor => 21
  | .concat => 23

namespace Power

/-- The operand of `NOT`. -/
def notOperand : Nat := 7

/-- All predicates bind like comparisons. -/
def predicate : Nat := 9

/-- The operands of `BETWEEN`, `LIKE` and `SOUNDS LIKE` hold no comparison, so the `AND` of a range
is not taken for the operator. -/
def predicateOperand : Nat := 11

/-- The operand of a sign, of `~`, `!` and `BINARY`. -/
def unaryOperand : Nat := 25

/-- `COLLATE` binds more tightly than every operator. -/
def collate : Nat := 27

end Power

/-- What can follow an operand. -/
inductive Continuation where
  /-- A binary operator that compares nothing. -/
  | operator (op : BinaryOp)
  /-- A comparison, perhaps with all or any rows of a subquery. -/
  | comparison (op : BinaryOp)
  | is
  | isIn (negated : Bool)
  | between (negated : Bool)
  | like (op : LikeOp) (negated : Bool)
  | soundsLike
deriving DecidableEq, Repr

namespace Continuation

/-- How tightly a continuation binds the operand in front of it. -/
def power : Continuation → Nat
  | .operator op | .comparison op => op.power
  | _ => Power.predicate

/-- How many tokens a continuation begins with. -/
def width : Continuation → Nat
  | .isIn true | .between true | .like _ true | .soundsLike => 2
  | _ => 1

/-- The continuation that a token begins on its own. -/
def ofToken? (pipesAsConcat : Bool) : TokenKind → Option Continuation
  | .keyword .OR => some (.operator .or)
  | .punct .doublePipe => some (.operator (if pipesAsConcat then .concat else .or))
  | .keyword .XOR => some (.operator .xor)
  | .keyword .AND | .punct .doubleAmpersand => some (.operator .and)
  | .punct .equal => some (.comparison .equal)
  | .punct .nullSafeEqual => some (.comparison .nullSafeEqual)
  | .punct .bangEqual | .punct .lessGreater => some (.comparison .notEqual)
  | .punct .less => some (.comparison .less)
  | .punct .lessEqual => some (.comparison .lessEqual)
  | .punct .greater => some (.comparison .greater)
  | .punct .greaterEqual => some (.comparison .greaterEqual)
  | .keyword .IS => some .is
  | .keyword .IN => some (.isIn false)
  | .keyword .BETWEEN => some (.between false)
  | .keyword .LIKE => some (.like .like false)
  | .keyword .REGEXP | .keyword .RLIKE => some (.like .regexp false)
  | .punct .pipe => some (.operator .bitOr)
  | .punct .ampersand => some (.operator .bitAnd)
  | .punct .shiftLeft => some (.operator .shiftLeft)
  | .punct .shiftRight => some (.operator .shiftRight)
  | .punct .plus => some (.operator .add)
  | .punct .minus => some (.operator .subtract)
  | .punct .star => some (.operator .multiply)
  | .punct .slash => some (.operator .divide)
  | .punct .percent | .keyword .MOD => some (.operator .modulo)
  | .keyword .DIV => some (.operator .intDivide)
  | .punct .caret => some (.operator .bitXor)
  | _ => none

/-- The continuation that `NOT` begins together with the token behind it. -/
def afterNot? : TokenKind → Option Continuation
  | .keyword .IN => some (.isIn true)
  | .keyword .BETWEEN => some (.between true)
  | .keyword .LIKE => some (.like .like true)
  | .keyword .REGEXP | .keyword .RLIKE => some (.like .regexp true)
  | _ => none

/-- The continuation that `SOUNDS` begins together with the token behind it. -/
def afterSounds? : TokenKind → Option Continuation
  | .keyword .LIKE => some .soundsLike
  | _ => none

end Continuation

end SqlDml
