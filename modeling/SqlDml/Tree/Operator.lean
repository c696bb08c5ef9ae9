/-!
Contract: the operators of expressions.

Owns:
- binary and unary operators, and the words that select a variant of a predicate;
- which binary operators compare.

Does not own: precedence; that is the grammar.
-/

namespace SqlDml

/-- An operator between two operands. -/
inductive BinaryOp where
  | or | xor | and
  | equal | nullSafeEqual | notEqual | less | lessEqual | greater | greaterEqual
  | bitOr | bitAnd | shiftLeft | shiftRight | bitXor
  | add | subtract | multiply | divide | intDivide | modulo
  /-- `||` where it joins strings. -/
  | concat
deriving DecidableEq, Repr

/-- Whether the operator compares its operands. -/
def BinaryOp.isComparison : BinaryOp → Bool
  | .equal | .nullSafeEqual | .notEqual | .less | .lessEqual | .greater | .greaterEqual => true
  | _ => false

/-- An operator before its operand. -/
inductive UnaryOp where
  | negate | plus | bitNot
  /-- `NOT` and `!`. -/
  | not
  | binary
deriving DecidableEq, Repr

/-- What `IS` compares with. -/
inductive IsValue where
  | null | true | false | unknown
deriving DecidableEq, Repr

/-- Over which rows of a subquery a comparison ranges. -/
inductive Quantifier where
  | all
  /-- `ANY` and `SOME`. -/
  | any
deriving DecidableEq, Repr

/-- The kind of a pattern match. -/
inductive LikeOp where
  | like
  /-- `REGEXP` and `RLIKE`. -/
  | regexp
deriving DecidableEq, Repr

end SqlDml
