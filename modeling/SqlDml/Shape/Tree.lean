import SqlDml.Shape.Basic
import SqlDml.Tree.Query

/-!
Contract: the shapes of names, expressions and queries.

Owns:
- the names under which the parts of these trees are shown.

Does not own: the shapes of statements other than queries.
-/

namespace SqlDml

open Shape (optional listOf plain)

/-! ## Names and values -/

def Ident.shape (ident : Ident) : Shape :=
  .record "Ident" [("value", .text ident.value), ("quote", optional .char ident.quote),
    ("span", .span ident.span)]

def TableName.shape (name : TableName) : Shape :=
  .record "TableName" [("schema", optional Ident.shape name.schema), ("table", name.table.shape),
    ("span", .span name.span)]

def ColumnRef.shape (ref : ColumnRef) : Shape :=
  .record "ColumnRef" [("schema", optional Ident.shape ref.schema),
    ("table", optional Ident.shape ref.table), ("column", ref.column.shape),
    ("span", .span ref.span)]

def TemporalKind.shape : TemporalKind → Shape
  | .date => plain "Date"
  | .time => plain "Time"
  | .timestamp => plain "Timestamp"

def Literal.shape : Literal → Shape
  | .integer value => .choiceOf .beside "Integer" [.number value]
  | .number text => .choiceOf .beside "Number" [.text text]
  | .string value => .choiceOf .beside "String" [.text value]
  | .introduced charset value =>
      .choiceWith .beside "Introduced" [("charset", .text charset), ("value", value.shape)]
  | .hex digits => .choiceOf .beside "Hex" [.text digits]
  | .bit digits => .choiceOf .beside "Bit" [.text digits]
  | .null => .choice .beside "Null"
  | .true => .choice .beside "True"
  | .false => .choice .beside "False"
  | .temporal kind value =>
      .choiceWith .beside "Temporal" [("kind", kind.shape), ("value", .text value)]
  | .odbc kind value => .choiceWith .beside "Odbc" [("kind", .text kind), ("value", .text value)]
  | .currentTimestamp => .choice .beside "CurrentTimestamp"

/-! ## Operators -/

/-- The name of a binary operator. -/
def BinaryOp.shapeName : BinaryOp → String
  | .or => "Or"
  | .xor => "Xor"
  | .and => "And"
  | .equal => "Eq"
  | .nullSafeEqual => "NullSafeEq"
  | .notEqual => "Ne"
  | .less => "Lt"
  | .lessEqual => "Le"
  | .greater => "Gt"
  | .greaterEqual => "Ge"
  | .bitOr => "BitOr"
  | .bitAnd => "BitAnd"
  | .shiftLeft => "ShiftLeft"
  | .shiftRight => "ShiftRight"
  | .bitXor => "BitXor"
  | .add => "Add"
  | .subtract => "Subtract"
  | .multiply => "Multiply"
  | .divide => "Divide"
  | .intDivide => "IntDivide"
  | .modulo => "Modulo"
  | .concat => "Concat"

def BinaryOp.shape (op : BinaryOp) : Shape := plain op.shapeName

def UnaryOp.shape : UnaryOp → Shape
  | .negate => plain "Negate"
  | .plus => plain "Plus"
  | .bitNot => plain "BitNot"
  | .not => plain "Not"
  | .binary => plain "Binary"

def IsValue.shape : IsValue → Shape
  | .null => plain "Null"
  | .true => plain "True"
  | .false => plain "False"
  | .unknown => plain "Unknown"

def Quantifier.shape : Quantifier → Shape
  | .all => plain "All"
  | .any => plain "Any"

def LikeOp.shape : LikeOp → Shape
  | .like => plain "Like"
  | .regexp => plain "Regexp"

/-! ## Clauses without expressions -/

def SetQuantifier.shape : SetQuantifier → Shape
  | .all => plain "All"
  | .distinct => plain "Distinct"
  | .distinctRow => plain "DistinctRow"

def CacheOption.shape : CacheOption → Shape
  | .cache => plain "Cache"
  | .noCache => plain "NoCache"

def SelectModifiers.shape (modifiers : SelectModifiers) : Shape :=
  .record "SelectModifiers" [
    ("quantifier", optional SetQuantifier.shape modifiers.quantifier),
    ("high_priority", .flag modifiers.highPriority),
    ("straight_join", .flag modifiers.straightJoin),
    ("small_result", .flag modifiers.smallResult),
    ("big_result", .flag modifiers.bigResult),
    ("buffer_result", .flag modifiers.bufferResult),
    ("cache", optional CacheOption.shape modifiers.cache),
    ("calc_found_rows", .flag modifiers.calcFoundRows)]

def CompoundOp.shape : CompoundOp → Shape
  | .union => plain "Union"
  | .unionAll => plain "UnionAll"

def SortDirection.shape : SortDirection → Shape
  | .asc => plain "Asc"
  | .desc => plain "Desc"

def LockMode.shape : LockMode → Shape
  | .forUpdate => plain "ForUpdate"
  | .forShare => plain "ForShare"
  | .lockInShareMode => plain "LockInShareMode"

def LockWait.shape : LockWait → Shape
  | .noWait => plain "NoWait"
  | .skipLocked => plain "SkipLocked"

def LockingClause.shape (locking : LockingClause) : Shape :=
  .record "LockingClause" [("mode", locking.mode.shape),
    ("of", listOf TableName.shape locking.tables), ("wait", optional LockWait.shape locking.wait),
    ("span", .span locking.span)]

def JoinType.shape : JoinType → Shape
  | .inner => plain "Inner"
  | .cross => plain "Cross"
  | .straight => plain "Straight"
  | .left => plain "Left"
  | .right => plain "Right"
  | .natural => plain "Natural"
  | .naturalLeft => plain "NaturalLeft"
  | .naturalRight => plain "NaturalRight"

def IndexHintAction.shape : IndexHintAction → Shape
  | .use => plain "Use"
  | .ignore => plain "Ignore"
  | .force => plain "Force"

def IndexHintScope.shape : IndexHintScope → Shape
  | .join => plain "Join"
  | .orderBy => plain "OrderBy"
  | .groupBy => plain "GroupBy"

def IndexHint.shape (hint : IndexHint) : Shape :=
  .record "IndexHint" [("action", hint.action.shape),
    ("scope", optional IndexHintScope.shape hint.scope),
    ("indexes", listOf Ident.shape hint.indexes), ("span", .span hint.span)]

def NamedTable.shape (table : NamedTable) : Shape :=
  .record "NamedTable" [("name", table.name.shape),
    ("partitions", listOf Ident.shape table.partitions),
    ("alias", optional Ident.shape table.aliasName),
    ("index_hints", listOf IndexHint.shape table.indexHints), ("span", .span table.span)]

def TypeName.shape (target : TypeName) : Shape :=
  .record "TypeName" [("name", .text target.name), ("length", optional (fun size => .number (size : Nat)) target.length),
    ("scale", optional (fun size => .number (size : Nat)) target.scale)]

/-! ## Expressions and queries -/

/-- The name of the kind of an expression. -/
def Expr.shapeName : Expr → String
  | .literal .. => "Literal"
  | .column .. => "Column"
  | .placeholder .. => "Placeholder"
  | .default .. => "Default"
  | .binary .. => "BinaryOp"
  | .unary .. => "UnaryOp"
  | .is .. => "Is"
  | .quantified .. => "QuantifiedComparison"
  | .between .. => "Between"
  | .isIn .. => "In"
  | .like .. => "Like"
  | .soundsLike .. => "SoundsLike"
  | .case .. => "Case"
  | .cast .. => "Cast"
  | .call .. => "FunctionCall"
  | .subquery .. => "Subquery"
  | .exists .. => "Exists"
  | .row .. => "Row"
  | .collate .. => "Collate"

mutual
def Expr.shape : Expr → Shape
  | .literal value span => .choiceOf .outside "Literal" [value.shape, .span span]
  | .column ref => .choiceOf .outside "Column" [ref.shape]
  | .placeholder index span =>
      .choiceWith .outside "Placeholder" [("index", .number index), ("span", .span span)]
  | .default span => .choiceOf .outside "Default" [.span span]
  | .binary left op right span =>
      .choiceWith .outside "BinaryOp" [("left", left.shape), ("op", op.shape),
        ("right", right.shape), ("span", .span span)]
  | .unary op operand span =>
      .choiceWith .outside "UnaryOp" [("op", op.shape), ("expr", operand.shape),
        ("span", .span span)]
  | .is operand negated value span =>
      .choiceWith .outside "Is" [("expr", operand.shape), ("not", .flag negated),
        ("value", value.shape), ("span", .span span)]
  | .quantified left op quantifier query span =>
      .choiceWith .outside "QuantifiedComparison" [("left", left.shape), ("op", op.shape),
        ("quantifier", quantifier.shape), ("subquery", query.shape), ("span", .span span)]
  | .between operand low high negated span =>
      .choiceWith .outside "Between" [("expr", operand.shape), ("low", low.shape),
        ("high", high.shape), ("not", .flag negated), ("span", .span span)]
  | .isIn operand set negated span =>
      .choiceWith .outside "In" [("expr", operand.shape), ("set", set.shape),
        ("not", .flag negated), ("span", .span span)]
  | .like operand pattern escape op negated span =>
      .choiceWith .outside "Like" [("expr", operand.shape), ("pattern", pattern.shape),
        ("escape", match escape with
          | some char => .present char.shape
          | none => .absent),
        ("op", op.shape), ("not", .flag negated), ("span", .span span)]
  | .soundsLike operand pattern span =>
      .choiceWith .outside "SoundsLike" [("expr", operand.shape), ("pattern", pattern.shape),
        ("span", .span span)]
  | .case operand whens otherwise span =>
      .choiceWith .outside "Case" [
        ("operand", match operand with
          | some expr => .present expr.shape
          | none => .absent),
        ("whens", .list (Expr.whenShapes whens)),
        ("else_expr", match otherwise with
          | some expr => .present expr.shape
          | none => .absent),
        ("span", .span span)]
  | .cast operand target span =>
      .choiceWith .outside "Cast" [("expr", operand.shape), ("type_name", target.shape),
        ("span", .span span)]
  | .call name args distinct span =>
      .choiceWith .outside "FunctionCall" [("name", name.shape), ("args", args.shape),
        ("distinct", .flag distinct), ("span", .span span)]
  | .subquery query span => .choiceOf .outside "Subquery" [query.shape, .span span]
  | .exists query span =>
      .choiceWith .outside "Exists" [("subquery", query.shape), ("span", .span span)]
  | .row items span => .choiceOf .outside "Row" [.list (Expr.itemShapes items), .span span]
  | .collate operand collation span =>
      .choiceWith .outside "Collate" [("expr", operand.shape), ("collation", collation.shape),
        ("span", .span span)]

def Expr.itemShapes : List Expr → List Shape
  | [] => []
  | item :: items => item.shape :: Expr.itemShapes items

def Expr.whenShapes : List (Expr × Expr) → List Shape
  | [] => []
  | (condition, result) :: whens =>
      .tuple [condition.shape, result.shape] :: Expr.whenShapes whens

def InSet.shape : InSet → Shape
  | .list items => .choiceOf .outside "List" [.list (Expr.itemShapes items)]
  | .subquery query => .choiceOf .outside "Subquery" [query.shape]

def CallArgs.shape : CallArgs → Shape
  | .star => plain "Star"
  | .list items => .choiceOf .outside "List" [.list (Expr.itemShapes items)]

def Query.shape : Query → Shape
  | ⟨withClause, body, orderBy, limit, locking, span⟩ =>
      .record "SelectStatement" [
        ("with", match withClause with
          | some tables => .present tables.shape
          | none => .absent),
        ("body", body.shape),
        ("order_by", .list (OrderingTerm.termShapes orderBy)),
        ("limit", match limit with
          | some clause => .present clause.shape
          | none => .absent),
        ("locking", optional LockingClause.shape locking),
        ("span", .span span)]

def WithClause.shape : WithClause → Shape
  | ⟨recursive, tables, span⟩ =>
      .record "WithClause" [("recursive", .flag recursive),
        ("ctes", .list (CommonTable.tableShapes tables)), ("span", .span span)]

def CommonTable.shape : CommonTable → Shape
  | ⟨name, columns, query, span⟩ =>
      .record "Cte" [("name", name.shape), ("columns", listOf Ident.shape columns),
        ("query", query.shape), ("span", .span span)]

def CommonTable.tableShapes : List CommonTable → List Shape
  | [] => []
  | table :: tables => table.shape :: CommonTable.tableShapes tables

def QueryBody.shape : QueryBody → Shape
  | ⟨first, compounds, span⟩ =>
      .record "SelectBody" [("first", first.shape),
        ("compounds", .list (QueryTerm.compoundShapes compounds)), ("span", .span span)]

def QueryTerm.shape : QueryTerm → Shape
  | .select core => .choiceOf .outside "Select" [core.shape]
  | .nested query => .choiceOf .outside "Nested" [query.shape]

def QueryTerm.compoundShapes : List (CompoundOp × QueryTerm) → List Shape
  | [] => []
  | (op, term) :: compounds =>
      .tuple [op.shape, term.shape] :: QueryTerm.compoundShapes compounds

def SelectCore.shape : SelectCore → Shape
  | ⟨modifiers, columns, sources, filter, groupBy, withRollup, having, span⟩ =>
      .record "SelectCore" [("modifiers", modifiers.shape),
        ("columns", .list (SelectItem.itemShapes columns)),
        ("from", .list (TableRef.refShapes sources)),
        ("where_clause", match filter with
          | some condition => .present condition.shape
          | none => .absent),
        ("group_by", .list (OrderingTerm.termShapes groupBy)),
        ("with_rollup", .flag withRollup),
        ("having", match having with
          | some condition => .present condition.shape
          | none => .absent),
        ("span", .span span)]

def SelectItem.shape : SelectItem → Shape
  | .wildcard span => .choiceOf .outside "Wildcard" [.span span]
  | .qualifiedWildcard schema table span =>
      .choiceWith .outside "QualifiedWildcard" [("schema", optional Ident.shape schema),
        ("table", table.shape), ("span", .span span)]
  | .expr value aliasName span =>
      .choiceWith .outside "Expr" [("expr", value.shape), ("alias", optional Ident.shape aliasName),
        ("span", .span span)]

def SelectItem.itemShapes : List SelectItem → List Shape
  | [] => []
  | item :: items => item.shape :: SelectItem.itemShapes items

def OrderingTerm.shape : OrderingTerm → Shape
  | ⟨expr, direction, span⟩ =>
      .record "OrderingTerm" [("expr", expr.shape),
        ("direction", optional SortDirection.shape direction), ("span", .span span)]

def OrderingTerm.termShapes : List OrderingTerm → List Shape
  | [] => []
  | term :: terms => term.shape :: OrderingTerm.termShapes terms

def LimitClause.shape : LimitClause → Shape
  | ⟨count, offset, span⟩ =>
      .record "LimitClause" [("limit", count.shape),
        ("offset", match offset with
          | some expr => .present expr.shape
          | none => .absent),
        ("span", .span span)]

def TableRef.shape : TableRef → Shape
  | .named table => .choiceOf .outside "Named" [table.shape]
  | .derived query aliasName span =>
      .choiceWith .outside "Derived" [("subquery", query.shape), ("alias", aliasName.shape),
        ("span", .span span)]
  | .joined left join right condition span =>
      .choiceWith .outside "Joined" [("left", left.shape), ("join_type", join.shape),
        ("right", right.shape),
        ("condition", match condition with
          | some test => .present test.shape
          | none => .absent),
        ("span", .span span)]
  | .parenthesized inner span =>
      .choiceWith .outside "Parenthesized" [("inner", .list (TableRef.refShapes inner)),
        ("span", .span span)]

def TableRef.refShapes : List TableRef → List Shape
  | [] => []
  | ref :: refs => ref.shape :: TableRef.refShapes refs

def JoinCondition.shape : JoinCondition → Shape
  | .on condition => .choiceOf .outside "On" [condition.shape]
  | .using columns => .choiceOf .outside "Using" [listOf Ident.shape columns]
end

/-- Two expressions are the same when their shapes are. -/
instance : BEq Expr := ⟨fun left right => left.shape == right.shape⟩

/-- Two queries are the same when their shapes are. -/
instance : BEq Query := ⟨fun left right => left.shape == right.shape⟩

end SqlDml
