import SqlDml.Proofs.Canonical.Constants
import SqlDml.Proofs.Canonical.TreeSigns
import SqlDml.Proofs.Spelt.Nodes

/-!
Contract: the first tokens of trees.

Owns:
- nodes that some source gives and that their canonical text does not change;
- which tokens an expression, an operand, a query and a table reference begin with.

Does not own: that rules read these signs.
-/

namespace SqlDml

/-! ### Nodes that keep their meaning -/

/-- The constants and labels of a node are not changed by its canonical text. -/
def Node.Ordinary (settings : Settings) : Node → Prop
  | .expr (.literal value _) => value.Ordinary settings
  | .expr (.collate _ collation _) => collation.Regular settings
  | .item (.expr _ aliasName _) => ∀ ident ∈ aliasName, ident.Regular settings
  | _ => True

/-- A node that some source gives, with constants and labels that its canonical text does not
change. -/
structure Node.Legible (settings : Settings) (node : Node) : Prop where
  spelt : node.Spelt settings
  shaped : node.Shaped
  ordinary : node.Ordinary settings

/-- Every node within a node is legible. -/
def Node.AllLegible (settings : Settings) (node : Node) : Prop := node.All (Node.Legible settings)

theorem Node.AllLegible.self {settings : Settings} {node : Node} (all : node.AllLegible settings) :
    node.Legible settings :=
  (Node.all_iff.mp all).1

theorem Node.AllLegible.child {settings : Settings} {node child : Node}
    (all : node.AllLegible settings) (member : child ∈ node.children) : child.AllLegible settings :=
  (Node.all_iff.mp all).2 child member

/-! ### Parts of a case -/

section

variable {subject otherwise : Option Expr} {whens : List (Expr × Expr)} {child : Expr}
  {branch : Expr × Expr} {span : Span}

theorem Expr.child_of_subject (found : child ∈ subject) :
    Node.expr child ∈ (Expr.case subject whens otherwise span).children := by
  rw [Option.mem_def] at found
  simp [found]

theorem Expr.children_of_branch (member : branch ∈ whens) :
    Node.expr branch.1 ∈ (Expr.case subject whens otherwise span).children ∧
      Node.expr branch.2 ∈ (Expr.case subject whens otherwise span).children := by
  simp only [Expr.children, List.mem_append, List.mem_flatMap]
  exact ⟨.inl (.inr ⟨branch, member, by simp⟩), .inl (.inr ⟨branch, member, by simp⟩)⟩

theorem Expr.child_of_otherwise (found : child ∈ otherwise) :
    Node.expr child ∈ (Expr.case subject whens otherwise span).children := by
  rw [Option.mem_def] at found
  simp [found]

end

/-! ### First tokens -/

namespace TokenKind

/-- Whether an operand can begin with the token: a constant, a name, a call or a parenthesis. -/
def beginsOperand : TokenKind → Bool
  | .quotedWord _ _ | .punct .question | .punct .leftParen | .keyword .EXISTS | .keyword .CAST
  | .keyword .CASE | .keyword .ROW | .keyword .DEFAULT => true
  | .keyword kw => kw.isNonreserved || kw.isFunctionName || beginsConstant (.keyword kw)
  | kind => kind.beginsConstant

/-- Whether an expression can begin with the token: an operand, or an operator in front of one. -/
def beginsExpr : TokenKind → Bool
  | .punct .minus | .punct .plus | .punct .tilde | .keyword .NOT | .keyword .BINARY => true
  | kind => kind.beginsOperand

theorem beginsOperand_of_constant {kind : TokenKind} (begins : kind.beginsConstant = true) :
    kind.beginsOperand = true := by
  unfold beginsOperand
  split <;> simp_all

theorem beginsOperand_of_isName {kind : TokenKind} (isName : kind.isName = true) :
    kind.beginsOperand = true := by
  cases kind with
  | keyword kw =>
      unfold beginsOperand
      split <;> simp_all [TokenKind.isName]
  | _ => first | rfl | cases isName

theorem beginsExpr_of_operand {kind : TokenKind} (begins : kind.beginsOperand = true) :
    kind.beginsExpr = true := by
  unfold beginsExpr
  split <;> first | rfl | exact begins

end TokenKind

variable {settings : Settings}

/-- The name of a call is a name or a keyword that may stand in front of arguments. -/
theorem beginsOperand_of_callName {name : Ident} (named : name.Named settings Keyword.isCallName) :
    (name.kind settings).beginsOperand = true := by
  rcases named.kind_cases with ⟨quote, _, kind⟩ | ⟨_, _, ⟨kind, _⟩ | ⟨keyword, kind, _, accepted⟩⟩
  · rw [kind]
    rfl
  · rw [kind]
    rfl
  · rw [kind]
    unfold Keyword.isCallName at accepted
    unfold TokenKind.beginsOperand
    split <;> simp_all

namespace Expr

/-- An operand begins with a parenthesis, or with a token of its own. -/
theorem begins_operandSigns :
    ∀ {tree : Expr}, (Node.expr tree).AllLegible settings → ∀ rest : List Sign,
      (kindAt (tree.operandSigns settings ++ rest) 0).beginsOperand = true
  | .literal value span, all, rest => by
      have spelt : value.Spelt := all.self.spelt
      have read := Literal.readFrom_signs spelt all.self.ordinary.1
      exact TokenKind.beginsOperand_of_constant (beginsConstant_of_readFrom read rest)
  | .column ref, all, rest => by
      have below : (Node.column ref).AllLegible settings := all.child (by simp)
      have named : ref.Named settings := below.self.spelt
      obtain ⟨first, plain, front, _⟩ := Rule.Takes.begins_column named rest
      have isName := plain.isName
      rw [← front] at isName
      exact TokenKind.beginsOperand_of_isName isName
  | .placeholder _ _, _, _ => rfl
  | .default _, _, _ => rfl
  | .case subject whens otherwise span, _, _ => by
      rw [operandSigns_of_bare rfl, signs_case]
      rfl
  | .cast _ _ _, _, _ => rfl
  | .call name args distinct span, all, rest =>
      beginsOperand_of_callName all.self.spelt.1
  | .subquery _ _, _, _ => rfl
  | .exists _ _, _, _ => rfl
  | .row items _, _, rest => by
      rw [operandSigns_of_bare rfl, signs_row]
      split <;> rfl
  | .collate operand collation span, all, rest => by
      have below : (Node.expr operand).AllLegible settings := all.child (by simp)
      rw [operandSigns_of_bare rfl, signs_collate, List.append_assoc]
      exact begins_operandSigns below _
  | .binary _ _ _ _, _, _ => rfl
  | .unary _ _ _, _, _ => rfl
  | .is _ _ _ _, _, _ => rfl
  | .quantified _ _ _ _ _, _, _ => rfl
  | .between _ _ _ _ _, _, _ => rfl
  | .isIn _ _ _ _, _, _ => rfl
  | .like _ _ _ _ _ _, _, _ => rfl
  | .soundsLike _ _ _, _, _ => rfl

/-- An expression begins with its left operand, or with a token of its own. -/
theorem begins_signs {tree : Expr} (all : (Node.expr tree).AllLegible settings) (rest : List Sign) :
    (kindAt (tree.signs settings ++ rest) 0).beginsExpr = true := by
  have left : ∀ {operand : Expr} {behind : List Sign}, Node.expr operand ∈ tree.children →
      (kindAt (operand.operandSigns settings ++ behind ++ rest) 0).beginsExpr = true := by
    intro operand behind member
    have below : (Node.expr operand).AllLegible settings := all.child member
    rw [List.append_assoc]
    exact TokenKind.beginsExpr_of_operand (begins_operandSigns below _)
  cases tree with
  | binary => exact signs_binary .. ▸ left (by simp)
  | unary op operand span =>
      rw [signs_unary]
      cases op <;> rfl
  | is => exact signs_is .. ▸ left (by simp)
  | quantified => exact signs_quantified .. ▸ left (by simp)
  | between => exact signs_between .. ▸ left (by simp)
  | isIn => exact signs_isIn .. ▸ left (by simp)
  | like => exact signs_like .. ▸ left (by simp)
  | soundsLike => exact signs_soundsLike .. ▸ left (by simp)
  | _ =>
      rw [← operandSigns_of_bare rfl]
      exact TokenKind.beginsExpr_of_operand (begins_operandSigns all rest)

end Expr

/-! ### Queries and tables -/

theorem Query.begins_signs (tree : Query) (rest : List Sign) :
    (kindAt (tree.signs settings ++ rest) 0).startsQuery = true := by
  obtain ⟨withClause, ⟨first, compounds, place⟩, orderBy, limit, locking, span⟩ := tree
  rw [Query.signs_mk]
  cases withClause with
  | some clause => rfl
  | none =>
      rw [WithClause.signs, QueryBody.signs, List.nil_append]
      cases first with
      | select core =>
          obtain ⟨modifiers, columns, sources, filter, groupBy, rollup, having, span⟩ := core
          rw [QueryTerm.signs_select, SelectCore.signs_mk]
          rfl
      | nested query =>
          rw [QueryTerm.signs_nested]
          rfl

/-- No query begins with a name. -/
theorem TokenKind.not_startsQuery_of_isName {kind : TokenKind} (isName : kind.isName = true) :
    kind.startsQuery = false := by
  unfold startsQuery
  split <;> first | cases isName | rfl

/-- A query that begins with a parenthesis begins with a query in it. -/
theorem Query.opens_signs {tree : Query} {rest : List Sign}
    (opens : kindAt (tree.signs settings ++ rest) 0 = .punct .leftParen) :
    (kindAt (tree.signs settings ++ rest) 1).startsQuery = true := by
  obtain ⟨withClause, ⟨first, compounds, place⟩, orderBy, limit, locking, span⟩ := tree
  rw [Query.signs_mk] at opens ⊢
  cases withClause with
  | some clause => cases opens
  | none =>
      rw [WithClause.signs, QueryBody.signs, List.nil_append] at opens ⊢
      cases first with
      | select core =>
          obtain ⟨modifiers, columns, sources, filter, groupBy, rollup, having, span⟩ := core
          rw [QueryTerm.signs_select, SelectCore.signs_mk] at opens
          cases opens
      | nested query =>
          rw [QueryTerm.signs_nested]
          simp only [Sign.parens, List.cons_append, List.append_assoc, kindAt_succ]
          exact query.begins_signs _

/-- Whether a table reference can begin with the token. -/
def TokenKind.beginsTable (kind : TokenKind) : Bool := kind.isName || kind == .punct .leftParen

theorem TableName.begins_signs {name : TableName} (named : name.Named settings) (rest : List Sign) :
    (kindAt (name.signs settings ++ rest) 0).isName = true := by
  obtain ⟨schema, table, span⟩ := name
  cases schema with
  | some schema => exact Ident.Plain.isName named.1
  | none => exact Ident.Plain.isName named

theorem TableRef.begins_signs :
    ∀ {tree : TableRef}, (Node.ref tree).AllLegible settings → ∀ rest : List Sign,
      (kindAt (tree.signs settings ++ rest) 0).beginsTable = true
  | .named ⟨name, partitions, aliasName, hints, span⟩, all, rest => by
      have table : (Node.table ⟨name, partitions, aliasName, hints, span⟩).AllLegible settings :=
        all.child (by simp)
      have below : (Node.tableName name).AllLegible settings := table.child (by simp)
      have isName := TableName.begins_signs below.self.spelt
      rw [signs_named, NamedTable.signs_mk, List.append_assoc, TokenKind.beginsTable, isName]
      rfl
  | .derived _ _ _, _, _ => by
      rw [signs_derived]
      rfl
  | .joined left _ _ _ _, all, rest => by
      have below : (Node.ref left).AllLegible settings := all.child (by simp)
      rw [signs_joined, List.append_assoc]
      exact begins_signs below _
  | .parenthesized _ _, _, _ => by
      rw [signs_parenthesized]
      rfl

end SqlDml
