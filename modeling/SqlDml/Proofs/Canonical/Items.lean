import SqlDml.Proofs.Canonical.Operators

/-!
Contract: entries of select lists are read back from canonical text.

Owns:
- expressions that do not look like a wildcard behind names;
- expressions with an alias, and wildcards.

Does not own: select blocks.
-/

namespace SqlDml

open Rule

variable {settings : Settings} {rest : List Sign}

/-! ### Expressions that are no wildcards -/

/-- Signs that do not begin with a star behind a name or two, each with a dot behind it. -/
def Unstarred (signs : List Sign) : Prop :=
  (kindAt signs 0).isName = true → kindAt signs 1 = .punct .dot →
    kindAt signs 2 ≠ .punct .star ∧ (kindAt signs 3 = .punct .dot → kindAt signs 4 ≠ .punct .star)

theorem Unstarred.of_front {signs : List Sign} (noName : (kindAt signs 0).isName = false) :
    Unstarred signs := by
  intro isName
  rw [noName] at isName
  cases isName

theorem Unstarred.of_second {signs : List Sign} (noDot : kindAt signs 1 ≠ .punct .dot) :
    Unstarred signs :=
  fun _ dot => absurd dot noDot

/-- A constant that begins with a name has no dot behind it. -/
theorem Literal.ReadFrom.unstarred {signs : List Sign} {value : Literal}
    (read : value.ReadFrom settings signs) (rest : List Sign) : Unstarred (signs ++ rest) := by
  cases read with
  | @token sign _ known =>
      refine .of_front ?_
      rw [List.singleton_append, kindAt_zero]
      unfold TokenKind.constant? at known
      split at known
      case h_8 => cases known
      all_goals
        next kind =>
          rw [kind]
          rfl
  | string all nonempty =>
      have opens := all.isString nonempty rest
      refine .of_front ?_
      generalize kindAt (signs ++ rest) 0 = kind at opens
      cases kind <;> first | rfl | cases opens
  | introduced kind known introduced =>
      refine .of_second ?_
      rw [List.cons_append, kindAt_succ]
      cases introduced with
      | string all nonempty => exact ne_of_holds (all.isString nonempty rest) rfl
      | hex kind => simp [kind]
      | bit kind => simp [kind]
  | temporal kind named all nonempty =>
      refine .of_second ?_
      rw [List.cons_append, kindAt_succ]
      exact ne_of_holds (all.isString nonempty rest) rfl
  | odbc opens _ _ _ _ => exact .of_front (by rw [List.cons_append, kindAt_zero, opens]; rfl)
  | currentTimestamp named => exact .of_front (by rw [List.cons_append, kindAt_zero, named]; rfl)
  | currentTimestampCall named _ _ =>
      exact .of_front (by rw [List.cons_append, kindAt_zero, named]; rfl)

/-- A column has no star in place of its last name. -/
theorem ColumnRef.unstarred {ref : ColumnRef} (named : ref.Named settings)
    (noDot : kindAt rest 0 ≠ .punct .dot) : Unstarred (ref.signs settings ++ rest) := by
  obtain ⟨schema, table, column, place⟩ := ref
  cases table with
  | none =>
      cases schema with
      | some schema => exact named.elim
      | none => exact .of_second noDot
  | some table =>
      cases schema with
      | none =>
          have labels : column.Labels settings Keyword.isAny := .inl named.2
          exact fun _ _ => ⟨labels.unmarked _, fun dot => absurd dot noDot⟩
      | some schema =>
          have middle : table.Labels settings Keyword.isAny := .inl named.2.1
          have last : column.Labels settings Keyword.isAny := .inl named.2.2
          exact fun _ _ => ⟨middle.unmarked _, fun _ => last.unmarked _⟩

theorem Expr.unstarred_operand :
    ∀ {tree : Expr}, (Node.expr tree).AllLegible settings → ∀ {rest : List Sign},
      (kindAt rest 0).joinsOperand = false → Unstarred (tree.operandSigns settings ++ rest)
  | .literal value span, all, rest, _ => by
      have spelt : value.Spelt := all.self.spelt
      exact (Literal.readFrom_signs spelt all.self.ordinary.1).unstarred rest
  | .column ref, all, rest, apart => by
      have below : (Node.column ref).AllLegible settings := all.child (by simp)
      refine ColumnRef.unstarred below.self.spelt ?_
      intro dot
      rw [dot] at apart
      cases apart
  | .call name args distinct span, _, rest, _ => by
      rw [operandSigns_of_bare rfl, signs_call]
      exact .of_second (by simp [Sign.parens])
  | .row items _, _, rest, _ => by
      rw [operandSigns_of_bare rfl, signs_row]
      split <;> exact .of_front rfl
  | .collate operand collation span, all, rest, _ => by
      have below : (Node.expr operand).AllLegible settings := all.child (by simp)
      rw [operandSigns_of_bare rfl, signs_collate, List.append_assoc]
      exact unstarred_operand below rfl
  | .case subject whens otherwise span, _, _, _ => by
      rw [operandSigns_of_bare rfl, signs_case]
      exact .of_front rfl
  | .placeholder _ _, _, _, _ => .of_front rfl
  | .default _, _, _, _ => .of_front rfl
  | .cast _ _ _, _, _, _ => .of_front rfl
  | .subquery _ _, _, _, _ => .of_front rfl
  | .exists _ _, _, _, _ => .of_front rfl
  | .binary _ _ _ _, _, _, _ => .of_front rfl
  | .unary _ _ _, _, _, _ => .of_front rfl
  | .is _ _ _ _, _, _, _ => .of_front rfl
  | .quantified _ _ _ _ _, _, _, _ => .of_front rfl
  | .between _ _ _ _ _, _, _, _ => .of_front rfl
  | .isIn _ _ _ _, _, _, _ => .of_front rfl
  | .like _ _ _ _ _ _, _, _, _ => .of_front rfl
  | .soundsLike _ _ _, _, _, _ => .of_front rfl

/-- No expression looks like a wildcard behind names. -/
theorem Expr.unstarred {tree : Expr} (all : (Node.expr tree).AllLegible settings)
    (apart : (kindAt rest 0).joinsOperand = false) : Unstarred (tree.signs settings ++ rest) := by
  have left : ∀ {operand : Expr} {behind : List Sign}, Node.expr operand ∈ tree.children →
      tree.signs settings = operand.operandSigns settings ++ behind →
        (kindAt (behind ++ rest) 0).joinsOperand = false → Unstarred (tree.signs settings ++ rest) := by
    intro operand behind member signs apart
    rw [signs, List.append_assoc]
    exact unstarred_operand (all.child member) apart
  cases tree with
  | binary operand op right span =>
      obtain ⟨sign, signs, spelled⟩ := BinaryOp.exists_sign all.self.spelt
      refine left (by simp) (signs_binary ..) ?_
      rw [signs]
      exact (behind_of_continuationAt (continuationAt_of_spelling spelled _)).1
  | quantified operand op quantifier query span =>
      have compares : op.isComparison = true := all.self.shaped
      have known : op = .concat → settings.pipesAsConcat = true := by
        rintro rfl
        cases compares
      obtain ⟨sign, signs, spelled⟩ := BinaryOp.exists_sign known
      refine left (by simp) (signs_quantified ..) ?_
      rw [signs]
      exact (behind_of_continuationAt (continuationAt_of_spelling spelled _)).1
  | unary op operand span =>
      rw [signs_unary]
      exact .of_front (by cases op <;> rfl)
  | is => exact left (by simp) (signs_is ..) rfl
  | between operand low high negated span =>
      exact left (by simp) (signs_between ..) (by cases negated <;> rfl)
  | isIn operand set negated span =>
      exact left (by simp) (signs_isIn ..) (by cases negated <;> rfl)
  | like operand pattern escape op negated span =>
      exact left (by simp) (signs_like ..) (by cases negated <;> cases op <;> rfl)
  | soundsLike => exact left (by simp) (signs_soundsLike ..) rfl
  | _ =>
      rw [← operandSigns_of_bare rfl]
      exact unstarred_operand all apart

/-! ### Entries -/

namespace Rule.Takes

variable {inner : InnerRules} {span : Span}

/-- Names with dots between them and a star are a wildcard. -/
theorem wildcard {schema : Option Ident} {table : Ident}
    (spelt : (SelectItem.qualifiedWildcard schema table span).Spelt settings) :
    (selectItem inner).Takes settings.pipesAsConcat
      ((SelectItem.qualifiedWildcard schema table span).signs settings ++ rest) rest
      (.qualifiedWildcard schema table span) := by
  rw [SelectItem.signs_qualifiedWildcard]
  unfold selectItem
  cases schema with
  | none =>
      have plain : table.Plain settings := spelt
      have labels : table.Labels settings Keyword.isNonreserved := .inl plain
      simp only [Ident.qualifierSigns, List.nil_append, List.cons_append]
      refine .nextIs_other (labels.unmarked _) ?_
      refine .peek ?_
      rw [kindAt_zero, Ident.sign_kind, if_pos plain.isName]
      refine .aheadIs_same rfl ?_
      unfold dottedItem
      refine .aheadIs_same rfl ?_
      unfold tableWildcard
      refine (identifier plain).bind fun name same => .advance fun _ _ => .advance fun star _ => ?_
      exact .pure
  | some schema =>
      have plain : schema.Plain settings := spelt.1
      have dotted : table.Dotted settings := spelt.2
      have labels : schema.Labels settings Keyword.isNonreserved := .inl plain
      have dottedLabels : table.Labels settings Keyword.isAny := .inl dotted
      simp only [Ident.qualifierSigns, List.nil_append, List.cons_append]
      refine .nextIs_other (labels.unmarked _) ?_
      refine .peek ?_
      rw [kindAt_zero, Ident.sign_kind, if_pos plain.isName]
      refine .aheadIs_same rfl ?_
      unfold dottedItem
      refine .aheadIs_other (dottedLabels.unmarked _) ?_
      have follows : Takes settings.pipesAsConcat schemaWildcardFollows
          (schema.sign settings :: Sign.mark .dot :: table.sign settings :: Sign.mark .dot ::
            Sign.mark .star :: rest)
          (schema.sign settings :: Sign.mark .dot :: table.sign settings :: Sign.mark .dot ::
            Sign.mark .star :: rest) true := by
        unfold schemaWildcardFollows
        refine .peekAhead 2 ?_
        split
        · exact .aheadIs 3 _ (tellsAhead 4 _)
        · next noName => exact absurd dotted.isNameAfterDot noName
      refine follows.step ?_
      rw [if_pos rfl]
      unfold schemaWildcard
      refine (identifier plain).bind fun name same => .advance fun _ _ => ?_
      refine (identifierAfterDot dotted).bind fun second also => ?_
      exact .advance fun _ _ => .advance fun star _ => .pure

end Rule.Takes

namespace Rule.TakesIf

variable {inner : InnerRules} {span : Span} {fits : Prop}

/-- An expression with an optional alias. -/
theorem exprItem {value : Expr} {label : Option Ident} (read : value.ReadBy settings inner fits)
    (labels : ∀ ident ∈ label, ident.Labels settings Keyword.isNonreserved)
    (ends : (kindAt rest 0).endsItem = true) :
    (Rule.exprItem inner).TakesIf fits settings.pipesAsConcat
      ((SelectItem.expr value label span).signs settings ++ rest) rest
      (.expr value label span) := by
  have stops : (kindAt rest 0).endsExpr = true := TokenKind.endsExpr_of_item ends
  have noString : (kindAt rest 0).isString = false := by
    have apart := TokenKind.not_joinsOperand_of_endsExpr stops
    generalize kindAt rest 0 = kind at apart
    cases kind <;> first | rfl | cases apart
  have behind : (kindAt (Ident.aliasSigns settings label ++ rest) 0).endsExpr = true := by
    cases label with
    | none => exact stops
    | some ident => rfl
  rw [SelectItem.signs_expr, List.append_assoc]
  unfold Rule.exprItem
  refine (read.alone behind).bind_takes fun found alike => ?_
  refine (Takes.aliasOrString labels (ne_of_holds ends rfl) (TokenKind.not_isName_of_endsExpr stops)
    noString).bind fun name same => ?_
  exact .pure

/-- An expression is read as no wildcard. -/
theorem selectItem_expr {value : Expr} {label : Option Ident} (read : value.ReadBy settings inner fits)
    (all : (Node.expr value).AllLegible settings)
    (labels : ∀ ident ∈ label, ident.Labels settings Keyword.isNonreserved)
    (ends : (kindAt rest 0).endsItem = true) :
    (selectItem inner).TakesIf fits settings.pipesAsConcat
      ((SelectItem.expr value label span).signs settings ++ rest) rest
      (.expr value label span) := by
  have item := @exprItem _ _ inner span _ _ _ read labels ends
  have behind : (kindAt (Ident.aliasSigns settings label ++ rest) 0).joinsOperand = false := by
    cases label with
    | none => exact TokenKind.not_joinsOperand_of_endsExpr (TokenKind.endsExpr_of_item ends)
    | some ident => rfl
  have begins := read.begins (Ident.aliasSigns settings label ++ rest)
  have unstarred := Expr.unstarred all behind
  rw [SelectItem.signs_expr, List.append_assoc] at item ⊢
  generalize value.signs settings ++ (Ident.aliasSigns settings label ++ rest) = before
    at item begins unstarred
  unfold selectItem
  refine .nextIs_other (ne_of_holds begins rfl) ?_
  refine .peek ?_
  split
  · next isName =>
      refine .aheadIs 1 _ ?_
      split
      · next dot =>
          obtain ⟨noStar, noSecond⟩ := unstarred isName (of_decide_eq_true dot)
          have plain : Takes settings.pipesAsConcat schemaWildcardFollows before before false := by
            unfold schemaWildcardFollows
            refine .peekAhead 2 ?_
            split
            · refine .aheadIs 3 _ ?_
              split
              · next again =>
                  have known := noSecond (of_decide_eq_true again)
                  exact decide_eq_false known ▸ Takes.tellsAhead 4 _
              · exact .pure
            · exact .pure
          unfold dottedItem
          refine .aheadIs_other noStar ?_
          exact plain.step item
      · exact item
  · exact item

end Rule.TakesIf

end SqlDml
