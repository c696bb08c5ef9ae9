import SqlDml.Proofs.Spelt.Gives

/-!
Contract: the names, constants and types that are read are made of written words.

Owns:
- column and table names, lists of names, and aliases;
- constants, parameter markers and the target types of casts.

Does not own: where they may stand.
-/

namespace SqlDml

variable {settings : Settings}

/-! ### Nodes without children -/

theorem ColumnRef.Named.wellSpelt {ref : ColumnRef} (named : ref.Named settings) :
    (Node.column ref).WellSpelt settings :=
  .of_children named (by simp)

theorem TableName.Named.wellSpelt {name : TableName} (named : name.Named settings) :
    (Node.tableName name).WellSpelt settings :=
  .of_children named (by simp)

theorem Literal.Spelt.wellSpelt {value : Literal} {span : Span} (spelt : value.Spelt) :
    (Node.expr (.literal value span)).WellSpelt settings :=
  .of_children spelt (by simp)

theorem Node.wellSpelt_placeholder {index : Nat} {span : Span} :
    (Node.expr (.placeholder index span)).WellSpelt settings :=
  .of_children trivial (by simp)

/-! ### Words of types -/

/-- Only the small letters of ASCII have capitals, which are letters that have none. -/
theorem toUpper_cases (char : Char) :
    char.toUpper = char ∨
      isNameStart char.toUpper = true ∧ char.toUpper.toUpper = char.toUpper := by
  have letters : ∀ place < 26, isNameStart (Char.ofNat (97 + place)).toUpper = true ∧
      (Char.ofNat (97 + place)).toUpper.toUpper = (Char.ofNat (97 + place)).toUpper := by
    decide +kernel
  by_cases small : 'a'.val ≤ char.val ∧ char.val ≤ 'z'.val
  · right
    have least : 97 ≤ char.toNat := small.1
    have greatest : char.toNat ≤ 122 := small.2
    have letter := letters (char.toNat - 97) (by omega)
    rwa [Nat.add_sub_cancel' least, Char.ofNat_toNat] at letter
  · left
    unfold Char.toUpper
    exact dif_neg small

theorem isNameStart_toUpper {char : Char} (starts : isNameStart char = true) :
    isNameStart char.toUpper = true := by
  rcases toUpper_cases char with same | ⟨letter, _⟩
  · rwa [same]
  · exact letter

theorem isNameChar_toUpper {char : Char} (inside : isNameChar char = true) :
    isNameChar char.toUpper = true := by
  rcases toUpper_cases char with same | ⟨letter, _⟩
  · rwa [same]
  · rw [isNameChar, letter, Bool.true_or]

theorem toUpper_toUpper (char : Char) : char.toUpper.toUpper = char.toUpper := by
  rcases toUpper_cases char with same | ⟨_, same⟩
  · rw [same, same]
  · exact same

/-- A plain word in capitals is a word of a type. -/
theorem IsPlainWord.isTypeWord {text : String} (plain : IsPlainWord text) :
    IsTypeWord (String.ofList (text.toList.map Char.toUpper)) := by
  obtain ⟨written, unknown⟩ := plain
  obtain ⟨first, others, chars, starts, all⟩ := needsQuoting_eq_false_iff.mp written
  have twice : (text.toList.map Char.toUpper).map Char.toUpper = text.toList.map Char.toUpper := by
    rw [List.map_map]
    exact List.map_congr_left fun char _ => toUpper_toUpper char
  have still : Keyword.ofWord? (text.toList.map Char.toUpper) = none := by
    unfold Keyword.ofWord? at unknown ⊢
    rwa [twice]
  refine ⟨needsQuoting_eq_false_iff.mpr ⟨first.toUpper, others.map Char.toUpper, ?_,
    isNameStart_toUpper starts, ?_⟩, ?_⟩
  · rw [String.toList_ofList, chars, List.map_cons]
  · simpa using fun char member => isNameChar_toUpper (all char member)
  · rw [String.toList_ofList, wordKind, still]
    show some _ = some _
    rw [String.toList_ofList, twice]

/-- The spelling of a keyword is a word of a type. -/
theorem Keyword.isTypeWord (keyword : Keyword) : IsTypeWord keyword.spelling := by
  refine ⟨by cases keyword <;> decide, ?_⟩
  rw [wordKind, Keyword.ofWord?_spelling]
  rfl

theorem TokenKind.SpeltBy.isTypeWord {kind : TokenKind} {text : List Char} {word : String}
    (spelt : kind.SpeltBy settings text) (known : Rule.typeWord? kind = some word) :
    IsTypeWord word := by
  unfold Rule.typeWord? at known
  split at known
  · cases known
    exact IsPlainWord.isTypeWord spelt
  · cases known
    exact Keyword.isTypeWord _
  · cases known

/-- A name behind an underscore that introduces a literal is the name of a character set. -/
theorem introducedCharset?_eq {text charset : String}
    (known : introducedCharset? text = some charset) : text = "_" ++ charset := by
  unfold introducedCharset? at known
  split at known
  · next chars split =>
      split at known
      · cases known
        rw [← String.toList_inj, split]
        simp
      · cases known
  · cases known

namespace Rule

/-! ### Names -/

theorem columnRef_gives : columnRef.Gives settings fun ref => ref.Named settings := by
  unfold columnRef
  refine Gives.identifier.bind fun first plain => .skip fun dotted => .ite (fun _ => ?_) fun _ => ?_
  · refine .skip fun _ => Gives.identifierAfterDot.bind fun second behind => ?_
    refine .skip fun dotted => .ite (fun _ => ?_) fun _ => .pure ⟨plain, behind⟩
    exact .skip fun _ => Gives.identifierAfterDot.bind fun third last =>
      .pure ⟨plain, behind, last⟩
  · exact .pure plain

theorem tableName_gives : tableName.Gives settings fun name => name.Named settings := by
  unfold tableName
  refine Gives.identifier.bind fun first plain => .skip fun dotted => .ite (fun _ => ?_) fun _ => ?_
  · exact .skip fun _ => Gives.identifierAfterDot.bind fun second behind => .pure ⟨plain, behind⟩
  · exact .pure plain

theorem restOfIdents_gives : restOfIdents.Gives settings fun idents =>
    idents ≠ [] ∧ ∀ ident ∈ idents, ident.Plain settings := by
  unfold restOfIdents
  exact Gives.identifier.commaSeparated.bind fun idents known => .skip fun _ => .pure known

theorem identsInParens_gives : identsInParens.Gives settings fun idents =>
    idents ≠ [] ∧ ∀ ident ∈ idents, ident.Plain settings := by
  unfold identsInParens
  exact .skip fun _ => restOfIdents_gives

theorem identsInParensOrNone_gives : identsInParensOrNone.Gives settings fun idents =>
    ∀ ident ∈ idents, ident.Plain settings := by
  unfold identsInParensOrNone
  refine .skip fun _ => .skip fun closed => .ite (fun _ => .pure (by simp)) fun _ => ?_
  exact restOfIdents_gives.mono fun _ known => known.2

theorem partitions_gives : partitions.Gives settings fun idents =>
    ∀ ident ∈ idents, ident.Plain settings := by
  unfold partitions
  refine .skip fun found => .ite (fun _ => ?_) fun _ => .pure (by simp)
  exact identsInParens_gives.mono fun _ known => known.2

theorem aliasName_gives : aliasName.Gives settings fun found =>
    ∀ ident ∈ found, ident.Plain settings := by
  have one : Gives settings (do return some (← identifier)) fun found =>
      ∀ ident ∈ found, ident.Plain settings :=
    Gives.identifier.bind fun ident plain => .pure (by simpa using plain)
  unfold aliasName
  refine .skip fun explicit => .ite (fun _ => one) fun _ => .skip fun kind => ?_
  exact .ite (fun _ => one) fun _ => .pure (by simp)

theorem aliasOrString_gives : aliasOrString.Gives settings fun found =>
    ∀ ident ∈ found, ident.Labels settings Keyword.isNonreserved := by
  unfold aliasOrString
  refine .skip fun explicit => .peekToken fun token text given => ?_
  split
  · next value quote kind =>
      rw [kind] at given
      exact .skip fun _ => .pure (by simpa using .inr ⟨quote, rfl, given⟩)
  · refine .ite (fun _ => ?_) fun _ => .pure (by simp)
    exact Gives.identifier.bind fun ident plain => .pure (by simpa using .inl plain)

theorem collationName_gives : collationName.Gives settings fun ident =>
    ident.Labels settings Keyword.isAny := by
  unfold collationName
  refine .peekToken fun token text given => ?_
  split
  · next value quote kind =>
      rw [kind] at given
      exact .skip fun _ => .pure (.inr ⟨quote, rfl, given⟩)
  · exact (Gives.name true).mono fun ident named => .inl named

/-! ### Constants -/

theorem tokenLiteral_gives {value : Literal} (spelt : value.Spelt) :
    (tokenLiteral value).Gives settings fun tree => (Node.expr tree).WellSpelt settings := by
  unfold tokenLiteral
  exact .skip fun token => .pure spelt.wellSpelt

theorem placeholder_gives :
    placeholder.Gives settings fun tree => (Node.expr tree).WellSpelt settings := by
  unfold placeholder
  exact .skip fun token => .skip fun number => .pure Node.wellSpelt_placeholder

theorem temporalLiteral_gives (kind : TemporalKind) :
    (temporalLiteral kind).Gives settings fun tree => (Node.expr tree).WellSpelt settings := by
  unfold temporalLiteral
  exact .skip fun word => .skip fun found => .pure (Literal.Spelt.wellSpelt trivial)

theorem introducedValue_gives : introducedValue.Gives settings fun value =>
    value.Introducible ∧ value.Spelt := by
  unfold introducedValue
  refine .peek fun kind text given => ?_
  split
  · exact .skip fun found => .pure ⟨trivial, trivial⟩
  · exact .skip fun _ => .pure ⟨trivial, given⟩
  · exact .skip fun _ => .pure ⟨trivial, given⟩
  · exact .fail

theorem introducedLiteral_gives {charset : String} (plain : IsPlainWord ("_" ++ charset))
    (known : introducedCharset? ("_" ++ charset) = some charset) :
    (introducedLiteral charset).Gives settings fun tree => (Node.expr tree).WellSpelt settings := by
  unfold introducedLiteral
  refine .skip fun word => introducedValue_gives.bind fun value given => .skip fun stop => ?_
  exact .pure (Literal.Spelt.wellSpelt ⟨plain, known, given⟩)

theorem odbcLiteral_gives :
    odbcLiteral.Gives settings fun tree => (Node.expr tree).WellSpelt settings := by
  unfold odbcLiteral
  refine .skip fun start => .skip fun kind => .skip fun next => .ite (fun _ => ?_) fun _ => .fail
  exact .skip fun found => .skip fun stop => .pure (Literal.Spelt.wellSpelt trivial)

theorem currentTimestamp_gives :
    currentTimestamp.Gives settings fun tree => (Node.expr tree).WellSpelt settings := by
  unfold currentTimestamp
  refine .skip fun start => .skip fun opened => .ite (fun _ => ?_) fun _ => ?_
  · exact .skip fun _ => .skip fun stop => .pure (Literal.Spelt.wellSpelt trivial)
  · exact .skip fun stop => .pure (Literal.Spelt.wellSpelt trivial)

/-! ### Types -/

theorem typeSize_gives : typeSize.Gives settings fun size => size < 4294967296 := by
  unfold typeSize
  refine .skip fun kind => ?_
  split
  · exact .ite (fun small => .skip fun _ => .pure small) fun _ => .fail
  · exact .fail

theorem typeSizes_gives : typeSizes.Gives settings fun sizes =>
    (∀ length ∈ sizes.1, length < 4294967296) ∧ ∀ scale ∈ sizes.2, scale < 4294967296 := by
  unfold typeSizes
  refine .skip fun opened => .ite (fun _ => ?_) fun _ => .pure (by simp)
  refine typeSize_gives.bind fun length small => .skip fun comma => .ite (fun _ => ?_) fun _ => ?_
  · have scaled : (some <$> typeSize).Gives settings fun found =>
        ∀ scale ∈ found, scale < 4294967296 :=
      typeSize_gives.map fun size below => by simpa using below
    exact scaled.bind fun scale below => .skip fun _ => .pure ⟨by simpa using small, below⟩
  · have unscaled : (Pure.pure none : Rule (Option Nat)).Gives settings fun found => found = none :=
      .pure rfl
    exact unscaled.bind fun scale none_ => .skip fun _ =>
      .pure ⟨by simpa using small, by simp [none_]⟩

theorem typeName_gives : typeName.Gives settings TypeName.Spelt := by
  have repeats : (whileSome nextTypeWord []).Gives settings fun words =>
      ∀ word ∈ words, IsTypeWord word := by
    refine .whileSome (by simp) fun words known => ?_
    unfold nextTypeWord
    refine .peek fun kind text given => ?_
    split
    · next word read =>
        refine .skip fun _ => .pure ?_
        simpa using ⟨given.isTypeWord read, known⟩
    · exact .pure (by simp)
  rw [typeName_eq]
  refine repeats.bind fun words known => .ite (fun _ => .fail) fun filled => ?_
  refine typeSizes_gives.bind fun sizes small => .pure ⟨⟨words.reverse, ?_, ?_, rfl⟩, small⟩
  · simpa using filled
  · simpa using known

end Rule

end SqlDml
