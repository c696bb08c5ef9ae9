import SqlDml.Proofs.Reading.Read

/-!
Contract: how names and the words between them are read.

Owns:
- table names, column references, aliases and lists of names, each name from its own token;
- the words of clauses, which stand for no stops.

Does not own: constants, and trees that hold other trees.
-/

namespace SqlDml

open Visit (idents ofQualifier)

/-- An identifier is read from a token that is no marker, and that it stands for. -/
theorem identOfToken?_spec {source : List Char} {anyKeyword : Bool} {token : Token} {name : Ident}
    (found : identOfToken? source anyKeyword token = some name) :
    token.kind ≠ .endOfInput ∧ token.kind ≠ .punct .question ∧ name.StandsFor source token := by
  unfold identOfToken? at found
  split at found
  · next kind =>
      cases found
      exact ⟨by simp [kind], by simp [kind], rfl, fun _ => by simp [Token.nameParts?, kind]⟩
  · next kind =>
      cases found
      exact ⟨by simp [kind], by simp [kind], rfl, fun _ => by simp [Token.nameParts?, kind]⟩
  · next kind =>
      split at found
      · cases found
        refine ⟨by simp [kind], by simp [kind], rfl, fun sliced => ?_⟩
        obtain ⟨text, known⟩ := Option.isSome_iff_exists.mp sliced
        simp [Token.nameParts?, kind, known]
      · cases found
  · cases found

/-- A string can stand for a name as well. -/
theorem standsFor_of_string {source : List Char} {token : Token} {value : String} {quote : Char}
    (kind : token.kind = .string value quote) :
    Ident.StandsFor ⟨value, some quote, token.span⟩ source token :=
  ⟨rfl, fun _ => by simp [Token.nameParts?, kind]⟩

/-- An identifier keeps the quotes of its token. -/
theorem readFrom_of_identOfToken? {source : List Char} {anyKeyword : Bool} {token : Token}
    {name : Ident} (found : identOfToken? source anyKeyword token = some name) :
    name.ReadFrom token := by
  unfold identOfToken? at found
  unfold Ident.ReadFrom
  split at found
  · next kind =>
      cases found
      rw [kind]
      exact ⟨rfl, rfl, rfl⟩
  · next kind =>
      cases found
      rw [kind]
      exact ⟨rfl, rfl, rfl⟩
  · next kind =>
      split at found
      · cases found
        rw [kind]
        exact ⟨rfl, rfl, rfl⟩
      · cases found
  · cases found

namespace Rule

/-! ### Names -/

/-- A name takes the next token. -/
theorem name_takes (anyKeyword : Bool) (spot : Spot) :
    (name anyKeyword).Ensures spot fun found later =>
      later = spot.next ∧ Read [.ident found] spot later ∧ spot.Offers found := by
  rw [name_eq]
  refine .step (on_peekToken 0 spot) (.step (on_sourceChars spot) ?_)
  split
  · next found known =>
      obtain ⟨inner, unmarked, stands⟩ := identOfToken?_spec known
      have member : spot.token 0 ∈ spot.ahead := by
        rw [Spot.ahead_of_inner inner]
        exact List.mem_cons_self
      exact .step (on_advance spot)
        (.pure ⟨rfl, .name inner unmarked stands, _, member, readFrom_of_identOfToken? known⟩)
  · exact .fail

theorem name_reads (anyKeyword : Bool) : (name anyKeyword).Reads fun found => [.ident found] :=
  fun spot => (name_takes anyKeyword spot).mono fun _ _ known => known.2.1

theorem identifier_reads : identifier.Reads fun found => [.ident found] := name_reads false

theorem identifierAfterDot_reads : identifierAfterDot.Reads fun found => [.ident found] :=
  name_reads true

/-- A choice by a dot and a name, which are not consumed. -/
theorem Ensures.dotName {β : Type} {spot : Spot} {post : β → Spot → Prop} {present absent : Rule β}
    (found : spot.kind = .punct .dot → present.Ensures spot post)
    (missing : absent.Ensures spot post) :
    (dotNameFollows >>= fun found => if found = true then present else absent).Ensures spot
      post := by
  have follows : dotNameFollows.Ensures spot fun value later =>
      later = spot ∧ (value = true → spot.kind = .punct .dot) := by
    unfold dotNameFollows
    refine .nextIs (fun dot => ?_) (fun _ => .pure ⟨rfl, by simp⟩)
    exact .step (on_peekAhead spot 1) (.pure ⟨rfl, fun _ => dot⟩)
  refine follows.bind fun value later known => ?_
  obtain ⟨rfl, dot⟩ := known
  exact .ite (fun holds => found (dot holds)) fun _ => missing

theorem tableName_reads : tableName.Reads TableName.visits := by
  intro spot
  unfold tableName
  refine (name_takes false spot).bind fun first middle known => ?_
  obtain ⟨rfl, read, offers⟩ := known
  refine .dotName (fun dot => ?_) (.pure (.tableName offers read))
  refine .advance read (spot.next.plain_of_kind dot) fun read => ?_
  refine (name_takes true spot.next.next).bind fun table later known => ?_
  obtain ⟨rfl, more, offersTable⟩ := known
  exact .pure (.tableName offersTable.of_next.of_next (read.append more))

theorem columnRef_reads : columnRef.Reads ColumnRef.visits := by
  intro spot
  unfold columnRef
  refine (name_takes false spot).bind fun first middle known => ?_
  obtain ⟨rfl, read, offers⟩ := known
  refine .dotName (fun dot => ?_) (.pure (.node rfl read))
  have table : Read (ofQualifier none first) spot spot.next := .qualifier offers read
  refine .advance read (spot.next.plain_of_kind dot) fun read => ?_
  refine (name_takes true spot.next.next).bind fun second behind known => ?_
  obtain ⟨rfl, column, offersSecond⟩ := known
  refine .dotName (fun dot => ?_) (.pure ?_)
  · have qualifier : Read (ofQualifier (some first) second) spot spot.next.next.next :=
      .qualifier offersSecond.of_next.of_next (read.append column)
    refine .advance qualifier (Spot.plain_of_kind dot) fun read => ?_
    exact .part read identifierAfterDot_reads fun third later read => .pure (.node rfl read)
  · have past : Read (ofQualifier none first) spot spot.next.next :=
      table.past (spot.next.plain_of_kind dot)
    exact .node rfl (past.append column)

theorem idents_flatMap (names : List Ident) :
    names.flatMap (fun name => [Visit.ident name]) = idents names := by
  rw [idents, List.map_eq_flatMap]

theorem identifiers_reads : (commaSeparated identifier).Reads idents :=
  identifier_reads.commaSeparated.congr idents_flatMap

theorem restOfIdents_reads : restOfIdents.Reads idents := by
  intro spot
  unfold restOfIdents
  refine .part (.nothing spot) identifiers_reads fun names middle read => ?_
  exact .skip read fun _ later read => .pure read

theorem identsInParens_reads : identsInParens.Reads idents := by
  intro spot
  unfold identsInParens
  refine .skip (.nothing spot) fun _ middle read => ?_
  exact .last read restOfIdents_reads

theorem identsInParensOrNone_reads : identsInParensOrNone.Reads idents := by
  intro spot
  unfold identsInParensOrNone
  refine .skip (.nothing spot) fun _ middle read => ?_
  refine .eat (fun closed => .pure (read.past (middle.plain_of_kind closed))) fun _ => ?_
  exact .last read restOfIdents_reads

theorem aliasName_reads : aliasName.Reads fun found => idents found.toList := by
  intro spot
  unfold aliasName
  refine .eat (fun explicit => ?_) fun _ => ?_
  · have read := (Read.nothing spot).past (spot.plain_of_kind explicit)
    exact .part read identifier_reads fun found later read => .pure read
  · refine .step (on_peek spot) (.ite (fun _ => ?_) fun _ => .pure (.nothing spot))
    exact .part (.nothing spot) identifier_reads fun found later read => .pure read

theorem aliasOrString_reads : aliasOrString.Reads fun found => idents found.toList := by
  intro spot
  unfold aliasOrString
  refine .skip (.nothing spot) fun explicit middle read => ?_
  refine .step (on_peekToken 0 middle) ?_
  split
  · next value quote kind =>
      have known : middle.kind = .string value quote := kind
      refine .step (on_advance middle) (.pure ?_)
      exact read.append (.name (by simp [known]) (by simp [known]) (standsFor_of_string kind))
  · refine .ite (fun _ => ?_) fun _ => .pure read
    exact .part read identifier_reads fun found later read => .pure read

theorem partitions_reads : partitions.Reads idents := by
  intro spot
  unfold partitions
  refine .eat (fun found => ?_) fun _ => .pure (.nothing spot)
  exact .last (.passed (spot.plain_of_kind found)) identsInParens_reads

theorem collationName_reads : collationName.Reads fun found => [.ident found] := by
  intro spot
  unfold collationName
  refine .step (on_peekToken 0 spot) ?_
  split
  · next value quote kind =>
      have known : spot.kind = .string value quote := kind
      refine .step (on_advance spot) (.pure (.name (by simp [known]) (by simp [known]) ?_))
      exact standsFor_of_string kind
  · exact name_reads true spot

/-! ### Words of clauses -/

instance : hintScope.Silent := by
  unfold hintScope
  refine silent_bind fun purpose => ?_
  split
  · refine silent_bind fun join => ?_
    split <;> infer_instance
  · infer_instance

theorem indexHint_reads {spot : Spot} (action : IndexHintAction)
    (first : spot.kind.isPayload = false) (second : spot.next.kind.isPayload = false) :
    (indexHint action).Ensures spot fun hint later => Read hint.visits spot later := by
  unfold indexHint
  refine .advance (.nothing spot) first fun read => .advance read second fun read => ?_
  refine .skip read fun scope middle read => .ite (fun _ => ?_) fun _ => ?_
  · refine .part read identsInParensOrNone_reads fun indexes behind read => ?_
    exact .skip read fun stop later read => .pure read
  · refine .part read identsInParens_reads fun indexes behind read => ?_
    exact .skip read fun stop later read => .pure read

instance : skipHintComma.Silent where
  reads spot := by
    unfold skipHintComma
    refine .nextIs (fun comma => ?_) fun _ => .pure (.nothing spot)
    refine .step (on_peekAhead spot 1) (.ite (fun _ => ?_) fun _ => .pure (.nothing spot))
    exact .advance (.nothing spot) (spot.plain_of_kind comma) fun read => .pure read

theorem isIndexWord_plain {kind : TokenKind} (found : isIndexWord kind = true) :
    kind.isPayload = false := by
  cases kind <;> first | rfl | cases found

theorem hintAction?_of_payload {kind : TokenKind} (payload : kind.isPayload = true) :
    hintAction? kind = none := by
  cases kind <;> first | rfl | cases payload

theorem indexHints_reads : indexHints.Reads fun hints => hints.flatMap IndexHint.visits := by
  have steps : ∀ hints start spot,
      Read (hints.reverse.flatMap IndexHint.visits) start spot →
      (nextHint hints).Ensures spot fun found later =>
        Read ((found.getD hints).reverse.flatMap IndexHint.visits) start later := by
    intro hints start spot read
    unfold nextHint
    refine .step (on_peek spot) ?_
    split
    · exact .pure read
    · next action found =>
        refine .step (on_peekAhead spot 1) (.ite (fun index => ?_) fun _ => .pure read)
        have second : spot.next.kind.isPayload = false := by
          rw [Spot.kind, Spot.next_token]
          exact isIndexWord_plain index
        have first : spot.kind.isPayload = false := spot.plain_of_choice hintAction?_of_payload found
        refine .bind (indexHint_reads action first second) ?_
        intro hint middle more
        refine .skip (read.append more) fun _ later read => .pure (read.congr ?_)
        simp
  rw [indexHints_eq]
  intro spot
  refine .part (.nothing spot) (.whileSome rfl steps) fun hints later read => ?_
  exact .pure read

theorem namedTable_reads : namedTable.Reads NamedTable.visits := by
  intro spot
  unfold namedTable
  refine .part (.nothing spot) tableName_reads fun name _ read => ?_
  refine .part read partitions_reads fun partitions _ read => ?_
  refine .part read aliasName_reads fun aliasName _ read => ?_
  refine .part read indexHints_reads fun indexHints behind read => ?_
  exact .skip read fun stop later read => .pure read

instance (join : JoinType) : (joinWord join).Silent := by
  unfold joinWord
  infer_instance

instance : naturalJoin.Silent := by
  unfold naturalJoin
  infer_instance

instance : joinType.Silent where
  reads spot := by
    unfold joinType
    refine .step (on_peek spot) ?_
    have past : ∀ {word : Keyword}, spot.kind = .keyword word → spot.kind.isPayload = false :=
      fun found => spot.plain_of_kind found
    split
    · next kind => exact .advance (.nothing spot) (past kind) fun read => .pure read
    · next kind => exact .advance (.nothing spot) (past kind) fun read => .pure read
    · next kind => exact .advance (.nothing spot) (past kind) fun read => .rest read
    · next kind => exact .advance (.nothing spot) (past kind) fun read => .rest read
    · next kind => exact .advance (.nothing spot) (past kind) fun read => .rest read
    · next kind => exact .advance (.nothing spot) (past kind) fun read => .rest read
    · next kind => exact .advance (.nothing spot) (past kind) fun read => .rest read
    · exact .pure (.nothing spot)

instance : sortDirection.Silent := by
  unfold sortDirection
  infer_instance

instance : lockMode.Silent := by
  unfold lockMode
  infer_instance

instance : lockWait.Silent := by
  unfold lockWait
  infer_instance

instance : withRollup.Silent where
  reads spot := by
    unfold withRollup
    refine .nextIs (fun found => ?_) fun _ => .pure (.nothing spot)
    refine .aheadIs (fun second => ?_) fun _ => .pure (.nothing spot)
    refine .advance (.nothing spot) (spot.plain_of_kind found) fun read => ?_
    refine .advance read ?_ fun read => .pure read
    rw [Spot.kind, Spot.next_token, second]
    rfl

instance : compoundOp.Silent := by
  unfold compoundOp
  infer_instance

end Rule

end SqlDml
