import SqlDml.Proofs.Extents.Places
import SqlDml.Proofs.Reading.Names

/-!
Contract: names, constants and the words between them lie over the tokens that they are read from.

Owns:
- table names, column references, aliases and lists of names;
- constants and parameter markers;
- named tables with their index hints, and the words of clauses.

Does not own: trees that hold expressions.
-/

namespace SqlDml

theorem TokenKind.flat_of_isNameAfterDot {kind : TokenKind} (name : kind.isNameAfterDot = true) :
    kind.Flat := by
  refine ⟨⟨?_, ?_, ?_, ?_⟩, ?_, ?_⟩ <;> rintro rfl <;> cases name

theorem TokenKind.flat_of_isString {kind : TokenKind} (string : kind.isString = true) :
    kind.Flat := by
  refine ⟨⟨?_, ?_, ?_, ?_⟩, ?_, ?_⟩ <;> rintro rfl <;> cases string

/-- A name that is one token. -/
theorem Made.ident {origin spot : Spot} {name : Ident} (reaches : origin.Reaches spot)
    (flat : spot.kind.Flat) (place : name.span = (spot.token 0).span) :
    Made origin (.ident name) spot spot.next ∧ spot.next.last = name.span :=
  ⟨((Joined.token reaches flat place rfl : Joined origin (.ident name) _ _)).made_of_ne nofun,
    (Spot.next_last_of_inner flat.inner).trans place.symm⟩

namespace Rule

variable {origin : Spot}

/-! ### Names -/

/-- A name is the token that was consumed last. -/
theorem name_makes (anyKeyword : Bool) {spot : Spot} (reaches : origin.Reaches spot) :
    (name anyKeyword).Ensures spot fun found later =>
      Made origin (.ident found) spot later ∧ later.last = found.span := by
  rw [name_eq]
  refine .step (on_peekToken 0 spot) (.step (on_sourceChars spot) ?_)
  split
  · next found known =>
      obtain ⟨place, named, _⟩ := readFrom_of_identOfToken? known
      exact .step (on_advance spot)
        (.pure (Made.ident reaches (TokenKind.flat_of_isNameAfterDot named) place))
  · exact .fail

theorem identifier_makes : identifier.Makes origin .ident := fun _ reaches =>
  (name_makes false reaches).mono fun _ _ facts => facts.1

instance : identifier.Passes where
  passes origin spot reaches := by
    unfold identifier
    rw [name_eq]
    refine .step (on_peekToken 0 spot) (.step (on_sourceChars spot) ?_)
    split
    · next found known =>
        obtain ⟨_, named, _⟩ := readFrom_of_identOfToken? known
        exact .taking (.nothing reaches) (TokenKind.flat_of_isNameAfterDot named) fun placed =>
          .pure placed
    · exact .fail

theorem tableName_makes : tableName.Makes origin .tableName := by
  intro spot reaches
  unfold tableName
  refine (name_makes false reaches).bind fun first middle known => ?_
  obtain ⟨made, last⟩ := known
  refine .dotName (fun dot => ?_) (.pure ?_)
  · have reaches := made.reaches_spot.next (by simp [dot])
    refine .step (on_advance middle) ?_
    refine (name_makes true reaches).bind fun table later known => .pure ?_
    obtain ⟨second, last⟩ := known
    exact ((second.behindDot made.begin dot).joined (by rw [last]; rfl) rfl).made_of_ne nofun
  · exact (made.begin.joined (by rw [last]; exact (Span.merge_self _).symm) rfl).made_of_ne nofun

theorem columnRef_joins {spot : Spot} (reaches : origin.Reaches spot) :
    columnRef.Ensures spot fun ref later => Joined origin (.column ref) spot later := by
  unfold columnRef
  refine (name_makes false reaches).bind fun first middle known => ?_
  obtain ⟨made, last⟩ := known
  refine .dotName (fun dot => ?_) (.pure ?_)
  · have reaches := made.reaches_spot.next (by simp [dot])
    refine .step (on_advance middle) ?_
    refine (name_makes true reaches).bind fun second behind known => ?_
    obtain ⟨more, last⟩ := known
    have placed := more.behindDot made.begin dot
    refine .dotName (fun dot => ?_) (.pure ?_)
    · have reaches := placed.reaches_spot.next (by simp [dot])
      refine .step (on_advance behind) ?_
      refine (name_makes true reaches).bind fun third later known => .pure ?_
      obtain ⟨final, last⟩ := known
      exact (final.behindDot placed dot).joined (by rw [last]; rfl) rfl
    · exact placed.joined (by rw [last]; rfl) rfl
  · exact made.begin.joined (by rw [last]; exact (Span.merge_self _).symm) rfl

theorem columnRef_makes : columnRef.Makes origin .column := fun _ reaches =>
  (columnRef_joins reaches).mono fun _ _ joined => joined.made_of_ne nofun

theorem identifiers_places :
    (commaSeparated identifier).Places origin fun names => names.map .ident :=
  identifier_makes.commaSeparated

/-- The rest of a list closes the parenthesis in front of it. -/
theorem restOfIdents_places {begun : Option Span} {before : List Part} {start spot : Spot}
    {depth : Nat} (placed : Placed origin begun before start (depth + 1) spot) :
    restOfIdents.Ensures spot fun names later =>
      Placed origin begun (before ++ names.map .ident) start depth later := by
  unfold restOfIdents
  refine .placing placed identifiers_places fun names _ placed => ?_
  exact .closing placed fun _ placed => .pure placed

theorem identsInParens_places : identsInParens.Places origin fun names => names.map .ident := by
  intro spot reaches
  unfold identsInParens
  exact .opening (.nothing reaches) fun _ placed => restOfIdents_places placed

theorem identsInParensOrNone_places :
    identsInParensOrNone.Places origin fun names => names.map .ident := by
  intro spot reaches
  unfold identsInParensOrNone
  refine .opening (.nothing reaches) fun _ placed => ?_
  exact .eat (fun closed => .pure (placed.closed closed)) fun _ => restOfIdents_places placed

theorem aliasName_places : aliasName.Places origin fun found => found.toList.map .ident := by
  intro spot reaches
  unfold aliasName
  refine .eat (fun explicit => ?_) fun _ => ?_
  · have placed := (Placed.nothing reaches).past (spot.flat_of_kind explicit)
    exact .placing placed identifier_makes.places fun found later placed => .pure placed
  · refine .step (on_peek spot) (.ite (fun _ => ?_) fun _ => .pure (.nothing reaches))
    exact .placing (.nothing reaches) identifier_makes.places fun found later placed => .pure placed

/-- An alias is the token that was consumed last. -/
theorem aliasOrString_places {spot : Spot} (reaches : origin.Reaches spot) :
    aliasOrString.Ensures spot fun found later =>
      Placed origin none (found.toList.map .ident) spot 0 later ∧
        ∀ name ∈ found, later.last = name.span := by
  unfold aliasOrString
  refine .passing (.nothing reaches) fun explicit middle placed => ?_
  refine .step (on_peekToken 0 middle) ?_
  split
  · next value quote kind =>
      have flat : middle.kind.Flat := TokenKind.flat_of_isString (by
        rw [show middle.kind = .string value quote from kind]
        rfl)
      refine .step (on_advance middle) (.pure ?_)
      obtain ⟨made, last⟩ : Made origin (.ident ⟨value, some quote, (middle.token 0).span⟩) middle
          middle.next ∧ middle.next.last = (middle.token 0).span :=
        Made.ident placed.reaches_spot flat rfl
      exact ⟨placed.append made.placed, by simpa using last⟩
  · refine .ite (fun _ => ?_) fun _ => .pure ⟨placed, by simp⟩
    refine (name_makes false placed.reaches_spot).bind fun found later known => .pure ?_
    exact ⟨placed.append known.1.placed, by simpa using known.2⟩

theorem partitions_places : partitions.Places origin fun names => names.map .ident := by
  intro spot reaches
  unfold partitions
  refine .eat (fun found => ?_) fun _ => .pure (.nothing reaches)
  have placed := (Placed.nothing reaches).past (spot.flat_of_kind found)
  exact (identsInParens_places _ placed.reaches_spot).mono fun _ _ more => placed.append more

/-- The name of a collation is the token that was consumed last. -/
theorem collationName_makes {spot : Spot} (reaches : origin.Reaches spot) :
    collationName.Ensures spot fun found later =>
      Made origin (.ident found) spot later ∧ later.last = found.span := by
  unfold collationName
  refine .step (on_peekToken 0 spot) ?_
  split
  · next value quote kind =>
      have flat : spot.kind.Flat := TokenKind.flat_of_isString (by
        rw [show spot.kind = .string value quote from kind]
        rfl)
      exact .step (on_advance spot) (.pure (Made.ident reaches flat rfl))
  · exact name_makes true reaches

/-! ### Constants -/

instance (value : String) : (nextPart value).Passes := by
  refine ⟨fun origin spot reaches => .of_on fun found later outcome => ?_⟩
  rw [on_nextPart] at outcome
  split at outcome
  · next part quote kind =>
      cases outcome
      refine (Placed.nothing reaches).past (TokenKind.flat_of_isString ?_)
      rw [kind]
      rfl
  · cases outcome
    exact .nothing reaches

instance : stringRun.Passes := by
  rw [stringRun_eq]
  have := passes_whileSome nextPart ""
  infer_instance

/-- The span of adjacent strings, of which there is one at least. -/
theorem stringRun_covers {spot : Spot} (reaches : origin.Reaches spot)
    (string : spot.kind.isString = true) :
    stringRun.Ensures spot fun found later => ∃ tokens, spot.Through tokens later ∧
      Balanced tokens ∧ EndsClean tokens ∧ Covers tokens found.2 := by
  have parts := passes_whileSome nextPart ""
  have run : (whileSome nextPart "").Ensures spot fun _ later =>
      Placed origin none [] spot 0 later ∧ spot.ahead ≠ later.ahead := by
    refine .of_on fun value later outcome => ⟨(parts.passes origin spot reaches).on outcome, ?_⟩
    cases on_whileSome_eq_done.mp outcome with
    | stop nothing =>
        rw [on_nextPart] at nothing
        split at nothing
        · cases nothing
        · next other =>
            unfold TokenKind.isString at string
            split at string
            · next kind => exact absurd kind (other _ _)
            · cases string
    | more found rest =>
        rw [on_nextPart] at found
        split at found
        · next kind =>
            cases found
            have leads := leads_of_on (on_whileSome_eq_done.mpr rest)
            have less := @Spot.length_next_lt spot (by simp [kind])
            exact fun same => absurd leads.length_le (by rw [← same]; omega)
        · cases found
  rw [stringRun_eq]
  refine .step (on_currentSpan spot) (run.bind fun value later facts => ?_)
  obtain ⟨placed, some_⟩ := facts
  obtain ⟨tokens, through, balanced, clean, _, covers⟩ := placed.covers some_
  exact .step (on_previousSpan later) (.pure ⟨tokens, through, balanced, clean, covers⟩)

/-- A marker is one token. -/
theorem placeholder_joins {spot : Spot} (reaches : origin.Reaches spot)
    (marked : spot.kind = .punct .question) :
    placeholder.Ensures spot fun expr later => Joined origin (.expr expr) spot later := by
  have flat : spot.kind.Flat := by
    rw [marked]
    exact ⟨⟨by decide, by decide, by decide, by decide⟩, by decide, by decide⟩
  unfold placeholder
  refine .step (on_advance spot) (.step (on_nextPlaceholder spot.next) (.pure ?_))
  exact (Joined.token reaches flat rfl rfl).mark

theorem tokenLiteral_joins {spot : Spot} (reaches : origin.Reaches spot) (value : Literal)
    (flat : spot.kind.Flat) :
    (tokenLiteral value).Ensures spot fun expr later => Joined origin (.expr expr) spot later := by
  unfold tokenLiteral
  exact .step (on_advance spot) (.pure (Joined.token reaches flat rfl rfl))

theorem temporalLiteral_joins {spot : Spot} (reaches : origin.Reaches spot) (kind : TemporalKind)
    (flat : spot.kind.Flat) (string : (spot.token 1).kind.isString = true) :
    (temporalLiteral kind).Ensures spot fun expr later => Joined origin (.expr expr) spot later := by
  unfold temporalLiteral
  refine .beginningWith reaches flat fun placed => ?_
  have string : spot.next.kind.isString = true := by rwa [Spot.kind, Spot.next_token]
  refine (stringRun_covers placed.reaches_spot string).bind fun found later facts => .pure ?_
  obtain ⟨tokens, through, balanced, clean, covers⟩ := facts
  have through : spot.next.Through ([] ++ tokens ++ []) later := by simpa using through
  exact placed.joined_over through (by simp) (by simpa using balanced) clean covers (.passed _) rfl rfl

instance : introducedValue.Passes where
  passes origin spot reaches := by
    unfold introducedValue
    refine .step (on_peek spot) ?_
    split
    · exact .passing (.nothing reaches) fun value later placed => .pure placed
    · next digits kind =>
        refine .taking (.nothing reaches) ?_ fun placed => .pure placed
        refine ⟨⟨?_, ?_, ?_, ?_⟩, ?_, ?_⟩ <;> simp [kind]
    · next digits kind =>
        refine .taking (.nothing reaches) ?_ fun placed => .pure placed
        refine ⟨⟨?_, ?_, ?_, ?_⟩, ?_, ?_⟩ <;> simp [kind]
    · exact .fail

theorem introducedLiteral_joins {spot : Spot} (reaches : origin.Reaches spot) (charset : String)
    (flat : spot.kind.Flat) :
    (introducedLiteral charset).Ensures spot fun expr later =>
      Joined origin (.expr expr) spot later := by
  unfold introducedLiteral
  refine .beginningWith reaches flat fun placed => ?_
  refine .passing placed fun value middle placed => ?_
  exact .step (on_previousSpan middle) (.pure (placed.joined rfl rfl))

theorem odbcLiteral_joins {spot : Spot} (reaches : origin.Reaches spot) :
    odbcLiteral.Ensures spot fun expr later => Joined origin (.expr expr) spot later := by
  unfold odbcLiteral
  refine .beginning reaches fun placed => .passing placed fun kind middle placed => ?_
  refine .step (on_peek middle) (.ite (fun _ => ?_) fun _ => .fail)
  refine .passing placed fun value last placed => ?_
  exact .requiring placed fun placed => .pure (placed.joined rfl rfl)

theorem currentTimestamp_joins {spot : Spot} (reaches : origin.Reaches spot)
    (flat : spot.kind.Flat) :
    currentTimestamp.Ensures spot fun expr later => Joined origin (.expr expr) spot later := by
  unfold currentTimestamp
  refine .beginningWith reaches flat fun placed => .eat (fun opened => ?_) fun _ => ?_
  · refine .closing (placed.opened opened) fun _ placed => ?_
    exact .step (on_previousSpan _) (.pure (placed.joined rfl rfl))
  · exact .step (on_previousSpan _) (.pure (placed.joined rfl rfl))

instance : typeSize.Passes where
  passes origin spot reaches := by
    unfold typeSize
    refine .step (on_peek spot) ?_
    split
    · next value kind =>
        refine .ite (fun _ => ?_) fun _ => .fail
        refine .taking (.nothing reaches) ?_ fun placed => .pure placed
        refine ⟨⟨?_, ?_, ?_, ?_⟩, ?_, ?_⟩ <;> simp [kind]
    · exact .fail

instance : typeSizes.Passes where
  passes origin spot reaches := by
    unfold typeSizes
    refine .eat (fun opened => ?_) fun _ => .pure (.nothing reaches)
    refine .passing ((Placed.nothing reaches).opened opened) fun length middle placed => ?_
    refine .eat (fun comma => ?_) fun _ => ?_
    · refine .passing (placed.past (middle.flat_of_kind comma)) fun scale later placed => ?_
      exact .closing placed fun _ placed => .pure placed
    · refine .step (on_pure none middle) ?_
      exact .closing placed fun _ placed => .pure placed

instance (words : List String) : (nextTypeWord words).Passes := by
  refine ⟨fun origin spot reaches => .of_on fun found later outcome => ?_⟩
  rw [on_nextTypeWord] at outcome
  split at outcome
  · next word known =>
      cases outcome
      refine (Placed.nothing reaches).past ?_
      unfold typeWord? at known
      refine ⟨⟨?_, ?_, ?_, ?_⟩, ?_, ?_⟩ <;> intro wrong <;> rw [wrong] at known <;> cases known
  · cases outcome
    exact .nothing reaches

instance : typeName.Passes := by
  rw [typeName_eq]
  have := passes_whileSome nextTypeWord []
  infer_instance

/-! ### Words of clauses -/

instance : hintScope.Passes := by
  unfold hintScope
  refine passes_bind fun purpose => ?_
  split
  · refine passes_bind fun join => ?_
    split <;> infer_instance
  · infer_instance

theorem flat_of_hintAction? {kind : TokenKind} {action : IndexHintAction}
    (found : hintAction? kind = some action) : kind.Flat := by
  refine ⟨⟨?_, ?_, ?_, ?_⟩, ?_, ?_⟩ <;> rintro rfl <;> cases found

theorem flat_of_isIndexWord {kind : TokenKind} (found : isIndexWord kind = true) : kind.Flat := by
  refine ⟨⟨?_, ?_, ?_, ?_⟩, ?_, ?_⟩ <;> rintro rfl <;> cases found

theorem indexHint_makes {spot : Spot} (reaches : origin.Reaches spot) (action : IndexHintAction)
    (first : spot.kind.Flat) (second : spot.next.kind.Flat) :
    (indexHint action).Ensures spot fun hint later => Made origin (.hint hint) spot later := by
  unfold indexHint
  refine .beginningWith reaches first fun placed => .taking placed second fun placed => ?_
  refine .passing placed fun scope middle placed => .ite (fun _ => ?_) fun _ => ?_
  · refine .placing placed identsInParensOrNone_places fun indexes behind placed => ?_
    exact .step (on_previousSpan behind) (.pure ((placed.joined rfl rfl).made_of_ne nofun))
  · refine .placing placed identsInParens_places fun indexes behind placed => ?_
    exact .step (on_previousSpan behind) (.pure ((placed.joined rfl rfl).made_of_ne nofun))

instance : skipHintComma.Passes where
  passes origin spot reaches := by
    unfold skipHintComma
    refine .nextIs (fun comma => ?_) fun _ => .pure (.nothing reaches)
    refine .step (on_peekAhead spot 1) (.ite (fun _ => ?_) fun _ => .pure (.nothing reaches))
    exact .taking (.nothing reaches) (spot.flat_of_kind comma) fun placed => .pure placed

theorem indexHints_places : indexHints.Places origin fun hints => hints.map .hint := by
  have steps : ∀ hints start spot, Placed origin none (hints.reverse.map .hint) start 0 spot →
      (nextHint hints).Ensures spot fun found later =>
        Placed origin none ((found.getD hints).reverse.map .hint) start 0 later := by
    intro hints start spot placed
    unfold nextHint
    refine .step (on_peek spot) ?_
    split
    · exact .pure placed
    · next action found =>
        refine .step (on_peekAhead spot 1) (.ite (fun index => ?_) fun _ => .pure placed)
        have second : spot.next.kind.Flat := by
          rw [Spot.kind, Spot.next_token]
          exact flat_of_isIndexWord index
        refine (indexHint_makes placed.reaches_spot action (flat_of_hintAction? found) second).bind ?_
        intro hint middle made
        refine .passing (placed.append made.placed) fun _ later placed => .pure (placed.congr ?_)
        simp
  rw [indexHints_eq]
  intro spot reaches
  refine .placing (.nothing reaches) (.whileSome rfl steps) fun hints later placed => ?_
  exact .pure placed

theorem namedTable_makes : namedTable.Makes origin .table := by
  intro spot reaches
  unfold namedTable
  refine (tableName_makes spot reaches).bind fun name _ made => ?_
  refine .placing made.begin partitions_places fun partitions _ placed => ?_
  refine .placing placed aliasName_places fun aliasName _ placed => ?_
  refine .placing placed indexHints_places fun indexHints behind placed => ?_
  refine .step (on_previousSpan behind) (.pure ((placed.joined rfl ?_).made_of_ne nofun))
  simp [Part.children]

instance (join : JoinType) : (joinWord join).Passes := by
  unfold joinWord
  infer_instance

instance : naturalJoin.Passes := by
  unfold naturalJoin
  infer_instance

instance : joinType.Passes where
  passes origin spot reaches := by
    unfold joinType
    refine .step (on_peek spot) ?_
    have past : ∀ {word : Keyword}, spot.kind = .keyword word → spot.kind.Flat :=
      fun found => spot.flat_of_kind found
    have rest : ∀ {β : Type} (rule : Rule β) [rule.Passes], spot.kind.Flat →
        (advance >>= fun _ => rule).Ensures spot fun _ later =>
          Placed origin none [] spot 0 later := fun rule passes flat =>
      .taking (.nothing reaches) flat fun placed =>
        (passes.passes origin _ placed.reaches_spot).mono fun _ _ more => placed.append more
    split
    · next kind => exact rest _ (past kind)
    · next kind => exact rest _ (past kind)
    · next kind => exact rest _ (past kind)
    · next kind => exact rest _ (past kind)
    · next kind => exact rest _ (past kind)
    · next kind => exact rest _ (past kind)
    · next kind => exact rest _ (past kind)
    · exact .pure (.nothing reaches)

instance : sortDirection.Passes := by
  unfold sortDirection
  infer_instance

instance : lockMode.Passes := by
  unfold lockMode
  infer_instance

instance : lockWait.Passes := by
  unfold lockWait
  infer_instance

instance : withRollup.Passes where
  passes origin spot reaches := by
    unfold withRollup
    refine .nextIs (fun found => ?_) fun _ => .pure (.nothing reaches)
    refine .aheadIs (fun second => ?_) fun _ => .pure (.nothing reaches)
    refine .taking (.nothing reaches) (spot.flat_of_kind found) fun placed => ?_
    refine .taking placed ?_ fun placed => .pure placed
    rw [Spot.kind, Spot.next_token, second]
    infer_instance

instance : compoundOp.Passes := by
  unfold compoundOp
  infer_instance

end Rule

end SqlDml
