import SqlDml.Proofs.Extents.Places
import SqlDml.Proofs.Reading.Names

/-!
Contract: how constants, parameter markers and types are read.

Owns:
- runs of adjacent strings, and the constants that are one token or more;
- parameter markers;
- the words and the sizes of a type, which stand for no stops.

Does not own: where a constant can stand.
-/

namespace SqlDml

theorem TokenKind.string_of_isString {kind : TokenKind} (string : kind.isString = true) :
    ∃ value quote, kind = .string value quote := by
  cases kind <;> first | exact ⟨_, _, rfl⟩ | cases string

namespace Rule

/-! ### Runs of tokens -/

/-- The name inside a constant is one token. -/
theorem identifier_takes (spot : Spot) :
    identifier.Ensures spot fun _ later => spot.Takes [spot.token 0] later := by
  unfold identifier
  rw [name_eq]
  refine .step (on_peekToken 0 spot) (.step (on_sourceChars spot) ?_)
  split
  · next found known =>
      obtain ⟨inner, unmarked, _⟩ := identOfToken?_spec known
      exact .step (on_advance spot) (.pure (.next inner unmarked))
  · exact .fail

theorem nextParts_take (value : String) (spot : Spot) :
    (whileSome nextPart value).Ensures spot fun _ later => ∃ tokens, spot.Takes tokens later := by
  refine .whileSome ⟨[], .refl spot⟩ fun value middle taken => .of_on fun found later outcome => ?_
  obtain ⟨tokens, takes⟩ := taken
  rw [on_nextPart] at outcome
  split at outcome
  · next part quote kind =>
      cases outcome
      exact ⟨_, takes.step (by simp [kind]) (by simp [kind])⟩
  · cases outcome
    exact ⟨tokens, takes⟩

/-- A run of strings, the first of which is there, and its span. -/
theorem stringRun_takes {spot : Spot} (string : spot.kind.isString = true) :
    stringRun.Ensures spot fun found later => ∃ tokens,
      spot.Takes (spot.token 0 :: tokens) later ∧
        found.2 = (spot.token 0).span.merge later.last := by
  obtain ⟨part, quote, kind⟩ := TokenKind.string_of_isString string
  have first : spot.Takes [spot.token 0] spot.next := .next (by simp [kind]) (by simp [kind])
  have run : (whileSome nextPart "").Ensures spot fun _ later =>
      ∃ tokens, spot.Takes (spot.token 0 :: tokens) later := by
    refine .of_on fun value later outcome => ?_
    cases on_whileSome_eq_done.mp outcome with
    | stop nothing =>
        rw [on_nextPart, kind] at nothing
        cases nothing
    | more found rest =>
        rw [on_nextPart, kind] at found
        cases found
        obtain ⟨tokens, takes⟩ := (nextParts_take _ spot.next).on (on_whileSome_eq_done.mpr rest)
        exact ⟨tokens, first.trans takes⟩
  rw [stringRun_eq]
  refine .step (on_currentSpan spot) (run.bind fun value later taken => ?_)
  obtain ⟨tokens, takes⟩ := taken
  exact .step (on_previousSpan later) (.pure ⟨tokens, takes, rfl⟩)

/-! ### Constants -/

/-- A marker is numbered behind all markers in front of it. -/
theorem placeholder_reads {spot : Spot} (marked : spot.kind = .punct .question) :
    placeholder.Ensures spot fun expr later => Read expr.visits spot later := by
  unfold placeholder
  refine .step (on_advance spot) (.step (on_nextPlaceholder spot.next) (.pure ?_))
  rw [Expr.visits]
  exact .marker marked

theorem literal_read {value : Literal} {span : Span} {spot later : Spot} {tokens : List Token}
    (takes : spot.Takes tokens later) (covers : InOrder tokens → Covers tokens span) :
    Read (Expr.literal value span).visits spot later := by
  rw [Expr.visits]
  exact .literal takes covers

section OneToken

variable {spot : Spot} (inner : spot.kind ≠ .endOfInput) (unmarked : spot.kind ≠ .punct .question)

include inner unmarked

theorem tokenLiteral_reads (value : Literal) :
    (tokenLiteral value).Ensures spot fun expr later => Read expr.visits spot later := by
  unfold tokenLiteral
  refine .step (on_advance spot) (.pure ?_)
  exact literal_read (.next inner unmarked) fun _ => .singleton _

theorem temporalLiteral_reads (kind : TemporalKind)
    (string : (spot.token 1).kind.isString = true) :
    (temporalLiteral kind).Ensures spot fun expr later => Read expr.visits spot later := by
  unfold temporalLiteral
  have string : spot.next.kind.isString = true := by rwa [Spot.kind, Spot.next_token]
  refine .step (on_advance spot) ((stringRun_takes string).bind fun found later taken => .pure ?_)
  obtain ⟨tokens, takes, place⟩ := taken
  have all := (Spot.Takes.next inner unmarked).trans takes
  refine literal_read all fun order => ?_
  have run := takes.covers order.of_back
  rw [← place] at run
  have closes := List.getLast?_eq_some_getLast (List.cons_ne_nil (spot.next.token 0) tokens)
  have closing : ([spot.token 0] ++ spot.next.token 0 :: tokens).getLast? = some _ := closes
  refine (Covers.singleton (spot.token 0)).merge order closing ?_ ?_
  · obtain ⟨first, _, opens, _, same⟩ := run
    rw [same]
    exact order.start_le rfl (List.mem_append_right _ (List.mem_of_head? opens))
  · obtain ⟨_, last, _, ends, same⟩ := run
    rw [same]
    cases closes.symm.trans ends
    rfl

theorem introducedLiteral_reads (charset : String) :
    (introducedLiteral charset).Ensures spot fun expr later => Read expr.visits spot later := by
  have value (spot : Spot) :
      introducedValue.Ensures spot fun _ later => ∃ tokens, spot.Takes tokens later := by
    unfold introducedValue
    refine .step (on_peek spot) ?_
    split
    · next kind =>
        refine (stringRun_takes (by rw [kind]; rfl)).bind fun found later taken => .pure ?_
        obtain ⟨tokens, takes, _⟩ := taken
        exact ⟨_, takes⟩
    · next kind =>
        exact .step (on_advance spot) (.pure ⟨_, .next (by simp [kind]) (by simp [kind])⟩)
    · next kind =>
        exact .step (on_advance spot) (.pure ⟨_, .next (by simp [kind]) (by simp [kind])⟩)
    · exact .fail
  unfold introducedLiteral
  refine .step (on_advance spot) ((value spot.next).bind fun found later taken => ?_)
  obtain ⟨tokens, takes⟩ := taken
  have all := (Spot.Takes.next inner unmarked).trans takes
  exact .step (on_previousSpan later) (.pure (literal_read all all.covers))

theorem currentTimestamp_reads :
    currentTimestamp.Ensures spot fun expr later => Read expr.visits spot later := by
  have first := Spot.Takes.next inner unmarked
  unfold currentTimestamp
  refine .step (on_advance spot) (.eat (fun opened => .expecting (by simp) fun closed => ?_) ?_)
  · have second := first.step (by simp [opened]) (by simp [opened])
    have third := second.step (by simp [closed]) (by simp [closed])
    exact .step (on_previousSpan _) (.pure (literal_read third third.covers))
  · exact fun _ => .step (on_previousSpan _) (.pure (literal_read first first.covers))

end OneToken

theorem odbcLiteral_reads : odbcLiteral.Reads Expr.visits := by
  intro spot
  unfold odbcLiteral
  refine .expecting (by simp) fun opened => ?_
  have brace : spot.Takes [spot.token 0] spot.next := .next (by simp [opened]) (by simp [opened])
  refine (identifier_takes spot.next).bind fun kind middle named => ?_
  refine .step (on_peek middle) (.ite (fun string => ?_) fun _ => .fail)
  refine (stringRun_takes string).bind fun found last taken => .expecting (by simp) fun closed => ?_
  obtain ⟨tokens, takes, _⟩ := taken
  have all := ((brace.trans named).trans takes).step (by simp [closed]) (by simp [closed])
  have start : spot.next.last = (spot.token 0).span := Spot.next_last_of_inner (by simp [opened])
  exact .pure (literal_read all fun order => start ▸ all.covers order)

/-! ### Types -/

theorem typeSize_takes (spot : Spot) :
    typeSize.Ensures spot fun size later =>
      later = spot.next ∧ spot.kind = .integer size := by
  unfold typeSize
  refine .step (on_peek spot) ?_
  split
  · next value kind =>
      refine .ite (fun _ => ?_) fun _ => .fail
      exact .step (on_advance spot) (.pure ⟨rfl, kind⟩)
  · exact .fail

theorem typeSizes_take (spot : Spot) :
    typeSizes.Ensures spot fun sizes later => ∃ tokens, spot.Takes tokens later ∧
      tokens.map Token.kind = sizeKinds sizes.1 sizes.2 := by
  unfold typeSizes
  refine .eat (fun opened => ?_) fun _ => .pure ⟨[], .refl spot, rfl⟩
  refine (typeSize_takes spot.next).bind fun length middle known => ?_
  obtain ⟨rfl, sized⟩ := known
  have first : spot.Takes [spot.token 0] spot.next := .next (by simp [opened]) (by simp [opened])
  have second := first.step (by simp [sized]) (by simp [sized])
  refine .eat (fun comma => ?_) fun _ => ?_
  · have third := second.step (by simp [comma]) (by simp [comma])
    have scaled : (some <$> typeSize).Ensures spot.next.next.next fun scale later =>
        ∃ size, scale = some size ∧ later = spot.next.next.next.next ∧
          spot.next.next.next.kind = .integer size :=
      (typeSize_takes _).map fun size later known => ⟨size, rfl, known⟩
    refine scaled.bind fun scale later known => .expecting (by simp) fun closed => .pure ?_
    obtain ⟨size, rfl, rfl, sizedAgain⟩ := known
    have fourth := third.step (by simp [sizedAgain]) (by simp [sizedAgain])
    refine ⟨_, fourth.step (by simp [closed]) (by simp [closed]), ?_⟩
    show [spot.kind, spot.next.kind, spot.next.next.kind, spot.next.next.next.kind,
      spot.next.next.next.next.kind] = sizeKinds (some length) (some size)
    rw [opened, sized, comma, sizedAgain, closed]
    rfl
  · refine .step (on_pure none _) (.expecting (by simp) fun closed => .pure ?_)
    refine ⟨_, second.step (by simp [closed]) (by simp [closed]), ?_⟩
    show [spot.kind, spot.next.kind, spot.next.next.kind] = sizeKinds (some length) none
    rw [opened, sized, closed]
    rfl

theorem nextTypeWords_take (spot : Spot) :
    (whileSome nextTypeWord []).Ensures spot fun words later => ∃ tokens,
      spot.Takes tokens later ∧
        tokens.map (fun token => typeWord? token.kind) = words.reverse.map some := by
  refine .whileSome ⟨[], .refl spot, rfl⟩ fun words middle taken => ?_
  refine .of_on fun found later outcome => ?_
  obtain ⟨tokens, takes, spelled⟩ := taken
  rw [on_nextTypeWord] at outcome
  split at outcome
  · next word known =>
      cases outcome
      have other : ∀ kind, typeWord? kind = none → middle.kind ≠ kind := by
        rintro kind missing rfl
        rw [missing] at known
        cases known
      refine ⟨_, takes.step (other _ rfl) (other _ rfl), ?_⟩
      simp [spelled, show typeWord? (middle.token 0).kind = some word from known]
  · cases outcome
    exact ⟨tokens, takes, spelled⟩

theorem typeName_takes (spot : Spot) :
    typeName.Ensures spot fun target later => ∃ tokens, spot.Takes tokens later ∧
      target.WrittenBy tokens := by
  rw [typeName_eq]
  refine (nextTypeWords_take spot).bind fun words middle spelled => ?_
  refine .ite (fun _ => .fail) fun _ => ?_
  obtain ⟨front, takes, texts⟩ := spelled
  refine (typeSizes_take middle).bind fun sizes later sized => .pure ?_
  obtain ⟨back, more, kinds⟩ := sized
  exact ⟨front ++ back, takes.trans more, front, back, words.reverse, rfl, texts, rfl, kinds⟩

end Rule

end SqlDml
