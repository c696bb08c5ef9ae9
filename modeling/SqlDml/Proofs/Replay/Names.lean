import SqlDml.Proofs.Abreast.Expressions
import SqlDml.Proofs.Reading.Names
import SqlDml.Proofs.Replay.Steady

/-!
Contract: names and constants read the same whatever follows.

Owns:
- names, which a dot continues, and lists of them;
- constants, which another string may continue.

Does not own: expressions, queries and table references.
-/

namespace SqlDml

/-- Whether a dot and a name come next. -/
def Spot.dotted (spot : Spot) : Bool :=
  spot.kind == .punct .dot && (spot.token 1).kind.isNameAfterDot

namespace Rule

open Comparison (Consuming)

set_option synthInstance.maxSize 1000

variable {β : Type}

/-- Behind a name in common. -/
theorem Retells.name {tails : Tails} {origin spot place : Spot} {anyKeyword : Bool}
    {next : Ident → Rule β} (beside : tails.Beside origin spot place) (inside : tails.Within spot)
    (rest : ∀ ident, tails.Beside origin spot.next place.next →
      (next ident).Retells tails origin spot.next place.next)
    (lawful : ∀ ident, (next ident).Lawful) :
    (Rule.name anyKeyword >>= next).Retells tails origin spot place := by
  cases found : identOfToken? spot.source anyKeyword (spot.token 0) with
  | none =>
      refine .of_stuck ?_
      rw [on_bind, on_name, found, Outcome.bind_stuck]
  | some ident =>
      have found' : identOfToken? place.source anyKeyword (place.token 0) = some ident := by
        rw [beside.source, beside.token inside, found]
      refine .step (by rw [on_name, found]) (by rw [on_name, found']) ?_
      exact rest ident (beside.next inside)

namespace Steady

variable {tails : Tails} {origin : Spot} {inside : Bool}

/-! ### Names -/

instance (anyKeyword : Bool) : Steady tails origin inside (name anyKeyword) := by
  have named : Steady tails origin true (name anyKeyword) := by
    rw [name_eq]
    refine look fun token => ?_
    refine look fun source => ?_
    split <;> infer_instance
  exact of_consuming

instance : Steady tails origin inside identifier := by
  unfold identifier
  infer_instance

instance : Steady tails origin inside identifierAfterDot := by
  unfold identifierAfterDot
  infer_instance

/-! ### Behind a dot -/

end Steady

theorem on_dotNameFollows (spot : Spot) :
    dotNameFollows.on spot = .done spot.dotted spot := by
  unfold dotNameFollows Spot.dotted
  simp only [on_bind, on_nextIsMark, Outcome.bind_done, on_ite, on_peekAhead, on_pure]
  by_cases dot : spot.kind = .punct .dot <;> simp [dot]

namespace Steady

variable {tails : Tails} {origin : Spot} {inside : Bool} [tails.Open]

/-- A choice by a dot and a name.  Where they are read, two tokens are consumed. -/
theorem dotName {yes no : Rule β} [yes.Lawful] [no.Lawful] [Steady tails origin true yes]
    [Steady tails origin inside no]
    (spends : ∀ spot : Spot, spot.kind = .punct .dot → yes.Spends 2 spot) :
    Steady tails origin inside
      (dotNameFollows >>= fun found => if found = true then yes else no) := by
  refine choose Spot.dotted on_dotNameFollows fun {spot place} beside _ => ?_
  by_cases both : tails.rest.length + 1 < spot.ahead.length
  · left
    have inside : tails.Within spot := Nat.lt_of_succ_lt both
    rw [Spot.dotted, Spot.dotted, beside.kind inside, beside.token_eq 1 both]
    exact ⟨rfl, fun _ => inside⟩
  cases present : spot.dotted with
  | true =>
      refine .inr ⟨rfl, fun value later => ?_⟩
      have dot : spot.kind = .punct .dot := by simp_all [Spot.dotted]
      exact (spends spot dot).beyond (by omega)
  | false =>
      refine .inl ⟨?_, by simp⟩
      rcases beside.cases with ⟨ahead, _⟩ | inside
      · have other : place.kind ≠ .punct .dot :=
          (beside.kind_at 0 (by rw [ahead]; rfl)).ne inferInstance
        rw [Spot.dotted, beq_false_of_ne other, Bool.false_and]
      · have kind := beside.kind inside
        by_cases dot : spot.kind = .punct .dot
        · have other := beside.not_name_behind_dot 0 dot (by rw [Tails.Within] at inside; omega)
          rw [Spot.dotted, other, Bool.and_false]
        · rw [Spot.dotted, kind, beq_false_of_ne dot, Bool.false_and]

instance : Consuming inside identifierAfterDot := by
  unfold identifierAfterDot
  infer_instance

instance : Steady tails origin inside tableName := by
  unfold tableName
  refine behind (fun first => inferInstance) fun first => ?_
  exact dotName fun spot dot => .advance (by simp [dot]) .one

instance : Steady tails origin inside columnRef := by
  unfold columnRef
  refine behind (fun first => inferInstance) fun first => ?_
  have second : ∀ second, Steady tails origin false (dotNameFollows >>= fun found =>
      if found = true then do
        let _ ← Rule.advance
        let third ← identifierAfterDot
        return ⟨some first, some second, third, first.span.merge third.span⟩
      else (return ⟨none, some first, second, first.span.merge second.span⟩ : Rule ColumnRef)) :=
    fun second => dotName fun spot dot => .advance (by simp [dot]) .one
  exact dotName fun spot dot => .advance (by simp [dot]) .one

instance : Steady tails origin inside restOfIdents := by
  unfold restOfIdents
  infer_instance

instance : Steady tails origin inside identsInParens := by
  unfold identsInParens
  infer_instance

/-! ### Constants -/

instance (value : String) : Steady tails origin inside (nextPart value) := by
  unfold nextPart
  refine byKind (fun kind => ?_) (Pure.pure none) (fun kind ends => by cases ends <;> rfl)
    (fun spot _ inner => ?_) fun kind => ?_
  · split <;> infer_instance
  · split
    · exact .inr (.inner inner)
    · exact .inl rfl
  · split <;> infer_instance

/-- A run of strings, of which the first one is in common. -/
instance : Steady tails origin true stringRun := by
  rw [stringRun_eq]
  exact look fun start => inferInstance

instance : Steady tails origin true placeholder := by
  unfold placeholder
  infer_instance

instance (value : Literal) : Steady tails origin true (tokenLiteral value) := by
  unfold tokenLiteral
  infer_instance

/-- A literal of two tokens, both of which are in common. -/
theorem temporalLiteral_retells (kind : TemporalKind) {spot place : Spot}
    (beside : tails.Beside origin spot place) (both : tails.rest.length + 1 < spot.ahead.length) :
    (temporalLiteral kind).Retells tails origin spot place := by
  unfold temporalLiteral
  refine .advance beside (Nat.lt_of_succ_lt both) fun beside => ?_
  refine .bind (within beside (by simp [Tails.Within]; omega)) fun run later after beside => ?_
  exact anywhere beside

omit [tails.Open] in
/-- At a string a run of strings consumes a token. -/
theorem stringRun_spends {spot : Spot} {part : String} {quote : Char}
    (kind : spot.kind = .string part quote) : stringRun.Spends 1 spot :=
  .of_on fun _ _ outcome => Comparison.Consuming.length_of_stringRun kind outcome

omit [tails.Open] in
theorem introducedValue_spends (spot : Spot) : introducedValue.Spends 1 spot := by
  have going : ∀ {kind : TokenKind}, spot.kind = kind → kind ≠ .endOfInput →
      spot.kind ≠ .endOfInput := fun same inner => same ▸ inner
  unfold introducedValue
  refine .step (on_peek spot) ?_
  split
  · next kind => exact (stringRun_spends kind).bind fun _ _ => .nothing
  · next kind => exact Spends.inner (going kind (by simp))
  · next kind => exact Spends.inner (going kind (by simp))
  · exact .fail

instance : Steady tails origin inside introducedValue := by
  unfold introducedValue
  refine byKind (fun kind => ?_) (Rule.fail ["string literal"])
    (fun kind ends => by cases ends <;> rfl) (fun spot _ inner => ?_) fun kind => ?_
  · split <;> infer_instance
  · split
    · next kind => exact .inr ((stringRun_spends kind).bind fun _ _ => .nothing)
    · exact .inr (.inner inner)
    · exact .inr (.inner inner)
    · exact .inl rfl
  · split <;> infer_instance

instance (charset : String) : Steady tails origin true (introducedLiteral charset) := by
  unfold introducedLiteral
  infer_instance

instance : Steady tails origin inside odbcLiteral := by
  unfold odbcLiteral
  refine behind (fun start => inferInstance) fun start => ?_
  refine behind (fun kind => inferInstance) fun kind => ?_
  have value : Steady tails origin true (peek >>= fun next =>
      if next.isString = true then do
        let (value, _) ← stringRun
        let stop ← expectMark .rightBrace
        Pure.pure (Expr.literal (.odbc kind.value value) (start.merge stop))
      else Rule.fail ["string literal"]) :=
    look fun next => inferInstance
  exact of_consuming

instance : Steady tails origin true currentTimestamp := by
  unfold currentTimestamp
  infer_instance

instance : Steady tails origin inside typeSize := by
  unfold typeSize
  refine byKind (fun kind => ?_) (Rule.fail ["type length"])
    (fun kind ends => by cases ends <;> rfl) (fun spot _ inner => ?_) fun kind => ?_
  · split <;> infer_instance
  · split
    · exact .inr (.ite (fun _ => Spends.inner inner) fun _ => .fail)
    · exact .inl rfl
  · split <;> infer_instance

instance : Steady tails origin inside typeSizes := by
  unfold typeSizes
  dsimp only
  infer_instance

omit [tails.Open] in
/-- The words of a type go on up to a parenthesis, so that every keyword is one of them. -/
instance [tails.Closed] (words : List String) :
    Steady tails origin inside (nextTypeWord words) := by
  unfold nextTypeWord
  refine look fun kind => ?_
  split <;> infer_instance

omit [tails.Open] in
instance [tails.Closed] : Steady tails origin inside typeName := by
  rw [typeName_eq]
  infer_instance

end Steady

end Rule

end SqlDml
