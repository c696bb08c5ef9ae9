import Mathlib.Data.List.Induction
import Mathlib.Data.List.Sort
import SqlDml.Proofs.Rules.Spot

/-!
Contract: merging the failures of a parse in any order and grouping.

Owns:
- failures that describe one place in one way, as those of one source do;
- a merging of many failures, two at a time, and its outcome read off the failures that it is of;
- merging is associative, commutative and idempotent on such failures, and every merging of a list
  comes to the same.

Does not own: which failures are met, and which of them is reported.
-/

namespace SqlDml

namespace SyntaxError

/-- Failures with their descriptions in order, of which those at one offset have one position and
found one token. -/
structure OfOneSource (failures : Set SyntaxError) : Prop where
  ordered : ∀ error ∈ failures, ∃ position expected found,
    error = ofExpected position expected found
  position : ∀ left ∈ failures, ∀ right ∈ failures,
    left.position.offset = right.position.offset → left.position = right.position
  found : ∀ left ∈ failures, ∀ right ∈ failures,
    left.position.offset = right.position.offset → left.found = right.found

/-- A failure shows one of several: it has the position of that one and found the same. -/
def Shows (error : SyntaxError) (failures : List SyntaxError) : Prop :=
  ∃ failure ∈ failures, failure.position = error.position ∧ failure.found = error.found

/-- Merging shows a failure of the side that got further, of the left one at one offset. -/
theorem Shows.merge {left right : SyntaxError} {front back : List SyntaxError}
    (first : left.Shows front) (second : right.Shows back) :
    (left.merge right).Shows (front ++ back) := by
  have shownFirst : ∀ {error : SyntaxError}, error.position = left.position →
      error.found = left.found → error.Shows (front ++ back) := by
    intro error position found
    obtain ⟨failure, member, samePosition, sameFound⟩ := first
    exact ⟨failure, List.mem_append_left _ member, samePosition.trans position.symm,
      sameFound.trans found.symm⟩
  unfold SyntaxError.merge
  split
  · exact shownFirst rfl rfl
  · obtain ⟨failure, member, same⟩ := second
    exact ⟨failure, List.mem_append_right _ member, same⟩
  · exact shownFirst rfl rfl

/-- What unites failures of one source and shows one of them is determined by which they are. -/
theorem Unites.unique {failures : Set SyntaxError} (oneSource : OfOneSource failures)
    {left right : SyntaxError} {front back : List SyntaxError}
    (inside : ∀ failure ∈ front, failure ∈ failures)
    (same : ∀ failure, failure ∈ front ↔ failure ∈ back)
    (first : left.Unites front) (second : right.Unites back)
    (shown : left.Shows front) (alsoShown : right.Shows back) : left = right := by
  obtain ⟨one, oneMember, onePosition, oneFound⟩ := shown
  obtain ⟨other, otherMember, otherPosition, otherFound⟩ := alsoShown
  have otherInFront := (same other).mpr otherMember
  have offset : left.position.offset = right.position.offset := by
    refine Nat.le_antisymm ?_ ?_
    · rw [← onePosition]
      exact second.furthest one ((same one).mp oneMember)
    · rw [← otherPosition]
      exact first.furthest other otherInFront
  have level : one.position.offset = other.position.offset := by
    rw [onePosition, otherPosition, offset]
  have expected : left.expected = right.expected := by
    refine first.sorted.eq_of_mem_iff second.sorted fun text => ?_
    rw [first.expects, second.expects, offset]
    simp only [same]
  have position : left.position = right.position := by
    rw [← onePosition, ← otherPosition]
    exact oneSource.position one (inside one oneMember) other (inside other otherInFront) level
  have found : left.found = right.found := by
    rw [← oneFound, ← otherFound]
    exact oneSource.found one (inside one oneMember) other (inside other otherInFront) level
  cases left
  cases right
  simp_all

end SyntaxError

/-- Failures that are merged two at a time, in some order and grouping. -/
inductive Merging where
  | one (error : SyntaxError)
  | both (left right : Merging)

namespace Merging

/-- The failure that a merging comes to. -/
def outcome : Merging → SyntaxError
  | one error => error
  | both left right => left.outcome.merge right.outcome

/-- The failures that are merged, from left to right. -/
def parts : Merging → List SyntaxError
  | one error => [error]
  | both left right => left.parts ++ right.parts

/-- The merging of a list from left to right. -/
def inTurn (first : SyntaxError) (others : List SyntaxError) : Merging :=
  others.foldl (fun before error => before.both (one error)) (one first)

theorem inTurn_concat (first : SyntaxError) (others : List SyntaxError) (last : SyntaxError) :
    inTurn first (others ++ [last]) = (inTurn first others).both (one last) := by
  simp [inTurn]

theorem outcome_inTurn (first : SyntaxError) (others : List SyntaxError) :
    (inTurn first others).outcome = others.foldl SyntaxError.merge first := by
  induction others using List.reverseRecOn with
  | nil => rfl
  | append_singleton others last inductionHypothesis =>
      rw [inTurn_concat, outcome, inductionHypothesis, List.foldl_concat, outcome]

theorem parts_inTurn (first : SyntaxError) (others : List SyntaxError) :
    (inTurn first others).parts = first :: others := by
  induction others using List.reverseRecOn with
  | nil => rfl
  | append_singleton others last inductionHypothesis =>
      rw [inTurn_concat, parts, inductionHypothesis, parts, List.cons_append]

variable {failures : Set SyntaxError}

/-- A merging unites its failures. -/
theorem unites (merging : Merging) (oneSource : SyntaxError.OfOneSource failures)
    (inside : ∀ part ∈ merging.parts, part ∈ failures) : merging.outcome.Unites merging.parts := by
  induction merging with
  | one error =>
      obtain ⟨position, expected, found, rfl⟩ :=
        oneSource.ordered error (inside error (List.mem_singleton_self _))
      exact SyntaxError.unites_ofExpected position expected found
  | both left right leftHypothesis rightHypothesis =>
      have first := leftHypothesis fun part member =>
        inside part (List.mem_append_left _ member)
      have second := rightHypothesis fun part member =>
        inside part (List.mem_append_right _ member)
      exact first.merge second

theorem shows (merging : Merging) : merging.outcome.Shows merging.parts := by
  induction merging with
  | one error => exact ⟨error, List.mem_singleton_self _, rfl, rfl⟩
  | both left right leftHypothesis rightHypothesis => exact leftHypothesis.merge rightHypothesis

/-- Mergings of the same failures come to the same, however often each of them is merged. -/
theorem outcome_eq (merging other : Merging) (oneSource : SyntaxError.OfOneSource failures)
    (inside : ∀ part ∈ merging.parts, part ∈ failures)
    (same : ∀ part, part ∈ merging.parts ↔ part ∈ other.parts) :
    merging.outcome = other.outcome := by
  have otherInside : ∀ part ∈ other.parts, part ∈ failures :=
    fun part member => inside part ((same part).mpr member)
  exact (unites merging oneSource inside).unique oneSource inside same
    (unites other oneSource otherInside) merging.shows other.shows

end Merging

open Merging

/-- On failures of one source merging is associative, commutative and idempotent, and keeps the
descriptions strictly increasing.  So every merging of a list, in whatever order and grouping, comes
to what the list is folded to from left to right. -/
theorem merge_order_independent {failures : Set SyntaxError}
    (oneSource : SyntaxError.OfOneSource failures) :
    (∀ a ∈ failures, ∀ b ∈ failures, ∀ c ∈ failures,
      (a.merge b).merge c = a.merge (b.merge c)) ∧
    (∀ a ∈ failures, ∀ b ∈ failures, a.merge b = b.merge a) ∧
    (∀ a ∈ failures, a.merge a = a) ∧
    (∀ a ∈ failures, ∀ b ∈ failures, (a.merge b).expected.Pairwise (· < ·)) ∧
    ∀ (merging : Merging) (first : SyntaxError) (others : List SyntaxError),
      (∀ error ∈ first :: others, error ∈ failures) → merging.parts.Perm (first :: others) →
        merging.outcome = others.foldl SyntaxError.merge first ∧
        merging.outcome.expected.Pairwise (· < ·) := by
  refine ⟨?_, ?_, ?_, ?_, ?_⟩
  · intro a aInside b bInside c cInside
    apply outcome_eq (((one a).both (one b)).both (one c)) ((one a).both ((one b).both (one c)))
      oneSource
    · simp [parts, aInside, bInside, cInside]
    · simp [parts]
  · intro a aInside b bInside
    apply outcome_eq ((one a).both (one b)) ((one b).both (one a)) oneSource
    · simp [parts, aInside, bInside]
    · simp [parts, or_comm]
  · intro a aInside
    apply outcome_eq ((one a).both (one a)) (one a) oneSource
    · simp [parts, aInside]
    · simp [parts]
  · intro a aInside b bInside
    have united := unites ((one a).both (one b)) oneSource
      (by simp [parts, aInside, bInside])
    exact united.sorted
  · intro merging first others inside same
    have mergedInside : ∀ part ∈ merging.parts, part ∈ failures :=
      fun part member => inside part (same.mem_iff.mp member)
    refine ⟨?_, (unites merging oneSource mergedInside).sorted⟩
    rw [← outcome_inTurn]
    apply outcome_eq _ _ oneSource mergedInside
    intro part
    rw [parts_inTurn, same.mem_iff]

/-- Two failures at one token, which have a description in common, and one that got less far. -/
theorem merge_order_independent_of_three :
    let far := SyntaxError.ofExpected ⟨10, 1, 11⟩ ["USING", "','"] "WHERE"
    let same := SyntaxError.ofExpected ⟨10, 1, 11⟩ ["','", "end of input"] "WHERE"
    let near := SyntaxError.ofExpected ⟨3, 1, 4⟩ ["FROM"] "x"
    SyntaxError.OfOneSource {far, same, near} ∧
      (far.merge same).merge near = far.merge (same.merge near) ∧
      ((one near).both ((one same).both (one far))).outcome = (far.merge same).merge near ∧
      (far.merge same).expected = ["','", "USING", "end of input"] := by
  intro far same near
  have oneSource : SyntaxError.OfOneSource {far, same, near} := by
    refine ⟨?_, ?_, ?_⟩
    · rintro error (rfl | rfl | rfl) <;> exact ⟨_, _, _, rfl⟩
    · rintro left (rfl | rfl | rfl) right (rfl | rfl | rfl) <;> decide
    · rintro left (rfl | rfl | rfl) right (rfl | rfl | rfl) <;> decide
  have laws := merge_order_independent oneSource
  have members : ∀ error ∈ [far, same, near], error ∈ ({far, same, near} : Set SyntaxError) := by
    simp
  refine ⟨oneSource, ?_, ?_, by decide +kernel⟩
  · exact laws.1 far (by simp) same (by simp) near (by simp)
  · exact (laws.2.2.2.2 _ far [same, near] members (by decide)).1

end SqlDml
