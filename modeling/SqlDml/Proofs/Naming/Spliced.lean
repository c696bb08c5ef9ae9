import Mathlib.Data.List.Perm.Subperm
import SqlDml.Naming.Splice
import SqlDml.Proofs.Text.Bytes

/-!
Contract: splices at spans that lie one behind the other in a text.

Owns:
- the order of splices, and that such splices can be applied in any order given;
- where an offset of the source comes to lie in the result;
- the text of a span in the result: its replacement, or its own text where nothing is spliced.

Does not own: which spans are spliced.
-/

namespace SqlDml

open Text

namespace Splice

/-! ### Order -/

theorem insert_perm (splice : Splice) (splices : List Splice) :
    (insert splice splices).Perm (splice :: splices) := by
  induction splices with
  | nil => exact .refl _
  | cons head tail inductionHypothesis =>
      rw [insert]
      split
      · exact .refl _
      · exact (inductionHypothesis.cons head).trans (.swap _ _ _)

theorem sort_perm (splices : List Splice) : (sort splices).Perm splices := by
  induction splices with
  | nil => exact .refl _
  | cons splice splices inductionHypothesis =>
      exact (insert_perm splice (sort splices)).trans (inductionHypothesis.cons splice)

/-- A splice that does not come before another one, or at its place, begins no earlier. -/
theorem start_le_of_not_notAfter {left right : Splice} (later : ¬ left.notAfter right = true) :
    right.span.start ≤ left.span.start := by
  simp only [notAfter, Bool.or_eq_true, decide_eq_true_eq, Bool.and_eq_true, beq_iff_eq] at later
  omega

theorem start_le_of_notAfter {left right : Splice} (before : left.notAfter right = true) :
    left.span.start ≤ right.span.start := by
  simp only [notAfter, Bool.or_eq_true, decide_eq_true_eq, Bool.and_eq_true, beq_iff_eq] at before
  omega

theorem insert_ordered (splice : Splice) {splices : List Splice}
    (ordered : splices.Pairwise fun left right => left.span.start ≤ right.span.start) :
    (insert splice splices).Pairwise fun left right => left.span.start ≤ right.span.start := by
  induction splices with
  | nil => exact List.pairwise_singleton _ _
  | cons head tail inductionHypothesis =>
      obtain ⟨first, rest⟩ := List.pairwise_cons.mp ordered
      rw [insert]
      split
      · next before =>
          have least := start_le_of_notAfter before
          refine .cons (fun later member => ?_) ordered
          rcases List.mem_cons.mp member with rfl | member
          · exact least
          · exact Nat.le_trans least (first later member)
      · next behind =>
          refine .cons (fun later member => ?_) (inductionHypothesis rest)
          rcases List.mem_cons.mp ((insert_perm splice tail).mem_iff.mp member) with rfl | member
          · exact start_le_of_not_notAfter behind
          · exact first later member

theorem sort_ordered (splices : List Splice) :
    (sort splices).Pairwise fun left right => left.span.start ≤ right.span.start := by
  induction splices with
  | nil => exact .nil
  | cons splice splices inductionHypothesis => exact insert_ordered splice inductionHypothesis

variable {offset : Nat} {chars : List Char} {spans : List Span} {splices : List Splice}

/-- In order, splices at some of the spans lie in the text like the spans. -/
theorem sort_sublist (laid : Laid offset chars spans)
    (places : (splices.map span).Subperm spans) : ((sort splices).map span).Sublist spans := by
  obtain ⟨some, same, part⟩ := places
  have laidPart := laid.sublist part
  have perm : ((sort splices).map span).Perm some := ((sort_perm splices).map span).trans same.symm
  have ordered : ((sort splices).map span).Pairwise fun left right => left.start ≤ right.start :=
    List.pairwise_map.mpr (sort_ordered splices)
  have starts : some.Pairwise fun left right => left.start ≤ right.start :=
    laidPart.starts.imp Nat.le_of_lt
  have equal : (sort splices).map span = some := by
    refine List.Perm.eq_of_pairwise (fun left right leftMember rightMember before after => ?_)
      ordered starts perm
    exact laidPart.eq_of_start (perm.mem_iff.mp leftMember) rightMember (Nat.le_antisymm before after)
  exact equal ▸ part

/-! ### Applying splices in order -/

theorem cut_append (before rest : List Char) : cut (byteCount before) (before ++ rest) =
    (before, rest) := by
  rw [cut, splitAtByte?_append, Option.getD_some]

theorem isBoundary_append (before rest : List Char) :
    isBoundary (byteCount before) (before ++ rest) = true := by
  rw [isBoundary, splitAtByte?_append, Option.isSome_some]

/-- Splices that lie one behind the other pass all checks. -/
theorem checkAll_laid {rest : List Char} (laid : Laid offset rest (splices.map span))
    (done : List Char) (start : offset = byteCount done) (previous : Option Span)
    (behind : ∀ span ∈ previous, span.stop ≤ offset) :
    checkAll (byteCount (done ++ rest)) (done ++ rest) previous splices = .ok () := by
  induction splices generalizing offset rest done previous with
  | nil => rfl
  | cons splice splices inductionHypothesis =>
      rw [List.map_cons] at laid
      cases laid with
      | @span _ before inside after _ _ first last nonempty laidBehind =>
          have begins : splice.span.start = byteCount (done ++ before) := by
            rw [byteCount_append, first, start]
          have ends : splice.span.stop = byteCount (done ++ (before ++ inside)) := by
            rw [last, first, start, byteCount_append, byteCount_append]
            omega
          have whole : done ++ (before ++ (inside ++ after)) =
              done ++ (before ++ inside) ++ after := by simp
          have room : ¬ (splice.span.stop < splice.span.start ∨
              byteCount (done ++ (before ++ (inside ++ after))) < splice.span.stop) := by
            rw [last, first, start]
            simp only [byteCount_append]
            omega
          have startBoundary : isBoundary splice.span.start
              (done ++ (before ++ (inside ++ after))) = true := by
            rw [begins, ← List.append_assoc]
            exact isBoundary_append _ _
          have stopBoundary : isBoundary splice.span.stop
              (done ++ (before ++ (inside ++ after))) = true := by
            rw [ends, whole]
            exact isBoundary_append _ _
          have checked : check (byteCount (done ++ (before ++ (inside ++ after))))
              (done ++ (before ++ (inside ++ after))) previous splice.span = .ok () := by
            unfold check
            rw [if_neg room, startBoundary, stopBoundary]
            cases previous with
            | none => rfl
            | some other =>
                have apart := behind other rfl
                have inOrder : ¬ splice.span.start < other.stop := by omega
                simp [inOrder]
          have later := inductionHypothesis laidBehind (done ++ (before ++ inside)) ends
            (some splice.span) (by simp)
          rw [← whole] at later
          rw [checkAll, checked]
          exact later

/-- A splice replaces the text under its span and keeps the text in front of it. -/
theorem applyFrom_cons {before inside rest : List Char} {splice : Splice}
    (start : splice.span.start = offset + byteCount before)
    (stop : splice.span.stop = splice.span.start + byteCount inside) (splices : List Splice) :
    applyFrom offset (before ++ (inside ++ rest)) (splice :: splices) =
      before ++ splice.replacement.toList ++ applyFrom splice.span.stop rest splices := by
  have first : splice.span.start - offset = byteCount before := by omega
  have second : splice.span.stop - splice.span.start = byteCount inside := by omega
  simp only [applyFrom, first, second, cut_append]

/-- Two parts of a text are spliced one behind the other. -/
theorem applyFrom_append {before after : List Char} {front back : List Splice}
    (laidFront : Laid offset before (front.map span))
    (laidBack : Laid (offset + byteCount before) after (back.map span)) :
    applyFrom offset (before ++ after) (front ++ back) =
      applyFrom offset before front ++ applyFrom (offset + byteCount before) after back := by
  induction front generalizing offset before with
  | nil =>
      cases back with
      | nil => rfl
      | cons splice back =>
          rw [List.map_cons] at laidBack
          cases laidBack with
          | @span _ skipped inside rest _ _ start stop _ _ =>
              have moved : splice.span.start = offset + byteCount (before ++ skipped) := by
                rw [start, byteCount_append, Nat.add_assoc]
              have whole : before ++ (skipped ++ (inside ++ rest)) =
                  before ++ skipped ++ (inside ++ rest) := by simp
              rw [List.nil_append, whole, applyFrom_cons moved stop, applyFrom_cons start stop]
              simp [applyFrom]
  | cons splice front inductionHypothesis =>
      rw [List.map_cons] at laidFront
      cases laidFront with
      | @span _ skipped inside rest _ _ start stop _ behind =>
          have moved : offset + byteCount (skipped ++ (inside ++ rest)) =
              splice.span.stop + byteCount rest := by
            rw [stop, start, byteCount_append, byteCount_append]
            omega
          have whole : skipped ++ (inside ++ rest) ++ after = skipped ++ (inside ++ (rest ++ after)) := by
            simp
          rw [moved] at laidBack
          rw [List.cons_append, whole, applyFrom_cons start stop, applyFrom_cons start stop, moved,
            inductionHypothesis behind laidBack]
          simp

/-- Each splice exchanges the length of its span for that of its replacement. -/
theorem byteCount_applyFrom (laid : Laid offset chars (splices.map span)) :
    byteCount (applyFrom offset chars splices) + (splices.map fun splice => splice.span.length).sum =
      byteCount chars + (splices.map fun splice => splice.replacement.utf8ByteSize).sum := by
  induction splices generalizing offset chars with
  | nil => rfl
  | cons splice splices inductionHypothesis =>
      rw [List.map_cons] at laid
      cases laid with
      | @span _ before inside rest _ _ start stop _ behind =>
          have later := inductionHypothesis behind
          have length : splice.span.length = byteCount inside := by
            rw [Span.length]
            omega
          rw [applyFrom_cons start stop]
          simp only [List.map_cons, List.sum_cons, byteCount_append, length,
            utf8ByteSize_eq_byteCount] at later ⊢
          omega

/-! ### The text of a span -/

/-- Where an offset of the source comes to lie: every splice in front of it exchanges the length of
its span for that of its replacement. -/
def moved (splices : List Splice) (offset : Nat) : Nat :=
  let front := splices.filter fun splice => splice.span.stop ≤ offset
  offset + (front.map fun splice => splice.replacement.utf8ByteSize).sum -
    (front.map fun splice => splice.span.length).sum

/-- A text stands in the result where the splices have moved an offset of the source. -/
def Stands (splices : List Splice) (offset : Nat) (text : List Char) (result : String) : Prop :=
  sliceBytes? (moved splices offset) (moved splices offset + byteCount text) result.toList =
    some text

instance (splices : List Splice) (offset : Nat) (text : List Char) (result : String) :
    Decidable (Stands splices offset text result) :=
  inferInstanceAs (Decidable (_ = _))

/-- The order in which splices are given does not matter. -/
theorem moved_perm {left right : List Splice} (same : left.Perm right) (offset : Nat) :
    moved left offset = moved right offset := by
  have front := same.filter fun splice : Splice => decide (splice.span.stop ≤ offset)
  simp only [moved, (front.map _).sum_nat]

/-- Splices in front of an offset and splices behind it. -/
theorem moved_append {before after : List Char} {front back : List Splice}
    (laidFront : Laid 0 before (front.map span))
    (laidBack : Laid (byteCount before) after (back.map span)) :
    moved (front ++ back) (byteCount before) = byteCount (applyFrom 0 before front) := by
  have inFront : ∀ splice ∈ front, splice.span.stop ≤ byteCount before := by
    intro splice member
    have bounds := laidFront.bounds (List.mem_map_of_mem member)
    omega
  have behind : ∀ splice ∈ back, ¬ splice.span.stop ≤ byteCount before := by
    intro splice member
    have bounds := laidBack.bounds (List.mem_map_of_mem member)
    omega
  have kept : (front ++ back).filter (fun splice => splice.span.stop ≤ byteCount before) = front := by
    rw [List.filter_append, List.filter_eq_self.mpr (by simpa using inFront),
      List.filter_eq_nil_iff.mpr (by simpa using behind), List.append_nil]
  have counted := byteCount_applyFrom laidFront
  rw [moved, kept]
  omega

variable {source : String}

/-- Splices at some of the spans can be applied, in whatever order they are given. -/
theorem applySplices_of_laid (laid : Laid 0 source.toList spans)
    (places : (splices.map span).Subperm spans) :
    applySplices source splices =
      .ok (String.ofList (applyFrom 0 source.toList (sort splices))) := by
  have ordered := laid.sublist (sort_sublist laid places)
  have checked := checkAll_laid ordered [] rfl none (by simp)
  rw [List.nil_append] at checked
  rw [applySplices, utf8ByteSize_eq_byteCount]
  simp only [checked]
  rfl

/-- Around one of the spans the splices in order are those in front of it and the others, and where
the span begins the text of the others begins. -/
theorem around {front back : List Span} {place : Span} {before inside after : List Char}
    (laidFront : Laid 0 before front) (start : place.start = byteCount before)
    (laidBack : Laid place.start (inside ++ after) (place :: back))
    (places : ((sort splices).map span).Sublist (front ++ place :: back)) :
    ∃ left right, sort splices = left ++ right ∧ (left.map span).Sublist front ∧
      (right.map span).Sublist (place :: back) ∧
      moved splices place.start = byteCount (applyFrom 0 before left) ∧
      applyFrom 0 (before ++ (inside ++ after)) (sort splices) =
        applyFrom 0 before left ++ applyFrom place.start (inside ++ after) right := by
  obtain ⟨leftSpans, rightSpans, split, inFront, behind⟩ := List.sublist_append_iff.mp places
  obtain ⟨left, right, same, rfl, rfl⟩ := List.map_eq_append_iff.mp split
  have laidLeft := laidFront.sublist inFront
  have laidRight := laidBack.sublist behind
  rw [start] at laidRight
  refine ⟨left, right, same, inFront, behind, ?_, ?_⟩
  · rw [start, moved_perm (sort_perm splices).symm, same]
    exact moved_append laidLeft laidRight
  · rw [← Nat.zero_add (byteCount before)] at laidRight
    rw [same, applyFrom_append laidLeft laidRight, Nat.zero_add, start]

/-- Where nothing is spliced the text of a span stays as it is. -/
theorem slice_of_kept (laid : Laid 0 source.toList spans)
    (places : (splices.map span).Subperm spans) {place : Span} (member : place ∈ spans)
    (unspliced : place ∉ splices.map span) :
    ∃ out inside, applySplices source splices = .ok out ∧
      place.slice? source.toList = some inside ∧ Stands splices place.start inside out := by
  have ordered := sort_sublist laid places
  have applied := applySplices_of_laid laid places
  obtain ⟨front, back, rfl⟩ := List.append_of_mem member
  obtain ⟨before, inside, after, whole, start, stop, laidFront, laidPlace, laidBack⟩ := laid.split
  rw [Nat.zero_add] at start
  obtain ⟨left, right, same, _, behind, position, joined⟩ :=
    around laidFront start laidPlace ordered
  have absent : place ∉ right.map span := by
    intro found
    have inSort : place ∈ (sort splices).map span := by
      rw [same, List.map_append]
      exact List.mem_append_right _ found
    exact unspliced (((sort_perm splices).map span).mem_iff.mp inSort)
  have inBack : (right.map span).Sublist back := by
    rcases List.sublist_cons_iff.mp behind with later | ⟨others, first, _⟩
    · exact later
    · exact absurd (first ▸ List.mem_cons_self) absent
  have kept : applyFrom place.start (inside ++ after) right =
      inside ++ applyFrom place.stop after right := by
    have laidRight := laidBack.sublist inBack
    have laidInside : Laid place.start inside (([] : List Splice).map span) := .nothing _ _
    rw [stop] at laidRight ⊢
    exact applyFrom_append laidInside laidRight
  refine ⟨_, inside, applied, ?_, ?_⟩
  · rw [Span.slice?, whole, start, stop, start]
    exact sliceBytes?_append before inside after
  · rw [Stands, String.toList_ofList, whole, joined, kept, position]
    exact sliceBytes?_append _ inside _

/-- A splice puts its replacement where its span comes to lie. -/
theorem slice_of_spliced (laid : Laid 0 source.toList spans)
    (places : (splices.map span).Subperm spans) {splice : Splice} (member : splice ∈ splices) :
    ∃ out, applySplices source splices = .ok out ∧
      Stands splices splice.span.start splice.replacement.toList out := by
  have ordered := sort_sublist laid places
  have applied := applySplices_of_laid laid places
  have inSpans : splice.span ∈ spans := places.subset (List.mem_map_of_mem member)
  obtain ⟨front, back, rfl⟩ := List.append_of_mem inSpans
  obtain ⟨before, inside, after, whole, start, stop, laidFront, laidPlace, laidBack⟩ := laid.split
  rw [Nat.zero_add] at start
  obtain ⟨left, right, same, inFront, behind, position, joined⟩ :=
    around laidFront start laidPlace ordered
  have sorted : splice ∈ left ++ right := same ▸ (sort_perm splices).mem_iff.mpr member
  have notLeft : splice ∉ left := by
    intro found
    have bounds := laidFront.bounds (inFront.subset (List.mem_map_of_mem found))
    omega
  have inRight : splice ∈ right := (List.mem_append.mp sorted).resolve_left notLeft
  obtain ⟨others, rfl⟩ : ∃ others, right = splice :: others := by
    cases right with
    | nil => cases inRight
    | cons first others =>
        rcases List.mem_cons.mp inRight with rfl | later
        · exact ⟨others, rfl⟩
        · -- its span would stand twice in the text
          have again : splice.span ∈ back := behind.tail.subset (List.mem_map_of_mem later)
          have once := (List.nodup_append.mp laid.nodup).2.1
          exact absurd again (List.nodup_cons.mp once).1
  have first : splice.span.start = splice.span.start + byteCount [] := (Nat.add_zero _).symm
  have replaced : applyFrom splice.span.start (inside ++ after) (splice :: others) =
      splice.replacement.toList ++ applyFrom splice.span.stop after others :=
    applyFrom_cons first stop others
  refine ⟨_, applied, ?_⟩
  rw [Stands, String.toList_ofList, whole, joined, replaced, position]
  exact sliceBytes?_append _ _ _

end Splice

end SqlDml
