import Mathlib.Data.List.Sort
import SqlDml.Proofs.Naming.Spliced

/-!
Contract: when splices can be applied together, and the text that they give.

Owns:
- spans that fit in a text and lie apart, where empty ones and neighbours may touch;
- the text after all splices, told place by place and not in the order of the splices;
- that splices are applied exactly where they fit and lie apart, with that text as the result, and
  that the order in which they are given does not matter.

Does not own: which parts of a statement are spliced.
-/

namespace SqlDml

open Text

/-! ### What splices need -/

/-- An offset between two characters of a text, or at one of its ends. -/
def Text.Cuts (chars : List Char) (offset : Nat) : Prop :=
  ∃ front back, chars = front ++ back ∧ offset = byteCount front

/-- A span that is in order and covers whole characters of a text. -/
structure Span.FitsIn (chars : List Char) (span : Span) : Prop where
  order : span.start ≤ span.stop
  inside : span.stop ≤ byteCount chars
  first : Cuts chars span.start
  last : Cuts chars span.stop

/-- Two spans cover the same bytes. -/
def Span.SameRange (left right : Span) : Prop :=
  left.start = right.start ∧ left.stop = right.stop

instance (left right : Span) : Decidable (left.Apart right) :=
  inferInstanceAs (Decidable (_ ∨ _))

instance (left right : Span) : Decidable (left.SameRange right) :=
  inferInstanceAs (Decidable (_ ∧ _))

namespace Splice

/-- Splices that fit in a text, no two of which cover a part of it together. -/
structure Spliceable (chars : List Char) (splices : List Splice) : Prop where
  fits : ∀ splice ∈ splices, splice.span.FitsIn chars
  apart : splices.Pairwise fun left right => left.span.Apart right.span

theorem spliceable_iff {chars : List Char} {splices : List Splice} :
    Spliceable chars splices ↔ (∀ splice ∈ splices, splice.span.FitsIn chars) ∧
      splices.Pairwise fun left right => left.span.Apart right.span :=
  ⟨fun able => ⟨able.fits, able.apart⟩, fun ⟨fits, apart⟩ => ⟨fits, apart⟩⟩

/-- Whether a splice covers nothing and puts its text at a place. -/
def insertsAt (place : Nat) (splice : Splice) : Bool :=
  splice.span.start == place && splice.span.stop == place

/-- Whether a splice covers a text that begins at a place. -/
def replacesAt (place : Nat) (splice : Splice) : Bool :=
  splice.span.start == place && decide (place < splice.span.stop)

/-- Whether a splice covers the character at a place. -/
def covers (place : Nat) (splice : Splice) : Bool :=
  decide (splice.span.start ≤ place) && decide (place < splice.span.stop)

/-- What is written at a place: the texts that are put there, in the order given, and what replaces
the text that begins there. -/
def writtenAt (splices : List Splice) (place : Nat) : List Char :=
  (splices.filter (insertsAt place) ++ splices.filter (replacesAt place)).flatMap fun splice =>
    splice.replacement.toList

/-- A text from a place on: at each place what is written there, and the character that stands there
unless a splice covers it. -/
def textFrom (splices : List Splice) : (place : Nat) → List Char → List Char
  | place, [] => writtenAt splices place
  | place, char :: chars =>
      writtenAt splices place ++ (if splices.any (covers place) then [] else [char]) ++
        textFrom splices (place + char.utf8Size) chars

/-- The text after all splices. -/
def splicedText (source : String) (splices : List Splice) : String :=
  String.ofList (textFrom splices 0 source.toList)

end Splice

/-! ### Cuts -/

/-- A cut after some bytes has that many bytes in front of it. -/
theorem Text.byteCount_of_splitAtByte? {count : Nat} {chars before after : List Char}
    (cut : splitAtByte? count chars = some (before, after)) : byteCount before = count := by
  fun_induction splitAtByte? count chars generalizing before with
  | case1 chars =>
      obtain ⟨rfl, rfl⟩ := Prod.mk.inj (Option.some.inj cut)
      rfl
  | case2 => cases cut
  | case3 count char chars fits inductionHypothesis =>
      obtain ⟨⟨left, right⟩, inner, same⟩ := Option.map_eq_some_iff.mp cut
      obtain ⟨rfl, rfl⟩ := Prod.mk.inj same
      rw [byteCount_cons, inductionHypothesis inner]
      omega
  | case4 => cases cut

theorem Text.cuts_iff {chars : List Char} {offset : Nat} :
    Cuts chars offset ↔ isBoundary offset chars = true := by
  constructor
  · rintro ⟨front, back, rfl, rfl⟩
    exact Splice.isBoundary_append front back
  · intro boundary
    obtain ⟨⟨front, back⟩, cut⟩ := Option.isSome_iff_exists.mp boundary
    exact ⟨front, back, (append_of_splitAtByte? cut).symm, (byteCount_of_splitAtByte? cut).symm⟩

instance (chars : List Char) (offset : Nat) : Decidable (Text.Cuts chars offset) :=
  decidable_of_iff _ Text.cuts_iff.symm

theorem Span.fitsIn_iff {chars : List Char} {span : Span} :
    span.FitsIn chars ↔ (span.start ≤ span.stop ∧ span.stop ≤ byteCount chars) ∧
      Cuts chars span.start ∧ Cuts chars span.stop :=
  ⟨fun fits => ⟨⟨fits.order, fits.inside⟩, fits.first, fits.last⟩,
    fun ⟨⟨order, inside⟩, first, last⟩ => ⟨order, inside, first, last⟩⟩

instance (chars : List Char) (span : Span) : Decidable (span.FitsIn chars) :=
  decidable_of_iff _ Span.fitsIn_iff.symm

/-- Of two ways to cut a text, the later cut is behind the earlier one. -/
theorem Text.append_of_byteCount_le {before rest front back : List Char}
    (whole : before ++ rest = front ++ back) (behind : byteCount before ≤ byteCount front) :
    ∃ middle, front = before ++ middle ∧ rest = middle ++ back := by
  rcases List.append_eq_append_iff.mp whole with same | ⟨more, rfl, rfl⟩
  · exact same
  · have none : more = [] := by
      by_contra nonempty
      have positive := byteCount_pos nonempty
      rw [byteCount_append] at behind
      omega
    subst none
    exact ⟨[], by simp, by simp⟩

/-- A span that fits cuts the text in three. -/
theorem Span.FitsIn.split {chars : List Char} {span : Span} (fits : span.FitsIn chars) :
    ∃ before inside after, chars = before ++ (inside ++ after) ∧ span.start = byteCount before ∧
      span.stop = span.start + byteCount inside := by
  obtain ⟨before, rest, rfl, start⟩ := fits.first
  obtain ⟨front, after, whole, stop⟩ := fits.last
  obtain ⟨inside, rfl, rfl⟩ := append_of_byteCount_le whole (start ▸ stop ▸ fits.order)
  exact ⟨before, inside, after, rfl, start, by rw [stop, start, byteCount_append]⟩

instance (chars : List Char) (splices : List Splice) :
    Decidable (Splice.Spliceable chars splices) :=
  decidable_of_iff _ Splice.spliceable_iff.symm

namespace Splice

variable {chars : List Char} {splices others : List Splice}

/-! ### The order of splices -/

instance : Std.Total fun left right : Splice => left.notAfter right = true where
  total left right := by
    simp only [notAfter, Bool.or_eq_true, decide_eq_true_eq, Bool.and_eq_true, beq_iff_eq]
    omega

instance : IsTrans Splice fun left right => left.notAfter right = true where
  trans left middle right := by
    simp only [notAfter, Bool.or_eq_true, decide_eq_true_eq, Bool.and_eq_true, beq_iff_eq]
    omega

/-- Splices are sorted by insertion, in the order of their places. -/
theorem sort_eq_insertionSort (splices : List Splice) :
    sort splices = splices.insertionSort fun left right => left.notAfter right := by
  have inserts : ∀ splice splices, insert splice splices =
      splices.orderedInsert (fun left right : Splice => left.notAfter right) splice := by
    intro splice splices
    induction splices with
    | nil => rfl
    | cons head tail inductionHypothesis =>
        rw [insert, List.orderedInsert_cons, inductionHypothesis]
  induction splices with
  | nil => rfl
  | cons splice splices inductionHypothesis =>
      rw [List.insertionSort_cons, ← inductionHypothesis, ← inserts]
      rfl

theorem sort_pairwise (splices : List Splice) :
    (sort splices).Pairwise fun left right => left.notAfter right = true := by
  rw [sort_eq_insertionSort]
  exact List.pairwise_insertionSort _ splices

/-- Two splices each of which is not after the other one are at the same place. -/
theorem sameRange_of_notAfter {left right : Splice} (before : left.notAfter right = true)
    (behind : right.notAfter left = true) : left.span.SameRange right.span := by
  simp only [notAfter, Bool.or_eq_true, decide_eq_true_eq, Bool.and_eq_true, beq_iff_eq]
    at before behind
  unfold Span.SameRange
  omega

/-- Splices at different places have one order only. -/
theorem sort_eq_of_perm (same : others.Perm splices)
    (different : splices.Pairwise fun left right => ¬ left.span.SameRange right.span) :
    sort others = sort splices := by
  have sorted : (sort others).Perm (sort splices) :=
    ((sort_perm others).trans same).trans (sort_perm splices).symm
  have distinct : splices.Pairwise fun left right =>
      left.span.SameRange right.span → left = right :=
    different.imp fun apart equal => absurd equal apart
  have : Std.Symm fun left right : Splice => left.span.SameRange right.span → left = right :=
    ⟨fun _ _ equal same => (equal ⟨same.1.symm, same.2.symm⟩).symm⟩
  refine List.Perm.eq_of_pairwise (fun left right leftMember rightMember before behind => ?_)
    (sort_pairwise others) (sort_pairwise splices) sorted
  have inSplices := ((sort_perm others).trans same).mem_iff.mp leftMember
  exact distinct.forall_of_forall (fun _ _ _ => rfl) inSplices
    ((sort_perm splices).mem_iff.mp rightMember) (sameRange_of_notAfter before behind)

/-- Sorting does not move splices that are in order already. -/
theorem filter_sort {wanted : Splice → Bool}
    (ordered : (splices.filter wanted).Pairwise fun left right => left.notAfter right = true) :
    (sort splices).filter wanted = splices.filter wanted := by
  have part : (splices.filter wanted).Sublist (sort splices) := by
    rw [sort_eq_insertionSort]
    exact List.sublist_insertionSort ordered List.filter_sublist
  have found := part.filter wanted
  rw [List.filter_filter] at found
  simp only [Bool.and_self] at found
  exact (found.eq_of_length ((sort_perm splices).filter wanted).length_eq.symm).symm

/-! ### What is written at a place -/

/-- What is told of splices at a place does not depend on a splice that is elsewhere. -/
theorem writtenAt_cons_elsewhere {splice : Splice} {place : Nat}
    (inserts : insertsAt place splice = false) (replaces : replacesAt place splice = false) :
    writtenAt (splice :: splices) place = writtenAt splices place := by
  unfold writtenAt
  rw [List.filter_cons_of_neg (by simp [inserts]), List.filter_cons_of_neg (by simp [replaces])]

/-- Where no splice begins nothing is written. -/
theorem writtenAt_eq_nil {place : Nat} (none : ∀ splice ∈ splices, splice.span.start ≠ place) :
    writtenAt splices place = [] := by
  unfold writtenAt
  rw [List.filter_eq_nil_iff.mpr, List.filter_eq_nil_iff.mpr]
  · rfl
  · intro splice member replaces
    simp [replacesAt, none splice member] at replaces
  · intro splice member inserts
    simp [insertsAt, none splice member] at inserts

/-- The order of splices that lie apart does not matter, but for those that cover nothing and stand
at one place. -/
theorem writtenAt_sort (apart : splices.Pairwise fun left right => left.span.Apart right.span)
    (place : Nat) : writtenAt (sort splices) place = writtenAt splices place := by
  have inserts : (splices.filter (insertsAt place)).Pairwise fun left right =>
      left.notAfter right = true := by
    refine List.pairwise_of_forall_mem_list fun left leftMember right rightMember => ?_
    have here := (List.mem_filter.mp leftMember).2
    have there := (List.mem_filter.mp rightMember).2
    simp only [insertsAt, Bool.and_eq_true, beq_iff_eq] at here there
    simp [notAfter, here, there]
  have replaces : (splices.filter (replacesAt place)).Pairwise fun left right =>
      left.notAfter right = true := by
    refine (apart.filter _).imp_of_mem fun {left right} leftMember rightMember apart => ?_
    have here := (List.mem_filter.mp leftMember).2
    have there := (List.mem_filter.mp rightMember).2
    simp only [replacesAt, Bool.and_eq_true, beq_iff_eq, decide_eq_true_eq] at here there
    unfold Span.Apart at apart
    omega
  unfold writtenAt
  rw [filter_sort inserts, filter_sort replaces]

/-! ### Texts place by place -/

/-- Splices that write and cover the same from a place on give the same text. -/
theorem textFrom_congr {place : Nat}
    (written : ∀ there, place ≤ there → writtenAt others there = writtenAt splices there)
    (covered : ∀ there, place ≤ there → others.any (covers there) = splices.any (covers there)) :
    textFrom others place chars = textFrom splices place chars := by
  induction chars generalizing place with
  | nil => exact written place (Nat.le_refl _)
  | cons char chars inductionHypothesis =>
      have later := @inductionHypothesis (place + char.utf8Size)
        (fun there ahead => written there (by omega)) (fun there ahead => covered there (by omega))
      rw [textFrom, textFrom, written place (Nat.le_refl _), covered place (Nat.le_refl _), later]

theorem textFrom_sort (apart : splices.Pairwise fun left right => left.span.Apart right.span)
    (place : Nat) (chars : List Char) :
    textFrom (sort splices) place chars = textFrom splices place chars := by
  refine textFrom_congr (fun there _ => writtenAt_sort apart there) fun there _ => ?_
  rw [Bool.eq_iff_iff, List.any_eq_true, List.any_eq_true]
  simp only [(sort_perm splices).mem_iff]

/-- Where no splice begins and none covers anything the text is kept. -/
theorem textFrom_kept {place : Nat} {front rest : List Char}
    (kept : ∀ there, place ≤ there → there < place + byteCount front →
      writtenAt splices there = [] ∧ splices.any (covers there) = false) :
    textFrom splices place (front ++ rest) =
      front ++ textFrom splices (place + byteCount front) rest := by
  induction front generalizing place with
  | nil => rfl
  | cons char front inductionHypothesis =>
      have positive := char.utf8Size_pos
      rw [byteCount_cons] at kept ⊢
      obtain ⟨none, bare⟩ := kept place (Nat.le_refl _) (by omega)
      have later := @inductionHypothesis (place + char.utf8Size)
        fun there ahead inside => kept there (by omega) (by omega)
      rw [List.cons_append, textFrom, none, bare, later, Nat.add_assoc]
      rfl

/-- Behind the first character that a splice covers nothing is left of what it covers. -/
theorem textFrom_covered {place : Nat} {inside rest : List Char}
    (covered : ∀ there, place ≤ there → there < place + byteCount inside →
      writtenAt splices there = [] ∧ splices.any (covers there) = true) :
    textFrom splices place (inside ++ rest) =
      textFrom splices (place + byteCount inside) rest := by
  induction inside generalizing place with
  | nil => rfl
  | cons char inside inductionHypothesis =>
      have positive := char.utf8Size_pos
      rw [byteCount_cons] at covered ⊢
      obtain ⟨none, hidden⟩ := covered place (Nat.le_refl _) (by omega)
      have later := @inductionHypothesis (place + char.utf8Size)
        fun there ahead inside => covered there (by omega) (by omega)
      rw [List.cons_append, textFrom, none, hidden, later, Nat.add_assoc]
      rfl

/-! ### One splice in front of others -/

variable {splice : Splice} {inside rest : List Char}

/-- A splice that covers nothing puts its text in front of all that is behind it. -/
theorem textFrom_inserted (empty : splice.span.stop = splice.span.start) :
    textFrom (splice :: splices) splice.span.start rest =
      splice.replacement.toList ++ textFrom splices splice.span.start rest := by
  have covered : ∀ place, (splice :: splices).any (covers place) = splices.any (covers place) := by
    intro place
    have none : covers place splice = false := by simp [covers]; omega
    rw [List.any_cons, none, Bool.false_or]
  have here : writtenAt (splice :: splices) splice.span.start =
      splice.replacement.toList ++ writtenAt splices splice.span.start := by
    have inserts : insertsAt splice.span.start splice = true := by simp [insertsAt, empty]
    have replaces : replacesAt splice.span.start splice = false := by simp [replacesAt, empty]
    unfold writtenAt
    rw [List.filter_cons_of_pos inserts, List.filter_cons_of_neg (by simp [replaces])]
    rfl
  cases rest with
  | nil => exact here
  | cons char rest =>
      have positive := char.utf8Size_pos
      have later : textFrom (splice :: splices) (splice.span.start + char.utf8Size) rest =
          textFrom splices (splice.span.start + char.utf8Size) rest :=
        textFrom_congr
          (fun there ahead => writtenAt_cons_elsewhere (by simp [insertsAt]; omega)
            (by simp [replacesAt]; omega))
          fun there _ => covered there
      rw [textFrom, textFrom, here, covered, later]
      simp

/-- A splice that covers something puts its text in place of that. -/
theorem textFrom_replaced (behind : ∀ other ∈ splices, splice.span.stop ≤ other.span.start)
    (filled : inside ≠ []) (stop : splice.span.stop = splice.span.start + byteCount inside) :
    textFrom (splice :: splices) splice.span.start (inside ++ rest) =
      splice.replacement.toList ++ textFrom splices splice.span.stop rest := by
  have positive := byteCount_pos filled
  have begins : ∀ other ∈ splices, other.span.start ≠ splice.span.start := by
    intro other member
    have apart := behind other member
    omega
  have here : writtenAt (splice :: splices) splice.span.start = splice.replacement.toList := by
    have inserts : insertsAt splice.span.start splice = false := by simp [insertsAt]; omega
    have replaces : replacesAt splice.span.start splice = true := by simp [replacesAt]; omega
    have others := writtenAt_eq_nil begins
    unfold writtenAt at others ⊢
    rw [List.flatMap_append, List.append_eq_nil_iff] at others
    rw [List.filter_cons_of_neg (by simp [inserts]), List.filter_cons_of_pos replaces,
      List.flatMap_append, List.flatMap_cons, others.1, others.2]
    simp
  have covered : ∀ there, splice.span.start ≤ there → there < splice.span.stop →
      (splice :: splices).any (covers there) = true := by
    intro there ahead within
    rw [List.any_cons, covers, decide_eq_true ahead, decide_eq_true within]
    rfl
  have later : textFrom (splice :: splices) splice.span.stop rest =
      textFrom splices splice.span.stop rest := by
    refine textFrom_congr (fun there ahead => writtenAt_cons_elsewhere ?_ ?_) fun there ahead => ?_
    · simp [insertsAt]; omega
    · simp [replacesAt]; omega
    · have none : covers there splice = false := by simp [covers]; omega
      rw [List.any_cons, none, Bool.false_or]
  cases inside with
  | nil => exact absurd rfl filled
  | cons char inside =>
      have wide := char.utf8Size_pos
      rw [byteCount_cons] at stop
      have hidden : textFrom (splice :: splices) (splice.span.start + char.utf8Size)
          (inside ++ rest) = textFrom (splice :: splices) splice.span.stop rest := by
        rw [stop, ← Nat.add_assoc]
        refine textFrom_covered fun there ahead within => ⟨?_, covered there (by omega) (by omega)⟩
        refine writtenAt_eq_nil fun other member => ?_
        rcases List.mem_cons.mp member with rfl | member
        · omega
        · have apart := behind other member
          omega
      rw [List.cons_append, textFrom, here, covered _ (Nat.le_refl _) (by omega), hidden, later]
      simp

/-- Splices in order are applied place by place. -/
theorem applyFrom_eq_textFrom {done rest : List Char}
    (fits : ∀ splice ∈ splices, splice.span.FitsIn (done ++ rest))
    (ahead : ∀ splice ∈ splices, byteCount done ≤ splice.span.start)
    (ordered : splices.Pairwise fun left right => left.span.stop ≤ right.span.start) :
    applyFrom (byteCount done) rest splices = textFrom splices (byteCount done) rest := by
  induction splices generalizing done rest with
  | nil =>
      have kept := @textFrom_kept [] (byteCount done) rest [] fun _ _ _ => ⟨rfl, rfl⟩
      rw [List.append_nil] at kept
      rw [kept, textFrom, applyFrom]
      exact (List.append_nil rest).symm
  | cons splice splices inductionHypothesis =>
      rw [List.forall_mem_cons] at fits ahead
      obtain ⟨behind, ordered⟩ := List.pairwise_cons.mp ordered
      obtain ⟨front, inside, after, whole, start, stop⟩ := fits.1.split
      obtain ⟨before, rfl, rfl⟩ := append_of_byteCount_le whole (start ▸ ahead.1)
      have moved : splice.span.start = byteCount done + byteCount before := by
        rw [start, byteCount_append]
      have reached : splice.span.stop = byteCount (done ++ before ++ inside) := by
        rw [stop, start, byteCount_append _ inside]
      have later : applyFrom splice.span.stop after splices =
          textFrom splices splice.span.stop after := by
        rw [reached] at behind ⊢
        refine inductionHypothesis (fun other member => ?_) behind ordered
        simpa using fits.2 other member
      have kept : textFrom (splice :: splices) (byteCount done) (before ++ (inside ++ after)) =
          before ++ textFrom (splice :: splices) splice.span.start (inside ++ after) := by
        rw [moved]
        refine textFrom_kept fun there _ within => ?_
        have starts : ∀ other ∈ splice :: splices, there < other.span.start := by
          intro other member
          have order := fits.1.order
          rcases List.mem_cons.mp member with rfl | member
          · omega
          · have apart := behind other member
            omega
        refine ⟨writtenAt_eq_nil fun other member => (starts other member).ne', ?_⟩
        rw [List.any_eq_false]
        intro other member
        have apart := starts other member
        simp [covers]
        omega
      rw [applyFrom_cons moved stop, later, kept, List.append_assoc]
      congr 1
      by_cases empty : inside = []
      · subst empty
        rw [stop, byteCount_nil, Nat.add_zero]
        exact (textFrom_inserted (by rw [stop, byteCount_nil, Nat.add_zero])).symm
      · exact (textFrom_replaced behind empty stop).symm

/-! ### Checks -/

theorem check_eq_ok_iff {previous : Option Span} {span : Span} :
    check (byteCount chars) chars previous span = .ok () ↔
      span.FitsIn chars ∧ ∀ first ∈ previous, first.stop ≤ span.start := by
  rw [Span.fitsIn_iff, cuts_iff, cuts_iff]
  unfold check
  by_cases outside : span.stop < span.start ∨ byteCount chars < span.stop
  · rw [if_pos outside]
    constructor
    · rintro ⟨⟩
    · rintro ⟨⟨⟨order, inside⟩, _⟩, _⟩
      omega
  · rw [if_neg outside]
    have within : span.start ≤ span.stop ∧ span.stop ≤ byteCount chars := by omega
    cases first : isBoundary span.start chars with
    | false => simp
    | true =>
        cases last : isBoundary span.stop chars with
        | false => simp
        | true =>
            cases previous with
            | none => simp [within]
            | some other =>
                by_cases overlaps : span.start < other.stop
                · simp [overlaps]
                · simp [within, overlaps]
                  omega

/-- All checks pass where the splices fit, and each of them begins where those in front of it have
ended. -/
theorem checkAll_eq_ok_iff {previous : Option Span} :
    checkAll (byteCount chars) chars previous splices = .ok () ↔
      (∀ splice ∈ splices, splice.span.FitsIn chars) ∧
        (∀ first ∈ previous, ∀ splice ∈ splices, first.stop ≤ splice.span.start) ∧
          splices.Pairwise fun left right => left.span.stop ≤ right.span.start := by
  induction splices generalizing previous with
  | nil => simp [checkAll]
  | cons splice splices inductionHypothesis =>
      have later := @inductionHypothesis (some splice.span)
      have split : checkAll (byteCount chars) chars previous (splice :: splices) = .ok () ↔
          check (byteCount chars) chars previous splice.span = .ok () ∧
            checkAll (byteCount chars) chars (some splice.span) splices = .ok () := by
        rw [checkAll]
        cases check (byteCount chars) chars previous splice.span with
        | error error => simp [bind, Except.bind]
        | ok value => simp [bind, Except.bind]
      rw [split, check_eq_ok_iff, later, List.forall_mem_cons, List.pairwise_cons]
      constructor
      · rintro ⟨⟨fits, ahead⟩, others, behind, ordered⟩
        refine ⟨⟨fits, others⟩, fun first found => ?_, behind splice.span rfl, ordered⟩
        have front := ahead first found
        have order := fits.order
        refine List.forall_mem_cons.mpr ⟨front, fun other member => ?_⟩
        have apart := behind splice.span rfl other member
        omega
      · rintro ⟨⟨fits, others⟩, ahead, behind, ordered⟩
        refine ⟨⟨fits, fun first found => ahead first found splice List.mem_cons_self⟩, others, ?_,
          ordered⟩
        rintro first ⟨⟩
        exact behind

/-- In order, splices lie apart when each begins where those in front of it have ended. -/
theorem ordered_iff_apart (fits : ∀ splice ∈ splices, splice.span.start ≤ splice.span.stop) :
    ((sort splices).Pairwise fun left right => left.span.stop ≤ right.span.start) ↔
      splices.Pairwise fun left right => left.span.Apart right.span := by
  have symmetric : ∀ {left right : Splice}, left.span.Apart right.span →
      right.span.Apart left.span := Or.symm
  rw [← (sort_perm splices).pairwise_iff symmetric]
  constructor
  · exact fun ordered => ordered.imp Or.inl
  · intro apart
    refine (apart.and (sort_pairwise splices)).imp_of_mem ?_
    rintro left right leftMember rightMember ⟨apart, before⟩
    have first := fits left ((sort_perm splices).mem_iff.mp leftMember)
    have second := fits right ((sort_perm splices).mem_iff.mp rightMember)
    simp only [notAfter, Bool.or_eq_true, decide_eq_true_eq, Bool.and_eq_true, beq_iff_eq]
      at before
    unfold Span.Apart at apart
    omega

/-- The checks of splices in order say that they can be applied together. -/
theorem checkAll_sort_iff :
    checkAll (byteCount chars) chars none (sort splices) = .ok () ↔ Spliceable chars splices := by
  have members : ∀ holds : Splice → Prop,
      (∀ splice ∈ sort splices, holds splice) ↔ ∀ splice ∈ splices, holds splice :=
    fun holds => forall_congr' fun splice => by rw [(sort_perm splices).mem_iff]
  rw [checkAll_eq_ok_iff, members]
  constructor
  · rintro ⟨fits, -, ordered⟩
    exact ⟨fits, (ordered_iff_apart fun splice member => (fits splice member).order).mp ordered⟩
  · rintro ⟨fits, apart⟩
    exact ⟨fits, by simp,
      (ordered_iff_apart fun splice member => (fits splice member).order).mpr apart⟩

theorem applySplices_eq (source : String) (splices : List Splice) :
    applySplices source splices =
      (checkAll (byteCount source.toList) source.toList none (sort splices)).map fun _ =>
        String.ofList (applyFrom 0 source.toList (sort splices)) := by
  rw [applySplices, utf8ByteSize_eq_byteCount]
  cases checkAll (byteCount source.toList) source.toList none (sort splices) <;> rfl

end Splice

/-! ### Applying splices -/

open Splice

/-- Splices are applied exactly when they fit in the text and lie apart.  Then each range is replaced
and all else kept.  Splices at different places may be given in any order: text and failure are the
same. -/
theorem applySplices_characterized (source : String) (splices : List Splice) :
    (∀ out, applySplices source splices = .ok out ↔
      Spliceable source.toList splices ∧ out = splicedText source splices) ∧
    ∀ others : List Splice, others.Perm splices →
      (splices.Pairwise fun left right => ¬ left.span.SameRange right.span) →
        applySplices source others = applySplices source splices := by
  constructor
  · intro out
    rw [applySplices_eq, ← checkAll_sort_iff]
    cases checked : checkAll (byteCount source.toList) source.toList none (sort splices) with
    | error error => simp [Except.map]
    | ok value =>
        have able := checkAll_sort_iff.mp checked
        have applied : applyFrom 0 source.toList (sort splices) =
            textFrom splices 0 source.toList := by
          rw [← textFrom_sort able.apart]
          obtain ⟨fits, -, ordered⟩ := checkAll_eq_ok_iff.mp checked
          exact @applyFrom_eq_textFrom (sort splices) [] source.toList fits
            (fun _ _ => Nat.zero_le _) ordered
        rw [applied]
        simp only [Except.map, Except.ok.injEq, true_and]
        exact eq_comm
  · intro others same different
    rw [applySplices_eq, applySplices_eq, sort_eq_of_perm same different]

/-- Neighbours touch, and a text is put in front of one of them, in a text with a character of two
bytes. -/
theorem applySplices_of_neighbours :
    (let splices : List Splice := [⟨⟨4, 4, 1, 4⟩, "z"⟩, ⟨⟨1, 3, 1, 2⟩, "Q"⟩, ⟨⟨1, 1, 1, 2⟩, "p"⟩,
      ⟨⟨0, 1, 1, 1⟩, ""⟩]
    Spliceable "aéb".toList splices ∧
      (splices.Pairwise fun left right => ¬ left.span.SameRange right.span) ∧
      applySplices "aéb" splices = .ok "pQbz" ∧
      applySplices "aéb" splices.reverse = .ok "pQbz") := by
  intro splices
  have able : Spliceable "aéb".toList splices := by decide
  have different : splices.Pairwise fun left right => ¬ left.span.SameRange right.span := by decide
  have spliced : splicedText "aéb" splices = "pQbz" := by decide
  obtain ⟨applies, anyOrder⟩ := applySplices_characterized "aéb" splices
  have applied := (applies "pQbz").mpr ⟨able, spliced.symm⟩
  exact ⟨able, different, applied, (anyOrder _ (List.reverse_perm _) different).trans applied⟩

end SqlDml
