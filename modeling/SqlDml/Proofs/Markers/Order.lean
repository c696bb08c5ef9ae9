import SqlDml.Proofs.Markers.Binding
import SqlDml.Proofs.Markers.Numbering
import SqlDml.Proofs.Parsing.Entry

/-!
Contract: when canonical text keeps the order of the parameters.

Owns:
- the markers of canonical text are those of the tree;
- parsed statements and expressions number their markers without a gap;
- binding by position gives what binding by number gives exactly if no limit reverses two markers.

Does not own: how rules number markers.
-/

namespace SqlDml

/-! ### Numbers from bound text -/

/-- Each number takes the place of one marker. -/
theorem count_bindMarkers (values : Nat → Literal) (numbers : List Nat) (pieces : List Piece) :
    (bindMarkers values numbers pieces).count (.mark .question) =
      pieces.count (.mark .question) - numbers.length := by
  induction pieces generalizing numbers with
  | nil => simp
  | cons piece pieces inductionHypothesis =>
      by_cases marker : piece = .mark .question
      · subst marker
        cases numbers with
        | nil =>
            have kept := inductionHypothesis []
            rw [List.length_nil, Nat.sub_zero] at kept
            rw [bindMarkers, if_pos rfl, List.count_cons_self, List.count_cons_self, kept]
            rfl
        | cons number numbers =>
            have unmarked := List.count_eq_zero.mpr (values number).question_mem_pieces
            rw [bindMarkers_marker, List.count_append, unmarked, inductionHypothesis,
              List.count_cons_self, List.length_cons]
            omega
      · rw [bindMarkers_cons _ _ _ marker, List.count_cons_of_ne marker,
          List.count_cons_of_ne marker, inductionHypothesis]

/-- Canonical text has one marker for each marker of the tree. -/
theorem Bound.count_eq {values : Nat → Literal} {trace : MarkerTrace} {pieces bound : List Piece}
    (read : Bound values trace pieces bound) :
    pieces.count (.mark .question) = trace.numbers.length := by
  -- A number too many stays behind, and so does a marker too many.
  have alone := congrArg (List.count (.mark .question)) (read [] [])
  have another := congrArg (List.count (.mark .question)) (read [0] [])
  have behind := congrArg (List.count (.mark .question))
    (read [] (List.replicate trace.numbers.length (.mark .question)))
  simp only [count_bindMarkers, List.count_append, List.length_append, List.count_replicate_self,
    List.append_nil, List.count_nil, List.length_cons, List.length_nil] at alone another behind
  omega

/-- A literal that tells a number from every other one. -/
def Literal.tally (number : Nat) : Literal := .number (String.ofList (List.replicate number '1'))

theorem Literal.tally_pieces_inj {left right : Nat} :
    (tally left).pieces = (tally right).pieces ↔ left = right := by
  constructor
  · intro same
    have digits := congrArg (List.length ∘ String.toList) (Piece.verbatim.inj (List.cons.inj same).1)
    simpa using digits
  · rintro rfl
    rfl

/-- Bound text tells the numbers of its markers. -/
theorem bindMarkers_tally_inj {pieces : List Piece} {left right : List Nat}
    (leftCount : left.length = pieces.count (.mark .question))
    (rightCount : right.length = pieces.count (.mark .question))
    (same : bindMarkers Literal.tally left pieces = bindMarkers Literal.tally right pieces) :
    left = right := by
  induction pieces generalizing left right with
  | nil =>
      rw [List.count_nil, List.length_eq_zero_iff] at leftCount rightCount
      rw [leftCount, rightCount]
  | cons piece pieces inductionHypothesis =>
      by_cases marker : piece = .mark .question
      · subst marker
        rw [List.count_cons_self] at leftCount rightCount
        cases left with
        | nil => simp at leftCount
        | cons first left =>
            cases right with
            | nil => simp at rightCount
            | cons second right =>
                rw [bindMarkers_marker, bindMarkers_marker] at same
                have heads := List.append_inj same rfl
                rw [Literal.tally_pieces_inj] at heads
                rw [heads.1, inductionHypothesis (Nat.succ.inj leftCount)
                  (Nat.succ.inj rightCount) heads.2]
      · rw [List.count_cons_of_ne marker] at leftCount rightCount
        rw [bindMarkers_cons _ _ _ marker, bindMarkers_cons _ _ _ marker] at same
        exact inductionHypothesis leftCount rightCount (List.cons.inj same).2

/-! ### Parsed statements -/

/-- Binding by number puts the values of the numbers in the place of the markers, in turn. -/
theorem Statement.pieces_bind (statement : Statement) (values : Nat → Literal) :
    (statement.bind values).pieces =
      bindMarkers values statement.markers.numbers statement.pieces := by
  have read := statement.bound values [] []
  rw [List.append_nil, List.append_nil, bindMarkers_nil, List.append_nil] at read
  exact read.symm

theorem Statement.count_pieces (statement : Statement) :
    statement.pieces.count (.mark .question) = statement.markers.numbers.length :=
  (statement.bound Literal.tally).count_eq

/-- Binding by position gives what binding by number gives exactly if the markers are numbered in
the order of canonical text. -/
theorem Statement.bind_eq_bindPositions_iff (statement : Statement) :
    (∀ values, (statement.bind values).pieces = bindPositions values statement.pieces) ↔
      statement.markers.numbers = List.range statement.markers.numbers.length := by
  simp only [Statement.pieces_bind, bindPositions, Statement.count_pieces]
  constructor
  · intro same
    exact bindMarkers_tally_inj statement.count_pieces.symm
      (by rw [List.length_range, statement.count_pieces]) (same Literal.tally)
  · intro ordered values
    rw [← ordered]

/-- A parsed statement numbers its markers from zero and without a gap. -/
theorem numbered_of_parseStatement {source : String} {settings : Settings}
    {parsed : ParsedStatement} (accepted : parseStatement source settings = .ok parsed) :
    ∃ last, parsed.statement.markers.Numbered 0 last := by
  obtain ⟨-, ⟨later, outcome, -⟩, -⟩ := (parseStatement_eq_ok source settings).mp accepted
  have traces : (Rule.statementTokens settings.maxDepth).Traces .none Statement.markers :=
    .bind (Rule.statement_traces (Rule.innerAt_traces _)) fun tree => .skip fun _ => .pure (by simp)
  obtain ⟨added, same, numbered⟩ := traces.numbered _ _ _ outcome
  rw [MarkerTrace.none_append] at same
  exact ⟨later.markers, same ▸ numbered⟩

theorem numbered_of_parseExpression {source : String} {settings : Settings} {tree : Expr}
    (accepted : parseExpression source settings = .ok tree) :
    ∃ last, tree.markers.Numbered 0 last := by
  obtain ⟨-, later, outcome, -⟩ := (parseExpression_eq_ok source settings).mp accepted
  have traces := Rule.expr_traces (Rule.innerAt_traces settings.maxDepth)
  obtain ⟨added, same, numbered⟩ := traces.numbered _ _ _ outcome
  rw [MarkerTrace.none_append] at same
  exact ⟨later.markers, same ▸ numbered⟩

/-- Canonical text keeps the order of the parameters of a statement exactly if none of its limits
reverses two markers. -/
theorem parameters_in_order_iff {source : String} {settings : Settings} {parsed : ParsedStatement}
    (accepted : parseStatement source settings = .ok parsed) :
    (∀ values,
      (parsed.statement.bind values).pieces = bindPositions values parsed.statement.pieces) ↔
      parsed.statement.visits.any Visit.reversesMarkers = false := by
  obtain ⟨last, numbered⟩ := numbered_of_parseStatement accepted
  rw [Statement.bind_eq_bindPositions_iff, List.range_eq_range', ← numbered.ordered]
  rfl

/-- A limit that is written with its offset in front reverses the two markers. -/
theorem parameters_out_of_order :
    ∃ parsed, parseStatement "SELECT a FROM t LIMIT ?, ?" {} = .ok parsed ∧
      ¬ ∀ values,
        (parsed.statement.bind values).pieces = bindPositions values parsed.statement.pieces := by
  have reversed : (parseStatement "SELECT a FROM t LIMIT ?, ?" {}).toOption.any
      (fun parsed => parsed.statement.visits.any Visit.reversesMarkers) = true := by
    decide +kernel
  cases accepted : parseStatement "SELECT a FROM t LIMIT ?, ?" {} with
  | error failure => simp [accepted, Except.toOption] at reversed
  | ok parsed =>
      refine ⟨parsed, rfl, fun kept => ?_⟩
      have straight := (parameters_in_order_iff accepted).mp kept
      simp [accepted, Except.toOption, straight] at reversed

end SqlDml
