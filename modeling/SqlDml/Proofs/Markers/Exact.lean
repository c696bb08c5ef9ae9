import SqlDml.Proofs.Parsing.Entry
import SqlDml.Proofs.Reading.Statements

/-!
Contract: the parameter markers of a tree are the `?` tokens of its source.

Owns:
- the markers of a tree with their places, and the `?` tokens of a source with their numbers;
- that both are the same, whatever alternatives were tried and rejected on the way.

Does not own: the order of the markers in canonical text.
-/

namespace SqlDml

/-- The number and the place of a parameter marker. -/
def Visit.placeholder? : Visit → Option (Nat × Span)
  | .expr (.placeholder index span) => some (index, span)
  | _ => none

/-- The parameter markers of an expression. -/
def Expr.placeholders (expr : Expr) : List (Nat × Span) :=
  expr.visits.filterMap Visit.placeholder?

/-- The parameter markers of a statement. -/
def Statement.placeholders (statement : Statement) : List (Nat × Span) :=
  statement.visits.filterMap Visit.placeholder?

/-- The `?` tokens among tokens, with their numbers from `first` on. -/
def numberedQuestions (first : Nat) : List Token → List (Nat × Span)
  | [] => []
  | token :: tokens =>
      if token.kind = .punct .question then
        (first, token.span) :: numberedQuestions (first + 1) tokens
      else numberedQuestions first tokens

/-- The number of a `?` is the number of those in front of it. -/
theorem numberedQuestions_append (first : Nat) (left right : List Token) :
    numberedQuestions first (left ++ right) =
      numberedQuestions first left ++
        numberedQuestions (first + (numberedQuestions first left).length) right := by
  induction left generalizing first with
  | nil => rfl
  | cons token left inductionHypothesis =>
      rw [List.cons_append, numberedQuestions, numberedQuestions]
      split
      · rw [inductionHypothesis, List.length_cons, List.cons_append]
        congr 3
        omega
      · exact inductionHypothesis first

/-- Counted from 0, the numbers are the indices among all `?`. -/
theorem numberedQuestions_eq_mapIdx (first : Nat) (tokens : List Token) :
    numberedQuestions first tokens =
      (tokens.filter fun token => token.kind = .punct .question).mapIdx
        fun index token => (first + index, token.span) := by
  induction tokens generalizing first with
  | nil => rfl
  | cons token tokens inductionHypothesis =>
      rw [numberedQuestions]
      split
      · next question =>
          rw [List.filter_cons_of_pos (by simpa using question), List.mapIdx_cons,
            inductionHypothesis]
          simp only [Nat.add_zero, Nat.add_assoc, Nat.add_comm 1]
      · next other =>
          rw [List.filter_cons_of_neg (by simpa using other), inductionHypothesis]

theorem numberedQuestions_of_unmarked (first : Nat) {tokens : List Token}
    (unmarked : ∀ token ∈ tokens, token.kind ≠ .punct .question) :
    numberedQuestions first tokens = [] := by
  rw [numberedQuestions_eq_mapIdx, List.filter_eq_nil_iff.mpr fun token member => by
    simpa using unmarked token member]
  rfl

/-- Whatever is read, the markers of the tree are the `?` tokens read, and they are numbered in the
order of the source. -/
theorem Read.placeholders {visits : List Visit} {spot later : Spot}
    (read : Read visits spot later) :
    ∃ tokens, spot.ahead = tokens ++ later.ahead ∧
      later.markers = spot.markers + (numberedQuestions spot.markers tokens).length ∧
      (visits.filterMap Visit.placeholder?).Perm (numberedQuestions spot.markers tokens) := by
  have plainToken : ∀ {spot : Spot}, spot.kind ≠ .punct .question →
      numberedQuestions spot.markers [spot.token 0] = [] := by
    intro spot plain
    exact if_neg plain
  induction read with
  | nothing spot => exact ⟨[], rfl, rfl, .refl _⟩
  | @passed spot plain =>
      obtain ⟨tokens, split, rfl | rfl⟩ := spot.ahead_next
      · exact ⟨[], split, rfl, .refl _⟩
      · have unmarked := TokenKind.ne_question_of_plain plain
        refine ⟨_, split, ?_, ?_⟩ <;> rw [plainToken unmarked] <;> rfl
  | @name spot name inner unmarked _ =>
      refine ⟨[spot.token 0], Spot.ahead_of_inner inner, ?_, ?_⟩ <;> rw [plainToken unmarked] <;> rfl
  | @marker spot marked =>
      have inner : spot.kind ≠ .endOfInput := by simp [marked]
      have question : numberedQuestions spot.markers [spot.token 0] =
          [(spot.markers, (spot.token 0).span)] := if_pos marked
      refine ⟨[spot.token 0], Spot.ahead_of_inner inner, ?_, ?_⟩ <;> rw [question] <;> rfl
  | @literal value span spot later tokens takes _ =>
      have none_ := numberedQuestions_of_unmarked spot.markers takes.unmarked
      refine ⟨tokens, takes.through.split, ?_, ?_⟩
      · rw [takes.markers, none_]
        rfl
      · rw [none_]
        rfl
  | @append left right first middle last _ _ front back =>
      obtain ⟨tokens, split, counted, same⟩ := front
      obtain ⟨more, splitMore, countedMore, sameMore⟩ := back
      rw [counted] at countedMore sameMore
      refine ⟨tokens ++ more, ?_, ?_, ?_⟩
      · rw [split, splitMore, List.append_assoc]
      · rw [numberedQuestions_append, List.length_append, countedMore, Nat.add_assoc]
      · rw [numberedQuestions_append, List.filterMap_append]
        exact same.append sameMore
  | @node visit visits spot later node _ inductionHypothesis =>
      obtain ⟨tokens, split, counted, same⟩ := inductionHypothesis
      have unmarked : visit.placeholder? = none := by
        unfold Visit.isNode at node
        unfold Visit.placeholder?
        split at node <;> simp_all
      refine ⟨tokens, split, counted, ?_⟩
      rw [List.filterMap_cons_none unmarked]
      exact same
  | @cast operand target spot middle later tokens _ takes _ inductionHypothesis =>
      obtain ⟨front, split, counted, same⟩ := inductionHypothesis
      have more : numberedQuestions spot.markers (front ++ tokens) =
          numberedQuestions spot.markers front := by
        rw [numberedQuestions_append, numberedQuestions_of_unmarked _ takes.unmarked,
          List.append_nil]
      refine ⟨front ++ tokens, ?_, ?_, ?_⟩
      · rw [split, takes.through.split, List.append_assoc]
      · rw [more, takes.markers, counted]
      · rw [more]
        exact same
  | tableName _ _ inductionHypothesis => exact inductionHypothesis
  | qualifier _ _ inductionHypothesis => exact inductionHypothesis
  | @swap left right spot later _ _ inductionHypothesis =>
      obtain ⟨tokens, split, counted, same⟩ := inductionHypothesis
      refine ⟨tokens, split, counted, ?_⟩
      rw [List.filterMap_append] at same ⊢
      exact List.perm_append_comm.trans same

variable {source : String} {settings : Settings}

/-- A tree that is read from all tokens of a source has all `?` tokens for its markers. -/
theorem Read.placeholders_of_source {visits : List Visit} {later : Spot}
    (unfailed : (TokenRun.ofSource source settings).error = none)
    (read : Read visits (Spot.ofSource source settings) later) (all : later.ahead = []) :
    ∃ tokens, tokenize source settings = .ok tokens ∧
      (visits.filterMap Visit.placeholder?).Perm
        ((tokens.filter fun token => token.kind = .punct .question).mapIdx
          fun index token => (index, token.span)) := by
  obtain ⟨tokens, split, _, same⟩ := read.placeholders
  rw [all, List.append_nil] at split
  have stop : (TokenStream.ofSource source settings).stop.kind = .endOfInput :=
    (TokenStream.sound_ofSource source settings).stop_kind
  refine ⟨_, tokenize_eq_ok.mpr ⟨unfailed, ofSource_whole source settings⟩, ?_⟩
  have start : (Spot.ofSource source settings).markers = 0 := rfl
  rw [start, numberedQuestions_eq_mapIdx, ← split] at same
  rw [List.filter_append, List.filter_cons_of_neg (by simp [stop]), List.filter_nil,
    List.append_nil]
  simpa only [Nat.zero_add] using same

/-- The parameter markers of a parsed tree are exactly the `?` tokens of its source: each marker has
the place of its token, and the number of the `?` tokens in front of it.  This holds of statements
and of expressions, however many alternatives their parse rejects. -/
theorem placeholders_perm_questions (source : String) (settings : Settings) :
    (∀ parsed, parseStatement source settings = .ok parsed →
      ∃ tokens, tokenize source settings = .ok tokens ∧
        parsed.statement.placeholders.Perm
          ((tokens.filter fun token => token.kind = .punct .question).mapIdx
            fun index token => (index, token.span))) ∧
    ∀ expr, parseExpression source settings = .ok expr →
      ∃ tokens, tokenize source settings = .ok tokens ∧
        expr.placeholders.Perm
          ((tokens.filter fun token => token.kind = .punct .question).mapIdx
            fun index token => (index, token.span)) := by
  constructor
  · intro parsed accepted
    have unfailed := ((parseStatement_eq_ok source settings).mp accepted).1
    obtain ⟨later, read, all⟩ := read_of_parseStatement accepted
    exact read.placeholders_of_source unfailed all
  · intro expr accepted
    have unfailed := ((parseExpression_eq_ok source settings).mp accepted).1
    obtain ⟨later, read, all⟩ := read_of_parseExpression accepted
    exact read.placeholders_of_source unfailed all

/-- The first two markers are also met by the alternative that takes the parentheses for those of a
query, which is rejected at the sum. -/
theorem placeholders_of_rejected_query :
    ∃ expr tokens, parseExpression "((SELECT ?) + ?) IN (?)" {} = .ok expr ∧
      expr.placeholders.map Prod.fst = [0, 1, 2] ∧
      tokenize "((SELECT ?) + ?) IN (?)" {} = .ok tokens ∧
      expr.placeholders.Perm
        ((tokens.filter fun token => token.kind = .punct .question).mapIdx
          fun index token => (index, token.span)) := by
  obtain ⟨expr, accepted, numbers⟩ :=
    @exists_expr "((SELECT ?) + ?) IN (?)" {}
      (fun expr => expr.placeholders.map Prod.fst = [0, 1, 2]) _ _ rfl (by decide +kernel)
  obtain ⟨tokens, read, same⟩ := (placeholders_perm_questions _ _).2 expr accepted
  exact ⟨expr, tokens, accepted, numbers, read, same⟩

end SqlDml
