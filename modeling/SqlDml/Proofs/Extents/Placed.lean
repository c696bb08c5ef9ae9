import SqlDml.Grammar.Parse
import SqlDml.Proofs.Extents.Parts
import SqlDml.Proofs.Rules.Ensures

/-!
Contract: the trees that a rule reads lie over the tokens that it consumes.

Owns:
- the tokens between two spots of one parse;
- what is known of the trees read so far, and of a tree when it is complete, up to the parentheses
  around its ends;
- an expression as an operand and all that continues it;
- rules that read no trees, and how rules are put together.

Does not own: the rules of the language.
-/

namespace SqlDml

/-! ### The tokens between two spots -/

/-- A spot behind some tokens. -/
structure Spot.Through (start : Spot) (tokens : List Token) (spot : Spot) : Prop where
  split : start.ahead = tokens ++ spot.ahead
  last : spot.last = (tokens.getLast?.map Token.span).getD start.last
  settings : spot.settings = start.settings
  source : spot.source = start.source

/-- A spot in the parse that begins at another one. -/
structure Spot.Reaches (origin spot : Spot) : Prop where
  settings : spot.settings = origin.settings
  source : spot.source = origin.source
  order : InOrder spot.ahead

namespace Spot

variable {origin start middle spot : Spot} {tokens more : List Token}

namespace Through

theorem refl (spot : Spot) : spot.Through [] spot := ⟨rfl, rfl, rfl, rfl⟩

theorem trans (front : start.Through tokens middle) (back : middle.Through more spot) :
    start.Through (tokens ++ more) spot where
  split := by rw [front.split, back.split, List.append_assoc]
  last := by
    rw [back.last, front.last, List.getLast?_append]
    cases more.getLast? <;> rfl
  settings := back.settings.trans front.settings
  source := back.source.trans front.source

theorem next (inner : spot.kind ≠ .endOfInput) : spot.Through [spot.token 0] spot.next where
  split := ahead_of_inner inner
  last := by rw [next_last, ahead_of_inner inner]; rfl
  settings := rfl
  source := rfl

theorem reaches (through : start.Through tokens spot) (reaches : origin.Reaches start) :
    origin.Reaches spot where
  settings := through.settings.trans reaches.settings
  source := through.source.trans reaches.source
  order := by
    have order := reaches.order
    rw [through.split] at order
    exact order.of_back

theorem order (through : start.Through tokens spot) (reaches : origin.Reaches start) :
    InOrder tokens := by
  have order := reaches.order
  rw [through.split] at order
  exact order.of_front

end Through

theorem Reaches.next (reaches : origin.Reaches spot) (inner : spot.kind ≠ .endOfInput) :
    origin.Reaches spot.next :=
  (Through.next inner).reaches reaches

end Spot

/-- Behind a token that is not the end of input fewer tokens are ahead. -/
theorem Spot.ahead_ne_next {spot : Spot} (inner : spot.kind ≠ .endOfInput) :
    spot.ahead ≠ spot.next.ahead := by
  intro same
  have less := Spot.length_next_lt inner
  rw [← same] at less
  exact Nat.lt_irrefl _ less

/-- The span of a token that is consumed. -/
theorem Spot.next_last_of_inner {spot : Spot} (inner : spot.kind ≠ .endOfInput) :
    spot.next.last = (spot.token 0).span := by
  rw [next_last, ahead_of_inner inner]
  rfl

/-- A span merged with itself. -/
@[simp] theorem Span.merge_self (span : Span) : span.merge span = span := by
  simp [Span.merge]

/-! ### Expressions as they grow -/

open Rule in
/-- An expression that is read from one spot to another: an operand, and all that continues it. -/
inductive Grown (inner : InnerRules) (spot : Spot) : Expr → Spot → Prop where
  | primary {expr : Expr} {later : Spot} (read : (primaryExpr inner).on spot = .done expr later) :
      Grown inner spot expr later
  | extended {power : Nat} {left expr : Expr} {middle later : Spot}
      (front : Grown inner spot left middle)
      (read : (extendOperand inner power left).on middle = .done (some expr) later) :
      Grown inner spot expr later

open Rule in
/-- An expression ends with no dash.  If the parentheses among its tokens are balanced, the expression
grows from exactly these tokens. -/
def Expr.ReadOver (origin : Spot) (expr : Expr) (tokens : List Token) : Prop :=
  EndsClean tokens ∧
    (Balanced tokens → ∃ levels spot later, levels ≤ origin.settings.maxDepth - 1 ∧
      origin.Reaches spot ∧ spot.Through tokens later ∧ Grown (innerAt levels) spot expr later)

/-! ### Trees between two spots -/

/-- Trees that lie over the tokens between two spots, behind which some parentheses are open.  The
first tree may stand in parentheses that are not part of it.  A span that is begun covers tokens from
the first one on, such parentheses left out. -/
structure Placed (origin : Spot) (begun : Option Span) (parts : List Part) (start : Spot)
    (depth : Nat) (spot : Spot) : Prop where
  reaches : origin.Reaches start
  run : ∃ opens core, start.Through (opens ++ core) spot ∧
    (∀ token ∈ opens, token.kind = .punct .leftParen) ∧
    depthAfter 0 (opens ++ core) = some depth ∧ EndsClean (opens ++ core) ∧
    (∀ later, depthAfter 0 core = some later → opens = []) ∧
    Over (Expr.ReadOver origin) core parts ∧
    match begun with
    | none => opens = []
    | some span => ∃ front back, core = front ++ back ∧ Covers front span

/-- A tree that was read between two spots, perhaps in parentheses that are not part of it. -/
structure Made (origin : Spot) (part : Part) (start spot : Spot) : Prop where
  reaches : origin.Reaches start
  run : ∃ opens inside closes, start.Through (opens ++ inside ++ closes) spot ∧
    (∀ token ∈ opens, token.kind = .punct .leftParen) ∧
    (∀ token ∈ closes, token.kind = .punct .rightParen) ∧
    Balanced (opens ++ inside ++ closes) ∧ EndsClean inside ∧ Covers inside part.span ∧
    (∀ tree, part = .expr tree → tree.ReadOver origin inside) ∧
    Over (Expr.ReadOver origin) inside part.children

/-- A tree whose parts were read between two spots, and whose span covers them.  Where parentheses
around the first or the last part are not part of the tree, those among its tokens are not
balanced. -/
structure Joined (origin : Spot) (part : Part) (start spot : Spot) : Prop where
  reaches : origin.Reaches start
  run : ∃ opens inside closes, start.Through (opens ++ inside ++ closes) spot ∧
    (∀ token ∈ opens, token.kind = .punct .leftParen) ∧
    (∀ token ∈ closes, token.kind = .punct .rightParen) ∧
    Balanced (opens ++ inside ++ closes) ∧ EndsClean inside ∧ Covers inside part.span ∧
    (Balanced inside → opens = [] ∧ closes = []) ∧
    Over (Expr.ReadOver origin) inside part.children

/-- A kind of token that is neither a parenthesis nor an end. -/
structure TokenKind.Bare (kind : TokenKind) : Prop where
  inner : kind ≠ .endOfInput
  notOpening : kind ≠ .punct .leftParen
  notClosing : kind ≠ .punct .rightParen
  notEnding : kind ≠ .punct .semicolon

/-- A kind of token that is no dash and no dot either. -/
class TokenKind.Flat (kind : TokenKind) : Prop where
  bare : kind.Bare
  notDash : kind ≠ .punct .minus
  notDot : kind ≠ .punct .dot

theorem TokenKind.Flat.inner {kind : TokenKind} (flat : kind.Flat) : kind ≠ .endOfInput :=
  flat.bare.inner

instance (word : Keyword) : (TokenKind.keyword word).Flat :=
  ⟨⟨by simp, by simp, by simp, by simp⟩, by simp, by simp⟩

instance : (TokenKind.punct .comma).Flat :=
  ⟨⟨by decide, by decide, by decide, by decide⟩, by decide, by decide⟩

instance : (TokenKind.punct .star).Flat :=
  ⟨⟨by decide, by decide, by decide, by decide⟩, by decide, by decide⟩

instance : (TokenKind.punct .equal).Flat :=
  ⟨⟨by decide, by decide, by decide, by decide⟩, by decide, by decide⟩

instance : (TokenKind.punct .leftBrace).Flat :=
  ⟨⟨by decide, by decide, by decide, by decide⟩, by decide, by decide⟩

instance : (TokenKind.punct .rightBrace).Flat :=
  ⟨⟨by decide, by decide, by decide, by decide⟩, by decide, by decide⟩

theorem Spot.flat_of_kind {spot : Spot} {kind : TokenKind} [kind.Flat] (found : spot.kind = kind) :
    spot.kind.Flat := by
  rw [found]
  infer_instance

theorem depthBehind_of_bare {kind : TokenKind} (bare : kind.Bare) (depth : Nat) :
    kind.depthBehind depth = some depth := by
  rw [TokenKind.depthBehind, if_neg bare.notOpening, if_neg bare.notClosing, if_neg bare.notEnding]

theorem Balanced.append {front back : List Token} (first : Balanced front)
    (second : Balanced back) : Balanced (front ++ back) := by
  rw [Balanced, depthAfter_append, first]
  exact second

namespace Placed

variable {origin start middle spot : Spot} {begun : Option Span} {parts more : List Part}
  {depth : Nat}

theorem reaches_spot (placed : Placed origin begun parts start depth spot) : origin.Reaches spot := by
  obtain ⟨reaches, _, _, through, _⟩ := placed
  exact through.reaches reaches

theorem nothing (reaches : origin.Reaches spot) : Placed origin none [] spot 0 spot :=
  ⟨reaches, [], [], .refl spot, by simp, rfl, .nil, fun _ _ => rfl, .nothing, rfl⟩

/-- More tokens, with the trees that lie over them. -/
theorem extend {added : List Token} (placed : Placed origin begun parts start depth middle)
    (through : middle.Through added spot) {later : Nat}
    (counted : depthAfter depth added = some later) (clean : EndsClean added)
    (lies : Over (Expr.ReadOver origin) added more) :
    Placed origin begun (parts ++ more) start later spot := by
  obtain ⟨reaches, opens, core, front, allOpen, deep, before, tight, below, covered⟩ := placed
  refine ⟨reaches, opens, core ++ added, ?_, allOpen, ?_, ?_, ?_, below.append lies, ?_⟩
  · rw [← List.append_assoc]
    exact front.trans through
  · rw [← List.append_assoc, depthAfter_append, deep]
    exact counted
  · rw [← List.append_assoc]
    exact before.append clean
  · intro later known
    rw [depthAfter_append] at known
    obtain ⟨middle, known, _⟩ := Option.bind_eq_some_iff.mp known
    exact tight middle known
  · cases begun with
    | none => exact covered
    | some span =>
        obtain ⟨head, tail, rfl, covers⟩ := covered
        exact ⟨head, tail ++ added, by rw [List.append_assoc], covers⟩

/-- More trees. -/
theorem append {later : Nat} (placed : Placed origin begun parts start depth middle)
    (behind : Placed origin none more middle later spot) :
    Placed origin begun (parts ++ more) start (depth + later) spot := by
  obtain ⟨_, opens, core, through, _, deep, clean, _, lies, rfl⟩ := behind
  refine placed.extend through ?_ clean lies
  have shifted := depthAfter_add deep depth
  rwa [Nat.zero_add, Nat.add_comm later depth] at shifted

theorem congr (placed : Placed origin begun parts start depth spot) (same : parts = more) :
    Placed origin begun more start depth spot :=
  same ▸ placed

theorem perm (placed : Placed origin begun parts start depth spot) (same : parts.Perm more)
    (sameNames : parts.flatMap Part.names = more.flatMap Part.names) :
    Placed origin begun more start depth spot := by
  obtain ⟨reaches, opens, core, through, allOpen, deep, clean, tight, lies, covered⟩ := placed
  exact ⟨reaches, opens, core, through, allOpen, deep, clean, tight, .perm same sameNames lies,
    covered⟩

/-- Going on over one token. -/
theorem step (placed : Placed origin begun parts start depth spot) (inner : spot.kind ≠ .endOfInput)
    (notDash : spot.kind ≠ .punct .minus) (notDot : spot.kind ≠ .punct .dot) {later : Nat}
    (deep : spot.kind.depthBehind depth = some later) :
    Placed origin begun parts start later spot.next := by
  have counted : depthAfter depth [spot.token 0] = some later := by
    rw [depthAfter, show (spot.token 0).kind = spot.kind from rfl, deep]
    rfl
  have added := placed.extend (.next inner) counted (.singleton notDash notDot) (.token _)
  rwa [List.append_nil] at added

/-- Going on over a token that is no parenthesis. -/
theorem past (placed : Placed origin begun parts start depth spot) (flat : spot.kind.Flat) :
    Placed origin begun parts start depth spot.next :=
  placed.step flat.inner flat.notDash flat.notDot (depthBehind_of_bare flat.bare depth)

theorem opened (placed : Placed origin begun parts start depth spot)
    (found : spot.kind = .punct .leftParen) : Placed origin begun parts start (depth + 1) spot.next :=
  placed.step (by simp [found]) (by simp [found]) (by simp [found])
    (by simp [found, TokenKind.depthBehind])

theorem closed (placed : Placed origin begun parts start (depth + 1) spot)
    (found : spot.kind = .punct .rightParen) : Placed origin begun parts start depth spot.next :=
  placed.step (by simp [found]) (by simp [found]) (by simp [found])
    (by simp [found, TokenKind.depthBehind])

/-- A span that begins with the first token. -/
theorem begin (placed : Placed origin none parts start depth spot) (some_ : start.ahead ≠ spot.ahead) :
    Placed origin (some (start.token 0).span) parts start depth spot := by
  obtain ⟨reaches, opens, core, through, allOpen, deep, clean, tight, lies, rfl⟩ := placed
  refine ⟨reaches, [], core, through, allOpen, deep, clean, tight, lies, ?_⟩
  have split := through.split
  rw [List.nil_append] at split
  cases core with
  | nil => exact absurd split some_
  | cons token core =>
      refine ⟨[token], core, rfl, ?_⟩
      have first : start.token 0 = token := by simp [Spot.token, split]
      rw [first]
      exact .singleton token

/-- The span that was begun tells nothing more. -/
theorem ended (placed : Placed origin begun parts start depth spot) :
    Placed origin none parts start depth spot := by
  obtain ⟨reaches, opens, core, through, _, deep, clean, _, lies, _⟩ := placed
  have all : Over (Expr.ReadOver origin) (opens ++ core) ([] ++ parts) :=
    (Over.passed opens).append lies
  exact ⟨reaches, [], opens ++ core, through, by simp, deep, clean, fun _ _ => rfl, all, rfl⟩

/-- Trees lie over some tokens. -/
theorem ahead_ne (placed : Placed origin none parts start depth spot) (some_ : parts ≠ []) :
    start.ahead ≠ spot.ahead := by
  obtain ⟨_, opens, core, through, _, _, _, _, lies, rfl⟩ := placed
  intro same
  have split := through.split
  rw [List.nil_append, same] at split
  exact lies.ne_nil some_ (List.self_eq_append_left.mp split)

/-- Going on over a dot and over what follows it. -/
theorem pastDot (placed : Placed origin begun parts start depth middle)
    (dot : middle.kind = .punct .dot) (behind : Placed origin none more middle.next 0 spot)
    (some_ : middle.next.ahead ≠ spot.ahead) :
    Placed origin begun (parts ++ more) start depth spot := by
  obtain ⟨_, opens, core, through, _, deep, clean, _, lies, rfl⟩ := behind
  have tokens : core ≠ [] := by
    rintro rfl
    exact some_ through.split
  have counted : depthAfter depth (middle.token 0 :: core) = some depth := by
    have shifted := depthAfter_add deep depth
    rw [Nat.zero_add] at shifted
    rw [depthAfter, show (middle.token 0).kind = .punct .dot from dot, TokenKind.depthBehind,
      if_neg (by decide), if_neg (by decide), if_neg (by decide)]
    exact shifted
  exact placed.extend ((Spot.Through.next (by simp [dot])).trans through) counted
    (clean.behind tokens [middle.token 0]) ((Over.token _).append lies)

/-- Going on over a dot and one more token. -/
theorem pastDotted (placed : Placed origin begun parts start depth spot)
    (dot : spot.kind = .punct .dot) (flat : spot.next.kind.Flat) :
    Placed origin begun parts start depth spot.next.next := by
  have reaches := placed.reaches_spot.next (by simp [dot])
  have longer := placed.pastDot dot ((nothing reaches).past flat) (Spot.ahead_ne_next flat.inner)
  rwa [List.append_nil] at longer

/-- A span that begins with the first token, where there are trees. -/
theorem begin_of_parts (placed : Placed origin none parts start depth spot) (some_ : parts ≠ []) :
    Placed origin (some (start.token 0).span) parts start depth spot :=
  placed.begin (placed.ahead_ne some_)

/-- A tree whose span ends with the last token. -/
theorem joined {span : Span} {part : Part} (placed : Placed origin (some span) parts start 0 spot)
    (whole : part.span = span.merge spot.last) (children : part.children = parts) :
    Joined origin part start spot := by
  obtain ⟨reaches, opens, core, through, allOpen, deep, clean, tight, lies, front, back, rfl,
    covers⟩ := placed
  have order := (through.order reaches).of_back
  have closing := List.getLast?_eq_some_getLast (l := front ++ back) (by simp [covers.ne_nil])
  have lastSpan := through.last
  rw [List.getLast?_append, closing] at lastSpan
  refine ⟨reaches, opens, front ++ back, [], by rwa [List.append_nil], allOpen, by simp,
    by rwa [List.append_nil], clean.of_append, ?_, fun balanced => ⟨tight 0 balanced, rfl⟩,
    children ▸ lies⟩
  rw [whole, lastSpan]
  exact covers.merge order closing (covers.start_le order (List.mem_of_getLast? closing)) rfl

/-- A tree whose span ends with a span over the last tokens, parentheses behind them left out. -/
theorem joined_over {span other : Span} {part : Part} {enters inside closes : List Token}
    (placed : Placed origin (some span) parts start 0 middle)
    (behind : middle.Through (enters ++ inside ++ closes) spot)
    (allClose : ∀ token ∈ closes, token.kind = .punct .rightParen)
    (balanced : Balanced (enters ++ inside ++ closes)) (clean : EndsClean inside)
    (ends : Covers inside other)
    (more_ : Over (Expr.ReadOver origin) (enters ++ inside) more)
    (whole : part.span = span.merge other) (children : part.children = parts ++ more) :
    Joined origin part start spot := by
  obtain ⟨reaches, opens, core, through, allOpen, deep, _, tight, lies, front, back, rfl, covers⟩ :=
    placed
  have all := through.trans behind
  have shape : opens ++ (front ++ back) ++ (enters ++ inside ++ closes) =
      opens ++ (front ++ (back ++ (enters ++ inside))) ++ closes := by
    simp only [List.append_assoc]
  rw [shape] at all
  have order := (all.order reaches).of_front.of_back
  refine ⟨reaches, opens, _, closes, all, allOpen, allClose, ?_, ?_, ?_, ?_, ?_⟩
  · rw [← shape]
    exact Balanced.append deep balanced
  · simpa only [List.append_assoc] using clean.behind ends.ne_nil (front ++ (back ++ enters))
  · obtain ⟨first, last, opening, closing, rfl⟩ := ends
    have innermost : (front ++ (back ++ (enters ++ inside))).getLast? = some last := by
      simp only [List.getLast?_append, closing, Option.some_or]
    rw [whole]
    refine covers.merge order innermost (covers.start_le order ?_) rfl
    simp only [List.mem_append, List.mem_of_head? opening, or_true]
  · intro inner
    rw [Balanced, ← List.append_assoc, depthAfter_append] at inner
    obtain ⟨reached, first, second⟩ := Option.bind_eq_some_iff.mp inner
    obtain rfl := tight reached first
    rw [List.nil_append, first, Option.some.injEq] at deep
    subst deep
    rw [Balanced, depthAfter_append, second] at balanced
    have none := depthAfter_closes allClose balanced
    exact ⟨rfl, List.length_eq_zero_iff.mp (by omega)⟩
  · rw [children, ← List.append_assoc]
    exact lies.append more_

/-- A tree whose span ends with that of its last part. -/
theorem joined_to {span : Span} {part final : Part}
    (placed : Placed origin (some span) parts start 0 middle) (made : Made origin final middle spot)
    (whole : part.span = span.merge final.span) (children : part.children = parts ++ [final]) :
    Joined origin part start spot := by
  obtain ⟨_, enters, inside, closes, behind, _, allClose, balanced, clean, covers, known, below⟩ :=
    made
  have lies : Over (Expr.ReadOver origin) (enters ++ inside) ([] ++ [final]) :=
    (Over.passed enters).append (.part covers known below)
  exact placed.joined_over behind allClose balanced clean covers lies whole children

/-- A tree whose span ends with that of its last part, in front of which one more token stands. -/
theorem joined_behind {span : Span} {part final : Part}
    (placed : Placed origin (some span) parts start 0 middle) (bare : middle.kind.Bare)
    (made : Made origin final middle.next spot) (whole : part.span = span.merge final.span)
    (children : part.children = parts ++ [final]) : Joined origin part start spot := by
  obtain ⟨_, enters, inside, closes, behind, _, allClose, balanced, clean, covers, known, below⟩ :=
    made
  have all := (Spot.Through.next bare.inner).trans behind
  have lies : Over (Expr.ReadOver origin) (middle.token 0 :: enters ++ inside) ([] ++ [final]) :=
    (Over.passed (middle.token 0 :: enters)).append (.part covers known below)
  have counted : Balanced (middle.token 0 :: enters ++ inside ++ closes) := by
    rw [Balanced, List.cons_append, List.cons_append, depthAfter,
      show (middle.token 0).kind = middle.kind from rfl, depthBehind_of_bare bare]
    exact balanced
  exact placed.joined_over all allClose counted clean covers lies whole children

/-- The span from the first to the last of the tokens that were read. -/
theorem covers (placed : Placed origin none parts start 0 spot) (some_ : start.ahead ≠ spot.ahead) :
    ∃ tokens, start.Through tokens spot ∧ Balanced tokens ∧ EndsClean tokens ∧
      Over (Expr.ReadOver origin) tokens parts ∧
      Covers tokens ((start.token 0).span.merge spot.last) := by
  obtain ⟨reaches, opens, core, through, _, deep, clean, _, lies, rfl⟩ := placed
  rw [List.nil_append] at through deep clean
  refine ⟨core, through, deep, clean, lies, ?_⟩
  have order := through.order reaches
  cases core with
  | nil => exact absurd through.split some_
  | cons token core =>
      have first : start.token 0 = token := by simp [Spot.token, through.split]
      have closing := List.getLast?_eq_some_getLast (List.cons_ne_nil token core)
      have lastSpan := through.last
      rw [closing] at lastSpan
      have covers : Covers ([token] ++ core) (token.span.merge spot.last) := by
        refine (Covers.singleton token).merge order closing ?_ (by rw [lastSpan]; rfl)
        rw [lastSpan]
        exact order.start_le rfl (List.mem_of_getLast? closing)
      rwa [first]

end Placed

namespace Made

variable {origin start middle spot : Spot} {part : Part}

theorem reaches_spot (made : Made origin part start spot) : origin.Reaches spot := by
  obtain ⟨reaches, _, _, _, through, _⟩ := made
  exact through.reaches reaches

/-- A tree that was read, with a span to be begun with its own. -/
theorem begin (made : Made origin part start spot) :
    Placed origin (some part.span) [part] start 0 spot := by
  obtain ⟨reaches, opens, inside, closes, through, allOpen, allClose, balanced, clean, covers, known,
    below⟩ := made
  have lies : Over (Expr.ReadOver origin) (inside ++ closes) ([part] ++ []) :=
    (Over.part covers known below).append (.passed closes)
  have ends := (clean.behind covers.ne_nil opens).append (.of_kind allClose (by decide) (by decide))
  rw [List.append_assoc] at through balanced ends
  refine ⟨reaches, opens, inside ++ closes, through, allOpen, balanced, ends, ?_, lies, inside,
    closes, rfl, covers⟩
  intro later counted
  have deeper := depthAfter_add counted opens.length
  rw [Balanced, depthAfter_append, depthAfter_opens allOpen, Option.bind_some, deeper,
    Option.some.injEq] at balanced
  exact List.length_eq_zero_iff.mp (by omega)

/-- A tree that was read. -/
theorem placed (made : Made origin part start spot) : Placed origin none [part] start 0 spot := by
  obtain ⟨reaches, opens, inside, closes, through, _, allClose, balanced, clean, covers, known,
    below⟩ := made
  have lies : Over (Expr.ReadOver origin) (opens ++ inside ++ closes) ([] ++ [part] ++ []) :=
    ((Over.passed opens).append (.part covers known below)).append (.passed closes)
  have ends := (clean.behind covers.ne_nil opens).append (.of_kind allClose (by decide) (by decide))
  exact ⟨reaches, [], _, through, by simp, balanced, ends, fun _ _ => rfl, lies, rfl⟩

/-- A tree that was read behind a dot. -/
theorem behindDot {begun : Option Span} {parts : List Part} {depth : Nat} {before : Spot}
    (made : Made origin part middle.next spot)
    (placed : Placed origin begun parts before depth middle) (dot : middle.kind = .punct .dot) :
    Placed origin begun (parts ++ [part]) before depth spot :=
  placed.pastDot dot made.placed (made.placed.ahead_ne (List.cons_ne_nil _ _))

/-- A tree around a single tree, with the same span. -/
theorem around {outer : Part} (made : Made origin part start spot)
    (other : ∀ tree, outer ≠ .expr tree) (same : outer.span = part.span)
    (children : outer.children = [part]) : Made origin outer start spot := by
  obtain ⟨reaches, opens, inside, closes, through, allOpen, allClose, balanced, clean, covers, known,
    below⟩ := made
  have lies : Over (Expr.ReadOver origin) inside [part] := .part covers known below
  exact ⟨reaches, opens, inside, closes, through, allOpen, allClose, balanced, clean, same ▸ covers,
    fun tree wrong => absurd wrong (other tree), children ▸ lies⟩

/-- A tree that begins with one more token. -/
theorem joined_behind {outer : Part} (reaches : origin.Reaches start) (bare : start.kind.Bare)
    (made : Made origin part start.next spot) (whole : outer.span = (start.token 0).span.merge part.span)
    (children : outer.children = [part]) : Joined origin outer start spot := by
  obtain ⟨_, opens, inside, closes, through, allOpen, allClose, balanced, clean, covers, known,
    below⟩ := made
  have shape : [start.token 0] ++ (opens ++ inside ++ closes) =
      [] ++ ([start.token 0] ++ (opens ++ inside)) ++ closes := by simp
  have all := (Spot.Through.next bare.inner).trans through
  have counted : Balanced ([start.token 0] ++ (opens ++ inside ++ closes)) := by
    rw [Balanced, List.singleton_append, depthAfter,
      show (start.token 0).kind = start.kind from rfl, depthBehind_of_bare bare]
    exact balanced
  rw [shape] at all counted
  have order := (all.order reaches).of_front.of_back
  refine ⟨reaches, [], _, closes, all, by simp, allClose, counted, ?_, ?_, ?_, ?_⟩
  · rw [← List.append_assoc]
    exact clean.behind covers.ne_nil _
  · obtain ⟨first, last, opening, closing, known⟩ := covers
    have innermost : ([start.token 0] ++ (opens ++ inside)).getLast? = some last := by
      simp only [List.getLast?_append, closing, Option.some_or]
    rw [whole, known]
    refine (Covers.singleton _).merge order innermost ?_ rfl
    refine order.start_le rfl ?_
    simp only [List.mem_append, List.mem_of_head? opening, or_true]
  · intro inner
    rw [List.nil_append, Balanced, depthAfter_append, inner] at counted
    have none := depthAfter_closes allClose counted
    exact ⟨rfl, List.length_eq_zero_iff.mp (by omega)⟩
  · rw [children]
    exact (Over.passed _).append ((Over.passed opens).append (.part covers known below))

/-- A tree in parentheses that are not part of it. -/
theorem parens {before : Spot} (reaches : origin.Reaches before)
    (opened : before.kind = .punct .leftParen) (made : Made origin part before.next spot)
    (closed : spot.kind = .punct .rightParen) : Made origin part before spot.next := by
  obtain ⟨_, opens, inside, closes, through, allOpen, allClose, balanced, clean, covers, known,
    below⟩ := made
  have enter := @Spot.Through.next before (by simp [opened])
  have leave := @Spot.Through.next spot (by simp [closed])
  refine ⟨reaches, before.token 0 :: opens, inside, closes ++ [spot.token 0], ?_, ?_, ?_, ?_, clean,
    covers, known, below⟩
  · have all := (enter.trans through).trans leave
    simpa only [List.cons_append, List.nil_append, List.append_assoc] using all
  · exact List.forall_mem_cons.mpr ⟨opened, allOpen⟩
  · exact List.forall_mem_append.mpr ⟨allClose, List.forall_mem_singleton.mpr closed⟩
  · have deeper := depthAfter_add balanced 1
    have shape : before.token 0 :: opens ++ inside ++ (closes ++ [spot.token 0]) =
        before.token 0 :: (opens ++ inside ++ closes ++ [spot.token 0]) := by simp
    have opening : (before.token 0).kind.depthBehind 0 = some 1 := by
      rw [show (before.token 0).kind = before.kind from rfl, opened]
      rfl
    have closing : (spot.token 0).kind.depthBehind 1 = some 0 := by
      rw [show (spot.token 0).kind = spot.kind from rfl, closed]
      rfl
    rw [shape, Balanced, depthAfter, opening, Option.bind_some, depthAfter_append, deeper,
      Option.bind_some, depthAfter, closing]
    rfl

end Made

namespace Joined

variable {origin start spot : Spot} {part : Part}

/-- A complete tree, which grows between the same spots if it is an expression. -/
theorem made (joined : Joined origin part start spot)
    (grown : ∀ tree, part = .expr tree → ∃ levels, levels ≤ origin.settings.maxDepth - 1 ∧
      Grown (Rule.innerAt levels) start tree spot) : Made origin part start spot := by
  obtain ⟨reaches, opens, inside, closes, through, allOpen, allClose, balanced, clean, covers, tight,
    below⟩ := joined
  refine ⟨reaches, opens, inside, closes, through, allOpen, allClose, balanced, clean, covers, ?_,
    below⟩
  refine fun tree same => ⟨clean, fun inner => ?_⟩
  obtain ⟨rfl, rfl⟩ := tight inner
  obtain ⟨levels, below, grows⟩ := grown tree same
  rw [List.nil_append, List.append_nil] at through
  exact ⟨levels, start, spot, below, reaches, through, grows⟩

/-- A complete tree that is no expression. -/
theorem made_of_ne (joined : Joined origin part start spot) (other : ∀ tree, part ≠ .expr tree) :
    Made origin part start spot :=
  joined.made fun tree same => absurd same (other tree)

/-- A tree around a single tree, with the same span. -/
theorem around {outer : Part} (joined : Joined origin part start spot)
    (other : ∀ tree, part ≠ .expr tree) (same : outer.span = part.span)
    (children : outer.children = [part]) : Joined origin outer start spot := by
  obtain ⟨reaches, opens, inside, closes, through, allOpen, allClose, balanced, clean, covers, tight,
    below⟩ := joined
  have lies : Over (Expr.ReadOver origin) inside [part] :=
    .part covers (fun tree same => absurd same (other tree)) below
  exact ⟨reaches, opens, inside, closes, through, allOpen, allClose, balanced, clean, same ▸ covers,
    tight, children ▸ lies⟩

/-- A tree without parts, over some tokens. -/
theorem leaf {tokens : List Token} (reaches : origin.Reaches start)
    (through : start.Through tokens spot) (balanced : Balanced tokens) (clean : EndsClean tokens)
    (covers : Covers tokens part.span) (none : part.children = []) : Joined origin part start spot := by
  have shape : [] ++ tokens ++ [] = tokens := List.append_nil tokens
  exact ⟨reaches, [], tokens, [], shape.symm ▸ through, by simp, by simp, shape.symm ▸ balanced,
    clean, covers, fun _ => ⟨rfl, rfl⟩, none ▸ .passed tokens⟩

/-- A tree that is a single token. -/
theorem token (reaches : origin.Reaches spot) (flat : spot.kind.Flat)
    (same : part.span = (spot.token 0).span) (none : part.children = []) :
    Joined origin part spot spot.next := by
  refine .leaf reaches (.next flat.inner) ?_ (.singleton flat.notDash flat.notDot)
    (same ▸ .singleton _) none
  rw [Balanced, depthAfter, show (spot.token 0).kind = spot.kind from rfl,
    depthBehind_of_bare flat.bare]
  rfl

/-- The numbering of markers tells nothing. -/
theorem mark (joined : Joined origin part start spot) : Joined origin part start spot.mark := by
  obtain ⟨reaches, opens, inside, closes, through, facts⟩ := joined
  exact ⟨reaches, opens, inside, closes, ⟨through.split, through.last, through.settings,
    through.source⟩, facts⟩

end Joined

end SqlDml
