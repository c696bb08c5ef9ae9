import SqlDml.Proofs.Abreast.Paired
import SqlDml.Proofs.Lexing.Sliced
import SqlDml.Proofs.Parsing.Entry
import SqlDml.Proofs.Spelling.Written
import SqlDml.Proofs.Trees.Alike
import SqlDml.Proofs.Trees.Erased

/-!
Contract: parsing depends on the kinds of tokens, and but for places on their texts, only.

Owns:
- folding a word that spells a keyword, in identifiers and in the kinds of escapes, and trees that are
  alike when their places are erased and their words are folded;
- pairs of tokens with the same index in two sources of the same kinds;
- the outcomes of parsing such sources correspond: comments, blanks and the case of keywords do not
  change what a source means;
- the kind of an escape keeps the case of its keyword;
- expressions that are the same but for their spans and for where the numbering of their markers
  begins;
- pairs of tokens of the same kinds and texts in two sources, and that a rule reads the same at two
  spots with such pairs ahead.

Does not own: which sources have tokens of the same kinds, and which pieces of a source have tokens
of the same texts.
-/

namespace SqlDml

/-! ### Folded trees -/

/-- The keyword that a word spells, in capitals; any other word as it is. -/
def Keyword.foldWord (text : String) : String :=
  match ofWord? text.toList with
  | some keyword => keyword.spelling
  | none => text

theorem Keyword.foldWord_of_spells {text : List Char} {keyword : Keyword}
    (spells : ofWord? text = some keyword) : foldWord (String.ofList text) = keyword.spelling := by
  rw [foldWord, String.toList_ofList, spells]

/-- An identifier without quotes is folded when it spells a keyword. -/
def Ident.folded (name : Ident) : Ident :=
  if name.quote = none then { name with value := Keyword.foldWord name.value } else name

/-- The kind of an escape in braces is folded when it spells a keyword. -/
def Literal.folded : Literal → Literal
  | .odbc kind value => .odbc (Keyword.foldWord kind) value
  | other => other

/-- Folds the identifiers of a tree. -/
def Relabelling.foldingNames : Relabelling where
  ident := Ident.folded

/-- Folds the identifiers of a tree and the kinds of its escapes. -/
def Relabelling.folding : Relabelling where
  ident := Ident.folded
  literal := Literal.folded

/-- Trees are alike when they are the same without places and folded. -/
def Likeness.folded : Likeness where
  left := Relabelling.folding.after .erasing
  right := Relabelling.folding.after .erasing
  merge _ _ := rfl
  place _ := rfl
  quoted _ _ _ := rfl
  literal _ := rfl
  odbc {kind kind'} value same := by
    -- equal after folding, the two names are both quoted or both not
    have quotes : kind.quote = kind'.quote := by
      have equal := congrArg Ident.quote same
      simpa only [Relabelling.after, Relabelling.folding, Relabelling.erasing, Ident.folded,
        Function.comp_apply, apply_ite Ident.quote, ite_self] using equal
    have values := congrArg Ident.value same
    simp only [Relabelling.after, Relabelling.folding, Relabelling.erasing, Ident.folded,
      Function.comp_apply, quotes, apply_ite Ident.value] at values
    show Literal.odbc (Keyword.foldWord kind.value) value = .odbc (Keyword.foldWord kind'.value) value
    split at values
    · rw [values]
    · rw [values]

theorem Statement.folded_eq_of_alike {tree copy : Statement} (alike : Alike .folded tree copy) :
    relabel Relabelling.folding tree.eraseSpans = relabel Relabelling.folding copy.eraseSpans := by
  rw [tree.eraseSpans_eq, copy.eraseSpans_eq, (functorial tree).twice, (functorial copy).twice]
  exact alike.same

/-! ### Tokens of the same kinds -/

/-- Two lists of tokens of the same kinds, each written in its text. -/
structure SameKinds (source source' : List Char) (tokens tokens' : List Token) : Prop where
  kinds : tokens.map Token.kind = tokens'.map Token.kind
  written : WrittenIn source tokens
  written' : WrittenIn source' tokens'

/-- Two tokens with the same index. -/
def SameIndex (tokens tokens' : List Token) (token token' : Token) : Prop :=
  ∃ index : Nat, tokens[index]? = some token ∧ tokens'[index]? = some token'

/-- Tokens that begin one behind the other compare like their indices. -/
theorem WrittenIn.compare_starts {source : List Char} {tokens : List Token}
    (written : WrittenIn source tokens) {index later : Nat} {token other : Token}
    (found : tokens[index]? = some token) (otherFound : tokens[later]? = some other) :
    compare token.span.start other.span.start = compare index later := by
  obtain ⟨inside, rfl⟩ := List.getElem?_eq_some_iff.mp found
  obtain ⟨otherInside, rfl⟩ := List.getElem?_eq_some_iff.mp otherFound
  have ordered := List.pairwise_iff_getElem.mp written.starts
  rcases Nat.lt_trichotomy index later with before | same | behind
  · rw [Nat.compare_eq_lt.mpr before]
    exact Nat.compare_eq_lt.mpr (ordered index later inside otherInside before)
  · subst same
    rw [Nat.compare_eq_eq.mpr rfl, Nat.compare_eq_eq.mpr rfl]
  · rw [Nat.compare_eq_gt.mpr behind]
    exact Nat.compare_eq_gt.mpr (ordered later index otherInside inside behind)

namespace SameKinds

variable {source source' : List Char} {tokens tokens' : List Token}
  (same : SameKinds source source' tokens tokens') {token token' : Token}

include same

theorem kind (pair : SameIndex tokens tokens' token token') : token'.kind = token.kind := by
  obtain ⟨index, found, found'⟩ := pair
  have kinds := congrArg (·[index]?) same.kinds
  simp only [List.getElem?_map, found, found', Option.map_some, Option.some.injEq] at kinds
  exact kinds.symm

/-- Keywords are read as names that fold to the same word. -/
theorem name (anyKeyword : Bool) (pair : SameIndex tokens tokens' token token') :
    Alike .folded (identOfToken? source anyKeyword token)
      (identOfToken? source' anyKeyword token') := by
  have spelled : ∀ keyword, token.kind = .keyword keyword →
      ∃ text text', token.span.slice? source = some text ∧
        token'.span.slice? source' = some text' ∧
        Keyword.foldWord (String.ofList text) = Keyword.foldWord (String.ofList text') := by
    intro keyword kind
    have kind' := (same.kind pair).trans kind
    obtain ⟨index, found, found'⟩ := pair
    obtain ⟨text, under, spells⟩ :=
      same.written.keyword token (List.mem_of_getElem? found) keyword kind
    obtain ⟨text', under', spells'⟩ :=
      same.written'.keyword token' (List.mem_of_getElem? found') keyword kind'
    refine ⟨text, text', under, under', ?_⟩
    rw [Keyword.foldWord_of_spells spells, Keyword.foldWord_of_spells spells']
  unfold identOfToken?
  rw [same.kind pair]
  cases kind : token.kind with
  | word text => exact ⟨rfl⟩
  | quotedWord value quote => exact ⟨rfl⟩
  | keyword keyword =>
      dsimp only
      by_cases reads : (anyKeyword || keyword.isNonreserved) = true
      · obtain ⟨text, text', under, under', folded⟩ := spelled keyword kind
        rw [if_pos reads, if_pos reads, under, under']
        exact ⟨congrArg (fun word => some (Ident.mk word none .zero)) folded⟩
      · rw [if_neg reads, if_neg reads]
        exact ⟨rfl⟩
  | _ => exact ⟨rfl⟩

/-- Each token has a partner. -/
theorem forall₂ : List.Forall₂ (SameIndex tokens tokens') tokens tokens' := by
  have lengths := congrArg List.length same.kinds
  rw [List.length_map, List.length_map] at lengths
  apply List.forall₂_iff_get.mpr
  refine ⟨lengths, fun index inside inside' => ⟨index, ?_, ?_⟩⟩
  · exact List.getElem?_eq_getElem inside
  · exact List.getElem?_eq_getElem inside'

end SameKinds

/-- Tokens with the same index, in two lists of the same kinds. -/
def TokenPairs.ofSameKinds {source source' : List Char} {tokens tokens' : List Token}
    (same : SameKinds source source' tokens tokens') : TokenPairs where
  source := source
  source' := source'
  likeness := .folded
  markers := 0
  Pair := SameIndex tokens tokens'
  kind := same.kind
  order pair later := by
    obtain ⟨index, found, found'⟩ := pair
    obtain ⟨next, otherFound, otherFound'⟩ := later
    rw [same.written.compare_starts found otherFound, same.written'.compare_starts found' otherFound']
  name := same.name
  place _ _ := rfl
  number index := Nat.zero_add index

/-- The outcomes of parsing correspond: both are trees that are the same without places and folded,
or both are the same failure, at tokens of the same index. -/
inductive Corresponds (tokens tokens' : List Token) :
    Except ParseError ParsedStatement → Except ParseError ParsedStatement → Prop where
  | parsed {parsed parsed' : ParsedStatement}
      (same : relabel Relabelling.folding parsed.statement.eraseSpans =
        relabel Relabelling.folding parsed'.statement.eraseSpans) :
      Corresponds tokens tokens' (.ok parsed) (.ok parsed')
  | unexpected {token token' : Token} (expected : List String) (found : String)
      (index : SameIndex tokens tokens' token token') :
      Corresponds tokens tokens' (.error (.unexpected ⟨expected, found, token.span.position⟩))
        (.error (.unexpected ⟨expected, found, token'.span.position⟩))
  | tooDeep {token token' : Token} (limit : Nat) (index : SameIndex tokens tokens' token token') :
      Corresponds tokens tokens' (.error (.tooDeep limit token.span.position))
        (.error (.tooDeep limit token'.span.position))

/-- At the beginnings of two sources, tokens with the same index are ahead. -/
theorem near_ofSource {source source' : String} {tokens tokens' : List Token}
    (same : SameKinds source.toList source'.toList tokens tokens') (settings : Settings)
    (whole : (TokenStream.ofSource source settings).whole = tokens)
    (whole' : (TokenStream.ofSource source' settings).whole = tokens') :
    (TokenPairs.ofSameKinds same).Near (ParserState.ofSource source settings)
      (ParserState.ofSource source' settings) := by
  have ready := ParserState.ready_ofSource source settings
  have ready' := ParserState.ready_ofSource source' settings
  have each : List.Forall₂ (TokenPairs.ofSameKinds same).Pair
      (TokenStream.ofSource source settings).whole
      (TokenStream.ofSource source' settings).whole := by
    rw [whole, whole']
    exact same.forall₂
  obtain ⟨ahead, stop⟩ := TokenPairs.pairs_ahead ready ready' each
  exact ⟨ready, ready', rfl, rfl, rfl, ahead, stop, rfl, .none⟩

open Comparison Rule

/-- Parsing depends on the kinds of tokens only: the outcomes for two sources with tokens of the same
kinds correspond. -/
theorem parseStatement_corresponds (source source' : String) (settings : Settings)
    (tokens tokens' : List Token) (read : tokenize source settings = .ok tokens)
    (read' : tokenize source' settings = .ok tokens')
    (kinds : tokens.map Token.kind = tokens'.map Token.kind) :
    Corresponds tokens tokens' (parseStatement source settings) (parseStatement source' settings) := by
  have same : SameKinds source.toList source'.toList tokens tokens' :=
    ⟨kinds, writtenIn_of_tokenize read, writtenIn_of_tokenize read'⟩
  obtain ⟨unfailed, whole⟩ := tokenize_eq_ok.mp read
  obtain ⟨unfailed', whole'⟩ := tokenize_eq_ok.mp read'
  have levels := innerAt_paired (.ofSameKinds same) settings.maxDepth
  have inStep : InStep (paired (.ofSameKinds same)) true (statementTokens settings.maxDepth)
      (statementTokens settings.maxDepth) := by
    unfold statementTokens
    infer_instance
  have near := near_ofSource same settings whole whole'
  have outcome := toEnd_paired ((inStep.abreast near fun _ => trivial).weaken)
    ((TokenStream.ofSource_failure source settings).trans unfailed)
    ((TokenStream.ofSource_failure source' settings).trans unfailed')
  rw [parseStatement_eq, parseStatement_eq]
  generalize (toEnd (statementTokens settings.maxDepth) (.ofSource source settings)).1 = result
    at outcome ⊢
  generalize (toEnd (statementTokens settings.maxDepth) (.ofSource source' settings)).1 = result'
    at outcome ⊢
  cases outcome with
  | parsed alike => exact .parsed (Statement.folded_eq_of_alike alike)
  | failed failure =>
      cases failure with
      | unexpected failure =>
          obtain ⟨token, token', index, rfl, rfl⟩ := failure
          exact .unexpected _ _ index
      | tooDeep pair =>
          obtain ⟨token, token', index, rfl, rfl⟩ := pair
          exact .tooDeep _ index

/-- Blanks, a comment and the case of keywords, one of which is a name, change nothing. -/
theorem layout_and_case_correspond :
    ∃ tokens tokens',
      tokenize "SELECT t.date FROM t" {} = .ok tokens ∧
      tokenize "select t . DATE /* the day */\nfrom t" {} = .ok tokens' ∧
      tokens.map Token.kind = tokens'.map Token.kind ∧
      (parseStatement "SELECT t.date FROM t" {}).toOption.isSome = true ∧
      Corresponds tokens tokens' (parseStatement "SELECT t.date FROM t" {})
        (parseStatement "select t . DATE /* the day */\nfrom t" {}) := by
  obtain ⟨tokens, read, kinds⟩ := @exists_tokens "SELECT t.date FROM t" {}
    (fun tokens => tokens.map Token.kind =
      [.keyword .SELECT, .word "t", .punct .dot, .keyword .DATE, .keyword .FROM, .word "t",
        .endOfInput]) _ _ rfl (by decide +kernel)
  obtain ⟨tokens', read', kinds'⟩ := @exists_tokens "select t . DATE /* the day */\nfrom t" {}
    (fun tokens => tokens.map Token.kind =
      [.keyword .SELECT, .word "t", .punct .dot, .keyword .DATE, .keyword .FROM, .word "t",
        .endOfInput]) _ _ rfl (by decide +kernel)
  have same := kinds.trans kinds'.symm
  exact ⟨tokens, tokens', read, read', same, by decide +kernel,
    parseStatement_corresponds _ _ _ tokens tokens' read read' same⟩

/-- The kind of the escape in braces that is the first column of a query. -/
def Statement.escapeKind? : Statement → Option String
  | .select query =>
      match query.body.first with
      | .select core =>
          match core.columns.head? with
          | some (.expr (.literal (.odbc kind _) _) _ _) => some kind
          | _ => none
      | _ => none
  | _ => none

/-- The kind of an escape in braces keeps the case of its keyword, even where names are folded. -/
theorem escape_kind_keeps_case :
    ∃ tokens tokens' parsed parsed',
      tokenize "SELECT \x7bdate '2020-01-01'\x7d" {} = .ok tokens ∧
      tokenize "SELECT \x7bDATE '2020-01-01'\x7d" {} = .ok tokens' ∧
      tokens.map Token.kind = tokens'.map Token.kind ∧
      parseStatement "SELECT \x7bdate '2020-01-01'\x7d" {} = .ok parsed ∧
      parseStatement "SELECT \x7bDATE '2020-01-01'\x7d" {} = .ok parsed' ∧
      relabel Relabelling.foldingNames parsed.statement.eraseSpans ≠
        relabel Relabelling.foldingNames parsed'.statement.eraseSpans := by
  obtain ⟨tokens, read, kinds⟩ := @exists_tokens "SELECT \x7bdate '2020-01-01'\x7d" {}
    (fun tokens => tokens.map Token.kind =
      [.keyword .SELECT, .punct .leftBrace, .keyword .DATE, .string "2020-01-01" '\'',
        .punct .rightBrace, .endOfInput]) _ _ rfl (by decide +kernel)
  obtain ⟨tokens', read', kinds'⟩ := @exists_tokens "SELECT \x7bDATE '2020-01-01'\x7d" {}
    (fun tokens => tokens.map Token.kind =
      [.keyword .SELECT, .punct .leftBrace, .keyword .DATE, .string "2020-01-01" '\'',
        .punct .rightBrace, .endOfInput]) _ _ rfl (by decide +kernel)
  obtain ⟨parsed, accepted, lower⟩ :=
    @exists_parsed "SELECT \x7bdate '2020-01-01'\x7d" {}
      (fun parsed => (relabel Relabelling.foldingNames parsed.statement.eraseSpans).escapeKind? =
        some "date") _ _ rfl (by decide +kernel)
  obtain ⟨parsed', accepted', upper⟩ :=
    @exists_parsed "SELECT \x7bDATE '2020-01-01'\x7d" {}
      (fun parsed => (relabel Relabelling.foldingNames parsed.statement.eraseSpans).escapeKind? =
        some "DATE") _ _ rfl (by decide +kernel)
  refine ⟨tokens, tokens', parsed, parsed', read, read', kinds.trans kinds'.symm, accepted, accepted',
    fun same => ?_⟩
  rw [same, upper] at lower
  exact absurd lower (by decide)

/-! ### Spans and the numbers of markers -/

/-- Numbers the markers from a number on. -/
def Relabelling.countingFrom (first : Nat) : Relabelling where
  marker index := first + index

/-- Trees are alike when they are the same without places, with the markers of the right one numbered
from a number on. -/
def Likeness.renumbered (first : Nat) : Likeness where
  left := .erasing
  right := Relabelling.erasing.after (.countingFrom first)
  merge _ _ := rfl
  place _ := rfl
  quoted _ _ _ := rfl
  literal _ := rfl
  odbc {kind kind'} value same := by
    have values := congrArg Ident.value same
    exact congrArg (Literal.odbc · value) values

/-- A copy of an expression: the same but for spans, and for where the numbering of the markers
begins. -/
def Expr.CopiedBy (expr copy : Expr) : Prop :=
  ∃ first, expr.eraseSpans = (relabel (.countingFrom first) copy).eraseSpans

theorem Expr.copiedBy_of_alike {first : Nat} {expr copy : Expr}
    (alike : Alike (.renumbered first) expr copy) : expr.CopiedBy copy := by
  refine ⟨first, ?_⟩
  rw [expr.eraseSpans_eq, Expr.eraseSpans_eq, (functorial copy).twice]
  exact alike.same

/-! ### Pairs of tokens -/

/-- Two lists of tokens of the same kinds, in which keywords have the same texts. -/
structure SameTexts (source source' : List Char) (tokens tokens' : List Token) : Prop
    extends SameKinds source source' tokens tokens' where
  text : ∀ {token token' : Token}, SameIndex tokens tokens' token token' → ∀ word,
    token.kind = .keyword word → token'.span.slice? source' = token.span.slice? source

namespace SameTexts

variable {source source' : List Char} {tokens tokens' : List Token}
  (same : SameTexts source source' tokens tokens') {token token' : Token}

include same

/-- The two tokens of a pair are read as one name. -/
theorem ident (first : Nat) (anyKeyword : Bool) (pair : SameIndex tokens tokens' token token') :
    Alike (.renumbered first) (identOfToken? source anyKeyword token)
      (identOfToken? source' anyKeyword token') := by
  unfold identOfToken?
  rw [same.kind pair]
  cases kind : token.kind with
  | word text => exact ⟨rfl⟩
  | quotedWord value quote => exact ⟨rfl⟩
  | keyword word =>
      dsimp only
      rw [same.text pair word kind]
      split <;> exact ⟨rfl⟩
  | _ => exact ⟨rfl⟩

end SameTexts

/-- Some of the tokens of a text are written in it too. -/
theorem WrittenIn.sublist {source : List Char} {tokens some : List Token}
    (written : WrittenIn source tokens) (part : some.Sublist tokens) : WrittenIn source some :=
  ⟨written.starts.sublist part, fun token member => written.keyword token (part.subset member)⟩

/-- Tokens with the same texts up to the end of input. -/
theorem sameTexts_concat {source source' : List Char} {tokens tokens' : List Token}
    {stop stop' : Token} (each : List.Forall₂ (SameText source source') tokens tokens')
    (ended : stop.kind = .endOfInput) (ended' : stop'.kind = .endOfInput)
    (written : WrittenIn source (tokens ++ [stop]))
    (written' : WrittenIn source' (tokens' ++ [stop'])) :
    SameTexts source source' (tokens ++ [stop]) (tokens' ++ [stop']) := by
  have pairs : List.Forall₂ (fun token token' => token'.kind = token.kind ∧ ∀ word,
      token.kind = .keyword word → token'.span.slice? source' = token.span.slice? source)
      (tokens ++ [stop]) (tokens' ++ [stop']) :=
    List.rel_append (each.imp fun _ _ same => ⟨same.1, fun _ _ => same.2⟩)
      (.cons ⟨ended'.trans ended.symm, fun word kind => by cases ended.symm.trans kind⟩ .nil)
  refine ⟨⟨?_, written, written'⟩, ?_⟩
  · exact List.forall₂_eq_eq_eq ▸ (List.forall₂_map_left_iff.mpr (List.forall₂_map_right_iff.mpr
      (pairs.imp fun _ _ same => same.1.symm)))
  · rintro token token' ⟨index, found, found'⟩ word kind
    obtain ⟨inside, rfl⟩ := List.getElem?_eq_some_iff.mp found
    obtain ⟨inside', rfl⟩ := List.getElem?_eq_some_iff.mp found'
    exact (pairs.get inside inside').2 word kind

/-- Tokens with the same index, in two lists of the same texts, with so many markers numbered in front
of the left ones. -/
def TokenPairs.ofSameTexts {source source' : List Char} {tokens tokens' : List Token}
    (same : SameTexts source source' tokens tokens') (markers : Nat) : TokenPairs where
  source := source
  source' := source'
  likeness := .renumbered markers
  markers := markers
  Pair := SameIndex tokens tokens'
  kind := same.kind
  order pair later := by
    obtain ⟨index, found, found'⟩ := pair
    obtain ⟨next, otherFound, otherFound'⟩ := later
    rw [same.written.compare_starts found otherFound, same.written'.compare_starts found' otherFound']
  name := same.ident markers
  place _ _ := rfl
  number _ := rfl

/-! ### Reading from pairs -/

/-- The tokens ahead of two spots of two sources, with so many markers numbered in front of the left
spot and not of the right one. -/
theorem near_states {spot place : Spot} {markers : Nat}
    (same : SameTexts spot.source place.source (spot.ahead ++ [spot.stop])
      (place.ahead ++ [place.stop]))
    (settings : place.settings = spot.settings) (numbered : spot.markers = markers + place.markers) :
    (TokenPairs.ofSameTexts same markers).Near spot.state place.state := by
  have ready := spot.state_ready
  have ready' := place.state_ready
  have each : List.Forall₂ (TokenPairs.ofSameTexts same markers).Pair
      (spot.stream.whole.drop 1) (place.stream.whole.drop 1) := by
    rw [spot.stream_whole, place.stream_whole]
    exact same.forall₂
  obtain ⟨ahead, stop⟩ := TokenPairs.pairs_ahead ready ready' each
  exact ⟨ready, ready', rfl, rfl, settings, ahead, stop, numbered, .none⟩

/-- A rule that is in step with itself reads the same from pairs of tokens, at both spots or at
none. -/
theorem Rule.on_of_paired {α : Type} [Labelled α] {pairs : TokenPairs} {rule : Rule α} [rule.Lawful]
    (inStep : InStep (paired pairs) true rule rule) {spot place : Spot}
    (near : pairs.Near spot.state place.state) :
    (∀ value later, rule.on spot = .done value later → ∃ copy after,
      rule.on place = .done copy after ∧ Alike pairs.likeness value copy ∧
        after.ahead.length = later.ahead.length ∧ later.markers = pairs.markers + after.markers) ∧
    (∀ copy after, rule.on place = .done copy after → ∃ value later,
      rule.on spot = .done value later ∧ Alike pairs.likeness value copy ∧
        after.ahead.length = later.ahead.length ∧ later.markers = pairs.markers + after.markers) := by
  obtain ⟨_, _, verdict⟩ := inStep.abreast near fun _ => trivial
  have agrees := rule.agrees_on spot.state near.ready
  have agrees' := rule.agrees_on place.state near.ready'
  rw [Spot.state_spot] at agrees agrees'
  constructor
  · intro value later read
    rw [read] at agrees
    obtain ⟨reached, run, _, rfl⟩ := agrees
    rcases run' : rule place.state with ⟨result, reached'⟩
    rw [run, run'] at verdict
    cases verdict with
    | done alike behind =>
        refine ⟨_, reached'.spot, ?_, alike, (paired pairs).length behind, behind.placeholders⟩
        exact place.state_spot ▸ on_of_run near.ready' run'
  · intro copy after read
    rw [read] at agrees'
    obtain ⟨reached', run', _, rfl⟩ := agrees'
    rcases run : rule spot.state with ⟨result, reached⟩
    rw [run, run'] at verdict
    cases verdict with
    | done alike behind =>
        refine ⟨_, reached.spot, ?_, alike, (paired pairs).length behind, behind.placeholders⟩
        exact spot.state_spot ▸ on_of_run near.ready run
    | lost lossy => exact lossy.elim

end SqlDml
