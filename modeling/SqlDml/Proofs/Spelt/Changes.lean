import SqlDml.Proofs.Replay.OpenEnds
import SqlDml.Proofs.Spelt.Statements

/-!
Contract: what the source gives a change, beyond its nodes.

Owns:
- the parts of inserts, updates and deletes that the grammar never leaves out, and how these parts
  fit together;
- that a query is not read in front of `ON` if it ends with a join that could still take a condition;
- that no target of a delete is read that begins with one of its options.

Does not own: how changes are written.
-/

namespace SqlDml

open Rule

variable {settings : Settings}

/-! ### Changes -/

/-- Rows and assignments are there.  Behind `SET` no columns are listed, and a query that could still
take a condition of a join stands at the end. -/
def Insert.Filled (insert : Insert) : Prop :=
  match insert.source with
  | .values rows => rows ≠ []
  | .select query => insert.onDuplicate ≠ [] → query.isOpen = false
  | .set assignments => assignments ≠ [] ∧ insert.columns = []

def Update.Filled (update : Update) : Prop := update.tables ≠ [] ∧ update.assignments ≠ []

/-- The first of the identifiers that name a table. -/
def TableName.front (name : TableName) : Ident := name.schema.getD name.table

/-- The token is none of the options of a delete. -/
def TokenKind.NoDeleteOption (kind : TokenKind) : Prop :=
  ∀ options, addDeleteOption options kind = none

/-- A single table has no index hints, and several are at least one.  The first target is not read
as an option where it stands behind the options. -/
def Delete.Filled (settings : Settings) (delete : Delete) : Prop :=
  match delete.source with
  | .single table => table.indexHints = []
  | .multi tables afterUsing => tables ≠ [] ∧ (afterUsing = false →
      ∀ target ∈ delete.targets.head?, (target.front.kind settings).NoDeleteOption)

def Statement.Filled (settings : Settings) : Statement → Prop
  | .select _ => True
  | .insert tree => tree.Filled
  | .update tree => tree.Filled
  | .delete tree => tree.Filled settings

/-! ### Names -/

/-- A written token that is read as a name is of the kind that the name is written as. -/
theorem Token.Spelt.kind_eq {source : List Char} {token : Token} {anyKeyword : Bool} {ident : Ident}
    (spelt : token.Spelt settings source)
    (read : identOfToken? source anyKeyword token = some ident) :
    ident.kind settings = token.kind := by
  obtain ⟨named, keywords⟩ := spelt.named read
  obtain ⟨text, slice, given⟩ := spelt
  unfold identOfToken? at read
  split at read
  · next word kind =>
      cases read
      rw [kind] at given ⊢
      rw [Ident.kind]
      simp [given.2]
  · next value quote kind =>
      cases read
      rw [kind]
      rcases named.kind_cases with ⟨_, quoted, same⟩ | ⟨unquoted, _⟩
      · cases quoted
        exact same
      · cases unquoted
  · next keyword kind =>
      obtain ⟨unquoted, known⟩ := keywords keyword kind
      rw [Ident.kind, unquoted, known, kind]
  · cases read

/-! ### Open ends in front of `ON` -/

namespace Rule

variable {α β σ : Type}

/-- Where an open end that was read before is not in front of `ON`, an open end that a rule reads is
not either. -/
def Settles (rule : Rule α) (wasOpen : Prop) (isOpen : α → Prop) : Prop :=
  ∀ spot : Spot, (wasOpen → spot.kind ≠ .keyword .ON) →
    rule.Ensures spot fun value later => isOpen value → later.kind ≠ .keyword .ON

namespace Settles

variable {rule : Rule α} {next : α → Rule β} {wasOpen : Prop} {midOpen : α → Prop}
  {isOpen : β → Prop}

theorem pure {value : β} (same : isOpen value → wasOpen) :
    (Pure.pure value : Rule β).Settles wasOpen isOpen :=
  fun _ settled => .pure fun opened => settled (same opened)

theorem fail {expected : List String} : (Rule.fail expected : Rule β).Settles wasOpen isOpen :=
  fun _ _ => .fail

theorem tooDeep : (Rule.tooDeep : Rule β).Settles wasOpen isOpen := fun _ _ => .tooDeep

theorem enter [rule.Lawful] {isOpen : α → Prop} (settles : rule.Settles wasOpen isOpen) :
    (Rule.enter rule).Settles wasOpen isOpen :=
  fun spot settled => .enter (settles spot settled)

/-- A rule that never leaves an end open. -/
theorem of_closed {rule : Rule β} (closed : rule.Yields fun value => ¬isOpen value) :
    rule.Settles wasOpen isOpen :=
  fun spot _ => (closed spot).mono fun _ _ known opened => absurd opened known

/-- A choice by the next token, which is consumed if it is there. -/
theorem eat {kind : TokenKind} {present absent : Rule β} (found : present.Settles False isOpen)
    (missing : absent.Settles wasOpen isOpen) :
    (Rule.eat kind >>= fun eaten => if eaten = true then present else absent).Settles wasOpen
      isOpen :=
  fun spot settled => .eat (fun _ => found spot.next False.elim) fun _ => missing spot settled

theorem ite {condition : Prop} [Decidable condition] {left right : Rule β}
    (holds : condition → left.Settles wasOpen isOpen)
    (fails : ¬condition → right.Settles wasOpen isOpen) :
    (if condition then left else right).Settles wasOpen isOpen :=
  fun spot settled => .ite (fun known => holds known spot settled) fun known =>
    fails known spot settled

/-- Fewer values leave their end open. -/
theorem mono {rule : Rule β} {fewer : β → Prop} (settles : rule.Settles wasOpen isOpen)
    (opens : ∀ value, fewer value → isOpen value) : rule.Settles wasOpen fewer :=
  fun spot settled => (settles spot settled).mono fun value _ known opened =>
    known (opens value opened)

theorem bind (first : rule.Settles wasOpen midOpen)
    (rest : ∀ value, (next value).Settles (midOpen value) isOpen) :
    (rule >>= next).Settles wasOpen isOpen :=
  fun spot settled => (first spot settled).bind fun value later known => rest value later known

/-- Behind a rule that leaves no end open. -/
theorem skip [rule.Lawful] (rest : ∀ value, (next value).Settles False isOpen) :
    (rule >>= next).Settles wasOpen isOpen :=
  .bind (fun _ _ => .of_on fun _ _ _ absurd => absurd.elim) rest

/-- Behind a clause that may be left out. -/
theorem clause {absent : α → Prop} (first : Clause rule absent)
    (rest : ∀ value, (next value).Settles (wasOpen ∧ absent value) isOpen) :
    (rule >>= next).Settles wasOpen isOpen :=
  .bind (fun spot settled => (first.stays spot).mono fun _ _ stays ⟨opened, absent⟩ =>
    stays absent ▸ settled opened) rest

/-- A repetition of steps that move on whenever they give something. -/
theorem whileSome {step : σ → Rule (Option σ)} [∀ value, (step value).Lawful]
    [∀ value, (step value).Shortens] {isOpen : σ → Prop} {first : σ}
    (clause : ∀ value, Clause (step value) (· = none))
    (steps : ∀ value, (step value).Settles False fun found => ∃ next ∈ found, isOpen next) :
    (Rule.whileSome step first).Settles (isOpen first) isOpen := by
  intro spot settled
  refine .whileSome settled fun value spot settled => .of_on fun found later outcome => ?_
  cases found with
  | none => exact (((clause value).stays spot).on outcome rfl).symm ▸ settled
  | some next =>
      exact fun opened => (steps value spot False.elim).on outcome ⟨next, rfl, opened⟩

/-- A list whose last item may leave its end open. -/
theorem commaSeparated {item : Rule α} [item.Lawful] {isOpen : α → Prop}
    (items : item.Settles False isOpen) :
    (Rule.commaSeparated item).Settles False fun list => ∃ last ∈ list.getLast?, isOpen last := by
  have steps : ∀ list, (nextItem item list).Settles False fun found =>
      ∃ next ∈ found, ∃ last ∈ next.head?, isOpen last := by
    intro list
    unfold nextItem
    refine .eat (items.bind fun value => .pure ?_) (.pure (by simp))
    simp
  rw [commaSeparated_eq]
  refine items.bind fun first => ?_
  have whole : (Rule.whileSome (nextItem item) [first]).Settles (isOpen first) fun list =>
      ∃ last ∈ list.head?, isOpen last := by
    have all := @whileSome _ (nextItem item) _ _ (fun list => ∃ last ∈ list.head?, isOpen last)
      [first] nextItem_clause steps
    simpa using all
  exact whole.bind fun list => .pure (by rw [List.getLast?_reverse]; exact id)

end Settles

section

variable {inner : InnerRules} [inner.Lawful]

theorem onCondition_settles : (onCondition inner).Settles False (· = none) := by
  unfold onCondition
  intro spot _
  refine .eat (fun _ => ?_) fun other => .pure fun _ => other
  exact Settles.of_closed (.skip fun condition => .pure (by simp)) _ False.elim

theorem onOrUsing_settles : (onOrUsing inner).Settles False (· = none) := by
  unfold onOrUsing
  refine onCondition_settles.bind fun found => ?_
  cases found with
  | some condition => exact .pure (by simp)
  | none => exact .eat (.of_closed (.skip fun columns => .pure (by simp))) (.pure id)

theorem joinCondition_settles (join : JoinType) : (joinCondition inner join).Settles False
    fun found => found = none ∧ join.forbidsCondition = false := by
  unfold joinCondition
  refine .ite (fun forbids => .pure (by simp [forbids])) fun _ => .ite (fun _ => ?_) fun _ => ?_
  · exact onCondition_settles.mono fun _ known => known.1
  · refine onOrUsing_settles.bind fun found => ?_
    cases found with
    | some condition => exact .pure (by simp)
    | none => exact .ite (fun _ => .fail) fun _ => .pure And.left

theorem extendJoin_settles (left : TableRef) : (extendJoin inner left).Settles False
    fun found => ∃ ref ∈ found, ref.isOpen = true := by
  unfold extendJoin
  refine .skip fun found => ?_
  cases found with
  | none => exact .pure (by simp)
  | some join =>
      refine .skip fun right => (joinCondition_settles join).bind fun condition => ?_
      refine .clause .previousSpan fun last => .pure ?_
      cases condition <;> simp [TableRef.isOpen]

omit [inner.Lawful] in
theorem nextCompound_settles (read : (queryTerm inner).Settles False fun term => term.isOpen = true)
    (first : QueryTerm) (compounds : List (CompoundOp × QueryTerm)) :
    (nextCompound inner compounds).Settles False fun found =>
      ∃ next ∈ found, (lastTerm first next).isOpen = true := by
  unfold nextCompound
  refine .eat (.skip fun op => read.bind fun term => .pure ?_) (.pure (by simp))
  simp [lastTerm]

variable (shaped : inner.Shaped)

include shaped

theorem tableRef_settles : (tableRef inner).Settles False fun ref => ref.isOpen = true := by
  have factor : (tableFactor inner).Settles False fun ref => ref.isOpen = true :=
    .of_closed ((tableFactor_yields shaped).mono fun ref known => by
      simp [TableRef.isOpen_of_not_joined known.2])
  unfold tableRef
  exact factor.bind fun first => .whileSome extendJoin_clause extendJoin_settles

theorem fromClause_settles : (fromClause inner).Settles False
    fun refs => ∃ last ∈ refs.getLast?, last.isOpen = true := by
  unfold fromClause
  exact .eat (.commaSeparated (tableRef_settles shaped)) (.pure (by simp))

theorem selectCore_settles : (selectCore inner).Settles False fun core => core.isOpen = true := by
  unfold selectCore
  refine .skip fun start => .skip fun modifiers => .skip fun columns => ?_
  refine (fromClause_settles shaped).bind fun sources => .clause whereClause_clause fun filter => ?_
  refine .clause groupByClause_clause fun grouping => .clause havingClause_clause fun having => ?_
  refine .clause .previousSpan fun last => .pure ?_
  have same : sources.getLast?.any TableRef.isOpen = true ↔
      ∃ last ∈ sources.getLast?, last.isOpen = true := by
    cases sources.getLast? <;> simp
  simp only [SelectCore.isOpen, Bool.and_eq_true, Option.isNone_iff_eq_none, List.isEmpty_iff, same,
    and_true]
  exact id

theorem queryTerm_settles : (queryTerm inner).Settles False fun term => term.isOpen = true := by
  unfold queryTerm
  refine .skip fun kind => ?_
  split
  · exact .skip fun _ => .skip fun query => .skip fun _ => .pure (by simp [QueryTerm.isOpen])
  · exact (selectCore_settles shaped).bind fun core => .pure id
  · exact .fail

theorem queryBody_settles : (queryBody inner).Settles False fun body => body.last.isOpen = true := by
  have read := queryTerm_settles shaped
  rw [queryBody_eq]
  refine .skip fun start => read.bind fun first => ?_
  have compounds : (whileSome (nextCompound inner) []).Settles (first.isOpen = true) fun compounds =>
      (lastTerm first compounds).isOpen = true :=
    .whileSome nextCompound_clause (nextCompound_settles read first)
  refine compounds.bind fun compounds => .clause .previousSpan fun last => .pure ?_
  simp [QueryBody.last, lastTerm]

theorem wholeQuery_settles : (wholeQuery inner).Settles False fun query => query.isOpen = true := by
  unfold wholeQuery
  refine .skip fun start => .skip fun common => (queryBody_settles shaped).bind fun body => ?_
  refine .clause orderByClause_clause fun orderBy => .clause (limitClause_clause true) fun limit => ?_
  refine .clause lockingClause_clause fun locking => .clause .previousSpan fun last => .pure ?_
  simp only [Query.isOpen, Bool.and_eq_true, Option.isNone_iff_eq_none, List.isEmpty_iff, and_true]
  exact id

end

/-- At every nesting limit a query that ends with an open join is not in front of `ON`. -/
theorem query_settles (levels : Nat) :
    (innerAt levels).query.Settles False fun query => query.isOpen = true := by
  cases levels with
  | zero =>
      rw [query_zero]
      exact .tooDeep
  | succ levels =>
      rw [query_succ]
      exact .enter (wholeQuery_settles (innerAt_shaped levels))

/-! ### Inserts -/

section

variable {inner : InnerRules} [inner.Lawful]

theorem assignments_ne_nil : (assignments inner).Yields (· ≠ []) :=
  have anything : (assignment inner).Yields fun _ => True := fun _ => .of_on fun _ _ _ => trivial
  anything.commaSeparated.mono fun _ known => known.1

theorem tableRefs_ne_nil : (tableRefs inner).Yields (· ≠ []) :=
  have anything : (tableRef inner).Yields fun _ => True := fun _ => .of_on fun _ _ _ => trivial
  anything.commaSeparated.mono fun _ known => known.1

/-- What an insert lacks unless its source gives it. -/
def SourceFilled (columns : List Ident) (source : InsertSource) (later : Spot) : Prop :=
  match source with
  | .values rows => rows ≠ []
  | .select query => query.isOpen = true → later.kind ≠ .keyword .ON
  | .set assignments => assignments ≠ [] ∧ columns = []

theorem insertSource_ensures (settles : inner.query.Settles False fun query => query.isOpen = true)
    (spot : Spot) : (insertSource inner).Ensures spot fun found later =>
      SourceFilled found.1 found.2 later := by
  have rows : ∀ columns, (advance >>= fun _ => commaSeparated (valueRow inner) >>= fun rows =>
      Pure.pure (InsertSource.values rows)).Yields fun source =>
        ∀ later, SourceFilled columns source later := by
    intro columns
    have anything : (valueRow inner).Yields fun _ => True := fun _ => .of_on fun _ _ _ => trivial
    exact .skip fun _ => anything.commaSeparated.bind fun rows known => .pure fun _ => known.1
  have body : ∀ columns spot, (insertRows inner).Ensures spot fun source later =>
      SourceFilled columns source later := by
    intro columns spot
    unfold insertRows
    refine .step (on_peek spot) ?_
    split
    · exact (rows columns spot).mono fun _ later known => known later
    · exact (rows columns spot).mono fun _ later known => known later
    · refine .ite (fun _ => ?_) fun _ => .fail
      exact (settles spot False.elim).bind fun query later known => .pure known
  unfold insertSource
  refine .eat (fun _ => ?_) fun _ => .past fun columns later => ?_
  · exact (assignments_ne_nil spot.next).bind fun items later known => .pure ⟨known, rfl⟩
  · exact (body columns later).bind fun source last known => .pure known

/-- Where the assignments behind an insert are there, `ON` is in front of them. -/
theorem onDuplicate_ensures (kind : InsertKind) (spot : Spot) :
    (onDuplicate inner kind).Ensures spot fun items _ => items ≠ [] → spot.kind = .keyword .ON := by
  have eaten : (eatInsertWord kind .ON).Ensures spot fun found _ =>
      found = true → spot.kind = .keyword .ON := by
    unfold eatInsertWord
    refine .ite (fun _ => .of_on fun found later outcome known => ?_) fun _ => .pure (by simp)
    rw [on_eatWord] at outcome
    split at outcome
    · next same => exact same
    · cases outcome
      cases known
  unfold onDuplicate
  refine eaten.bind fun found later known => .ite (fun follows => ?_) fun _ => .pure (by simp)
  exact .of_on fun _ _ _ _ => known follows

theorem insert_filled (settles : inner.query.Settles False fun query => query.isOpen = true) :
    (insert inner).Yields Insert.Filled := by
  intro spot
  unfold insert
  refine .past fun start _ => .past fun kind _ => .past fun priority _ => .past fun ignore _ => ?_
  refine .past fun _ _ => .past fun table _ => .past fun partitions place => ?_
  refine (insertSource_ensures settles place).bind fun found middle filled => ?_
  obtain ⟨columns, source⟩ := found
  refine (onDuplicate_ensures kind middle).bind fun onDuplicate _ follows => .past fun stop _ => ?_
  refine .pure ?_
  cases source with
  | values rows => exact filled
  | set assignments => exact filled
  | select query =>
      refine fun some_ => Bool.eq_false_iff.mpr fun opened => ?_
      exact filled opened (follows some_)

/-! ### Updates and deletes -/

theorem update_filled : (update inner).Yields Update.Filled := by
  unfold update
  refine .skip fun start => .skip fun options => tableRefs_ne_nil.bind fun tables first => ?_
  refine .skip fun _ => assignments_ne_nil.bind fun assignments second => ?_
  exact .skip fun filter => .skip fun orderBy => .skip fun limit => .skip fun stop =>
    .pure ⟨first, second⟩

/-- Behind the options of a delete stands no other one. -/
theorem deleteOptions_ensures (spot : Spot) :
    deleteOptions.Ensures spot fun _ later => later.kind.NoDeleteOption := by
  refine .of_on fun options later outcome => ?_
  rw [deleteOptions_eq] at outcome
  generalize ({} : DeleteOptions) = first at outcome
  have repeats := on_whileSome_eq_done.mp outcome
  clear outcome
  induction repeats with
  | more _ _ inductionHypothesis => exact inductionHypothesis
  | @stop options spot later nothing =>
      rw [on_nextDeleteOption] at nothing
      split at nothing
      · cases nothing
      · next none =>
          cases nothing
          intro others
          unfold addDeleteOption at none ⊢
          split at none <;> first | rfl | cases none

/-- The name of a table begins as its first token does. -/
theorem tableName_ensures {spot : Spot} (spelt : spot.Spelt settings) :
    tableName.Ensures spot fun name _ => name.front.kind settings = spot.kind := by
  have first : identifier.Ensures spot fun ident _ => ident.kind settings = spot.kind := by
    refine .of_on fun ident later outcome => ?_
    rw [identifier, on_name] at outcome
    split at outcome
    · next found read =>
        cases outcome
        have inner : spot.kind ≠ .endOfInput := fun ended => by
          rw [identOfToken?, show (spot.token 0).kind = .endOfInput from ended] at read
          cases read
        exact (spelt.written inner).kind_eq read
    · cases outcome
  unfold tableName
  refine first.bind fun ident later known => .past fun dotted place => .ite (fun _ => ?_) ?_
  · exact .past fun _ _ => .past fun table _ => .pure known
  · exact fun _ => .pure known

/-- The targets of a delete begin as the first of them does. -/
theorem deleteTargets_ensures {spot : Spot} (spelt : spot.Spelt settings) :
    deleteTargets.Ensures spot fun targets _ =>
      ∀ target ∈ targets.head?, target.front.kind settings = spot.kind := by
  have first : deleteTarget.Ensures spot fun target _ => target.front.kind settings = spot.kind := by
    unfold deleteTarget
    refine (tableName_ensures spelt).bind fun target later known => ?_
    refine .nextIs (fun _ => .aheadIs (fun _ => ?_) fun _ => .pure known) fun _ => .pure known
    exact .past fun _ _ => .past fun _ _ => .pure known
  refine .of_on fun targets later outcome target member => ?_
  obtain ⟨found, middle, others, read, _, rfl⟩ := on_commaSeparated_eq_done.mp outcome
  cases member
  exact first.on read

theorem deleteSource_filled {spot : Spot} (spelt : spot.Spelt settings)
    (none : spot.kind.NoDeleteOption) : (deleteSource inner).Ensures spot fun found _ =>
      ∀ delete : Delete, delete.targets = found.1 → delete.source = found.2 →
        delete.Filled settings := by
  have table : deleteTable.Yields fun table => table.indexHints = [] := by
    have closing : ∀ name partitions aliasName, (Rule.previousSpan >>= fun last =>
        Pure.pure (NamedTable.mk name partitions aliasName [] (name.span.merge last))).Yields
          fun table => table.indexHints = [] :=
      fun name partitions aliasName => .skip fun last => .pure rfl
    unfold deleteTable
    refine .skip fun name => .skip fun before => .skip fun aliasName => .ite (fun _ => ?_) fun _ => ?_
    · exact .skip fun partitions => closing name partitions aliasName
    · exact closing name before aliasName
  have form : (deleteUsing inner).Yields fun found =>
      ∃ tables, tables ≠ [] ∧ found.2 = .multi tables true := by
    unfold deleteUsing
    exact .skip fun targets => .skip fun _ => tableRefs_ne_nil.bind fun tables known =>
      .pure ⟨tables, known, rfl⟩
  unfold deleteSource
  refine .eat (fun _ => ?_) fun _ => ?_
  · refine .attempt (form _) (fun found _ known => .pure ?_) ?_
    · obtain ⟨tables, some_, multi⟩ := known
      intro delete _ same
      rw [Delete.Filled, same, multi]
      exact ⟨some_, nofun⟩
    · refine (table _).bind fun table _ known => .pure fun delete _ same => ?_
      rw [Delete.Filled, same]
      exact known
  · refine (deleteTargets_ensures spelt).bind fun targets _ front => .past fun _ place => ?_
    refine (tableRefs_ne_nil place).bind fun tables _ known => .pure fun delete first same => ?_
    rw [Delete.Filled, same]
    refine ⟨known, fun _ target member => ?_⟩
    rw [first] at member
    rw [front target member]
    exact none

theorem delete_filled : (delete inner).Gives settings (Delete.Filled settings) := by
  unfold delete
  refine .skip fun start => fun spot spelt => ?_
  have options : deleteOptions.Ensures spot fun _ later =>
      later.Spelt settings ∧ later.kind.NoDeleteOption :=
    .of_on fun _ _ outcome =>
      ⟨spelt.of_leads (leads_of_on outcome), (deleteOptions_ensures spot).on outcome⟩
  refine options.bind fun options later known => ?_
  refine (deleteSource_filled known.1 known.2).bind fun found _ filled => .past fun filter _ => ?_
  exact .past fun tail _ => .past fun stop _ => .pure (filled _ rfl rfl)

end

/-! ### Whole sources -/

theorem statement_filled (levels : Nat) :
    (statement (innerAt levels)).Gives settings (Statement.Filled settings) := by
  unfold statement
  refine .skip fun kind => ?_
  split
  · exact fun spot _ => (insert_filled (query_settles levels) spot).bind fun tree _ known => .pure known
  · exact fun spot _ => (insert_filled (query_settles levels) spot).bind fun tree _ known => .pure known
  · exact fun spot _ => (update_filled spot).bind fun tree _ known => .pure known
  · exact delete_filled.bind fun tree known => .pure known
  · exact .ite (fun _ => .skip fun query => .pure trivial) fun _ => .fail

end Rule

/-- The parts of a change that its source cannot leave out are there. -/
theorem filled_of_parseStatement {source : String} {parsed : ParsedStatement}
    (accepted : parseStatement source settings = .ok parsed) :
    parsed.statement.Filled settings := by
  obtain ⟨unfailed, ⟨later, outcome, _⟩, _⟩ := (parseStatement_eq_ok source settings).mp accepted
  have gives : (statementTokens settings.maxDepth).Gives settings (Statement.Filled settings) := by
    unfold statementTokens
    exact (statement_filled _).bind fun tree known => .skip fun _ => .pure known
  exact (gives _ (spelt_ofSource unfailed)).on outcome

end SqlDml
