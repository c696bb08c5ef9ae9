import SqlDml.Proofs.Extents.Aligned
import SqlDml.Proofs.Reading.Names

/-!
Contract: the three forms of a delete, told apart by its tokens.

Owns:
- the tokens of a list of targets, which can be read in one way only;
- what the rules for targets and for a single table read;
- a delete has its targets in front of `FROM`, or behind it and in front of `USING`, or it changes
  a single table with nothing behind it that goes on with a list of targets.

Does not own: the table references of a delete.
-/

namespace SqlDml

/-! ### Lists of targets -/

/-- The tokens of `[schema.]table`. -/
inductive NameText (source : List Char) : List Token → TableName → Prop where
  | table {token : Token} {table : Ident} (named : identOfToken? source false token = some table) :
      NameText source [token] ⟨none, table, table.span⟩
  | inSchema {first dot last : Token} {schema table : Ident}
      (schemaNamed : identOfToken? source false first = some schema)
      (isDot : dot.kind = .punct .dot)
      (tableNamed : identOfToken? source true last = some table) :
      NameText source [first, dot, last] ⟨some schema, table, schema.span.merge table.span⟩

/-- The tokens of `[schema.]table[.*]`. -/
inductive TargetText (source : List Char) : List Token → TableName → Prop where
  | plain {text : List Token} {name : TableName} (named : NameText source text name) :
      TargetText source text name
  | wild {text : List Token} {name : TableName} {dot star : Token}
      (named : NameText source text name) (isDot : dot.kind = .punct .dot)
      (isStar : star.kind = .punct .star) : TargetText source (text ++ [dot, star]) name

/-- The tokens of one target or more, with commas between them. -/
inductive TargetsText (source : List Char) : List Token → List TableName → Prop where
  | one {text : List Token} {name : TableName} (target : TargetText source text name) :
      TargetsText source text [name]
  | more {text texts : List Token} {name : TableName} {names : List TableName} {comma : Token}
      (target : TargetText source text name) (isComma : comma.kind = .punct .comma)
      (rest : TargetsText source texts names) :
      TargetsText source (text ++ comma :: texts) (name :: names)

/-- Tokens that begin with a list of targets and a keyword behind it. -/
def ListsTargets (source : List Char) (word : Keyword) (tokens : List Token)
    (targets : List TableName) : Prop :=
  ∃ text stop after, TargetsText source text targets ∧ stop.kind = .keyword word ∧
    tokens = text ++ stop :: after

/-- A token that goes on with the target in front of it, or with the statement behind a list of
targets. -/
def TokenKind.FollowsTarget (kind : TokenKind) : Prop :=
  kind = .punct .comma ∨ kind = .punct .dot ∨ kind = .keyword .USING

/-! ### One way to read a list -/

section

variable {source : List Char}

theorem identOfToken?_mark {token : Token} {mark : Punct} (isMark : token.kind = .punct mark)
    (anyKeyword : Bool) : identOfToken? source anyKeyword token = none := by
  rw [identOfToken?, isMark]

/-- Tokens that do not go on with a name in front of them. -/
def Undotted (source : List Char) (tokens : List Token) : Prop :=
  ∀ dot last after, tokens = dot :: last :: after → dot.kind = .punct .dot →
    identOfToken? source true last = none

theorem undotted_of_head {tokens : List Token}
    (noDot : ∀ token ∈ tokens.head?, token.kind ≠ .punct .dot) : Undotted source tokens := by
  rintro dot last after rfl isDot
  exact absurd isDot (noDot dot rfl)

theorem undotted_star {dot star : Token} (isStar : star.kind = .punct .star) (tokens : List Token) :
    Undotted source (dot :: star :: tokens) := by
  rintro _ _ _ ⟨⟩ _
  exact identOfToken?_mark isStar true

/-- Two names at the front of the same tokens are the same one. -/
theorem NameText.unique {text other rest behind : List Token} {name found : TableName}
    (first : NameText source text name) (second : NameText source other found)
    (same : text ++ rest = other ++ behind) (ends : Undotted source rest)
    (otherEnds : Undotted source behind) : text = other ∧ name = found ∧ rest = behind := by
  cases first with
  | table named =>
      cases second with
      | table otherNamed =>
          cases same
          cases named.symm.trans otherNamed
          exact ⟨rfl, rfl, rfl⟩
      | inSchema schemaNamed isDot tableNamed =>
          cases same
          rw [ends _ _ _ rfl isDot] at tableNamed
          cases tableNamed
  | inSchema schemaNamed isDot tableNamed =>
      cases second with
      | table otherNamed =>
          cases same
          rw [otherEnds _ _ _ rfl isDot] at tableNamed
          cases tableNamed
      | inSchema otherSchema _ otherTable =>
          cases same
          cases schemaNamed.symm.trans otherSchema
          cases tableNamed.symm.trans otherTable
          exact ⟨rfl, rfl, rfl⟩

/-- A target is a name, and what stands behind the name: nothing, or a dot and a star. -/
theorem TargetText.split {text : List Token} {name : TableName}
    (target : TargetText source text name) {rest : List Token}
    (noDot : ∀ token ∈ rest.head?, token.kind ≠ .punct .dot) :
    ∃ front wild, text = front ++ wild ∧ NameText source front name ∧
      Undotted source (wild ++ rest) ∧ (wild = [] ∨ ∃ dot star, wild = [dot, star] ∧
        dot.kind = .punct .dot) := by
  cases target with
  | plain named => exact ⟨text, [], by simp, named, undotted_of_head noDot, .inl rfl⟩
  | wild named isDot isStar =>
      exact ⟨_, _, rfl, named, undotted_star isStar rest, .inr ⟨_, _, rfl, isDot⟩⟩

theorem TargetText.unique {text other rest behind : List Token} {name found : TableName}
    (first : TargetText source text name) (second : TargetText source other found)
    (same : text ++ rest = other ++ behind)
    (noDot : ∀ token ∈ rest.head?, token.kind ≠ .punct .dot)
    (otherNoDot : ∀ token ∈ behind.head?, token.kind ≠ .punct .dot) :
    text = other ∧ name = found ∧ rest = behind := by
  obtain ⟨front, wild, rfl, named, ends, isWild⟩ := first.split noDot
  obtain ⟨otherFront, otherWild, rfl, otherNamed, otherEnds, otherIsWild⟩ :=
    second.split otherNoDot
  rw [List.append_assoc, List.append_assoc] at same
  obtain ⟨rfl, rfl, wilds⟩ := named.unique otherNamed same ends otherEnds
  rcases isWild with rfl | ⟨dot, star, rfl, isDot⟩ <;>
    rcases otherIsWild with rfl | ⟨otherDot, otherStar, rfl, otherIsDot⟩
  · exact ⟨rfl, rfl, wilds⟩
  · rw [List.nil_append] at wilds
    exact absurd otherIsDot (noDot _ (by rw [wilds]; rfl))
  · rw [List.nil_append] at wilds
    exact absurd isDot (otherNoDot _ (by rw [← wilds]; rfl))
  · cases wilds
    exact ⟨rfl, rfl, rfl⟩

/-- Two lists of targets at the front of the same tokens, with keywords behind them, are the same
one. -/
theorem TargetsText.unique {text other : List Token} {targets found : List TableName}
    (first : TargetsText source text targets) (second : TargetsText source other found)
    {stop otherStop : Token} {rest behind : List Token} {word otherWord : Keyword}
    (isWord : stop.kind = .keyword word) (otherIsWord : otherStop.kind = .keyword otherWord)
    (same : text ++ stop :: rest = other ++ otherStop :: behind) :
    text = other ∧ targets = found ∧ stop = otherStop := by
  have head : ∀ {token : Token} {tokens : List Token}, token.kind ≠ .punct .dot →
      ∀ front ∈ (token :: tokens).head?, front.kind ≠ .punct .dot := by
    rintro token tokens noDot _ ⟨⟩
    exact noDot
  induction first generalizing other found with
  | one target =>
      cases second with
      | one otherTarget =>
          obtain ⟨rfl, rfl, tails⟩ := target.unique otherTarget same (head (by simp [isWord]))
            (head (by simp [otherIsWord]))
          exact ⟨rfl, rfl, (List.cons.inj tails).1⟩
      | more otherTarget isComma _ =>
          rw [List.append_assoc] at same
          obtain ⟨rfl, rfl, tails⟩ := target.unique otherTarget same (head (by simp [isWord]))
            (head (by simp [isComma]))
          rw [(List.cons.inj tails).1, isComma] at isWord
          cases isWord
  | more target isComma _ inductionHypothesis =>
      rw [List.append_assoc] at same
      cases second with
      | one otherTarget =>
          obtain ⟨rfl, rfl, tails⟩ := target.unique otherTarget same (head (by simp [isComma]))
            (head (by simp [otherIsWord]))
          rw [← (List.cons.inj tails).1, isComma] at otherIsWord
          cases otherIsWord
      | more otherTarget otherIsComma otherRest =>
          rw [List.append_assoc] at same
          obtain ⟨rfl, rfl, tails⟩ := target.unique otherTarget same (head (by simp [isComma]))
            (head (by simp [otherIsComma]))
          obtain ⟨sameComma, behindComma⟩ := List.cons.inj tails
          obtain ⟨rfl, rfl, stops⟩ := inductionHypothesis otherRest behindComma
          exact ⟨by rw [sameComma], rfl, stops⟩

/-- The targets in front of a keyword are the only ones there. -/
theorem ListsTargets.unique {word : Keyword} {tokens : List Token} {targets found : List TableName}
    (first : ListsTargets source word tokens targets)
    (second : ListsTargets source word tokens found) : targets = found := by
  obtain ⟨text, stop, after, listed, isWord, rfl⟩ := first
  obtain ⟨other, otherStop, behind, otherListed, otherIsWord, same⟩ := second
  exact (listed.unique otherListed isWord otherIsWord same).2.1

end

/-! ### What the rules read -/

/-- The form of a delete by the tokens behind its options, with the tokens that it leaves.  Of a
single table it leaves all tokens behind the name where they go on with a target. -/
inductive DeleteForm (source : List Char) :
    List Token → List TableName → DeleteSource → List Token → Prop where
  | before {tokens rest : List Token} {targets : List TableName} {tables : List TableRef}
      (noFrom : ∀ token ∈ tokens.head?, token.kind ≠ .keyword .FROM)
      (listed : ListsTargets source .FROM tokens targets) :
      DeleteForm source tokens targets (.multi tables false) rest
  | behind {start : Token} {tokens rest : List Token} {targets : List TableName}
      {tables : List TableRef} (isFrom : start.kind = .keyword .FROM)
      (listed : ListsTargets source .USING tokens targets) :
      DeleteForm source (start :: tokens) targets (.multi tables true) rest
  | single {start : Token} {text after rest : List Token} {table : NamedTable}
      (isFrom : start.kind = .keyword .FROM) (named : NameText source text table.name)
      (follows : (∃ token ∈ after.head?, token.kind.FollowsTarget) → rest = after) :
      DeleteForm source (start :: (text ++ after)) [] (.single table) rest

/-- A token that is an option of a delete. -/
def TokenKind.IsDeleteOption (kind : TokenKind) : Prop :=
  kind = .keyword .LOW_PRIORITY ∨ kind = .keyword .QUICK ∨ kind = .keyword .IGNORE

theorem TokenKind.IsDeleteOption.inner {kind : TokenKind} (isOption : kind.IsDeleteOption) :
    kind ≠ .endOfInput := by
  rcases isOption with rfl | rfl | rfl <;> simp

theorem Spot.kind_of_head {spot : Spot} {token : Token} (first : token ∈ spot.ahead.head?) :
    spot.kind = token.kind := by
  obtain ⟨_, ahead⟩ := List.head?_eq_some_iff.mp first
  exact kind_eq_of_ahead ahead

namespace Rule

theorem name_text (anyKeyword : Bool) (spot : Spot) :
    (name anyKeyword).Ensures spot fun ident later => ∃ token, spot.Through [token] later ∧
      identOfToken? spot.source anyKeyword token = some ident := by
  refine .of_on fun ident later outcome => ?_
  rw [on_name] at outcome
  split at outcome
  · next found read =>
      cases outcome
      exact ⟨_, .next (identOfToken?_spec read).1, read⟩
  · cases outcome

theorem tableName_text (spot : Spot) :
    tableName.Ensures spot fun name later => ∃ text, spot.Through text later ∧
      NameText spot.source text name := by
  unfold tableName
  refine (name_text false spot).bind fun schema middle read => ?_
  obtain ⟨first, through, named⟩ := read
  refine .dotName (fun isDot => ?_) (.pure ⟨_, through, .table named⟩)
  refine .step (on_advance middle) ?_
  refine (name_text true middle.next).bind fun table later read => .pure ?_
  obtain ⟨last, behind, tableNamed⟩ := read
  have dotted := through.trans ((Spot.Through.next (by simp [isDot])).trans behind)
  exact ⟨_, dotted, .inSchema named isDot (through.source ▸ tableNamed)⟩

theorem deleteTarget_text (spot : Spot) :
    deleteTarget.Ensures spot fun name later => ∃ text, spot.Through text later ∧
      TargetText spot.source text name := by
  unfold deleteTarget
  refine (tableName_text spot).bind fun name middle read => ?_
  obtain ⟨text, through, named⟩ := read
  have plain : ∃ text, spot.Through text middle ∧ TargetText spot.source text name :=
    ⟨text, through, .plain named⟩
  refine .nextIs (fun isDot => .aheadIs (fun isStar => ?_) fun _ => .pure plain)
    fun _ => .pure plain
  have star : middle.next.kind = .punct .star := by rw [Spot.kind, Spot.next_token, isStar]
  refine .step (on_advance middle) (.step (on_advance middle.next) (.pure ?_))
  have wild := (Spot.Through.next (show middle.kind ≠ .endOfInput by simp [isDot])).trans
    (.next (show middle.next.kind ≠ .endOfInput by simp [star]))
  exact ⟨_, through.trans wild, .wild named isDot star⟩

/-- By induction on the targets behind the first one. -/
theorem deleteTargets_text (spot : Spot) :
    deleteTargets.Ensures spot fun targets later => ∃ text, spot.Through text later ∧
      TargetsText spot.source text targets := by
  refine .of_on fun targets later outcome => ?_
  obtain ⟨target, middle, others, read, items, rfl⟩ := on_commaSeparated_eq_done.mp outcome
  clear outcome
  induction items generalizing spot target with
  | stop _ =>
      obtain ⟨text, through, named⟩ := (deleteTarget_text spot).on read
      exact ⟨text, through, .one named⟩
  | more isComma readNext _ inductionHypothesis =>
      obtain ⟨text, through, named⟩ := (deleteTarget_text spot).on read
      obtain ⟨texts, behind, listed⟩ := inductionHypothesis _ _ readNext
      have comma := through.trans (.next (by simp [isComma]))
      rw [Spot.next_source, through.source] at listed
      refine ⟨_, comma.trans behind, ?_⟩
      rw [List.append_assoc]
      exact .more named isComma listed

/-- Targets and a keyword behind them. -/
theorem deleteTargets_listed {word : Keyword} {spot : Spot} {β : Type}
    {next : List TableName → Rule β}
    {post : β → Spot → Prop} [∀ targets, (next targets).Lawful]
    (rest : ∀ targets later, ListsTargets spot.source word spot.ahead targets →
      (next targets).Ensures later post) :
    (deleteTargets >>= fun targets => expectWord word >>= fun _ => next targets).Ensures spot
      post := by
  refine (deleteTargets_text spot).bind fun targets middle read => ?_
  obtain ⟨text, through, listed⟩ := read
  by_cases found : middle.kind = .keyword word
  · refine .step (on_expect_found found) (rest targets middle.next ?_)
    have inner : middle.kind ≠ .endOfInput := by simp [found]
    exact ⟨text, _, _, listed, found, by rw [through.split, Spot.ahead_of_inner inner]⟩
  · refine .of_on fun value later outcome => ?_
    rw [on_bind, expectWord, on_expect_missing found] at outcome
    cases outcome

end Rule

/-! ### A single table -/

namespace TokenKind.FollowsTarget

variable {kind : TokenKind}

theorem not_word (follows : kind.FollowsTarget) {word : Keyword} (other : word ≠ .USING) :
    kind ≠ .keyword word := by
  rcases follows with rfl | rfl | rfl
  · simp
  · simp
  · simpa using Ne.symm other

theorem not_name (follows : kind.FollowsTarget) : kind.isName = false := by
  rcases follows with rfl | rfl | rfl <;> rfl

theorem not_semicolon (follows : kind.FollowsTarget) : kind ≠ .punct .semicolon := by
  rcases follows with rfl | rfl | rfl <;> simp

end TokenKind.FollowsTarget

namespace Rule

/-- A rule that reads nothing from what follows a target. -/
def StaysAtTargets {α : Type} (rule : Rule α) : Prop :=
  ∀ spot : Spot, spot.kind.FollowsTarget → rule.Ensures spot fun _ later => later = spot

/-- Where something follows a target, such a rule stays. -/
theorem StaysAtTargets.ensures {α : Type} {rule : Rule α} [rule.Lawful]
    (stays : StaysAtTargets rule) (spot : Spot) :
    rule.Ensures spot fun _ later => spot.kind.FollowsTarget → later = spot := by
  by_cases follows : spot.kind.FollowsTarget
  · exact (stays spot follows).mono fun _ _ same _ => same
  · exact .of_on fun _ _ _ other => absurd other follows

theorem partitions_stays : StaysAtTargets partitions := by
  intro spot follows
  unfold partitions
  exact .eat (fun found => absurd found (follows.not_word (by simp))) fun _ => .pure rfl

theorem aliasName_stays : StaysAtTargets aliasName := by
  intro spot follows
  unfold aliasName
  refine .eat (fun found => absurd found (follows.not_word (by simp))) fun _ => ?_
  exact .step (on_peek spot) (.ite (fun named => absurd follows.not_name (by simp [named]))
    fun _ => .pure rfl)

section

variable {inner : InnerRules}

theorem whereClause_stays : StaysAtTargets (whereClause inner) := by
  intro spot follows
  unfold whereClause
  exact .eat (fun found => absurd found (follows.not_word (by simp))) fun _ => .pure rfl

theorem deleteTail_stays (source : DeleteSource) : StaysAtTargets (deleteTail inner source) := by
  intro spot follows
  have orderBy : (orderByClause inner).Ensures spot fun _ later => later = spot := by
    unfold orderByClause
    exact .eat (fun found => absurd found (follows.not_word (by simp))) fun _ => .pure rfl
  have limit : (limitClause false).Ensures spot fun _ later => later = spot := by
    unfold limitClause
    exact .nextIs (fun found => absurd found (follows.not_word (by simp))) fun _ => .pure rfl
  unfold deleteTail
  split
  · refine orderBy.bind fun terms middle stays => ?_
    subst stays
    exact limit.bind fun _ _ stays => .pure stays
  · exact .pure rfl

/-- A single table takes nothing behind its name that goes on with a target. -/
theorem deleteTable_text (spot : Spot) :
    deleteTable.Ensures spot fun table later => ∃ text middle, spot.Through text middle ∧
      NameText spot.source text table.name ∧ (middle.kind.FollowsTarget → later = middle) := by
  unfold deleteTable
  refine (tableName_text spot).bind fun name middle read => ?_
  obtain ⟨text, through, named⟩ := read
  have finish : ∀ parts aliasName later, (middle.kind.FollowsTarget → later = middle) →
      (Rule.previousSpan >>= fun stop => Pure.pure
        (NamedTable.mk name parts aliasName [] (name.span.merge stop))).Ensures later
          fun table later => ∃ text middle, spot.Through text middle ∧
            NameText spot.source text table.name ∧ (middle.kind.FollowsTarget → later = middle) :=
    fun _ _ later stays =>
      .step (on_previousSpan later) (.pure ⟨text, middle, through, named, stays⟩)
  refine (partitions_stays.ensures middle).bind fun before second stays => ?_
  refine (aliasName_stays.ensures second).bind fun aliasName third staysAlias => ?_
  have unread : middle.kind.FollowsTarget → third = middle := by
    intro follows
    obtain rfl := stays follows
    exact staysAlias follows
  refine .ite (fun _ => ?_) fun _ => finish before aliasName third unread
  refine (partitions_stays.ensures third).bind fun parts fourth staysParts => ?_
  refine finish parts aliasName fourth fun follows => ?_
  obtain rfl := unread follows
  exact staysParts follows

/-- `targets USING table references` -/
theorem deleteUsing_text [inner.Lawful] (spot : Spot) :
    (deleteUsing inner).Ensures spot fun found _ =>
      (∃ tables, found.2 = .multi tables true) ∧
        ListsTargets spot.source .USING spot.ahead found.1 := by
  unfold deleteUsing
  exact deleteTargets_listed fun targets _ listed =>
    .past fun tables _ => .pure ⟨⟨tables, rfl⟩, listed⟩

theorem deleteSource_text [inner.Lawful] (spot : Spot) :
    (deleteSource inner).Ensures spot fun found later =>
      DeleteForm spot.source spot.ahead found.1 found.2 later.ahead := by
  unfold deleteSource
  refine .eat (fun isFrom => ?_) fun noFrom => ?_
  · have split : spot.ahead = spot.token 0 :: spot.next.ahead :=
      Spot.ahead_of_inner (by simp [isFrom])
    rw [split]
    refine .attempt (deleteUsing_text spot.next) (fun found later read => .pure ?_) ?_
    · obtain ⟨⟨tables, multi⟩, listed⟩ := read
      rw [multi]
      exact .behind isFrom listed
    · refine (deleteTable_text spot.next).bind fun table later read => .pure ?_
      obtain ⟨text, middle, through, named, stays⟩ := read
      rw [through.split]
      refine .single isFrom named ?_
      rintro ⟨token, first, follows⟩
      rw [stays (Spot.kind_of_head first ▸ follows)]
  · refine deleteTargets_listed fun targets _ listed => .past fun tables _ => .pure ?_
    refine .before (fun token first isFrom => noFrom ?_) listed
    rw [Spot.kind_of_head first, isFrom]

theorem addDeleteOption_eq_none {options : DeleteOptions} {kind : TokenKind} :
    addDeleteOption options kind = none ↔ ¬ kind.IsDeleteOption := by
  unfold addDeleteOption TokenKind.IsDeleteOption
  split <;> simp_all

theorem isDeleteOption_of_add {options more : DeleteOptions} {kind : TokenKind}
    (added : addDeleteOption options kind = some more) : kind.IsDeleteOption := by
  by_contra other
  rw [addDeleteOption_eq_none.mpr other] at added
  cases added

/-- The options of a delete are all tokens that name one.  By induction on them. -/
theorem deleteOptions_text (spot : Spot) :
    deleteOptions.Ensures spot fun _ later => ∃ options, spot.Through options later ∧
      (∀ option ∈ options, option.kind.IsDeleteOption) ∧ ¬ later.kind.IsDeleteOption := by
  refine .of_on fun found later outcome => ?_
  rw [deleteOptions_eq] at outcome
  generalize ({} : DeleteOptions) = first at outcome
  have repeats := on_whileSome_eq_done.mp outcome
  clear outcome
  induction repeats with
  | stop nothing =>
      rw [on_nextDeleteOption] at nothing
      split at nothing
      · cases nothing
      · next none_ =>
          cases nothing
          exact ⟨[], .refl _, by simp, addDeleteOption_eq_none.mp none_⟩
  | @more _ _ _ spot _ _ more _ inductionHypothesis =>
      rw [on_nextDeleteOption] at more
      split at more
      · next named =>
          cases more
          obtain ⟨options, through, all, ends⟩ := inductionHypothesis
          have isOption := isDeleteOption_of_add named
          exact ⟨_, (Spot.Through.next isOption.inner).trans through,
            List.forall_mem_cons.mpr ⟨isOption, all⟩, ends⟩
      · cases more

end

end Rule

/-- A delete by its tokens: the keyword, its options, and what tells its form. -/
structure DeleteTokens (source : List Char) (tree : Delete) (tokens rest : List Token)
    (word : Token) (options behind : List Token) : Prop where
  split : tokens = word :: (options ++ behind)
  isDelete : word.kind = .keyword .DELETE
  areOptions : ∀ option ∈ options, option.kind.IsDeleteOption
  noOption : ∀ token ∈ behind.head?, ¬ token.kind.IsDeleteOption
  form : DeleteForm source behind tree.targets tree.source rest

/-- What follows the form and stays at tokens that follow a target leaves the form as it is. -/
theorem DeleteForm.past {source : List Char} {tokens rest later : List Token}
    {targets : List TableName} {found : DeleteSource}
    (form : DeleteForm source tokens targets found rest)
    (stays : (∃ token ∈ rest.head?, token.kind.FollowsTarget) → later = rest) :
    DeleteForm source tokens targets found later := by
  cases form with
  | before noFrom listed => exact .before noFrom listed
  | behind isFrom listed => exact .behind isFrom listed
  | single isFrom named follows =>
      refine .single isFrom named fun next => ?_
      rw [stays (follows next ▸ next), follows next]

namespace Rule

variable {inner : InnerRules} [inner.Lawful]

theorem followsTarget_of_head {spot : Spot}
    (next : ∃ token ∈ spot.ahead.head?, token.kind.FollowsTarget) : spot.kind.FollowsTarget := by
  obtain ⟨token, first, follows⟩ := next
  rwa [Spot.kind_of_head first]

theorem delete_text (spot : Spot) :
    (delete inner).Ensures spot fun tree later => ∃ word options behind,
      DeleteTokens spot.source tree spot.ahead later.ahead word options behind := by
  unfold delete
  by_cases isDelete : spot.kind = .keyword .DELETE
  · refine .step (on_expect_found isDelete) ?_
    refine (deleteOptions_text spot.next).bind fun found middle read => ?_
    obtain ⟨options, through, areOptions, ends⟩ := read
    refine (deleteSource_text middle).bind fun source behind form => ?_
    refine (whereClause_stays.ensures behind).bind fun filter later stays => ?_
    refine ((deleteTail_stays source.2).ensures later).bind fun tail last staysTail => ?_
    refine .step (on_previousSpan last) (.pure ?_)
    have whole : spot.ahead = spot.token 0 :: (options ++ middle.ahead) := by
      rw [Spot.ahead_of_inner (by simp [isDelete]), through.split]
    rw [through.source] at form
    refine ⟨_, options, middle.ahead, whole, isDelete, areOptions, ?_, ?_⟩
    · intro token first isOption
      exact ends (by rwa [Spot.kind_of_head first])
    · have filtered : DeleteForm spot.source middle.ahead source.1 source.2 later.ahead :=
        form.past fun next => by rw [stays (followsTarget_of_head next)]
      exact filtered.past fun next => by rw [staysTail (followsTarget_of_head next)]
  · refine .of_on fun tree later outcome => ?_
    rw [on_bind, expectWord, on_expect_missing isDelete] at outcome
    cases outcome

theorem statement_text (spot : Spot) :
    (statement inner).Ensures spot fun found later => ∀ tree, found = .delete tree →
      ∃ word options behind,
        DeleteTokens spot.source tree spot.ahead later.ahead word options behind := by
  unfold statement
  refine .step (on_peek spot) ?_
  split
  · exact .past fun _ _ => .pure (by simp)
  · exact .past fun _ _ => .pure (by simp)
  · exact .past fun _ _ => .pure (by simp)
  · refine (delete_text spot).bind fun tree later read => .pure ?_
    rintro _ ⟨⟩
    exact read
  · exact .ite (fun _ => .past fun _ _ => .pure (by simp)) fun _ => .fail

/-- Behind a delete at most a semicolon is left, which does not go on with a target. -/
theorem statementTokens_text (levels : Nat) (spot : Spot) :
    (statementTokens levels).Ensures spot fun found later => ∀ tree, found = .delete tree →
      later.ahead = [] → ∃ word options behind,
        DeleteTokens spot.source tree spot.ahead [] word options behind := by
  unfold statementTokens
  refine (statement_text spot).bind fun found middle read => ?_
  have marked : (eatMark .semicolon).Ensures middle fun _ later =>
      middle.kind.FollowsTarget → later = middle := by
    refine .of_on fun value later outcome follows => ?_
    rw [on_eatMark, if_neg follows.not_semicolon] at outcome
    cases outcome
    rfl
  refine marked.bind fun _ later stays => .pure fun tree isDelete all => ?_
  obtain ⟨word, options, behind, tokens⟩ := read tree isDelete
  refine ⟨word, options, behind, { tokens with form := tokens.form.past fun next => ?_ }⟩
  rw [← stays (followsTarget_of_head next), all]

end Rule

/-! ### The three forms -/

namespace DeleteForm

variable {source : List Char} {tokens : List Token} {targets : List TableName}
  {found : DeleteSource}

/-- Targets begin with a name, and behind it stands a dot, a comma or what follows the targets. -/
theorem front_of_listed {listed : List TableName}
    (lists : ListsTargets source .USING tokens listed) :
    ∃ text behind name, tokens = text ++ behind ∧ NameText source text name ∧
      Undotted source behind ∧ ∃ token ∈ behind.head?, token.kind.FollowsTarget := by
  obtain ⟨_, stop, rest, lists, isUsing, rfl⟩ := lists
  have target : ∀ {text : List Token} {name : TableName} {next : Token} {more : List Token},
      TargetText source text name → next.kind.FollowsTarget → next.kind ≠ .punct .dot →
      ∃ front behind name, text ++ next :: more = front ++ behind ∧ NameText source front name ∧
        Undotted source behind ∧ ∃ token ∈ behind.head?, token.kind.FollowsTarget := by
    rintro text name next more (named | ⟨named, isDot, isStar⟩) follows noDot
    · refine ⟨text, next :: more, name, rfl, named, undotted_of_head ?_, next, rfl, follows⟩
      rintro _ ⟨⟩
      exact noDot
    · exact ⟨_, _, name, List.append_assoc _ _ _, named, undotted_star isStar _, _, rfl,
        .inr (.inl isDot)⟩
  cases lists with
  | one named => exact target named (.inr (.inr isUsing)) (by simp [isUsing])
  | more named isComma _ =>
      rw [List.append_assoc]
      exact target named (.inl isComma) (by simp [isComma])

/-- A single table is followed by nothing that goes on with a target. -/
theorem after_of_single {table : NamedTable}
    (form : DeleteForm source tokens targets (.single table) []) :
    targets = [] ∧ ∃ start text after, tokens = start :: (text ++ after) ∧
      start.kind = .keyword .FROM ∧ NameText source text table.name ∧
      ∀ token ∈ after.head?, ¬ token.kind.FollowsTarget := by
  cases form with
  | single isFrom named follows =>
      refine ⟨rfl, _, _, _, rfl, isFrom, named, fun token first next => ?_⟩
      rw [← follows ⟨token, first, next⟩] at first
      cases first

/-- No targets with `USING` behind them begin with the name of a single table. -/
theorem not_listed_of_single {text after : List Token} {name : TableName}
    (named : NameText source text name) (ends : ∀ token ∈ after.head?, ¬ token.kind.FollowsTarget)
    (listed : List TableName) : ¬ ListsTargets source .USING (text ++ after) listed := by
  intro lists
  obtain ⟨front, behind, other, same, otherNamed, otherEnds, token, first, follows⟩ :=
    front_of_listed lists
  have noDot : Undotted source after :=
    undotted_of_head fun token first isDot => ends token first (.inr (.inl isDot))
  obtain ⟨-, -, rfl⟩ := named.unique otherNamed same noDot otherEnds
  exact ends token first follows

theorem before_iff (form : DeleteForm source tokens targets found []) :
    (∃ tables, found = .multi tables false) ↔
      ∀ token ∈ tokens.head?, token.kind ≠ .keyword .FROM := by
  cases form with
  | before noFrom _ => exact ⟨fun _ => noFrom, fun _ => ⟨_, rfl⟩⟩
  | behind isFrom _ => simp [isFrom]
  | single isFrom _ _ => simp [isFrom]

theorem behind_iff (form : DeleteForm source tokens targets found []) :
    (∃ tables, found = .multi tables true) ↔ ∃ start behind, tokens = start :: behind ∧
      start.kind = .keyword .FROM ∧ ∃ listed, ListsTargets source .USING behind listed := by
  constructor
  · rintro ⟨tables, rfl⟩
    cases form with
    | behind isFrom listed => exact ⟨_, _, rfl, isFrom, _, listed⟩
  · rintro ⟨start, behind, split, isFrom, listed, lists⟩
    subst split
    cases found with
    | single table =>
        obtain ⟨-, _, text, after, split, -, named, ends⟩ := form.after_of_single
        cases split
        exact absurd lists (not_listed_of_single named ends listed)
    | multi tables behindFrom =>
        cases form with
        | before noFrom _ => exact absurd isFrom (noFrom _ rfl)
        | behind _ _ => exact ⟨tables, rfl⟩

theorem single_iff (form : DeleteForm source tokens targets found []) :
    (∃ table, found = .single table) ↔ ∃ start behind, tokens = start :: behind ∧
      start.kind = .keyword .FROM ∧ ∀ listed, ¬ ListsTargets source .USING behind listed := by
  constructor
  · rintro ⟨table, rfl⟩
    obtain ⟨-, start, text, after, rfl, isFrom, named, ends⟩ := form.after_of_single
    exact ⟨start, _, rfl, isFrom, not_listed_of_single named ends⟩
  · rintro ⟨start, behind, rfl, isFrom, unlisted⟩
    cases form with
    | before noFrom _ => exact absurd isFrom (noFrom _ rfl)
    | behind _ listed => exact absurd listed (unlisted _)
    | single _ _ _ => exact ⟨_, rfl⟩

/-- The targets of a form with several tables are the list that its tokens begin with. -/
theorem listed_of_multi {tables : List TableRef} {behindFrom : Bool}
    (form : DeleteForm source tokens targets (.multi tables behindFrom) []) :
    if behindFrom then ∀ listed, ListsTargets source .USING tokens.tail listed ↔ listed = targets
    else ∀ listed, ListsTargets source .FROM tokens listed ↔ listed = targets := by
  cases form with
  | before _ listed =>
      exact fun other => ⟨fun lists => lists.unique listed, fun same => same ▸ listed⟩
  | behind _ listed =>
      exact fun other => ⟨fun lists => lists.unique listed, fun same => same ▸ listed⟩

end DeleteForm

/-- The targets of a delete that stand in front of `USING`. -/
def Statement.usingTargets? : Statement → Option (List TableName)
  | .delete tree =>
      match tree.source with
      | .multi _ true => some tree.targets
      | _ => none
  | _ => none

/-- The three forms of a delete are told apart by its tokens.  Behind the options stands `FROM`,
unless the targets come first.  Behind `FROM` stand targets and `USING`, unless a single table is
meant; so no failure behind `USING` makes a single table of the first target.  The targets are the
list that is read there, and there is one way only to read it. -/
theorem deleteForm_of_parseStatement {source : String} {settings : Settings}
    {parsed : ParsedStatement} {tree : Delete}
    (accepted : parseStatement source settings = .ok parsed)
    (isDelete : parsed.statement = .delete tree) :
    ∃ word options behind stop,
      tokenize source settings = .ok (word :: (options ++ behind) ++ [stop]) ∧
      word.kind = .keyword .DELETE ∧ (∀ option ∈ options, option.kind.IsDeleteOption) ∧
      (∀ token ∈ behind.head?, ¬ token.kind.IsDeleteOption) ∧
      ((∃ tables, tree.source = .multi tables false) ↔
        ∀ token ∈ behind.head?, token.kind ≠ .keyword .FROM) ∧
      ((∃ tables, tree.source = .multi tables true) ↔ ∃ start rest, behind = start :: rest ∧
        start.kind = .keyword .FROM ∧ ∃ listed, ListsTargets source.toList .USING rest listed) ∧
      ((∃ table, tree.source = .single table) ↔ ∃ start rest, behind = start :: rest ∧
        start.kind = .keyword .FROM ∧ ∀ listed, ¬ ListsTargets source.toList .USING rest listed) ∧
      (∀ tables, tree.source = .multi tables false →
        ∀ listed, ListsTargets source.toList .FROM behind listed ↔ listed = tree.targets) ∧
      (∀ tables, tree.source = .multi tables true →
        ∀ listed, ListsTargets source.toList .USING behind.tail listed ↔ listed = tree.targets) ∧
      ∀ table, tree.source = .single table → tree.targets = [] ∧
        ∃ start text after, behind = start :: (text ++ after) ∧ start.kind = .keyword .FROM ∧
          NameText source.toList text table.name ∧
          ∀ token ∈ after.head?, ¬ token.kind.FollowsTarget := by
  obtain ⟨unfailed, ⟨later, outcome, all⟩, _⟩ := (parseStatement_eq_ok source settings).mp accepted
  obtain ⟨word, options, behind, tokens⟩ :=
    (Rule.statementTokens_text settings.maxDepth _).on outcome tree isDelete all
  have whole := tokenize_of_ahead unfailed
  have form := tokens.form
  rw [tokens.split] at whole
  refine ⟨word, options, behind, _, whole, tokens.isDelete, tokens.areOptions, tokens.noOption,
    form.before_iff, form.behind_iff, form.single_iff, fun tables several => ?_,
    fun tables several => ?_, fun table single => ?_⟩
  · exact (several ▸ form).listed_of_multi
  · exact (several ▸ form).listed_of_multi
  · exact (single ▸ form).after_of_single

/-- Two targets behind `FROM`, one of them with a dot and a star, and tables behind `USING`. -/
theorem deleteForm_of_using :
    ∃ parsed tree, parseStatement "DELETE QUICK FROM s.a.*, b USING a JOIN b" {} = .ok parsed ∧
      parsed.statement = .delete tree ∧ tree.targets.length = 2 ∧
      ∃ rest, ListsTargets "DELETE QUICK FROM s.a.*, b USING a JOIN b".toList .USING rest
        tree.targets := by
  obtain ⟨parsed, accepted, counted⟩ :=
    @exists_parsed "DELETE QUICK FROM s.a.*, b USING a JOIN b" {}
      (fun parsed => parsed.statement.usingTargets?.map List.length = some 2) _ _ rfl (by decide +kernel)
  obtain ⟨targets, found, length⟩ := Option.map_eq_some_iff.mp counted
  unfold Statement.usingTargets? at found
  split at found
  · next tree isDelete =>
      split at found
      · next tables multi =>
          cases found
          obtain ⟨_, _, behind, _, _, _, _, _, _, _, _, _, listed, _⟩ :=
            deleteForm_of_parseStatement accepted isDelete
          exact ⟨parsed, tree, accepted, isDelete, length, behind.tail,
            (listed tables multi _).mpr rfl⟩
      · cases found
  · cases found

end SqlDml
