import SqlDml.Proofs.Canonical.Readable
import SqlDml.Proofs.Canonical.Statements

/-!
Contract: changes are read back from canonical text.

Owns:
- assignments and rows;
- that the rules for inserts, updates and deletes read each of them from its signs, part by part;
- that a statement is read where its parts are, just where it has the levels that it takes.

Does not own: which numbers the parameter markers get.
-/

namespace SqlDml

open Rule

variable {settings : Settings} {levels : Nat} {rest : List Sign}

/-! ### Tokens between the parts -/

namespace TokenKind

/-- Whether the columns or the source of an insert can begin with the token. -/
def beginsSource : TokenKind → Bool
  | .keyword .VALUES | .keyword .SET => true
  | kind => kind.startsQuery

theorem endsFilter_of_order {kind : TokenKind} (ends : kind.endsOrder = true) :
    kind.endsFilter = true :=
  endsFilter_of_groups (endsGroups_of_term (endsTerm_of_body (endsBody_of_order ends)))

end TokenKind

theorem InsertSource.begins_signs (source : InsertSource) (rest : List Sign) :
    (kindAt (source.signs settings ++ rest) 0).beginsSource = true := by
  cases source with
  | values rows => rfl
  | set assignments => rfl
  | select query =>
      have starts := @Query.begins_signs settings query rest
      rw [signs]
      unfold TokenKind.beginsSource
      split
      · rfl
      · rfl
      · exact starts

/-- The columns of an insert and its source begin with neither a dot nor `PARTITION`. -/
theorem begins_columns_source (columns : List Ident) (source : InsertSource) (rest : List Sign) :
    (kindAt (Ident.optionalSigns settings [] columns ++ (source.signs settings ++ rest))
      0).beginsSource = true := by
  cases columns with
  | nil => exact source.begins_signs rest
  | cons column columns => rfl

theorem TableRef.begins_listSigns {refs : List TableRef} (nonempty : refs ≠ [])
    (all : ∀ ref ∈ refs, (Node.ref ref).AllLegible settings) (rest : List Sign) :
    (kindAt (TableRef.listSigns settings refs ++ rest) 0).beginsTable = true := by
  cases refs with
  | nil => exact absurd rfl nonempty
  | cons ref refs =>
      rw [listSigns, List.map_cons, Sign.commaList, List.append_assoc]
      exact begins_signs (all ref List.mem_cons_self) _

theorem TableName.kindAt_signs (name : TableName) (rest : List Sign) :
    kindAt (name.signs settings ++ rest) 0 = name.front.kind settings := by
  obtain ⟨schema, table, place⟩ := name
  cases schema <;> rfl

/-- Each clause that an update or a delete ends with stands in front of what any clause behind it
begins with. -/
theorem ends_tail {filter : Option Expr} {orderBy : List OrderingTerm} {limit : Option LimitClause}
    (ends : (kindAt rest 0).endsQuery = true) :
    (kindAt (LimitClause.signs settings limit ++ rest) 0).endsOrder = true ∧
      (kindAt (OrderingTerm.listSigns settings [.ORDER, .BY] orderBy ++
        (LimitClause.signs settings limit ++ rest)) 0).endsFilter = true ∧
      (kindAt (Expr.optionalSigns settings [Sign.word .WHERE] filter ++
        (OrderingTerm.listSigns settings [.ORDER, .BY] orderBy ++
          (LimitClause.signs settings limit ++ rest))) 0).endsSources = true := by
  have behindOrder : (kindAt (LimitClause.signs settings limit ++ rest) 0).endsOrder = true :=
    ends_optional (fun sign first => LimitClause.head?_signs sign first ▸ rfl)
      (TokenKind.endsOrder_of_limit (TokenKind.endsLimit_of_query ends))
  have behindFilter : (kindAt (OrderingTerm.listSigns settings [.ORDER, .BY] orderBy ++
      (LimitClause.signs settings limit ++ rest)) 0).endsFilter = true :=
    ends_optional (fun sign first => head?_optionalList sign first ▸ rfl)
      (TokenKind.endsFilter_of_order behindOrder)
  exact ⟨behindOrder, behindFilter, ends_optional (fun sign first =>
    head?_optionalSigns sign first ▸ rfl) (TokenKind.endsSources_of_filter behindFilter)⟩

/-! ### Assignments and rows -/

/-- The rules read an assignment from its signs, if its levels fit under the nesting limit. -/
def Assignment.ReadBy (settings : Settings) (inner : InnerRules) (fits : Prop)
    (assignment : Assignment) : Prop :=
  assignment.column.Named settings ∧ assignment.value.ReadBy settings inner fits

/-- Assignments are read with the levels that they take. -/
theorem Assignment.readBy_within {assignments : List Assignment}
    (legible : ∀ child ∈ assignments.flatMap Assignment.children, child.AllLegible settings)
    (read : ∀ child ∈ assignments.flatMap Assignment.children, child.ReadWithin settings) :
    ∀ assignment ∈ assignments,
      assignment.ReadBy settings (innerAt levels) (assignment.levels ≤ levels) := by
  simp only [List.forall_mem_flatMap] at legible read
  intro assignment member
  have column := legible assignment member (.column assignment.column) (by simp [children])
  have all := legible assignment member (.expr assignment.value) (by simp [children])
  have value : assignment.value.ReadWithin settings :=
    read assignment member (.expr assignment.value) (by simp [children])
  exact ⟨column.self.spelt, value.readBy all levels⟩

namespace Rule.TakesIf

variable {inner : InnerRules} {fits : Prop}

theorem assignment {tree : Assignment} (read : tree.ReadBy settings inner fits)
    (ends : (kindAt rest 0).endsExpr = true) :
    (Rule.assignment inner).TakesIf fits settings.pipesAsConcat (tree.signs settings ++ rest) rest
      tree := by
  obtain ⟨column, value, place⟩ := tree
  obtain ⟨named, read⟩ := read
  unfold Rule.assignment Assignment.signs
  simp only [List.append_assoc, List.cons_append]
  refine (Takes.columnRef named (by simp)).bind fun _ _ => .expect rfl fun _ => ?_
  exact (read.alone ends).bind_takes fun _ _ => .pure

variable [inner.Lawful]

theorem assignments {trees : List Assignment} {each : Assignment → Prop} (nonempty : trees ≠ [])
    (reads : ∀ tree ∈ trees, tree.ReadBy settings inner (each tree))
    (ends : (kindAt rest 0).endsSources = true) :
    (Rule.assignments inner).TakesIf (∀ tree ∈ trees, each tree) settings.pipesAsConcat
      (Assignment.listSigns settings trees ++ rest) rest trees := by
  refine commaSeparated nonempty (ne_of_holds ends rfl) fun tree member tail behind => ?_
  rcases behind with rfl | ⟨_, _, _, rfl⟩
  · exact assignment (reads tree member) (TokenKind.endsExpr_of_sources ends)
  · exact assignment (reads tree member) rfl

theorem valueRow {row : List Expr} {each : Expr → Prop}
    (reads : ∀ item ∈ row, item.ReadBy settings inner (each item)) :
    (Rule.valueRow inner).TakesIf (∀ item ∈ row, each item) settings.pipesAsConcat
      (Expr.rowSigns settings row ++ rest) rest row := by
  unfold Rule.valueRow Expr.rowSigns Sign.parens
  simp only [List.append_assoc, List.cons_append, List.nil_append]
  refine .expect rfl fun _ => ?_
  cases row with
  | nil => exact of_iff (.eat rfl .pure) (by simp)
  | cons item items =>
      have nonempty : item :: items ≠ [] := List.cons_ne_nil _ _
      refine .eat_none (ne_of_holds (begins_listSigns nonempty reads _) rfl) ?_
      refine (exprs nonempty reads rfl (by simp)).bind_takes fun _ _ => ?_
      exact .expect rfl fun _ => .pure

end Rule.TakesIf

/-! ### Inserts -/

/-- What the rules read the source of an insert from, if they have the levels that it takes. -/
def InsertSource.ReadAt (settings : Settings) (levels : Nat) : InsertSource → Prop
  | .values rows =>
      ∀ row ∈ rows, ∀ item ∈ row, item.ReadBy settings (innerAt levels) (item.levels + 1 ≤ levels)
  | .select query => query.ReadBy settings (innerAt levels) (query.levels + 1 ≤ levels)
  | .set assignments => ∀ assignment ∈ assignments,
      assignment.ReadBy settings (innerAt levels) (assignment.levels ≤ levels)

namespace Rule.Takes

variable {concat : Bool} {fits : Prop}

theorem insertKind (kind : InsertKind) :
    Rule.insertKind.Takes concat (Sign.word kind.keyword :: rest) rest kind := by
  unfold Rule.insertKind
  cases kind with
  | insert => exact .eat_none (by simp [InsertKind.keyword]) (.expect rfl fun _ => .pure)
  | replace => exact .eat rfl .pure

theorem insertPriority {kind : InsertKind} {priority : Option InsertPriority}
    (shaped : kind = .replace → priority ≠ some .highPriority)
    (none : insertPriority? kind (kindAt rest 0) = none) :
    (Rule.insertPriority kind).Takes concat (InsertPriority.signs priority ++ rest) rest
      priority := by
  unfold Rule.insertPriority
  refine .peek ?_
  cases priority with
  | none =>
      rw [InsertPriority.signs, List.nil_append, none]
      exact .pure
  | some priority =>
      have known : insertPriority? kind (.keyword priority.keyword) = some priority := by
        cases priority with
        | lowPriority => rfl
        | delayed => rfl
        | highPriority =>
            cases kind with
            | insert => rfl
            | replace => exact absurd rfl (shaped rfl)
      simp only [InsertPriority.signs, List.singleton_append, kindAt_zero, Sign.word_kind, known]
      exact .advance fun _ _ => .pure

/-- A word that only inserts take is there or left out. -/
theorem eatInsertWord {β : Type} [Labelled β] {kind : InsertKind} {keyword : Keyword} {wanted : Bool}
    {next : Bool → Rule β} {after : List Sign} {whole : β}
    (shaped : kind = .replace → wanted = false) (missing : kindAt rest 0 ≠ .keyword keyword)
    (second : (next wanted).TakesIf fits concat rest after whole) :
    (Rule.eatInsertWord kind keyword >>= next).TakesIf fits concat (Sign.flag wanted keyword ++ rest)
      after whole := by
  unfold Rule.eatInsertWord
  cases kind with
  | insert =>
      rw [if_pos rfl]
      cases wanted with
      | false => exact .eat_none missing second
      | true => exact .eat rfl second
  | replace =>
      cases shaped rfl
      have skipped : (Pure.pure false : Rule Bool).Takes concat rest rest false := .pure
      exact skipped.step second

theorem insertColumns {columns : List Ident} (plain : ∀ column ∈ columns, column.Plain settings)
    (opens : kindAt rest 0 = .punct .leftParen → (kindAt rest 1).startsQuery = true) :
    Rule.insertColumns.Takes concat (Ident.optionalSigns settings [] columns ++ rest) rest
      columns := by
  unfold Rule.insertColumns
  refine .nextIs _ ?_
  cases columns with
  | nil =>
      simp only [Ident.optionalSigns, List.isEmpty_nil, if_true, List.nil_append]
      split
      · next paren =>
          refine .peekAhead 1 ?_
          rw [opens (of_decide_eq_true paren), if_pos rfl]
          exact .pure
      · exact .pure
  | cons column columns =>
      have listed : Ident.optionalSigns settings [] (column :: columns) =
          Ident.listSigns settings (column :: columns) := rfl
      have isName := (plain column List.mem_cons_self).isName
      have noQuery := TokenKind.not_startsQuery_of_isName isName
      rw [listed, if_pos (by simp [Ident.listSigns, Sign.parens])]
      refine .peekAhead 1 ?_
      have front : kindAt (Ident.listSigns settings (column :: columns) ++ rest) 1 =
          column.kind settings := rfl
      rw [front, noQuery]
      exact identsInParensOrNone plain

end Rule.Takes

namespace Rule.TakesIf

theorem insertRows {source : InsertSource} (notSet : ∀ assignments, source ≠ .set assignments)
    (some_ : ∀ rows, source = .values rows → rows ≠ []) (read : source.ReadAt settings levels)
    (ends : (kindAt rest 0).endsQuery = true)
    (noTest : ∀ query, source = .select query → Untested query.isOpen rest) :
    (Rule.insertRows (innerAt levels)).TakesIf (source.levels ≤ levels) settings.pipesAsConcat
      (source.signs settings ++ rest) rest source := by
  unfold Rule.insertRows
  refine .peek ?_
  cases source with
  | values rows =>
      have row : ∀ row ∈ rows, ∀ tail, (Rule.valueRow (innerAt levels)).TakesIf
          (Expr.itemLevels row ≤ levels) settings.pipesAsConcat (Expr.rowSigns settings row ++ tail)
          tail row :=
        fun row member tail => (valueRow (read row member)).of_iff Expr.itemLevels_le.symm
      have listed : (Rule.commaSeparated (Rule.valueRow (innerAt levels))).TakesIf
          (∀ row ∈ rows, Expr.itemLevels row ≤ levels) settings.pipesAsConcat
          (Sign.commaList (rows.map (Expr.rowSigns settings)) ++ rest) rest rows :=
        commaSeparated (some_ rows rfl) (ne_of_holds ends rfl) fun each member tail _ =>
          row each member tail
      exact .advance fun _ _ => (listed.bind_takes fun _ _ => .pure).of_iff mostLevels_le.symm
  | select query =>
      have read : query.ReadBy settings (innerAt levels) (query.levels + 1 ≤ levels) := read
      have starts := @Query.begins_signs settings query rest
      rw [InsertSource.signs]
      generalize kindAt (query.signs settings ++ rest) 0 = kind at starts
      split
      · cases starts
      · cases starts
      · rw [if_pos starts]
        exact (read ends (noTest query rfl)).bind_takes fun _ _ => .pure
  | set assignments => exact absurd rfl (notSet assignments)

/-- The columns of an insert and the source of its rows. -/
theorem insertSource {tree : Insert} (filled : tree.Filled)
    (plain : ∀ column ∈ tree.columns, column.Plain settings)
    (read : tree.source.ReadAt settings levels) (ends : (kindAt rest 0).endsQuery = true)
    (noTest : ∀ query, tree.source = .select query → Untested query.isOpen rest) :
    (Rule.insertSource (innerAt levels)).TakesIf (tree.source.levels ≤ levels)
      settings.pipesAsConcat
      (Ident.optionalSigns settings [] tree.columns ++ (tree.source.signs settings ++ rest)) rest
      (tree.columns, tree.source) := by
  obtain ⟨kind, priority, ignore, table, partitions, columns, source, onDuplicate, span⟩ := tree
  have rows : (∀ assignments, source ≠ .set assignments) →
      (kindAt (source.signs settings ++ rest) 0 = .punct .leftParen →
        (kindAt (source.signs settings ++ rest) 1).startsQuery = true) →
      kindAt (source.signs settings ++ rest) 0 ≠ .keyword .SET →
      (Rule.insertSource (innerAt levels)).TakesIf (source.levels ≤ levels) settings.pipesAsConcat
        (Ident.optionalSigns settings [] columns ++ (source.signs settings ++ rest)) rest
        (columns, source) := by
    intro notSet opens noSet
    have noWord : kindAt (Ident.optionalSigns settings [] columns ++
        (source.signs settings ++ rest)) 0 ≠ .keyword .SET := by
      cases columns with
      | nil => exact noSet
      | cons column columns => simp [Ident.optionalSigns, Ident.listSigns, Sign.parens]
    unfold Rule.insertSource
    refine .eat_none noWord ((Takes.insertColumns plain opens).bind fun _ _ => ?_)
    refine (insertRows notSet ?_ read ends noTest).bind_takes fun _ _ => .pure
    rintro rows rfl
    exact filled
  cases source with
  | values listed => exact rows (by simp) (by simp [InsertSource.signs]) (by simp [InsertSource.signs])
  | select query =>
      refine rows (by simp) (fun opens => Query.opens_signs opens) ?_
      exact ne_of_holds (query.begins_signs rest) rfl
  | set assigned =>
      obtain ⟨nonempty, none⟩ := filled
      obtain rfl : columns = [] := none
      unfold Rule.insertSource
      have behind := TokenKind.endsSources_of_filter (TokenKind.endsFilter_of_order
        (TokenKind.endsOrder_of_limit (TokenKind.endsLimit_of_query ends)))
      have listed := assignments nonempty read behind
      exact .eat rfl ((listed.bind_takes fun _ _ => .pure).of_iff mostLevels_le.symm)

theorem onDuplicate {inner : InnerRules} [inner.Lawful] {kind : InsertKind}
    {trees : List Assignment} {each : Assignment → Prop} (shaped : kind = .replace → trees = [])
    (reads : ∀ tree ∈ trees, tree.ReadBy settings inner (each tree))
    (ends : (kindAt rest 0).endsQuery = true) (noOn : kindAt rest 0 ≠ .keyword .ON) :
    (Rule.onDuplicate inner kind).TakesIf (∀ tree ∈ trees, each tree) settings.pipesAsConcat
      (Assignment.duplicateSigns settings trees ++ rest) rest trees := by
  unfold Rule.onDuplicate
  cases trees with
  | nil =>
      have omitted : kind = .replace → false = false := fun _ => rfl
      exact of_iff (Takes.eatInsertWord omitted noOn .pure) (by simp)
  | cons tree trees =>
      have inserts : kind = .replace → true = false := fun same => by cases shaped same
      have behind := TokenKind.endsSources_of_filter (TokenKind.endsFilter_of_order
        (TokenKind.endsOrder_of_limit (TokenKind.endsLimit_of_query ends)))
      refine Takes.eatInsertWord inserts (by simp) ?_
      refine .expect rfl fun _ => .expect rfl fun _ => .expect rfl fun _ => ?_
      exact assignments (List.cons_ne_nil _ _) reads behind

theorem insert {tree : Insert} (shaped : tree.Shaped) (filled : tree.Filled)
    (spelt : (Statement.insert tree).Spelt settings) (named : tree.table.Named settings)
    (read : tree.source.ReadAt settings levels)
    (reads : ∀ assignment ∈ tree.onDuplicate,
      assignment.ReadBy settings (innerAt levels) (assignment.levels ≤ levels))
    (ends : (kindAt rest 0).endsQuery = true) (noOn : kindAt rest 0 ≠ .keyword .ON) :
    (Rule.insert (innerAt levels)).TakesIf (tree.source.levels ≤ levels ∧
      ∀ assignment ∈ tree.onDuplicate, assignment.levels ≤ levels) settings.pipesAsConcat
      (tree.signs settings ++ rest) rest tree := by
  have noTest : ∀ query, tree.source = .select query →
      Untested query.isOpen (Assignment.duplicateSigns settings tree.onDuplicate ++ rest) := by
    intro query source
    unfold Insert.Filled at filled
    rw [source] at filled
    cases duplicates : tree.onDuplicate with
    | nil => exact .of_ne noOn
    | cons first others => exact .of_closed (filled (by simp [duplicates]))
  have sourced := fun ends => insertSource filled spelt.2 read ends noTest
  obtain ⟨kind, priority, ignore, table, parts, columns, source, duplicates, place⟩ := tree
  have behindSource : (kindAt (Assignment.duplicateSigns settings duplicates ++ rest)
      0).endsQuery = true :=
    ends_optional (fun sign first => head?_optionalList sign first ▸ rfl) ends
  have begins := @begins_columns_source settings columns source
    (Assignment.duplicateSigns settings duplicates ++ rest)
  have noPriority : insertPriority? kind (kindAt (Sign.flag ignore .IGNORE ++ Sign.word .INTO ::
      (table.signs settings ++ (Ident.optionalSigns settings [Sign.word .PARTITION] parts ++
        (Ident.optionalSigns settings [] columns ++ (source.signs settings ++
          (Assignment.duplicateSigns settings duplicates ++ rest)))))) 0) = none := by
    cases ignore <;> rfl
  have noDot : kindAt (Ident.optionalSigns settings [Sign.word .PARTITION] parts ++
      (Ident.optionalSigns settings [] columns ++ (source.signs settings ++
        (Assignment.duplicateSigns settings duplicates ++ rest)))) 0 ≠ .punct .dot := by
    cases parts with
    | nil => exact ne_of_holds begins rfl
    | cons part parts => simp [Ident.optionalSigns]
  unfold Rule.insert Insert.signs
  simp only [List.cons_append, List.append_assoc]
  refine .currentSpan fun start => (Takes.insertKind kind).step ?_
  refine (Takes.insertPriority (fun same => (shaped same).2.1) noPriority).step ?_
  refine Takes.eatInsertWord (fun same => (shaped same).1) (by simp) (.eat rfl ?_)
  refine (Takes.tableName named noDot).bind fun _ _ => ?_
  refine (Takes.partitions spelt.1 (ne_of_holds begins rfl)).bind fun _ _ => ?_
  refine (sourced behindSource).bind fun both same => ?_
  obtain ⟨found, rows⟩ := both
  have listed : Alike .plain (columns, source).1 (found, rows).1 := .fst
  have given : Alike .plain (columns, source).2 (found, rows).2 := .snd
  have listed : Alike .plain columns found := listed
  have given : Alike .plain source rows := given
  refine (onDuplicate (fun same => (shaped same).2.2) reads ends noOn).bind_takes fun _ _ => ?_
  exact .previousSpan fun stop => .pure

end Rule.TakesIf

/-! ### Updates -/

namespace Rule.Takes

variable {concat : Bool}

theorem updateOptions {lowPriority ignore : Bool} (noPriority : kindAt rest 0 ≠ .keyword .LOW_PRIORITY)
    (noIgnore : kindAt rest 0 ≠ .keyword .IGNORE) :
    Rule.updateOptions.Takes concat
      (Sign.flag lowPriority .LOW_PRIORITY ++ (Sign.flag ignore .IGNORE ++ rest)) rest
      (lowPriority, ignore) := by
  have stops : ∀ options, (whileSome nextUpdateOption options).Takes concat rest rest options := by
    intro options
    refine .whileSome_stop ?_ (.plain_self _)
    unfold nextUpdateOption
    exact .eat_none noPriority (.eat_none noIgnore .pure)
  have ignored : (whileSome nextUpdateOption (lowPriority, false)).Takes concat
      (Sign.flag ignore .IGNORE ++ rest) rest (lowPriority, ignore) := by
    cases ignore with
    | false => exact stops _
    | true =>
        have taken : (nextUpdateOption (lowPriority, false)).Takes concat
            (Sign.word .IGNORE :: rest) rest (some (lowPriority, true)) :=
          .eat_none (by simp) (.eat rfl .pure)
        exact .whileSome_more taken fun next same => same.eq ▸ stops _
  rw [updateOptions_eq]
  cases lowPriority with
  | false => exact ignored
  | true =>
      have taken : (nextUpdateOption (false, false)).Takes concat
          (Sign.word .LOW_PRIORITY :: (Sign.flag ignore .IGNORE ++ rest))
          (Sign.flag ignore .IGNORE ++ rest) (some (true, false)) :=
        .eat rfl .pure
      exact .whileSome_more taken fun next same => same.eq ▸ ignored

/-- A limit without an offset. -/
theorem limitCount {limit : Option LimitClause} (shaped : ∀ found ∈ limit, found.CountsOnly)
    (spelt : ∀ found ∈ limit, found.count.Spelt settings)
    (noLimit : kindAt rest 0 ≠ .keyword .LIMIT) :
    (Rule.limitClause false).Takes concat (LimitClause.signs settings limit ++ rest) rest limit := by
  unfold Rule.limitClause
  cases limit with
  | none =>
      refine .nextIs_other noLimit ?_
      exact .pure
  | some limit =>
      obtain ⟨count, offset, place⟩ := limit
      obtain ⟨numbers, counts⟩ := shaped _ rfl
      obtain rfl : offset = none := counts
      simp only [LimitClause.signs, Expr.optionalSigns, List.append_nil, List.cons_append]
      refine .nextIs_same rfl (.expect rfl fun start => ?_)
      rw [if_neg Bool.false_ne_true]
      have counted : count.Spelt settings := spelt _ rfl
      refine (limitOperand numbers.1 counted).bind fun value same => ?_
      have same : Alike .plain count value := same
      change (Rule.previousSpan >>= fun stop =>
        Pure.pure (some (LimitClause.mk value none (start.merge stop)))).Takes _ _ _ _
      exact .previousSpan fun stop => .pure

end Rule.Takes

theorem Rule.TakesIf.update {inner : InnerRules} [inner.Lawful] {tree : Update}
    {ofRef : TableRef → Prop} {each : Assignment → Prop} {ofExpr : Expr → Prop}
    (shaped : tree.Shaped) (filled : tree.Filled)
    (refs : ∀ ref ∈ tree.tables, ref.Reads settings inner (ofRef ref))
    (all : ∀ ref ∈ tree.tables, (Node.ref ref).AllLegible settings)
    (assigned : ∀ assignment ∈ tree.assignments,
      assignment.ReadBy settings inner (each assignment))
    (filters : ∀ filter ∈ tree.filter, filter.ReadBy settings inner (ofExpr filter))
    (terms : ∀ term ∈ tree.orderBy, term.expr.ReadBy settings inner (ofExpr term.expr))
    (counts : ∀ found ∈ tree.limit, found.count.Spelt settings)
    (ends : (kindAt rest 0).endsQuery = true) :
    (Rule.update inner).TakesIf ((∀ ref ∈ tree.tables, ofRef ref) ∧
      (∀ assignment ∈ tree.assignments, each assignment) ∧
        (∀ filter ∈ tree.filter, ofExpr filter) ∧ ∀ term ∈ tree.orderBy, ofExpr term.expr)
      settings.pipesAsConcat (tree.signs settings ++ rest) rest tree := by
  obtain ⟨someTables, someAssignments⟩ := filled
  have begins := TableRef.begins_listSigns someTables all
  obtain ⟨lowPriority, ignore, tables, values, filter, orderBy, limit, place⟩ := tree
  obtain ⟨behindOrder, behindFilter, behindValues⟩ :=
    @ends_tail settings rest filter orderBy limit ends
  unfold Rule.update Update.signs tailSigns
  simp only [List.cons_append, List.append_assoc]
  refine .expect rfl fun start => ?_
  refine (Takes.updateOptions (ne_of_holds (begins _) rfl) (ne_of_holds (begins _) rfl)).step ?_
  refine (TableRef.Reads.list someTables refs all rfl (.of_ne (by simp))).bind fun _ _ => ?_
  refine .expect rfl fun _ => (assignments someAssignments assigned behindValues).bind fun _ _ => ?_
  refine (whereClause filters behindFilter).bind fun _ _ => ?_
  refine (orderByClause terms behindOrder).bind_takes fun _ _ => ?_
  refine (Takes.limitCount shaped counts (ne_of_holds ends rfl)).bind fun _ _ => ?_
  exact .previousSpan fun stop => .pure

/-! ### Deletes -/

namespace Rule.Takes

variable {concat : Bool}

/-- An option of a delete that may be left out, in front of the others. -/
theorem deleteFlag {before after : List Sign} {whole : DeleteOptions} (keyword : Keyword)
    (change : Bool → DeleteOptions) {wanted : Bool}
    (known : addDeleteOption (change false) (.keyword keyword) = some (change true))
    (behind : (whileSome nextDeleteOption (change wanted)).Takes concat before after whole) :
    (whileSome nextDeleteOption (change false)).Takes concat (Sign.flag wanted keyword ++ before)
      after whole := by
  cases wanted with
  | false => exact behind
  | true =>
      have taken : (nextDeleteOption (change false)).Takes concat (Sign.word keyword :: before)
          before (some (change true)) := by
        unfold nextDeleteOption
        refine .peek ?_
        rw [kindAt_zero, Sign.word_kind, known]
        exact .advance fun _ _ => .pure
      exact .whileSome_more taken fun next same => same.eq ▸ behind

theorem deleteOptions {lowPriority quick ignore : Bool} (ends : (kindAt rest 0).NoDeleteOption) :
    Rule.deleteOptions.Takes concat (Sign.flag lowPriority .LOW_PRIORITY ++
      (Sign.flag quick .QUICK ++ (Sign.flag ignore .IGNORE ++ rest))) rest
      (DeleteOptions.mk lowPriority quick ignore) := by
  have stops : (whileSome nextDeleteOption ⟨lowPriority, quick, ignore⟩).Takes concat rest rest
      (DeleteOptions.mk lowPriority quick ignore) := by
    refine .whileSome_stop ?_ (.plain_self _)
    unfold nextDeleteOption
    refine .peek ?_
    rw [ends]
    exact .pure
  rw [deleteOptions_eq]
  exact deleteFlag .LOW_PRIORITY (DeleteOptions.mk · false false) rfl <|
    deleteFlag .QUICK (DeleteOptions.mk lowPriority · false) rfl <|
      deleteFlag .IGNORE (DeleteOptions.mk lowPriority quick ·) rfl stops

theorem deleteTarget {target : TableName} (named : target.Named settings)
    (noDot : kindAt rest 0 ≠ .punct .dot) :
    Rule.deleteTarget.Takes concat (target.signs settings ++ rest) rest target := by
  unfold Rule.deleteTarget
  refine (tableName named noDot).bind fun _ _ => .nextIs_other noDot ?_
  exact .pure

theorem deleteTargets {targets : List TableName} (nonempty : targets ≠ [])
    (named : ∀ target ∈ targets, target.Named settings) (noDot : kindAt rest 0 ≠ .punct .dot)
    (noComma : kindAt rest 0 ≠ .punct .comma) :
    Rule.deleteTargets.Takes concat (TableName.listSigns settings targets ++ rest) rest targets := by
  refine commaSeparated nonempty noComma fun target member tail behind => ?_
  rcases behind with rfl | ⟨_, _, _, rfl⟩
  · exact deleteTarget (named target member) noDot
  · exact deleteTarget (named target member) (by simp)

/-- Behind the name of a single table stands nothing that more targets begin with. -/
theorem behind_name {parts : List Ident} {label : Option Ident}
    (ends : (kindAt rest 0).endsSources = true) {kind : TokenKind}
    (other : kind ≠ .keyword .PARTITION) (noAs : kind ≠ .keyword .AS)
    (outside : kind.endsSources = false) :
    kindAt (Ident.optionalSigns settings [Sign.word .PARTITION] parts ++
      (Ident.aliasSigns settings label ++ rest)) 0 ≠ kind := by
  cases parts with
  | cons part parts => exact fun same => other same.symm
  | nil =>
      cases label with
      | some ident => exact fun same => noAs same.symm
      | none => exact ne_of_holds ends outside

theorem deleteTable {table : NamedTable} (named : table.name.Named settings)
    (spelt : table.Spelt settings) (noHints : table.indexHints = [])
    (ends : (kindAt rest 0).endsSources = true) :
    Rule.deleteTable.Takes concat (table.signs settings ++ rest) rest table := by
  obtain ⟨name, parts, label, hints, place⟩ := table
  obtain rfl : hints = [] := noHints
  obtain ⟨partsPlain, labelPlain, _⟩ := spelt
  have noPartition : kindAt (Ident.aliasSigns settings label ++ rest) 0 ≠ .keyword .PARTITION := by
    cases label with
    | none => exact ne_of_holds ends rfl
    | some ident => simp [Ident.aliasSigns]
  have noName := TokenKind.not_isName_of_endsExpr (TokenKind.endsExpr_of_sources ends)
  rw [NamedTable.signs_mk]
  simp only [List.append_assoc, List.flatMap_nil, List.nil_append]
  unfold Rule.deleteTable
  refine (tableName named (behind_name ends (by simp) (by simp) rfl)).bind fun first alike => ?_
  refine (partitions partsPlain noPartition).bind fun found same => ?_
  refine (aliasName labelPlain (ne_of_holds ends rfl) noName).bind fun second also => ?_
  have alike : Alike .plain name first := alike
  have same : Alike .plain parts found := same
  have also : Alike .plain label second := also
  have closing : ∀ (found : List Ident), Alike .plain parts found →
      (Rule.previousSpan >>= fun last =>
        Pure.pure (NamedTable.mk first found second [] (first.span.merge last))).Takes concat rest rest
        (NamedTable.mk name parts label [] place) :=
    fun found same => .previousSpan fun last => .pure
  rw [← same.isEmpty_eq]
  cases parts with
  | nil =>
      have none : Rule.partitions.Takes concat rest rest ([] : List Ident) :=
        @partitions settings concat rest [] (List.forall_mem_nil _) (ne_of_holds ends rfl)
      exact none.bind closing
  | cons part parts =>
      have given : (Pure.pure found : Rule (List Ident)).Takes concat rest rest (part :: parts) :=
        .pure
      exact given.bind closing

end Rule.Takes

/-- What the rules read the source of a delete from, if they have the levels that it takes. -/
def DeleteSource.ReadAt (settings : Settings) (levels : Nat) : DeleteSource → Prop
  | .single table => table.name.Named settings ∧ table.Spelt settings
  | .multi tables _ => ∀ ref ∈ tables,
      (Node.ref ref).AllLegible settings ∧ ref.Reads settings (innerAt levels) (ref.levels ≤ levels)

theorem TableName.kindAt_listSigns {targets : List TableName} (nonempty : targets ≠ [])
    (rest : List Sign) : ∃ target ∈ targets.head?,
      kindAt (TableName.listSigns settings targets ++ rest) 0 = target.front.kind settings := by
  cases targets with
  | nil => exact absurd rfl nonempty
  | cons target targets =>
      refine ⟨target, rfl, ?_⟩
      rw [listSigns, List.map_cons, Sign.commaList, List.append_assoc]
      exact target.kindAt_signs _

theorem TableName.Named.isName {name : TableName} (named : name.Named settings) :
    (name.front.kind settings).isName = true := by
  have begins := TableName.begins_signs named []
  rwa [name.kindAt_signs] at begins

/-- Behind the options of a delete stands no other one. -/
theorem Delete.Filled.noOption {tree : Delete} (filled : tree.Filled settings)
    (fits : tree.FitsSource) (rest : List Sign) :
    (kindAt (tree.source.signs settings tree.targets ++ rest) 0).NoDeleteOption := by
  obtain ⟨lowPriority, quick, ignore, targets, source, filter, orderBy, limit, place⟩ := tree
  cases source with
  | single table => exact fun options => rfl
  | multi tables afterUsing =>
      cases afterUsing with
      | true => exact fun options => rfl
      | false =>
          obtain ⟨target, first, kind⟩ := @TableName.kindAt_listSigns settings targets fits.1
            (Sign.word .FROM :: TableRef.listSigns settings tables ++ rest)
          simp only [DeleteSource.signs, List.append_assoc]
          rw [kind]
          exact filled.2 rfl target first

/-- A single table is not taken for the first of more targets. -/
theorem Rule.misses_deleteUsing {inner : InnerRules} [inner.Lawful] {concat : Bool} {fits : Prop}
    {table : NamedTable} (named : table.name.Named settings)
    (noHints : table.indexHints = []) (ends : (kindAt rest 0).endsSources = true) :
    (Rule.deleteUsing inner).MissesIf fits concat (table.signs settings ++ rest) := by
  obtain ⟨name, parts, label, hints, place⟩ := table
  obtain rfl : hints = [] := noHints
  have one := @Takes.deleteTargets settings (Ident.optionalSigns settings [Sign.word .PARTITION] parts ++
    (Ident.aliasSigns settings label ++ rest)) concat [name] (List.cons_ne_nil _ _)
    (by simpa using named) (Takes.behind_name ends (by simp) (by simp) rfl)
    (Takes.behind_name ends (by simp) (by simp) rfl)
  rw [NamedTable.signs_mk]
  simp only [TableName.listSigns, List.map_cons, List.map_nil, Sign.commaList, Sign.behindCommas,
    List.flatMap_nil, List.append_nil] at one
  simp only [List.append_assoc, List.flatMap_nil, List.nil_append]
  unfold Rule.deleteUsing
  exact one.bind_meets fun _ _ => MissesIf.bind (.expect (Takes.behind_name ends (by simp) (by simp) rfl))

namespace Rule.TakesIf

theorem deleteSource {tree : Delete} (fits : tree.FitsSource) (filled : tree.Filled settings)
    (named : ∀ target ∈ tree.targets, target.Named settings)
    (read : tree.source.ReadAt settings levels) (ends : (kindAt rest 0).endsSources = true)
    (noOn : kindAt rest 0 ≠ .keyword .ON) :
    (Rule.deleteSource (innerAt levels)).TakesIf (tree.source.levels ≤ levels)
      settings.pipesAsConcat
      (tree.source.signs settings tree.targets ++ rest) rest (tree.targets, tree.source) := by
  obtain ⟨lowPriority, quick, ignore, targets, source, filter, orderBy, limit, place⟩ := tree
  unfold Rule.deleteSource
  cases source with
  | single table =>
      obtain rfl : targets = [] := fits
      obtain ⟨name, spelt⟩ := read
      refine of_iff ?_ (iff_true_intro (Nat.zero_le levels)).symm
      refine .eat rfl (.attempt_none (misses_deleteUsing name filled ends) ?_)
      exact (Takes.deleteTable name spelt filled ends).bind fun _ _ => .pure
  | multi tables afterUsing =>
      have someTargets : targets ≠ [] := fits.1
      have someTables : tables ≠ [] := filled.1
      have refs : (Rule.tableRefs (innerAt levels)).TakesIf (TableRef.refLevels tables ≤ levels)
          settings.pipesAsConcat (TableRef.listSigns settings tables ++ rest) rest tables :=
        (TableRef.Reads.list someTables (fun ref member => (read ref member).2)
          (fun ref member => (read ref member).1) ends (.of_ne noOn)).of_iff
            TableRef.refLevels_le.symm
      cases afterUsing with
      | true =>
          have form : (Rule.deleteUsing (innerAt levels)).TakesIf
              (TableRef.refLevels tables ≤ levels) settings.pipesAsConcat
              (TableName.listSigns settings targets ++
                Sign.word .USING :: (TableRef.listSigns settings tables ++ rest)) rest
              (targets, DeleteSource.multi tables true) := by
            unfold Rule.deleteUsing
            refine (Takes.deleteTargets someTargets named (by simp) (by simp)).bind fun _ _ => ?_
            exact .expect rfl fun _ => refs.bind_takes fun _ _ => .pure
          simp only [DeleteSource.signs, List.cons_append, List.append_assoc]
          exact .eat rfl (form.attempted.bind_takes (forall_alike_some fun value alike => .pure))
      | false =>
          have noFrom : kindAt (TableName.listSigns settings targets ++
              Sign.word .FROM :: (TableRef.listSigns settings tables ++ rest)) 0 ≠
                .keyword .FROM := by
            obtain ⟨target, first, kind⟩ := TableName.kindAt_listSigns someTargets
              (Sign.word .FROM :: (TableRef.listSigns settings tables ++ rest))
            rw [kind]
            exact ne_of_holds (named target (List.mem_of_mem_head? first)).isName rfl
          simp only [DeleteSource.signs, List.cons_append, List.append_assoc]
          refine .eat_none noFrom ?_
          refine (Takes.deleteTargets someTargets named (by simp) (by simp)).bind fun _ _ => ?_
          exact .expect rfl fun _ => refs.bind_takes fun _ _ => .pure

/-- The order and the limit of a delete, where its source takes any. -/
theorem deleteTail {inner : InnerRules} [inner.Lawful] {each : Expr → Prop}
    {source found : DeleteSource} {orderBy : List OrderingTerm}
    {limit : Option LimitClause} (alike : Alike .plain source found)
    (fits : ∀ tables afterUsing, source = .multi tables afterUsing → orderBy = [] ∧ limit = none)
    (terms : ∀ term ∈ orderBy, term.expr.ReadBy settings inner (each term.expr))
    (shaped : ∀ found ∈ limit, found.CountsOnly)
    (counts : ∀ found ∈ limit, found.count.Spelt settings)
    (ends : (kindAt rest 0).endsQuery = true) :
    (Rule.deleteTail inner found).TakesIf (∀ term ∈ orderBy, each term.expr) settings.pipesAsConcat
      (OrderingTerm.listSigns settings [.ORDER, .BY] orderBy ++
        (LimitClause.signs settings limit ++ rest)) rest (orderBy, limit) := by
  obtain ⟨behindOrder, _⟩ := @ends_tail settings rest none orderBy limit ends
  cases source with
  | single table =>
      cases found with
      | multi tables afterUsing => cases alike.same
      | single table =>
          refine (orderByClause terms behindOrder).bind_takes fun _ _ => ?_
          exact (Takes.limitCount shaped counts (ne_of_holds ends rfl)).bind fun _ _ => .pure
  | multi tables afterUsing =>
      obtain ⟨rfl, rfl⟩ := fits _ _ rfl
      cases found with
      | single table => cases alike.same
      | multi tables afterUsing => exact of_iff .pure (by simp)

theorem delete {tree : Delete} {each : Expr → Prop} (shaped : tree.Shaped) (filled : tree.Filled settings)
    (named : ∀ target ∈ tree.targets, target.Named settings)
    (read : tree.source.ReadAt settings levels)
    (filters : ∀ filter ∈ tree.filter, filter.ReadBy settings (innerAt levels) (each filter))
    (terms : ∀ term ∈ tree.orderBy, term.expr.ReadBy settings (innerAt levels) (each term.expr))
    (counts : ∀ found ∈ tree.limit, found.count.Spelt settings)
    (ends : (kindAt rest 0).endsQuery = true) (noOn : kindAt rest 0 ≠ .keyword .ON) :
    (Rule.delete (innerAt levels)).TakesIf (tree.source.levels ≤ levels ∧
      (∀ filter ∈ tree.filter, each filter) ∧ ∀ term ∈ tree.orderBy, each term.expr)
      settings.pipesAsConcat (tree.signs settings ++ rest) rest tree := by
  obtain ⟨fits, counted⟩ := shaped
  have noOption := filled.noOption fits
  have sourced := fun rest => @deleteSource settings levels rest _ fits filled named read
  obtain ⟨lowPriority, quick, ignore, targets, source, filter, orderBy, limit, place⟩ := tree
  obtain ⟨behindOrder, behindFilter, behindSource⟩ :=
    @ends_tail settings rest filter orderBy limit ends
  have noTest : kindAt (Expr.optionalSigns settings [Sign.word .WHERE] filter ++
      (OrderingTerm.listSigns settings [.ORDER, .BY] orderBy ++
        (LimitClause.signs settings limit ++ rest))) 0 ≠ .keyword .ON := by
    let other : TokenKind → Bool := fun kind => decide (kind ≠ .keyword .ON)
    have limited : other (kindAt (LimitClause.signs settings limit ++ rest) 0) = true :=
      ends_optional (fun sign first => LimitClause.head?_signs sign first ▸ rfl)
        (decide_eq_true noOn)
    have ordered : other (kindAt (OrderingTerm.listSigns settings [.ORDER, .BY] orderBy ++
        (LimitClause.signs settings limit ++ rest)) 0) = true :=
      ends_optional (fun sign first => head?_optionalList sign first ▸ rfl) limited
    have filtered : other (kindAt (Expr.optionalSigns settings [Sign.word .WHERE] filter ++
        (OrderingTerm.listSigns settings [.ORDER, .BY] orderBy ++
          (LimitClause.signs settings limit ++ rest))) 0) = true :=
      ends_optional (fun sign first => head?_optionalSigns sign first ▸ rfl) ordered
    exact of_decide_eq_true filtered
  unfold Rule.delete Delete.signs tailSigns
  simp only [List.cons_append, List.append_assoc]
  refine .expect rfl fun start => (Takes.deleteOptions (noOption _)).step ?_
  refine (sourced _ behindSource noTest).bind fun both same => ?_
  obtain ⟨found, tables⟩ := both
  have listed : Alike .plain (targets, source).1 (found, tables).1 := .fst
  have given : Alike .plain (targets, source).2 (found, tables).2 := .snd
  have listed : Alike .plain targets found := listed
  have given : Alike .plain source tables := given
  refine (whereClause filters behindFilter).bind fun _ _ => ?_
  have only : ∀ tables afterUsing, source = .multi tables afterUsing →
      orderBy = [] ∧ limit = none := by
    rintro tables afterUsing rfl
    exact fits.2
  refine (deleteTail given only terms counted counts ends).bind_takes fun tail same => ?_
  obtain ⟨terms, count⟩ := tail
  have ordered : Alike .plain (orderBy, limit).1 (terms, count).1 := .fst
  have limited : Alike .plain (orderBy, limit).2 (terms, count).2 := .snd
  have ordered : Alike .plain orderBy terms := ordered
  have limited : Alike .plain limit count := limited
  exact .previousSpan fun stop => .pure

end Rule.TakesIf

/-! ### Statements -/

/-- The rules read the clauses that an update or a delete ends with, if they have the levels that the
clauses take. -/
structure TailAt (settings : Settings) (levels : Nat) (filter : Option Expr)
    (orderBy : List OrderingTerm) : Prop where
  filters : ∀ tree ∈ filter, tree.ReadBy settings (innerAt levels) (tree.levels + 1 ≤ levels)
  terms : ∀ term ∈ orderBy,
    term.expr.ReadBy settings (innerAt levels) (term.expr.levels + 1 ≤ levels)

/-- The rules read the parts of a statement from their signs, if they have the levels that the parts
take. -/
def Statement.PartsAt (settings : Settings) (levels : Nat) : Statement → Prop
  | .select query => query.ReadBy settings (innerAt levels) (query.levels + 1 ≤ levels)
  | .insert tree =>
      tree.source.ReadAt settings levels ∧ ∀ assignment ∈ tree.onDuplicate,
        assignment.ReadBy settings (innerAt levels) (assignment.levels ≤ levels)
  | .update tree =>
      (∀ ref ∈ tree.tables, ref.Reads settings (innerAt levels) (ref.levels ≤ levels)) ∧
        (∀ assignment ∈ tree.assignments,
          assignment.ReadBy settings (innerAt levels) (assignment.levels ≤ levels)) ∧
          TailAt settings levels tree.filter tree.orderBy
  | .delete tree =>
      tree.source.ReadAt settings levels ∧ TailAt settings levels tree.filter tree.orderBy

/-- The number of a limit is written as it stands. -/
theorem spelt_of_tail {filter : Option Expr} {orderBy : List OrderingTerm}
    {limit : Option LimitClause}
    (legible : ∀ child ∈ tailChildren filter orderBy limit, child.AllLegible settings) :
    ∀ found ∈ limit, found.count.Spelt settings := by
  simp only [tailChildren, LimitClause.children, List.forall_mem_append, List.forall_mem_flatMap,
    List.forall_mem_cons, Option.mem_toList] at legible
  exact fun found member => (legible.2 found member).1.self.spelt

/-- A statement is read where its parts are. -/
theorem Statement.takes {tree : Statement}
    (all : (Node.statement tree).AllLegible settings) (filled : tree.Filled settings)
    (parts : tree.PartsAt settings levels) :
    (statement (innerAt levels)).TakesIf (tree.levels ≤ levels) settings.pipesAsConcat
      (tree.signs settings) [] tree := by
  have legible : ∀ child ∈ tree.children, child.AllLegible settings :=
    fun child member => all.child member
  have spelt : tree.Spelt settings := all.self.spelt
  have shaped : tree.Shaped := all.self.shaped
  rw [← List.append_nil (tree.signs settings)]
  unfold statement
  refine .peek ?_
  cases tree with
  | select query =>
      have read : query.ReadBy settings (innerAt levels) (query.levels + 1 ≤ levels) := parts
      have starts := @Query.begins_signs settings query []
      rw [signs]
      generalize kindAt (query.signs settings ++ []) 0 = kind at starts
      split
      case h_5 =>
        rw [if_pos starts]
        exact (read rfl (.of_ne (by simp))).bind_takes fun _ _ => .pure
      all_goals cases starts
  | insert tree =>
      simp only [Statement.children, List.cons_append, List.forall_mem_cons] at legible
      have opens : kindAt (tree.signs settings ++ []) 0 = .keyword tree.kind.keyword := rfl
      have whole := (@TakesIf.insert settings levels [] tree shaped filled spelt
        legible.1.self.spelt parts.1 parts.2 rfl (by simp)).of_iff insert_levels_le.symm
      rw [signs, opens]
      cases kind : tree.kind with
      | insert => exact whole.bind_takes fun _ _ => .pure
      | replace => exact whole.bind_takes fun _ _ => .pure
  | update tree =>
      simp only [Statement.children, List.forall_mem_append, List.forall_mem_map] at legible
      obtain ⟨⟨refs, _⟩, tail⟩ := legible
      obtain ⟨tables, values, ⟨filters, terms⟩⟩ := parts
      have whole : (Rule.update (innerAt levels)).TakesIf _ settings.pipesAsConcat
          (tree.signs settings ++ []) [] tree :=
        .update shaped filled tables refs values filters terms (spelt_of_tail tail) rfl
      exact (whole.of_iff update_levels_le.symm).bind_takes fun _ _ => .pure
  | delete tree =>
      simp only [Statement.children, List.forall_mem_append, List.forall_mem_map] at legible
      obtain ⟨⟨named, _⟩, tail⟩ := legible
      obtain ⟨source, ⟨filters, terms⟩⟩ := parts
      have whole : (Rule.delete (innerAt levels)).TakesIf _ settings.pipesAsConcat
          (tree.signs settings ++ []) [] tree :=
        .delete shaped filled (fun target member => (named target member).self.spelt) source filters
          terms (spelt_of_tail tail) rfl (by simp)
      exact (whole.of_iff delete_levels_le.symm).bind_takes fun _ _ => .pure

/-! ### Levels of statements -/

theorem tailAt_within {filter : Option Expr} {orderBy : List OrderingTerm}
    {limit : Option LimitClause}
    (legible : ∀ child ∈ tailChildren filter orderBy limit, child.AllLegible settings)
    (read : ∀ child ∈ tailChildren filter orderBy limit, child.ReadWithin settings) :
    TailAt settings levels filter orderBy := by
  simp only [tailChildren, List.forall_mem_append, List.forall_mem_map, Option.mem_toList]
    at legible read
  refine ⟨fun tree member => ?_, fun term member => ?_⟩
  · have inside : tree.ReadWithin settings := read.1.1 tree member
    exact inside.readBy (legible.1.1 tree member) levels
  · have inside : term.expr.ReadWithin settings := read.1.2 term member
    exact inside.readBy (legible.1.2 term member) levels

/-- The parts of a statement are read from their signs. -/
theorem Statement.partsAt_within {tree : Statement} (all : (Node.statement tree).AllLegible settings)
    (plain : (Node.statement tree).All Node.Unquantified) : tree.PartsAt settings levels := by
  have legible : ∀ child ∈ tree.children, child.AllLegible settings :=
    fun child member => all.child member
  have read : ∀ child ∈ tree.children, child.ReadWithin settings := fun child member =>
    Node.readWithin (legible child member) ((Node.all_iff.mp plain).2 child member)
  cases tree with
  | select query =>
      have inside : query.ReadWithin settings := read (.query query) (by simp)
      exact @inside levels
  | insert tree =>
      simp only [Statement.children, List.cons_append, List.forall_mem_cons,
        List.forall_mem_append] at legible read
      obtain ⟨_, sources, assigned⟩ := legible
      obtain ⟨_, reads, values⟩ := read
      refine ⟨?_, Assignment.readBy_within assigned values⟩
      cases given : tree.source with
      | values rows =>
          simp only [given, InsertSource.children, List.forall_mem_flatMap,
            List.forall_mem_map] at sources reads
          intro row member item among
          have inside : item.ReadWithin settings := reads row member item among
          exact inside.readBy (sources row member item among) levels
      | select query =>
          have inside : query.ReadWithin settings :=
            reads (.query query) (by simp [given, InsertSource.children])
          exact @inside levels
      | set assignments =>
          rw [given] at sources reads
          exact Assignment.readBy_within sources reads
  | update tree =>
      simp only [Statement.children, List.forall_mem_append, List.forall_mem_map] at legible read
      obtain ⟨⟨refs, assigned⟩, tail⟩ := legible
      obtain ⟨⟨tables, values⟩, reads⟩ := read
      refine ⟨fun ref member => ?_, Assignment.readBy_within assigned values,
        tailAt_within tail reads⟩
      have inside : ref.ReadWithin settings := tables ref member
      exact inside.reads levels
  | delete tree =>
      simp only [Statement.children, List.forall_mem_append, List.forall_mem_map] at legible read
      obtain ⟨⟨named, sources⟩, tail⟩ := legible
      obtain ⟨⟨_, inSource⟩, reads⟩ := read
      refine ⟨?_, tailAt_within tail reads⟩
      cases given : tree.source with
      | single table =>
          have below := sources (.table table) (by simp [given, DeleteSource.children])
          have name : (Node.tableName table.name).AllLegible settings := below.child (by simp)
          exact ⟨name.self.spelt, below.self.spelt⟩
      | multi tables afterUsing =>
          simp only [given, DeleteSource.children, List.forall_mem_map] at sources inSource
          intro ref member
          have inside : ref.ReadWithin settings := inSource ref member
          exact ⟨sources ref member, inside.reads levels⟩

/-- The rules read a legible statement from its signs just where they have the levels that it takes, if
no comparison within it has an operand that looks like a quantifier with a query behind it. -/
theorem Statement.takes_within {tree : Statement} (all : (Node.statement tree).AllLegible settings)
    (plain : (Node.statement tree).All Node.Unquantified) (filled : tree.Filled settings) :
    (statement (innerAt levels)).TakesIf (tree.levels ≤ levels) settings.pipesAsConcat
      (tree.signs settings) [] tree :=
  tree.takes all filled (tree.partsAt_within all plain)

end SqlDml
