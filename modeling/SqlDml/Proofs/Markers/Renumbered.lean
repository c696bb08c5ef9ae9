import SqlDml.Proofs.Canonical.Takes
import SqlDml.Proofs.Markers.Trees
import SqlDml.Proofs.Trees.Erased
import SqlDml.Proofs.Trees.Relabelled

/-!
Contract: a tree is known from its form and the numbers of its markers.

Owns:
- trees whose markers are numbered anew from a list, in the order of canonical text;
- a tree without its numbers, numbered with its own markers, is the tree without its spans;
- trees that are alike and both numbered in order are equal but for their spans;
- a tree without a limit of two markers is numbered in order, and so is a tree like it.

Does not own: which trees are numbered in order.
-/

namespace SqlDml

/-- Numbers for parameter markers, taken from the front of a list. -/
abbrev Numbering : Type → Type := StateM (List Nat)

/-- The next number. -/
def nextNumber : Numbering Nat := fun numbers => (numbers.headD 0, numbers.tail)

mutual
/-- Numbers the markers of an expression anew, in the order of canonical text. -/
def Expr.renumber : Expr → Numbering Expr
  | .literal value span => return .literal value span
  | .column ref => return .column ref
  | .placeholder _ span => return .placeholder (← nextNumber) span
  | .default span => return .default span
  | .binary left op right span => return .binary (← left.renumber) op (← right.renumber) span
  | .unary op operand span => return .unary op (← operand.renumber) span
  | .is operand negated value span => return .is (← operand.renumber) negated value span
  | .quantified left op quantifier query span =>
      return .quantified (← left.renumber) op quantifier (← query.renumber) span
  | .between operand low high negated span =>
      return .between (← operand.renumber) (← low.renumber) (← high.renumber) negated span
  | .isIn operand set negated span =>
      return .isIn (← operand.renumber) (← set.renumber) negated span
  | .like operand pattern escape op negated span =>
      return .like (← operand.renumber) (← pattern.renumber) (← Expr.renumberOptional escape) op
        negated span
  | .soundsLike operand pattern span =>
      return .soundsLike (← operand.renumber) (← pattern.renumber) span
  | .case operand whens otherwise span =>
      return .case (← Expr.renumberOptional operand) (← Expr.renumberWhens whens)
        (← Expr.renumberOptional otherwise) span
  | .cast operand target span => return .cast (← operand.renumber) target span
  | .call name args distinct span => return .call name (← args.renumber) distinct span
  | .subquery query span => return .subquery (← query.renumber) span
  | .exists query span => return .exists (← query.renumber) span
  | .row items span => return .row (← Expr.renumberItems items) span
  | .collate operand collation span => return .collate (← operand.renumber) collation span

def Expr.renumberOptional : Option Expr → Numbering (Option Expr)
  | some tree => return some (← tree.renumber)
  | none => return none

def Expr.renumberItems : List Expr → Numbering (List Expr)
  | [] => return []
  | item :: items => return (← item.renumber) :: (← Expr.renumberItems items)

def Expr.renumberWhens : List (Expr × Expr) → Numbering (List (Expr × Expr))
  | [] => return []
  | (condition, result) :: whens =>
      return (← condition.renumber, ← result.renumber) :: (← Expr.renumberWhens whens)

def InSet.renumber : InSet → Numbering InSet
  | .list items => return .list (← Expr.renumberItems items)
  | .subquery query => return .subquery (← query.renumber)

def CallArgs.renumber : CallArgs → Numbering CallArgs
  | .star => return .star
  | .list items => return .list (← Expr.renumberItems items)

def Query.renumber : Query → Numbering Query
  | ⟨withClause, body, orderBy, limit, locking, span⟩ =>
      return ⟨← WithClause.renumberOptional withClause, ← body.renumber,
        ← OrderingTerm.renumberTerms orderBy, ← LimitClause.renumberOptional limit, locking, span⟩

def WithClause.renumberOptional : Option WithClause → Numbering (Option WithClause)
  | some ⟨recursive, tables, span⟩ =>
      return some ⟨recursive, ← CommonTable.renumberTables tables, span⟩
  | none => return none

def CommonTable.renumberTables : List CommonTable → Numbering (List CommonTable)
  | [] => return []
  | ⟨name, columns, query, span⟩ :: tables =>
      return ⟨name, columns, ← query.renumber, span⟩ :: (← CommonTable.renumberTables tables)

def QueryBody.renumber : QueryBody → Numbering QueryBody
  | ⟨first, compounds, span⟩ =>
      return ⟨← first.renumber, ← QueryTerm.renumberCompounds compounds, span⟩

def QueryTerm.renumber : QueryTerm → Numbering QueryTerm
  | .select core => return .select (← core.renumber)
  | .nested query => return .nested (← query.renumber)

def QueryTerm.renumberCompounds :
    List (CompoundOp × QueryTerm) → Numbering (List (CompoundOp × QueryTerm))
  | [] => return []
  | (op, term) :: compounds =>
      return (op, ← term.renumber) :: (← QueryTerm.renumberCompounds compounds)

def SelectCore.renumber : SelectCore → Numbering SelectCore
  | ⟨modifiers, columns, sources, filter, groupBy, withRollup, having, span⟩ =>
      return ⟨modifiers, ← SelectItem.renumberItems columns, ← TableRef.renumberRefs sources,
        ← Expr.renumberOptional filter, ← OrderingTerm.renumberTerms groupBy, withRollup,
        ← Expr.renumberOptional having, span⟩

def SelectItem.renumber : SelectItem → Numbering SelectItem
  | .wildcard span => return .wildcard span
  | .qualifiedWildcard schema table span => return .qualifiedWildcard schema table span
  | .expr value aliasName span => return .expr (← value.renumber) aliasName span

def SelectItem.renumberItems : List SelectItem → Numbering (List SelectItem)
  | [] => return []
  | item :: items => return (← item.renumber) :: (← SelectItem.renumberItems items)

def OrderingTerm.renumberTerms : List OrderingTerm → Numbering (List OrderingTerm)
  | [] => return []
  | ⟨expr, direction, span⟩ :: terms =>
      return ⟨← expr.renumber, direction, span⟩ :: (← OrderingTerm.renumberTerms terms)

def LimitClause.renumberOptional : Option LimitClause → Numbering (Option LimitClause)
  | some ⟨count, offset, span⟩ =>
      return some ⟨← count.renumber, ← Expr.renumberOptional offset, span⟩
  | none => return none

def TableRef.renumber : TableRef → Numbering TableRef
  | .named table => return .named table
  | .derived query aliasName span => return .derived (← query.renumber) aliasName span
  | .joined left join right condition span =>
      return .joined (← left.renumber) join (← right.renumber)
        (← JoinCondition.renumberOptional condition) span
  | .parenthesized inner span => return .parenthesized (← TableRef.renumberRefs inner) span

def TableRef.renumberRefs : List TableRef → Numbering (List TableRef)
  | [] => return []
  | ref :: refs => return (← ref.renumber) :: (← TableRef.renumberRefs refs)

def JoinCondition.renumberOptional : Option JoinCondition → Numbering (Option JoinCondition)
  | some (.on condition) => return some (.on (← condition.renumber))
  | some (.using columns) => return some (.using columns)
  | none => return none
end


def Assignment.renumberAll : List Assignment → Numbering (List Assignment)
  | [] => return []
  | ⟨column, value, span⟩ :: assignments =>
      return ⟨column, ← value.renumber, span⟩ :: (← Assignment.renumberAll assignments)

/-- Numbers the markers of rows of values anew. -/
def Expr.renumberRows : List (List Expr) → Numbering (List (List Expr))
  | [] => return []
  | first :: others => return (← Expr.renumberItems first) :: (← Expr.renumberRows others)

def InsertSource.renumber : InsertSource → Numbering InsertSource
  | .values rows => return .values (← Expr.renumberRows rows)
  | .select query => return .select (← query.renumber)
  | .set assignments => return .set (← Assignment.renumberAll assignments)

def DeleteSource.renumber : DeleteSource → Numbering DeleteSource
  | .single table => return .single table
  | .multi tables afterUsing => return .multi (← TableRef.renumberRefs tables) afterUsing

/-- Numbers the markers of a statement anew, in the order of canonical text. -/
def Statement.renumber : Statement → Numbering Statement
  | .select query => return .select (← query.renumber)
  | .insert ⟨kind, priority, ignore, table, partitions, columns, source, onDuplicate, span⟩ =>
      return .insert ⟨kind, priority, ignore, table, partitions, columns, ← source.renumber,
        ← Assignment.renumberAll onDuplicate, span⟩
  | .update ⟨lowPriority, ignore, tables, assignments, filter, orderBy, limit, span⟩ =>
      return .update ⟨lowPriority, ignore, ← TableRef.renumberRefs tables,
        ← Assignment.renumberAll assignments, ← Expr.renumberOptional filter,
        ← OrderingTerm.renumberTerms orderBy, ← LimitClause.renumberOptional limit, span⟩
  | .delete ⟨lowPriority, quick, ignore, targets, source, filter, orderBy, limit, span⟩ =>
      return .delete ⟨lowPriority, quick, ignore, targets, ← source.renumber,
        ← Expr.renumberOptional filter, ← OrderingTerm.renumberTerms orderBy,
        ← LimitClause.renumberOptional limit, span⟩

/-! ### Trees with their own numbers -/

/-- With some numbers in front a tree comes out, and these numbers are used up. -/
def Renumbers {α : Type} (renumber : Numbering α) (numbers : List Nat) (tree : α) : Prop :=
  ∀ rest, renumber (numbers ++ rest) = (tree, rest)

namespace Renumbers

variable {α β : Type} {numbers more : List Nat} {tree : α} {whole : β}

theorem pure : Renumbers (Pure.pure tree) [] tree := fun _ => rfl

theorem bind {renumber : Numbering α} {next : α → Numbering β}
    (first : Renumbers renumber numbers tree) (second : Renumbers (next tree) more whole) :
    Renumbers (renumber >>= next) (numbers ++ more) whole := by
  intro rest
  have front := first (more ++ rest)
  rw [List.append_assoc]
  change (match renumber (numbers ++ (more ++ rest)) with | (value, others) => next value others) = _
  rw [front]
  exact second rest

theorem map {renumber : Numbering α} {change : α → β} (first : Renumbers renumber numbers tree) :
    Renumbers (renumber >>= fun value => Pure.pure (change value)) numbers (change tree) := by
  have last : Renumbers (Pure.pure (change tree) : Numbering β) [] (change tree) := pure
  have whole : Renumbers (renumber >>= fun value => Pure.pure (change value)) (numbers ++ [])
      (change tree) := first.bind last
  rwa [List.append_nil] at whole

mutual
theorem expr : ∀ tree : Expr,
    Renumbers (relabel .plain tree).renumber tree.markers.numbers (relabel .erasing tree)
  | .literal _ _ => by
      rw [Expr.markers_literal]
      exact pure
  | .column _ => by
      rw [Expr.markers_column]
      exact pure
  | .placeholder index span => by
      rw [Expr.markers_placeholder]
      exact fun rest => rfl
  | .default _ => by
      rw [Expr.markers_default]
      exact pure
  | .binary left op right _ => by
      rw [Expr.markers_binary]
      exact (expr left).bind (expr right).map
  | .unary op operand _ => by
      rw [Expr.markers_unary]
      exact (expr operand).map
  | .is operand negated value _ => by
      rw [Expr.markers_is]
      exact (expr operand).map
  | .quantified left op quantifier rows _ => by
      rw [Expr.markers_quantified]
      exact (expr left).bind (query rows).map
  | .between operand low high negated _ => by
      rw [Expr.markers_between, MarkerTrace.append_assoc]
      exact (expr operand).bind ((expr low).bind (expr high).map)
  | .isIn operand set negated _ => by
      rw [Expr.markers_isIn]
      exact (expr operand).bind (inSet set).map
  | .like operand pattern escape op negated span => by
      rw [Expr.markers_like, MarkerTrace.append_assoc, Expr.relabel_like, Expr.relabel_like]
      exact (expr operand).bind ((expr pattern).bind (optional escape).map)
  | .soundsLike operand pattern _ => by
      rw [Expr.markers_soundsLike]
      exact (expr operand).bind (expr pattern).map
  | .case subject branches otherwise span => by
      rw [Expr.markers_case, MarkerTrace.append_assoc, Expr.relabel_case, Expr.relabel_case]
      exact (optional subject).bind ((whens branches).bind (optional otherwise).map)
  | .cast operand target _ => by
      rw [Expr.markers_cast]
      exact (expr operand).map
  | .call name .star distinct _ => by
      rw [Expr.markers_call_star]
      exact pure.map
  | .call name (.list list) distinct span => by
      rw [Expr.markers_call, Expr.relabel_call, Expr.relabel_call]
      exact (items list).map.map
  | .subquery rows _ => by
      rw [Expr.markers_subquery]
      exact (query rows).map
  | .exists rows _ => by
      rw [Expr.markers_exists]
      exact (query rows).map
  | .row list span => by
      rw [Expr.markers_row, Expr.relabel_row, Expr.relabel_row]
      exact (items list).map
  | .collate operand _ _ => by
      rw [Expr.markers_collate]
      exact (expr operand).map

theorem optional : ∀ found : Option Expr, Renumbers (Expr.renumberOptional (relabel .plain found))
    (Expr.optionalMarkers found).numbers (relabel .erasing found)
  | none => pure
  | some tree => (expr tree).map

theorem items : ∀ list : List Expr, Renumbers (Expr.renumberItems (relabel .plain list))
    (Expr.itemMarkers list).numbers (relabel .erasing list)
  | [] => pure
  | item :: list => (expr item).bind (items list).map

theorem whens : ∀ list : List (Expr × Expr), Renumbers (Expr.renumberWhens (relabel .plain list))
    (MarkerTrace.joined (list.map Expr.whenMarkers)).numbers (relabel .erasing list)
  | [] => pure
  | (condition, result) :: list => by
      rw [List.map_cons, MarkerTrace.joined, Expr.whenMarkers, MarkerTrace.append_assoc]
      exact (expr condition).bind ((expr result).bind (whens list).map)

theorem inSet : ∀ set : InSet,
    Renumbers (relabel .plain set).renumber set.markers.numbers (relabel .erasing set)
  | .list list => by
      rw [InSet.markers_list, InSet.relabel_list, InSet.relabel_list]
      exact (items list).map
  | .subquery rows => by
      rw [InSet.markers_subquery]
      exact (query rows).map

theorem query : ∀ tree : Query,
    Renumbers (relabel .plain tree).renumber tree.markers.numbers (relabel .erasing tree)
  | ⟨tables, body, orderBy, limit, locking, span⟩ => by
      rw [Query.markers_mk, MarkerTrace.append_assoc, MarkerTrace.append_assoc, Query.relabel_mk,
        Query.relabel_mk]
      exact (withClause tables).bind ((queryBody body).bind
        ((terms orderBy).bind (limitClause limit).map))

theorem withClause : ∀ found : Option WithClause,
    Renumbers (WithClause.renumberOptional (relabel .plain found))
      (WithClause.markers found).numbers (relabel .erasing found)
  | none => pure
  | some ⟨recursive, tables, span⟩ => by
      change Renumbers (WithClause.renumberOptional (some (relabel .plain
        (WithClause.mk recursive tables span)))) _ (some (relabel .erasing
          (WithClause.mk recursive tables span)))
      rw [WithClause.relabel_mk, WithClause.relabel_mk]
      exact (commonTables tables).map

theorem commonTables : ∀ list : List CommonTable,
    Renumbers (CommonTable.renumberTables (relabel .plain list))
      (MarkerTrace.joined (list.map CommonTable.markers)).numbers (relabel .erasing list)
  | [] => pure
  | ⟨name, columns, rows, span⟩ :: list => by
      rw [List.map_cons, MarkerTrace.joined, CommonTable.markers_mk]
      exact (query rows).bind (commonTables list).map

theorem queryBody : ∀ body : QueryBody,
    Renumbers (relabel .plain body).renumber body.markers.numbers (relabel .erasing body)
  | ⟨first, others, span⟩ => by
      rw [QueryBody.markers_mk, QueryBody.relabel_mk, QueryBody.relabel_mk]
      exact (queryTerm first).bind (compounds others).map

theorem queryTerm : ∀ term : QueryTerm,
    Renumbers (relabel .plain term).renumber term.markers.numbers (relabel .erasing term)
  | .select block => (core block).map
  | .nested rows => (query rows).map

theorem compounds : ∀ list : List (CompoundOp × QueryTerm),
    Renumbers (QueryTerm.renumberCompounds (relabel .plain list))
      (MarkerTrace.joined (list.map fun compound => compound.2.markers)).numbers
      (relabel .erasing list)
  | [] => pure
  | (_, term) :: list => (queryTerm term).bind (compounds list).map

theorem core : ∀ block : SelectCore,
    Renumbers (relabel .plain block).renumber block.markers.numbers (relabel .erasing block)
  | ⟨modifiers, columns, sources, filter, groupBy, withRollup, having, span⟩ => by
      rw [SelectCore.markers_mk, SelectCore.relabel_mk, SelectCore.relabel_mk]
      simp only [MarkerTrace.append_assoc]
      exact (selectItems columns).bind ((tableRefs sources).bind ((optional filter).bind
        ((terms groupBy).bind (optional having).map)))

theorem selectItems : ∀ list : List SelectItem,
    Renumbers (SelectItem.renumberItems (relabel .plain list))
      (MarkerTrace.joined (list.map SelectItem.markers)).numbers (relabel .erasing list)
  | [] => pure
  | item :: list => (selectItem item).bind (selectItems list).map

theorem selectItem : ∀ item : SelectItem,
    Renumbers (relabel .plain item).renumber item.markers.numbers (relabel .erasing item)
  | .wildcard _ => by
      rw [SelectItem.markers_wildcard]
      exact pure
  | .qualifiedWildcard _ _ _ => by
      rw [SelectItem.markers_qualifiedWildcard]
      exact pure
  | .expr value _ _ => by
      rw [SelectItem.markers_expr]
      exact (expr value).map

theorem terms : ∀ list : List OrderingTerm,
    Renumbers (OrderingTerm.renumberTerms (relabel .plain list))
      (OrderingTerm.markers list).numbers (relabel .erasing list)
  | [] => pure
  | ⟨value, _, _⟩ :: list => (expr value).bind (terms list).map

theorem limitClause : ∀ found : Option LimitClause,
    Renumbers (LimitClause.renumberOptional (relabel .plain found))
      (LimitClause.markers found).numbers (relabel .erasing found)
  | none => pure
  | some ⟨count, offset, span⟩ => by
      change Renumbers (LimitClause.renumberOptional (some (relabel .plain
        (LimitClause.mk count offset span)))) _ (some (relabel .erasing
          (LimitClause.mk count offset span)))
      rw [LimitClause.markers_some, LimitClause.relabel_mk, LimitClause.relabel_mk]
      have numbers : (count.markers ++ Expr.optionalMarkers offset ++
          ⟨[], LimitClause.reversesMarkers ⟨count, offset, span⟩⟩).numbers =
            count.markers.numbers ++ (Expr.optionalMarkers offset).numbers := by
        simp
      rw [numbers]
      exact (expr count).bind (optional offset).map

theorem tableRef : ∀ ref : TableRef,
    Renumbers (relabel .plain ref).renumber ref.markers.numbers (relabel .erasing ref)
  | .named table => by
      rw [TableRef.markers_named]
      exact pure
  | .derived rows _ _ => by
      rw [TableRef.markers_derived]
      exact (query rows).map
  | .joined left join right test span => by
      rw [TableRef.markers_joined, MarkerTrace.append_assoc, TableRef.relabel_joined,
        TableRef.relabel_joined]
      exact (tableRef left).bind ((tableRef right).bind (condition test).map)
  | .parenthesized inner span => by
      rw [TableRef.markers_parenthesized, TableRef.relabel_parenthesized,
        TableRef.relabel_parenthesized]
      exact (tableRefs inner).map

theorem tableRefs : ∀ list : List TableRef,
    Renumbers (TableRef.renumberRefs (relabel .plain list))
      (MarkerTrace.joined (list.map TableRef.markers)).numbers (relabel .erasing list)
  | [] => pure
  | ref :: list => (tableRef ref).bind (tableRefs list).map

theorem condition : ∀ found : Option JoinCondition,
    Renumbers (JoinCondition.renumberOptional (relabel .plain found))
      (JoinCondition.markers found).numbers (relabel .erasing found)
  | none => pure
  | some (.on value) => (expr value).map
  | some (.using columns) => by
      rw [JoinCondition.markers_using]
      exact pure
end

theorem assignments (list : List Assignment) :
    Renumbers (Assignment.renumberAll (relabel .plain list)) (Assignment.listMarkers list).numbers
      (relabel .erasing list) := by
  induction list with
  | nil => exact pure
  | cons assignment list inductionHypothesis =>
      obtain ⟨column, value, span⟩ := assignment
      rw [Assignment.listMarkers, List.map_cons, MarkerTrace.joined, Assignment.markers_mk]
      exact (expr value).bind inductionHypothesis.map

theorem rows (list : List (List Expr)) :
    Renumbers (Expr.renumberRows (relabel .plain list))
      (MarkerTrace.joined (list.map Expr.itemMarkers)).numbers (relabel .erasing list) := by
  induction list with
  | nil => exact pure
  | cons row list inductionHypothesis => exact (items row).bind inductionHypothesis.map

theorem insertSource (source : InsertSource) :
    Renumbers (relabel .plain source).renumber source.markers.numbers (relabel .erasing source) := by
  cases source with
  | values list =>
      rw [InsertSource.markers_values]
      exact (rows list).map
  | select tree => exact (query tree).map
  | set list =>
      rw [InsertSource.markers_set]
      exact (assignments list).map

theorem deleteSource (source : DeleteSource) :
    Renumbers (relabel .plain source).renumber source.markers.numbers (relabel .erasing source) := by
  cases source with
  | single table =>
      rw [DeleteSource.markers_single]
      exact pure
  | multi tables afterUsing =>
      rw [DeleteSource.markers_multi]
      exact (tableRefs tables).map

/-- The limit of a change, which takes no offset. -/
theorem plainLimit (found : Option LimitClause) :
    Renumbers (LimitClause.renumberOptional (relabel .plain found))
      (LimitClause.plainMarkers found).numbers (relabel .erasing found) := by
  have same : (LimitClause.plainMarkers found).numbers = (LimitClause.markers found).numbers := by
    cases found with
    | none => rfl
    | some limit => simp [LimitClause.plainMarkers, LimitClause.markers]
  rw [same]
  exact limitClause found

/-- A tree comes out of its plain form with the numbers that its markers have in the order of
canonical text. -/
theorem statement (tree : Statement) :
    Renumbers (relabel .plain tree).renumber tree.markers.numbers (relabel .erasing tree) := by
  rcases tree with tree | tree | tree | tree
  · rw [Statement.markers_select]
    exact (query tree).map
  · rw [Statement.markers_insert]
    exact (insertSource tree.source).bind (assignments tree.onDuplicate).map
  · rw [Statement.markers_update]
    simp only [MarkerTrace.append_assoc]
    exact (tableRefs tree.tables).bind ((assignments tree.assignments).bind
      ((optional tree.filter).bind ((terms tree.orderBy).bind (plainLimit tree.limit).map)))
  · rw [Statement.markers_delete]
    simp only [MarkerTrace.append_assoc]
    exact (deleteSource tree.source).bind ((optional tree.filter).bind
      ((terms tree.orderBy).bind (plainLimit tree.limit).map))

/-- One tree comes out with the numbers in order, however many of them it takes. -/
theorem unique {renumber : Numbering α} {copy : α} {first count count' : Nat}
    (left : Renumbers renumber (List.range' first count) tree)
    (right : Renumbers renumber (List.range' first count') copy) : tree = copy := by
  -- the numbers that only the longer run takes stand behind those of the shorter one
  have ordered : ∀ {fewer more : Nat} {short long : α}, fewer ≤ more →
      Renumbers renumber (List.range' first fewer) short →
        Renumbers renumber (List.range' first more) long → short = long := by
    intro fewer more short long le takes takesMore
    obtain ⟨further, rfl⟩ := Nat.exists_eq_add_of_le le
    have split : List.range' first (fewer + further) =
        List.range' first fewer ++ List.range' (first + fewer) further := by
      rw [← List.range'_append, Nat.one_mul]
    have whole := takesMore []
    rw [List.append_nil, split, takes] at whole
    exact congrArg Prod.fst whole
  rcases Nat.le_total count count' with le | le
  · exact ordered le left right
  · exact (ordered le right left).symm

/-- Trees that are alike and have their numbers in order are equal but for their spans. -/
theorem erased_eq [Labelled α] {renumber : α → Numbering α} {copy : α} {first : Nat}
    (alike : Alike .plain tree copy)
    (own : Renumbers (renumber (relabel .plain tree)) numbers (relabel .erasing tree))
    (other : Renumbers (renumber (relabel .plain copy)) more (relabel .erasing copy))
    (ordered : numbers = List.range' first numbers.length)
    (ordered' : more = List.range' first more.length) :
    relabel .erasing tree = relabel .erasing copy := by
  rw [ordered] at own
  rw [ordered', ← show relabel .plain tree = relabel .plain copy from alike.same] at other
  exact own.unique other

end Renumbers

/-! ### Limits of two markers -/

def Expr.isMarker : Expr → Bool
  | .placeholder _ _ => true
  | _ => false

/-- Whether both numbers of a limit are parameter markers. -/
def LimitClause.marksBoth (limit : LimitClause) : Bool :=
  limit.count.isMarker && limit.offset.any Expr.isMarker

/-- A query whose limit does not hold two parameter markers. -/
def Node.MarksOnce : Node → Prop
  | .query tree => tree.limit.any LimitClause.marksBoth = false
  | _ => True

theorem Expr.isMarker_relabel (labels : Relabelling) (tree : Expr) :
    (relabel labels tree).isMarker = tree.isMarker := by
  cases tree with
  | like operand pattern escape op negated span =>
      rw [relabel_like]
      rfl
  | case operand whens otherwise span =>
      rw [relabel_case]
      rfl
  | _ => rfl

theorem LimitClause.marksBoth_relabel (labels : Relabelling) (limit : LimitClause) :
    (relabel labels limit).marksBoth = limit.marksBoth := by
  obtain ⟨count, offset, span⟩ := limit
  rw [LimitClause.relabel_mk]
  cases offset with
  | none =>
      change ((relabel labels count).isMarker && _) = _
      rw [Expr.isMarker_relabel]
      rfl
  | some offset =>
      change ((relabel labels count).isMarker && (relabel labels offset).isMarker) = _
      rw [Expr.isMarker_relabel, Expr.isMarker_relabel]
      rfl

theorem Node.marksOnce_relabel (labels : Relabelling) (node : Node) :
    (relabel labels node).MarksOnce ↔ node.MarksOnce := by
  cases node with
  | query tree =>
      obtain ⟨withClause, body, orderBy, limit, locking, span⟩ := tree
      change ((relabel labels (Query.mk withClause body orderBy limit locking span)).limit.any
        LimitClause.marksBoth = false) ↔ limit.any LimitClause.marksBoth = false
      rw [Query.relabel_mk]
      cases limit with
      | none => exact Iff.rfl
      | some limit =>
          change (relabel labels limit).marksBoth = false ↔ limit.marksBoth = false
          rw [LimitClause.marksBoth_relabel]
  | _ => exact Iff.rfl

/-- A limit that reverses two markers holds two. -/
theorem LimitClause.marksBoth_of_reverses {limit : LimitClause}
    (reverses : limit.reversesMarkers = true) : limit.marksBoth = true := by
  obtain ⟨count, offset, span⟩ := limit
  unfold reversesMarkers at reverses
  split at reverses
  · next counted skipped =>
      dsimp only at counted skipped
      rw [counted, skipped]
      rfl
  · cases reverses

/-- No limit of such nodes reverses two markers. -/
theorem Node.straight {node : Node} (once : node.All Node.MarksOnce) :
    (MarkerTrace.ofVisits node.visits).reversed = false := by
  refine List.any_eq_false.mpr fun visit member reverses => ?_
  cases visit with
  | query tree =>
      obtain ⟨inner, within, stop⟩ := (Node.mem_visits_iff rfl).mp member
      have own : inner = .query tree := by
        rcases inner with _ | _ | _ | (_ | _ | _) | _ | _ | _ | _ | _ <;> simp_all [Node.stops]
      subst own
      obtain ⟨limit, found, reverses⟩ := (Option.any_eq_true _ _).mp reverses
      have none_ : tree.limit.any LimitClause.marksBoth = false := once _ within
      rw [found, Option.any_some, LimitClause.marksBoth_of_reverses reverses] at none_
      cases none_
  | _ => cases reverses

/-- Nodes that are alike have limits of two markers at the same places. -/
theorem Node.marksOnce_of_alike {node copy : Node} (alike : Alike .plain node copy)
    (once : node.All Node.MarksOnce) : copy.All Node.MarksOnce := by
  rw [← Node.all_relabel Likeness.plain.right (Node.marksOnce_relabel _), ← alike.same,
    Node.all_relabel _ (Node.marksOnce_relabel _)]
  exact once

section

variable {last last' : Nat}

/-- Statements that are alike, number their markers and have no limit of two markers, are equal but
for their spans. -/
theorem Statement.eraseSpans_eq_of_alike {tree copy : Statement} (alike : Alike .plain tree copy)
    (own : tree.markers.Numbered 0 last) (other : copy.markers.Numbered 0 last')
    (once : (Node.statement tree).All Node.MarksOnce) : tree.eraseSpans = copy.eraseSpans := by
  have again : (Node.statement copy).All Node.MarksOnce :=
    Node.marksOnce_of_alike ⟨congrArg Node.statement alike.same⟩ once
  rw [Statement.eraseSpans_eq, Statement.eraseSpans_eq]
  exact Renumbers.erased_eq alike (.statement tree) (.statement copy)
    (own.ordered.mp (Node.straight once)) (other.ordered.mp (Node.straight again))

/-- So are expressions. -/
theorem Expr.eraseSpans_eq_of_alike {tree copy : Expr} (alike : Alike .plain tree copy)
    (own : tree.markers.Numbered 0 last) (other : copy.markers.Numbered 0 last')
    (once : (Node.expr tree).All Node.MarksOnce) : tree.eraseSpans = copy.eraseSpans := by
  have again : (Node.expr copy).All Node.MarksOnce :=
    Node.marksOnce_of_alike ⟨congrArg Node.expr alike.same⟩ once
  rw [Expr.eraseSpans_eq, Expr.eraseSpans_eq]
  exact Renumbers.erased_eq alike (.expr tree) (.expr copy)
    (own.ordered.mp (Node.straight once)) (other.ordered.mp (Node.straight again))

end

end SqlDml
