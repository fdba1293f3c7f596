import MicaBoards.Locks.CanonicalOrder
import MicaBoards.Locks.ReleaseLock

/-
  Rows as `sort` puts them, and the order of the checker: rows
  that their key fields tell apart have keys in order.

  Main declarations:
    * `pairwise_sortRows`
    * `before_sortRows`
    * `inOrder_of_before`
-/

------------------------------------------------------------
-- Order of Sorted Rows
------------------------------------------------------------

namespace MicaBoards

namespace Locks

open Text

/- The fields that rows are sorted by. -/
def sortFields (fields : List Nat) (row : Row) : List Bytes :=
  fields.map row.field

theorem mem_sortRows
    {fields : List Nat}
    {rows : List Row}
    {row : Row} :
    row ∈ sortRows fields rows ↔ row ∈ rows :=
  List.mem_insertionSort _

instance sortRows_total (fields : List Nat) :
    Std.Total fun row next : Row =>
      fields.map row.field ++ [joinRow row] ≤
        fields.map next.field ++ [joinRow next] where
  total _ _ := List.le_total _ _

instance sortRows_trans (fields : List Nat) :
    IsTrans Row fun row next =>
      fields.map row.field ++ [joinRow row] ≤
        fields.map next.field ++ [joinRow next] where
  trans _ _ _ := List.le_trans

/- Rows that the fields tell apart are sorted strictly. -/
theorem pairwise_sortRows
    {fields : List Nat}
    {rows : List Row}
    (hNodup : (rows.map (sortFields fields)).Nodup) :
    (sortRows fields rows).Pairwise fun row next =>
      sortFields fields row < sortFields fields next := by
  have hSorted :=
    List.pairwise_insertionSort
      (fun row next : Row =>
        fields.map row.field ++ [joinRow row] ≤
          fields.map next.field ++ [joinRow next]) rows
  have hPerm : ((sortRows fields rows).map
      (sortFields fields)).Perm (rows.map (sortFields fields)) :=
    (List.perm_insertionSort _ rows).map _
  have hDistinct := hPerm.nodup_iff.mpr hNodup
  rw [List.Nodup, List.pairwise_map] at hDistinct
  refine (hSorted.and hDistinct).imp ?_
  intro row next hBoth
  apply lt_of_append_le _ hBoth.2 hBoth.1
  unfold sortFields
  rw [List.length_map, List.length_map]

/- Rows in order have their sort keys in order. -/
theorem sortKey_lt_of_before
    {x y : RowOrder}
    (hX : x.rank < 10)
    (hY : y.rank < 10)
    (hLength : x.rank = y.rank → x.key.length = y.key.length)
    (hXKey : Separable x.key)
    (hYKey : Separable y.key)
    (hBefore : x.Before y) :
    sortKey x.rank (joinFields x.key) <
      sortKey y.rank (joinFields y.key) := by
  rw [sortKey_lt_iff hX hY]
  rcases hBefore with hRank | ⟨hRank, hKey⟩
  · exact Or.inl hRank
  · exact Or.inr ⟨hRank,
      (intercalate_lt_iff (hLength hRank) hXKey hYKey).mpr
        hKey⟩

theorem rank_of_kindOf
    {kind : Kind}
    {row : Row}
    (hKind : kindOf row = some kind) :
    (lockOrder row).rank = kind.index := by
  unfold lockOrder
  rw [hKind]
  rfl

/- A row of a kind, as the checker orders it. -/
structure KeyedRow (kind : Kind) (row : Row) : Prop where
  kind : kindOf row = some kind
  separable : Separable (keyFields row)

theorem KeyedRow.rank
    {kind : Kind}
    {row : Row}
    (hRow : KeyedRow kind row) :
    (lockOrder row).rank = kind.index :=
  rank_of_kindOf hRow.kind

/- Table keys tell the kind and the key of a row. -/
theorem rowSortKey_eq_of_rowTableKey
    {kind kind' : Kind}
    {row next : Row}
    (hRow : KeyedRow kind row)
    (hNext : KeyedRow kind' next)
    (hSame : rowTableKey row = rowTableKey next) :
    rowSortKey row = rowSortKey next := by
  have hName : ∀ kind : Kind, 0x02 ∉ kind.name := by
    intro kind
    cases kind <;> decide
  unfold rowTableKey tableKey at hSame
  rw [field_of_kindOf hRow.kind, field_of_kindOf hNext.kind]
    at hSame
  have hFront := congrArg (beforeFirst 0x02) hSame
  have hBehind := congrArg (afterFirst 0x02) hSame
  rw [beforeFirst_append (hName kind),
    beforeFirst_append (hName kind')] at hFront
  rw [afterFirst_append (hName kind),
    afterFirst_append (hName kind')] at hBehind
  have hKind : kind = kind' := by
    cases kind <;> cases kind' <;>
      first
        | rfl
        | exact absurd hFront (by decide)
  unfold rowSortKey
  rw [hRow.kind, hNext.kind, hKind, hBehind]

/-
  Rows in the order of the checker: their sort keys are in
  order, and none of their table keys is there twice.
-/
theorem inOrder_of_before
    {rows : List Row}
    (hKinds : ∀ row ∈ rows, ∃ kind, KeyedRow kind row)
    (hBefore : rows.Pairwise fun row next =>
      (lockOrder row).Before (lockOrder next)) :
    inOrder (rows.map rowSortKey) = true ∧
      (rows.map rowTableKey).Nodup := by
  have hLt : rows.Pairwise fun row next =>
      rowSortKey row < rowSortKey next := by
    refine List.Pairwise.imp_of_mem ?_ hBefore
    intro row next hRow hNext hOrder
    rcases hKinds row hRow with ⟨kind, hKeyed⟩
    rcases hKinds next hNext with ⟨kind', hKeyed'⟩
    apply sortKey_lt_of_before _ _ _ hKeyed.separable
      hKeyed'.separable hOrder
    · rw [hKeyed.rank]
      exact kind.index_lt
    · rw [hKeyed'.rank]
      exact kind'.index_lt
    · rw [hKeyed.rank, hKeyed'.rank]
      intro hRank
      apply length_keyFields
      rw [hKeyed.kind, hKeyed'.kind, Kind.index_injective hRank]
  constructor
  · rw [inOrder_eq_true_iff, List.pairwise_map]
    exact hLt.imp fun h => Std.le_of_lt h
  · rw [List.Nodup, List.pairwise_map]
    refine List.Pairwise.imp_of_mem ?_ hLt
    intro row next hRow hNext hOrder hSame
    rcases hKinds row hRow with ⟨kind, hKeyed⟩
    rcases hKinds next hNext with ⟨kind', hKeyed'⟩
    rw [rowSortKey_eq_of_rowTableKey hKeyed hKeyed' hSame]
      at hOrder
    exact List.lt_irrefl _ hOrder

/- Rows of one kind, sorted by the fields of their keys. -/
theorem before_sortRows
    {kind : Kind}
    {fields : List Nat}
    {rows : List Row}
    (hKind : ∀ row ∈ rows, kindOf row = some kind)
    (hKeys : ∀ row ∈ rows,
      keyFields row = sortFields fields row)
    (hNodup : (rows.map keyFields).Nodup) :
    (sortRows fields rows).Pairwise fun row next =>
      (lockOrder row).Before (lockOrder next) := by
  rw [List.map_congr_left hKeys] at hNodup
  refine List.Pairwise.imp_of_mem ?_ (pairwise_sortRows hNodup)
  intro row next hRow hNext hLt
  rw [mem_sortRows] at hRow hNext
  right
  constructor
  · rw [rank_of_kindOf (hKind row hRow),
      rank_of_kindOf (hKind next hNext)]
  · change keyFields row < keyFields next
    rw [hKeys row hRow, hKeys next hNext]
    exact hLt

/- Rows of a kind come before those of a later one. -/
theorem before_of_kinds
    {kind kind' : Kind}
    {row next : Row}
    (hRow : kindOf row = some kind)
    (hNext : kindOf next = some kind')
    (hLt : kind.index < kind'.index) :
    (lockOrder row).Before (lockOrder next) := by
  left
  rw [rank_of_kindOf hRow, rank_of_kindOf hNext]
  exact hLt

end Locks

end MicaBoards
