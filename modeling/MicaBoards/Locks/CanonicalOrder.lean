import MicaBoards.Locks.Accepted
import MicaBoards.Locks.Forms
import MicaBoards.Foundations.SeparatedOrder

/-
  The rows of an accepted file are in one order: that of the
  kinds, and then of the key fields, field by field.

  Main declarations:
    * `RowOrder`
    * `CanonicalRows`
    * `checkLock_canonical`
-/

------------------------------------------------------------
-- Order of Rows
------------------------------------------------------------

namespace MicaBoards

namespace Locks

open Text

variable {iconv : Iconv}

/- The rank of a row's kind, and its key fields. -/
structure RowOrder where
  rank : Nat
  key : List Bytes
deriving DecidableEq

/- By rank, and then by the key, field by field. -/
def RowOrder.Before (x y : RowOrder) : Prop :=
  x.rank < y.rank ∨ (x.rank = y.rank ∧ x.key < y.key)

/- The order of the rows of a lock. -/
def lockOrder (row : Row) : RowOrder where
  rank := (kindOf row).elim 0 Kind.index
  key := keyFields row

/- The order of the rows of `upstream.lock`. -/
def upstreamOrder (row : Row) : RowOrder where
  rank := (upstreamKindOf row).elim 0 UpstreamKind.index
  key := upstreamKeyFields row

/- Strictly increasing, and so no key is there twice. -/
structure CanonicalRows
    (order : Row → RowOrder)
    (rows : List Row) : Prop where
  increasing :
    rows.Pairwise fun row next => (order row).Before (order next)
  unique : (rows.map order).Nodup

theorem RowOrder.Before.ne
    {x y : RowOrder}
    (hBefore : x.Before y) :
    x ≠ y := by
  rintro rfl
  rcases hBefore with hRank | ⟨_, hKey⟩
  · exact Nat.lt_irrefl _ hRank
  · exact List.lt_irrefl _ hKey

theorem RowOrder.Before.asymm
    {x y : RowOrder}
    (hBefore : x.Before y) :
    ¬ y.Before x := by
  rintro (hRank' | ⟨hSame', hKey'⟩)
  · rcases hBefore with hRank | ⟨hSame, _⟩
    · exact Nat.lt_asymm hRank hRank'
    · exact Nat.ne_of_lt hRank' hSame.symm
  · rcases hBefore with hRank | ⟨_, hKey⟩
    · exact Nat.ne_of_lt hRank hSame'.symm
    · exact List.lt_irrefl _ (List.lt_trans hKey hKey')

theorem CanonicalRows.of_increasing
    {order : Row → RowOrder}
    {rows : List Row}
    (hIncreasing : rows.Pairwise fun row next =>
      (order row).Before (order next)) :
    CanonicalRows order rows := by
  refine ⟨hIncreasing, ?_⟩
  rw [List.Nodup, List.pairwise_map]
  exact hIncreasing.imp fun hBefore => hBefore.ne

/- The same rows are listed in the same order. -/
theorem CanonicalRows.eq_of_same
    {order : Row → RowOrder}
    {rows rows' : List Row}
    (hRows : CanonicalRows order rows)
    (hRows' : CanonicalRows order rows')
    (hSame : ∀ row, row ∈ rows ↔ row ∈ rows') :
    rows = rows' := by
  have hPerm : rows.Perm rows' := by
    rw [List.perm_ext_iff_of_nodup
      (List.Nodup.of_map _ hRows.unique)
      (List.Nodup.of_map _ hRows'.unique)]
    exact hSame
  refine hPerm.eq_of_pairwise ?_ hRows.increasing
    hRows'.increasing
  intro row next _ _ hBefore hBefore'
  exact absurd hBefore' hBefore.asymm

------------------------------------------------------------
-- Bytes of Keys
------------------------------------------------------------

/- The fields of a key hold nothing as low as the separator. -/
def Separable (fields : List Bytes) : Prop :=
  ∀ field ∈ fields, ∀ b ∈ field, 0x01 < b

/- The bytes of names, of tags and of paths. -/
theorem one_lt_of_form
    (b : UInt8) :
    (isNameByte b = true ∨ isTagByte b = true ∨
      isPathByte b = true ∨ b = colon) →
      0x01 < b := by
  revert b
  exact forall_byte (by decide +kernel)

theorem one_lt_of_isName
    {s : Bytes}
    (hName : isName s = true) :
    ∀ b ∈ s, 0x01 < b :=
  fun b hb =>
    one_lt_of_form b
      (Or.inl
        (mem_of_headTail isNameByte_of_isLowerDigit hName b hb))

theorem one_lt_of_isArch
    {s : Bytes}
    (hArch : isArch s = true) :
    ∀ b ∈ s, 0x01 < b :=
  one_lt_of_isName (isName_of_isArch hArch)

theorem one_lt_of_isSourceArch
    {s : Bytes}
    (hArch : isSourceArch s = true) :
    ∀ b ∈ s, 0x01 < b := by
  unfold isSourceArch at hArch
  rw [Bool.or_eq_true, decide_eq_true_eq] at hArch
  rcases hArch with hArch | rfl
  · exact one_lt_of_isArch hArch
  · exact one_lt_of_isName (by decide)

theorem one_lt_of_isPlatform
    {s : Bytes}
    (hPlatform : isPlatform s = true) :
    ∀ b ∈ s, 0x01 < b := by
  unfold isPlatform at hPlatform
  rw [decide_eq_true_eq, List.mem_cons, List.mem_cons,
    List.mem_cons, List.mem_singleton] at hPlatform
  rcases hPlatform with rfl | rfl | rfl | rfl
  · exact one_lt_of_isName (by decide)
  · exact one_lt_of_isName (by decide)
  · exact one_lt_of_isName (by decide)
  · exact one_lt_of_isName (by decide)

theorem one_lt_of_isUpstreamName
    {s : Bytes}
    (hName : isUpstreamName s = true) :
    ∀ b ∈ s, 0x01 < b := by
  unfold isUpstreamName tagForm at hName
  rw [Bool.and_eq_true, Bool.or_eq_true] at hName
  rcases hName with ⟨hFront, hTag⟩
  have hPath :=
    mem_of_headTail isPathByte_of_isLowerDigit hFront
  intro b hb
  apply one_lt_of_form
  by_cases hColon : colon ∈ s
  · have hBehind :
        plus isTagByte (afterFirst colon s) = true := by
      rcases hTag with hNone | hTag
      · exact absurd hColon (of_decide_eq_true hNone)
      · exact hTag
    rw [← beforeFirst_append_afterFirst hColon,
      List.mem_append, List.mem_cons] at hb
    rcases hb with hb | rfl | hb
    · exact Or.inr (Or.inr (Or.inl (hPath b hb)))
    · exact Or.inr (Or.inr (Or.inr rfl))
    · exact Or.inr (Or.inl (mem_of_plus hBehind b hb))
  · rw [beforeFirst_of_notMem hColon] at hPath
    exact Or.inr (Or.inr (Or.inl (hPath b hb)))

theorem separable_cons
    {field : Bytes}
    {fields : List Bytes}
    (hField : ∀ b ∈ field, 0x01 < b)
    (hFields : Separable fields) :
    Separable (field :: fields) :=
  List.forall_mem_cons.mpr ⟨hField, hFields⟩

theorem separable_nil : Separable [] := by
  simp [Separable]

/- The key of an image row, upstream or not. -/
theorem separable_of_upstreamImage
    {row : Row}
    (hSource : row.field 1 = ascii "upstream")
    (hImage : upstreamImage row = .ok ()) :
    Separable [row.field 1, row.field 2, row.field 3] := by
  unfold upstreamImage at hImage
  rw [require_bind_eq_ok_iff, Bool.and_eq_true] at hImage
  refine separable_cons ?_
    (separable_cons (one_lt_of_isUpstreamName hImage.1.1)
      (separable_cons (one_lt_of_isPlatform hImage.1.2)
        separable_nil))
  rw [hSource]
  exact one_lt_of_isName (by decide)

/- The key fields of a row that passed its checks. -/
theorem separable_keyFields
    {rootsOk : Bytes → Bool}
    {release : Release}
    {row : Row}
    (hFields : checkFields rootsOk release row = .ok ()) :
    Separable (keyFields row) := by
  unfold checkFields at hFields
  unfold keyFields
  cases hKind : kindOf row with
  | none => exact separable_nil
  | some kind =>
      rw [hKind] at hFields
      cases kind with
      | release => exact separable_nil
      | apt => exact separable_nil
      | image =>
          simp only at hFields ⊢
          by_cases hUpstream : row.field 1 = ascii "upstream"
          · rw [if_pos hUpstream] at hFields
            exact separable_of_upstreamImage hUpstream hFields
          · rw [if_neg hUpstream] at hFields
            by_cases hOwn : isRepository (row.field 1) = true
            · rw [if_pos hOwn, require_bind_eq_ok_iff,
                Bool.and_eq_true] at hFields
              exact separable_cons
                (one_lt_of_isName (isName_of_isRepository hOwn))
                (separable_cons
                  (one_lt_of_isName hFields.1.1)
                  (separable_cons
                    (one_lt_of_isPlatform hFields.1.2)
                    separable_nil))
            · rw [if_neg hOwn] at hFields
              exact absurd hFields (by simp)
      | pool =>
          simp only [require_bind_eq_ok_iff] at hFields
          exact separable_cons (one_lt_of_isArch hFields.1)
            separable_nil
      | package =>
          simp only [require_eq_ok_iff, Bool.and_eq_true]
            at hFields
          exact separable_cons
            (one_lt_of_isName hFields.1.1.1)
            (separable_cons (one_lt_of_isArch hFields.1.1.2)
              separable_nil)
      | board =>
          simp only [require_bind_eq_ok_iff, Bool.and_eq_true,
            decide_eq_true_eq] at hFields
          refine separable_cons
            (one_lt_of_isName hFields.1.1.1)
            (separable_cons ?_ separable_nil)
          have hComponent := hFields.1.1.2
          simp only [List.mem_cons, List.not_mem_nil, or_false]
            at hComponent
          apply one_lt_of_isName
          rcases hComponent with hEq | hEq | hEq | hEq <;>
            rw [hEq] <;> decide
      | upstream =>
          simp only [require_eq_ok_iff, Bool.and_eq_true]
            at hFields
          exact separable_cons
            (one_lt_of_isName hFields.1.1.1.1.1)
            (separable_cons
              (one_lt_of_isArch hFields.1.1.1.1.2)
              separable_nil)
      | data =>
          simp only [require_eq_ok_iff, Bool.and_eq_true]
            at hFields
          exact separable_cons (one_lt_of_isName hFields.1.1)
            separable_nil

theorem separable_upstreamKeyFields
    {row : Row}
    (hFields : checkUpstreamFields row = .ok ()) :
    Separable (upstreamKeyFields row) := by
  unfold checkUpstreamFields at hFields
  unfold upstreamKeyFields
  cases hKind : upstreamKindOf row with
  | none => exact separable_nil
  | some kind =>
      rw [hKind] at hFields
      cases kind with
      | image =>
          simp only [require_bind_eq_ok_iff, decide_eq_true_eq]
            at hFields
          exact separable_of_upstreamImage hFields.1 hFields.2
      | source =>
          simp only [require_eq_ok_iff, Bool.and_eq_true]
            at hFields
          exact separable_cons
            (one_lt_of_isName hFields.1.1.1.1)
            (separable_cons
              (one_lt_of_isSourceArch hFields.1.1.1.2)
              separable_nil)
      | git =>
          simp only [require_eq_ok_iff, Bool.and_eq_true]
            at hFields
          exact separable_cons
            (one_lt_of_isName hFields.1.1.1) separable_nil

------------------------------------------------------------
-- Sort Keys
------------------------------------------------------------

/- Neighbours in order are all in order. -/
theorem inOrder_eq_true_iff
    {keys : List Bytes} :
    inOrder keys = true ↔ keys.Pairwise (· ≤ ·) := by
  induction keys with
  | nil => simp [inOrder]
  | cons first keys ih =>
      cases keys with
      | nil => simp [inOrder]
      | cons second keys =>
          rw [inOrder, Bool.and_eq_true, ih,
            @List.pairwise_cons _ _ first, Bool.not_eq_true',
            decide_eq_false_iff_not, List.not_lt]
          constructor
          · rintro ⟨hFirst, hRest⟩
            refine ⟨?_, hRest⟩
            rw [List.forall_mem_cons]
            refine ⟨hFirst, fun key hKey => ?_⟩
            exact List.le_trans hFirst
              ((List.pairwise_cons.mp hRest).1 key hKey)
          · rintro ⟨hFirst, hRest⟩
            exact ⟨hFirst second (by simp), hRest⟩

theorem ofNat_lt_ofNat_iff
    {i j : Nat}
    (hI : i < 10)
    (hJ : j < 10) :
    UInt8.ofNat (0x30 + i) < UInt8.ofNat (0x30 + j) ↔
      i < j := by
  have hModI : (0x30 + i) % 2 ^ 8 = 0x30 + i :=
    Nat.mod_eq_of_lt (by omega)
  have hModJ : (0x30 + j) % 2 ^ 8 = 0x30 + j :=
    Nat.mod_eq_of_lt (by omega)
  rw [UInt8.lt_iff_toNat_lt, UInt8.toNat_ofNat',
    UInt8.toNat_ofNat', hModI, hModJ]
  omega

/- Sort keys are in the order of ranks, and then of keys. -/
theorem sortKey_lt_iff
    {i j : Nat}
    (hI : i < 10)
    (hJ : j < 10)
    (key key' : Bytes) :
    sortKey i key < sortKey j key' ↔
      i < j ∨ (i = j ∧ key < key') := by
  have hEq :
      UInt8.ofNat (0x30 + i) = UInt8.ofNat (0x30 + j) ↔
        i = j := by
    constructor
    · intro hSame
      have hNotLt := ofNat_lt_ofNat_iff hI hJ
      have hNotGt := ofNat_lt_ofNat_iff hJ hI
      rw [hSame] at hNotLt hNotGt
      have hIrrefl :
          ¬ UInt8.ofNat (0x30 + j) < UInt8.ofNat (0x30 + j) :=
        Std.lt_irrefl
      have hLe := mt hNotLt.mpr hIrrefl
      have hGe := mt hNotGt.mpr hIrrefl
      omega
    · rintro rfl
      rfl
  unfold sortKey
  rw [List.cons_lt_cons_iff, List.cons_lt_cons_iff,
    ofNat_lt_ofNat_iff hI hJ, hEq]
  simp [Std.lt_irrefl]

/- Sort keys tell the orders of rows. -/
theorem before_of_sortKey_lt
    {x y : RowOrder}
    (hX : x.rank < 10)
    (hY : y.rank < 10)
    (hLength : x.rank = y.rank → x.key.length = y.key.length)
    (hXKey : Separable x.key)
    (hYKey : Separable y.key)
    (hLt : sortKey x.rank (joinFields x.key) <
      sortKey y.rank (joinFields y.key)) :
    x.Before y := by
  rcases (sortKey_lt_iff hX hY _ _).mp hLt with
    hRank | ⟨hRank, hKey⟩
  · exact Or.inl hRank
  · right
    refine ⟨hRank, ?_⟩
    exact
      (intercalate_lt_iff (hLength hRank) hXKey hYKey).mp hKey

/-
  Sort keys in order, and no table key twice: where equal
  sort keys have equal table keys, rows increase strictly.
-/
theorem pairwise_before
    {order : Row → RowOrder}
    {table : Row → Bytes}
    {rows : List Row}
    (hOrder : inOrder
      (rows.map fun row =>
        sortKey (order row).rank
          (joinFields (order row).key)) = true)
    (hTable : (rows.map table).Nodup)
    (hSame : ∀ row ∈ rows, ∀ next ∈ rows,
      sortKey (order row).rank (joinFields (order row).key) =
          sortKey (order next).rank
            (joinFields (order next).key) →
        table row = table next)
    (hRank : ∀ row ∈ rows, (order row).rank < 10)
    (hLength : ∀ row ∈ rows, ∀ next ∈ rows,
      (order row).rank = (order next).rank →
        (order row).key.length = (order next).key.length)
    (hKey : ∀ row ∈ rows, Separable (order row).key) :
    rows.Pairwise fun row next =>
      (order row).Before (order next) := by
  rw [inOrder_eq_true_iff, List.pairwise_map] at hOrder
  rw [List.Nodup, List.pairwise_map] at hTable
  have hBoth := hOrder.and hTable
  refine List.Pairwise.imp_of_mem ?_ hBoth
  rintro row next hRow hNext ⟨hLe, hNe⟩
  apply before_of_sortKey_lt (hRank row hRow)
    (hRank next hNext) (hLength row hRow next hNext)
    (hKey row hRow) (hKey next hNext)
  apply Std.lt_of_le_of_ne hLe
  intro hEq
  exact hNe (hSame row hRow next hNext hEq)

------------------------------------------------------------
-- Accepted Files
------------------------------------------------------------

theorem Kind.index_injective
    {kind kind' : Kind}
    (hIndex : kind.index = kind'.index) :
    kind = kind' := by
  cases kind <;> cases kind' <;>
    first
      | rfl
      | exact absurd hIndex (by decide)

theorem Kind.index_lt (kind : Kind) : kind.index < 10 := by
  cases kind <;> decide

theorem UpstreamKind.index_injective
    {kind kind' : UpstreamKind}
    (hIndex : kind.index = kind'.index) :
    kind = kind' := by
  cases kind <;> cases kind' <;>
    first
      | rfl
      | exact absurd hIndex (by decide)

theorem UpstreamKind.index_lt
    (kind : UpstreamKind) : kind.index < 10 := by
  cases kind <;> decide

/- Rows of one kind have keys of one length. -/
theorem length_keyFields
    {row next : Row}
    (hKind : kindOf row = kindOf next) :
    (keyFields row).length = (keyFields next).length := by
  unfold keyFields
  rw [hKind]
  cases kindOf next with
  | none => rfl
  | some kind => cases kind <;> rfl

theorem length_upstreamKeyFields
    {row next : Row}
    (hKind : upstreamKindOf row = upstreamKindOf next) :
    (upstreamKeyFields row).length =
      (upstreamKeyFields next).length := by
  unfold upstreamKeyFields
  rw [hKind]
  cases upstreamKindOf next with
  | none => rfl
  | some kind => cases kind <;> rfl

theorem sortKey_inj
    {i j : Nat}
    {key key' : Bytes}
    (hI : i < 10)
    (hJ : j < 10)
    (hSame : sortKey i key = sortKey j key') :
    i = j ∧ key = key' := by
  have hIrrefl : ¬ sortKey i key < sortKey j key' := by
    rw [hSame]
    exact List.lt_irrefl _
  have hIrrefl' : ¬ sortKey j key' < sortKey i key := by
    rw [hSame]
    exact List.lt_irrefl _
  rw [sortKey_lt_iff hI hJ] at hIrrefl
  rw [sortKey_lt_iff hJ hI] at hIrrefl'
  unfold sortKey at hSame
  injection hSame with _ hSame
  injection hSame with _ hKey
  exact ⟨by omega, hKey⟩

/- The rows of an accepted lock. -/
theorem LockAccepted.canonical
    {rootsOk : Bytes → Bool}
    {first : Row}
    {rest : List Row}
    (hAccepted : LockAccepted rootsOk first rest) :
    CanonicalRows lockOrder (first :: rest) := by
  have hKinds :
      ∀ row ∈ rest, ∃ kind, kindOf row = some kind ∧
        row.field 0 = kind.name := by
    intro row hRow
    rcases exists_kind_of_checkColumns
        (hAccepted.columns row (by simp [hRow])) with
      ⟨kind, hKind, hName, _⟩
    exact ⟨kind, hKind, hName⟩
  have hFirst : kindOf first = some .release := by
    apply kindOf_of_name
    exact of_decide_eq_true hAccepted.isRelease
  apply CanonicalRows.of_increasing
  rw [List.pairwise_cons]
  constructor
  · intro row hRow
    left
    rcases hKinds row hRow with ⟨kind, hKind, hName⟩
    have hOther := hAccepted.others row hRow
    unfold lockOrder
    rw [hFirst, hKind]
    change Kind.release.index < kind.index
    cases kind with
    | release =>
        exact absurd (decide_eq_true hName) hOther
    | image => decide
    | pool => decide
    | package => decide
    | board => decide
    | upstream => decide
    | apt => decide
    | data => decide
  · have hGathered := hAccepted.gathered
    unfold checkGathered at hGathered
    rw [require_bind_eq_ok_iff, require_bind_eq_ok_iff,
      require_bind_eq_ok_iff, require_eq_ok_iff] at hGathered
    have hOrder := hGathered.2.2.2
    unfold gather at hOrder
    rw [sortKeys_foldl_add, Gathered.empty, List.nil_append]
      at hOrder
    apply @pairwise_before lockOrder rowTableKey rest hOrder
      hAccepted.keys
    · intro row hRow next hNext hSame
      rcases hKinds row hRow with ⟨kind, hKind, hName⟩
      rcases hKinds next hNext with ⟨kind', hKind', hName'⟩
      unfold lockOrder at hSame
      rw [hKind, hKind'] at hSame
      rcases sortKey_inj kind.index_lt kind'.index_lt hSame with
        ⟨hIndex, hKey⟩
      unfold rowTableKey
      rw [hName, hName', Kind.index_injective hIndex, hKey]
    · intro row hRow
      rcases hKinds row hRow with ⟨kind, hKind, _⟩
      unfold lockOrder
      rw [hKind]
      exact kind.index_lt
    · intro row hRow next hNext hRank
      rcases hKinds row hRow with ⟨kind, hKind, _⟩
      rcases hKinds next hNext with ⟨kind', hKind', _⟩
      unfold lockOrder at hRank ⊢
      rw [hKind, hKind'] at hRank
      apply length_keyFields
      rw [hKind, hKind', Kind.index_injective hRank]
    · intro row hRow
      exact separable_keyFields (hAccepted.fields row hRow)

/- Upstream rows, and what was gathered before them. -/
theorem checkUpstreamRows_eq_ok
    {gathered after : UpstreamGathered}
    {rows : List Row}
    (hKeys : gathered.keys.Nodup)
    (hRows :
      checkUpstreamRows gathered rows = .ok after) :
    (∀ row ∈ rows, checkUpstreamFields row = .ok ()) ∧
      (gathered.keys ++
        rows.map fun row =>
          tableKey (row.field 0)
            (joinFields (upstreamKeyFields row))).Nodup ∧
      after.sortKeys =
        gathered.sortKeys ++
          rows.map fun row =>
            sortKey (upstreamOrder row).rank
              (joinFields (upstreamOrder row).key) := by
  induction rows generalizing gathered with
  | nil =>
      simp only [checkUpstreamRows, Except.ok.injEq] at hRows
      subst hRows
      simp [hKeys]
  | cons row rows ih =>
      rw [checkUpstreamRows, bind_eq_ok_iff] at hRows
      rcases hRows with ⟨next, hRow, hRest⟩
      unfold checkUpstreamRow at hRow
      rw [unit_bind_eq_ok_iff, require_bind_eq_ok_iff] at hRow
      rcases hRow with ⟨hFields, hNew, hNext⟩
      simp only [pure, Except.pure, Except.ok.injEq] at hNext
      subst hNext
      rw [decide_eq_true_eq] at hNew
      have hMore :
          (gathered.keys ++
            [tableKey (row.field 0)
              (joinFields (upstreamKeyFields row))]).Nodup := by
        rw [← List.concat_eq_append, List.nodup_concat]
        exact ⟨hNew, hKeys⟩
      rcases ih hMore hRest with ⟨hRows, hTable, hSorted⟩
      refine ⟨List.forall_mem_cons.mpr ⟨hFields, hRows⟩, ?_, ?_⟩
      · rwa [List.append_assoc] at hTable
      · rw [hSorted, List.append_assoc]
        rfl

/- The rows of an accepted `upstream.lock`. -/
theorem checkUpstream_canonical
    {file : Bytes}
    (hAccepted : checkUpstream iconv file = .ok ()) :
    ∃ rows, readRows iconv file = .ok rows ∧
      CanonicalRows upstreamOrder rows := by
  unfold checkUpstream at hAccepted
  rw [bind_eq_ok_iff] at hAccepted
  rcases hAccepted with ⟨rows, hRead, hAccepted⟩
  rw [unit_bind_eq_ok_iff, forM_eq_ok_iff, bind_eq_ok_iff]
    at hAccepted
  rcases hAccepted with ⟨hColumns, gathered, hRows, hOrder⟩
  rw [require_eq_ok_iff] at hOrder
  rcases checkUpstreamRows_eq_ok List.nodup_nil hRows with
    ⟨hFields, hTable, hSorted⟩
  rw [List.nil_append] at hTable hSorted
  rw [hSorted] at hOrder
  have hKinds :
      ∀ row ∈ rows, ∃ kind, upstreamKindOf row = some kind ∧
        row.field 0 = kind.name := by
    intro row hRow
    have hColumn := hColumns row hRow
    unfold checkUpstreamColumns at hColumn
    rw [require_bind_eq_ok_iff, unit_bind_eq_ok_iff,
      require_eq_ok_iff] at hColumn
    cases hKind : upstreamKindOf row with
    | none => simp [hKind] at hColumn
    | some kind =>
        have hName := List.find?_some hKind
        rw [decide_eq_true_eq] at hName
        exact ⟨kind, rfl, hName.symm⟩
  refine ⟨rows, hRead, CanonicalRows.of_increasing ?_⟩
  apply @pairwise_before upstreamOrder
    (fun row =>
      tableKey (row.field 0)
        (joinFields (upstreamKeyFields row)))
    rows hOrder hTable
  · intro row hRow next hNext hSame
    rcases hKinds row hRow with ⟨kind, hKind, hName⟩
    rcases hKinds next hNext with ⟨kind', hKind', hName'⟩
    unfold upstreamOrder at hSame
    rw [hKind, hKind'] at hSame
    rcases sortKey_inj kind.index_lt kind'.index_lt hSame with
      ⟨hIndex, hKey⟩
    rw [hName, hName', UpstreamKind.index_injective hIndex,
      hKey]
  · intro row hRow
    rcases hKinds row hRow with ⟨kind, hKind, _⟩
    unfold upstreamOrder
    rw [hKind]
    exact kind.index_lt
  · intro row hRow next hNext hRank
    rcases hKinds row hRow with ⟨kind, hKind, _⟩
    rcases hKinds next hNext with ⟨kind', hKind', _⟩
    unfold upstreamOrder at hRank ⊢
    rw [hKind, hKind'] at hRank
    apply length_upstreamKeyFields
    rw [hKind, hKind', UpstreamKind.index_injective hRank]
  · intro row hRow
    exact separable_upstreamKeyFields (hFields row hRow)

theorem checkLock_canonicalRows
    {expand : Bytes → List Bytes}
    {file : Bytes}
    (hAccepted : checkLock iconv expand file = .ok ()) :
    ∃ rows, readRows iconv file = .ok rows ∧
      CanonicalRows lockOrder rows := by
  rcases checkLockWith_eq_ok_iff.mp hAccepted with
    ⟨first, rest, hRead, hRows⟩
  exact ⟨first :: rest, hRead, hRows.canonical⟩

/-
  Accepted files list their rows in one order, in which no
  key is there twice; the same rows are the same list.
-/
theorem checkLock_canonical (iconv : Iconv) :
    (∀ (expand : Bytes → List Bytes) (file : Bytes),
      checkLock iconv expand file = .ok () →
        ∃ rows, readRows iconv file = .ok rows ∧
          CanonicalRows lockOrder rows) ∧
      (∀ file : Bytes,
        checkUpstream iconv file = .ok () →
          ∃ rows, readRows iconv file = .ok rows ∧
            CanonicalRows upstreamOrder rows) ∧
      (∀ (expand expand' : Bytes → List Bytes)
          (file file' : Bytes) (rows rows' : List Row),
        checkLock iconv expand file = .ok () →
          checkLock iconv expand' file' = .ok () →
          readRows iconv file = .ok rows →
          readRows iconv file' = .ok rows' →
          (∀ row, row ∈ rows ↔ row ∈ rows') →
            rows = rows') ∧
      (∀ (file file' : Bytes) (rows rows' : List Row),
        checkUpstream iconv file = .ok () →
          checkUpstream iconv file' = .ok () →
          readRows iconv file = .ok rows →
          readRows iconv file' = .ok rows' →
          (∀ row, row ∈ rows ↔ row ∈ rows') →
            rows = rows') := by
  refine ⟨fun _ _ => checkLock_canonicalRows,
    fun _ => checkUpstream_canonical, ?_, ?_⟩
  · intro expand expand' file file' rows rows' hFile hFile'
      hRead hRead' hSame
    rcases checkLock_canonicalRows hFile with
      ⟨found, hFound, hRows⟩
    rcases checkLock_canonicalRows hFile' with
      ⟨found', hFound', hRows'⟩
    rw [hRead, Except.ok.injEq] at hFound
    rw [hRead', Except.ok.injEq] at hFound'
    subst hFound hFound'
    exact hRows.eq_of_same hRows' hSame
  · intro file file' rows rows' hFile hFile' hRead hRead' hSame
    rcases checkUpstream_canonical hFile with
      ⟨found, hFound, hRows⟩
    rcases checkUpstream_canonical hFile' with
      ⟨found', hFound', hRows'⟩
    rw [hRead, Except.ok.injEq] at hFound
    rw [hRead', Except.ok.injEq] at hFound'
    subst hFound hFound'
    exact hRows.eq_of_same hRows' hSame

end Locks

end MicaBoards
