import Mathlib.Data.List.Basic

/-
  Comparison functions made of others: by a key, and of lists
  that go on with a padding element without end. Both keep
  the order laws of the functions they are made of.

  Main declarations:
    * `compareBy`
    * `comparePadded`
    * `comparePadded_eq`
-/

------------------------------------------------------------
-- Keys
------------------------------------------------------------

namespace MicaBoards

variable {α β : Type}

/- Compare the keys. -/
def compareBy
    (cmp : β → β → Ordering)
    (key : α → β)
    (x y : α) : Ordering :=
  cmp (key x) (key y)

instance
    {cmp : β → β → Ordering}
    [Std.ReflCmp cmp]
    {key : α → β} :
    Std.ReflCmp (compareBy cmp key) where
  compare_self {x} := @Std.ReflCmp.compare_self _ cmp _ (key x)

instance
    {cmp : β → β → Ordering}
    [Std.OrientedCmp cmp]
    {key : α → β} :
    Std.OrientedCmp (compareBy cmp key) where
  eq_swap {x y} :=
    @Std.OrientedCmp.eq_swap _ cmp _ (key x) (key y)

instance
    {cmp : β → β → Ordering}
    [Std.TransCmp cmp]
    {key : α → β} :
    Std.TransCmp (compareBy cmp key) where
  isLE_trans {x y z} :=
    @Std.TransCmp.isLE_trans _ cmp _ (key x) (key y) (key z)

------------------------------------------------------------
-- Padded Lists
------------------------------------------------------------

variable (cmp : α → α → Ordering)

variable (pad : α)

/- The padding against a list. -/
def comparePad : List α → Ordering
| [] => .eq
| y :: ys => (cmp pad y).then (comparePad ys)

/- The first difference decides. -/
def comparePadded : List α → List α → Ordering
| [], ys => comparePad cmp pad ys
| x :: xs, [] => (cmp x pad).then (comparePadded xs [])
| x :: xs, y :: ys => (cmp x y).then (comparePadded xs ys)

variable {cmp pad}

/- The heads decide, or the tails. -/
theorem comparePadded_eq
    [Std.ReflCmp cmp]
    (xs ys : List α) :
    comparePadded cmp pad xs ys =
      (cmp (xs.headD pad) (ys.headD pad)).then
        (comparePadded cmp pad xs.tail ys.tail) := by
  cases xs with
  | nil =>
      cases ys with
      | nil =>
          simp [comparePadded, comparePad,
            Std.ReflCmp.compare_self]
      | cons y ys => simp [comparePadded, comparePad]
  | cons x xs =>
      cases ys with
      | nil => simp [comparePadded]
      | cons y ys => simp [comparePadded]

------------------------------------------------------------
-- Order Laws
------------------------------------------------------------

/- A list is as itself. -/
theorem comparePadded_self
    [Std.ReflCmp cmp]
    (xs : List α) :
    comparePadded cmp pad xs xs = .eq := by
  induction xs with
  | nil => rfl
  | cons x xs ih =>
      simp [comparePadded, Std.ReflCmp.compare_self, ih]

/- Swapping the lists swaps the answer. -/
theorem comparePadded_swap
    [Std.OrientedCmp cmp]
    (xs ys : List α) :
    comparePadded cmp pad xs ys =
      (comparePadded cmp pad ys xs).swap := by
  induction xs generalizing ys with
  | nil =>
      induction ys with
      | nil => rfl
      | cons y ys ih =>
          rw [comparePadded] at ih
          rw [comparePadded, comparePadded, comparePad,
            Ordering.swap_then, ih, @Std.OrientedCmp.eq_swap _ cmp _ pad y]
  | cons x xs ih =>
      cases ys with
      | nil =>
          have hTail := ih []
          rw [@comparePadded.eq_1 _ _ _ xs] at hTail
          rw [comparePadded, comparePadded, comparePad,
            Ordering.swap_then, hTail,
            @Std.OrientedCmp.eq_swap _ cmp _ x pad]
      | cons y ys =>
          rw [comparePadded, comparePadded, Ordering.swap_then,
            ih, @Std.OrientedCmp.eq_swap _ cmp _ x y]

/-
  What is at most is at most by the first part, and by the
  second where the first is equal.
-/
theorem isLE_then_iff
    (first second : Ordering) :
    (first.then second).isLE = true ↔
      first = .lt ∨ (first = .eq ∧ second.isLE = true) := by
  cases first <;> cases second <;> simp [Ordering.then]

/- At most, and then at most again. -/
theorem comparePadded_isLE_trans
    [Std.TransCmp cmp]
    {xs ys zs : List α}
    (hLeft : (comparePadded cmp pad xs ys).isLE = true)
    (hRight : (comparePadded cmp pad ys zs).isLE = true) :
    (comparePadded cmp pad xs zs).isLE = true := by
  -- on a length that bounds all three lists
  have hAll :
      ∀ (n : Nat) (xs ys zs : List α),
        xs.length ≤ n → ys.length ≤ n → zs.length ≤ n →
        (comparePadded cmp pad xs ys).isLE = true →
        (comparePadded cmp pad ys zs).isLE = true →
        (comparePadded cmp pad xs zs).isLE = true := by
    intro n
    induction n with
    | zero =>
        intro xs ys zs hXs _ hZs _ _
        rw [List.length_eq_zero_iff.mp (Nat.le_zero.mp hXs),
          List.length_eq_zero_iff.mp (Nat.le_zero.mp hZs)]
        rfl
    | succ n ih =>
        intro xs ys zs hXs hYs hZs hLeft hRight
        rw [comparePadded_eq, isLE_then_iff] at hLeft hRight ⊢
        rcases hLeft with hLt | ⟨hEq, hLeft⟩
        · left
          rcases hRight with hLt' | ⟨hEq', _⟩
          · exact Std.TransCmp.lt_trans hLt hLt'
          · exact Std.TransCmp.lt_of_lt_of_eq hLt hEq'
        · rcases hRight with hLt' | ⟨hEq', hRight⟩
          · left
            exact Std.TransCmp.lt_of_eq_of_lt hEq hLt'
          · right
            refine ⟨Std.TransCmp.eq_trans hEq hEq', ?_⟩
            refine ih _ _ _ ?_ ?_ ?_ hLeft hRight <;>
              rw [List.length_tail] <;> omega
  exact
    hAll (max xs.length (max ys.length zs.length)) xs ys zs
      (by omega) (by omega) (by omega) hLeft hRight

instance [Std.ReflCmp cmp] : Std.ReflCmp (comparePadded cmp pad) where
  compare_self := comparePadded_self _

instance [Std.OrientedCmp cmp] :
    Std.OrientedCmp (comparePadded cmp pad) where
  eq_swap := comparePadded_swap _ _

instance [Std.TransCmp cmp] :
    Std.TransCmp (comparePadded cmp pad) where
  isLE_trans := comparePadded_isLE_trans

end MicaBoards
