import MicaBoards.Foundations.PaddedOrder
import Mathlib.Order.Compare
import Mathlib.Data.List.TakeDrop
import Mathlib.Data.List.TakeWhile

/-
  The version order of the package-version guard (`vercmp` in
  `tools/deb/version-guard.sh`).

  The letters of a version are those of ASCII, and an epoch
  is a number: `producers.sh` admits no others. The answers
  -1, 0 and 1 are `lt`, `eq` and `gt`. There is no answer where
  `int` raises, which takes no more digits than Python's limit.

  Main declarations:
    * `vercmp`
    * `compareVersions`, and its order laws
    * `vercmp_eq_some`
-/

------------------------------------------------------------
-- Parts
------------------------------------------------------------

namespace MicaBoards

namespace Release

/- `str.isdigit` -/
def isDigit (c : Char) : Bool :=
  48 ≤ c.toNat ∧ c.toNat ≤ 57

/- `str.isalpha` -/
def isAlpha (c : Char) : Bool :=
  (65 ≤ c.toNat ∧ c.toNat ≤ 90) ∨
    (97 ≤ c.toNat ∧ c.toNat ≤ 122)

/- `order` -/
def order (c : Char) : Int :=
  if isDigit c then 0
  else if isAlpha c then c.toNat
  else if c = '~' then -1
  else c.toNat + 256

/- The value of digits, 0 of none. -/
def valueOf (digits : List Char) : Nat :=
  digits.foldl (fun n c => 10 * n + (c.toNat - 48)) 0

/- The limit that Python sets on `int` unless it is told. -/
def maxStrDigits : Nat := 4300

/- `int` of digits, or of 0 for none; it may raise. -/
def intOf (digits : List Char) : Option Nat :=
  if digits.length ≤ maxStrDigits then some (valueOf digits)
  else none

/- The longest start without digits. -/
def nonDigits (a : List Char) : List Char :=
  a.takeWhile (fun c => !isDigit c)

/- What follows it. -/
def afterNonDigits (a : List Char) : List Char :=
  a.dropWhile (fun c => !isDigit c)

/- The digits at the start of what follows it. -/
def digits (a : List Char) : List Char :=
  (afterNonDigits a).takeWhile isDigit

/- Their number. -/
def number (a : List Char) : Nat :=
  valueOf (digits a)

/- What is left for the next turn. -/
def afterNumber (a : List Char) : List Char :=
  (afterNonDigits a).dropWhile isDigit

/- A turn takes something. -/
theorem length_afterNumber
    {a : List Char}
    (hNonempty : a ≠ []) :
    (afterNumber a).length < a.length := by
  cases a with
  | nil => exact absurd rfl hNonempty
  | cons c a =>
      have hOuter :=
        (List.dropWhile_suffix (fun c => !isDigit c)
          (l := a)).length_le
      unfold afterNumber afterNonDigits
      cases hDigit : isDigit c with
      | true =>
          have hInner :=
            (List.dropWhile_suffix isDigit (l := a)).length_le
          simp only [List.dropWhile_cons, hDigit, Bool.not_true,
            Bool.false_eq_true, if_false, if_true,
            List.length_cons]
          omega
      | false =>
          have hInner :=
            (List.dropWhile_suffix isDigit
              (l := a.dropWhile fun c => !isDigit c)).length_le
          simp only [List.dropWhile_cons, hDigit, Bool.not_false,
            if_true, List.length_cons]
          omega

@[simp] theorem afterNumber_nil : afterNumber [] = [] := rfl

/- A turn takes nothing that is not there. -/
theorem length_afterNumber_le (a : List Char) :
    (afterNumber a).length ≤ a.length := by
  cases a with
  | nil => exact Nat.le_refl _
  | cons c a =>
      exact Nat.le_of_lt (length_afterNumber (by simp))

/- `x or y`, as 0 is false -/
def orNext
    (first : Ordering)
    (next : Option Ordering) : Option Ordering :=
  if first = .eq then next else some first

/- Compare the numbers, and go on where they are equal. -/
def compareInts
    (d e : List Char)
    (next : Option Ordering) : Option Ordering := do
  let da ← intOf d
  let db ← intOf e
  orNext (compare da db) next

/- `part` -/
def part (a b : List Char) : Option Ordering :=
  if _hMore : a = [] ∧ b = [] then
    some .eq
  else
    orNext
      (comparePadded compare 0 ((nonDigits a).map order)
        ((nonDigits b).map order))
      (compareInts (digits a) (digits b)
        (part (afterNumber a) (afterNumber b)))
termination_by a.length + b.length
decreasing_by
  have hA := length_afterNumber_le a
  have hB := length_afterNumber_le b
  by_cases hNil : a = []
  · have hB := length_afterNumber fun h => _hMore ⟨hNil, h⟩
    omega
  · have hA := length_afterNumber hNil
    omega

/- `str.rpartition`, if the separator is there -/
def rpartition
    (separator : Char)
    (v : List Char) : Option (List Char × List Char) :=
  if separator ∈ v then
    some
      ((v.reverse.dropWhile (· ≠ separator)).tail.reverse,
        (v.reverse.takeWhile (· ≠ separator)).reverse)
  else
    none

/- What `split` makes of a version. -/
structure VersionParts where
  epoch : Nat
  upstream : List Char
  revision : List Char
deriving DecidableEq, Repr

/- The digits of the epoch, the upstream, the revision. -/
def pieces (v : List Char) :
    List Char × List Char × List Char :=
  let (epoch, rest) := (rpartition ':' v).getD (['0'], v)
  let (up, rev) := (rpartition '-' rest).getD (rest, ['0'])
  (epoch, up, rev)

/- `split` -/
def split (v : List Char) : Option VersionParts := do
  let epoch ← intOf (pieces v).1
  return ⟨epoch, (pieces v).2.1, (pieces v).2.2⟩

/- `vercmp` -/
def vercmp (v w : List Char) : Option Ordering := do
  let a ← split v
  let b ← split w
  let upstream ← orNext (compare a.epoch b.epoch)
    (part a.upstream b.upstream)
  orNext upstream (part a.revision b.revision)

------------------------------------------------------------
-- The Order
------------------------------------------------------------

/- A turn's part: what is no digit, and the number. -/
abbrev Turn := List Int × Nat

/- What is no digit decides, or else the number. -/
def compareTurn : Turn → Turn → Ordering :=
  compareLex (compareBy (comparePadded compare 0) Prod.fst)
    (compareBy compare Prod.snd)

instance : Std.TransCmp compareTurn :=
  inferInstanceAs (Std.TransCmp (compareLex _ _))

instance : Std.ReflCmp compareTurn :=
  inferInstanceAs (Std.ReflCmp (compareLex _ _))

/- All turns of a string. -/
def turns (a : List Char) : List Turn :=
  if _hMore : a = [] then
    []
  else
    ((nonDigits a).map order, number a) :: turns (afterNumber a)
termination_by a.length
decreasing_by exact length_afterNumber _hMore

/- Past its end a string goes on with empty turns. -/
theorem headD_turns (a : List Char) :
    (turns a).headD ([], 0) =
      ((nonDigits a).map order, number a) := by
  rw [turns]
  split_ifs with hNil
  · rw [hNil]
    rfl
  · rfl

theorem tail_turns (a : List Char) :
    (turns a).tail = turns (afterNumber a) := by
  rw [turns]
  split_ifs with hNil
  · rw [hNil, afterNumber_nil, turns, dif_pos rfl]
    rfl
  · rfl

/- All turns decide, past the shorter end too. -/
def comparePart : List Char → List Char → Ordering :=
  compareBy (comparePadded compareTurn ([], 0)) turns

/- The first turn decides, or those behind it. -/
theorem comparePart_eq (a b : List Char) :
    comparePart a b =
      (comparePadded compare 0 ((nonDigits a).map order)
          ((nonDigits b).map order)).then
        ((compare (number a) (number b)).then
          (comparePart (afterNumber a) (afterNumber b))) := by
  rw [comparePart, compareBy, comparePadded_eq, headD_turns,
    headD_turns, tail_turns, tail_turns, ← Ordering.then_assoc]
  rfl

instance : Std.TransCmp comparePart :=
  inferInstanceAs (Std.TransCmp (compareBy _ turns))

instance : Std.ReflCmp comparePart :=
  inferInstanceAs (Std.ReflCmp (compareBy _ turns))

/- The epochs decide, or the upstreams, or the revisions. -/
def compareParts : VersionParts → VersionParts → Ordering :=
  compareLex (compareBy compare VersionParts.epoch)
    (compareLex (compareBy comparePart VersionParts.upstream)
      (compareBy comparePart VersionParts.revision))

instance : Std.TransCmp compareParts :=
  inferInstanceAs (Std.TransCmp (compareLex _ _))

instance : Std.ReflCmp compareParts :=
  inferInstanceAs (Std.ReflCmp (compareLex _ _))

/- A version in parts, its epoch of any length. -/
def versionParts (v : List Char) : VersionParts where
  epoch := valueOf (pieces v).1
  upstream := (pieces v).2.1
  revision := (pieces v).2.2

/- The order of versions, with numbers of any length. -/
def compareVersions : List Char → List Char → Ordering :=
  compareBy compareParts versionParts

/- The version order is transitive, and swaps. -/
instance : Std.TransCmp compareVersions :=
  inferInstanceAs (Std.TransCmp (compareBy _ versionParts))

/- A version is as itself. -/
instance : Std.ReflCmp compareVersions :=
  inferInstanceAs (Std.ReflCmp (compareBy _ versionParts))

------------------------------------------------------------
-- Answers
------------------------------------------------------------

theorem intOf_eq_some
    {digits : List Char}
    {n : Nat}
    (hInt : intOf digits = some n) :
    n = valueOf digits := by
  unfold intOf at hInt
  split_ifs at hInt
  exact (Option.some.inj hInt).symm

theorem orNext_eq_some
    {first sign : Ordering}
    {next : Option Ordering}
    (hNext : orNext first next = some sign) :
    (first ≠ .eq ∧ sign = first) ∨
      (first = .eq ∧ next = some sign) := by
  unfold orNext at hNext
  split_ifs at hNext with hEq
  · exact Or.inr ⟨hEq, hNext⟩
  · exact Or.inl ⟨hEq, (Option.some.inj hNext).symm⟩

theorem then_eq_first
    {first next : Ordering}
    (hFirst : first ≠ .eq) :
    first.then next = first := by
  cases first with
  | lt => rfl
  | eq => exact absurd rfl hFirst
  | gt => rfl

/- What numbers answer is what their values do. -/
theorem compareInts_eq_some
    {d e : List Char}
    {next : Option Ordering}
    {sign rest : Ordering}
    (hInts : compareInts d e next = some sign)
    (hRest : ∀ sign, next = some sign → rest = sign) :
    (compare (valueOf d) (valueOf e)).then rest = sign := by
  simp only [compareInts, Option.bind_eq_bind,
    Option.bind_eq_some_iff] at hInts
  rcases hInts with ⟨da, hD, db, hE, hInts⟩
  rw [intOf_eq_some hD, intOf_eq_some hE] at hInts
  rcases orNext_eq_some hInts with ⟨hNe, rfl⟩ | ⟨hEq, hNext⟩
  · exact then_eq_first hNe
  · rw [hEq, hRest sign hNext]
    rfl

/- What `part` answers is the order of the turns. -/
theorem part_eq_some
    {a b : List Char}
    {sign : Ordering}
    (hPart : part a b = some sign) :
    comparePart a b = sign := by
  induction a, b using part.induct generalizing sign with
  | case1 a b hNil =>
      rw [part, dif_pos hNil] at hPart
      rw [← Option.some.inj hPart, hNil.1, hNil.2]
      exact Std.ReflCmp.compare_self
  | case2 a b hMore ih =>
      rw [part, dif_neg hMore] at hPart
      rw [comparePart_eq]
      rcases orNext_eq_some hPart with
        ⟨hNe, rfl⟩ | ⟨hEq, hInts⟩
      · exact then_eq_first hNe
      · rw [hEq]
        exact compareInts_eq_some hInts fun sign => ih

theorem split_eq_some
    {v : List Char}
    {parts : VersionParts}
    (hSplit : split v = some parts) :
    parts = versionParts v := by
  unfold split at hSplit
  rw [Option.bind_eq_bind, Option.bind_eq_some_iff] at hSplit
  rcases hSplit with ⟨epoch, hEpoch, hParts⟩
  rw [← Option.some.inj hParts, intOf_eq_some hEpoch]
  rfl

/- What `vercmp` answers is the order of the versions. -/
theorem vercmp_eq_some
    {v w : List Char}
    {sign : Ordering}
    (hSign : vercmp v w = some sign) :
    compareVersions v w = sign := by
  simp only [vercmp, Option.bind_eq_bind,
    Option.bind_eq_some_iff] at hSign
  rcases hSign with ⟨a, hA, b, hB, upstream, hFirst, hLast⟩
  rw [split_eq_some hA, split_eq_some hB] at hFirst hLast
  have hFront :
      (compare (versionParts v).epoch
          (versionParts w).epoch).then
        (comparePart (versionParts v).upstream
          (versionParts w).upstream) = upstream := by
    rcases orNext_eq_some hFirst with ⟨hNe, rfl⟩ | ⟨hEq, hPart⟩
    · exact then_eq_first hNe
    · rw [hEq, part_eq_some hPart]
      rfl
  have hAll :
      compareVersions v w =
        upstream.then
          (comparePart (versionParts v).revision
            (versionParts w).revision) := by
    rw [← hFront, Ordering.then_assoc]
    rfl
  rw [hAll]
  rcases orNext_eq_some hLast with ⟨hNe, rfl⟩ | ⟨hEq, hPart⟩
  · exact then_eq_first hNe
  · rw [hEq, part_eq_some hPart]
    rfl

end Release

end MicaBoards
