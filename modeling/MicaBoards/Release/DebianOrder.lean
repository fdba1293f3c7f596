import MicaBoards.Release.Version
import Mathlib.Data.List.Induction
import Mathlib.Data.Nat.Digits.Defs

/-
  The version order of deb-version(7), and the guard's
  `vercmp` against it.

  The order is said over the parts a string splits into: the
  longest start without digits, the longest number behind it,
  and the rest. The versions are those of the form that
  `producers.sh` admits. Their numbers may have any count of
  digits, and `vercmp` has no answer where it comes to one
  with more than `int` takes.

  Main declarations:
    * `Cut`
    * `Before`, `Same`
    * `MeetsLong`
    * `versionForm`
    * `vercmp_debianOrder`
-/

------------------------------------------------------------
-- The Order of deb-version(7)
------------------------------------------------------------

namespace MicaBoards

namespace Release

/-
  Characters without digits, and the end of a part: the tilde
  before the end, the end before letters, and letters before
  what else there is.
-/
inductive Precedes : Option Char → Option Char → Prop
| tilde_end : Precedes (some '~') none
| tilde_char {c : Char} :
    c ≠ '~' → Precedes (some '~') (some c)
| end_char {c : Char} :
    c ≠ '~' → Precedes none (some c)
| letters {c d : Char} :
    c.isAlpha → d.isAlpha → c.toNat < d.toNat →
      Precedes (some c) (some d)
| letter_other {c d : Char} :
    c.isAlpha → ¬ d.isAlpha → d ≠ '~' →
      Precedes (some c) (some d)
| others {c d : Char} :
    ¬ c.isAlpha → c ≠ '~' → ¬ d.isAlpha → d ≠ '~' →
      c.toNat < d.toNat → Precedes (some c) (some d)

/- The first difference decides, the end counting as one. -/
def TextBefore (x y : List Char) : Prop :=
  ∃ start x' y' : List Char,
    x = start ++ x' ∧ y = start ++ y' ∧
      Precedes x'.head? y'.head?

/- The value of a number. That of none is 0. -/
def numeral (digits : List Char) : Nat :=
  Nat.ofDigits 10
    (digits.reverse.map fun c => c.toNat - '0'.toNat)

/-
  A string cut behind its longest start without digits, and
  behind the longest number that follows.
-/
structure Cut (a text digits rest : List Char) : Prop where
  whole : a = text ++ (digits ++ rest)
  noDigits : ∀ c ∈ text, ¬ c.isDigit
  allDigits : ∀ c ∈ digits, c.isDigit
  digitsLongest : ∀ c : Char, rest.head? = some c → ¬ c.isDigit
  textLongest : digits = [] → rest = []

/- The order of upstream versions, and of revisions. -/
inductive Before : List Char → List Char → Prop
| text {a b x y d e s t : List Char} :
    Cut a x d s → Cut b y e t →
      TextBefore x y → Before a b
| number {a b x d e s t : List Char} :
    Cut a x d s → Cut b x e t →
      numeral d < numeral e → Before a b
| rest {a b x d e s t : List Char} :
    Cut a x d s → Cut b x e t →
      numeral d = numeral e → Before s t → Before a b

/- No difference is found until both are exhausted. -/
inductive Same : List Char → List Char → Prop
| exhausted : Same [] []
| rest {a b x d e s t : List Char} :
    Cut a x d s → Cut b x e t →
      numeral d = numeral e → Same s t → Same a b

/- The upstream version, and behind the last hyphen the revision. -/
structure IsVersion (v upstream revision : List Char) : Prop where
  whole : v = upstream ++ '-' :: revision
  last : '-' ∉ revision

/- The upstream versions decide, or else the revisions. -/
def DebianBefore (v w : List Char) : Prop :=
  ∃ up rev up' rev' : List Char,
    IsVersion v up rev ∧ IsVersion w up' rev' ∧
      (Before up up' ∨ Same up up' ∧ Before rev rev')

def DebianSame (v w : List Char) : Prop :=
  ∃ up rev up' rev' : List Char,
    IsVersion v up rev ∧ IsVersion w up' rev' ∧
      Same up up' ∧ Same rev rev'

/-
  The same up to a number, on one side or the other, of more
  digits than `int` takes.
-/
inductive MeetsLong : List Char → List Char → Prop
| left {a b x d e s t : List Char} :
    Cut a x d s → Cut b x e t →
      maxStrDigits < d.length → MeetsLong a b
| right {a b x d e s t : List Char} :
    Cut a x d s → Cut b x e t →
      maxStrDigits < e.length → MeetsLong a b
| rest {a b x d e s t : List Char} :
    Cut a x d s → Cut b x e t →
      numeral d = numeral e → MeetsLong s t → MeetsLong a b

/- In the upstream versions, or in the revisions. -/
def VersionsMeetLong (v w : List Char) : Prop :=
  ∃ up rev up' rev' : List Char,
    IsVersion v up rev ∧ IsVersion w up' rev' ∧
      (MeetsLong up up' ∨ Same up up' ∧ MeetsLong rev rev')

------------------------------------------------------------
-- Admitted Versions
------------------------------------------------------------

/- `[A-Za-z0-9.+~]` -/
def isVersionChar (c : Char) : Bool :=
  isAlpha c ∨ isDigit c ∨ c = '.' ∨ c = '+' ∨ c = '~'

/- `^[0-9][A-Za-z0-9.+~]*-[A-Za-z0-9.+~]+$` -/
def versionForm (v : List Char) : Bool :=
  match v with
  | [] => false
  | c :: rest =>
      isDigit c &&
        match rest.dropWhile isVersionChar with
        | '-' :: revision =>
            revision ≠ [] && revision.all isVersionChar
        | _ => false

/- An admitted version has one hyphen, and no colon. -/
theorem exists_of_versionForm
    {v : List Char}
    (hForm : versionForm v = true) :
    ∃ up rev : List Char,
      v = up ++ '-' :: rev ∧ (∀ c ∈ up, isVersionChar c = true) ∧
        ∀ c ∈ rev, isVersionChar c = true := by
  cases v with
  | nil => exact absurd hForm (by simp [versionForm])
  | cons c rest =>
      have hSplit :=
        @List.takeWhile_append_dropWhile _ isVersionChar rest
      rw [versionForm, Bool.and_eq_true] at hForm
      rcases hForm with ⟨hDigit, hRest⟩
      split at hRest
      · rename_i revision hTail
        rw [Bool.and_eq_true, List.all_eq_true] at hRest
        rw [hTail] at hSplit
        refine ⟨c :: rest.takeWhile isVersionChar, revision,
          ?_, ?_, hRest.2⟩
        · rw [List.cons_append, hSplit]
        · intro d hd
          rcases List.mem_cons.mp hd with hEq | hMem
          · rw [hEq]
            simp [isVersionChar, hDigit]
          · exact List.mem_takeWhile_imp hMem
      · exact absurd hRest (by simp)

theorem ne_of_isVersionChar
    {c : Char}
    (hChar : isVersionChar c = true) :
    c ≠ '-' ∧ c ≠ ':' := by
  constructor
  · rintro rfl
    exact absurd hChar (by decide)
  · rintro rfl
    exact absurd hChar (by decide)

------------------------------------------------------------
-- Characters
------------------------------------------------------------

theorem isDigit_eq (c : Char) : isDigit c = c.isDigit := by
  unfold isDigit Char.isDigit Char.toNat
  rw [Bool.eq_iff_iff]
  simp [UInt32.le_iff_toNat_le]

theorem isAlpha_eq (c : Char) : isAlpha c = c.isAlpha := by
  unfold isAlpha Char.isAlpha Char.isUpper Char.isLower
    Char.toNat
  rw [Bool.eq_iff_iff]
  simp [UInt32.le_iff_toNat_le]

/- `order`, and 0 for the end -/
def orderAt : Option Char → Int
| none => 0
| some c => order c

@[simp] theorem orderAt_none : orderAt none = 0 := rfl

@[simp] theorem orderAt_some (c : Char) :
    orderAt (some c) = order c := rfl

theorem order_tilde : order '~' = -1 := rfl

theorem order_alpha
    {c : Char}
    (hAlpha : c.isAlpha = true) :
    order c = c.toNat ∧ 65 ≤ c.toNat ∧ c.toNat ≤ 122 ∧
      c ≠ '~' := by
  rw [← isAlpha_eq] at hAlpha
  have hBounds : 65 ≤ c.toNat ∧ c.toNat ≤ 122 := by
    simp only [isAlpha, decide_eq_true_eq] at hAlpha
    omega
  have hDigit : ¬ isDigit c = true := by
    simp only [isDigit, decide_eq_true_eq]
    omega
  refine ⟨?_, hBounds.1, hBounds.2, ?_⟩
  · rw [order, if_neg hDigit, if_pos hAlpha]
  · rintro rfl
    exact absurd hBounds.2 (by decide)

theorem order_other
    {c : Char}
    (hDigit : ¬ c.isDigit = true)
    (hAlpha : ¬ c.isAlpha = true)
    (hTilde : c ≠ '~') :
    order c = c.toNat + 256 := by
  rw [← isDigit_eq] at hDigit
  rw [← isAlpha_eq] at hAlpha
  rw [order, if_neg hDigit, if_neg hAlpha, if_neg hTilde]

/- The three kinds of characters that are no digits. -/
theorem order_cases
    {c : Char}
    (hDigit : ¬ c.isDigit = true) :
    (c = '~' ∧ order c = -1) ∨
      (c.isAlpha = true ∧ c ≠ '~' ∧ order c = c.toNat ∧
        0 < c.toNat ∧ c.toNat < 256) ∨
      (¬ c.isAlpha = true ∧ c ≠ '~' ∧
        order c = c.toNat + 256) := by
  by_cases hTilde : c = '~'
  · left
    rw [hTilde]
    exact ⟨rfl, rfl⟩
  · right
    by_cases hAlpha : c.isAlpha = true
    · left
      rcases order_alpha hAlpha with ⟨hOrder, hLow, hHigh, hNe⟩
      exact ⟨hAlpha, hNe, hOrder, by omega, by omega⟩
    · right
      exact ⟨hAlpha, hTilde, order_other hDigit hAlpha hTilde⟩

theorem orderAt_lt_of_precedes
    {p q : Option Char}
    (hp : ∀ c : Char, p = some c → ¬ c.isDigit = true)
    (hq : ∀ c : Char, q = some c → ¬ c.isDigit = true)
    (hPrecedes : Precedes p q) :
    orderAt p < orderAt q := by
  cases hPrecedes with
  | tilde_end => decide
  | @tilde_char c hTilde =>
      simp only [orderAt_some]
      rw [order_tilde]
      rcases order_cases (hq c rfl) with
        ⟨hEq, _⟩ | ⟨_, _, hOrder, _⟩ | ⟨_, _, hOrder⟩
      · exact absurd hEq hTilde
      · omega
      · omega
  | @end_char c hTilde =>
      simp only [orderAt_none, orderAt_some]
      rcases order_cases (hq c rfl) with
        ⟨hEq, _⟩ | ⟨_, _, hOrder, _⟩ | ⟨_, _, hOrder⟩
      · exact absurd hEq hTilde
      · omega
      · omega
  | @letters c d hC hD hLt =>
      simp only [orderAt_some]
      rw [(order_alpha hC).1, (order_alpha hD).1]
      omega
  | @letter_other c d hC hD hTilde =>
      have hOrder := order_alpha hC
      simp only [orderAt_some]
      rw [hOrder.1, order_other (hq d rfl) hD hTilde]
      omega
  | @others c d hC hTilde hD hTilde' hLt =>
      simp only [orderAt_some]
      rw [order_other (hp c rfl) hC hTilde,
        order_other (hq d rfl) hD hTilde']
      omega

theorem precedes_of_orderAt_lt
    {p q : Option Char}
    (hp : ∀ c : Char, p = some c → ¬ c.isDigit = true)
    (hq : ∀ c : Char, q = some c → ¬ c.isDigit = true)
    (hLt : orderAt p < orderAt q) :
    Precedes p q := by
  cases p with
  | none =>
      cases q with
      | none => exact absurd hLt (by decide)
      | some d =>
          refine .end_char ?_
          rintro rfl
          exact absurd hLt (by decide)
  | some c =>
      rcases order_cases (hp c rfl) with
        ⟨hEq, hC⟩ | ⟨hAlpha, hTilde, hC, hSize⟩ |
          ⟨hOther, hTilde, hC⟩
      · rw [hEq] at hLt ⊢
        cases q with
        | none => exact .tilde_end
        | some d =>
            refine .tilde_char ?_
            rintro rfl
            exact absurd hLt (lt_irrefl _)
      · cases q with
        | none =>
            simp only [orderAt_none, orderAt_some, hC] at hLt
            omega
        | some d =>
            rcases order_cases (hq d rfl) with
              ⟨_, hD⟩ | ⟨hAlpha', _, hD, _⟩ |
                ⟨hOther', hTilde', hD⟩
            · simp only [orderAt_some, hC, hD] at hLt
              omega
            · simp only [orderAt_some, hC, hD] at hLt
              exact .letters hAlpha hAlpha' (by omega)
            · exact .letter_other hAlpha hOther' hTilde'
      · cases q with
        | none =>
            simp only [orderAt_none, orderAt_some, hC] at hLt
            omega
        | some d =>
            rcases order_cases (hq d rfl) with
              ⟨_, hD⟩ | ⟨_, _, hD, _⟩ | ⟨hOther', hTilde', hD⟩
            · simp only [orderAt_some, hC, hD] at hLt
              omega
            · simp only [orderAt_some, hC, hD] at hLt
              omega
            · simp only [orderAt_some, hC, hD] at hLt
              exact .others hOther hTilde hOther' hTilde'
                (by omega)

/- The guard's numbers order what is no digit as it should. -/
theorem precedes_iff
    {p q : Option Char}
    (hp : ∀ c : Char, p = some c → ¬ c.isDigit = true)
    (hq : ∀ c : Char, q = some c → ¬ c.isDigit = true) :
    Precedes p q ↔ orderAt p < orderAt q :=
  ⟨orderAt_lt_of_precedes hp hq, precedes_of_orderAt_lt hp hq⟩

/- No two of them share a number. -/
theorem orderAt_inj
    {p q : Option Char}
    (hp : ∀ c : Char, p = some c → ¬ c.isDigit = true)
    (hq : ∀ c : Char, q = some c → ¬ c.isDigit = true)
    (hSame : orderAt p = orderAt q) :
    p = q := by
  cases p with
  | none =>
      cases q with
      | none => rfl
      | some d =>
          rcases order_cases (hq d rfl) with
            ⟨_, hD⟩ | ⟨_, _, hD, _⟩ | ⟨_, _, hD⟩
          all_goals
            simp only [orderAt_none, orderAt_some, hD] at hSame
            omega
  | some c =>
      cases q with
      | none =>
          rcases order_cases (hp c rfl) with
            ⟨_, hC⟩ | ⟨_, _, hC, _⟩ | ⟨_, _, hC⟩
          all_goals
            simp only [orderAt_none, orderAt_some, hC] at hSame
            omega
      | some d =>
          have hNat : c.toNat = d.toNat := by
            rcases order_cases (hp c rfl) with
              ⟨hEq, hC⟩ | ⟨_, _, hC, _⟩ | ⟨_, _, hC⟩ <;>
            rcases order_cases (hq d rfl) with
              ⟨hEq', hD⟩ | ⟨_, _, hD, _⟩ | ⟨_, _, hD⟩
            · rw [hEq, hEq']
            all_goals
              simp only [orderAt_some, hC, hD] at hSame
              omega
          rw [Char.toNat_inj.mp hNat]

------------------------------------------------------------
-- Parts Without Digits
------------------------------------------------------------

/- Before by the heads, or behind equal heads. -/
theorem textBefore_iff (x y : List Char) :
    TextBefore x y ↔
      Precedes x.head? y.head? ∨
        (x.head? = y.head? ∧ x ≠ [] ∧
          TextBefore x.tail y.tail) := by
  constructor
  · rintro ⟨start, x', y', hX, hY, hPrecedes⟩
    cases start with
    | nil =>
        left
        rw [hX, hY]
        exact hPrecedes
    | cons c start =>
        right
        rw [hX, hY]
        exact ⟨rfl, by simp, start, x', y', rfl, rfl, hPrecedes⟩
  · rintro (hPrecedes | ⟨hHead, hNonempty, hTail⟩)
    · exact ⟨[], x, y, rfl, rfl, hPrecedes⟩
    · rcases hTail with ⟨start, x', y', hX, hY, hPrecedes⟩
      cases x with
      | nil => exact absurd rfl hNonempty
      | cons c x =>
          cases y with
          | nil => exact absurd hHead (by simp)
          | cons d y =>
              rw [List.head?_cons, List.head?_cons,
                Option.some.injEq] at hHead
              rw [List.tail_cons] at hX hY
              refine ⟨c :: start, x', y', ?_, ?_, hPrecedes⟩
              · rw [hX, List.cons_append]
              · rw [hHead, hY, List.cons_append]

theorem headD_map_order (x : List Char) :
    (x.map order).headD 0 = orderAt x.head? := by
  cases x with
  | nil => rfl
  | cons c x => rfl

/- The comparison of two parts without digits. -/
theorem comparePadded_order
    {x y : List Char}
    (hX : ∀ c ∈ x, ¬ c.isDigit = true)
    (hY : ∀ c ∈ y, ¬ c.isDigit = true) :
    (comparePadded compare 0 (x.map order) (y.map order) = .lt ↔
        TextBefore x y) ∧
      (comparePadded compare 0 (x.map order) (y.map order) =
          .eq ↔
        x = y) := by
  -- on a length that bounds both
  generalize hSize : x.length + y.length = n
  induction n using Nat.strong_induction_on generalizing x y with
  | _ n ih =>
      have hHeadX : ∀ c, x.head? = some c → ¬ c.isDigit = true :=
        fun c hc => hX c (List.mem_of_mem_head? hc)
      have hHeadY : ∀ c, y.head? = some c → ¬ c.isDigit = true :=
        fun c hc => hY c (List.mem_of_mem_head? hc)
      rw [comparePadded_eq, headD_map_order, headD_map_order,
        ← List.map_tail, ← List.map_tail, textBefore_iff,
        precedes_iff hHeadX hHeadY]
      rcases lt_trichotomy (orderAt x.head?) (orderAt y.head?)
        with hLt | hEq | hGt
      · have hNe : x ≠ y := by
          rintro rfl
          exact absurd hLt (lt_irrefl _)
        rw [compare_lt_iff_lt.mpr hLt]
        simp [hLt, hNe]
      · have hHead := orderAt_inj hHeadX hHeadY hEq
        rw [compare_eq_iff_eq.mpr hEq, Ordering.then]
        cases x with
        | nil =>
            cases y with
            | nil => simp [comparePadded, comparePad]
            | cons d y => exact absurd hHead (by simp)
        | cons c x =>
            cases y with
            | nil => exact absurd hHead (by simp)
            | cons d y =>
                have hTail :=
                  @ih (x.length + y.length)
                    (by simp only [List.length_cons] at hSize; omega)
                    x y
                    (fun c hc => hX c (by simp [hc]))
                    (fun c hc => hY c (by simp [hc])) rfl
                simp only [List.tail_cons, hTail.1, hTail.2]
                simp only [List.head?_cons, Option.some.injEq]
                  at hHead
                simp [hHead]
      · have hNe : x ≠ y := by
          rintro rfl
          exact absurd hGt (lt_irrefl _)
        have hHead : x.head? ≠ y.head? := by
          intro hSame
          rw [hSame] at hGt
          exact absurd hGt (lt_irrefl _)
        rw [compare_gt_iff_gt.mpr hGt]
        simp [not_lt_of_gt hGt, hNe, hHead]

------------------------------------------------------------
-- Cuts
------------------------------------------------------------

/- A cut of a string is what a turn of the loop takes. -/
theorem cut_iff
    {a x d s : List Char} :
    Cut a x d s ↔
      x = nonDigits a ∧ d = digits a ∧
        s = afterNumber a := by
  unfold digits afterNumber
  constructor
  · rintro ⟨hWhole, hText, hDigits, hLongest, hNone⟩
    have hHead :
        ∀ c, (d ++ s).head? = some c → c.isDigit = true := by
      intro c hc
      cases d with
      | nil =>
          rw [hNone rfl] at hc
          exact absurd hc (by simp)
      | cons d₀ d =>
          rw [List.cons_append, List.head?_cons,
            Option.some.injEq] at hc
          rw [← hc]
          exact hDigits d₀ (by simp)
    have hTake :
        nonDigits a = x ∧ afterNonDigits a = d ++ s := by
      have hX :
          ∀ c ∈ x, (!isDigit c) = true := by
        intro c hc
        simpa [isDigit_eq] using hText c hc
      rw [nonDigits, afterNonDigits, hWhole,
        List.takeWhile_append_of_pos hX,
        List.dropWhile_append_of_pos hX]
      cases hRest : d ++ s with
      | nil => simp
      | cons c rest =>
          have hc := hHead c (by rw [hRest, List.head?_cons])
          simp [isDigit_eq, hc]
    have hD : ∀ c ∈ d, isDigit c = true := by
      intro c hc
      rw [isDigit_eq]
      exact hDigits c hc
    rw [hTake.1, hTake.2, List.takeWhile_append_of_pos hD,
      List.dropWhile_append_of_pos hD]
    cases s with
    | nil => simp
    | cons c s =>
        have hc := hLongest c rfl
        simp [isDigit_eq, hc]
  · rintro ⟨rfl, rfl, rfl⟩
    have hOuter :
        nonDigits a ++ afterNonDigits a = a :=
      List.takeWhile_append_dropWhile
    have hInner :
        (afterNonDigits a).takeWhile isDigit ++
            (afterNonDigits a).dropWhile isDigit =
          afterNonDigits a :=
      List.takeWhile_append_dropWhile
    refine ⟨?_, ?_, ?_, ?_, ?_⟩
    · rw [hInner, hOuter]
    · intro c hc
      have hImp := List.mem_takeWhile_imp hc
      rw [isDigit_eq] at hImp
      simpa using hImp
    · intro c hc
      have hImp := List.mem_takeWhile_imp hc
      rwa [isDigit_eq] at hImp
    · intro c hc
      have hHead := List.head?_dropWhile_not isDigit
        (afterNonDigits a)
      rw [hc] at hHead
      simpa [isDigit_eq] using hHead
    · intro hNone
      cases hRest : afterNonDigits a with
      | nil => rfl
      | cons c rest =>
          have hHead := List.head?_dropWhile_not
            (fun c => !isDigit c) a
          rw [← afterNonDigits, hRest, List.head?_cons] at hHead
          rw [hRest] at hNone
          simp only [Bool.not_eq_eq_eq_not, Bool.not_false]
            at hHead
          rw [List.takeWhile_cons_of_pos hHead] at hNone
          exact absurd hNone (by simp)

/- `int` reads a number by its digits. -/
theorem valueOf_eq_numeral (digits : List Char) :
    valueOf digits = numeral digits := by
  induction digits using List.reverseRecOn with
  | nil => rfl
  | append_singleton digits c ih =>
      rw [valueOf, List.foldl_append, ← valueOf, ih, numeral,
        numeral, List.reverse_append, List.map_append,
        List.reverse_singleton, List.map_singleton,
        List.singleton_append, Nat.ofDigits_cons,
        List.foldl_cons, List.foldl_nil]
      have hZero : '0'.toNat = 48 := rfl
      rw [hZero]
      omega

theorem cut_self (a : List Char) :
    Cut a (nonDigits a) (digits a) (afterNumber a) :=
  cut_iff.mpr ⟨rfl, rfl, rfl⟩

/- The value a cut takes is the value the loop compares. -/
theorem Cut.numeral_eq
    {a x d s : List Char}
    (hCut : Cut a x d s) :
    numeral d = number a := by
  rw [number, valueOf_eq_numeral, (cut_iff.mp hCut).2.1]

------------------------------------------------------------
-- The Loop
------------------------------------------------------------

/- The first turn decides, or the turns behind it. -/
theorem before_iff (a b : List Char) :
    Before a b ↔
      TextBefore (nonDigits a) (nonDigits b) ∨
        (nonDigits a = nonDigits b ∧
          (number a < number b ∨
            (number a = number b ∧
              Before (afterNumber a) (afterNumber b)))) := by
  constructor
  · intro hBefore
    cases hBefore with
    | text hA hB hText =>
        left
        rw [← (cut_iff.mp hA).1, ← (cut_iff.mp hB).1]
        exact hText
    | number hA hB hLt =>
        right
        rw [← (cut_iff.mp hA).1, ← (cut_iff.mp hB).1,
          ← hA.numeral_eq, ← hB.numeral_eq]
        exact ⟨rfl, Or.inl hLt⟩
    | rest hA hB hEq hRest =>
        right
        rw [← (cut_iff.mp hA).1, ← (cut_iff.mp hB).1,
          ← hA.numeral_eq, ← hB.numeral_eq,
          ← (cut_iff.mp hA).2.2, ← (cut_iff.mp hB).2.2]
        exact ⟨rfl, Or.inr ⟨hEq, hRest⟩⟩
  · have hA := cut_self a
    have hB := cut_self b
    rintro (hText | ⟨hSame, hLt | ⟨hEq, hRest⟩⟩)
    · exact .text hA hB hText
    · rw [← hSame] at hB
      rw [← hA.numeral_eq, ← hB.numeral_eq] at hLt
      exact .number hA hB hLt
    · rw [← hSame] at hB
      rw [← hA.numeral_eq, ← hB.numeral_eq] at hEq
      exact .rest hA hB hEq hRest

theorem same_iff
    {a b : List Char}
    (hMore : ¬ (a = [] ∧ b = [])) :
    Same a b ↔
      nonDigits a = nonDigits b ∧ number a = number b ∧
        Same (afterNumber a) (afterNumber b) := by
  constructor
  · intro hSame
    cases hSame with
    | exhausted => exact absurd ⟨rfl, rfl⟩ hMore
    | rest hA hB hEq hRest =>
        rw [← (cut_iff.mp hA).1, ← (cut_iff.mp hB).1,
          ← hA.numeral_eq, ← hB.numeral_eq,
          ← (cut_iff.mp hA).2.2, ← (cut_iff.mp hB).2.2]
        exact ⟨rfl, hEq, hRest⟩
  · rintro ⟨hText, hEq, hRest⟩
    have hA := cut_self a
    have hB := cut_self b
    rw [← hText] at hB
    rw [← hA.numeral_eq, ← hB.numeral_eq] at hEq
    exact .rest hA hB hEq hRest

/- Nothing is not before nothing. -/
theorem not_before_nil
    {a b : List Char}
    (hBefore : Before a b) :
    ¬ (a = [] ∧ b = []) := by
  induction hBefore with
  | text hA hB hText =>
      rintro ⟨rfl, rfl⟩
      rw [(cut_iff.mp hA).1, (cut_iff.mp hB).1] at hText
      rcases hText with ⟨start, x', y', hX, hY, hPrecedes⟩
      rw [nonDigits, List.takeWhile_nil] at hX hY
      rw [(List.append_eq_nil_iff.mp hX.symm).2,
        (List.append_eq_nil_iff.mp hY.symm).2] at hPrecedes
      cases hPrecedes
  | number hA hB hLt =>
      rintro ⟨rfl, rfl⟩
      rw [hA.numeral_eq, hB.numeral_eq] at hLt
      exact absurd hLt (lt_irrefl _)
  | rest hA hB _ _ ih =>
      rintro ⟨rfl, rfl⟩
      apply ih
      rw [(cut_iff.mp hA).2.2, (cut_iff.mp hB).2.2]
      exact ⟨afterNumber_nil, afterNumber_nil⟩

/- The turns find what comes before, and what is the same. -/
theorem comparePart_order (a b : List Char) :
    (comparePart a b = .lt ↔ Before a b) ∧
      (comparePart a b = .eq ↔ Same a b) := by
  induction a, b using part.induct with
  | case1 a b hNil =>
      have hSelf : comparePart [] [] = .eq :=
        Std.ReflCmp.compare_self
      rw [hNil.1, hNil.2, hSelf]
      have hNot : ¬ Before [] [] :=
        fun h => not_before_nil h ⟨rfl, rfl⟩
      simp [hNot, Same.exhausted]
  | case2 a b hMore ih =>
      have hText :=
        comparePadded_order (cut_self a).noDigits
          (cut_self b).noDigits
      rw [comparePart_eq, before_iff, same_iff hMore,
        ← hText.1, ← hText.2, Ordering.then_eq_lt,
        Ordering.then_eq_lt, Ordering.then_eq_eq,
        Ordering.then_eq_eq, compare_lt_iff_lt,
        compare_eq_iff_eq, ih.1, ih.2]
      exact ⟨Iff.rfl, Iff.rfl⟩

------------------------------------------------------------
-- Long Numbers
------------------------------------------------------------

theorem MeetsLong.symm
    {a b : List Char}
    (hLong : MeetsLong a b) :
    MeetsLong b a := by
  induction hLong with
  | left hA hB hLength => exact .right hB hA hLength
  | right hA hB hLength => exact .left hB hA hLength
  | rest hA hB hEq _ ih => exact .rest hB hA hEq.symm ih

/- The first turn meets one, or the turns behind it. -/
theorem meetsLong_iff (a b : List Char) :
    MeetsLong a b ↔
      nonDigits a = nonDigits b ∧
        (maxStrDigits < (digits a).length ∨
          maxStrDigits < (digits b).length ∨
          (number a = number b ∧
            MeetsLong (afterNumber a) (afterNumber b))) := by
  constructor
  · intro hLong
    cases hLong with
    | left hA hB hLength =>
        rw [← (cut_iff.mp hA).1, ← (cut_iff.mp hB).1,
          ← (cut_iff.mp hA).2.1]
        exact ⟨rfl, Or.inl hLength⟩
    | right hA hB hLength =>
        rw [← (cut_iff.mp hA).1, ← (cut_iff.mp hB).1,
          ← (cut_iff.mp hB).2.1]
        exact ⟨rfl, Or.inr (Or.inl hLength)⟩
    | rest hA hB hEq hRest =>
        rw [← (cut_iff.mp hA).1, ← (cut_iff.mp hB).1,
          ← hA.numeral_eq, ← hB.numeral_eq,
          ← (cut_iff.mp hA).2.2, ← (cut_iff.mp hB).2.2]
        exact ⟨rfl, Or.inr (Or.inr ⟨hEq, hRest⟩)⟩
  · have hA := cut_self a
    have hB := cut_self b
    rintro ⟨hText, hLength | hLength | ⟨hEq, hRest⟩⟩
    all_goals rw [← hText] at hB
    · exact .left hA hB hLength
    · exact .right hA hB hLength
    · rw [← hA.numeral_eq, ← hB.numeral_eq] at hEq
      exact .rest hA hB hEq hRest

/- Nothing meets no number. -/
theorem not_meetsLong_nil
    {a b : List Char}
    (hLong : MeetsLong a b) :
    ¬ (a = [] ∧ b = []) := by
  have hNone : ∀ {x d s : List Char}, Cut [] x d s → d = [] :=
    fun hCut => (cut_iff.mp hCut).2.1
  induction hLong with
  | left hA hB hLength =>
      rintro ⟨rfl, rfl⟩
      rw [hNone hA] at hLength
      exact absurd hLength (by decide)
  | right hA hB hLength =>
      rintro ⟨rfl, rfl⟩
      rw [hNone hB] at hLength
      exact absurd hLength (by decide)
  | rest hA hB _ _ ih =>
      rintro ⟨rfl, rfl⟩
      apply ih
      rw [(cut_iff.mp hA).2.2, (cut_iff.mp hB).2.2]
      exact ⟨afterNumber_nil, afterNumber_nil⟩

theorem intOf_eq_none_iff
    {digits : List Char} :
    intOf digits = none ↔ maxStrDigits < digits.length := by
  unfold intOf
  split_ifs with hLength
  · simp [hLength]
  · simp [Nat.lt_of_not_le hLength]

theorem orNext_eq_none_iff
    {first : Ordering}
    {next : Option Ordering} :
    orNext first next = none ↔ first = .eq ∧ next = none := by
  unfold orNext
  split_ifs with hEq
  · simp [hEq]
  · simp [hEq]

/- Numbers have no answer where one is too long. -/
theorem compareInts_eq_none_iff
    {d e : List Char}
    {next : Option Ordering} :
    compareInts d e next = none ↔
      maxStrDigits < d.length ∨ maxStrDigits < e.length ∨
        (valueOf d = valueOf e ∧ next = none) := by
  rw [← intOf_eq_none_iff, ← intOf_eq_none_iff]
  unfold compareInts
  cases hD : intOf d with
  | none => simp
  | some da =>
      cases hE : intOf e with
      | none => simp
      | some db =>
          have hNext :=
            @orNext_eq_none_iff (compare da db) next
          rw [compare_eq_iff_eq] at hNext
          rw [← intOf_eq_some hD, ← intOf_eq_some hE]
          simpa using hNext

/- `part` has no answer just where both meet a long number. -/
theorem part_eq_none_iff (a b : List Char) :
    part a b = none ↔ MeetsLong a b := by
  induction a, b using part.induct with
  | case1 a b hNil =>
      have hNot : ¬ MeetsLong a b :=
        fun hLong => not_meetsLong_nil hLong hNil
      rw [part, dif_pos hNil]
      simp [hNot]
  | case2 a b hMore ih =>
      have hText :=
        comparePadded_order (cut_self a).noDigits
          (cut_self b).noDigits
      rw [part, dif_neg hMore, meetsLong_iff,
        orNext_eq_none_iff, compareInts_eq_none_iff, hText.2,
        ih]
      exact Iff.rfl

/- A number that was taken is not too long. -/
theorem compareInts_isLE
    {d e : List Char}
    {next : Option Ordering}
    {sign : Ordering}
    (hInts : compareInts d e next = some sign)
    (hLE : sign.isLE = true) :
    d.length ≤ maxStrDigits ∧ e.length ≤ maxStrDigits ∧
      (valueOf d < valueOf e ∨
        (valueOf d = valueOf e ∧ next = some sign)) := by
  have hSome :
      ¬ (maxStrDigits < d.length ∨ maxStrDigits < e.length ∨
        (valueOf d = valueOf e ∧ next = none)) := by
    rw [← compareInts_eq_none_iff, hInts]
    exact Option.some_ne_none sign
  refine ⟨by omega, by omega, ?_⟩
  simp only [compareInts, Option.bind_eq_bind,
    Option.bind_eq_some_iff] at hInts
  rcases hInts with ⟨da, hD, db, hE, hNext⟩
  rw [intOf_eq_some hD, intOf_eq_some hE] at hNext
  rcases orNext_eq_some hNext with ⟨hNe, rfl⟩ | ⟨hEq, hNext⟩
  · left
    rw [← compare_lt_iff_lt]
    cases hCompare : compare (valueOf d) (valueOf e) with
    | lt => rfl
    | eq => exact absurd hCompare hNe
    | gt =>
        rw [hCompare] at hLE
        exact absurd hLE (by decide)
  · right
    exact ⟨compare_eq_iff_eq.mp hEq, hNext⟩

/- What is at most differs in the text, or goes on with it. -/
theorem part_isLE
    {a b : List Char}
    {sign : Ordering}
    (hPart : part a b = some sign)
    (hLE : sign.isLE = true) :
    comparePadded compare 0 ((nonDigits a).map order)
          ((nonDigits b).map order) = .lt ∨
      (nonDigits a = nonDigits b ∧
        (digits a).length ≤ maxStrDigits ∧
        (digits b).length ≤ maxStrDigits ∧
        (number a < number b ∨
          (number a = number b ∧
            part (afterNumber a) (afterNumber b) =
              some sign))) := by
  have hText :=
    comparePadded_order (cut_self a).noDigits
      (cut_self b).noDigits
  rw [part] at hPart
  split_ifs at hPart with hNil
  · right
    rw [hNil.1, hNil.2]
    refine ⟨rfl, by decide, by decide, Or.inr ⟨rfl, ?_⟩⟩
    rw [afterNumber_nil, part, dif_pos ⟨rfl, rfl⟩]
    exact hPart
  · rcases orNext_eq_some hPart with ⟨hNe, rfl⟩ | ⟨hEq, hInts⟩
    · left
      cases hOrder :
          comparePadded compare 0 ((nonDigits a).map order)
            ((nonDigits b).map order) with
      | lt => rfl
      | eq => exact absurd hOrder hNe
      | gt =>
          rw [hOrder] at hLE
          exact absurd hLE (by decide)
    · right
      exact ⟨hText.2.mp hEq, compareInts_isLE hInts hLE⟩

/- Between a text and the same text again there is only it. -/
theorem part_isLE_between
    {a b c : List Char}
    {sign sign' : Ordering}
    (hLeft : part a b = some sign)
    (hLE : sign.isLE = true)
    (hRight : part b c = some sign')
    (hLE' : sign'.isLE = true)
    (hText : nonDigits a = nonDigits c) :
    (digits a).length ≤ maxStrDigits ∧
      (digits c).length ≤ maxStrDigits ∧
      (number a = number c →
        part (afterNumber a) (afterNumber b) = some sign ∧
          part (afterNumber b) (afterNumber c) =
            some sign') := by
  have hSelf : ∀ x : List Char,
      comparePadded compare 0 (x.map order) (x.map order) =
        .eq :=
    fun x => comparePadded_self (x.map order)
  rcases part_isLE hLeft hLE with
    hLt | ⟨hSame, hLength, _, hNumber⟩
  · exfalso
    rcases part_isLE hRight hLE' with hLt' | ⟨hSame', _⟩
    · have hBoth := Std.TransCmp.lt_trans hLt hLt'
      rw [hText, hSelf] at hBoth
      exact absurd hBoth (by decide)
    · rw [hSame', ← hText, hSelf] at hLt
      exact absurd hLt (by decide)
  · rcases part_isLE hRight hLE' with
      hLt' | ⟨_, _, hLength', hNumber'⟩
    · exfalso
      rw [← hSame, hText, hSelf] at hLt'
      exact absurd hLt' (by decide)
    · refine ⟨hLength, hLength', fun hEq => ?_⟩
      rcases hNumber with hLt | ⟨hFirst, hRest⟩
      · rcases hNumber' with hLt' | ⟨hSecond, _⟩
        · omega
        · omega
      · rcases hNumber' with hLt' | ⟨hSecond, hRest'⟩
        · omega
        · exact ⟨hRest, hRest'⟩

/-
  Where two answers are at most there is a third: what is the
  same up to a long number has the one between up to it too.
-/
theorem not_meetsLong_of_isLE
    {a b c : List Char}
    {sign sign' : Ordering}
    (hLeft : part a b = some sign)
    (hLE : sign.isLE = true)
    (hRight : part b c = some sign')
    (hLE' : sign'.isLE = true) :
    ¬ MeetsLong a c := by
  intro hLong
  induction hLong generalizing b with
  | left hA hC hLength =>
      have hBetween :=
        part_isLE_between hLeft hLE hRight hLE'
          ((cut_iff.mp hA).1.symm.trans (cut_iff.mp hC).1)
      rw [(cut_iff.mp hA).2.1] at hLength
      omega
  | right hA hC hLength =>
      have hBetween :=
        part_isLE_between hLeft hLE hRight hLE'
          ((cut_iff.mp hA).1.symm.trans (cut_iff.mp hC).1)
      rw [(cut_iff.mp hC).2.1] at hLength
      omega
  | rest hA hC hEq hRest ih =>
      have hBetween :=
        part_isLE_between hLeft hLE hRight hLE'
          ((cut_iff.mp hA).1.symm.trans (cut_iff.mp hC).1)
      rw [hA.numeral_eq, hC.numeral_eq] at hEq
      rw [(cut_iff.mp hA).2.2, (cut_iff.mp hC).2.2] at ih
      exact ih (hBetween.2.2 hEq).1 (hBetween.2.2 hEq).2

------------------------------------------------------------
-- Versions
------------------------------------------------------------

/- The last hyphen splits, and `rpartition` finds it. -/
theorem rpartition_append
    {separator : Char}
    {front behind : List Char}
    (hBehind : separator ∉ behind) :
    rpartition separator (front ++ separator :: behind) =
      some (front, behind) := by
  have hKeep :
      ∀ c ∈ behind.reverse, decide (c ≠ separator) = true := by
    intro c hc
    rw [decide_eq_true_eq]
    rintro rfl
    exact hBehind (List.mem_reverse.mp hc)
  have hReverse :
      (front ++ separator :: behind).reverse =
        behind.reverse ++ separator :: front.reverse := by
    simp
  rw [rpartition, if_pos (by simp), hReverse,
    List.dropWhile_append_of_pos hKeep,
    List.takeWhile_append_of_pos hKeep]
  simp

/- The pieces of an admitted version. -/
theorem pieces_of_versionForm
    {v : List Char}
    (hForm : versionForm v = true) :
    ∃ up rev : List Char,
      IsVersion v up rev ∧ pieces v = (['0'], up, rev) := by
  rcases exists_of_versionForm hForm with
    ⟨up, rev, rfl, hUp, hRev⟩
  have hHyphen : '-' ∉ rev :=
    fun hMem => (ne_of_isVersionChar (hRev _ hMem)).1 rfl
  have hColon : ':' ∉ up ++ '-' :: rev := by
    intro hMem
    rcases List.mem_append.mp hMem with hMem | hMem
    · exact (ne_of_isVersionChar (hUp _ hMem)).2 rfl
    · rcases List.mem_cons.mp hMem with hEq | hMem
      · exact absurd hEq (by decide)
      · exact (ne_of_isVersionChar (hRev _ hMem)).2 rfl
  have hNone : rpartition ':' (up ++ '-' :: rev) = none :=
    if_neg hColon
  refine ⟨up, rev, ⟨rfl, hHyphen⟩, ?_⟩
  rw [pieces, hNone]
  simp only [Option.getD_none, rpartition_append hHyphen,
    Option.getD_some]

theorem IsVersion.unique
    {v up rev up' rev' : List Char}
    (hVersion : IsVersion v up rev)
    (hVersion' : IsVersion v up' rev') :
    up' = up ∧ rev' = rev := by
  have hSplit := @rpartition_append '-' up rev hVersion.last
  have hSplit' := @rpartition_append '-' up' rev' hVersion'.last
  rw [← hVersion.whole] at hSplit
  rw [← hVersion'.whole, hSplit] at hSplit'
  simp only [Option.some.injEq, Prod.mk.injEq] at hSplit'
  exact ⟨hSplit'.1.symm, hSplit'.2.symm⟩

/- What `vercmp` and the order compare in two of them. -/
theorem vercmp_of_versionForm
    {v w : List Char}
    (hV : versionForm v = true)
    (hW : versionForm w = true) :
    ∃ up rev up' rev' : List Char,
      IsVersion v up rev ∧ IsVersion w up' rev' ∧
        vercmp v w =
          (part up up').bind
            (fun sign => orNext sign (part rev rev')) ∧
        compareVersions v w =
          (comparePart up up').then (comparePart rev rev') := by
  rcases pieces_of_versionForm hV with
    ⟨up, rev, hVersion, hPieces⟩
  rcases pieces_of_versionForm hW with
    ⟨up', rev', hVersion', hPieces'⟩
  have hZero : intOf ['0'] = some 0 := rfl
  refine ⟨up, rev, up', rev', hVersion, hVersion', ?_, ?_⟩
  · simp only [vercmp, split, hPieces, hPieces', hZero]
    rfl
  · have hParts : versionParts v = ⟨0, up, rev⟩ := by
      rw [versionParts, hPieces]
      rfl
    have hParts' : versionParts w = ⟨0, up', rev'⟩ := by
      rw [versionParts, hPieces']
      rfl
    rw [compareVersions, compareBy, hParts, hParts']
    rfl

/- The order of two admitted versions. -/
theorem compareVersions_order
    {v w : List Char}
    (hV : versionForm v = true)
    (hW : versionForm w = true) :
    (compareVersions v w = .lt ↔ DebianBefore v w) ∧
      (compareVersions v w = .eq ↔ DebianSame v w) := by
  rcases vercmp_of_versionForm hV hW with
    ⟨up, rev, up', rev', hVersion, hVersion', _, hCompare⟩
  have hUp := comparePart_order up up'
  have hRev := comparePart_order rev rev'
  rw [hCompare, Ordering.then_eq_lt, Ordering.then_eq_eq,
    hUp.1, hUp.2, hRev.1, hRev.2]
  constructor
  · constructor
    · intro hBefore
      exact ⟨up, rev, up', rev', hVersion, hVersion', hBefore⟩
    · rintro ⟨u, r, u', r', hIs, hIs', hBefore⟩
      rcases hVersion.unique hIs with ⟨rfl, rfl⟩
      rcases hVersion'.unique hIs' with ⟨rfl, rfl⟩
      exact hBefore
  · constructor
    · intro hSame
      exact ⟨up, rev, up', rev', hVersion, hVersion', hSame⟩
    · rintro ⟨u, r, u', r', hIs, hIs', hSame⟩
      rcases hVersion.unique hIs with ⟨rfl, rfl⟩
      rcases hVersion'.unique hIs' with ⟨rfl, rfl⟩
      exact hSame

/- `vercmp` has no answer just where both meet a long number. -/
theorem vercmp_eq_none_iff
    {v w : List Char}
    (hV : versionForm v = true)
    (hW : versionForm w = true) :
    vercmp v w = none ↔ VersionsMeetLong v w := by
  rcases vercmp_of_versionForm hV hW with
    ⟨up, rev, up', rev', hVersion, hVersion', hSign, _⟩
  have hNone :
      vercmp v w = none ↔
        MeetsLong up up' ∨
          (Same up up' ∧ MeetsLong rev rev') := by
    rw [hSign, ← part_eq_none_iff, ← part_eq_none_iff,
      ← (comparePart_order up up').2]
    cases hPart : part up up' with
    | none => simp
    | some sign =>
        rw [part_eq_some hPart, Option.bind_some,
          orNext_eq_none_iff]
        simp
  rw [hNone]
  constructor
  · intro hLong
    exact ⟨up, rev, up', rev', hVersion, hVersion', hLong⟩
  · rintro ⟨u, r, u', r', hIs, hIs', hLong⟩
    rcases hVersion.unique hIs with ⟨rfl, rfl⟩
    rcases hVersion'.unique hIs' with ⟨rfl, rfl⟩
    exact hLong

theorem VersionsMeetLong.symm
    {v w : List Char}
    (hLong : VersionsMeetLong v w) :
    VersionsMeetLong w v := by
  rcases hLong with
    ⟨up, rev, up', rev', hVersion, hVersion', hLong⟩
  refine ⟨up', rev', up, rev, hVersion', hVersion, ?_⟩
  rcases hLong with hLong | ⟨hSame, hLong⟩
  · exact Or.inl hLong.symm
  · right
    rw [← (comparePart_order up up').2] at hSame
    rw [← (comparePart_order up' up).2]
    exact ⟨Std.OrientedCmp.eq_symm hSame, hLong.symm⟩

/- Where two answers are at most, there is a third. -/
theorem vercmp_ne_none
    {u v w : List Char}
    (hU : versionForm u = true)
    (hV : versionForm v = true)
    (hW : versionForm w = true)
    {sign sign' : Ordering}
    (hLeft : vercmp u v = some sign)
    (hLE : sign.isLE = true)
    (hRight : vercmp v w = some sign')
    (hLE' : sign'.isLE = true) :
    vercmp u w ≠ none := by
  rw [Ne, vercmp_eq_none_iff hU hW]
  rcases vercmp_of_versionForm hU hV with
    ⟨a, r, b, s, hIsU, hIsV, hFirst, _⟩
  rcases vercmp_of_versionForm hV hW with
    ⟨b', s', c, t, hIsV', hIsW, hSecond, _⟩
  rcases hIsV.unique hIsV' with ⟨rfl, rfl⟩
  rw [hFirst, Option.bind_eq_some_iff] at hLeft
  rw [hSecond, Option.bind_eq_some_iff] at hRight
  rcases hLeft with ⟨x, hUp, hRev⟩
  rcases hRight with ⟨y, hUp', hRev'⟩
  -- the upstream versions are at most, or go on
  have hEither :
      ∀ {x sign : Ordering} {next : Option Ordering},
        orNext x next = some sign → sign.isLE = true →
          x.isLE = true ∧ (x = .eq → next = some sign) := by
    intro x sign next hNext hLE
    rcases orNext_eq_some hNext with ⟨hNe, rfl⟩ | ⟨hEq, hNext⟩
    · exact ⟨hLE, fun hEq => absurd hEq hNe⟩
    · rw [hEq]
      exact ⟨rfl, fun _ => hNext⟩
  have hX := hEither hRev hLE
  have hY := hEither hRev' hLE'
  rintro ⟨a', r', c', t', hIsU', hIsW', hLong⟩
  rcases hIsU.unique hIsU' with ⟨rfl, rfl⟩
  rcases hIsW.unique hIsW' with ⟨rfl, rfl⟩
  rcases hLong with hLong | ⟨hSame, hLong⟩
  · exact not_meetsLong_of_isLE hUp hX.1 hUp' hY.1 hLong
  · have hOuter := (comparePart_order a' c').2.mpr hSame
    have hInner := part_eq_some hUp
    have hInner' := part_eq_some hUp'
    have hEq : x = .eq := by
      cases x with
      | lt =>
          have hLt :=
            Std.TransCmp.lt_of_lt_of_isLE hInner
              (hInner' ▸ hY.1)
          rw [hOuter] at hLt
          exact absurd hLt (by decide)
      | eq => rfl
      | gt => exact absurd hX.1 (by decide)
    have hEq' : y = .eq := by
      rw [hEq] at hInner
      rw [← hInner', ← Std.TransCmp.congr_left hInner]
      exact hOuter
    exact
      not_meetsLong_of_isLE (hX.2 hEq) hLE (hY.2 hEq') hLE'
        hLong

/- The answer is the sign that deb-version(7) defines. -/
def SignDefined (v w : List Char) : Prop :=
  ∃ sign, vercmp v w = some sign ∧
    (sign = .lt ↔ DebianBefore v w) ∧
    (sign = .eq ↔ DebianSame v w) ∧
    (sign = .gt ↔ DebianBefore w v)

/- Where it has an answer it is that of the unlimited order. -/
theorem vercmp_eq_compareVersions
    {v w : List Char}
    (hV : versionForm v = true)
    (hW : versionForm w = true)
    (hShort : ¬ VersionsMeetLong v w) :
    vercmp v w = some (compareVersions v w) := by
  rw [← vercmp_eq_none_iff hV hW, ← Ne,
    Option.ne_none_iff_exists'] at hShort
  rcases hShort with ⟨sign, hSign⟩
  rw [hSign, vercmp_eq_some hSign]

theorem not_versionsMeetLong
    {v w : List Char}
    {sign : Ordering}
    (hV : versionForm v = true)
    (hW : versionForm w = true)
    (hSign : vercmp v w = some sign) :
    ¬ VersionsMeetLong v w := by
  rw [← vercmp_eq_none_iff hV hW, hSign]
  exact Option.some_ne_none sign

/-
  On admitted versions `vercmp` is the order of
  deb-version(7), and a total preorder, just as long as the
  two do not meet a number that is too long for `int`.
-/
theorem vercmp_debianOrder
    {u v w : List Char}
    (hU : versionForm u = true)
    (hV : versionForm v = true)
    (hW : versionForm w = true) :
    (SignDefined v w ↔ ¬ VersionsMeetLong v w) ∧
      (vercmp v v = some .eq ↔ ¬ VersionsMeetLong v v) ∧
      ((∃ sign, vercmp v w = some sign ∧
          vercmp w v = some sign.swap) ↔
        ¬ VersionsMeetLong v w) ∧
      ((∃ sign, vercmp u v = some sign ∧ sign.isLE = true) →
        (∃ sign, vercmp v w = some sign ∧ sign.isLE = true) →
          ∃ sign, vercmp u w = some sign ∧
            sign.isLE = true) := by
  refine ⟨⟨?_, ?_⟩, ⟨?_, ?_⟩, ⟨?_, ?_⟩, ?_⟩
  · rintro ⟨sign, hSign, _⟩
    exact not_versionsMeetLong hV hW hSign
  · intro hShort
    refine ⟨_, vercmp_eq_compareVersions hV hW hShort,
      (compareVersions_order hV hW).1,
      (compareVersions_order hV hW).2, ?_⟩
    rw [← (compareVersions_order hW hV).1]
    exact Std.OrientedCmp.gt_iff_lt
  · exact not_versionsMeetLong hV hV
  · intro hShort
    rw [vercmp_eq_compareVersions hV hV hShort]
    exact congrArg some Std.ReflCmp.compare_self
  · rintro ⟨sign, hSign, _⟩
    exact not_versionsMeetLong hV hW hSign
  · intro hShort
    refine ⟨_, vercmp_eq_compareVersions hV hW hShort, ?_⟩
    rw [vercmp_eq_compareVersions hW hV fun hLong =>
      hShort hLong.symm]
    exact congrArg some Std.OrientedCmp.eq_swap
  · rintro ⟨sign, hLeft, hLE⟩ ⟨sign', hRight, hLE'⟩
    have hThird :=
      vercmp_ne_none hU hV hW hLeft hLE hRight hLE'
    rw [Option.ne_none_iff_exists'] at hThird
    rcases hThird with ⟨last, hLast⟩
    refine ⟨last, hLast, ?_⟩
    rw [← vercmp_eq_some hLast]
    rw [← vercmp_eq_some hLeft] at hLE
    rw [← vercmp_eq_some hRight] at hLE'
    exact Std.TransCmp.isLE_trans hLE hLE'

/- A candidate, its release, and a later one. -/
theorem vercmp_debianOrder_candidate :
    SignDefined "1.9-1".toList "1.10-1".toList ∧
      ∃ sign,
        vercmp "1.9~rc2-1".toList "1.10-1".toList = some sign ∧
          sign.isLE = true := by
  have hCandidate : versionForm "1.9~rc2-1".toList = true := by
    decide +kernel
  have hFirst : versionForm "1.9-1".toList = true := by
    decide +kernel
  have hLater : versionForm "1.10-1".toList = true := by
    decide +kernel
  have hLeft :
      vercmp "1.9~rc2-1".toList "1.9-1".toList = some .lt := by
    decide +kernel
  have hRight :
      vercmp "1.9-1".toList "1.10-1".toList = some .lt := by
    decide +kernel
  rcases vercmp_debianOrder hCandidate hFirst hLater with
    ⟨hSign, _, _, hTrans⟩
  exact
    ⟨hSign.mpr (not_versionsMeetLong hFirst hLater hRight),
      hTrans ⟨.lt, hLeft, rfl⟩ ⟨.lt, hRight, rfl⟩⟩

/- A version whose number has one digit too many. -/
def longVersion : List Char :=
  List.replicate (maxStrDigits + 1) '1' ++ ['-', '1']

theorem not_signDefined_longVersion :
    versionForm longVersion = true ∧
      ¬ SignDefined longVersion longVersion := by
  have hForm : versionForm longVersion = true := by
    have hChars :
        ∀ c ∈ List.replicate maxStrDigits '1',
          isVersionChar c = true := by
      intro c hc
      rw [List.eq_of_mem_replicate hc]
      rfl
    rw [longVersion, List.replicate_succ, List.cons_append,
      versionForm, List.dropWhile_append_of_pos hChars]
    rfl
  have hDigits :
      ∀ c ∈ List.replicate (maxStrDigits + 1) '1',
        c.isDigit = true := by
    intro c hc
    rw [List.eq_of_mem_replicate hc]
    rfl
  have hCut :
      Cut (List.replicate (maxStrDigits + 1) '1') []
        (List.replicate (maxStrDigits + 1) '1') [] :=
    ⟨by simp, by simp, hDigits, by simp, fun _ => rfl⟩
  have hVersion :
      IsVersion longVersion
        (List.replicate (maxStrDigits + 1) '1') ['1'] :=
    ⟨rfl, by decide⟩
  refine ⟨hForm, ?_⟩
  rintro ⟨sign, hSign, _⟩
  have hNone :=
    (vercmp_eq_none_iff hForm hForm).mpr
      ⟨_, _, _, _, hVersion, hVersion,
        Or.inl (.left hCut hCut (by simp))⟩
  rw [hNone] at hSign
  exact absurd hSign (by simp)

/- The tilde comes before the end, and numbers count. -/
example :
    vercmp "1.2~rc10-1".toList "1.2~rc9-1".toList =
      some .gt := by
  decide +kernel

end Release

end MicaBoards
