import MicaBoards.Boot.Records
import Mathlib.Data.List.TakeWhile
import Mathlib.Tactic.IntervalCases

/-
  Parsing and rendering of the boot-record value are
  inverse on the canonical record lists.

  Every field parser accepts exactly the renderings of the
  field's canonical values; the record and the list parser
  are assembled from them.

  Main declarations:
    * `MicaBootRecord.Canonical` and `Canonical`
    * `micaBootRecord_eq_some_iff`
    * `micaBootParse_eq_some_iff`
    * `micaBootRender_eq_some_iff`
    * `micaBootText_length_le`
-/

------------------------------------------------------------
-- Canonical Records
------------------------------------------------------------

namespace MicaBoards

namespace Boot

/- An id as the parser accepts it: 64 id bytes. -/
def CString.IsId (id : CString 64) : Prop :=
  id.bytes.length = 64 ∧
    ∀ b ∈ id.bytes, micaBootIdByte b = true

/- A record with tries the render loop writes. -/
def MicaBootRecord.TriesInRange (r : MicaBootRecord) : Prop :=
  -1 ≤ r.tries ∧ r.tries ≤ 3

/- A record whose fields the parser can produce. -/
structure MicaBootRecord.Canonical
    (r : MicaBootRecord) : Prop where
  id : r.id.IsId
  kernel : r.kernel.IsId
  generation_pos : 1 ≤ r.generation.toNat
  generation_le :
    r.generation.toNat ≤ micaBootGenerationLimit.toNat
  tries : r.TriesInRange

/- A record that may follow an earlier one. -/
def MicaBootRecord.Follows
    (earlier later : MicaBootRecord) : Prop :=
  earlier.id ≠ later.id ∧
    later.generation < earlier.generation

/- The record lists the parser can produce. -/
structure Canonical (records : MicaBootRecords) : Prop where
  nonempty : records ≠ []
  length_le : records.length ≤ micaBootRecordLimit
  record : ∀ r ∈ records, r.Canonical
  ordered : records.Pairwise MicaBootRecord.Follows

/- The value text of a record list. -/
def micaBootText (records : MicaBootRecords) : List UInt8 :=
  [118, 49, 124] ++
    [59].intercalate (records.map micaBootRecordText)

------------------------------------------------------------
-- Ids
------------------------------------------------------------

/- The id parser accepts exactly an id and a comma. -/
theorem micaBootId_eq_some_iff
    {p rest : List UInt8}
    {id : CString 64} :
    micaBootId p = some (id, rest) ↔
      p = id.bytes ++ 44 :: rest ∧ id.IsId := by
  constructor
  · intro hParse
    unfold micaBootId at hParse
    split at hParse
    · cases hParse
    · rename_i hComma
      split at hParse
      · rename_i hId
        push Not at hComma
        rcases hComma with ⟨hLength, hAt⟩
        cases hParse
        refine ⟨?_, by simp; omega, hId⟩
        have hDrop : p.drop 64 = 44 :: p.drop 65 := by
          rw [List.getElem?_eq_some_iff] at hAt
          rcases hAt with ⟨hLt, hAt⟩
          rw [List.drop_eq_getElem_cons hLt, hAt]
        rw [← hDrop, List.take_append_drop]
      · cases hParse
  · rintro ⟨rfl, hLength, hId⟩
    have hTake :
        (id.bytes ++ 44 :: rest).take 64 = id.bytes :=
      List.take_left' hLength
    have hAt :
        (id.bytes ++ 44 :: rest)[64]? = some 44 := by
      simp [hLength]
    have hDrop :
        (id.bytes ++ 44 :: rest).drop 65 = rest := by
      have hSize : (id.bytes ++ [(44 : UInt8)]).length = 65 := by
        simp [hLength]
      simpa using @List.drop_left' _ _ rest _ hSize
    have hShort : ¬ (id.bytes ++ 44 :: rest).length < 65 := by
      simp only [List.length_append, List.length_cons]
      omega
    have hBytes :
        ∀ b ∈ (id.bytes ++ 44 :: rest).take 64,
          micaBootIdByte b = true := by
      rw [hTake]
      exact hId
    unfold micaBootId
    rw [if_neg (not_or.mpr ⟨hShort, by simp [hAt]⟩),
      dif_pos hBytes, hDrop]
    congr 2
    exact CString.ext hTake

------------------------------------------------------------
-- Generations
------------------------------------------------------------

/- A decimal digit byte. -/
def IsDigit (b : UInt8) : Prop := 48 ≤ b ∧ b ≤ 57

instance (b : UInt8) : Decidable (IsDigit b) := by
  unfold IsDigit
  infer_instance

/- A text at whose front a run of digits ends. -/
def EndsDigits (rest : List UInt8) : Prop :=
  ∀ b ∈ rest.head?, ¬ IsDigit b

/- The number a run of digits continues a value to. -/
def decimalValue (value : Nat) (digits : List UInt8) : Nat :=
  digits.foldl (fun n b => n * 10 + (b - 48).toNat) value

@[simp] theorem decimalValue_nil (value : Nat) :
    decimalValue value [] = value := rfl

@[simp] theorem decimalValue_cons
    (value : Nat)
    (b : UInt8)
    (digits : List UInt8) :
    decimalValue value (b :: digits) =
      decimalValue (value * 10 + (b - 48).toNat) digits :=
  rfl

/- Reading on never makes the value smaller. -/
theorem le_decimalValue
    (value : Nat)
    (digits : List UInt8) :
    value ≤ decimalValue value digits := by
  induction digits generalizing value with
  | nil => exact Nat.le_refl _
  | cons b digits ih =>
      have hStep := ih (value * 10 + (b - 48).toNat)
      simp only [decimalValue_cons]
      omega

/-
  The overflow test of the generation loop passes exactly
  when the longer number is within the limit, and then the
  64-bit step is the step on numbers.
-/
theorem micaBootGeneration_step
    {generation : UInt64}
    {b : UInt8}
    (hDigit : IsDigit b) :
    (¬ (micaBootGenerationLimit - (b - 48).toUInt64) / 10 <
        generation ↔
      generation.toNat * 10 + (b - 48).toNat ≤
        micaBootGenerationLimit.toNat) ∧
    (generation.toNat * 10 + (b - 48).toNat ≤
        micaBootGenerationLimit.toNat →
      (generation * 10 + (b - 48).toUInt64).toNat =
        generation.toNat * 10 + (b - 48).toNat) := by
  rcases hDigit with ⟨hLow, hHigh⟩
  rw [UInt8.le_iff_toNat_le] at hLow hHigh
  have hLimit :
      micaBootGenerationLimit.toNat = 9007199254740991 :=
    rfl
  have hSub : (b - 48).toNat = b.toNat - 48 :=
    UInt8.toNat_sub_of_le _ _ (UInt8.le_iff_toNat_le.mpr hLow)
  have hSmall :
      (b - 48).toUInt64.toNat = (b - 48).toNat :=
    UInt8.toNat_toUInt64 _
  have hNine : (b - 48).toNat ≤ 9 := by
    have : (57 : UInt8).toNat = 57 := rfl
    omega
  have hBound :
      ((micaBootGenerationLimit -
          (b - 48).toUInt64) / 10).toNat =
        (9007199254740991 - (b - 48).toNat) / 10 := by
    rw [UInt64.toNat_div, UInt64.toNat_sub_of_le, hSmall,
      hLimit]
    · rfl
    · rw [UInt64.le_iff_toNat_le, hSmall, hLimit]
      omega
  constructor
  · rw [UInt64.lt_iff_toNat_lt, hBound, hLimit]
    omega
  · intro hFits
    rw [UInt64.toNat_add, UInt64.toNat_mul, hSmall]
    have hTen : (10 : UInt64).toNat = 10 := rfl
    rw [hTen]
    omega

/- A run of digits before which there is a digit starts with it. -/
theorem EndsDigits.digits_eq_cons
    {b : UInt8}
    {p digits rest : List UInt8}
    (hEnds : EndsDigits rest)
    (hDigit : IsDigit b)
    (hSplit : b :: p = digits ++ rest) :
    ∃ tail, digits = b :: tail ∧ p = tail ++ rest := by
  cases digits with
  | nil =>
      have hHead : rest = b :: p := hSplit.symm
      subst hHead
      exact absurd hDigit (hEnds b rfl)
  | cons d tail =>
      cases hSplit
      exact ⟨tail, rfl, rfl⟩

/- One turn of the generation loop, in its three cases -/
theorem micaBootGeneration_of_fits
    {generation : UInt64}
    {b : UInt8}
    (hDigit : IsDigit b)
    (hFits :
      generation.toNat * 10 + (b - 48).toNat ≤
        micaBootGenerationLimit.toNat)
    (p : List UInt8) :
    micaBootGeneration generation (b :: p) =
      micaBootGeneration
        (generation * 10 + (b - 48).toUInt64) p := by
  have hDigitCond : 48 ≤ b ∧ b ≤ 57 := hDigit
  rw [micaBootGeneration, if_pos hDigitCond]
  exact if_neg ((micaBootGeneration_step hDigit).1.mpr hFits)

theorem micaBootGeneration_of_over
    {generation : UInt64}
    {b : UInt8}
    (hDigit : IsDigit b)
    (hOver :
      ¬ generation.toNat * 10 + (b - 48).toNat ≤
        micaBootGenerationLimit.toNat)
    (p : List UInt8) :
    micaBootGeneration generation (b :: p) = none := by
  have hDigitCond : 48 ≤ b ∧ b ≤ 57 := hDigit
  have hTest :
      (micaBootGenerationLimit - (b - 48).toUInt64) / 10 <
        generation := by
    by_contra hUnder
    exact hOver ((micaBootGeneration_step hDigit).1.mp hUnder)
  rw [micaBootGeneration, if_pos hDigitCond]
  exact if_pos hTest

theorem micaBootGeneration_of_not_digit
    {b : UInt8}
    (hDigit : ¬ IsDigit b)
    (generation : UInt64)
    (p : List UInt8) :
    micaBootGeneration generation (b :: p) =
      some (generation, b :: p) := by
  have hCond : ¬ (48 ≤ b ∧ b ≤ 57) := hDigit
  simp [micaBootGeneration, hCond]

/-
  The generation loop accepts exactly a run of digits whose
  number stays within the limit.
-/
theorem micaBootGeneration_eq_some_iff
    {generation final : UInt64}
    {p rest : List UInt8} :
    micaBootGeneration generation p = some (final, rest) ↔
      ∃ digits,
        p = digits ++ rest ∧
        (∀ b ∈ digits, IsDigit b) ∧
        EndsDigits rest ∧
        final.toNat =
          decimalValue generation.toNat digits ∧
        (digits ≠ [] →
          final.toNat ≤ micaBootGenerationLimit.toNat) := by
  induction p generalizing generation with
  | nil =>
      constructor
      · intro hLoop
        cases hLoop
        exact ⟨[], by simp [EndsDigits]⟩
      · rintro ⟨digits, hSplit, -, -, hValue, -⟩
        rcases List.append_eq_nil_iff.mp hSplit.symm with
          ⟨rfl, rfl⟩
        simp only [decimalValue_nil] at hValue
        simp [micaBootGeneration, UInt64.toNat_inj.mp hValue]
  | cons b p ih =>
      by_cases hDigit : IsDigit b
      · by_cases hFits :
            generation.toNat * 10 + (b - 48).toNat ≤
              micaBootGenerationLimit.toNat
        · rw [micaBootGeneration_of_fits hDigit hFits, ih,
            (micaBootGeneration_step hDigit).2 hFits]
          constructor
          · rintro ⟨digits, rfl, hDigits, hEnds, hValue, hLe⟩
            refine ⟨b :: digits, rfl, ?_, hEnds, hValue, ?_⟩
            · simpa [hDigit] using hDigits
            · intro _
              cases digits with
              | nil => simpa [hValue] using hFits
              | cons d digits => exact hLe (by simp)
          · rintro ⟨digits, hSplit, hDigits, hEnds, hValue, hLe⟩
            rcases hEnds.digits_eq_cons hDigit hSplit with
              ⟨tail, rfl, rfl⟩
            exact
              ⟨tail, rfl, fun c hc => hDigits c (by simp [hc]),
                hEnds, hValue, fun _ => hLe (by simp)⟩
        · rw [micaBootGeneration_of_over hDigit hFits]
          constructor
          · intro hNone
            cases hNone
          · rintro ⟨digits, hSplit, hDigits, hEnds, hValue, hLe⟩
            rcases hEnds.digits_eq_cons hDigit hSplit with
              ⟨tail, rfl, rfl⟩
            have hGrows :=
              le_decimalValue
                (generation.toNat * 10 + (b - 48).toNat) tail
            have hBound := hLe (by simp)
            rw [hValue, decimalValue_cons] at hBound
            omega
      · rw [micaBootGeneration_of_not_digit hDigit]
        constructor
        · intro hSome
          cases hSome
          exact
            ⟨[], by simp, by simp,
              by simpa [EndsDigits] using hDigit, rfl,
              fun h => absurd rfl h⟩
        · rintro ⟨digits, hSplit, hDigits, -, hValue, -⟩
          cases digits with
          | nil =>
              have hFinal : final = generation :=
                UInt64.toNat_inj.mp hValue
              simp_all
          | cons d digits =>
              cases hSplit
              exact absurd (hDigits _ (by simp)) hDigit

/- A digit byte is the byte of its value. -/
theorem ofNat_sub_of_le
    {b : UInt8}
    (hLow : 48 ≤ b) :
    UInt8.ofNat (48 + (b - 48).toNat) = b := by
  have hSub : (b - 48).toNat = b.toNat - 48 :=
    UInt8.toNat_sub_of_le _ _ hLow
  have hLowNat : 48 ≤ b.toNat :=
    UInt8.le_iff_toNat_le.mp hLow
  rw [hSub, Nat.add_sub_cancel' hLowNat]
  exact UInt8.ofNat_toNat

/- The byte of a digit is a digit byte of that value. -/
theorem toNat_ofNat_add_of_lt
    {d : Nat}
    (hDigit : d < 10) :
    IsDigit (UInt8.ofNat (48 + d)) ∧
      (UInt8.ofNat (48 + d) - 48).toNat = d := by
  interval_cases d <;> decide

/- The value of a run of digits, in Mathlib's digits. -/
theorem decimalValue_eq_ofDigits
    (digits : List UInt8) :
    decimalValue 0 digits =
      Nat.ofDigits 10
        (digits.map (fun b => (b - 48).toNat)).reverse := by
  rw [Nat.ofDigits_eq_foldr, List.foldr_reverse,
    List.foldl_map]
  unfold decimalValue
  congr 1
  funext n b
  simp only [Nat.cast_id]
  omega

/-
  A run of digits without leading zero is the decimal
  rendering of its value, which is not zero.
-/
theorem decimal_decimalValue
    {first : UInt8}
    {digits : List UInt8}
    (hDigits : ∀ b ∈ first :: digits, IsDigit b)
    (hFirst : 49 ≤ first) :
    1 ≤ decimalValue 0 (first :: digits) ∧
      decimal (decimalValue 0 (first :: digits)) =
        first :: digits := by
  have hFirstNat : 49 ≤ first.toNat :=
    UInt8.le_iff_toNat_le.mp hFirst
  have hFirstValue : (first - 48).toNat = first.toNat - 48 :=
    UInt8.toNat_sub_of_le _ _ (hDigits first (by simp)).1
  have hPos : 1 ≤ decimalValue 0 (first :: digits) := by
    have hGrows :=
      le_decimalValue (0 * 10 + (first - 48).toNat) digits
    rw [decimalValue_cons]
    omega
  refine ⟨hPos, ?_⟩
  have hCanonical :
      Nat.digits 10 (decimalValue 0 (first :: digits)) =
        ((first :: digits).map
          (fun b => (b - 48).toNat)).reverse := by
    rw [decimalValue_eq_ofDigits]
    apply Nat.digits_ofDigits 10 (by omega)
    · intro d hd
      rcases List.mem_map.mp (List.mem_reverse.mp hd) with
        ⟨b, hb, rfl⟩
      have hHigh : b.toNat ≤ 57 :=
        UInt8.le_iff_toNat_le.mp (hDigits b hb).2
      have hSub : (b - 48).toNat = b.toNat - 48 :=
        UInt8.toNat_sub_of_le _ _ (hDigits b hb).1
      omega
    · intro hNonempty
      simp only [List.map_cons, List.reverse_cons,
        List.getLast_append_singleton]
      omega
  rw [decimal, if_neg (by omega), hCanonical,
    List.reverse_reverse, List.map_map]
  calc
    (first :: digits).map
        ((fun d => UInt8.ofNat (48 + d)) ∘
          fun b => (b - 48).toNat) =
        (first :: digits).map id :=
      List.map_congr_left
        (fun b hb => ofNat_sub_of_le (hDigits b hb).1)
    _ = first :: digits := List.map_id _

/-
  The rendering of a positive number is a run of digits
  without leading zero whose value is the number.
-/
theorem exists_decimal_eq_cons
    {n : Nat}
    (hPos : 1 ≤ n) :
    ∃ first digits,
      decimal n = first :: digits ∧
      (∀ b ∈ first :: digits, IsDigit b) ∧
      49 ≤ first ∧
      decimalValue 0 (first :: digits) = n := by
  have hNe : n ≠ 0 := by omega
  have hDecimal :
      decimal n =
        (Nat.digits 10 n).reverse.map
          (fun d => UInt8.ofNat (48 + d)) :=
    if_neg hNe
  have hDigits : ∀ b ∈ decimal n, IsDigit b := by
    intro b hb
    rw [hDecimal] at hb
    rcases List.mem_map.mp hb with ⟨d, hd, rfl⟩
    have hLt : d < 10 :=
      Nat.digits_lt_base (by omega) (List.mem_reverse.mp hd)
    exact (toNat_ofNat_add_of_lt hLt).1
  have hValue : decimalValue 0 (decimal n) = n := by
    have hMap :
        (decimal n).map (fun b => (b - 48).toNat) =
          (Nat.digits 10 n).reverse := by
      rw [hDecimal, List.map_map]
      calc
        (Nat.digits 10 n).reverse.map
            ((fun b : UInt8 => (b - 48).toNat) ∘
              fun d => UInt8.ofNat (48 + d)) =
            (Nat.digits 10 n).reverse.map id := by
          apply List.map_congr_left
          intro d hd
          have hLt : d < 10 :=
            Nat.digits_lt_base (by omega)
              (List.mem_reverse.mp hd)
          exact (toNat_ofNat_add_of_lt hLt).2
        _ = (Nat.digits 10 n).reverse := List.map_id _
    rw [decimalValue_eq_ofDigits, hMap, List.reverse_reverse,
      Nat.ofDigits_digits]
  have hNonempty : Nat.digits 10 n ≠ [] :=
    Nat.digits_ne_nil_iff_ne_zero.mpr hNe
  have hTop : (Nat.digits 10 n).getLast hNonempty ≠ 0 :=
    Nat.getLast_digit_ne_zero 10 hNe
  cases hCons : decimal n with
  | nil =>
      rw [hDecimal, List.map_eq_nil_iff,
        List.reverse_eq_nil_iff] at hCons
      exact absurd hCons hNonempty
  | cons first digits =>
      rw [hCons] at hDigits hValue
      refine ⟨first, digits, rfl, hDigits, ?_, hValue⟩
      have hReverse :
          (Nat.digits 10 n).reverse =
            (Nat.digits 10 n).getLast hNonempty ::
              (Nat.digits 10 n).reverse.tail := by
        rw [← List.head_reverse (by simpa using hNonempty)]
        exact (List.cons_head_tail _).symm
      rw [hDecimal, hReverse, List.map_cons] at hCons
      injection hCons with hFirst hTail
      have hLt : (Nat.digits 10 n).getLast hNonempty < 10 :=
        Nat.digits_lt_base (by omega) (List.getLast_mem _)
      have hBack := (toNat_ofNat_add_of_lt hLt).2
      simp only [hFirst] at hBack
      have hSub : (first - 48).toNat = first.toNat - 48 :=
        UInt8.toNat_sub_of_le _ _ (hDigits first (by simp)).1
      rw [UInt8.le_iff_toNat_le]
      have : (49 : UInt8).toNat = 49 := rfl
      omega

/- A decimal rendering consists of digits. -/
theorem isDigit_of_mem_decimal
    {n : Nat}
    {b : UInt8}
    (hMember : b ∈ decimal n) :
    IsDigit b := by
  by_cases hZero : n = 0
  · subst hZero
    have hByte : b = 48 := by simpa [decimal] using hMember
    subst hByte
    decide
  · rcases exists_decimal_eq_cons
        (Nat.one_le_iff_ne_zero.mpr hZero) with
      ⟨first, digits, hDecimal, hDigits, -, -⟩
    exact hDigits b (hDecimal ▸ hMember)

/- The generation field parser reads exactly a decimal. -/
theorem micaBootNumber_eq_some_iff
    {p rest : List UInt8}
    {generation : UInt64} :
    micaBootNumber p = some (generation, rest) ↔
      p = decimal generation.toNat ++ rest ∧
      EndsDigits rest ∧
      1 ≤ generation.toNat ∧
      generation.toNat ≤ micaBootGenerationLimit.toNat := by
  constructor
  · intro hParse
    cases p with
    | nil => cases hParse
    | cons b p =>
        rw [micaBootNumber] at hParse
        split_ifs at hParse with hRange
        · rcases not_or.mp hRange with ⟨hLow, hHigh⟩
          have hFirst : 49 ≤ b := UInt8.not_lt.mp hLow
          have hDigit : IsDigit b :=
            ⟨UInt8.le_trans (by decide) hFirst,
              UInt8.not_lt.mp hHigh⟩
          rcases micaBootGeneration_eq_some_iff.mp hParse with
            ⟨digits, hSplit, hDigits, hEnds, hValue, hLe⟩
          rcases hEnds.digits_eq_cons hDigit hSplit with
            ⟨tail, rfl, rfl⟩
          rcases decimal_decimalValue hDigits hFirst with
            ⟨hPos, hDecimal⟩
          have hZero : (0 : UInt64).toNat = 0 := rfl
          rw [hZero] at hValue
          rw [hValue, hDecimal]
          exact ⟨rfl, hEnds, hPos, hValue ▸ hLe (by simp)⟩
  · rintro ⟨rfl, hEnds, hPos, hLe⟩
    rcases exists_decimal_eq_cons hPos with
      ⟨first, digits, hDecimal, hDigits, hFirst, hValue⟩
    rw [hDecimal]
    have hRange : ¬ (first < 49 ∨ 57 < first) :=
      not_or.mpr
        ⟨UInt8.not_lt.mpr hFirst,
          UInt8.not_lt.mpr (hDigits first (by simp)).2⟩
    show micaBootNumber (first :: (digits ++ rest)) = _
    rw [micaBootNumber, if_neg hRange,
      micaBootGeneration_eq_some_iff]
    exact
      ⟨first :: digits, rfl, hDigits, hEnds, hValue.symm,
        fun _ => hLe⟩

------------------------------------------------------------
-- Tries
------------------------------------------------------------

/- No tries byte of a tries value is a digit run's middle. -/
theorem micaBootTries_eq_some_iff
    {p rest : List UInt8}
    {tries : Int} :
    micaBootTries p = some (tries, rest) ↔
      p = 44 :: micaBootTriesByte tries :: rest ∧
      -1 ≤ tries ∧ tries ≤ 3 := by
  constructor
  · intro hParse
    unfold micaBootTries at hParse
    split at hParse
    · rename_i comma t p
      split_ifs at hParse with hComma hDash hDigit
      · cases hParse
        push Not at hComma
        subst hComma hDash
        exact ⟨rfl, by omega, by omega⟩
      · cases hParse
        push Not at hComma
        subst hComma
        have hHigh : t.toNat ≤ 51 :=
          UInt8.le_iff_toNat_le.mp hDigit.2
        have hSub : (t - 48).toNat = t.toNat - 48 :=
          UInt8.toNat_sub_of_le _ _ hDigit.1
        refine ⟨?_, by omega, by omega⟩
        simp [micaBootTriesByte, ofNat_sub_of_le hDigit.1]
    · cases hParse
  · rintro ⟨rfl, hLow, hHigh⟩
    interval_cases tries <;> rfl

------------------------------------------------------------
-- Records
------------------------------------------------------------

/- The text of a record, by its fields. -/
theorem micaBootRecordText_append
    (r : MicaBootRecord)
    (rest : List UInt8) :
    micaBootRecordText r ++ rest =
      r.id.bytes ++ 44 :: (r.kernel.bytes ++
        44 :: (decimal r.generation.toNat ++
          44 :: micaBootTriesByte r.tries :: rest)) := by
  simp [micaBootRecordText]

/-
  One turn of the record loop reads exactly the text of one
  canonical record that follows the earlier ones.
-/
theorem micaBootRecord_eq_some_iff
    {out out' : MicaBootRecords}
    {p rest : List UInt8} :
    micaBootRecord out p = some (out', rest) ↔
      ∃ r : MicaBootRecord,
        out' = out ++ [r] ∧
        p = micaBootRecordText r ++ rest ∧
        r.Canonical ∧
        ∀ earlier ∈ out, earlier.Follows r := by
  constructor
  · intro hParse
    simp only [micaBootRecord, Option.bind_eq_bind,
      Option.bind_eq_some_iff, Prod.exists] at hParse
    rcases hParse with
      ⟨id, p₁, hId, kernel, p₂, hKernel, generation, p₃,
        hNumber, tries, p₄, hTries, hCheck⟩
    rcases micaBootId_eq_some_iff.mp hId with ⟨rfl, hIsId⟩
    rcases micaBootId_eq_some_iff.mp hKernel with
      ⟨rfl, hIsKernel⟩
    rcases micaBootNumber_eq_some_iff.mp hNumber with
      ⟨rfl, -, hPos, hLe⟩
    rcases micaBootTries_eq_some_iff.mp hTries with
      ⟨rfl, hLow, hHigh⟩
    split_ifs at hCheck with hStale
    cases hCheck
    refine
      ⟨⟨id, kernel, generation, tries⟩, rfl, ?_,
        ⟨hIsId, hIsKernel, hPos, hLe, hLow, hHigh⟩, ?_⟩
    · rw [micaBootRecordText_append]
    · intro earlier hEarlier
      by_contra hNot
      apply hStale
      refine ⟨earlier, hEarlier, ?_⟩
      by_contra hFresh
      rcases not_or.mp hFresh with ⟨hNe, hNewer⟩
      exact hNot ⟨hNe, UInt64.not_le.mp hNewer⟩
  · rintro ⟨r, rfl, rfl, hCanonical, hFollows⟩
    have hFresh :
        ¬ ∃ earlier ∈ out,
          earlier.id = r.id ∨
            earlier.generation ≤ r.generation := by
      rintro ⟨earlier, hEarlier, hStale⟩
      rcases hFollows earlier hEarlier with ⟨hNe, hNewer⟩
      rcases hStale with hSame | hOlder
      · exact hNe hSame
      · exact UInt64.not_le.mpr hNewer hOlder
    have hId :=
      micaBootId_eq_some_iff.mpr
        ⟨micaBootRecordText_append r rest, hCanonical.id⟩
    have hKernel :=
      @micaBootId_eq_some_iff _
        (decimal r.generation.toNat ++
          44 :: micaBootTriesByte r.tries :: rest)
        r.kernel |>.mpr ⟨rfl, hCanonical.kernel⟩
    have hNumber :=
      @micaBootNumber_eq_some_iff _
        (44 :: micaBootTriesByte r.tries :: rest)
        r.generation |>.mpr
          ⟨rfl, by simp [EndsDigits, IsDigit],
            hCanonical.generation_pos,
            hCanonical.generation_le⟩
    have hTries :=
      @micaBootTries_eq_some_iff _ rest r.tries |>.mpr
        ⟨rfl, hCanonical.tries⟩
    simp [micaBootRecord, hId, hKernel, hNumber, hTries,
      hFresh]

/- The texts of the records of a list, `;` between them. -/
theorem intercalate_cons_ne_nil
    (r : MicaBootRecord)
    {records : MicaBootRecords}
    (hRecords : records ≠ []) :
    [59].intercalate
        ((r :: records).map micaBootRecordText) =
      micaBootRecordText r ++
        59 :: [59].intercalate
          (records.map micaBootRecordText) := by
  cases records with
  | nil => exact absurd rfl hRecords
  | cons s records =>
      simp [List.intercalate]

/- The record text is not empty. -/
theorem micaBootRecordText_ne_nil (r : MicaBootRecord) :
    micaBootRecordText r ≠ [] := by
  simp [micaBootRecordText]

/- The texts of a nonempty list are not empty. -/
theorem intercalate_ne_nil
    {records : MicaBootRecords}
    (hRecords : records ≠ []) :
    [59].intercalate (records.map micaBootRecordText) ≠
      [] := by
  cases records with
  | nil => exact absurd rfl hRecords
  | cons r records =>
      by_cases hMore : records = []
      · subst hMore
        simpa [List.intercalate] using
          micaBootRecordText_ne_nil r
      · rw [intercalate_cons_ne_nil r hMore]
        simp

/-
  The record loop reads exactly the texts of canonical
  records that keep the order, as many as there is room for.
-/
theorem micaBootRecordLoop_eq_some_iff
    {room : Nat}
    {out records : MicaBootRecords}
    {p : List UInt8} :
    micaBootRecordLoop room out p = some records ↔
      ∃ new : MicaBootRecords,
        records = out ++ new ∧
        new ≠ [] ∧
        new.length ≤ room ∧
        p = [59].intercalate (new.map micaBootRecordText) ∧
        (∀ r ∈ new, r.Canonical) ∧
        new.Pairwise MicaBootRecord.Follows ∧
        ∀ earlier ∈ out, ∀ r ∈ new, earlier.Follows r := by
  induction room generalizing out p with
  | zero =>
      constructor
      · intro hLoop
        cases hLoop
      · rintro ⟨new, -, hNew, hRoom, -⟩
        exact absurd (List.length_eq_zero_iff.mp
          (Nat.le_zero.mp hRoom)) hNew
  | succ room ih =>
      constructor
      · intro hLoop
        rw [micaBootRecordLoop] at hLoop
        split at hLoop
        · cases hLoop
        · rename_i out' hRecord
          cases hLoop
          rcases micaBootRecord_eq_some_iff.mp hRecord with
            ⟨r, rfl, rfl, hCanonical, hFollows⟩
          refine ⟨[r], rfl, by simp, by simp, ?_⟩
          simpa [List.intercalate, hCanonical] using hFollows
        · rename_i out' b rest hRecord
          rcases micaBootRecord_eq_some_iff.mp hRecord with
            ⟨r, rfl, rfl, hCanonical, hFollows⟩
          split_ifs at hLoop with hSeparator
          rcases not_or.mp hSeparator with ⟨hSemicolon, -⟩
          have hByte : b = 59 := by
            simpa using hSemicolon
          subst hByte
          rcases ih.mp hLoop with
            ⟨new, hRecords, hNew, hRoom, hText, hEach,
              hOrdered, hLater⟩
          refine
            ⟨r :: new, by simp [hRecords], by simp,
              by simpa using hRoom, ?_, ?_, ?_, ?_⟩
          · rw [intercalate_cons_ne_nil r hNew, hText]
          · simpa [hCanonical] using hEach
          · refine List.pairwise_cons.mpr ⟨?_, hOrdered⟩
            intro later hMember
            exact hLater r (by simp) later hMember
          · intro earlier hEarlier later hMember
            rcases List.mem_cons.mp hMember with rfl | hRest
            · exact hFollows earlier hEarlier
            · exact hLater earlier (by simp [hEarlier])
                later hRest
      · rintro
          ⟨new, rfl, hNew, hRoom, rfl, hEach, hOrdered,
            hLater⟩
        cases new with
        | nil => exact absurd rfl hNew
        | cons r new =>
            have hRecord (rest : List UInt8) :
                micaBootRecord out
                    (micaBootRecordText r ++ rest) =
                  some (out ++ [r], rest) :=
              micaBootRecord_eq_some_iff.mpr
                ⟨r, rfl, rfl, hEach r (by simp),
                  fun earlier hEarlier =>
                    hLater earlier hEarlier r (by simp)⟩
            by_cases hMore : new = []
            · subst hMore
              have hOne := hRecord []
              simp only [List.append_nil] at hOne
              simp [micaBootRecordLoop, List.intercalate,
                hOne]
            · rw [intercalate_cons_ne_nil r hMore,
                micaBootRecordLoop, hRecord]
              have hText := intercalate_ne_nil hMore
              simp only [ne_eq, not_true_eq_false, hText,
                or_self, if_false]
              refine ih.mpr
                ⟨new, by simp, hMore, by simpa using hRoom,
                  rfl, fun s hs => hEach s (by simp [hs]),
                  (List.pairwise_cons.mp hOrdered).2, ?_⟩
              intro earlier hEarlier later hMember
              rcases List.mem_append.mp hEarlier with
                hOld | hLast
              · exact hLater earlier hOld later
                  (by simp [hMember])
              · rw [List.mem_singleton.mp hLast]
                exact (List.pairwise_cons.mp hOrdered).1
                  later hMember

------------------------------------------------------------
-- Lengths
------------------------------------------------------------

/- A generation within the limit has at most 16 digits. -/
theorem decimal_length_le
    {n : Nat}
    (hLe : n ≤ micaBootGenerationLimit.toNat) :
    (decimal n).length ≤ 16 := by
  unfold decimal
  split
  · simp
  · rw [List.length_map, List.length_reverse,
      Nat.digits_length_le_iff (by omega)]
    have hLimit :
        micaBootGenerationLimit.toNat = 9007199254740991 :=
      rfl
    omega

/- A canonical record takes at most 148 bytes. -/
theorem micaBootRecordText_length_le
    {r : MicaBootRecord}
    (hCanonical : r.Canonical) :
    (micaBootRecordText r).length ≤ 148 := by
  have hId := hCanonical.id.1
  have hKernel := hCanonical.kernel.1
  have hDecimal := decimal_length_le hCanonical.generation_le
  simp only [micaBootRecordText, List.length_append,
    List.length_cons, List.length_nil]
  omega

/- A canonical list takes at most 300 bytes. -/
theorem micaBootText_length_le
    {records : MicaBootRecords}
    (hCanonical : Canonical records) :
    (micaBootText records).length ≤ 300 := by
  have hEach :
      ∀ r ∈ records, (micaBootRecordText r).length ≤ 148 :=
    fun r hr =>
      micaBootRecordText_length_le (hCanonical.record r hr)
  have hCount : records.length ≤ 2 := hCanonical.length_le
  match records, hCanonical.nonempty with
  | [r], _ =>
      have hFirst := hEach r (by simp)
      simp [micaBootText, List.intercalate]
      omega
  | [r, s], _ =>
      have hFirst := hEach r (by simp)
      have hSecond := hEach s (by simp)
      simp [micaBootText, List.intercalate,
        List.intersperse]
      omega
  | _ :: _ :: _ :: _, _ =>
      simp at hCount

------------------------------------------------------------
-- Values
------------------------------------------------------------

/- No byte of a record's text is the terminator. -/
theorem micaBootRecordText_ne_zero
    {r : MicaBootRecord}
    (hRange : r.TriesInRange) :
    ∀ b ∈ micaBootRecordText r, b ≠ 0 := by
  intro b hb
  have hTries : micaBootTriesByte r.tries ≠ 0 := by
    rcases hRange with ⟨hLow, hHigh⟩
    interval_cases r.tries <;> decide
  have hDigits :
      ∀ c ∈ decimal r.generation.toNat, c ≠ 0 := by
    rintro c hc rfl
    exact absurd (isDigit_of_mem_decimal hc).1 (by decide)
  simp only [micaBootRecordText, List.mem_append,
    List.mem_cons, List.not_mem_nil, or_false] at hb
  rcases hb with hId | rfl | hKernel | rfl | hNumber | rfl |
    rfl
  · exact r.id.noNul b hId
  · decide
  · exact r.kernel.noNul b hKernel
  · decide
  · exact hDigits b hNumber
  · decide
  · exact hTries

/- No byte of a value text is the terminator. -/
theorem micaBootText_ne_zero
    {records : MicaBootRecords}
    (hTries : ∀ r ∈ records, r.TriesInRange) :
    ∀ b ∈ micaBootText records, b ≠ 0 := by
  have hRecords :
      ∀ b ∈ [59].intercalate
        (records.map micaBootRecordText), b ≠ 0 := by
    induction records with
    | nil => simp [List.intercalate]
    | cons r records ih =>
        have hFirst :=
          micaBootRecordText_ne_zero (hTries r (by simp))
        have hRest := ih (fun s hs => hTries s (by simp [hs]))
        by_cases hMore : records = []
        · subst hMore
          simpa [List.intercalate] using hFirst
        · rw [intercalate_cons_ne_nil r hMore]
          intro b hb
          rcases List.mem_append.mp hb with hOwn | hTail
          · exact hFirst b hOwn
          · rcases List.mem_cons.mp hTail with rfl | hLater
            · decide
            · exact hRest b hLater
  intro b hb
  rcases List.mem_append.mp hb with hHead | hBody
  · simp only [List.mem_cons, List.not_mem_nil, or_false]
      at hHead
    rcases hHead with rfl | rfl | rfl <;> decide
  · exact hRecords b hBody

/- The bytes of a C string, up to its terminator. -/
def cStringBytes (text : List UInt8) : List UInt8 :=
  text.takeWhile (fun b => b ≠ 0)

/- Without a terminator in it a text is its own string. -/
theorem cStringBytes_eq_self
    {text : List UInt8}
    (hText : ∀ b ∈ text, b ≠ 0) :
    cStringBytes text = text := by
  apply List.takeWhile_eq_self_iff.mpr
  simpa using hText

/- The length loop counts the string, within its room. -/
theorem micaBootLength_eq_min
    (room : Nat)
    (text : List UInt8) :
    micaBootLength room text =
      min room (cStringBytes text).length := by
  induction room generalizing text with
  | zero => simp [micaBootLength]
  | succ room ih =>
      cases text with
      | nil => simp [micaBootLength, cStringBytes]
      | cons b text =>
          by_cases hZero : b = 0
          · simp [micaBootLength, cStringBytes, hZero]
          · have hTail := ih text
            unfold cStringBytes at hTail ⊢
            simp only [micaBootLength, hZero, if_false, hTail,
              List.takeWhile_cons, ne_eq, not_false_eq_true,
              decide_true, if_true, List.length_cons]
            omega

/- A string within the limit is the front of its memory. -/
theorem take_length_cStringBytes (text : List UInt8) :
    text.take (cStringBytes text).length =
      cStringBytes text :=
  (List.prefix_iff_eq_take.mp
    (List.takeWhile_prefix _)).symm

/-
  `mica_boot_parse` accepts exactly the texts of the
  canonical record lists, and reads back their records.
-/
theorem micaBootParse_eq_some_iff
    {text : List UInt8}
    {records : MicaBootRecords} :
    micaBootParse text = some records ↔
      cStringBytes text = micaBootText records ∧
        Canonical records := by
  have hFront := take_length_cStringBytes text
  constructor
  · intro hParse
    rw [micaBootParse, micaBootLength_eq_min] at hParse
    split_ifs at hParse with hRefused
    rcases not_or.mp hRefused with ⟨hLong, hRest⟩
    rcases not_or.mp hRest with ⟨hShort, hHead⟩
    have hLength :
        min (micaBootValueLimit + 1)
            (cStringBytes text).length =
          (cStringBytes text).length := by
      omega
    rw [hLength] at hParse hShort
    rw [hFront] at hParse
    rcases micaBootRecordLoop_eq_some_iff.mp hParse with
      ⟨new, rfl, hNew, hRoom, hText, hEach, hOrdered, -⟩
    refine
      ⟨?_, ⟨by simpa using hNew, by simpa using hRoom,
        by simpa using hEach, by simpa using hOrdered⟩⟩
    have hVersion :
        (cStringBytes text).take 3 = [118, 49, 124] := by
      rw [← hFront, List.take_take,
        min_eq_left (by omega)]
      simpa using hHead
    rw [micaBootText, ← hText, ← hVersion,
      List.take_append_drop]
  · rintro ⟨hText, hCanonical⟩
    have hLong := micaBootText_length_le hCanonical
    rw [← hText] at hLong
    have hLimit : micaBootValueLimit = 512 := rfl
    have hLength :
        min (micaBootValueLimit + 1)
            (cStringBytes text).length =
          (cStringBytes text).length := by
      omega
    have hBody := intercalate_ne_nil hCanonical.nonempty
    have hShort : 4 ≤ (cStringBytes text).length := by
      have hPos := List.length_pos_iff.mpr hBody
      rw [hText, micaBootText]
      simp only [List.length_append, List.length_cons,
        List.length_nil]
      omega
    have hVersion : text.take 3 = [118, 49, 124] := by
      have hTake :
          (text.take (cStringBytes text).length).take 3 =
            [118, 49, 124] := by
        rw [hFront, hText]
        rfl
      rwa [List.take_take, min_eq_left (by omega)] at hTake
    have hDrop :
        (cStringBytes text).drop 3 =
          [59].intercalate
            (records.map micaBootRecordText) := by
      rw [hText]
      rfl
    rw [micaBootParse, micaBootLength_eq_min, hLength,
      hFront, hDrop]
    rw [if_neg (by
      rw [hVersion]
      simp only [ne_eq, not_true_eq_false, or_false]
      omega)]
    exact micaBootRecordLoop_eq_some_iff.mpr
      ⟨records, by simp, hCanonical.nonempty,
        hCanonical.length_le, rfl, hCanonical.record,
        hCanonical.ordered, by simp⟩

------------------------------------------------------------
-- Rendering
------------------------------------------------------------

/-
  A text is split at its first separator in one way: the
  right front part has none, and the left one has none or
  is not longer.
-/
theorem append_cons_inj
    {c : UInt8}
    {front front' rest rest' : List UInt8}
    (hText : front ++ c :: rest = front' ++ c :: rest')
    (hRight : c ∉ front')
    (hLeft : c ∉ front ∨ front.length ≤ front'.length) :
    front = front' ∧ rest = rest' := by
  rcases List.append_eq_append_iff.mp hText with
    ⟨middle, hFront, hRest⟩ | ⟨middle, hFront, hRest⟩
  · cases middle with
    | nil => simp_all
    | cons b middle =>
        injection hRest with hByte
        subst hByte
        exact absurd (by simp [hFront]) hRight
  · cases middle with
    | nil => simp_all
    | cons b middle =>
        injection hRest with hByte
        subst hByte
        rcases hLeft with hNone | hShort
        · exact absurd (by simp [hFront]) hNone
        · simp [hFront] at hShort

/- Different numbers have different renderings. -/
theorem decimal_injective : Function.Injective decimal := by
  have hValue : ∀ n, decimalValue 0 (decimal n) = n := by
    intro n
    by_cases hZero : n = 0
    · subst hZero
      rfl
    · rcases exists_decimal_eq_cons
          (Nat.one_le_iff_ne_zero.mpr hZero) with
        ⟨first, digits, hDecimal, -, -, hValue⟩
      rw [hDecimal, hValue]
  intro m n hEq
  rw [← hValue m, hEq, hValue n]

/- The comma is no byte of an id. -/
theorem comma_not_mem_of_isId
    {id : CString 64}
    (hId : id.IsId) :
    (44 : UInt8) ∉ id.bytes := by
  intro hMember
  have hByte := hId.2 44 hMember
  simp [micaBootIdByte] at hByte

/- The tries byte determines the tries. -/
theorem micaBootTriesByte_inj
    {left right : Int}
    (hLeft : -1 ≤ left ∧ left ≤ 3)
    (hRight : -1 ≤ right ∧ right ≤ 3)
    (hByte : micaBootTriesByte left =
      micaBootTriesByte right) :
    left = right := by
  rcases hLeft with ⟨hLow, hHigh⟩
  rcases hRight with ⟨hLow', hHigh'⟩
  interval_cases left <;> interval_cases right <;>
    first
      | rfl
      | exact absurd hByte (by decide)

/-
  A record text in front of a text determines the record and
  the rest, when the other record is canonical.
-/
theorem micaBootRecordText_append_inj
    {r r' : MicaBootRecord}
    {rest rest' : List UInt8}
    (hTries : r.TriesInRange)
    (hCanonical : r'.Canonical)
    (hText : micaBootRecordText r ++ rest =
      micaBootRecordText r' ++ rest') :
    r = r' ∧ rest = rest' := by
  rw [micaBootRecordText_append,
    micaBootRecordText_append] at hText
  rcases append_cons_inj hText
      (comma_not_mem_of_isId hCanonical.id)
      (Or.inr (r.id.bound.trans_eq hCanonical.id.1.symm)) with
    ⟨hId, hText⟩
  rcases append_cons_inj hText
      (comma_not_mem_of_isId hCanonical.kernel)
      (Or.inr
        (r.kernel.bound.trans_eq hCanonical.kernel.1.symm)) with
    ⟨hKernel, hText⟩
  have hNoComma : ∀ n, (44 : UInt8) ∉ decimal n := by
    intro n hMember
    exact absurd (isDigit_of_mem_decimal hMember).1
      (by decide)
  rcases append_cons_inj hText (hNoComma _)
      (Or.inl (hNoComma _)) with
    ⟨hNumber, hText⟩
  injection hText with hByte hRest
  have hSame :=
    micaBootTriesByte_inj hTries hCanonical.tries hByte
  refine ⟨?_, hRest⟩
  cases r
  cases r'
  simp_all [CString.ext_iff, decimal_injective.eq_iff,
    UInt64.toNat_inj]

/- The texts of a list determine it likewise. -/
theorem intercalate_inj
    {records records' : MicaBootRecords}
    (hNonempty : records ≠ [])
    (hNonempty' : records' ≠ [])
    (hTries : ∀ r ∈ records, r.TriesInRange)
    (hCanonical : ∀ r ∈ records', r.Canonical)
    (hText :
      [59].intercalate (records.map micaBootRecordText) =
        [59].intercalate
          (records'.map micaBootRecordText)) :
    records = records' := by
  induction records generalizing records' with
  | nil => exact absurd rfl hNonempty
  | cons r records ih =>
      cases records' with
      | nil => exact absurd rfl hNonempty'
      | cons r' records' =>
          have hFirst := hTries r (by simp)
          have hFirst' := hCanonical r' (by simp)
          by_cases hMore : records = [] <;>
            by_cases hMore' : records' = []
          · subst hMore hMore'
            have hEnd :
                micaBootRecordText r ++ [] =
                  micaBootRecordText r' ++ [] := by
              simpa [List.intercalate] using hText
            rw [(micaBootRecordText_append_inj hFirst hFirst'
              hEnd).1]
          · subst hMore
            rw [intercalate_cons_ne_nil r' hMore'] at hText
            have hEnd :
                micaBootRecordText r ++ [] =
                  micaBootRecordText r' ++
                    59 :: [59].intercalate
                      (records'.map micaBootRecordText) := by
              simpa [List.intercalate] using hText
            exact absurd
              (micaBootRecordText_append_inj hFirst hFirst'
                hEnd).2 (by simp)
          · subst hMore'
            rw [intercalate_cons_ne_nil r hMore] at hText
            have hEnd :
                micaBootRecordText r ++
                    59 :: [59].intercalate
                      (records.map micaBootRecordText) =
                  micaBootRecordText r' ++ [] := by
              simpa [List.intercalate] using hText
            exact absurd
              (micaBootRecordText_append_inj hFirst hFirst'
                hEnd).2 (by simp)
          · rw [intercalate_cons_ne_nil r hMore,
              intercalate_cons_ne_nil r' hMore'] at hText
            rcases micaBootRecordText_append_inj hFirst
                hFirst' hText with ⟨rfl, hRest⟩
            injection hRest with _ hRest
            rw [ih hMore hMore'
              (fun s hs => hTries s (by simp [hs]))
              (fun s hs => hCanonical s (by simp [hs]))
              hRest]

/- What the render loop has written when it succeeds. -/
theorem micaBootRenderLoop_eq_some
    {text separator final : List UInt8}
    {records : MicaBootRecords}
    (hNonempty : records ≠ [])
    (hLoop : micaBootRenderLoop text separator records =
      some final) :
    (∀ r ∈ records, r.TriesInRange) ∧
      final = text ++ separator ++
        [59].intercalate
          (records.map micaBootRecordText) := by
  induction records generalizing text separator with
  | nil => exact absurd rfl hNonempty
  | cons r records ih =>
      rw [micaBootRenderLoop] at hLoop
      split_ifs at hLoop with hTries
      have hRange : r.TriesInRange := by
        rcases not_or.mp hTries with ⟨hLow, hHigh⟩
        exact ⟨not_lt.mp hLow, not_lt.mp hHigh⟩
      by_cases hRoom :
          micaBootValueLimit - text.length <
            (separator ++ micaBootRecordText r).length
      · simp only [hRoom, if_true] at hLoop
        cases hLoop
      · simp only [hRoom, if_false] at hLoop
        by_cases hMore : records = []
        · subst hMore
          cases hLoop
          simp [List.intercalate, hRange]
        · rcases ih hMore hLoop with ⟨hRest, rfl⟩
          rw [intercalate_cons_ne_nil r hMore]
          simpa [hRange] using hRest

/- A text within the limit is written. -/
theorem micaBootRenderLoop_of_length_le
    {text separator : List UInt8}
    {records : MicaBootRecords}
    (hNonempty : records ≠ [])
    (hTries : ∀ r ∈ records, r.TriesInRange)
    (hLength :
      (text ++ separator ++ [59].intercalate
        (records.map micaBootRecordText)).length ≤
          micaBootValueLimit) :
    micaBootRenderLoop text separator records =
      some (text ++ separator ++
        [59].intercalate
          (records.map micaBootRecordText)) := by
  induction records generalizing text separator with
  | nil => exact absurd rfl hNonempty
  | cons r records ih =>
      have hRange := hTries r (by simp)
      have hInRange : ¬ (r.tries < -1 ∨ 3 < r.tries) :=
        not_or.mpr
          ⟨not_lt.mpr hRange.1, not_lt.mpr hRange.2⟩
      by_cases hMore : records = []
      · subst hMore
        have hRoom :
            ¬ micaBootValueLimit - text.length <
              (separator ++ micaBootRecordText r).length := by
          simp [List.intercalate] at hLength ⊢
          omega
        rw [micaBootRenderLoop, if_neg hInRange]
        simp only [hRoom, if_false]
        simp [micaBootRenderLoop, List.intercalate]
      · rw [intercalate_cons_ne_nil r hMore] at hLength ⊢
        have hRoom :
            ¬ micaBootValueLimit - text.length <
              (separator ++ micaBootRecordText r).length := by
          simp only [List.length_append, List.length_cons]
            at hLength ⊢
          omega
        rw [micaBootRenderLoop, if_neg hInRange]
        simp only [hRoom, if_false]
        rw [ih hMore (fun s hs => hTries s (by simp [hs]))]
        · simp
        · simpa using hLength

/-
  `mica_boot_render` accepts exactly the canonical record
  lists, and writes their text.
-/
theorem micaBootRender_eq_some_iff
    {records : MicaBootRecords}
    {text : List UInt8} :
    micaBootRender records = some text ↔
      Canonical records ∧ text = micaBootText records := by
  constructor
  · intro hRender
    rw [micaBootRender] at hRender
    split_ifs at hRender with hCount
    have hNonempty : records ≠ [] := by
      rintro rfl
      exact hCount (Or.inl rfl)
    split at hRender
    · cases hRender
    · rename_i written hLoop
      split_ifs at hRender with hParsed
      cases hRender
      rcases micaBootRenderLoop_eq_some hNonempty hLoop with
        ⟨hTries, rfl⟩
      rcases Option.isSome_iff_exists.mp hParsed with
        ⟨parsed, hParse⟩
      rcases micaBootParse_eq_some_iff.mp hParse with
        ⟨hText, hCanonical⟩
      have hSelf :
          cStringBytes (micaBootText records) =
            micaBootText records :=
        cStringBytes_eq_self (micaBootText_ne_zero hTries)
      have hSame : records = parsed :=
        intercalate_inj hNonempty hCanonical.nonempty hTries
          hCanonical.record
          (List.append_cancel_left (hSelf.symm.trans hText))
      subst hSame
      exact ⟨hCanonical, rfl⟩
  · rintro ⟨hCanonical, rfl⟩
    have hCount :
        ¬ (records.length = 0 ∨
          micaBootRecordLimit < records.length) := by
      rintro (hEmpty | hMany)
      · exact hCanonical.nonempty
          (List.length_eq_zero_iff.mp hEmpty)
      · exact absurd hCanonical.length_le (not_le.mpr hMany)
    have hLength := micaBootText_length_le hCanonical
    have hLoop :=
      @micaBootRenderLoop_of_length_le [118, 49, 124] []
        records hCanonical.nonempty
        (fun r hr => (hCanonical.record r hr).tries)
        (le_trans hLength (by decide))
    have hParse :
        micaBootParse (micaBootText records) = some records :=
      micaBootParse_eq_some_iff.mpr
        ⟨cStringBytes_eq_self
          (micaBootText_ne_zero
            fun r hr => (hCanonical.record r hr).tries),
          hCanonical⟩
    rw [micaBootRender, if_neg hCount, hLoop]
    simp only [List.append_nil]
    exact if_pos (by
      rw [show [118, 49, 124] ++ _ = micaBootText records
        from rfl, hParse]
      rfl)

end Boot

end MicaBoards
