import MicaBoards.Boot.RecordReads

/-
  The grammar of the boot-record value. `mica_boot_parse`
  accepts exactly the texts of the grammar, reading no
  further than the string, and `mica_boot_render` is its
  inverse.

  Main declarations:
    * `IsRecordsText`
    * `micaBootParse_grammar`
    * `micaBootRender_inverse`
-/

------------------------------------------------------------
-- Grammar
------------------------------------------------------------

namespace MicaBoards

namespace Boot

/- A decimal number without leading zero. -/
structure IsNumber
    (digits : List UInt8)
    (n : Nat) : Prop where
  nonempty : digits ≠ []
  digit : ∀ b ∈ digits, IsDigit b
  noLeadingZero : digits.head? ≠ some 48
  value : decimalValue 0 digits = n

/- The tries byte, and what it stands for. -/
inductive IsTries : UInt8 → Int → Prop where
| permanent : IsTries 45 (-1)
| zero : IsTries 48 0
| one : IsTries 49 1
| two : IsTries 50 2
| three : IsTries 51 3

/- The text of one record: its fields, with commas between. -/
structure IsRecordText
    (text : List UInt8)
    (r : MicaBootRecord) : Prop where
  id : r.id.IsId
  kernel : r.kernel.IsId
  positive : 1 ≤ r.generation.toNat
  limit : r.generation.toNat ≤ 2 ^ 53 - 1
  fields : ∃ digits t,
    IsNumber digits r.generation.toNat ∧
      IsTries t r.tries ∧
        text =
          r.id.bytes ++ [44] ++ r.kernel.bytes ++ [44] ++
            digits ++ [44, t]

/- The text of one or two records, `;` between them. -/
inductive IsRecordsText :
    List UInt8 → MicaBootRecords → Prop where
| one {text : List UInt8} {r : MicaBootRecord}
    (hText : IsRecordText text r) :
    IsRecordsText ([118, 49, 124] ++ text) [r]
| two {text text' : List UInt8} {r r' : MicaBootRecord}
    (hText : IsRecordText text r)
    (hText' : IsRecordText text' r')
    (hIds : r.id ≠ r'.id)
    (hGenerations : r'.generation < r.generation) :
    IsRecordsText
      ([118, 49, 124] ++ text ++ [59] ++ text') [r, r']

/- The numbers of the grammar are what `%llu` prints. -/
theorem isNumber_iff
    {digits : List UInt8}
    {n : Nat}
    (hPositive : 1 ≤ n) :
    IsNumber digits n ↔ digits = decimal n := by
  constructor
  · rintro ⟨hNonempty, hDigit, hZero, hValue⟩
    cases digits with
    | nil => exact absurd rfl hNonempty
    | cons first digits =>
        have hFirst : 49 ≤ first := by
          have hLow := (hDigit first (by simp)).1
          have hNe : first ≠ 48 := by simpa using hZero
          rw [UInt8.le_iff_toNat_le] at hLow ⊢
          rw [ne_eq, ← UInt8.toNat_inj] at hNe
          have hLeast : (48 : UInt8).toNat = 48 := rfl
          have hNext : (49 : UInt8).toNat = 49 := rfl
          omega
        rw [← hValue]
        exact (decimal_decimalValue hDigit hFirst).2.symm
  · intro hDigits
    rcases exists_decimal_eq_cons hPositive with
      ⟨first, rest, hDecimal, hDigit, hFirst, hValue⟩
    rw [hDigits, hDecimal]
    refine ⟨by simp, hDigit, ?_, hValue⟩
    intro hZero
    have hEq : first = 48 := by simpa using hZero
    subst hEq
    exact absurd hFirst (by decide)

/- The tries bytes of the grammar are the rendered ones. -/
theorem isTries_iff
    {t : UInt8}
    {tries : Int} :
    IsTries t tries ↔
      (-1 ≤ tries ∧ tries ≤ 3) ∧ t = micaBootTriesByte tries := by
  constructor
  · intro hTries
    cases hTries <;> decide
  · rintro ⟨⟨hLow, hHigh⟩, hByte⟩
    subst hByte
    interval_cases tries
    · exact .permanent
    · exact .zero
    · exact .one
    · exact .two
    · exact .three

/- A record of the grammar is a canonical record's text. -/
theorem isRecordText_iff
    {text : List UInt8}
    {r : MicaBootRecord} :
    IsRecordText text r ↔
      r.Canonical ∧ text = micaBootRecordText r := by
  have hLimit :
      micaBootGenerationLimit.toNat = 2 ^ 53 - 1 := rfl
  constructor
  · rintro ⟨hId, hKernel, hPositive, hLe, digits, t, hNumber,
      hTries, hText⟩
    rw [isNumber_iff hPositive] at hNumber
    rcases isTries_iff.mp hTries with ⟨hRange, hByte⟩
    refine ⟨⟨hId, hKernel, hPositive, hLe, hRange⟩, ?_⟩
    rw [hText, hNumber, hByte]
    simp [micaBootRecordText]
  · rintro ⟨hCanonical, hText⟩
    refine
      ⟨hCanonical.id, hCanonical.kernel,
        hCanonical.generation_pos, hCanonical.generation_le,
        decimal r.generation.toNat,
        micaBootTriesByte r.tries,
        (isNumber_iff hCanonical.generation_pos).mpr rfl,
        isTries_iff.mpr ⟨hCanonical.tries, rfl⟩, ?_⟩
    rw [hText]
    simp [micaBootRecordText]

/- The texts of the grammar are those of canonical lists. -/
theorem isRecordsText_iff
    {text : List UInt8}
    {records : MicaBootRecords} :
    IsRecordsText text records ↔
      text = micaBootText records ∧ Canonical records := by
  constructor
  · intro hText
    cases hText with
    | one hFirst =>
        rename_i r
        rcases isRecordText_iff.mp hFirst with
          ⟨hCanonical, hBytes⟩
        refine
          ⟨?_, by simp, by simp [micaBootRecordLimit], ?_,
            by simp⟩
        · rw [hBytes]
          simp [micaBootText, List.intercalate]
        · intro s hs
          rw [List.mem_singleton.mp hs]
          exact hCanonical
    | two hFirst hSecond hIds hGenerations =>
        rename_i r r'
        rcases isRecordText_iff.mp hFirst with
          ⟨hCanonical, hBytes⟩
        rcases isRecordText_iff.mp hSecond with
          ⟨hCanonical', hBytes'⟩
        refine ⟨?_, by simp, by simp [micaBootRecordLimit], ?_, ?_⟩
        · rw [hBytes, hBytes']
          simp [micaBootText, List.intercalate]
        · intro s hs
          rw [List.mem_cons, List.mem_singleton] at hs
          rcases hs with hs | hs
          · exact hs ▸ hCanonical
          · exact hs ▸ hCanonical'
        · simpa [MicaBootRecord.Follows] using
            ⟨hIds, hGenerations⟩
  · rintro ⟨hText, hNonempty, hLength, hRecord, hOrdered⟩
    have hEach : ∀ r ∈ records,
        IsRecordText (micaBootRecordText r) r :=
      fun r hr => isRecordText_iff.mpr ⟨hRecord r hr, rfl⟩
    rw [hText]
    cases records with
    | nil => exact absurd rfl hNonempty
    | cons r records =>
        cases records with
        | nil =>
            have hOne := IsRecordsText.one (hEach r (by simp))
            simpa [micaBootText, List.intercalate] using hOne
        | cons r' records =>
            cases records with
            | nil =>
                have hFollows : r.Follows r' := by
                  simpa using hOrdered
                have hTwo :=
                  IsRecordsText.two (hEach r (by simp))
                    (hEach r' (by simp)) hFollows.1 hFollows.2
                simpa [micaBootText, List.intercalate]
                  using hTwo
            | cons r'' records =>
                simp [micaBootRecordLimit] at hLength

------------------------------------------------------------
-- Parsing
------------------------------------------------------------

/-
  A step of the generation loop that passes its test: the
  value after it, which the loop keeps in 64 bits.
-/
theorem micaBootGeneration_noOverflow
    {generation : UInt64}
    {b : UInt8}
    (hDigit : IsDigit b)
    (hTest :
      ¬ (micaBootGenerationLimit - (b - 48).toUInt64) / 10 <
        generation) :
    generation.toNat * 10 + (b - 48).toNat < 2 ^ 64 ∧
      (generation * 10 + (b - 48).toUInt64).toNat =
        generation.toNat * 10 + (b - 48).toNat := by
  rcases @micaBootGeneration_step generation b hDigit with
    ⟨hFits, hStep⟩
  have hLe := hFits.mp hTest
  have hLimit :
      micaBootGenerationLimit.toNat = 9007199254740991 := rfl
  refine ⟨?_, hStep hLe⟩
  omega

/-
  `mica_boot_parse` accepts a string exactly if it is one of
  the grammar, and returns its records. It reads no further
  than the terminator or 513 bytes, and its generations do not
  overflow.
-/
theorem micaBootParse_grammar
    (string : List UInt8)
    (hNul : ∀ b ∈ string, b ≠ 0)
    (behind : List UInt8) :
    (∀ records,
      micaBootParse (string ++ 0 :: behind) = some records ↔
        string.length ≤ 512 ∧ IsRecordsText string records) ∧
    micaBootParseRead
        (readableText (micaBootValueLimit + 1) string) =
      Reading.ofOption
        (micaBootParse (string ++ 0 :: behind)) ∧
    (∀ (generation : UInt64) (b : UInt8),
      IsDigit b →
      ¬ (micaBootGenerationLimit - (b - 48).toUInt64) / 10 <
          generation →
        generation.toNat * 10 + (b - 48).toNat < 2 ^ 64 ∧
          (generation * 10 + (b - 48).toUInt64).toNat =
            generation.toNat * 10 + (b - 48).toNat) := by
  refine
    ⟨fun records => ?_, micaBootParseRead_eq hNul behind,
      fun generation b =>
        micaBootGeneration_noOverflow⟩
  have hString :
      cStringBytes (string ++ 0 :: behind) = string := by
    rw [cStringBytes,
      List.takeWhile_append_of_pos (by simpa using hNul)]
    simp
  rw [micaBootParse_eq_some_iff, hString, isRecordsText_iff]
  constructor
  · rintro ⟨hText, hCanonical⟩
    refine ⟨?_, hText, hCanonical⟩
    have hLength := micaBootText_length_le hCanonical
    rw [hText]
    omega
  · rintro ⟨_, hText, hCanonical⟩
    exact ⟨hText, hCanonical⟩

/- A record on trial and a permanent one, and their text. -/
def twoRecords : MicaBootRecords :=
  [⟨⟨List.replicate 64 97, by simp, by simp⟩,
      ⟨List.replicate 64 98, by simp, by simp⟩, 10, 3⟩,
    ⟨⟨List.replicate 64 99, by simp, by simp⟩,
      ⟨List.replicate 64 98, by simp, by simp⟩, 9, -1⟩]

def twoRecordsText : List UInt8 :=
  [118, 49, 124] ++ List.replicate 64 97 ++ [44] ++
    List.replicate 64 98 ++ [44, 49, 48, 44, 51, 59] ++
    List.replicate 64 99 ++ [44] ++ List.replicate 64 98 ++
    [44, 57, 44, 45]

theorem micaBootParse_grammar_twoRecords :
    IsRecordsText twoRecordsText twoRecords ∧
      micaBootParseRead
          (readableText (micaBootValueLimit + 1)
            twoRecordsText) =
        Reading.ofOption (some twoRecords) := by
  have hAll :
      twoRecordsText.all (fun b => decide (b ≠ 0)) = true := by
    decide +kernel
  have hGrammar :=
    micaBootParse_grammar twoRecordsText
      (fun b hMem =>
        of_decide_eq_true (List.all_eq_true.mp hAll b hMem))
      [59]
  have hParse :
      micaBootParse (twoRecordsText ++ 0 :: [59]) =
        some twoRecords := by
    decide +kernel
  refine ⟨((hGrammar.1 twoRecords).mp hParse).2, ?_⟩
  rw [hGrammar.2.1, hParse]

------------------------------------------------------------
-- Rendering
------------------------------------------------------------

/-
  `mica_boot_render` and `mica_boot_parse` are inverse: a text
  that is parsed is rendered again, and records, whatever
  their fields hold, are rendered exactly if some text is
  parsed to them, to such a text.
-/
theorem micaBootRender_inverse :
    (∀ (text : List UInt8) (records : MicaBootRecords),
      micaBootParse text = some records →
        micaBootRender records = some (cStringBytes text)) ∧
    ∀ records : MicaBootRecords,
      ((∃ text, micaBootRender records = some text) ↔
        ∃ text, micaBootParse text = some records) ∧
      ∀ text,
        micaBootRender records = some text →
          micaBootParse text = some records := by
  have hBack (records : MicaBootRecords) (text : List UInt8)
      (hRender : micaBootRender records = some text) :
      micaBootParse text = some records := by
    rcases micaBootRender_eq_some_iff.mp hRender with
      ⟨hCanonical, hText⟩
    have hNul :=
      micaBootText_ne_zero
        fun r hr => (hCanonical.record r hr).tries
    rw [hText, micaBootParse_eq_some_iff,
      cStringBytes_eq_self hNul]
    exact ⟨rfl, hCanonical⟩
  have hForth (text : List UInt8) (records : MicaBootRecords)
      (hParse : micaBootParse text = some records) :
      micaBootRender records = some (cStringBytes text) := by
    rcases micaBootParse_eq_some_iff.mp hParse with
      ⟨hText, hCanonical⟩
    exact micaBootRender_eq_some_iff.mpr ⟨hCanonical, hText⟩
  refine ⟨hForth, fun records => ⟨⟨?_, ?_⟩, hBack records⟩⟩
  · rintro ⟨text, hRender⟩
    exact ⟨text, hBack records text hRender⟩
  · rintro ⟨text, hParse⟩
    exact ⟨_, hForth text records hParse⟩

end Boot

end MicaBoards
