import MicaBoards.Foundations.Reading
import MicaBoards.Boot.RecordsRoundTrip

/-
  `mica_boot_parse` as it reads memory, byte by byte. It reads
  no byte past the terminator of the text, and none past the
  513th.

  Main declarations:
    * `micaBootParseRead`
    * `agrees_micaBootRecordRead`
    * `micaBootParseRead_eq`
-/

------------------------------------------------------------
-- The Parser With Its Reads
------------------------------------------------------------

namespace MicaBoards

namespace Boot

open Reading

/- The string in a `char[limit + 1]` that holds some bytes. -/
def CString.ofBytes
    (limit : Nat)
    (bytes : List UInt8) : CString limit where
  bytes := (bytes.take limit).takeWhile (fun b => b ≠ 0)
  noNul := by
    intro b hb
    simpa using List.mem_takeWhile_imp hb
  bound := by
    have hPrefix :=
      (List.takeWhile_prefix (l := bytes.take limit)
        fun b => decide (b ≠ 0)).length_le
    have hLimit := List.length_take_le limit bytes
    omega

/- The loop of `mica_boot_id` over its 64 bytes. -/
def micaBootIdBytesRead
    (memory : List UInt8) :
    Nat → Nat → Reading (List UInt8)
| _, 0 => .done []
| i, count + 1 => do
    let b ← peek memory i
    if micaBootIdByte b then
      let bytes ← micaBootIdBytesRead memory (i + 1) count
      return b :: bytes
    else
      .refused

/- `mica_boot_id` -/
def micaBootIdRead
    (cursor : Cursor UInt8) :
    Reading (CString 64 × Cursor UInt8) :=
  if cursor.left < 65 then
    .refused
  else do
    let comma ← peek cursor.memory 64
    if comma ≠ 44 then
      .refused
    else
      let bytes ← micaBootIdBytesRead cursor.memory 0 64
      return (CString.ofBytes 64 bytes, cursor.advance 65)

/- The generation loop: it reads while `p < end`. -/
def micaBootGenerationRead
    (generation : UInt64) :
    List UInt8 → Nat → Reading (UInt64 × Cursor UInt8)
| memory, 0 => .done (generation, ⟨memory, 0⟩)
| [], _ + 1 => .outside
| b :: memory, left + 1 =>
    if 48 ≤ b ∧ b ≤ 57 then
      let digit : UInt64 := (b - 48).toUInt64
      if (micaBootGenerationLimit - digit) / 10 <
          generation then
        .refused
      else
        micaBootGenerationRead (generation * 10 + digit)
          memory left
    else
      .done (generation, ⟨b :: memory, left + 1⟩)

/- The generation field. -/
def micaBootNumberRead
    (cursor : Cursor UInt8) :
    Reading (UInt64 × Cursor UInt8) :=
  if cursor.left = 0 then
    .refused
  else do
    let b ← peek cursor.memory 0
    if b < 49 ∨ 57 < b then
      .refused
    else
      micaBootGenerationRead 0 cursor.memory cursor.left

/- The comma and the tries byte. -/
def micaBootTriesRead
    (cursor : Cursor UInt8) :
    Reading (Int × Cursor UInt8) :=
  if cursor.left < 2 then
    .refused
  else do
    let comma ← peek cursor.memory 0
    if comma ≠ 44 then
      .refused
    else
      let t ← peek cursor.memory 1
      if t = 45 then
        return (-1, cursor.advance 2)
      else if 48 ≤ t ∧ t ≤ 51 then
        return (((t - 48).toNat : Int), cursor.advance 2)
      else
        .refused

/- One turn of the record loop, its separator apart. -/
def micaBootRecordRead
    (out : MicaBootRecords)
    (cursor : Cursor UInt8) :
    Reading (MicaBootRecords × Cursor UInt8) := do
  let (id, cursor) ← micaBootIdRead cursor
  let (kernel, cursor) ← micaBootIdRead cursor
  let (generation, cursor) ← micaBootNumberRead cursor
  let (tries, cursor) ← micaBootTriesRead cursor
  if ∃ r ∈ out, r.id = id ∨ r.generation ≤ generation then
    .refused
  else
    return (out ++ [⟨id, kernel, generation, tries⟩], cursor)

/- The record loop. -/
def micaBootRecordLoopRead :
    Nat → MicaBootRecords → Cursor UInt8 →
      Reading MicaBootRecords
| 0, _, _ => .refused
| room + 1, out, cursor => do
    let (out, cursor) ← micaBootRecordRead out cursor
    if cursor.left = 0 then
      return out
    else
      let b ← peek cursor.memory 0
      if b ≠ 59 ∨ (cursor.advance 1).left = 0 then
        .refused
      else
        micaBootRecordLoopRead room out (cursor.advance 1)

/- The length loop, with so many bytes of the limit ahead. -/
def micaBootLengthRead :
    Nat → List UInt8 → Reading Nat
| 0, _ => .done 0
| _ + 1, [] => .outside
| room + 1, b :: memory =>
    if b = 0 then
      .done 0
    else do
      let length ← micaBootLengthRead room memory
      return length + 1

/- `!strncmp(text, key, strlen(key))` for a text as long. -/
def startsWithRead :
    List UInt8 → List UInt8 → Reading Bool
| _, [] => .done true
| [], _ :: _ => .outside
| b :: memory, k :: key =>
    if b = k then startsWithRead memory key else .done false

/- `mica_boot_parse` -/
def micaBootParseRead
    (memory : List UInt8) : Reading MicaBootRecords := do
  let length ←
    micaBootLengthRead (micaBootValueLimit + 1) memory
  if micaBootValueLimit < length ∨ length < 4 then
    .refused
  else
    let starts ← startsWithRead memory [118, 49, 124]
    if starts = false then
      .refused
    else
      micaBootRecordLoopRead micaBootRecordLimit []
        ⟨memory.drop 3, length - 3⟩

------------------------------------------------------------
-- Agreement
------------------------------------------------------------

/- The id loop reads what it takes. -/
theorem micaBootIdBytesRead_eq
    {memory : List UInt8}
    {i count : Nat}
    (hMemory : i + count ≤ memory.length) :
    micaBootIdBytesRead memory i count =
      if ∀ b ∈ (memory.drop i).take count,
          micaBootIdByte b = true then
        .done ((memory.drop i).take count)
      else
        .refused := by
  induction count generalizing i with
  | zero => simp [micaBootIdBytesRead]
  | succ count ih =>
      have hIndex : i < memory.length := by omega
      have hTake :
          (memory.drop i).take (count + 1) =
            memory[i] ::
              (memory.drop (i + 1)).take count := by
        rw [List.drop_eq_getElem_cons hIndex,
          List.take_succ_cons]
      have hNext := ih (i := i + 1) (by omega)
      rw [micaBootIdBytesRead, peek_of_lt hIndex, done_bind,
        hNext, hTake]
      by_cases hByte : micaBootIdByte memory[i] = true
      · by_cases hRest :
            ∀ b ∈ (memory.drop (i + 1)).take count,
              micaBootIdByte b = true
        · have hAll :
              ∀ b ∈ memory[i] ::
                  (memory.drop (i + 1)).take count,
                micaBootIdByte b = true := by
            simpa [hByte] using hRest
          rw [if_pos hByte, if_pos hRest, if_pos hAll]
          rfl
        · have hNot :
              ¬ ∀ b ∈ memory[i] ::
                  (memory.drop (i + 1)).take count,
                micaBootIdByte b = true := by
            intro hAll
            exact hRest fun b hb => hAll b (by simp [hb])
          rw [if_pos hByte, if_neg hRest, if_neg hNot]
          rfl
      · have hNot :
            ¬ ∀ b ∈ memory[i] ::
                (memory.drop (i + 1)).take count,
              micaBootIdByte b = true :=
          fun hAll => hByte (hAll _ (by simp))
        rw [if_neg hByte, if_neg hNot]

/- A string of 64 bytes of an id is the id. -/
theorem ofBytes_of_id
    {bytes : List UInt8}
    (hLength : bytes.length ≤ 64)
    (hId : ∀ b ∈ bytes, micaBootIdByte b = true) :
    (CString.ofBytes 64 bytes).bytes = bytes := by
  simp only [CString.ofBytes,
    List.take_of_length_le hLength]
  rw [List.takeWhile_eq_self_iff]
  intro b hb
  simpa using ne_zero_of_micaBootIdByte (hId b hb)

theorem agrees_micaBootIdRead
    {cursor : Cursor UInt8}
    (hWithin : cursor.Within) :
    Agrees (micaBootIdRead cursor) (micaBootId cursor.text) := by
  have hLeft : cursor.left ≤ cursor.memory.length := hWithin
  have hLength := Cursor.length_text hWithin
  unfold micaBootIdRead micaBootId
  rw [hLength]
  by_cases hShort : cursor.left < 65
  · rw [if_pos hShort, if_pos (Or.inl hShort)]
    exact agrees_refused
  · have hIndex : 64 < cursor.memory.length := by omega
    have hAt : cursor.text[64]? = some cursor.memory[64] := by
      rw [Cursor.text, List.getElem?_take_of_lt (by omega),
        List.getElem?_eq_getElem hIndex]
    have hBytes : cursor.text.take 64 = cursor.memory.take 64 := by
      rw [Cursor.text, List.take_take,
        Nat.min_eq_left (by omega)]
    have hLoop :=
      @micaBootIdBytesRead_eq cursor.memory 0 64 (by omega)
    rw [List.drop_zero] at hLoop
    rw [if_neg hShort, peek_of_lt hIndex, done_bind, hAt, hLoop]
    by_cases hComma : cursor.memory[64] = 44
    · have hSame : ¬ cursor.memory[64] ≠ 44 := by
        simpa using hComma
      have hOpen :
          ¬ (cursor.left < 65 ∨
            some cursor.memory[64] ≠ some 44) := by
        simp [hShort, hComma]
      rw [if_neg hSame, if_neg hOpen]
      by_cases hId :
          ∀ b ∈ cursor.memory.take 64, micaBootIdByte b = true
      · rw [if_pos hId, dif_pos (hBytes ▸ hId)]
        have hString :
            CString.ofBytes 64 (cursor.memory.take 64) =
              ⟨cursor.text.take 64,
                fun b hb =>
                  ne_zero_of_micaBootIdByte
                    ((hBytes ▸ hId) b hb),
                List.length_take_le 64 cursor.text⟩ := by
          apply CString.ext
          exact
            (ofBytes_of_id (List.length_take_le _ _) hId).trans
              hBytes.symm
        rw [done_bind, hString]
        exact
          agrees_done (Cursor.text_advance cursor 65)
            (hWithin.advance 65)
      · rw [if_neg hId, dif_neg (hBytes ▸ hId)]
        exact agrees_refused
    · have hOther :
          cursor.left < 65 ∨
            some cursor.memory[64] ≠ some 44 := by
        simp [hComma]
      rw [if_pos hComma, if_pos hOther]
      exact agrees_refused

theorem agrees_micaBootGenerationRead
    {memory : List UInt8}
    {left : Nat}
    (generation : UInt64)
    (hLeft : left ≤ memory.length) :
    Agrees (micaBootGenerationRead generation memory left)
      (micaBootGeneration generation (memory.take left)) := by
  induction left generalizing memory generation with
  | zero =>
      rw [List.take_zero, micaBootGenerationRead,
        micaBootGeneration]
      exact agrees_done (by simp [Cursor.text]) (Nat.zero_le _)
  | succ left ih =>
      cases memory with
      | nil => simp at hLeft
      | cons b memory =>
          have hRest : left ≤ memory.length := by
            simpa using hLeft
          rw [List.take_succ_cons, micaBootGenerationRead,
            micaBootGeneration]
          split_ifs with hDigit
          · simp only
            split_ifs
            · exact agrees_refused
            · exact ih _ hRest
          · exact agrees_done (by simp [Cursor.text]) hLeft

/- The first byte of the text, when there is one. -/
theorem exists_text_eq_cons
    {cursor : Cursor UInt8}
    (hWithin : cursor.Within)
    (hLeft : cursor.left ≠ 0) :
    ∃ b rest,
      cursor.text = b :: rest ∧
        peek cursor.memory 0 = .done b := by
  cases hText : cursor.text with
  | nil =>
      have hLength := Cursor.length_text hWithin
      rw [hText, List.length_nil] at hLength
      exact absurd hLength.symm hLeft
  | cons b rest =>
      exact
        ⟨b, rest, rfl, Cursor.peek_of_lt (by rw [hText]; rfl)⟩

theorem agrees_micaBootNumberRead
    {cursor : Cursor UInt8}
    (hWithin : cursor.Within) :
    Agrees (micaBootNumberRead cursor)
      (micaBootNumber cursor.text) := by
  unfold micaBootNumberRead
  by_cases hLeft : cursor.left = 0
  · have hText : cursor.text = [] := by
      simp [Cursor.text, hLeft]
    rw [if_pos hLeft, hText, micaBootNumber]
    exact agrees_refused
  · rcases exists_text_eq_cons hWithin hLeft with
      ⟨b, rest, hText, hPeek⟩
    rw [if_neg hLeft, hPeek, done_bind, hText, micaBootNumber]
    split_ifs with hFirst
    · exact agrees_refused
    · rw [← hText]
      exact agrees_micaBootGenerationRead 0 hWithin

theorem agrees_micaBootTriesRead
    {cursor : Cursor UInt8}
    (hWithin : cursor.Within) :
    Agrees (micaBootTriesRead cursor)
      (micaBootTries cursor.text) := by
  have hLength := Cursor.length_text hWithin
  have hAdvance := Cursor.text_advance cursor 2
  unfold micaBootTriesRead
  rcases hText : cursor.text with _ | ⟨comma, _ | ⟨t, rest⟩⟩
  · rw [hText, List.length_nil] at hLength
    rw [if_pos (by omega), micaBootTries]
    · exact agrees_refused
    · simp
  · rw [hText, List.length_singleton] at hLength
    rw [if_pos (by omega), micaBootTries]
    · exact agrees_refused
    · simp
  · rw [hText, List.length_cons, List.length_cons] at hLength
    rw [hText, List.drop_succ_cons, List.drop_succ_cons,
      List.drop_zero] at hAdvance
    have hComma : peek cursor.memory 0 = .done comma :=
      Cursor.peek_of_lt (by rw [hText]; rfl)
    have hTries : peek cursor.memory 1 = .done t :=
      Cursor.peek_of_lt (by rw [hText]; rfl)
    rw [if_neg (by omega), hComma, done_bind, hTries, done_bind,
      micaBootTries]
    split_ifs
    · exact agrees_refused
    · exact agrees_done hAdvance (hWithin.advance 2)
    · exact agrees_done hAdvance (hWithin.advance 2)
    · exact agrees_refused

/- A record is read as it is parsed. -/
theorem agrees_micaBootRecordRead
    (out : MicaBootRecords)
    {cursor : Cursor UInt8}
    (hWithin : cursor.Within) :
    Agrees (micaBootRecordRead out cursor)
      (micaBootRecord out cursor.text) := by
  unfold micaBootRecordRead micaBootRecord
  apply (agrees_micaBootIdRead hWithin).bind
  intro id cursor hWithin
  apply (agrees_micaBootIdRead hWithin).bind
  intro kernel cursor hWithin
  apply (agrees_micaBootNumberRead hWithin).bind
  intro generation cursor hWithin
  apply (agrees_micaBootTriesRead hWithin).bind
  intro tries cursor hWithin
  simp only
  split_ifs
  · exact agrees_refused
  · exact agrees_done rfl hWithin

/- So are all of them. -/
theorem micaBootRecordLoopRead_eq
    {room : Nat}
    {out : MicaBootRecords}
    {cursor : Cursor UInt8}
    (hWithin : cursor.Within) :
    micaBootRecordLoopRead room out cursor =
      ofOption (micaBootRecordLoop room out cursor.text) := by
  induction room generalizing out cursor with
  | zero => rfl
  | succ room ih =>
      have hRecord := agrees_micaBootRecordRead out hWithin
      rw [micaBootRecordLoopRead, micaBootRecordLoop]
      cases hResult : micaBootRecord out cursor.text with
      | none =>
          rw [hResult, Agrees] at hRecord
          rw [hRecord]
          rfl
      | some pair =>
          rcases pair with ⟨records, rest⟩
          rw [hResult] at hRecord
          rcases hRecord with ⟨next, hDone, hText, hNext⟩
          have hLength := Cursor.length_text hNext
          have hAdvance := Cursor.text_advance next 1
          have hBehind :=
            Cursor.length_text (hNext.advance 1)
          rw [hDone, done_bind]
          cases rest with
          | nil =>
              rw [hText, List.length_nil] at hLength
              simp [← hLength, ofOption]
          | cons b rest =>
              have hPeek : peek next.memory 0 = .done b :=
                Cursor.peek_of_lt (by rw [hText]; rfl)
              rw [hText, List.drop_succ_cons, List.drop_zero]
                at hAdvance
              rw [hAdvance] at hBehind
              rw [hText, List.length_cons] at hLength
              have hEnd :
                  (next.advance 1).left = 0 ↔ rest = [] := by
                rw [← hBehind, List.length_eq_zero_iff]
              have hMore : next.left ≠ 0 := by omega
              simp only [hMore, if_false, hPeek, done_bind, hEnd]
              split_ifs
              · rfl
              · rw [ih (hNext.advance 1), hAdvance]

------------------------------------------------------------
-- The Whole Text
------------------------------------------------------------

/- A string and its terminator, or its first bytes. -/
def readableText (room : Nat) (string : List UInt8) : List UInt8 :=
  (string ++ [0]).take room

/- The length loop reads no more of them. -/
theorem micaBootLengthRead_eq
    {room : Nat}
    {string : List UInt8}
    (hNul : ∀ b ∈ string, b ≠ 0) :
    micaBootLengthRead room (readableText room string) =
      .done (min room string.length) := by
  induction room generalizing string with
  | zero => simp [micaBootLengthRead]
  | succ room ih =>
      cases string with
      | nil => simp [readableText, micaBootLengthRead]
      | cons b string =>
          have hByte : b ≠ 0 := hNul b (by simp)
          have hTail : ∀ c ∈ string, c ≠ 0 :=
            fun c hc => hNul c (by simp [hc])
          have hRest := ih hTail
          unfold readableText at hRest ⊢
          rw [List.cons_append, List.take_succ_cons,
            micaBootLengthRead, if_neg hByte, hRest, done_bind,
            List.length_cons, Nat.add_min_add_right]
          rfl

/- A comparison with a text as long reads within it. -/
theorem startsWithRead_eq
    {memory key : List UInt8}
    (hLength : key.length ≤ memory.length) :
    startsWithRead memory key =
      .done (decide (memory.take key.length = key)) := by
  induction key generalizing memory with
  | nil => simp [startsWithRead]
  | cons k key ih =>
      cases memory with
      | nil => simp at hLength
      | cons b memory =>
          have hRest := @ih memory (by simpa using hLength)
          rw [startsWithRead, hRest]
          by_cases hByte : b = k
          · simp [hByte]
          · simp [hByte]

/-
  `mica_boot_parse` reads the text up to its terminator, and
  at most 513 bytes of it.
-/
theorem micaBootParseRead_eq
    {string : List UInt8}
    (hNul : ∀ b ∈ string, b ≠ 0)
    (behind : List UInt8) :
    micaBootParseRead
        (readableText (micaBootValueLimit + 1) string) =
      ofOption (micaBootParse (string ++ 0 :: behind)) := by
  have hLimit : micaBootValueLimit = 512 := rfl
  have hString :
      cStringBytes (string ++ 0 :: behind) = string := by
    rw [cStringBytes,
      List.takeWhile_append_of_pos (by simpa using hNul)]
    simp
  have hFront := take_length_cStringBytes (string ++ 0 :: behind)
  rw [hString] at hFront
  rw [micaBootParseRead, micaBootLengthRead_eq hNul, done_bind,
    micaBootParse, micaBootLength_eq_min, hString]
  by_cases hLong : micaBootValueLimit < string.length
  · have hOver :
        micaBootValueLimit <
          min (micaBootValueLimit + 1) string.length := by
      omega
    rw [if_pos (Or.inl hOver), if_pos (Or.inl hOver)]
    rfl
  · have hLength :
        min (micaBootValueLimit + 1) string.length =
          string.length := by
      omega
    have hMemory :
        readableText (micaBootValueLimit + 1) string =
          string ++ [0] := by
      apply List.take_of_length_le
      rw [List.length_append, List.length_singleton]
      omega
    rw [hLength, hMemory, hFront]
    by_cases hShort : string.length < 4
    · rw [if_pos (Or.inr hShort),
        if_pos (Or.inr (Or.inl hShort))]
      rfl
    · have hOpen :
          ¬ (micaBootValueLimit < string.length ∨
            string.length < 4) := by
        omega
      have hThree (back : List UInt8) :
          (string ++ back).take 3 = string.take 3 :=
        List.take_append_of_le_length (by omega)
      have hKey :=
        @startsWithRead_eq (string ++ [0]) [118, 49, 124]
          (by simp; omega)
      simp only [List.length_cons, List.length_nil, Nat.zero_add,
        Nat.reduceAdd] at hKey
      rw [if_neg hOpen, hKey, done_bind, hThree, hThree]
      by_cases hVersion : string.take 3 = [118, 49, 124]
      · have hAccepted :
            ¬ (micaBootValueLimit < string.length ∨
              string.length < 4 ∨
                string.take 3 ≠ [118, 49, 124]) := by
          rintro (h | h | h)
          · exact hLong h
          · exact hShort h
          · exact h hVersion
        have hWithin :
            (⟨(string ++ [0]).drop 3, string.length - 3⟩ :
              Cursor UInt8).Within := by
          simp only [Cursor.Within, List.length_drop,
            List.length_append]
          omega
        have hText :
            (⟨(string ++ [0]).drop 3, string.length - 3⟩ :
              Cursor UInt8).text = string.drop 3 := by
          rw [Cursor.text,
            List.drop_append_of_le_length (by omega)]
          exact List.take_left' (by rw [List.length_drop])
        rw [if_neg hAccepted, micaBootRecordLoopRead_eq hWithin,
          hText]
        simp [hVersion]
      · have hRefused :
            micaBootValueLimit < string.length ∨
              string.length < 4 ∨
                string.take 3 ≠ [118, 49, 124] :=
          Or.inr (Or.inr hVersion)
        rw [if_pos hRefused]
        simp [hVersion, ofOption]

end Boot

end MicaBoards
