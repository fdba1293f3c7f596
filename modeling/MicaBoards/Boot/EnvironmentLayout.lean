import MicaBoards.Boot.RecordReads
import MicaBoards.Boot.EnvironmentCorrectness

/-
  The one layout of an environment copy that `mica_env_value`
  accepts, which is the one `mica_env_store` writes. No byte
  beyond the copy is read.

  Main declarations:
    * `HoldsValue`
    * `micaEnvValue_eq_some_iff`
    * `micaEnvValueRead_eq`
    * `micaEnvValue_layout`
-/

------------------------------------------------------------
-- The Layout
------------------------------------------------------------

namespace MicaBoards

namespace Boot

open Buffer Reading

/- The entry with its value, and zeros to the end. -/
structure HoldsValue
    (buffer value : List UInt8) : Prop where
  noNul : ∀ b ∈ value, b ≠ 0
  length_le : value.length ≤ 512
  layout : ∃ zeros, 2 ≤ zeros ∧
    buffer.drop 5 =
      micaEnvKey ++ value ++ List.replicate zeros 0

/- A list splits at its first zero byte. -/
theorem takeWhile_append_drop
    (bytes : List UInt8) :
    bytes.takeWhile (fun b => b ≠ 0) ++
        bytes.drop
          (bytes.takeWhile fun b => b ≠ 0).length =
      bytes := by
  have hFront := take_length_cStringBytes bytes
  rw [cStringBytes] at hFront
  nth_rewrite 1 [← hFront]
  exact List.take_append_drop _ _

/- What `mica_env_value` accepts, and what it returns. -/
theorem micaEnvValue_eq_some_iff
    {buffer value : List UInt8}
    (hSize : 18 ≤ buffer.length) :
    micaEnvValue buffer buffer.length = some value ↔
      HoldsValue buffer value := by
  have hLimit : micaBootValueLimit = 512 := rfl
  have hOffset : micaEnvValueOffset = 18 := rfl
  have hKeyLength : micaEnvKey.length = 13 := rfl
  have hDrop : buffer.drop 18 = (buffer.drop 5).drop 13 := by
    rw [List.drop_drop]
  constructor
  · intro hValue
    unfold micaEnvValue at hValue
    simp only [List.take_length] at hValue
    split_ifs at hValue with hKey hRoom hTail
    rw [Option.some.injEq] at hValue
    rw [hValue] at hRoom hTail
    rw [hOffset] at hRoom hTail
    have hSplit := takeWhile_append_drop (buffer.drop 18)
    rw [← hOffset, hValue, hOffset] at hSplit
    have hZeros :
        (buffer.drop 18).drop value.length =
          List.replicate
            ((buffer.drop 18).drop value.length).length 0 := by
      rw [List.eq_replicate_iff]
      refine ⟨rfl, fun b hb => ?_⟩
      by_contra hNe
      exact hTail ⟨b, hb, hNe⟩
    have hSame := not_not.mp hKey
    refine
      ⟨?_, by omega,
        ((buffer.drop 18).drop value.length).length, ?_, ?_⟩
    · intro b hb
      rw [← hValue] at hb
      simpa using List.mem_takeWhile_imp hb
    · rw [List.length_drop, List.length_drop]
      omega
    · rw [← hZeros, List.append_assoc, hSplit, hDrop]
      nth_rewrite 1 [← hSame]
      exact (List.take_append_drop _ _).symm
  · rintro ⟨hNul, hLength, zeros, hTwo, hLayout⟩
    have hTail :
        buffer.drop 18 = value ++ List.replicate zeros 0 := by
      rw [hDrop, hLayout, List.append_assoc]
      exact List.drop_left' hKeyLength
    have hKey :
        (buffer.drop 5).take micaEnvKey.length = micaEnvKey := by
      rw [hLayout, List.append_assoc]
      exact List.take_left
    have hValue :
        (value ++ List.replicate zeros (0 : UInt8)).takeWhile
            (fun b => b ≠ 0) = value := by
      rw [List.takeWhile_append_of_pos (by simpa using hNul),
        List.takeWhile_replicate]
      simp
    have hBytes := congrArg List.length hTail
    rw [List.length_drop, List.length_append,
      List.length_replicate] at hBytes
    have hRoom :
        ¬ (micaBootValueLimit <
              micaEnvValueOffset + value.length -
                micaEnvValueOffset ∨
            buffer.length ≤
              micaEnvValueOffset + value.length + 1) := by
      omega
    unfold micaEnvValue
    simp only [List.take_length, hKey, ne_eq, not_true_eq_false,
      if_false]
    rw [hOffset, hTail]
    simp only [← ne_eq, hValue]
    rw [hOffset] at hRoom
    rw [if_neg hRoom, List.drop_left, if_neg]
    rintro ⟨b, hb, hNe⟩
    exact hNe (List.eq_of_mem_replicate hb)

------------------------------------------------------------
-- Reads
------------------------------------------------------------

/- `memcmp(bytes + offset, key, strlen(key))` reads it all. -/
def sameBytesRead
    (memory : List UInt8)
    (offset : Nat)
    (key : List UInt8) : Reading Bool :=
  if memory.length < offset + key.length then .outside
  else .done ((memory.drop offset).take key.length = key)

/- The loop to the end of the value, `size - end` to go. -/
def micaEnvEndRead
    (memory : List UInt8) : Nat → Nat → Reading Nat
| 0, stop => .done stop
| room + 1, stop => do
    let b ← peek memory stop
    if b ≠ 0 then micaEnvEndRead memory room (stop + 1)
    else return stop

/- The loop over the zeros, `size - end` to go. -/
def micaEnvZerosRead
    (memory : List UInt8) : Nat → Nat → Reading Bool
| 0, _ => .done true
| room + 1, stop => do
    let b ← peek memory stop
    if b ≠ 0 then return false
    else micaEnvZerosRead memory room (stop + 1)

/- `mica_env_value`, with the string at what it returns. -/
def micaEnvValueRead
    (memory : List UInt8)
    (size : Nat) : Reading (List UInt8) := do
  let same ← sameBytesRead memory 5 micaEnvKey
  if same = false then
    .refused
  else
    let stop ←
      micaEnvEndRead memory (size - micaEnvValueOffset)
        micaEnvValueOffset
    if micaBootValueLimit < stop - micaEnvValueOffset ∨
        size ≤ stop + 1 then
      .refused
    else
      let zeros ← micaEnvZerosRead memory (size - stop) stop
      if zeros = false then
        .refused
      else
        return (memory.drop micaEnvValueOffset).take
          (stop - micaEnvValueOffset)

/- The loop stops at the first zero byte, or at the end. -/
theorem micaEnvEndRead_eq
    {memory : List UInt8}
    {room stop : Nat}
    (hMemory : stop + room = memory.length) :
    micaEnvEndRead memory room stop =
      .done
        (stop +
          ((memory.drop stop).takeWhile
            fun b => b ≠ 0).length) := by
  induction room generalizing stop with
  | zero =>
      have hNil : memory.drop stop = [] :=
        List.drop_eq_nil_of_le (by omega)
      simp [micaEnvEndRead, hNil]
  | succ room ih =>
      have hIndex : stop < memory.length := by omega
      have hNext := @ih (stop + 1) (by omega)
      rw [micaEnvEndRead, peek_of_lt hIndex, done_bind, hNext,
        List.drop_eq_getElem_cons hIndex]
      by_cases hByte : memory[stop] = 0
      · simp [hByte]
      · simp only [ne_eq, hByte, not_false_eq_true, if_true,
          List.takeWhile_cons, decide_true, List.length_cons]
        congr 1
        omega

theorem micaEnvZerosRead_eq
    {memory : List UInt8}
    {room stop : Nat}
    (hMemory : stop + room = memory.length) :
    micaEnvZerosRead memory room stop =
      .done (decide (∀ b ∈ memory.drop stop, b = 0)) := by
  induction room generalizing stop with
  | zero =>
      have hNil : memory.drop stop = [] :=
        List.drop_eq_nil_of_le (by omega)
      simp [micaEnvZerosRead, hNil]
  | succ room ih =>
      have hIndex : stop < memory.length := by omega
      have hNext := @ih (stop + 1) (by omega)
      rw [micaEnvZerosRead, peek_of_lt hIndex, done_bind, hNext,
        List.drop_eq_getElem_cons hIndex]
      by_cases hByte : memory[stop] = 0
      · simp [hByte]
      · simp only [ne_eq, hByte, not_false_eq_true, if_true,
          List.mem_cons, forall_eq_or_imp, false_and,
          decide_false]
        rfl

/- `mica_env_value` reads the buffer, and no further. -/
theorem micaEnvValueRead_eq
    {buffer : List UInt8}
    (hSize : 18 ≤ buffer.length) :
    micaEnvValueRead buffer buffer.length =
      ofOption (micaEnvValue buffer buffer.length) := by
  have hOffset : micaEnvValueOffset = 18 := rfl
  have hKeyLength : micaEnvKey.length = 13 := rfl
  have hEnough :
      ¬ buffer.length < 5 + micaEnvKey.length := by
    omega
  have hEnd :=
    @micaEnvEndRead_eq buffer (buffer.length - 18) 18 (by omega)
  have hSplit := takeWhile_append_drop (buffer.drop 18)
  have hCount := congrArg List.length hSplit
  rw [List.length_append, List.length_drop, List.length_drop]
    at hCount
  unfold micaEnvValueRead micaEnvValue sameBytesRead
  simp only [List.take_length]
  rw [if_neg hEnough, done_bind, hOffset, hEnd, done_bind]
  generalize hValue :
    (buffer.drop 18).takeWhile (fun b => decide (b ≠ 0)) = value
    at hSplit hCount ⊢
  rw [Nat.add_sub_cancel_left, List.drop_drop]
  by_cases hKey :
      (buffer.drop 5).take micaEnvKey.length = micaEnvKey
  · by_cases hRoom :
        micaBootValueLimit < value.length ∨
          buffer.length ≤ 18 + value.length + 1
    · simp [hKey, hRoom, ofOption]
    · have hZeros :=
        @micaEnvZerosRead_eq buffer
          (buffer.length - (18 + value.length))
          (18 + value.length) (by omega)
      have hTake :
          (buffer.drop 18).take value.length = value := by
        nth_rewrite 1 [← hSplit]
        exact List.take_left
      have hSame :
          ¬ decide ((buffer.drop 5).take micaEnvKey.length =
            micaEnvKey) = false := by
        simp [hKey]
      have hDiffer :
          ¬ (buffer.drop 5).take micaEnvKey.length ≠
            micaEnvKey := by
        simp [hKey]
      rw [if_neg hSame, if_neg hDiffer]
      simp only [if_neg hRoom]
      rw [hZeros, done_bind, hTake]
      by_cases hTail :
          ∀ b ∈ buffer.drop (18 + value.length), b = 0
      · have hNone :
            ¬ ∃ b ∈ buffer.drop (18 + value.length),
              b ≠ 0 := by
          rintro ⟨b, hb, hNe⟩
          exact hNe (hTail b hb)
        rw [decide_eq_true hTail, if_neg hNone]
        rfl
      · have hSome :
            ∃ b ∈ buffer.drop (18 + value.length),
              b ≠ 0 := by
          simpa using hTail
        rw [decide_eq_false hTail, if_pos hSome]
        rfl
  · simp [hKey, ofOption]

------------------------------------------------------------
-- Storing
------------------------------------------------------------

/- A stored value is held in the layout. -/
theorem holdsValue_micaEnvStore
    {buffer text : List UInt8}
    (hSize : buffer.length = micaEnvSize)
    (hZero : ∀ b ∈ buffer.drop 5, b = 0)
    (hNul : ∀ b ∈ text, b ≠ 0)
    (hLength : text.length ≤ 512) :
    HoldsValue (micaEnvStore buffer text) text := by
  have hEnvSize : micaEnvSize = 65536 := rfl
  have hKeyLength : micaEnvKey.length = 13 := rfl
  have hOffset : micaEnvValueOffset = 18 := rfl
  have hFront : (buffer.take 5).length = 5 := by
    rw [List.length_take]
    omega
  have hBuffer :
      buffer = buffer.take 5 ++ List.replicate 65531 0 := by
    have hBack : buffer.drop 5 = List.replicate 65531 0 := by
      rw [List.eq_replicate_iff, List.length_drop]
      exact ⟨by omega, hZero⟩
    rw [← hBack, List.take_append_drop]
  have hKey :
      copyAt buffer 5 micaEnvKey =
        buffer.take 5 ++ micaEnvKey ++
          List.replicate (65531 - 13) 0 := by
    have hCopy :=
      copyAt_append_replicate (buffer.take 5) micaEnvKey 65531
        (0 : UInt8)
    rwa [hFront, ← hBuffer, hKeyLength] at hCopy
  have hStored :
      micaEnvStore buffer text =
        buffer.take 5 ++ micaEnvKey ++ text ++
          List.replicate (65531 - 13 - text.length) 0 := by
    have hCopy :=
      copyAt_append_replicate (buffer.take 5 ++ micaEnvKey)
        text (65531 - 13) (0 : UInt8)
    rw [List.length_append, hFront, hKeyLength] at hCopy
    rw [micaEnvStore, hKey, hOffset]
    exact hCopy
  refine ⟨hNul, hLength, 65531 - 13 - text.length, ?_, ?_⟩
  · omega
  · rw [hStored, List.append_assoc, List.append_assoc,
      List.drop_left' hFront, List.append_assoc]

theorem length_micaEnvStore
    {buffer text : List UInt8}
    (hSize : buffer.length = micaEnvSize)
    (hLength : text.length ≤ 512) :
    (micaEnvStore buffer text).length = buffer.length := by
  have hEnvSize : micaEnvSize = 65536 := rfl
  have hKeyLength : micaEnvKey.length = 13 := rfl
  have hOffset : micaEnvValueOffset = 18 := rfl
  have hKey :
      (copyAt buffer 5 micaEnvKey).length = buffer.length :=
    length_copyAt (by omega)
  rw [micaEnvStore, length_copyAt (by omega), hKey]

/-
  `mica_env_value` returns a value exactly from a copy in the
  layout, and that value; it reads no byte beyond the copy;
  and it returns what `mica_env_store` has stored.
-/
theorem micaEnvValue_layout :
    (∀ buffer : List UInt8,
      18 ≤ buffer.length →
        (∀ value,
          micaEnvValue buffer buffer.length = some value ↔
            HoldsValue buffer value) ∧
        micaEnvValueRead buffer buffer.length =
          ofOption (micaEnvValue buffer buffer.length)) ∧
    ∀ (buffer : List UInt8) (records : MicaBootRecords)
      (text : List UInt8),
      buffer.length = 65536 →
      (∀ b ∈ buffer.drop 5, b = 0) →
      micaBootRender records = some text →
        micaEnvValue (micaEnvStore buffer text) 65536 =
          some text := by
  refine ⟨fun buffer hSize => ?_, ?_⟩
  · exact
      ⟨fun value => micaEnvValue_eq_some_iff hSize,
        micaEnvValueRead_eq hSize⟩
  · intro buffer records text hSize hZero hRender
    have hLength := length_le_of_micaBootRender hRender
    rcases micaBootRender_eq_some_iff.mp hRender with
      ⟨hCanonical, hText⟩
    have hNul : ∀ b ∈ text, b ≠ 0 := by
      rw [hText]
      exact
        micaBootText_ne_zero
          fun r hr => (hCanonical.record r hr).tries
    have hStored := length_micaEnvStore hSize hLength
    have hValue :=
      (micaEnvValue_eq_some_iff (by omega)).mpr
        (holdsValue_micaEnvStore hSize hZero hNul hLength)
    rwa [hStored, hSize] at hValue

end Boot

end MicaBoards
