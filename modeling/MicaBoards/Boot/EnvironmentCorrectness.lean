import MicaBoards.Boot.Environment
import MicaBoards.Boot.RecordsRoundTrip

/-
  What the copies `persist_environment` builds hold, which
  copies decode, and which of two copies is selected.

  Main declarations:
    * `pendingCopy_eq`
    * `decodeEnvironment_pendingCopy`
    * `ZeroTail` and `zeroTail_of_decodeEnvironment`
    * `selectEnvironment_update`
    * `dreadCopy_tear`
-/

------------------------------------------------------------
-- The Checksum Field
------------------------------------------------------------

namespace MicaBoards

namespace Boot

open Buffer

/- Every value read back is the value put. -/
theorem getUnalignedLe32_le32
    (value : UInt32)
    (rest : List UInt8) :
    getUnalignedLe32 (le32 value ++ rest) = value := by
  apply UInt32.toNat_inj.mp
  have hBound : value.toNat < 4294967296 := value.toNat_lt
  simp only [getUnalignedLe32, le32, List.cons_append,
    List.getD_cons_zero, List.getD_cons_succ,
    UInt8.toNat_ofNat', UInt32.toNat_ofNat']
  omega

@[simp] theorem length_le32 (value : UInt32) :
    (le32 value).length = 4 := rfl

------------------------------------------------------------
-- The Pending Copy
------------------------------------------------------------

section Checksum

variable (crc32 : List UInt8 → UInt32)

/- The bytes of a copy from offset 5 on. -/
def environmentBody (text : List UInt8) : List UInt8 :=
  micaEnvKey ++ text ++
    List.replicate
      (micaEnvSize - micaEnvValueOffset - text.length) 0

/- The body fills the copy. -/
theorem length_environmentBody
    {text : List UInt8}
    (hText : text.length ≤ micaBootValueLimit) :
    (environmentBody text).length = micaEnvSize - 5 := by
  have hLimit : micaBootValueLimit = 512 := rfl
  have hSize : micaEnvSize = 65536 := rfl
  have hOffset : micaEnvValueOffset = 18 := rfl
  have hKey : micaEnvKey.length = 13 := rfl
  simp only [environmentBody, List.length_append,
    List.length_replicate]
  omega

/- The pending copy: checksum, flag and body. -/
theorem pendingCopy_eq
    (flag : UInt8)
    (text : List UInt8) :
    pendingCopy crc32 flag text =
      le32 (crc32 ((environmentBody text).take
          (micaEnvSize - 5))) ++
        flag :: environmentBody text := by
  have hZero :
      List.replicate micaEnvSize (0 : UInt8) =
        List.replicate 4 0 ++
          List.replicate (micaEnvSize - 4) 0 := by
    rw [List.replicate_append_replicate]
    rfl
  have hFlag :
      copyAt (List.replicate micaEnvSize 0) 4 [flag] =
        List.replicate 4 0 ++ [flag] ++
          List.replicate (micaEnvSize - 5) 0 := by
    rw [hZero]
    exact copyAt_append_replicate (List.replicate 4 0) [flag] _ 0
  have hStored :
      micaEnvStore
          (copyAt (List.replicate micaEnvSize 0) 4 [flag])
          text =
        List.replicate 4 0 ++ flag :: environmentBody text := by
    have hKey :=
      copyAt_append_replicate (List.replicate 4 0 ++ [flag])
        micaEnvKey (micaEnvSize - 5) 0
    have hText :=
      copyAt_append_replicate
        (List.replicate 4 0 ++ [flag] ++ micaEnvKey) text
        (micaEnvSize - 5 - micaEnvKey.length) 0
    simp only [List.length_append, List.length_replicate,
      List.length_singleton] at hKey hText
    rw [micaEnvStore, micaEnvValueOffset, hFlag, hKey, hText]
    simp only [environmentBody, List.append_assoc,
      List.nil_append, List.cons_append, Nat.sub_sub,
      micaEnvValueOffset]
  have hBody :
      (List.replicate 4 0 ++
          flag :: environmentBody text).drop 5 =
        environmentBody text := rfl
  have hFront :=
    copyAt_append [] (le32 (crc32 ((environmentBody text).take
      (micaEnvSize - 5)))) (List.replicate 4 0 ++
        flag :: environmentBody text)
  simp only [List.nil_append, List.length_nil] at hFront
  simp only [pendingCopy, hStored, hBody, hFront, length_le32]
  rfl

/- Past the flag the pending copy is the body. -/
theorem drop_pendingCopy
    (flag : UInt8)
    (text : List UInt8) :
    (pendingCopy crc32 flag text).drop 5 =
      environmentBody text := by
  rw [pendingCopy_eq]
  rfl

/- The pending copy fills the copy on the disk. -/
@[simp] theorem length_pendingCopy
    (flag : UInt8)
    {text : List UInt8}
    (hText : text.length ≤ micaBootValueLimit) :
    (pendingCopy crc32 flag text).length = micaEnvSize := by
  have hBody := length_environmentBody hText
  have hSize : micaEnvSize = 65536 := rfl
  simp only [pendingCopy_eq, List.length_append, length_le32,
    List.length_cons]
  omega

/- The pending copy is valid. -/
theorem validEnvironment_pendingCopy
    (flag : UInt8)
    (text : List UInt8) :
    validEnvironment crc32 (pendingCopy crc32 flag text) =
      true := by
  rw [validEnvironment, drop_pendingCopy, pendingCopy_eq,
    getUnalignedLe32_le32]
  exact decide_eq_true rfl

/- The pending copy holds its flag. -/
theorem environmentFlag_pendingCopy
    (flag : UInt8)
    (text : List UInt8) :
    environmentFlag (pendingCopy crc32 flag text) = flag := by
  rw [pendingCopy_eq]
  rfl

/- The pending copy holds its value. -/
theorem micaEnvValue_pendingCopy
    (flag : UInt8)
    {text : List UInt8}
    (hText : text.length ≤ micaBootValueLimit)
    (hNul : ∀ b ∈ text, b ≠ 0) :
    micaEnvValue (pendingCopy crc32 flag text) micaEnvSize =
      some text := by
  have hLimit : micaBootValueLimit = 512 := rfl
  have hSize : micaEnvSize = 65536 := rfl
  have hOffset : micaEnvValueOffset = 18 := rfl
  have hLength := length_pendingCopy crc32 flag hText
  have hKey :
      ((pendingCopy crc32 flag text).drop 5).take
          micaEnvKey.length =
        micaEnvKey := by
    rw [drop_pendingCopy, environmentBody, List.append_assoc]
    exact List.take_left
  have hTail :
      ((pendingCopy crc32 flag text).take micaEnvSize).drop
          micaEnvValueOffset =
        text ++ List.replicate
          (micaEnvSize - micaEnvValueOffset - text.length)
          0 := by
    rw [List.take_of_length_le hLength.le, micaEnvValueOffset,
      ← List.drop_drop, drop_pendingCopy, environmentBody,
      List.append_assoc]
    exact List.drop_left
  have hValue :
      (text ++ List.replicate
          (micaEnvSize - micaEnvValueOffset - text.length)
          0).takeWhile (fun b => decide (b ≠ 0)) =
        text := by
    rw [List.takeWhile_append_of_pos (by simpa using hNul)]
    rw [List.takeWhile_replicate]
    simp
  have hRoom :
      ¬ (micaBootValueLimit <
            micaEnvValueOffset + text.length -
              micaEnvValueOffset ∨
          micaEnvSize ≤ micaEnvValueOffset + text.length + 1) := by
    omega
  simp only [micaEnvValue, hKey, ne_eq, not_true_eq_false,
    if_false, hTail]
  simp only [← ne_eq, hValue]
  rw [if_neg hRoom, List.drop_left, if_neg]
  rintro ⟨b, hb, hNe⟩
  exact hNe (List.eq_of_mem_replicate hb)

/- A rendered text fits the value. -/
theorem length_le_of_micaBootRender
    {records : MicaBootRecords}
    {text : List UInt8}
    (hRender : micaBootRender records = some text) :
    text.length ≤ micaBootValueLimit := by
  rcases micaBootRender_eq_some_iff.mp hRender with
    ⟨hCanonical, rfl⟩
  exact le_trans (micaBootText_length_le hCanonical) (by decide)

/- The pending copy of rendered records decodes to them. -/
theorem decodeEnvironment_pendingCopy
    (flag : UInt8)
    {records : MicaBootRecords}
    {text : List UInt8}
    (hRender : micaBootRender records = some text) :
    decodeEnvironment (pendingCopy crc32 flag text) =
      some records := by
  rcases micaBootRender_eq_some_iff.mp hRender with
    ⟨hCanonical, rfl⟩
  have hNul :=
    micaBootText_ne_zero
      fun r hr => (hCanonical.record r hr).tries
  have hLength := length_le_of_micaBootRender hRender
  rw [decodeEnvironment,
    micaEnvValue_pendingCopy crc32 flag hLength hNul]
  exact micaBootParse_eq_some_iff.mpr
    ⟨cStringBytes_eq_self hNul, hCanonical⟩

------------------------------------------------------------
-- Zero Tails
------------------------------------------------------------

/- Past its first block the copy is zero. -/
def ZeroTail (bytes : List UInt8) : Prop :=
  ∀ b ∈ bytes.drop blockBytes, b = 0

/- Dropping more of a zero tail leaves a zero tail. -/
theorem zeroTail_of_drop
    {bytes : List UInt8}
    {n : Nat}
    (hBlock : n ≤ blockBytes)
    (hZero : ∀ b ∈ bytes.drop n, b = 0) :
    ZeroTail bytes := by
  intro b hb
  apply hZero
  have hSplit :
      bytes.drop blockBytes =
        (bytes.drop n).drop (blockBytes - n) := by
    rw [List.drop_drop]
    congr 1
    omega
  rw [hSplit] at hb
  exact List.mem_of_mem_drop hb

/- The pending copy of rendered records has a zero tail. -/
theorem zeroTail_pendingCopy
    (flag : UInt8)
    {records : MicaBootRecords}
    {text : List UInt8}
    (hRender : micaBootRender records = some text) :
    ZeroTail (pendingCopy crc32 flag text) := by
  rcases micaBootRender_eq_some_iff.mp hRender with
    ⟨hCanonical, rfl⟩
  have hLength := micaBootText_length_le hCanonical
  have hKey : micaEnvKey.length = 13 := rfl
  have hBlock : blockBytes = 512 := rfl
  apply zeroTail_of_drop
    (n := 5 + (micaEnvKey ++ micaBootText records).length)
  · simp only [List.length_append]
    omega
  · rw [← List.drop_drop, drop_pendingCopy, environmentBody,
      List.drop_left]
    exact fun b hb => List.eq_of_mem_replicate hb

/- The value of a copy, and the zeros past it. -/
theorem micaEnvValue_eq_some
    {bytes value : List UInt8}
    {size : Nat}
    (hValue : micaEnvValue bytes size = some value) :
    (∀ b ∈ value, b ≠ 0) ∧
      ∀ b ∈ (bytes.take size).drop
        (micaEnvValueOffset + value.length), b = 0 := by
  simp only [micaEnvValue] at hValue
  split_ifs at hValue with hKey hRoom hRest
  cases hValue
  constructor
  · intro b hb
    simpa using List.mem_takeWhile_imp hb
  · rw [← List.drop_drop]
    intro b hb
    by_contra hNe
    exact hRest ⟨b, hb, hNe⟩

/- The records a copy decodes to are canonical. -/
theorem canonical_of_decodeEnvironment
    {bytes : List UInt8}
    {records : MicaBootRecords}
    (hDecode : decodeEnvironment bytes = some records) :
    Canonical records := by
  rcases Option.bind_eq_some_iff.mp hDecode with
    ⟨value, _, hParse⟩
  exact (micaBootParse_eq_some_iff.mp hParse).2

/- A copy that decodes has a zero tail. -/
theorem zeroTail_of_decodeEnvironment
    {bytes : List UInt8}
    {records : MicaBootRecords}
    (hLength : bytes.length = micaEnvSize)
    (hDecode : decodeEnvironment bytes = some records) :
    ZeroTail bytes := by
  rcases Option.bind_eq_some_iff.mp hDecode with
    ⟨value, hValue, hParse⟩
  rcases micaBootParse_eq_some_iff.mp hParse with
    ⟨hText, hCanonical⟩
  rcases micaEnvValue_eq_some hValue with ⟨hNul, hZero⟩
  have hSelf := cStringBytes_eq_self hNul
  have hShort := micaBootText_length_le hCanonical
  have hOffset : micaEnvValueOffset = 18 := rfl
  have hBlock : blockBytes = 512 := rfl
  rw [← hText, hSelf] at hShort
  rw [List.take_of_length_le hLength.le] at hZero
  exact zeroTail_of_drop (by omega) hZero

------------------------------------------------------------
-- The Newer Copy
------------------------------------------------------------

/- Of two valid copies the one a flag ahead is newer. -/
theorem micaBootSlot_succ_right (a : UInt8) :
    micaBootSlot true a true (a + 1) = some 1 := by
  have hBound : a.toNat < 256 := a.toNat_lt
  unfold micaBootSlot
  rw [if_neg (by simp), if_neg (by simp), if_pos]
  simp only [UInt8.lt_iff_toNat_lt, ← UInt8.toNat_inj,
    UInt8.toNat_add, UInt8.reduceToNat]
  omega

/- The same with the newer copy in the first slot. -/
theorem micaBootSlot_succ_left (b : UInt8) :
    micaBootSlot true (b + 1) true b = some 0 := by
  have hBound : b.toNat < 256 := b.toNat_lt
  unfold micaBootSlot
  rw [if_neg (by simp), if_neg (by simp), if_neg]
  simp only [UInt8.lt_iff_toNat_lt, ← UInt8.toNat_inj,
    UInt8.toNat_add, UInt8.reduceToNat]
  omega

/- The slot that is selected is valid. -/
theorem valid_of_micaBootSlot
    {valid : Fin 2 → Bool}
    {a b : UInt8}
    {slot : Fin 2}
    (hSlot :
      micaBootSlot (valid 0) a (valid 1) b = some slot) :
    valid slot = true := by
  unfold micaBootSlot at hSlot
  split_ifs at hSlot with hZero hOne hOne hNewer <;>
    cases hSlot <;> simp_all

/- Of two valid copies the one a flag ahead is selected. -/
theorem micaBootSlot_advance
    {valid : Fin 2 → Bool}
    {flag : Fin 2 → UInt8}
    {slot : Fin 2}
    (hValid : ∀ t, valid t = true)
    (hFlag : flag (1 - slot) = flag slot + 1) :
    micaBootSlot (valid 0) (flag 0) (valid 1) (flag 1) =
      some (1 - slot) := by
  rw [hValid, hValid]
  match slot with
  | 0 =>
      rw [show flag 1 = flag 0 + 1 from hFlag]
      exact micaBootSlot_succ_right (flag 0)
  | 1 =>
      rw [show flag 0 = flag 1 + 1 from hFlag]
      exact micaBootSlot_succ_left (flag 1)

------------------------------------------------------------
-- Selection
------------------------------------------------------------

/- What a selection says about the copies. -/
theorem selectEnvironment_eq_some_iff
    {readable : Fin 2 → Bool}
    {copies : Copies}
    {slot : Fin 2}
    {records : MicaBootRecords} :
    selectEnvironment crc32 readable copies =
        some (slot, records) ↔
      micaBootSlot
          (readable 0 && validEnvironment crc32 (copies 0))
          (environmentFlag (copies 0))
          (readable 1 && validEnvironment crc32 (copies 1))
          (environmentFlag (copies 1)) =
        some slot ∧
      decodeEnvironment (copies slot) = some records := by
  simp only [selectEnvironment]
  constructor
  · intro hSelect
    split at hSelect
    · cases hSelect
    · rename_i found hSlot
      split at hSelect
      · cases hSelect
      · rename_i decoded hDecode
        cases hSelect
        exact ⟨hSlot, hDecode⟩
  · rintro ⟨hSlot, hDecode⟩
    simp only [hSlot, hDecode]

/- A pending copy with the next flag is selected. -/
theorem selectEnvironment_pendingCopy
    {copies : Copies}
    {slot : Fin 2}
    {records : MicaBootRecords}
    {text : List UInt8}
    (hValid : validEnvironment crc32 (copies slot) = true)
    (hRender : micaBootRender records = some text)
    (hPending :
      copies (1 - slot) =
        pendingCopy crc32
          (environmentFlag (copies slot) + 1) text) :
    selectEnvironment crc32 (fun _ => true) copies =
      some (1 - slot, records) := by
  apply (selectEnvironment_eq_some_iff crc32).mpr
  constructor
  · apply @micaBootSlot_advance
      (fun t => true && validEnvironment crc32 (copies t))
      (fun t => environmentFlag (copies t))
    · intro t
      have hSlots : t = slot ∨ t = 1 - slot := by omega
      rcases hSlots with rfl | rfl
      · simpa using hValid
      · simp [hPending, validEnvironment_pendingCopy]
    · simp [hPending, environmentFlag_pendingCopy]
  · rw [hPending]
    exact decodeEnvironment_pendingCopy crc32 _ hRender

------------------------------------------------------------
-- Torn Copies
------------------------------------------------------------

variable (board : Board)

/- The copy of the other slot lies outside a write. -/
theorem dreadCopy_tear_other
    (disk : Disk)
    (landed : Nat → Bool)
    (slot : Fin 2)
    {pending : List UInt8}
    (hLength : pending.length = micaEnvSize) :
    dreadCopy board
        (disk.tear blockBytes landed
          (board.envBlocks (1 - slot) * blockBytes) pending)
        slot =
      dreadCopy board disk slot := by
  apply Device.read_tear_disjoint
  have hApart := board.disjoint
  have hBlocks : micaEnvBlocks = 128 := rfl
  have hSize : micaEnvSize = 65536 := rfl
  have hBlock : blockBytes = 512 := rfl
  rw [hLength, hBlock, hSize]
  match slot with
  | 0 =>
      left
      rw [show (1 - 0 : Fin 2) = 1 from rfl]
      omega
  | 1 =>
      right
      rw [show (1 - 1 : Fin 2) = 0 from rfl]
      omega

/- A copy that has been written reads back. -/
theorem dreadCopy_write_self
    (disk : Disk)
    (slot : Fin 2)
    {pending : List UInt8}
    (hLength : pending.length = micaEnvSize) :
    dreadCopy board
        (disk.write (board.envBlocks slot * blockBytes)
          pending)
        slot =
      pending := by
  conv_lhs => rw [dreadCopy, ← hLength]
  exact Device.read_write_self _ _ _

/- Writing a copy leaves the other. -/
theorem dreadCopy_write_other
    (disk : Disk)
    (slot : Fin 2)
    {pending : List UInt8}
    (hLength : pending.length = micaEnvSize) :
    dreadCopy board
        (disk.write (board.envBlocks (1 - slot) * blockBytes)
          pending)
        slot =
      dreadCopy board disk slot := by
  rw [← Device.tear_all disk blockBytes _ fun _ _ => rfl]
  exact
    dreadCopy_tear_other board disk (fun _ => true) slot hLength

/- A byte of a zero tail. -/
theorem ZeroTail.getElem?_eq
    {bytes : List UInt8}
    (hZero : ZeroTail bytes)
    {i : Nat}
    (hBlock : blockBytes ≤ i)
    (hLength : i < bytes.length) :
    bytes[i]? = some 0 := by
  have hSplit : i = blockBytes + (i - blockBytes) := by omega
  have hTail :
      (bytes.drop blockBytes)[i - blockBytes]? =
        some bytes[i] := by
    rw [List.getElem?_drop, ← hSplit,
      List.getElem?_eq_getElem hLength]
  rw [List.getElem?_eq_getElem hLength]
  exact congrArg some (hZero _ (List.mem_of_getElem? hTail))

/- A byte of a copy is the disk's. -/
theorem getElem?_dreadCopy
    (disk : Disk)
    (slot : Fin 2)
    {i : Nat}
    (hLength : i < micaEnvSize) :
    (dreadCopy board disk slot)[i]? =
      some (disk (board.envBlocks slot * blockBytes + i)) := by
  rw [dreadCopy, Device.getElem?_read, if_pos hLength]

/- A block that is not the first begins past the first. -/
theorem le_of_landed_ne
    {landed : Nat → Bool}
    {i : Nat}
    (hLanded : landed (i / blockBytes) ≠ landed 0) :
    blockBytes ≤ i := by
  by_contra hShort
  apply hLanded
  rw [Nat.div_eq_of_lt (not_le.mp hShort)]

/-
  With zero tails on both sides a torn copy is the pending
  one when its first block has landed, and else the old one.
-/
theorem dreadCopy_tear
    (disk : Disk)
    (landed : Nat → Bool)
    (slot : Fin 2)
    {pending : List UInt8}
    (hLength : pending.length = micaEnvSize)
    (hPending : ZeroTail pending)
    (hOld : ZeroTail (dreadCopy board disk slot)) :
    dreadCopy board
        (disk.tear blockBytes landed
          (board.envBlocks slot * blockBytes) pending)
        slot =
      if landed 0 then pending
      else dreadCopy board disk slot := by
  have hOldLength :
      (dreadCopy board disk slot).length = micaEnvSize :=
    Device.length_read _ _ _
  -- past the first block both copies hold zeros
  have hRest :
      ∀ i, blockBytes ≤ i → (hi : i < pending.length) →
        pending[i] =
          disk (board.envBlocks slot * blockBytes + i) := by
    intro i hBlock hi
    have hNew := hPending.getElem?_eq hBlock hi
    have hDisk :=
      hOld.getElem?_eq hBlock (by rw [hOldLength]; omega)
    rw [List.getElem?_eq_getElem hi] at hNew
    rw [getElem?_dreadCopy board disk slot (by omega)] at hDisk
    rw [Option.some.inj hNew, Option.some.inj hDisk]
  conv_lhs => rw [dreadCopy, ← hLength]
  split_ifs with hFirst
  · apply Device.read_tear_eq _ _ _ _ rfl
    intro i hi
    rw [List.getElem?_eq_getElem hi]
    split_ifs with hLanded
    · rfl
    · have hBlock := @le_of_landed_ne landed i (by simp_all)
      rw [hRest i hBlock hi]
  · apply Device.read_tear_eq _ _ _ _ (by rw [hOldLength, hLength])
    intro i hi
    rw [getElem?_dreadCopy board disk slot (by omega)]
    split_ifs with hLanded
    · have hBlock := @le_of_landed_ne landed i (by simp_all)
      rw [hRest i hBlock hi]
    · rfl

end Checksum

end Boot

end MicaBoards
