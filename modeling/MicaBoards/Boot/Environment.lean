import MicaBoards.Foundations.Buffer
import MicaBoards.Foundations.Device
import MicaBoards.Boot.Records
import Mathlib.Logic.Function.Basic

/-
  The redundant boot environment: the entry of one copy
  (`common/uboot/mica-records.h`), and reading and
  persisting the two copies
  (`boards/*/loader/mica-file-boot.c`).

  The two loaders differ in where the copies lie and in the
  cache flush after the write; a `Board` holds these values
  and the functions below are the text both share. `crc32`
  is U-Boot's, a parameter here.

  Key definitions include:
    * `micaEnvValue`
    * `micaEnvStore`
    * `readEnvironment`
    * `persistEnvironment`
-/

------------------------------------------------------------
-- One Copy
------------------------------------------------------------

namespace MicaBoards

namespace Boot

open Buffer

/- MICA_ENV_KEY: `mica_entries=` -/
def micaEnvKey : List UInt8 :=
  [109, 105, 99, 97, 95, 101, 110, 116, 114, 105, 101, 115,
    61]

/- MICA_ENV_VALUE_OFFSET -/
def micaEnvValueOffset : Nat := 5 + micaEnvKey.length

/-
  `mica_env_value` on a buffer of `size` bytes: the value,
  up to its terminator.
-/
def micaEnvValue
    (bytes : List UInt8)
    (size : Nat) : Option (List UInt8) :=
  if (bytes.drop 5).take micaEnvKey.length ≠ micaEnvKey then
    none
  else
    let tail := (bytes.take size).drop micaEnvValueOffset
    let value := tail.takeWhile (fun b => b ≠ 0)
    let stop := micaEnvValueOffset + value.length
    if micaBootValueLimit < stop - micaEnvValueOffset ∨
        size ≤ stop + 1 then
      none
    else if ∃ b ∈ tail.drop value.length, b ≠ 0 then
      none
    else
      some value

/- `mica_env_store` -/
def micaEnvStore
    (bytes text : List UInt8) : List UInt8 :=
  copyAt (copyAt bytes 5 micaEnvKey) micaEnvValueOffset text

/- MICA_ENV_SIZE -/
def micaEnvSize : Nat := 65536

/- The bytes of a device block. -/
def blockBytes : Nat := 512

/- MICA_ENV_BLOCKS -/
def micaEnvBlocks : Nat := micaEnvSize / blockBytes

/- `get_unaligned_le32` -/
def getUnalignedLe32 (bytes : List UInt8) : UInt32 :=
  UInt32.ofNat
    ((bytes.getD 0 0).toNat + 256 * (bytes.getD 1 0).toNat +
      65536 * (bytes.getD 2 0).toNat +
      16777216 * (bytes.getD 3 0).toNat)

/- The bytes `put_unaligned_le32` writes. -/
def le32 (value : UInt32) : List UInt8 :=
  [UInt8.ofNat value.toNat,
    UInt8.ofNat (value.toNat / 256),
    UInt8.ofNat (value.toNat / 65536),
    UInt8.ofNat (value.toNat / 16777216)]

/- The flag of a copy, its byte 4. -/
def environmentFlag (bytes : List UInt8) : UInt8 :=
  bytes.getD 4 0

section Checksum

variable (crc32 : List UInt8 → UInt32)

/- `valid_environment` -/
def validEnvironment (bytes : List UInt8) : Bool :=
  getUnalignedLe32 bytes =
    crc32 ((bytes.drop 5).take (micaEnvSize - 5))

/- `decode_environment` -/
def decodeEnvironment
    (bytes : List UInt8) : Option MicaBootRecords :=
  (micaEnvValue bytes micaEnvSize).bind micaBootParse

------------------------------------------------------------
-- Reading
------------------------------------------------------------

/- What the two loaders do not share. -/
structure Board where
  /- `env_blocks`: the first block of each copy -/
  envBlocks : Fin 2 → Nat
  /- whether `persist_environment` flushes the device cache -/
  flushes : Bool
  disjoint :
    envBlocks 0 + micaEnvBlocks ≤ envBlocks 1

/- boards/cx3576/loader/mica-file-boot.c -/
def cx3576 : Board where
  envBlocks slot := if slot = 0 then 32768 else 34816
  flushes := true
  disjoint := by decide

/- boards/s905x5m/loader/mica-file-boot.c -/
def s905x5m : Board where
  envBlocks slot := if slot = 0 then 245760 else 253952
  flushes := false
  disjoint := by decide

/- The bytes of the system disk. -/
abbrev Disk := Device UInt8

/- The buffer of the two copies. -/
abbrev Copies := Fin 2 → List UInt8

variable (board : Board)

/- `blk_dread` of one copy. -/
def dreadCopy (disk : Disk) (slot : Fin 2) : List UInt8 :=
  disk.read (board.envBlocks slot * blockBytes) micaEnvSize

/-
  The copies after the reads of `read_environment`. The
  buffer is zero before them, and a read may fail.
-/
def dreadCopies
    (readable : Fin 2 → Bool)
    (disk : Disk) : Copies :=
  fun slot =>
    if readable slot then dreadCopy board disk slot
    else List.replicate micaEnvSize 0

/- The slot and records the copies select. -/
def selectEnvironment
    (readable : Fin 2 → Bool)
    (copies : Copies) : Option (Fin 2 × MicaBootRecords) :=
  let valid slot :=
    readable slot && validEnvironment crc32 (copies slot)
  match
    micaBootSlot (valid 0) (environmentFlag (copies 0))
      (valid 1) (environmentFlag (copies 1))
  with
  | none => none
  | some slot =>
      match decodeEnvironment (copies slot) with
      | none => none
      | some records => some (slot, records)

/- `read_environment` -/
def readEnvironment
    (readable : Fin 2 → Bool)
    (disk : Disk) : Option (Fin 2 × MicaBootRecords) :=
  selectEnvironment crc32 readable
    (dreadCopies board readable disk)

------------------------------------------------------------
-- Persisting
------------------------------------------------------------

/- How a request to the device ends. -/
inductive Reply where
| done
| failed
| powerCut
deriving DecidableEq, Repr

/-
  What the device does during one `persist_environment`.
  `landed` are the blocks of the write that are on the
  medium when the write, or the flush that has to complete
  it, does not succeed.
-/
structure PersistIo where
  write : Reply
  flush : Reply
  readback : Reply
  landed : Nat → Bool

/- The copy `persist_environment` builds for a text. -/
def pendingCopy
    (flag : UInt8)
    (text : List UInt8) : List UInt8 :=
  let pending := List.replicate micaEnvSize 0
  let pending := copyAt pending 4 [flag]
  let pending := micaEnvStore pending text
  copyAt pending 0
    (le32 (crc32 ((pending.drop 5).take (micaEnvSize - 5))))

/- The requests of one `persist_environment`. -/
inductive PersistStep where
| write
| flush
| readback
deriving DecidableEq, Repr

/-
  The durable disk after each request that was issued, how
  the function ends, and the buffer of the copies it leaves.
-/
structure Persist where
  steps : List (PersistStep × Disk)
  reply : Reply
  copies : Copies

/- The disk a persist leaves, from the disk before it. -/
def Persist.disk (persist : Persist) (disk : Disk) : Disk :=
  (persist.steps.map Prod.snd).getLastD disk

/-
  `persist_environment`. On a board that flushes, the write
  is durable when the flush has succeeded. The read-back
  replaces the buffer's selected copy.
-/
def persistEnvironment
    (io : PersistIo)
    (disk : Disk)
    (copies : Copies)
    (slot : Fin 2)
    (records : MicaBootRecords) : Persist :=
  match micaBootRender records with
  | none => ⟨[], .failed, copies⟩
  | some text =>
    let flag := environmentFlag (copies slot) + 1
    let pending := pendingCopy crc32 flag text
    let start := board.envBlocks (1 - slot) * blockBytes
    let torn := disk.tear blockBytes io.landed start pending
    let written := disk.write start pending
    let built := Function.update copies (1 - slot) pending
    let readback := dreadCopy board written (1 - slot)
    let compared :=
      if io.readback = .done ∧ readback ≠ pending then
        Reply.failed
      else
        io.readback
    let checked := Function.update built slot readback
    match io.write with
    | .powerCut => ⟨[(.write, torn)], .powerCut, built⟩
    | .failed => ⟨[(.write, torn)], .failed, built⟩
    | .done =>
      if board.flushes then
        match io.flush with
        | .powerCut =>
            ⟨[(.write, torn), (.flush, torn)], .powerCut,
              built⟩
        | .failed =>
            ⟨[(.write, torn), (.flush, torn)], .failed,
              built⟩
        | .done =>
            ⟨[(.write, torn), (.flush, written),
                (.readback, written)], compared, checked⟩
      else
        ⟨[(.write, written), (.readback, written)], compared,
          checked⟩

end Checksum

end Boot

end MicaBoards
