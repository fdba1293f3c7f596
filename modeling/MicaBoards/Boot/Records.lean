import Mathlib.Data.FinEnum
import Mathlib.Data.Nat.Digits.Defs
import Mathlib.Data.Nat.Digits.Lemmas

/-
  The boot-record value of the FIT loaders, as
  `common/uboot/mica-records.h` parses and renders it.

  A byte of C memory is a `UInt8`. A `char[65]` string is a
  `CString 64`: the bytes before its terminator. A
  `struct mica_boot_records` is the list of its first
  `count` entries, so `count` is the length of the list and
  a list longer than the limit stands for a larger `count`.

  Key definitions include:
    * `MicaBootRecord`
    * `micaBootParse`
    * `micaBootRender`
    * `micaBootNext`
    * `micaBootSlot`
-/

------------------------------------------------------------
-- Strings And Records
------------------------------------------------------------

namespace MicaBoards

namespace Boot

/- A string held in a `char[limit + 1]` buffer. -/
structure CString (limit : Nat) where
  bytes : List UInt8
  noNul : ∀ b ∈ bytes, b ≠ 0
  bound : bytes.length ≤ limit
deriving DecidableEq, Repr

/- Two strings with the same bytes are the same string. -/
@[ext] theorem CString.ext
    {limit : Nat}
    {left right : CString limit}
    (hBytes : left.bytes = right.bytes) :
    left = right := by
  cases left
  cases right
  simpa using hBytes

/- MICA_BOOT_RECORD_LIMIT -/
def micaBootRecordLimit : Nat := 2

/- MICA_BOOT_VALUE_LIMIT -/
def micaBootValueLimit : Nat := 512

/- MICA_BOOT_GENERATION_LIMIT -/
def micaBootGenerationLimit : UInt64 := 9007199254740991

/- struct mica_boot_record -/
structure MicaBootRecord where
  id : CString 64
  kernel : CString 64
  generation : UInt64
  tries : Int
deriving DecidableEq, Repr

/- struct mica_boot_records: the entries below `count`. -/
abbrev MicaBootRecords := List MicaBootRecord

------------------------------------------------------------
-- Parsing
------------------------------------------------------------

/- A byte of an id: `0` to `9` or `a` to `f`. -/
def micaBootIdByte (b : UInt8) : Bool :=
  (48 ≤ b && b ≤ 57) || (97 ≤ b && b ≤ 102)

/- No id byte is the string terminator. -/
theorem ne_zero_of_micaBootIdByte
    {b : UInt8}
    (hByte : micaBootIdByte b = true) :
    b ≠ 0 := by
  rintro rfl
  simp [micaBootIdByte] at hByte

/-
  `mica_boot_id` on the bytes from the cursor to the end:
  the id and the bytes after its comma.
-/
def micaBootId
    (p : List UInt8) :
    Option (CString 64 × List UInt8) :=
  if p.length < 65 ∨ p[64]? ≠ some 44 then
    none
  else if hId : ∀ b ∈ p.take 64, micaBootIdByte b = true then
    some
      (⟨p.take 64,
          fun b hb => ne_zero_of_micaBootIdByte (hId b hb),
          List.length_take_le 64 p⟩,
        p.drop 65)
  else
    none

/- The generation loop from the value read so far. -/
def micaBootGeneration
    (generation : UInt64) :
    List UInt8 → Option (UInt64 × List UInt8)
| [] => some (generation, [])
| b :: p =>
    if 48 ≤ b ∧ b ≤ 57 then
      let digit : UInt64 := (b - 48).toUInt64
      if (micaBootGenerationLimit - digit) / 10 <
          generation then
        none
      else
        micaBootGeneration (generation * 10 + digit) p
    else
      some (generation, b :: p)

/-
  The generation field: a first digit from `1` to `9`, then
  the generation loop from zero.
-/
def micaBootNumber :
    List UInt8 → Option (UInt64 × List UInt8)
| [] => none
| b :: p =>
    if b < 49 ∨ 57 < b then none
    else micaBootGeneration 0 (b :: p)

/- The comma and the tries byte: `-` is -1. -/
def micaBootTries :
    List UInt8 → Option (Int × List UInt8)
| comma :: t :: p =>
    if comma ≠ 44 then none
    else if t = 45 then some (-1, p)
    else if 48 ≤ t ∧ t ≤ 51 then
      some ((t - 48).toNat, p)
    else none
| _ => none

/-
  One turn of the record loop, its separator apart: the
  records with the parsed one added, and the bytes after it.
-/
def micaBootRecord
    (out : MicaBootRecords)
    (p : List UInt8) :
    Option (MicaBootRecords × List UInt8) := do
  let (id, p) ← micaBootId p
  let (kernel, p) ← micaBootId p
  let (generation, p) ← micaBootNumber p
  let (tries, p) ← micaBootTries p
  if ∃ r ∈ out, r.id = id ∨ r.generation ≤ generation then
    none
  else
    some (out ++ [⟨id, kernel, generation, tries⟩], p)

/-
  The record loop. `room` is the number of entries the
  structure still has, MICA_BOOT_RECORD_LIMIT - count.
-/
def micaBootRecordLoop :
    Nat → MicaBootRecords → List UInt8 →
      Option MicaBootRecords
| 0, _, _ => none
| room + 1, out, p =>
    match micaBootRecord out p with
    | none => none
    | some (out, []) => some out
    | some (out, b :: p) =>
        if b ≠ 59 ∨ p = [] then none
        else micaBootRecordLoop room out p

/-
  The bytes before the terminator, as the length loop
  counts them: it stops one byte past the limit.
-/
def micaBootLength : Nat → List UInt8 → Nat
| 0, _ => 0
| _ + 1, [] => 0
| room + 1, b :: text =>
    if b = 0 then 0 else micaBootLength room text + 1

/-
  `mica_boot_parse` on the memory from `text` on; a list
  that ends is followed by the terminator.
-/
def micaBootParse
    (text : List UInt8) :
    Option MicaBootRecords :=
  let length :=
    micaBootLength (micaBootValueLimit + 1) text
  if micaBootValueLimit < length ∨ length < 4 ∨
      text.take 3 ≠ [118, 49, 124] then
    none
  else
    micaBootRecordLoop micaBootRecordLimit []
      ((text.take length).drop 3)

------------------------------------------------------------
-- Rendering
------------------------------------------------------------

/- A `%llu` conversion. -/
def decimal (n : Nat) : List UInt8 :=
  if n = 0 then [48]
  else
    (Nat.digits 10 n).reverse.map
      (fun d => UInt8.ofNat (48 + d))

/- The tries byte `mica_boot_render` writes. -/
def micaBootTriesByte (tries : Int) : UInt8 :=
  if tries < 0 then 45 else UInt8.ofNat (48 + tries.toNat)

/- `%s,%s,%llu,%c` of one record. -/
def micaBootRecordText
    (r : MicaBootRecord) : List UInt8 :=
  r.id.bytes ++ 44 :: (r.kernel.bytes ++
    44 :: (decimal r.generation.toNat ++
      [44, micaBootTriesByte r.tries]))

/- The render loop, with the text written so far. -/
def micaBootRenderLoop
    (text : List UInt8)
    (separator : List UInt8) :
    MicaBootRecords → Option (List UInt8)
| [] => some text
| r :: records =>
    if r.tries < -1 ∨ 3 < r.tries then none
    else
      let written := separator ++ micaBootRecordText r
      if micaBootValueLimit - text.length <
          written.length then
        none
      else
        micaBootRenderLoop (text ++ written) [59] records

/-
  `mica_boot_render`: the text it leaves in the buffer when
  it succeeds.
-/
def micaBootRender
    (records : MicaBootRecords) :
    Option (List UInt8) :=
  if records.length = 0 ∨
      micaBootRecordLimit < records.length then
    none
  else
    match micaBootRenderLoop [118, 49, 124] [] records with
    | none => none
    | some text =>
        if (micaBootParse text).isSome then some text
        else none

------------------------------------------------------------
-- Selection
------------------------------------------------------------

/- `mica_boot_next`: the first entry with tries left. -/
def micaBootNext
    (records : MicaBootRecords) : Option Nat :=
  records.findIdx? (fun r => r.tries ≠ 0)

/- The copies are numbered. -/
instance neZero_two : NeZero 2 := ⟨Nat.succ_ne_zero 1⟩

/- `mica_boot_slot`: the newer of the valid copies. -/
def micaBootSlot
    (validA : Bool) (a : UInt8)
    (validB : Bool) (b : UInt8) :
    Option (Fin 2) :=
  if validA = false then
    if validB then some 1 else none
  else if validB = false then
    some 0
  else if (a = 255 ∧ b = 0) ∨
      (a < b ∧ ¬ (b = 255 ∧ a = 0)) then
    some 1
  else
    some 0

end Boot

end MicaBoards
