import MicaBoards.Boot.Environment
import Mathlib.Data.Fin.VecNotation

/-
  `mica_file_boot` of the two loaders
  (`boards/*/loader/mica-file-boot.c`).

  A run is the list of its events, each with what is on the
  disk after it. A power cut between two events leaves a
  prefix of the list. What the hardware answers is a
  `BootIo`; what the loaders do not share is a `Loader`.

  Key definitions include:
    * `preflight`
    * `FitIo.available`
    * `micaFileBoot`
    * `bootRuns`
-/

------------------------------------------------------------
-- The Loaders
------------------------------------------------------------

namespace MicaBoards

namespace Boot

/- What `part_get_info` tells of a partition. -/
structure DiskPartition where
  start : Nat
  size : Nat
  name : String
deriving DecidableEq, Repr

/- The eMMC or SD device and its partition table. -/
structure MmcIo where
  initialized : Bool
  isSd : Bool
  selected : Bool
  blockSize : Nat
  partition : Nat → Option DiskPartition

/- What the checks before the environment ask for. -/
structure PreflightIo where
  verifySet : Bool
  /- the recovery button: found and on -/
  recoveryKey : Bool
  /- `store_get_type`, `store_bootup_bootidx` -/
  storeIsEmmc : Bool
  bootIndex : Nat
  watchdogFound : Bool
  watchdogStarted : Bool
  mmc : Option MmcIo
  buffer : Bool

/- The parts of a loader that depend on the board. -/
structure Loader extends Board where
  localRefuses : PreflightIo → Bool
  localReason : String
  sd : Bool
  mediumReason : String
  /- `starts` and `sizes` of `valid_layout` -/
  starts : Fin 3 → Nat
  sizes : Fin 3 → Nat

/- boards/cx3576/loader/mica-file-boot.c -/
def cx3576Loader : Loader where
  toBoard := cx3576
  localRefuses io := io.recoveryKey
  localReason := "local recovery key"
  sd := false
  mediumReason := "eMMC user area unavailable"
  starts := ![64, 36864, 2134016]
  sizes := ![36800, 2097152, 524288]

/- boards/s905x5m/loader/mica-file-boot.c -/
def s905x5mLoader : Loader where
  toBoard := s905x5m
  localRefuses io := !io.storeIsEmmc || io.bootIndex != 1
  localReason :=
    "Mica OS firmware must execute from eMMC boot0"
  sd := true
  mediumReason := "SD system disk unavailable"
  starts := ![64, 262144, 2359296]
  sizes := ![262080, 2097152, 524288]

/- `names` of `valid_layout` -/
def partitionNames : Fin 3 → String :=
  !["firmware", "system", "data"]

/- `valid_layout`, true where it returns 0 -/
def validLayout
    (loader : Loader)
    (mmc : MmcIo) : Bool :=
  decide (mmc.blockSize = 512) &&
    (List.finRange 3).all (fun i =>
      match mmc.partition (i + 1) with
      | none => false
      | some part =>
          decide (part.start = loader.starts i) &&
            decide (part.name = partitionNames i) &&
            (if i = 2 then
              decide (loader.sizes i ≤ part.size)
            else
              decide (part.size = loader.sizes i))) &&
    (mmc.partition 4).isNone

/-
  The checks before the environment: the reason of the
  recovery they end in, if they do.
-/
def preflight
    (loader : Loader)
    (io : PreflightIo) : Option String :=
  if io.verifySet = false then
    some "verification policy unavailable"
  else if loader.localRefuses io then
    some loader.localReason
  else if io.watchdogFound = false then
    some "required boot watchdog unavailable"
  else if io.watchdogStarted = false then
    some "required boot watchdog could not start"
  else
    match io.mmc with
    | none => some loader.mediumReason
    | some mmc =>
        if mmc.initialized = false ∨ mmc.isSd ≠ loader.sd ∨
            mmc.selected = false then
          some loader.mediumReason
        else if validLayout loader mmc = false then
          some "fresh three-partition layout required"
        else if io.buffer = false then
          some "environment buffer unavailable"
        else
          none

------------------------------------------------------------
-- The Kernel Image
------------------------------------------------------------

/- MICA_FIT_LIMIT -/
def micaFitLimit : Int := 128 * 1024 * 1024

/- What the file system and the image answer. -/
structure FitIo where
  partition : Bool
  /- the size `fs_size` reports -/
  size : Option Int
  partitionAgain : Bool
  /- the bytes `fs_read` loads -/
  loaded : Option Int
  header : Bool
  totalSize : Nat

/- The condition on which the image is handed to bootm. -/
def FitIo.available (fit : FitIo) : Bool :=
  match fit.size with
  | none => false
  | some bytes =>
      fit.partition && decide (0 < bytes) &&
        decide (bytes ≤ micaFitLimit) &&
        fit.partitionAgain &&
        decide (fit.loaded = some bytes) && fit.header &&
        decide ((fit.totalSize : Int) = bytes)

/- `/kernels/%s/boot.itb` -/
def kernelFile (kernel : CString 64) : List UInt8 :=
  [47, 107, 101, 114, 110, 101, 108, 115, 47] ++
    kernel.bytes ++
    [47, 98, 111, 111, 116, 46, 105, 116, 98]

------------------------------------------------------------
-- A Run
------------------------------------------------------------

/- What one run of `mica_file_boot` meets. -/
structure BootIo where
  preflight : PreflightIo
  readable : Fin 2 → Bool
  attempt : PersistIo
  fit : List UInt8 → FitIo
  bootmReturns : Bool
  retire : PersistIo

/- The events of a run. -/
inductive BootEvent where
| selected (slot : Fin 2) (records : MicaBootRecords)
| request (step : PersistStep)
| persisted (records : MicaBootRecords)
| launched (record : MicaBootRecord)
| returned
| unavailable
| reset
| recovery (reason : String)
deriving DecidableEq

/- The steps of a run, each with the disk after it. -/
abbrev BootSteps := List (BootEvent × Disk)

/- The steps of a persist, and those that follow it. -/
def persistSteps
    (persist : Persist)
    (disk : Disk)
    (records : MicaBootRecords)
    (failure : String)
    (rest : Disk → BootSteps) : BootSteps :=
  persist.steps.map (fun step => (.request step.1, step.2)) ++
    match persist.reply with
    | .powerCut => []
    | .failed => [(.recovery failure, persist.disk disk)]
    | .done =>
        (.persisted records, persist.disk disk) ::
          rest (persist.disk disk)

/- The record with other tries. -/
def MicaBootRecord.withTries
    (record : MicaBootRecord)
    (tries : Int) : MicaBootRecord :=
  { record with tries := tries }

section Checksum

variable (crc32 : List UInt8 → UInt32)

variable (loader : Loader)

variable (io : BootIo)

/- From the failed image to the reset. -/
def bootRetire
    (copies : Copies)
    (slot : Fin 2)
    (records : MicaBootRecords)
    (next : Nat)
    (selected : MicaBootRecord)
    (disk : Disk) : BootSteps :=
  if selected.tries < 0 then
    let records := records.set next (selected.withTries 0)
    persistSteps
      (persistEnvironment crc32 loader.toBoard io.retire disk
        copies slot records)
      disk records "failed confirmed image cannot be retired"
      (fun disk => [(.reset, disk)])
  else
    [(.reset, disk)]

/- From the selected record to the image and past it. -/
def bootLaunch
    (copies : Copies)
    (slot : Fin 2)
    (records : MicaBootRecords)
    (next : Nat)
    (selected : MicaBootRecord)
    (disk : Disk) : BootSteps :=
  if (io.fit (kernelFile selected.kernel)).available then
    (.launched selected, disk) ::
      if io.bootmReturns then
        (.returned, disk) ::
          bootRetire crc32 loader io copies slot records next
            selected disk
      else
        []
  else
    (.unavailable, disk) ::
      bootRetire crc32 loader io copies slot records next
        selected disk

/- From the records read to the end of the run. -/
def bootSelected
    (copies : Copies)
    (slot : Fin 2)
    (records : MicaBootRecords)
    (disk : Disk) : BootSteps :=
  match micaBootNext records with
  | none => [(.recovery "all deployments exhausted", disk)]
  | some next =>
    match records[next]? with
    | none => []
    | some selected =>
      if 0 < selected.tries then
        let selected := selected.withTries (selected.tries - 1)
        let records := records.set next selected
        let persist :=
          persistEnvironment crc32 loader.toBoard io.attempt
            disk copies slot records
        persistSteps persist disk records
          "attempt persistence failed; candidate not launched"
          (bootLaunch crc32 loader io persist.copies slot
            records next selected)
      else
        bootLaunch crc32 loader io copies slot records next
          selected disk

/- `mica_file_boot` -/
def micaFileBoot (disk : Disk) : BootSteps :=
  match preflight loader io.preflight with
  | some reason => [(.recovery reason, disk)]
  | none =>
    let copies := dreadCopies loader.toBoard io.readable disk
    match selectEnvironment crc32 io.readable copies with
    | none =>
        [(.recovery "redundant environment invalid", disk)]
    | some (slot, records) =>
        (.selected slot records, disk) ::
          bootSelected crc32 loader io copies slot records disk

end Checksum

------------------------------------------------------------
-- Runs In A Row
------------------------------------------------------------

/- The disk some steps leave, from the disk before them. -/
def stepsDisk (disk : Disk) (steps : BootSteps) : Disk :=
  (steps.map Prod.snd).getLastD disk

/- A run, and the steps it makes before the power is cut. -/
abbrev CutRun := BootIo × Nat

/- The steps of a run up to its cut. -/
def cutSteps
    (crc32 : List UInt8 → UInt32)
    (loader : Loader)
    (disk : Disk)
    (run : CutRun) : BootSteps :=
  (micaFileBoot crc32 loader run.1 disk).take run.2

/- The disk after runs in a row. -/
def runsDisk
    (crc32 : List UInt8 → UInt32)
    (loader : Loader)
    (disk : Disk)
    (runs : List CutRun) : Disk :=
  runs.foldl
    (fun disk run =>
      stepsDisk disk (cutSteps crc32 loader disk run))
    disk

/- The steps of runs in a row. -/
def bootRuns
    (crc32 : List UInt8 → UInt32)
    (loader : Loader) :
    Disk → List CutRun → BootSteps
| _, [] => []
| disk, run :: runs =>
    let steps := cutSteps crc32 loader disk run
    steps ++ bootRuns crc32 loader (stepsDisk disk steps) runs

end Boot

end MicaBoards
