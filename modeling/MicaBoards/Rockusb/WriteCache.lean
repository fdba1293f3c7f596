import MicaBoards.Foundations.Buffer
import MicaBoards.Foundations.Device
import Mathlib.Tactic.SplitIfs

/-
  The write-back cache of the rockusb gadget
  (`boards/cx3576/loader/patches/
  0004-usb-gadget-rockusb-add-1m-write-cache.patch`).

  The contents of the device are its bytes; block `b` begins
  at byte `b * blksz`. The gadget has its device, and an
  allocation of the cache succeeds.

  Key definitions include:
    * `FRockusb`
    * `rockusbFlushWriteCache` and `rockusbCacheWrite`
    * `RockusbCall.run`
-/

------------------------------------------------------------
-- State
------------------------------------------------------------

namespace MicaBoards

namespace Rockusb

/- RKUSB_WRITE_CACHE_SIZE -/
def rkusbWriteCacheSize : Nat := 1048576

/- RKUSB_WRITE_CACHE_IDLE_MS -/
def rkusbWriteCacheIdleMs : UInt64 := 100

/- `lbaint_t` has 64 bits. -/
def lbaSpan : Nat := 18446744073709551616

/- The errors of the cache's functions. -/
inductive Errno where
| eio
| enodev
| einval
deriving DecidableEq, Repr

/-
  The fields of `struct f_rockusb` that belong to the cache,
  and the contents of its block device.
-/
structure FRockusb where
  device : Device UInt8
  writeCache : Option (List UInt8)
  writeCacheLba : Nat
  writeCacheBytes : Nat
  writeCacheLastMs : UInt64
  writeCacheFailed : Bool

/-
  `blk_dwrite`: how many of so many blocks at an address it
  has written.
-/
abbrev BlkDwrite := Nat → Nat → Nat

section Cache

variable (blksz : Nat)

variable (blkDwrite : BlkDwrite)

/- K_FW_LBA_WRITE_10 -/
variable (kFwLbaWrite10 : UInt8)

------------------------------------------------------------
-- The Cache
------------------------------------------------------------

/- `rockusb_flush_write_cache` -/
def rockusbFlushWriteCache
    (rkusb : FRockusb) : FRockusb × Option Errno :=
  if rkusb.writeCacheFailed then
    (rkusb, some .eio)
  else if rkusb.writeCacheBytes = 0 then
    (rkusb, none)
  else
    match rkusb.writeCache with
    | none => (rkusb, some .enodev)
    | some cache =>
      if rkusb.writeCacheBytes % blksz ≠ 0 then
        (rkusb, some .einval)
      else
        let blkcnt := rkusb.writeCacheBytes / blksz
        let blks := blkDwrite rkusb.writeCacheLba blkcnt
        let written :=
          { rkusb with
            device :=
              rkusb.device.write (rkusb.writeCacheLba * blksz)
                (cache.take (blks * blksz)) }
        if blks ≠ blkcnt then
          ({ written with writeCacheFailed := true }, some .eio)
        else
          ({ written with writeCacheBytes := 0 }, none)

/- The gadget after the copy of `rockusb_cache_write`. -/
def FRockusb.copied
    (rkusb : FRockusb)
    (lba : Nat)
    (buffer : List UInt8)
    (now : UInt64) : FRockusb :=
  { rkusb with
    writeCacheLba :=
      if rkusb.writeCacheBytes = 0 then lba
      else rkusb.writeCacheLba
    writeCache :=
      rkusb.writeCache.map
        (Buffer.copyAt · rkusb.writeCacheBytes buffer)
    writeCacheBytes := rkusb.writeCacheBytes + buffer.length
    writeCacheLastMs := now }

/-
  The end of `rockusb_cache_write`, from the test of an empty
  cache on.
-/
def rockusbCacheCopy
    (rkusb : FRockusb)
    (lba : Nat)
    (buffer : List UInt8)
    (now : UInt64) : FRockusb × Option Errno :=
  let copied := rkusb.copied lba buffer now
  if copied.writeCacheBytes = rkusbWriteCacheSize then
    rockusbFlushWriteCache blksz blkDwrite copied
  else
    (copied, none)

/- The sizes that `rockusb_cache_write` does not refuse. -/
def sizeAccepted (size : Nat) : Bool :=
  ¬ (size = 0 ∨ rkusbWriteCacheSize < size ∨ size % blksz ≠ 0)

/- The cache cannot take the block address, or the size. -/
def needsFlush
    (rkusb : FRockusb)
    (lba size : Nat) : Bool :=
  rkusb.writeCacheBytes ≠ 0 ∧
    (lba ≠
        (rkusb.writeCacheLba + rkusb.writeCacheBytes / blksz) %
          lbaSpan ∨
      rkusbWriteCacheSize - rkusb.writeCacheBytes < size)

/- `rockusb_cache_write` -/
def rockusbCacheWrite
    (rkusb : FRockusb)
    (lba : Nat)
    (buffer : List UInt8)
    (now : UInt64) : FRockusb × Option Errno :=
  if rkusb.writeCacheFailed then
    (rkusb, some .eio)
  else if sizeAccepted blksz buffer.length = false then
    (rkusb, some .einval)
  else if needsFlush blksz rkusb lba buffer.length then
    match rockusbFlushWriteCache blksz blkDwrite rkusb with
    | (flushed, some errno) => (flushed, some errno)
    | (flushed, none) =>
        rockusbCacheCopy blksz blkDwrite flushed lba buffer now
  else
    rockusbCacheCopy blksz blkDwrite rkusb lba buffer now

/- `get_rkusb`, for the cache -/
def getRkusb (rkusb : FRockusb) : FRockusb :=
  match rkusb.writeCache with
  | some _ => rkusb
  | none =>
      { rkusb with
        writeCache :=
          some (List.replicate rkusbWriteCacheSize 0) }

/- `rockusb_flush_write_cache_if_idle` -/
def rockusbFlushWriteCacheIfIdle
    (rkusb : FRockusb)
    (now : UInt64) : FRockusb × Option Errno :=
  let rkusb := getRkusb rkusb
  if rkusb.writeCacheBytes = 0 then
    (rkusb, if rkusb.writeCacheFailed then some .eio else none)
  else if now - rkusb.writeCacheLastMs < rkusbWriteCacheIdleMs
  then
    (rkusb, none)
  else
    rockusbFlushWriteCache blksz blkDwrite rkusb

/-
  The begin of `rx_handler_command`: whether the command of
  the block `CDB[0]` is dispatched.
-/
def rxHandlerCommand
    (rkusb : FRockusb)
    (command : UInt8) : FRockusb × Bool :=
  if command = kFwLbaWrite10 then
    (rkusb, true)
  else
    match rockusbFlushWriteCache blksz blkDwrite
        (getRkusb rkusb) with
    | (flushed, none) => (flushed, true)
    | (flushed, some _) => (flushed, false)

/- `rockusb_disable`, for the cache -/
def rockusbDisable (rkusb : FRockusb) : FRockusb :=
  { (rockusbFlushWriteCache blksz blkDwrite rkusb).1 with
    writeCache := none }

------------------------------------------------------------
-- Runs
------------------------------------------------------------

/- The calls that reach the cache. -/
inductive RockusbCall where
/- a write, from the handler of the downloaded data -/
| cacheWrite (lba : Nat) (buffer : List UInt8) (now : UInt64)
| flush
| flushIfIdle (now : UInt64)
| command (code : UInt8)
| disable
deriving DecidableEq, Repr

/- One call. The handlers take the gadget from `get_rkusb`. -/
def RockusbCall.step
    (rkusb : FRockusb)
    (call : RockusbCall) : FRockusb :=
  match call with
  | .cacheWrite lba buffer now =>
      (rockusbCacheWrite blksz blkDwrite (getRkusb rkusb) lba
        buffer now).1
  | .flush => (rockusbFlushWriteCache blksz blkDwrite rkusb).1
  | .flushIfIdle now =>
      (rockusbFlushWriteCacheIfIdle blksz blkDwrite rkusb now).1
  | .command code =>
      (rxHandlerCommand blksz blkDwrite kFwLbaWrite10 rkusb
        code).1
  | .disable => rockusbDisable blksz blkDwrite rkusb

/- Calls in a row. -/
def RockusbCall.run
    (rkusb : FRockusb)
    (calls : List RockusbCall) : FRockusb :=
  calls.foldl
    (RockusbCall.step blksz blkDwrite kFwLbaWrite10) rkusb

/- The gadget before its first call. -/
def FRockusb.start (device : Device UInt8) : FRockusb where
  device := device
  writeCache := none
  writeCacheLba := 0
  writeCacheBytes := 0
  writeCacheLastMs := 0
  writeCacheFailed := false

end Cache

end Rockusb

end MicaBoards
