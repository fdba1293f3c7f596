import MicaBoards.Foundations.SerialNumbers
import Mathlib.Logic.Function.Basic
import Mathlib.Data.List.Basic

/-
  The block ack window of the Wi-Fi driver (`skw_rx.c`,
  `skw_iface.c`), for one traffic class of one peer, from
  `skw_add_tid_rx` on. The receive thread reorders frames and
  handles what the timer and block ack requests have left for
  it to do; each of these runs by itself.

  A frame keeps a tag that the driver does not read. The
  control block of a list is that of its first frame.

  Key definitions include:
    * `Skb`, `Slot`, `Reorder`
    * `skwReorderForceRelease`, `skwReorderRelease`
    * `skwAmpduReorder`, `skwRxTodo`
    * `reorderStep`
-/

------------------------------------------------------------
-- Sequence Numbers
------------------------------------------------------------

namespace MicaBoards

namespace Wifi

/- IEEE80211_SN_MODULO -/
def snModulo : Nat := 4096

/- A number that is kept in, or passed as, a u16. -/
def u16 (n : Nat) : Nat := n % 65536

/- `ieee80211_sn_sub` -/
def snSub (a b : Nat) : Nat := SerialNumbers.sub snModulo a b

/- `ieee80211_sn_less` -/
def snLess (a b : Nat) : Bool := SerialNumbers.less snModulo a b

/- `ieee80211_sn_inc` -/
def snInc (a : Nat) : Nat := (a + 1) % snModulo

/- `ieee80211_sn_add` -/
def snAdd (a b : Nat) : Nat := (a + b) % snModulo

------------------------------------------------------------
-- Frames
------------------------------------------------------------

/- `struct skw_rx_desc`, as far as the receive path reads it. -/
structure RxDesc where
  sn : Fin snModulo
  fragNum : Nat
  moreFrag : Bool
  isMcAddr : Bool
  isAmsdu : Bool
  isQosData : Bool
  msduFilter : UInt8
  amsduIdx : UInt8
  amsduFirstIdx : Bool
  amsduLastIdx : Bool

/- A frame, with its data and its control block. -/
structure Skb (α : Type) where
  tag : α
  desc : RxDesc
  data : List UInt8
  rxTime : Nat
  skipReplayDetect : Bool

/- `snap_hdr` -/
def snapHdr : List UInt8 := [0xaa, 0xaa, 0x03, 0x00, 0x00, 0x00]

/- `BIT(idx)`, in the eight bits of `amsdu_bitmap` -/
def amsduBit (idx : UInt8) : UInt8 :=
  if idx < 8 then 1 <<< idx else 0

/- `BIT(idx + 1) - 1`, in the eight bits of `amsdu_mask` -/
def amsduMask (idx : UInt8) : UInt8 :=
  if idx < 7 then (1 <<< (idx + 1)) - 1 else 0xff

/- SKW_RXCB_AMSDU_LAST -/
def skwRxcbAmsduLast : UInt8 := 1

/- SKW_RX_FILTER_EXCL: EAP, WAPI, ARP, DHCP and DHCPv6 -/
def skwRxFilterExcl (msduFilter : UInt8) : Bool :=
  let filter := msduFilter &&& 0x1f
  filter = 5 || filter = 4 || filter = 2 || filter = 11 ||
    filter = 12

/-
  A list of the reorder buffer: its frames, and of the control
  block of the first one `amsdu_bitmap`, `amsdu_mask` and
  `amsdu_flags`.
-/
structure Slot (α : Type) where
  frames : List (Skb α)
  bitmap : UInt8
  mask : UInt8
  valid : Bool
  taint : Bool

def Slot.empty {α : Type} : Slot α := ⟨[], 0, 0, false, false⟩

/- `is_skw_release_ready` of a list with frames -/
def Slot.ready {α : Type} (slot : Slot α) : Bool :=
  !(slot.valid && decide (slot.bitmap ≠ slot.mask))

------------------------------------------------------------
-- The Buffer
------------------------------------------------------------

/-
  CONFIG_SKW_RX_REORDER_TIMEOUT, which the timer takes as
  milliseconds and `is_skw_msdu_timeout` as jiffies.
-/
structure Timeout where
  timer : Nat
  msdu : Nat

/-
  `struct skw_tid_rx` and `struct skw_reorder_rx`: the window,
  its lists, the timer with its sequence number, and what there
  is to do. Kept of the past are how far the window has moved,
  what was released, what was freed, and what was in a list
  when the lists were freed.
-/
structure Reorder (α : Type) where
  winStart : Nat
  winSize : Nat
  storedNum : Nat
  reorderBuf : Nat → Slot α
  timerPending : Bool
  expiredSn : Nat
  todo : Option Nat
  moved : Nat
  released : List (Skb α)
  freed : List (Skb α)
  leaked : List (Skb α)

namespace Reorder

variable {α : Type}
variable (reorder : Reorder α)

/- The list of a sequence number. -/
def slot (sn : Nat) : Slot α :=
  reorder.reorderBuf (sn % reorder.winSize)

def setSlot (sn : Nat) (slot : Slot α) : Reorder α :=
  { reorder with
    reorderBuf :=
      Function.update reorder.reorderBuf (sn % reorder.winSize)
        slot }

/- All frames of a list go to the release list. -/
def releaseSlot (sn : Nat) : Reorder α :=
  { reorder.setSlot sn .empty with
    released := reorder.released ++ (reorder.slot sn).frames }

/- `__skb_queue_purge` -/
def purgeSlot (sn : Nat) : Reorder α :=
  { reorder.setSlot sn .empty with
    freed := reorder.freed ++ (reorder.slot sn).frames }

/- A frame goes to the release list as it comes. -/
def releaseSkb (skb : Skb α) : Reorder α :=
  { reorder with released := reorder.released ++ [skb] }

def freeSkb (skb : Skb α) : Reorder α :=
  { reorder with freed := reorder.freed ++ [skb] }

/- `SKW_KFREE` of the lists, which no frame leaves. -/
def freeBuffer : Reorder α :=
  { reorder with
    reorderBuf := fun _ => .empty
    leaked :=
      reorder.leaked ++
        (List.range reorder.winSize).flatMap fun i =>
          (reorder.reorderBuf i).frames }

/- The window starts at the next number, or at another one. -/
def advance : Reorder α :=
  { reorder with
    winStart := snInc reorder.winStart
    moved := reorder.moved + 1 }

def moveTo (sn : Nat) : Reorder α :=
  { reorder with
    winStart := sn
    moved := reorder.moved + snSub sn reorder.winStart }

def stored (count : Nat) : Reorder α :=
  { reorder with storedNum := count }

def delTimer : Reorder α :=
  { reorder with timerPending := false }

/- The timer of the window's start is not needed any more. -/
def delHeadTimer : Reorder α :=
  if reorder.timerPending &&
      decide (reorder.expiredSn = reorder.winStart) then
    reorder.delTimer
  else
    reorder

end Reorder

section Functions

variable {α : Type}

/- `skw_set_reorder_timer` -/
def skwSetReorderTimer
    (timeout : Timeout)
    (jiffies : Nat)
    (reorder : Reorder α)
    (sn : Nat) : Reorder α :=
  if reorder.timerPending then
    reorder
  else
    match (reorder.slot sn).frames with
    | [] => reorder
    | skb :: _ =>
        if jiffies < skb.rxTime + timeout.timer then
          { reorder with timerPending := true, expiredSn := sn }
        else if reorder.todo = none then
          { reorder with todo := some sn }
        else
          reorder

/- `is_skw_msdu_timeout` -/
def isSkwMsduTimeout
    (timeout : Timeout)
    (jiffies : Nat)
    (slot : Slot α) : Bool :=
  match slot.frames with
  | [] => false
  | skb :: _ => decide (skb.rxTime + timeout.msdu < jiffies)

/- What the loop of `skw_reorder_force_release` releases. -/
def forceTurn (reorder : Reorder α) : Reorder α :=
  let list := reorder.slot reorder.winStart
  if list.frames.isEmpty then
    reorder
  else if list.taint then
    (reorder.purgeSlot reorder.winStart).stored
      (reorder.storedNum - 1)
  else
    (reorder.releaseSlot reorder.winStart).stored
      (reorder.storedNum - 1)

/- The loop, with a bound for its turns. -/
def forceLoop
    (toSn target : Nat) :
    Nat → Reorder α → Reorder α
| 0, reorder => reorder
| turns + 1, reorder =>
    if snLess reorder.winStart target then
      if reorder.storedNum = 0 then
        reorder.moveTo toSn
      else
        forceLoop toSn target turns (forceTurn reorder).advance
    else
      reorder

/-
  `skw_reorder_force_release`. The timer is that of the
  session unless `skw_del_tid_rx` has ended it.
-/
def skwReorderForceRelease
    (current : Bool)
    (reorder : Reorder α)
    (toSn : Nat) : Reorder α :=
  let target := snInc toSn
  let reorder :=
    if reorder.timerPending && current &&
        (snLess reorder.expiredSn toSn ||
          snLess toSn reorder.winStart) then
      reorder.delTimer
    else
      reorder
  forceLoop toSn target snModulo reorder

/- Where the loop of `skw_reorder_release` goes on. -/
inductive ReleaseTurn (α : Type) where
| next (release : Bool) (reorder : Reorder α)
| stop (reorder : Reorder α)

/- The list at the window's start. -/
def releaseHead
    (timeout : Timeout)
    (jiffies : Nat)
    (sn : Nat)
    (reorder : Reorder α) : ReleaseTurn α :=
  let list := reorder.slot sn
  if list.taint then
    .next false (reorder.purgeSlot sn)
  else if list.ready || isSkwMsduTimeout timeout jiffies list then
    .next true
      ((reorder.releaseSlot sn).advance.stored
        (reorder.storedNum - 1))
  else if reorder.timerPending then
    .stop reorder
  else
    .stop (skwSetReorderTimer timeout jiffies reorder (u16 sn))

/- A turn of the loop, at a number of the window. -/
def releaseTurn
    (timeout : Timeout)
    (jiffies : Nat)
    (release : Bool)
    (sn : Nat)
    (reorder : Reorder α) : ReleaseTurn α :=
  let list := reorder.slot sn
  if reorder.storedNum = 0 then
    .stop reorder.delTimer
  else if list.frames.isEmpty then
    if reorder.timerPending then .stop reorder
    else .next false reorder
  else if release = false then
    if isSkwMsduTimeout timeout jiffies list = false then
      .stop (skwSetReorderTimer timeout jiffies reorder (u16 sn))
    else
      .next true (skwReorderForceRelease true reorder (u16 sn))
  else
    releaseHead timeout jiffies sn reorder.delHeadTimer

/- The loop, with so many numbers left, from one on. -/
def releaseLoop
    (timeout : Timeout)
    (jiffies : Nat) :
    Nat → Bool → Nat → Reorder α → Reorder α
| 0, _, _, reorder => reorder
| left + 1, release, sn, reorder =>
    match releaseTurn timeout jiffies release sn reorder with
    | .next release reorder =>
        releaseLoop timeout jiffies left release (sn + 1) reorder
    | .stop reorder => reorder

/- `skw_reorder_release` -/
def skwReorderRelease
    (timeout : Timeout)
    (jiffies : Nat)
    (reorder : Reorder α) : Reorder α :=
  releaseLoop timeout jiffies reorder.winSize true
    reorder.winStart reorder

/- What `skw_ampdu_reorder` does behind its checks. -/
structure Placed (α : Type) where
  reorder : Reorder α
  /- `release` -/
  release : Bool
  /- whether `skb` is not freed -/
  kept : Bool

/- The end of `skw_ampdu_reorder`, at `out`. -/
def reorderOut
    (timeout : Timeout)
    (jiffies : Nat)
    (sn : Nat)
    (placed : Placed α) : Reorder α :=
  let reorder := placed.reorder
  if reorder.storedNum ≠ 0 then
    if placed.release then
      skwReorderRelease timeout jiffies reorder
    else if placed.kept then
      skwSetReorderTimer timeout jiffies reorder sn
    else
      reorder
  else
    reorder.delTimer

/- Behind the dup check: at the window's start, or not. -/
def reorderComplete
    (reorder : Reorder α)
    (release : Bool)
    (sn winStart : Nat) : Placed α :=
  if sn = winStart then
    ⟨(reorder.releaseSlot sn).delHeadTimer.advance, true, true⟩
  else
    ⟨reorder.stored (reorder.storedNum + 1), release, true⟩

/- The list of a frame of an A-MSDU, behind it. -/
def Slot.addAmsdu (slot : Slot α) (skb : Skb α) : Slot α :=
  let desc := skb.desc
  let bitmap := slot.bitmap ||| amsduBit desc.amsduIdx
  { frames := slot.frames ++ [skb]
    bitmap :=
      if desc.amsduLastIdx then bitmap ||| skwRxcbAmsduLast
      else bitmap
    mask :=
      if desc.amsduLastIdx then amsduMask desc.amsduIdx
      else slot.mask
    valid := true
    taint :=
      slot.taint ||
        desc.amsduFirstIdx && decide (skb.data.take 6 = snapHdr) }

/- A frame of an A-MSDU. -/
def reorderAmsdu
    (reorder : Reorder α)
    (release : Bool)
    (winStart : Nat)
    (skb : Skb α) : Placed α :=
  let sn := skb.desc.sn.val
  let list := reorder.slot sn
  let reorder :=
    if list.frames.isEmpty then
      reorder.stored (reorder.storedNum + 1)
    else
      reorder
  if list.bitmap &&& amsduBit skb.desc.amsduIdx ≠ 0 then
    ⟨reorder.freeSkb skb, release, false⟩
  else
    let list := list.addAmsdu skb
    let reorder := reorder.setSlot sn list
    if list.bitmap ≠ list.mask then
      ⟨reorder, release, true⟩
    else
      let reorder := reorder.stored (reorder.storedNum - 1)
      if list.taint then
        ⟨(reorder.purgeSlot sn).advance, release, false⟩
      else
        reorderComplete reorder release sn winStart

/- Any other frame. -/
def reorderMsdu
    (reorder : Reorder α)
    (release : Bool)
    (winStart : Nat)
    (skb : Skb α) : Placed α :=
  let sn := skb.desc.sn.val
  let list := reorder.slot sn
  if list.frames.isEmpty = false then
    ⟨reorder.freeSkb skb, release, false⟩
  else
    reorderComplete
      (reorder.setSlot sn
        { list with frames := list.frames ++ [skb] })
      release sn winStart

/- A frame that is not old, in a window that takes it. -/
def reorderPlace
    (reorder : Reorder α)
    (release : Bool)
    (skb : Skb α) : Placed α :=
  if skb.desc.isAmsdu then
    reorderAmsdu reorder release reorder.winStart skb
  else
    reorderMsdu reorder release reorder.winStart skb

/- `skw_ampdu_reorder`, from the window of the session on -/
def reorderWindow
    (timeout : Timeout)
    (jiffies : Nat)
    (reorder : Reorder α)
    (skb : Skb α) : Reorder α :=
  let sn := skb.desc.sn.val
  if snLess sn reorder.winStart then
    if skwRxFilterExcl skb.desc.msduFilter then
      reorder.releaseSkb { skb with skipReplayDetect := true }
    else
      reorderOut timeout jiffies sn
        ⟨reorder.freeSkb skb, false, false⟩
  else if snLess sn (reorder.winStart + reorder.winSize) then
    reorderOut timeout jiffies sn
      (reorderPlace reorder false skb)
  else
    reorderOut timeout jiffies sn
      (reorderPlace
        (skwReorderForceRelease true reorder
          (snSub sn reorder.winSize))
        true skb)

/-
  What `skw_ampdu_reorder` finds: `rx_reorder_flag`, whether
  the peer has an entry, and its `rx_filter`.
-/
structure PeerState where
  rxReorderFlag : Bool
  entry : Bool
  rxFilter : UInt32

/- `skw_ampdu_reorder` -/
def skwAmpduReorder
    (timeout : Timeout)
    (jiffies : Nat)
    (peer : PeerState)
    (reorder : Reorder α)
    (skb : Skb α) : Reorder α :=
  let desc := skb.desc
  let bit : UInt32 := 1 <<< (desc.msduFilter &&& 0x1f).toUInt32
  if peer.rxReorderFlag = false ∨ peer.entry = false then
    reorder.releaseSkb skb
  else if peer.rxFilter ≠ 0 ∧ peer.rxFilter &&& bit = 0 then
    reorder.freeSkb skb
  else if desc.isQosData = false ∨ desc.isMcAddr = true then
    reorder.releaseSkb skb
  else if desc.moreFrag = true ∨ desc.fragNum ≠ 0 then
    reorder.releaseSkb skb
  else
    reorderWindow timeout jiffies reorder skb

/- `skw_reorder_timeout`, when the timer runs out -/
def skwReorderTimeout (reorder : Reorder α) : Reorder α :=
  if reorder.timerPending then
    { reorder with
      timerPending := false
      todo := some (reorder.todo.getD reorder.expiredSn) }
  else
    reorder

/- `skw_update_tid_rx`, for a block ack request -/
def skwUpdateTidRx (reorder : Reorder α) (ssn : Nat) : Reorder α :=
  { reorder with todo := some (u16 ssn) }

/- `skw_rx_todo` -/
def skwRxTodo
    (timeout : Timeout)
    (jiffies : Nat)
    (reorder : Reorder α) : Reorder α :=
  match reorder.todo with
  | none => reorder
  | some seq =>
      let reorder := skwReorderForceRelease true reorder seq
      skwReorderRelease timeout jiffies
        { reorder with todo := none }

/- `skw_add_tid_rx` of a peer that has nothing to do -/
def skwAddTidRx (ssn bufSize : Nat) : Reorder α where
  winStart := u16 ssn
  winSize := u16 ((if 64 < bufSize then bufSize else 64) * 2)
  storedNum := 0
  reorderBuf := fun _ => .empty
  timerPending := false
  expiredSn := 0
  todo := none
  moved := 0
  released := []
  freed := []
  leaked := []

/- `skw_del_tid_rx`, and then `skw_free_tid_rx` -/
def skwDelTidRx (reorder : Reorder α) : Reorder α :=
  let winEnd := snAdd reorder.winStart (reorder.winSize - 1)
  (skwReorderForceRelease false reorder.delTimer
    winEnd).freeBuffer

end Functions

------------------------------------------------------------
-- Runs
------------------------------------------------------------

/- What happens next, and when. -/
inductive ReorderAction (α : Type) where
| receive (jiffies : Nat) (peer : PeerState) (skb : Skb α)
| timer
| request (ssn : Nat)
| todo (jiffies : Nat)

def reorderStep
    {α : Type}
    (timeout : Timeout)
    (reorder : Reorder α) :
    ReorderAction α → Reorder α
| .receive jiffies peer skb =>
    skwAmpduReorder timeout jiffies peer reorder skb
| .timer => skwReorderTimeout reorder
| .request ssn => skwUpdateTidRx reorder ssn
| .todo jiffies => skwRxTodo timeout jiffies reorder

end Wifi

end MicaBoards
