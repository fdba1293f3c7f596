import MicaBoards.Wifi.ReorderWindow

/-
  What the reorder buffer is for: frames leave it in the order
  in which they were sent, and none leaves it twice. A sender
  counts its frames without an end, and each carries its
  number modulo 4096.

  This rests on what comes in: numbers stay near the window;
  a frame that is beyond the window finds a frame in the
  buffer that is not too far behind it, since an empty buffer
  moves the window one number short of the frame; and no
  A-MSDU is tainted.

  Key definitions include:
    * `Skb.windowed`, `InOrder`, `Proper`
    * `Reorder.Ordered`
  Main declarations:
    * `released_in_order`
-/

------------------------------------------------------------
-- Frames
------------------------------------------------------------

namespace MicaBoards

namespace Wifi

/- A frame that is put in order, and not past the buffer. -/
def Skb.windowed {α : Type} (skb : Skb α) : Bool :=
  skb.desc.isQosData && !skb.desc.isMcAddr &&
    !skb.desc.moreFrag && decide (skb.desc.fragNum = 0) &&
    !skb.skipReplayDetect

/- A frame whose A-MSDU is dropped. -/
def Skb.tainted {α : Type} (skb : Skb α) : Bool :=
  skb.desc.isAmsdu && skb.desc.amsduFirstIdx &&
    decide (skb.data.take 6 = snapHdr)

theorem amsduBit_ne_zero
    {idx : UInt8}
    (hIdx : idx < 8) :
    amsduBit idx ≠ 0 := by
  have hAll :
      ∀ i : Fin 8, amsduBit (UInt8.ofNat i.val) ≠ 0 := by decide
  have hBit := hAll ⟨idx.toNat, hIdx⟩
  rwa [UInt8.ofNat_toNat] at hBit

/- Of two frames in one A-MSDU: they are not the same. -/
def Apart {α : Type} (first second : Skb α) : Prop :=
  second.desc.isAmsdu = true ∧
    (first.desc.isAmsdu = true → first.desc.amsduIdx < 8 →
      first.desc.amsduIdx ≠ second.desc.amsduIdx)

/- The bits of a list, and of what is put behind it. -/
structure Slot.Marked {α : Type} (slot : Slot α) : Prop where
  bits :
    ∀ skb ∈ slot.frames, skb.desc.isAmsdu = true →
      amsduBit skb.desc.amsduIdx &&& slot.bitmap =
        amsduBit skb.desc.amsduIdx
  apart : slot.frames.Pairwise Apart
  clean : slot.taint = false

variable {α : Type}

theorem marked_empty : (Slot.empty : Slot α).Marked where
  bits _ hMem := absurd hMem List.not_mem_nil
  apart := List.Pairwise.nil
  clean := rfl

theorem and_or_of_and
    {bit bitmap : UInt8}
    (hBit : bit &&& bitmap = bit)
    (other : UInt8) :
    bit &&& (bitmap ||| other) = bit := by
  have hVec := congrArg UInt8.toBitVec hBit
  refine UInt8.toBitVec_inj.1 ?_
  rw [UInt8.toBitVec_and] at hVec
  rw [UInt8.toBitVec_and, UInt8.toBitVec_or]
  ext i hi
  have hAt := congrArg (fun v : BitVec 8 => v[i]) hVec
  simp only [BitVec.getElem_and, BitVec.getElem_or] at hAt ⊢
  cases hOne : bit.toBitVec[i] with
  | false => rfl
  | true =>
      rw [hOne, Bool.true_and] at hAt
      rw [hAt]
      rfl

theorem and_or_self (bit bitmap : UInt8) :
    bit &&& (bitmap ||| bit) = bit := by
  rw [UInt8.or_comm]
  exact and_or_of_and UInt8.and_self bitmap

/- The bitmap of a list and of a frame behind it. -/
theorem addAmsdu_bitmap
    {slot : Slot α}
    {skb : Skb α}
    {bit : UInt8}
    (hBit :
      bit &&& (slot.bitmap ||| amsduBit skb.desc.amsduIdx) =
        bit) :
    bit &&& (slot.addAmsdu skb).bitmap = bit := by
  simp only [Slot.addAmsdu]
  split_ifs
  · exact and_or_of_and hBit skwRxcbAmsduLast
  · exact hBit

/- A frame that is not in the list yet. -/
theorem Added.marked
    {slot after : Slot α}
    {skb : Skb α}
    (hMarked : slot.Marked)
    (hClean : skb.tainted = false)
    (hAdded : Added slot skb after) :
    after.Marked := by
  cases hAdded with
  | alone hNone hMsdu =>
      refine ⟨fun other hMem hAmsdu => ?_, ?_, hMarked.clean⟩
      · rw [hNone, List.nil_append, List.mem_singleton] at hMem
        rw [hMem, hMsdu] at hAmsdu
        exact absurd hAmsdu Bool.false_ne_true
      · rw [hNone]
        exact List.pairwise_singleton Apart skb
  | amsdu hAmsdu hNew =>
      refine ⟨fun other hMem hOther => ?_, ?_, ?_⟩
      · refine addAmsdu_bitmap ?_
        rcases List.mem_append.mp hMem with hOld | hLast
        · exact and_or_of_and (hMarked.bits other hOld hOther) _
        · rw [List.mem_singleton.mp hLast]
          exact and_or_self _ _
      · refine
          List.pairwise_append.mpr
            ⟨hMarked.apart, List.pairwise_singleton Apart skb, ?_⟩
        intro other hOld last hLast
        rw [List.mem_singleton.mp hLast]
        refine ⟨hAmsdu, fun hOther hIdx hSame => ?_⟩
        have hBit := hMarked.bits other hOld hOther
        rw [hSame, UInt8.and_comm, hNew] at hBit
        exact amsduBit_ne_zero (hSame ▸ hIdx) hBit.symm
      · have hTaint :
            (slot.addAmsdu skb).taint = (slot.taint || skb.tainted) := by
          simp only [Slot.addAmsdu, Skb.tainted, hAmsdu,
            Bool.true_and]
        rw [hTaint, hMarked.clean, hClean]
        rfl

------------------------------------------------------------
-- The Buffer
------------------------------------------------------------

/-
  By the sender's numbers: in order, or two frames of one
  A-MSDU.
-/
def InOrder
    (number : α → Nat)
    (first second : Skb α) : Prop :=
  number first.tag < number second.tag ∨
    number first.tag = number second.tag ∧ Apart first second

/- A frame of a list, with a number of the window. -/
structure Held
    (number : α → Nat)
    (start size n : Nat)
    (skb : Skb α) : Prop where
  windowed : skb.windowed = true
  list : number skb.tag % size = n % size
  low : start ≤ number skb.tag
  high : number skb.tag < start + size

namespace Reorder

/-
  Each list has the frames of one number of the window, and
  what was released came before.
-/
structure Ordered
    (number : α → Nat)
    (ssn : Nat)
    (reorder : Reorder α) : Prop where
  marked : ∀ n, (reorder.slot n).Marked
  held :
    ∀ n, ∀ skb ∈ (reorder.slot n).frames,
      Held number (reorder.start ssn) reorder.winSize n skb
  past :
    ∀ skb ∈ reorder.released, skb.windowed = true →
      number skb.tag < reorder.start ssn
  sorted :
    (reorder.released.filter Skb.windowed).Pairwise
      (InOrder number)

variable {number : α → Nat}
variable {ssn : Nat}
variable {reorder : Reorder α}

/- A step that leaves the window and the release list alone. -/
theorem Ordered.congr
    {after : Reorder α}
    (hOrdered : Ordered number ssn reorder)
    (hSize : after.winSize = reorder.winSize)
    (hBuf : after.reorderBuf = reorder.reorderBuf)
    (hMoved : after.moved = reorder.moved)
    (hReleased : after.released = reorder.released) :
    Ordered number ssn after := by
  have hSlot (n : Nat) : after.slot n = reorder.slot n := by
    unfold slot
    rw [hSize, hBuf]
  have hStart : after.start ssn = reorder.start ssn := by
    unfold start
    rw [hMoved]
  refine
    { marked := fun n => hSlot n ▸ hOrdered.marked n
      held := fun n skb hMem => ?_
      past := fun skb hMem hWindowed => ?_
      sorted := hReleased ▸ hOrdered.sorted }
  · rw [hSlot] at hMem
    rw [hStart, hSize]
    exact hOrdered.held n skb hMem
  · rw [hReleased] at hMem
    rw [hStart]
    exact hOrdered.past skb hMem hWindowed

/- What is left of the window when it starts one further on. -/
theorem Ordered.held_advance
    {n : Nat}
    {skb : Skb α}
    (hOrdered : Ordered number ssn reorder)
    (hOther :
      n % reorder.winSize ≠
        reorder.start ssn % reorder.winSize)
    (hMem : skb ∈ (reorder.slot n).frames) :
    Held number (reorder.start ssn + 1) reorder.winSize n skb := by
  rcases hOrdered.held n skb hMem with
    ⟨hWindowed, hList, hLow, hHigh⟩
  have hNot : number skb.tag ≠ reorder.start ssn := fun hSame =>
    hOther (hList.symm.trans (congrArg (· % _) hSame))
  exact ⟨hWindowed, hList, by omega, by omega⟩

/- The list at the window's start has that number. -/
theorem Ordered.number_start
    {skb : Skb α}
    (hOrdered : Ordered number ssn reorder)
    (hMem : skb ∈ (reorder.slot (reorder.start ssn)).frames) :
    number skb.tag = reorder.start ssn := by
  have hHeld := hOrdered.held _ skb hMem
  exact
    (eq_of_mod_winSize hHeld.list.symm hHeld.low hHeld.high).symm

/- Behind a release list come the frames of a number. -/
theorem Ordered.sorted_append
    {frames : List (Skb α)}
    (hOrdered : Ordered number ssn reorder)
    (hApart : frames.Pairwise Apart)
    (hNumber :
      ∀ skb ∈ frames, number skb.tag = reorder.start ssn) :
    ((reorder.released ++ frames).filter
      Skb.windowed).Pairwise (InOrder number) := by
  rw [List.filter_append]
  refine
    List.pairwise_append.mpr
      ⟨hOrdered.sorted, ?_, fun first hFirst second hSecond => ?_⟩
  · refine List.Pairwise.filter _ ?_
    refine List.Pairwise.imp_of_mem ?_ hApart
    intro first second hFirst hSecond hTwo
    exact
      .inr
        ⟨(hNumber first hFirst).trans (hNumber second hSecond).symm,
          hTwo⟩
  · rw [List.mem_filter] at hFirst hSecond
    refine .inl ?_
    rw [hNumber second hSecond.1]
    exact hOrdered.past first hFirst.1 hFirst.2

/- The list at the window's start is emptied, and no other. -/
theorem setSlot_empty_cases
    (hRegular : reorder.winSize ∣ snModulo)
    {sn : Nat}
    (hSn : sn % snModulo = reorder.start ssn % snModulo)
    (n : Nat) :
    (reorder.setSlot sn .empty).slot n = .empty ∨
      n % reorder.winSize ≠
          reorder.start ssn % reorder.winSize ∧
        (reorder.setSlot sn .empty).slot n = reorder.slot n := by
  have hList :
      sn % reorder.winSize =
        reorder.start ssn % reorder.winSize := by
    rw [← Nat.mod_mod_of_dvd sn hRegular, hSn,
      Nat.mod_mod_of_dvd _ hRegular]
  by_cases hSame : n % reorder.winSize = sn % reorder.winSize
  · exact .inl (slot_setSlot_of_eq hSame .empty)
  · exact
      .inr
        ⟨fun hStart => hSame (hStart.trans hList.symm),
          slot_setSlot_of_ne hSame .empty⟩

/- The list at the window's start is released. -/
theorem Ordered.releaseSlot_advance
    (hOrdered : Ordered number ssn reorder)
    (hRegular : reorder.winSize ∣ snModulo)
    {sn : Nat}
    (hSn : sn % snModulo = reorder.start ssn % snModulo) :
    Ordered number ssn (reorder.releaseSlot sn).advance := by
  have hSlot (n : Nat) :
      (reorder.releaseSlot sn).advance.slot n = .empty ∨
        n % reorder.winSize ≠
            reorder.start ssn % reorder.winSize ∧
          (reorder.releaseSlot sn).advance.slot n =
            reorder.slot n :=
    setSlot_empty_cases hRegular hSn n
  have hFrames :
      (reorder.slot sn).frames =
        (reorder.slot (reorder.start ssn)).frames :=
    congrArg Slot.frames (slot_congr hRegular hSn)
  have hStart :
      (reorder.releaseSlot sn).advance.start ssn =
        reorder.start ssn + 1 := rfl
  have hReleased :
      (reorder.releaseSlot sn).advance.released =
        reorder.released ++ (reorder.slot sn).frames := rfl
  have hNumber (skb : Skb α)
      (hMem : skb ∈ (reorder.slot sn).frames) :
      number skb.tag = reorder.start ssn :=
    hOrdered.number_start (hFrames ▸ hMem)
  refine
    { marked := fun n => ?_
      held := fun n skb hMem => ?_
      past := fun skb hMem hWindowed => ?_
      sorted := ?_ }
  · rcases hSlot n with hEmpty | ⟨-, hSame⟩
    · rw [hEmpty]
      exact marked_empty
    · rw [hSame]
      exact hOrdered.marked n
  · rcases hSlot n with hEmpty | ⟨hOther, hSame⟩
    · rw [hEmpty] at hMem
      exact absurd hMem List.not_mem_nil
    · rw [hSame] at hMem
      exact hOrdered.held_advance hOther hMem
  · rw [hStart]
    rcases List.mem_append.mp (hReleased ▸ hMem) with hOld | hNew
    · have hLess := hOrdered.past skb hOld hWindowed
      omega
    · rw [hNumber skb hNew]
      exact Nat.lt_succ_self _
  · rw [hReleased]
    exact
      hOrdered.sorted_append (hOrdered.marked sn).apart hNumber

/- The window starts one further on, past an empty list. -/
theorem Ordered.advance
    (hOrdered : Ordered number ssn reorder)
    (hNone :
      (reorder.slot (reorder.start ssn)).frames = []) :
    Ordered number ssn reorder.advance where
  marked := hOrdered.marked
  held n skb hMem := by
    refine hOrdered.held_advance (fun hSame => ?_) hMem
    have hList :
        reorder.slot n = reorder.slot (reorder.start ssn) := by
      unfold slot
      rw [hSame]
    rw [show reorder.advance.slot n = reorder.slot n from rfl,
      hList, hNone] at hMem
    exact absurd hMem List.not_mem_nil
  past skb hMem hWindowed :=
    Nat.lt_succ_of_lt (hOrdered.past skb hMem hWindowed)
  sorted := hOrdered.sorted

/- Without frames the window may start anywhere ahead. -/
theorem Ordered.moveTo
    (hOrdered : Ordered number ssn reorder)
    (hVacant : reorder.Vacant)
    (sn : Nat) :
    Ordered number ssn (reorder.moveTo sn) where
  marked := hOrdered.marked
  held n skb hMem := by
    rw [show (reorder.moveTo sn).slot n = reorder.slot n from rfl,
      hVacant n] at hMem
    exact absurd hMem List.not_mem_nil
  past skb hMem hWindowed := by
    have hLess := hOrdered.past skb hMem hWindowed
    have hStart :
        reorder.start ssn ≤ (reorder.moveTo sn).start ssn :=
      Nat.add_le_add_left (Nat.le_add_right _ _) ssn
    omega
  sorted := hOrdered.sorted

/- A frame of the window is put in its list. -/
theorem Ordered.setSlot
    {slot : Slot α}
    {skb : Skb α}
    {sn : Nat}
    (hOrdered : Ordered number ssn reorder)
    (hAdded : Added (reorder.slot sn) skb slot)
    (hClean : skb.tainted = false)
    (hHeld :
      Held number (reorder.start ssn) reorder.winSize sn skb) :
    Ordered number ssn (reorder.setSlot sn slot) where
  marked n := by
    by_cases hSame : n % reorder.winSize = sn % reorder.winSize
    · rw [slot_setSlot_of_eq hSame]
      exact hAdded.marked (hOrdered.marked sn) hClean
    · rw [slot_setSlot_of_ne hSame]
      exact hOrdered.marked n
  held n other hMem := by
    by_cases hSame : n % reorder.winSize = sn % reorder.winSize
    · rw [slot_setSlot_of_eq hSame, hAdded.frames] at hMem
      have hAt :
          Held number (reorder.start ssn) reorder.winSize sn
            other := by
        rcases List.mem_append.mp hMem with hOld | hNew
        · exact hOrdered.held sn other hOld
        · rw [List.mem_singleton.mp hNew]
          exact hHeld
      exact
        ⟨hAt.windowed, hAt.list.trans hSame.symm, hAt.low,
          hAt.high⟩
    · rw [slot_setSlot_of_ne hSame] at hMem
      exact hOrdered.held n other hMem
  past := hOrdered.past
  sorted := hOrdered.sorted

/- A frame that goes past the buffer has no place in it. -/
theorem Ordered.releaseSkb
    {skb : Skb α}
    (hOrdered : Ordered number ssn reorder)
    (hPast : skb.windowed = false) :
    Ordered number ssn (reorder.releaseSkb skb) where
  marked := hOrdered.marked
  held := hOrdered.held
  past other hMem hWindowed := by
    rcases List.mem_append.mp hMem with hOld | hNew
    · exact hOrdered.past other hOld hWindowed
    · rw [List.mem_singleton.mp hNew, hPast] at hWindowed
      exact absurd hWindowed Bool.false_ne_true
  sorted := by
    have hFilter :
        (reorder.releaseSkb skb).released.filter Skb.windowed =
          reorder.released.filter Skb.windowed := by
      simp only [Reorder.releaseSkb, List.filter_append,
        List.filter_cons, hPast, Bool.false_eq_true, if_false,
        List.filter_nil, List.append_nil]
    rw [hFilter]
    exact hOrdered.sorted

------------------------------------------------------------
-- The Loops
------------------------------------------------------------

/- The loop of the forced release, at the window's start. -/
theorem Ordered.forceTurn
    (hOrdered : Ordered number ssn reorder)
    (hTracks : Tracks ssn reorder) :
    Ordered number ssn (forceTurn reorder).advance := by
  have hSlot := hTracks.slot_winStart
  unfold Wifi.forceTurn
  simp only
  split_ifs with hNone hTaint
  · refine hOrdered.advance ?_
    rw [← hSlot]
    exact List.isEmpty_iff.mp hNone
  · have hClean := (hOrdered.marked reorder.winStart).clean
    exact absurd (hClean.symm.trans hTaint) Bool.false_ne_true
  · exact
      (hOrdered.releaseSlot_advance hTracks.regular
        hTracks.number).congr rfl rfl rfl rfl

theorem Ordered.forceLoop
    (toSn target turns : Nat)
    (hOrdered : Ordered number ssn reorder)
    (hTracks : Tracks ssn reorder) :
    Ordered number ssn (forceLoop toSn target turns reorder) := by
  induction turns generalizing reorder with
  | zero => exact hOrdered
  | succ turns ih =>
      unfold Wifi.forceLoop
      split_ifs with hOn hStored
      · exact hOrdered.moveTo (hTracks.vacant hStored) toSn
      · exact
          ih (hOrdered.forceTurn hTracks)
            (tracks_forceTurn hTracks)
      · exact hOrdered

theorem Ordered.delTimer
    (hOrdered : Ordered number ssn reorder) :
    Ordered number ssn reorder.delTimer :=
  hOrdered.congr rfl rfl rfl rfl

theorem Ordered.skwReorderForceRelease
    (current : Bool)
    (toSn : Nat)
    (hOrdered : Ordered number ssn reorder)
    (hTracks : Tracks ssn reorder) :
    Ordered number ssn
      (skwReorderForceRelease current reorder toSn) := by
  unfold Wifi.skwReorderForceRelease
  simp only
  split_ifs
  · exact
      hOrdered.delTimer.forceLoop toSn _ snModulo
        hTracks.delTimer
  · exact hOrdered.forceLoop toSn _ snModulo hTracks

theorem Ordered.skwSetReorderTimer
    (timeout : Timeout)
    (jiffies sn : Nat)
    (hOrdered : Ordered number ssn reorder) :
    Ordered number ssn
      (skwSetReorderTimer timeout jiffies reorder sn) := by
  unfold Wifi.skwSetReorderTimer
  cases hPending : reorder.timerPending with
  | true => exact hOrdered
  | false =>
      cases hFrames : (reorder.slot sn).frames with
      | nil => exact hOrdered
      | cons skb rest =>
          simp only [Bool.false_eq_true, if_false]
          split_ifs
          · exact hOrdered.congr rfl rfl rfl rfl
          · exact hOrdered.congr rfl rfl rfl rfl
          · exact hOrdered

theorem Ordered.timer
    {reorder' : Reorder α}
    (hOrdered : Ordered number ssn reorder)
    (hTimer :
      reorder' = reorder ∨ reorder' = reorder.delTimer) :
    Ordered number ssn reorder' := by
  rcases hTimer with hSame | hSame
  · exact hSame ▸ hOrdered
  · exact hSame ▸ hOrdered.delTimer

/- A turn of the release loop, at a number of the window. -/
theorem Ordered.next
    {timeout : Timeout}
    {jiffies first here sn : Nat}
    {release release' : Bool}
    {after : Reorder α}
    (hOrdered : Ordered number ssn reorder)
    (hScan : Scan ssn first here release sn reorder)
    (hNext :
      releaseTurn timeout jiffies release sn reorder =
        .next release' after) :
    Ordered number ssn after := by
  have hTurn :=
    turn_releaseTurn timeout jiffies release sn reorder
  rw [hNext] at hTurn
  cases hTurn with
  | gap hNone => exact hOrdered
  | forced hHeld hGap =>
      exact
        hOrdered.skwReorderForceRelease true (u16 sn)
          hScan.tracks
  | purged reorder' hTimer hHeld hLevel hTaint =>
      have hClean := (hOrdered.marked sn).clean
      exact absurd (hClean.symm.trans hTaint) Bool.false_ne_true
  | released reorder' hTimer hHeld hLevel =>
      have hScan' := hScan.timer hTimer
      have hStart :
          sn % snModulo = reorder'.start ssn % snModulo := by
        rw [hScan'.level hLevel]
        exact hScan'.number
      exact
        ((hOrdered.timer hTimer).releaseSlot_advance
          hScan'.tracks.regular hStart).congr rfl rfl rfl rfl

theorem Ordered.stop
    {timeout : Timeout}
    {jiffies sn : Nat}
    {release : Bool}
    {after : Reorder α}
    (hOrdered : Ordered number ssn reorder)
    (hStop :
      releaseTurn timeout jiffies release sn reorder =
        .stop after) :
    Ordered number ssn after := by
  have hTurn :=
    turn_releaseTurn timeout jiffies release sn reorder
  rw [hStop] at hTurn
  cases hTurn with
  | drained hStored => exact hOrdered.delTimer
  | watched hNone hPending => exact hOrdered
  | young hHeld hYoung =>
      exact hOrdered.skwSetReorderTimer timeout jiffies (u16 sn)
  | waits reorder' hTimer hHeld hYoung =>
      exact
        (hOrdered.timer hTimer).skwSetReorderTimer timeout
          jiffies (u16 sn)

theorem Ordered.skwReorderRelease
    (timeout : Timeout)
    (jiffies : Nat)
    (hOrdered : Ordered number ssn reorder)
    (hTracks : Tracks ssn reorder) :
    Ordered number ssn
      (skwReorderRelease timeout jiffies reorder) := by
  refine
    releaseLoop_induction
      (I := fun _ before => Ordered number ssn before)
      ?_ ?_ ?_ (scan_winStart hTracks) rfl hOrdered
  · exact fun _ _ _ _ _ _ hScan _ hBefore hTurn =>
      hBefore.next hScan hTurn
  · exact fun _ _ _ _ _ _ hBefore hTurn => hBefore.stop hTurn
  · exact fun _ _ _ _ hBefore => hBefore

end Reorder

------------------------------------------------------------
-- What Comes In
------------------------------------------------------------

/-
  What is asked of a frame: it carries the sender's number,
  which is near the window; it is not tainted; and if it is
  beyond the window there is a frame in the buffer that is not
  more than a window behind it.
-/
structure Comes
    (number : α → Nat)
    (ssn : Nat)
    (reorder : Reorder α)
    (skb : Skb α) : Prop where
  sn : skb.desc.sn.val = number skb.tag % snModulo
  behind :
    reorder.start ssn < number skb.tag + snModulo / 2
  ahead : number skb.tag < reorder.start ssn + snModulo / 2
  clean : skb.tainted = false
  fits :
    number skb.tag < reorder.start ssn + reorder.winSize ∨
      ∃ n, ∃ other ∈ (reorder.slot n).frames,
        number skb.tag ≤ number other.tag + reorder.winSize

/-
  What is asked of an action: frames are put in order as the
  driver is set up, and those that are meet the conditions.
-/
def Proper
    (number : α → Nat)
    (ssn : Nat)
    (reorder : Reorder α) :
    ReorderAction α → Prop
| .receive _ peer skb =>
    peer.rxReorderFlag = true ∧ peer.entry = true ∧
      skb.skipReplayDetect = false ∧
      (skb.windowed = true → Comes number ssn reorder skb)
| _ => True

section Steps

variable {number : α → Nat}
variable {ssn : Nat}
variable {reorder : Reorder α}

theorem Comes.sn_mod
    {skb : Skb α}
    (hComes : Comes number ssn reorder skb) :
    skb.desc.sn.val % snModulo = number skb.tag % snModulo := by
  rw [hComes.sn, Nat.mod_mod]

/- A frame that is taken has a number of the window. -/
theorem Comes.held
    {skb : Skb α}
    (hComes : Comes number ssn reorder skb)
    (hTracks : reorder.Tracks ssn)
    (hWindowed : skb.windowed = true)
    (hLow : reorder.start ssn ≤ number skb.tag)
    (hHigh :
      number skb.tag < reorder.start ssn + reorder.winSize) :
    Held number (reorder.start ssn) reorder.winSize
      skb.desc.sn skb where
  windowed := hWindowed
  list := by
    rw [hComes.sn, Nat.mod_mod_of_dvd _ hTracks.regular]
  low := hLow
  high := hHigh

/- A frame at its place. -/
theorem Reorder.Ordered.reorderPlace
    {skb : Skb α}
    (release : Bool)
    (hOrdered : reorder.Ordered number ssn)
    (hTracks : reorder.Tracks ssn)
    (hClean : skb.tainted = false)
    (hHeld :
      Held number (reorder.start ssn) reorder.winSize
        skb.desc.sn skb) :
    (reorderPlace reorder release skb).reorder.Ordered number
      ssn := by
  have hPlacing := placing_reorderPlace reorder release skb
  generalize Wifi.reorderPlace reorder release skb = placed
    at hPlacing ⊢
  cases hPlacing with
  | dropped count => exact hOrdered.congr rfl rfl rfl rfl
  | held slot hAdded count =>
      exact
        (hOrdered.setSlot hAdded hClean hHeld).congr rfl rfl rfl
          rfl
  | tainted slot hAdded hTaint count =>
      have hMarked :=
        hAdded.marked (hOrdered.marked skb.desc.sn) hClean
      exact
        absurd (hMarked.clean.symm.trans hTaint)
          Bool.false_ne_true
  | headed slot hAdded hHead count =>
      have hStart :
          skb.desc.sn.val % snModulo =
            reorder.start ssn % snModulo := by
        rw [hHead]
        exact hTracks.number
      have hReleased :=
        (hOrdered.setSlot hAdded hClean
          hHeld).releaseSlot_advance hTracks.regular hStart
      rcases
        Reorder.delHeadTimer_cases
          (((reorder.setSlot skb.desc.sn slot).stored
            count).releaseSlot skb.desc.sn) with
        hSame | hSame
      · rw [hSame]
        exact hReleased.congr rfl rfl rfl rfl
      · rw [hSame]
        exact hReleased.congr rfl rfl rfl rfl

theorem Reorder.Ordered.reorderOut
    {placed : Placed α}
    (timeout : Timeout)
    (jiffies sn : Nat)
    (hOrdered : placed.reorder.Ordered number ssn)
    (hTracks : placed.reorder.Tracks ssn) :
    (reorderOut timeout jiffies sn placed).Ordered number
      ssn := by
  unfold Wifi.reorderOut
  simp only
  split_ifs
  · exact hOrdered.skwReorderRelease timeout jiffies hTracks
  · exact hOrdered.skwSetReorderTimer timeout jiffies sn
  · exact hOrdered
  · exact hOrdered.delTimer

/- The window after it has moved for a frame beyond it. -/
theorem Comes.moved
    {skb : Skb α}
    (hComes : Comes number ssn reorder skb)
    (hOrdered : reorder.Ordered number ssn)
    (hTracks : reorder.Tracks ssn)
    (hBeyond :
      reorder.start ssn + reorder.winSize ≤ number skb.tag) :
    (skwReorderForceRelease true reorder
        (snSub skb.desc.sn reorder.winSize)).start ssn +
        reorder.winSize = number skb.tag + 1 := by
  have hSize := hTracks.size_pos
  have hAhead := hComes.ahead
  rcases hComes.fits with hWithin | ⟨n, other, hMem, hNear⟩
  · omega
  · have hOther := hOrdered.held n other hMem
    have hLow := hOther.low
    have hToSn :
        snSub skb.desc.sn reorder.winSize % snModulo =
          (number skb.tag - reorder.winSize) % snModulo := by
      unfold snSub
      rw [← SerialNumbers.sub_mod_left, hComes.sn_mod,
        SerialNumbers.sub_mod_left,
        SerialNumbers.sub_mod_of_le snModulo_pos (by omega),
        Nat.mod_mod]
    have hForced :=
      Reorder.forced_skwReorderForceRelease true hTracks hToSn
        (by omega) (by omega)
    have hSlot :
        reorder.slot (number other.tag) = reorder.slot n := by
      unfold Reorder.slot
      rw [hOther.list]
    have hStart :=
      hForced.held (number other.tag) hOther.low hOther.high
        (by omega)
        (by
          rw [hSlot]
          exact List.ne_nil_of_mem hMem)
    omega

theorem Reorder.Ordered.reorderWindow
    {skb : Skb α}
    (timeout : Timeout)
    (jiffies : Nat)
    (hOrdered : reorder.Ordered number ssn)
    (hTracks : reorder.Tracks ssn)
    (hWindowed : skb.windowed = true)
    (hComes : Comes number ssn reorder skb) :
    (reorderWindow timeout jiffies reorder skb).Ordered number
      ssn := by
  have hBehind := hComes.behind
  have hAhead := hComes.ahead
  have hHalf := half_snModulo
  have hSmall := hTracks.small
  have hEnd :
      (reorder.winStart + reorder.winSize) % snModulo =
        (reorder.start ssn + reorder.winSize) % snModulo := by
    rw [Nat.add_mod, hTracks.number, ← Nat.add_mod]
  have hOld :=
    snLess_iff hComes.sn_mod hTracks.number (by omega) (by omega)
  unfold Wifi.reorderWindow
  simp only
  split_ifs with hBefore hFilter hWithin
  · -- An old frame of a kind that is not dropped.
    refine hOrdered.releaseSkb ?_
    simp only [Skb.windowed, Bool.not_true, Bool.and_false]
  · refine
      Reorder.Ordered.reorderOut timeout jiffies _
        (hOrdered.congr rfl rfl rfl rfl) ?_
    exact
      ⟨hTracks.regular, hTracks.small, hTracks.counted,
        hTracks.number⟩
  · have hLow : reorder.start ssn ≤ number skb.tag :=
      Nat.le_of_not_lt (mt hOld.mpr hBefore)
    have hNew :=
      snLess_iff hComes.sn_mod hEnd (by omega) (by omega)
    have hHeld :=
      hComes.held hTracks hWindowed hLow (hNew.mp hWithin)
    exact
      (hOrdered.reorderPlace false hTracks hComes.clean
        hHeld).reorderOut timeout jiffies _
        (tracks_reorderPlace hTracks false skb)
  · have hLow : reorder.start ssn ≤ number skb.tag :=
      Nat.le_of_not_lt (mt hOld.mpr hBefore)
    have hNew :=
      snLess_iff hComes.sn_mod hEnd (by omega) (by omega)
    have hMoved :=
      hComes.moved hOrdered hTracks
        (Nat.le_of_not_lt (mt hNew.mpr hWithin))
    have hForced :=
      tracks_skwReorderForceRelease true
        (snSub skb.desc.sn reorder.winSize) hTracks
    have hSize :=
      (Reorder.keeps_skwReorderForceRelease true
        (snSub skb.desc.sn reorder.winSize)
        hTracks.size_pos).winSize
    have hPos := hTracks.size_pos
    have hHeld :
        Held number
          ((Wifi.skwReorderForceRelease true reorder
            (snSub skb.desc.sn reorder.winSize)).start ssn)
          (Wifi.skwReorderForceRelease true reorder
            (snSub skb.desc.sn reorder.winSize)).winSize
          skb.desc.sn skb :=
      { windowed := hWindowed
        list := by
          rw [hSize, hComes.sn,
            Nat.mod_mod_of_dvd _ hTracks.regular]
        low := by omega
        high := by omega }
    exact
      ((hOrdered.skwReorderForceRelease true _
          hTracks).reorderPlace true hForced hComes.clean
        hHeld).reorderOut timeout jiffies _
        (tracks_reorderPlace hForced true skb)

theorem Reorder.Ordered.reorderStep
    (timeout : Timeout)
    (hOrdered : reorder.Ordered number ssn)
    (hTracks : reorder.Tracks ssn)
    (action : ReorderAction α)
    (hProper : Proper number ssn reorder action) :
    (reorderStep timeout reorder action).Ordered number ssn := by
  cases action with
  | receive jiffies peer skb =>
      rcases hProper with ⟨hFlag, hEntry, hNew, hComes⟩
      simp only [Wifi.reorderStep, skwAmpduReorder]
      split_ifs with hPeer hFilter hQos hFrag
      · rw [hFlag, hEntry] at hPeer
        rcases hPeer with hOff | hOff
        · exact absurd hOff.symm Bool.false_ne_true
        · exact absurd hOff.symm Bool.false_ne_true
      · exact hOrdered.congr rfl rfl rfl rfl
      · refine hOrdered.releaseSkb ?_
        rcases hQos with hNot | hMc
        · simp only [Skb.windowed, hNot, Bool.false_and]
        · simp only [Skb.windowed, hMc, Bool.not_true,
            Bool.and_false, Bool.false_and]
      · refine hOrdered.releaseSkb ?_
        rcases hFrag with hMore | hNum
        · simp only [Skb.windowed, hMore, Bool.not_true,
            Bool.and_false, Bool.false_and]
        · simp only [Skb.windowed, hNum, decide_false,
            Bool.and_false, Bool.false_and]
      · have hWindowed : skb.windowed = true := by
          rw [not_or, Bool.not_eq_false, Bool.not_eq_true] at hQos
          rw [not_or, Bool.not_eq_true, not_not] at hFrag
          simp only [Skb.windowed, hQos.1, hQos.2, hFrag.1,
            hFrag.2, hNew, Bool.not_false, decide_true,
            Bool.and_self]
        exact
          hOrdered.reorderWindow timeout jiffies hTracks
            hWindowed (hComes hWindowed)
  | timer =>
      simp only [Wifi.reorderStep, skwReorderTimeout]
      split_ifs
      · exact hOrdered.congr rfl rfl rfl rfl
      · exact hOrdered
  | request ssn' => exact hOrdered.congr rfl rfl rfl rfl
  | todo jiffies =>
      simp only [Wifi.reorderStep, skwRxTodo]
      cases hTodo : reorder.todo with
      | none => exact hOrdered
      | some seq =>
          have hForced :=
            tracks_skwReorderForceRelease true seq hTracks
          exact
            Reorder.Ordered.skwReorderRelease timeout jiffies
              ((hOrdered.skwReorderForceRelease true seq
                hTracks).congr rfl rfl rfl rfl)
              ⟨hForced.regular, hForced.small, hForced.counted,
                hForced.number⟩

end Steps

------------------------------------------------------------
-- Runs
------------------------------------------------------------

section Runs

variable {number : α → Nat}

theorem ordered_skwAddTidRx
    (ssn bufSize : Nat) :
    (skwAddTidRx ssn bufSize : Reorder α).Ordered number ssn where
  marked _ := marked_empty
  held _ _ hMem := absurd hMem List.not_mem_nil
  past _ hMem _ := absurd hMem List.not_mem_nil
  sorted := List.Pairwise.nil

theorem ordered_run
    (timeout : Timeout)
    {bufSize : Nat}
    (hRegular : Regular bufSize)
    {ssn : Nat}
    {schedule : List (ReorderAction α)}
    (hProper :
      Schedule.Along (reorderStep timeout) (Proper number ssn)
        (skwAddTidRx ssn bufSize) schedule) :
    (Schedule.run (reorderStep timeout)
        (skwAddTidRx ssn bufSize) schedule).Tracks ssn ∧
      (Schedule.run (reorderStep timeout)
        (skwAddTidRx ssn bufSize) schedule).Ordered number ssn :=
  hProper.invariant
    (I := fun reorder : Reorder α =>
      reorder.Tracks ssn ∧ reorder.Ordered number ssn)
    (fun _ action hBefore hAction =>
      ⟨tracks_reorderStep timeout hBefore.1 action,
        hBefore.2.reorderStep timeout hBefore.1 action hAction⟩)
    ⟨tracks_skwAddTidRx hRegular ssn,
      ordered_skwAddTidRx ssn bufSize⟩

/-
  Beyond an empty buffer the window starts one number short,
  and the frame is taken for the one a window before it.
-/
example :
    ((Schedule.run (reorderStep ⟨100, 100⟩)
        (skwAddTidRx 0 64 : Reorder Nat)
        [.receive 1 ⟨true, true, 0⟩ (msduSkb 128),
          .receive 2 ⟨true, true, 0⟩ (msduSkb 1)]).released.map
      Skb.tag) = [128, 1] := by
  decide +kernel

end Runs

end Wifi

end MicaBoards
